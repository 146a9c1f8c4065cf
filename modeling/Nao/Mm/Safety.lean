import Nao.Mm.Refinement

/-!
# Heap safety

What holds of the byte-level heap in every state its callers can reach, read off
the arena it refines:

* `heap_chain_tiles`       — the chain from `heap_start` tiles the heap array, its
  used headers are exactly those in front of a held pointer, and the loops of
  `kmalloc` and `kfree` terminate;
* `live_payloads_isolated` — the payloads of held pointers are disjoint, inside
  the heap and clear of headers, and no call changes a byte of them;
* `no_needless_oom`        — `kmalloc` panics only when no vacant region is long
  enough, and uses the lowest one otherwise.
-/

namespace Nao.Mm

open SysLib SysLib.BlockList

/-! ## The headers of a represented arena -/

/-- The chain of headers tiles the heap array. -/
structure Tiles (K : Site) (hs : List Header) : Prop where
  first : hs.head?.map Header.addr = some K.heapStart
  link  : hs.IsChain fun h h' => h.next = h'.addr ∧ h'.addr = h.addr + headerSize + h.size
  last  : ∀ h, hs.getLast? = some h →
            h.next = 0 ∧ h.addr + headerSize + h.size = K.heapStart + heapSize

/-- The headers of a list are its placed blocks. -/
theorem exists_mem_headersOf {a : Nat} {bs : List Block} {P : Nat → Nat → UInt8 → Prop} :
    (∃ h ∈ headersOf a bs, P h.addr h.size h.isFree) ↔
      ∃ o b, (o, b) ∈ place headerSize 0 bs ∧ P (a + o) b.size (freeFlag b) := by
  have hPlace : (∃ h ∈ headersOf a bs, P h.addr h.size h.isFree) ↔
      ∃ o b, (o, b) ∈ place headerSize a bs ∧ P o b.size (freeFlag b) := by
    induction bs generalizing a with
    | nil => simp [headersOf]
    | cons b bs ih =>
      simp only [headersOf, place_cons, List.mem_cons]
      constructor
      · rintro ⟨h, rfl | hmem, hP⟩
        · exact ⟨a, b, Or.inl rfl, hP⟩
        · obtain ⟨o, c, hc, hP'⟩ := ih.mp ⟨h, hmem, hP⟩
          exact ⟨o, c, Or.inr hc, hP'⟩
      · rintro ⟨o, c, heq | hmem, hP⟩
        · obtain ⟨rfl, rfl⟩ := Prod.mk.inj heq
          exact ⟨_, Or.inl rfl, hP⟩
        · obtain ⟨h, hh, hP'⟩ := ih.mpr ⟨o, c, hmem, hP⟩
          exact ⟨h, Or.inr hh, hP'⟩
  rw [hPlace]
  constructor
  · rintro ⟨o, b, hmem, hP⟩
    obtain ⟨pre, post, hbs, rfl⟩ := mem_place_iff.mp hmem
    exact ⟨_, b, mem_place_iff.mpr ⟨pre, post, hbs, by simp⟩, hP⟩
  · rintro ⟨o, b, hmem, hP⟩
    obtain ⟨pre, post, hbs, rfl⟩ := mem_place_iff.mp hmem
    rw [Nat.zero_add] at hP
    exact ⟨_, b, mem_place_iff.mpr ⟨pre, post, hbs, rfl⟩, hP⟩

theorem headersOf_isChain (a : Nat) (bs : List Block) :
    (headersOf a bs).IsChain fun h h' =>
      h.next = h'.addr ∧ h'.addr = h.addr + headerSize + h.size := by
  induction bs generalizing a with
  | nil => exact List.isChain_nil
  | cons b bs ih =>
    cases bs with
    | nil => exact List.isChain_singleton _
    | cons c bs =>
      refine List.isChain_cons_cons.mpr ⟨⟨rfl, ?_⟩, ih _⟩
      show a + span headerSize b = a + headerSize + b.size
      rw [span, Nat.add_assoc]

theorem headersOf_getLast? {a : Nat} {bs : List Block} {h : Header}
    (hLast : (headersOf a bs).getLast? = some h) :
    h.next = 0 ∧ h.addr + headerSize + h.size = a + extent headerSize bs := by
  induction bs generalizing a with
  | nil => simp [headersOf] at hLast
  | cons b bs ih =>
    cases bs with
    | nil =>
      simp only [headersOf, List.getLast?_singleton, Option.some.injEq] at hLast
      subst hLast
      refine ⟨rfl, ?_⟩
      show a + headerSize + b.size = a + extent headerSize [b]
      rw [extent_cons, extent_nil, span]
      omega
    | cons c bs =>
      have hRest : (headersOf (a + span headerSize b) (c :: bs)).getLast? = some h := by
        rw [← hLast]
        rfl
      have := ih hRest
      rw [extent_cons]
      omega

theorem Represents.tiles {K : Site} {m : Mem} {bs : List Block} (h : Represents K m bs) :
    Tiles K (headersOf K.heapStart bs) := by
  refine ⟨?_, headersOf_isChain _ _, ?_⟩
  · obtain ⟨b, bs', rfl⟩ := List.exists_cons_of_ne_nil h.ne_nil
    rfl
  · intro hd hLast
    have := headersOf_getLast? hLast
    rw [h.extent] at this
    exact this

/-- Whatever chain is read from the memory of an arena, it is the arena's. -/
theorem Inv.chain_eq {K : Site} {s : Sys} {A : Arena} (h : Inv K s A) {hs : List Header}
    (hChain : ChainFrom s.st.mem K.heapStart hs) : hs = headersOf K.heapStart A.blocks :=
  hChain.unique h.repr.chainFrom

/-! ## Progress -/

theorem Inv.kmalloc_ends {K : Site} {s : Sys} {A : Arena} (h : Inv K s A) (size : Nat) :
    ∃ fuel r, kmalloc K fuel size s.st = some r := by
  rcases h.kmalloc_total size with ⟨-, hRet⟩ | ⟨o, B, fuel, m, -, hRet, -⟩
  · exact ⟨_, _, hRet⟩
  · exact ⟨fuel, _, hRet⟩

theorem Inv.kfree_ends {K : Site} {s : Sys} {A : Arena} (h : Inv K s A) {p : Nat}
    (hp : p = 0 ∨ p ∈ s.live) : ∃ fuel st, kfree K fuel p s.st = some st := by
  rcases hp with rfl | hp
  · exact ⟨0, s.st, by simp [kfree]⟩
  · obtain ⟨o, size, hUsed, rfl, -⟩ := h.used_of_live hp
    obtain ⟨m, hRet, -⟩ := kfree_spec (s := s.st) h.repr hUsed
    exact ⟨_, _, hRet⟩

/-! ## A heap in use

A small run to instantiate the theorems at: `init_mm`, then a request for 5 and one
for 100 bytes, on a heap array linked at 3 MiB. -/

def demoSite : Site := { heapStart := 0x300000, pos := by decide, fits := by decide }

def demoBoot : State := { mem := fun _ => 0, mmInitialized := false }

theorem demo_first_call :
    (kmalloc demoSite 1 5 (initMm demoSite demoBoot)).map Prod.fst = some (.ptr 0x30000c) := by
  decide

theorem demo_second_call :
    ((kmalloc demoSite 1 5 (initMm demoSite demoBoot)).bind fun r =>
      kmalloc demoSite 2 100 r.2).map Prod.fst = some (.ptr 0x300020) := by
  decide

theorem demo_reachable : ∃ s, Reachable demoSite s ∧ s.live = [0x300020, 0x30000c] := by
  obtain ⟨⟨_, st₁⟩, hRet₁, rfl⟩ := Option.map_eq_some_iff.mp demo_first_call
  have h₂ := demo_second_call
  rw [hRet₁, Option.bind_some] at h₂
  obtain ⟨⟨_, st₂⟩, hRet₂, rfl⟩ := Option.map_eq_some_iff.mp h₂
  refine ⟨{ st := st₂, live := [0x300020, 0x30000c] }, ⟨demoBoot, [.kmalloc 5, .kmalloc 100], ?_⟩, rfl⟩
  exact .cons (.kmalloc (by decide) hRet₁) (.cons (.kmalloc (by decide) hRet₂) (.nil _))

/--
**Heap representation invariant.** In every state of the heap in use the headers
chained from `heap_start` tile the heap array exactly, the headers with
`is_free = 0` are those twelve bytes in front of a held pointer, and the search
loop of `kmalloc` and the coalescing loop of `kfree` come to an end.
-/
theorem heap_chain_tiles {K : Site} {s : Sys} (h : Reachable K s) :
    ∃ hs, ChainFrom s.st.mem K.heapStart hs ∧ Tiles K hs ∧
      (∀ a, (∃ hd ∈ hs, hd.addr = a ∧ hd.isFree = 0) ↔ ∃ p ∈ s.live, p = a + headerSize) ∧
      (∀ size, size < 2 ^ 32 → ∃ fuel r, kmalloc K fuel size s.st = some r) ∧
      ∀ p, p = 0 ∨ p ∈ s.live → ∃ fuel st, kfree K fuel p s.st = some st := by
  obtain ⟨A, hInv⟩ := reachable_inv h
  refine ⟨headersOf K.heapStart A.blocks, hInv.repr.chainFrom, hInv.repr.tiles, ?_,
    fun size _ => hInv.kmalloc_ends size, fun p hp => hInv.kfree_ends hp⟩
  intro a
  rw [exists_mem_headersOf (P := fun addr _ isFree => addr = a ∧ isFree = 0)]
  constructor
  · rintro ⟨o, b, hmem, rfl, hFlag⟩
    have hb : ¬ b.free = true := fun hFree => freeFlag_ne_zero_iff.mpr hFree hFlag
    rw [Block.eq_used hb] at hmem
    exact ⟨_, (hInv.live _).mpr ⟨o, b.size, hmem, rfl⟩, rfl⟩
  · rintro ⟨p, hp, rfl⟩
    obtain ⟨o, size, hUsed, heq⟩ := (hInv.live _).mp hp
    exact ⟨o, _, hUsed, by omega, rfl⟩

theorem heap_chain_tiles_demo :
    ∃ s, s.live = [0x300020, 0x30000c] ∧ Reachable demoSite s ∧
      ∃ hs, ChainFrom s.st.mem demoSite.heapStart hs ∧ Tiles demoSite hs := by
  obtain ⟨s, hReach, hLive⟩ := demo_reachable
  obtain ⟨hs, hChain, hTiles, -⟩ := heap_chain_tiles hReach
  exact ⟨s, hLive, hReach, hs, hChain, hTiles⟩

/-! ## Isolation -/

/-- Held pointers and their payloads, in terms of the arena. -/
theorem Inv.kept_of_payload {K : Site} {s : Sys} {A : Arena} (h : Inv K s A) {p x : Nat}
    (hp : p ∈ s.live) (hx : p ≤ x ∧ x < p + blockSize s.st.mem p) : Kept K A x := by
  obtain ⟨o, size, hUsed, rfl, hSize⟩ := h.used_of_live hp
  rw [hSize] at hx
  exact Or.inr (Or.inr ⟨o, size, hUsed, hx⟩)

theorem Inv.blockSize_eq {K : Site} {s : Sys} {A : Arena} (h : Inv K s A) {o size : Nat}
    (hUsed : A.Used o size) : blockSize s.st.mem (K.heapStart + o + headerSize) = size := by
  have hp := (h.live (K.heapStart + o + headerSize)).mpr ⟨o, size, hUsed, rfl⟩
  obtain ⟨o', size', hUsed', heq, hSize⟩ := h.used_of_live hp
  have ho : o' = o := by omega
  subst ho
  rw [hSize, hUsed'.size_unique hUsed]

/-- What a step keeps of the block at `p`: the pointer stays held, with the same
block behind it, and no byte of it changes but those in `written`. -/
structure Keeps (p : Nat) (written : Nat → Prop) (s s' : Sys) : Prop where
  live  : p ∈ s.live → p ∈ s'.live
  size  : p ∈ s.live → blockSize s'.st.mem p = blockSize s.st.mem p
  bytes : p ∈ s.live → ∀ x, p ≤ x → x < p + blockSize s.st.mem p → ¬ written x →
            s'.st.mem x = s.st.mem x

theorem Keeps.refl (p : Nat) (written : Nat → Prop) (s : Sys) : Keeps p written s s :=
  ⟨id, fun _ => rfl, fun _ _ _ _ _ => rfl⟩

theorem Keeps.trans {p : Nat} {written : Nat → Prop} {s s' s'' : Sys}
    (h : Keeps p written s s') (h' : Keeps p written s' s'') : Keeps p written s s'' := by
  refine ⟨fun hp => h'.live (h.live hp), ?_, ?_⟩
  · intro hp
    rw [h'.size (h.live hp), h.size hp]
  · intro hp x hlo hhi hx
    have hhi' : x < p + blockSize s'.st.mem p := by
      rw [h.size hp]
      exact hhi
    rw [h'.bytes (h.live hp) x hlo hhi' hx, h.bytes hp x hlo hhi hx]

/-- Every step but the free of `p` keeps its block, except for the holder's writes. -/
theorem Inv.step_keeps {K : Site} {s s' : Sys} {A : Arena} {op : Op} {p : Nat}
    {written : Nat → Prop} (h : Inv K s A) (hStep : Step K s op s') (hFree : op ≠ .kfree p)
    (hStore : ∀ x v, op = .store x v → written x) : Keeps p written s s' := by
  cases op with
  | kmalloc size =>
    obtain ⟨o, B, hAlloc, hLive, hInv, hKept⟩ := h.step_kmalloc hStep
    obtain ⟨granted, -, hUsed⟩ := Arena.mem_used_alloc hAlloc
    refine ⟨fun hp => by rw [hLive]; exact List.mem_cons_of_mem _ hp, ?_,
      fun hp x hlo hhi _ => hKept x (h.kept_of_payload hp ⟨hlo, hhi⟩)⟩
    intro hp
    obtain ⟨o', size', hU, rfl, hSize⟩ := h.used_of_live hp
    rw [hInv.blockSize_eq ((hUsed o' size').mpr (Or.inl hU)), hSize]
  | kfree q =>
    have hq : q = 0 ∨ q ∈ s.live := by
      cases hStep with
      | kfree hq _ => exact hq
    rcases hq with rfl | hq
    · rw [h.step_kfree_null hStep]
      exact Keeps.refl p written s
    · obtain ⟨o, size, hUsed, rfl, -⟩ := h.used_of_live hq
      obtain ⟨hLive, hInv, hKept⟩ := h.step_kfree hUsed hStep
      have hne : p ≠ K.heapStart + o + headerSize := fun heq => hFree (by rw [heq])
      -- the block of `p` is in use after the free as well
      have hAfter : p ∈ s.live → ∃ o' size', (A.free o).Used o' size' ∧
          p = K.heapStart + o' + headerSize ∧ blockSize s.st.mem p = size' := by
        intro hp
        obtain ⟨o', size', hU, rfl, hSize⟩ := h.used_of_live hp
        exact ⟨o', size', Arena.mem_used_free.mpr ⟨hU, fun heq => hne (by rw [heq])⟩, rfl, hSize⟩
      refine ⟨?_, ?_, ?_⟩
      · intro hp
        rw [hLive]
        exact (List.mem_erase_of_ne hne).mpr hp
      · intro hp
        obtain ⟨o', size', hU, rfl, hSize⟩ := hAfter hp
        rw [hInv.blockSize_eq hU, hSize]
      · intro hp x hlo hhi _
        obtain ⟨o', size', hU, rfl, hSize⟩ := hAfter hp
        rw [hSize] at hhi
        exact hKept x (Or.inr (Or.inr ⟨o', size', hU, hlo, hhi⟩))
  | store a v =>
    obtain ⟨hLive, hInv, hBytes⟩ := h.step_store hStep
    refine ⟨fun hp => by rw [hLive]; exact hp, ?_, ?_⟩
    · intro hp
      obtain ⟨o', size', hU, rfl, hSize⟩ := h.used_of_live hp
      rw [hInv.blockSize_eq hU, hSize]
    · intro _ x _ _ hx
      exact hBytes x fun heq => hx (heq ▸ hStore a v rfl)

/-- The run form: what no operation of a run frees is kept by the whole run. -/
theorem Inv.run_keeps {K : Site} {s s' : Sys} {A : Arena} {ops : List Op} {p : Nat}
    (h : Inv K s A) (hRun : Run (Step K) s ops s') (hFree : .kfree p ∉ ops) :
    Keeps p (fun x => ∃ v, .store x v ∈ ops) s s' := by
  refine Run.preserve (fun s => ∃ A, Inv K s A)
    (fun op => op ≠ .kfree p ∧ ∀ x v, op = .store x v → ∃ v, .store x v ∈ ops)
    (Keeps.refl p _) (fun _ _ _ => Keeps.trans) ?_ ⟨A, h⟩ ?_ hRun
  · rintro s op s' ⟨A, hInv⟩ ⟨hNe, hNs⟩ hStep
    obtain ⟨B, -, hInv'⟩ := step_refines hInv hStep
    exact ⟨⟨B, hInv'⟩, hInv.step_keeps hStep hNe hNs⟩
  · intro op hop
    exact ⟨fun heq => hFree (heq ▸ hop), fun x v heq => ⟨v, heq ▸ hop⟩⟩

/--
**Isolation.** In every state of the heap in use the payloads of the held pointers
are pairwise disjoint, lie inside the heap array and contain no byte of a header of
the chain; and along every continuation that does not free `p`, the block behind
`p` stays put and each byte of it changes only by the holder's own write: no
`kmalloc`, and no `kfree` of another pointer, touches it.
-/
theorem live_payloads_isolated {K : Site} {s : Sys} (h : Reachable K s) :
    (∀ p ∈ s.live, ∀ q ∈ s.live, p ≠ q →
      p + blockSize s.st.mem p ≤ q ∨ q + blockSize s.st.mem q ≤ p) ∧
    (∀ p ∈ s.live, K.heapStart ≤ p ∧
      p + blockSize s.st.mem p ≤ K.heapStart + heapSize) ∧
    (∀ hs, ChainFrom s.st.mem K.heapStart hs → ∀ hd ∈ hs, ∀ p ∈ s.live,
      ∀ x, p ≤ x → x < p + blockSize s.st.mem p →
        ¬ (hd.addr ≤ x ∧ x < hd.addr + headerSize)) ∧
    (∀ ops s', Run (Step K) s ops s' → ∀ p ∈ s.live, .kfree p ∉ ops →
      p ∈ s'.live ∧ blockSize s'.st.mem p = blockSize s.st.mem p ∧
      ∀ x, p ≤ x → x < p + blockSize s.st.mem p → (∀ v, .store x v ∉ ops) →
        s'.st.mem x = s.st.mem x) := by
  obtain ⟨A, hInv⟩ := reachable_inv h
  refine ⟨?_, ?_, ?_, ?_⟩
  · intro p hp q hq hne
    obtain ⟨o, size, hU, rfl, hSize⟩ := hInv.used_of_live hp
    obtain ⟨o', size', hU', rfl, hSize'⟩ := hInv.used_of_live hq
    rw [hSize, hSize']
    rcases hU.disjoint hU' with ⟨rfl, -⟩ | hlt | hlt
    · exact absurd rfl hne
    · omega
    · omega
  · intro p hp
    obtain ⟨o, size, hU, rfl, hSize⟩ := hInv.used_of_live hp
    have := hU.bounds
    omega
  · intro hs hChain hd hmem p hp x hlo hhi hIn
    rw [hInv.chain_eq hChain] at hmem
    obtain ⟨o, b, hPlace, hAddr, -⟩ :=
      (exists_mem_headersOf (P := fun addr _ _ => addr = hd.addr ∧ True)).mp
        ⟨hd, hmem, rfl, trivial⟩
    obtain ⟨o', size', hU, rfl, hSize⟩ := hInv.used_of_live hp
    rw [← hAddr] at hIn
    rcases place_disjoint hPlace hU with ⟨rfl, -⟩ | hlt | hlt
    · omega
    · rw [span] at hlt
      omega
    · rw [span_mk] at hlt
      omega
  · intro ops s' hRun p hp hFree
    have hKeeps := hInv.run_keeps hRun hFree
    refine ⟨hKeeps.live hp, hKeeps.size hp, ?_⟩
    intro x hlo hhi hStore
    refine hKeeps.bytes hp x hlo hhi ?_
    rintro ⟨v, hv⟩
    exact hStore v hv

theorem live_payloads_isolated_demo :
    ∃ s s', s.live = [0x300020, 0x30000c] ∧ Reachable demoSite s ∧
      Step demoSite s (.kfree 0x300020) s' ∧
      (0x30000c + blockSize s.st.mem 0x30000c ≤ 0x300020 ∨
        0x300020 + blockSize s.st.mem 0x300020 ≤ 0x30000c) ∧
      ∀ x, 0x30000c ≤ x → x < 0x30000c + blockSize s.st.mem 0x30000c →
        s'.st.mem x = s.st.mem x := by
  obtain ⟨s, hReach, hLive⟩ := demo_reachable
  obtain ⟨hDisjoint, -, -, hFrame⟩ := live_payloads_isolated hReach
  obtain ⟨A, hInv⟩ := reachable_inv hReach
  have hp : 0x30000c ∈ s.live := by simp [hLive]
  have hq : 0x300020 ∈ s.live := by simp [hLive]
  obtain ⟨fuel, st, hRet⟩ := hInv.kfree_ends (Or.inr hq)
  have hStep : Step demoSite s (.kfree 0x300020) _ := .kfree (Or.inr hq) hRet
  refine ⟨s, _, hLive, hReach, hStep, hDisjoint _ hp _ hq (by decide), ?_⟩
  intro x hlo hhi
  exact (hFrame _ _ (.cons hStep (.nil _)) _ hp (by simp)).2.2 x hlo hhi (by simp)

/-! ## No needless out-of-memory -/

/-- The byte `x` of the heap array belongs to no held block, header included. -/
def VacantByte (K : Site) (s : Sys) (x : Nat) : Prop :=
  x < heapSize ∧ ∀ p ∈ s.live,
    ¬ (p ≤ K.heapStart + x + headerSize ∧ K.heapStart + x < p + blockSize s.st.mem p)

theorem Inv.vacantByte_eq {K : Site} {s : Sys} {A : Arena} (h : Inv K s A) :
    VacantByte K s = A.Vacant := by
  funext x
  apply propext
  constructor
  · rintro ⟨hx, hNot⟩
    refine ⟨hx, ?_⟩
    intro o size hUsed hIn
    have hp := (h.live (K.heapStart + o + headerSize)).mpr ⟨o, size, hUsed, rfl⟩
    have := hNot _ hp
    rw [h.blockSize_eq hUsed] at this
    omega
  · rintro ⟨hx, hNot⟩
    refine ⟨hx, ?_⟩
    intro p hp hIn
    obtain ⟨o, size, hUsed, rfl, hSize⟩ := h.used_of_live hp
    rw [hSize] at hIn
    have := hNot o size hUsed
    omega

/-- Free flags of neighbouring headers, from the separated block list. -/
theorem headersOf_separated {a : Nat} {bs : List Block} (h : Separated bs) :
    (headersOf a bs).IsChain fun h h' => ¬ (h.isFree ≠ 0 ∧ h'.isFree ≠ 0) := by
  induction bs generalizing a with
  | nil => exact List.isChain_nil
  | cons b bs ih =>
    cases bs with
    | nil => exact List.isChain_singleton _
    | cons c bs =>
      have hbc := List.isChain_cons_cons.mp h
      refine List.isChain_cons_cons.mpr ⟨?_, ih hbc.2⟩
      show ¬ (freeFlag b ≠ 0 ∧ freeFlag c ≠ 0)
      rw [freeFlag_ne_zero_iff, freeFlag_ne_zero_iff]
      exact hbc.1

/--
**No needless out-of-memory.** In every state of the heap in use no two consecutive
headers are both free. `kmalloc(size)` panics only when every maximal region free of
held blocks is shorter than `ALIGN(size) + 12` bytes; when some region is that long,
`kmalloc` returns, and its block starts at the lowest such region.
-/
theorem no_needless_oom {K : Site} {s : Sys} (h : Reachable K s) :
    (∀ hs, ChainFrom s.st.mem K.heapStart hs →
      hs.IsChain fun h h' => ¬ (h.isFree ≠ 0 ∧ h'.isFree ≠ 0)) ∧
    ∀ size, size < 2 ^ 32 →
      (∀ fuel st, kmalloc K fuel size s.st = some (.panic, st) →
        ∀ a e, MaximalRun (VacantByte K s) a e → e - a < align size + headerSize) ∧
      ((∃ a e, MaximalRun (VacantByte K s) a e ∧ align size + headerSize ≤ e - a) →
        ∃ fuel st a e,
          kmalloc K fuel size s.st = some (.ptr (K.heapStart + a + headerSize), st) ∧
          MaximalRun (VacantByte K s) a e ∧ align size + headerSize ≤ e - a ∧
          ∀ a' e', MaximalRun (VacantByte K s) a' e' → align size + headerSize ≤ e' - a' →
            a ≤ a') := by
  obtain ⟨A, hInv⟩ := reachable_inv h
  refine ⟨?_, ?_⟩
  · intro hs hChain
    rw [hInv.chain_eq hChain]
    exact headersOf_separated A.separated
  · intro size _
    rw [hInv.vacantByte_eq]
    rcases hInv.kmalloc_total size with ⟨hNone, hPanic⟩ | ⟨o, B, fuel, m, hAlloc, hRet, -⟩
    · have hShort := Arena.alloc_none_iff_regions.mp hNone
      refine ⟨fun _ _ _ => hShort, ?_⟩
      rintro ⟨a, e, hRun, hLong⟩
      have := hShort a e hRun
      omega
    · obtain ⟨⟨e, hRun, hLong⟩, hLowest⟩ := Arena.alloc_lowest hAlloc
      refine ⟨?_, ?_⟩
      · intro fuel' st hPanic
        have := kmalloc_unique hRet hPanic
        simp at this
      · intro _
        exact ⟨fuel, _, o, e, hRet, hRun, hLong, hLowest⟩

theorem no_needless_oom_demo :
    MaximalRun (VacantByte demoSite (Sys.init demoSite demoBoot)) 0 heapSize ∧
      ∃ fuel st a e,
        kmalloc demoSite fuel 64 (Sys.init demoSite demoBoot).st =
          some (.ptr (demoSite.heapStart + a + headerSize), st) ∧
        MaximalRun (VacantByte demoSite (Sys.init demoSite demoBoot)) a e ∧ 76 ≤ e - a := by
  have hRun : MaximalRun (VacantByte demoSite (Sys.init demoSite demoBoot)) 0 heapSize :=
    ⟨by decide, fun x _ hx => ⟨hx, by simp [Sys.init]⟩, Or.inl rfl, fun h => Nat.lt_irrefl _ h.1⟩
  obtain ⟨-, hOom⟩ := no_needless_oom ⟨demoBoot, [], .nil (Sys.init demoSite demoBoot)⟩
  obtain ⟨fuel, st, a, e, hRet, hRegion, hLong, -⟩ :=
    (hOom 64 (by decide)).2 ⟨0, heapSize, hRun, by decide⟩
  exact ⟨hRun, fuel, st, a, e, hRet, hRegion, hLong⟩

end Nao.Mm
