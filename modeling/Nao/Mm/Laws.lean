import Nao.Mm.Safety

/-!
# Laws of the heap: order of frees, accounting, and sizes

* `free_order_independent` — freeing undoes allocating, frees commute, and freeing
  everything leads back to the chain of `init_mm`;
* `memory_accounting`      — `get_used_memory` and the free blocks add up to the
  heap, calls move it the right way, and the System Monitor's percentage does
  not overflow;
* `kmalloc_size_guarantee` — the block behind a returned pointer is as large as was
  asked for, unless `ALIGN` wraps around.

Chains are compared as they are read from memory: addresses (hence offsets),
sizes, flags and links of all headers from `heap_start` on.
-/

namespace Nao.Mm

open SysLib SysLib.BlockList

/-! ## Order of frees -/

/-- The same chain of headers is read from two memories. -/
def SameChain (K : Site) (m m' : Mem) : Prop :=
  ∃ hs, ChainFrom m K.heapStart hs ∧ ChainFrom m' K.heapStart hs

theorem Inv.sameChain {K : Site} {s s' : Sys} {A : Arena} (h : Inv K s A) (h' : Inv K s' A) :
    SameChain K s.st.mem s'.st.mem :=
  ⟨_, h.repr.chainFrom, h'.repr.chainFrom⟩

/-- A held pointer can be freed. -/
theorem Inv.exists_kfree_step {K : Site} {s : Sys} {A : Arena} (h : Inv K s A) {p : Nat}
    (hp : p ∈ s.live) : ∃ s', Step K s (.kfree p) s' := by
  obtain ⟨fuel, st, hRet⟩ := h.kfree_ends (Or.inr hp)
  exact ⟨_, .kfree (Or.inr hp) hRet⟩

/-- Freeing pointers one by one: always possible, and in the end nothing is held. -/
theorem Inv.free_all {K : Site} {s : Sys} {A : Arena} {ps : List Nat} (h : Inv K s A)
    (hPerm : ps.Perm s.live) :
    (∃ s', Run (Step K) s (ps.map .kfree) s') ∧
      ∀ s', Run (Step K) s (ps.map .kfree) s' → Inv K s' Arena.initial := by
  induction ps generalizing s A with
  | nil =>
    refine ⟨⟨s, .nil s⟩, ?_⟩
    intro s' hRun
    have hEmpty : s.live = [] := List.nil_perm.mp hPerm
    have hInitial : A = Arena.initial := by
      refine Arena.eq_initial_of_not_used fun o size hUsed => ?_
      have := (h.live _).mpr ⟨o, size, hUsed, rfl⟩
      simp [hEmpty] at this
    cases hRun with
    | nil => exact hInitial ▸ h
  | cons p ps ih =>
    have hp : p ∈ s.live := hPerm.subset (List.mem_cons_self ..)
    -- after the first free, the remaining pointers are the held ones
    have hNext : ∀ s', Step K s (.kfree p) s' → ∃ B, Inv K s' B ∧ ps.Perm s'.live := by
      intro s' hStep
      obtain ⟨o, size, hUsed, rfl, -⟩ := h.used_of_live hp
      obtain ⟨hLive, hInv, -⟩ := h.step_kfree hUsed hStep
      exact ⟨_, hInv, by rw [hLive]; exact List.Perm.cons_inv (hPerm.trans (List.perm_cons_erase hp))⟩
    refine ⟨?_, ?_⟩
    · obtain ⟨s₁, hStep⟩ := h.exists_kfree_step hp
      obtain ⟨B, hInv, hPerm'⟩ := hNext s₁ hStep
      obtain ⟨s', hRun⟩ := (ih hInv hPerm').1
      exact ⟨s', .cons hStep hRun⟩
    · intro s' hRun
      cases hRun with
      | cons hStep hRest =>
        obtain ⟨B, hInv, hPerm'⟩ := hNext _ hStep
        exact (ih hInv hPerm').2 s' hRest

/--
**Freeing is exact and order-independent.** From every state of the heap in use:

* the free of a pointer `kmalloc` just returned is possible and restores the chain
  from before the call;
* two distinct held pointers can be freed in either order, with the same chain;
* all held pointers can be freed in any order, and the chain is then the single
  free block of `init_mm`.
-/
theorem free_order_independent {K : Site} {s : Sys} (h : Reachable K s) :
    (∀ n p s₁, Step K s (.kmalloc n) s₁ → s₁.live = p :: s.live →
      (∃ s₂, Step K s₁ (.kfree p) s₂) ∧
      ∀ s₂, Step K s₁ (.kfree p) s₂ → SameChain K s.st.mem s₂.st.mem) ∧
    (∀ p ∈ s.live, ∀ q ∈ s.live, p ≠ q →
      (∃ s', Run (Step K) s [.kfree p, .kfree q] s') ∧
      ∀ s₁ s₂, Run (Step K) s [.kfree p, .kfree q] s₁ →
        Run (Step K) s [.kfree q, .kfree p] s₂ → SameChain K s₁.st.mem s₂.st.mem) ∧
    (∀ ps : List Nat, ps.Perm s.live → (∃ s', Run (Step K) s (ps.map .kfree) s') ∧
      ∀ s', Run (Step K) s (ps.map .kfree) s' →
        ChainFrom s'.st.mem K.heapStart
          [{ addr := K.heapStart, size := heapSize - headerSize, isFree := 1, next := 0 }]) := by
  obtain ⟨A, hInv⟩ := reachable_inv h
  refine ⟨?_, ?_, ?_⟩
  · intro n p s₁ hStep hLive
    obtain ⟨o, B, hAlloc, hLive', hInv₁, -⟩ := hInv.step_kmalloc hStep
    obtain ⟨granted, -, hUsed⟩ := Arena.mem_used_alloc hAlloc
    have hp : p = K.heapStart + o + headerSize := by
      rw [hLive] at hLive'
      exact (List.cons.inj hLive').1
    subst hp
    refine ⟨hInv₁.exists_kfree_step (by rw [hLive]; exact List.mem_cons_self ..), ?_⟩
    intro s₂ hStep₂
    obtain ⟨-, hInv₂, -⟩ :=
      hInv₁.step_kfree ((hUsed o granted).mpr (Or.inr ⟨rfl, rfl⟩)) hStep₂
    rw [Arena.free_alloc hAlloc] at hInv₂
    exact hInv.sameChain hInv₂
  · intro p hp q hq hne
    obtain ⟨o, size, hU, rfl, -⟩ := hInv.used_of_live hp
    obtain ⟨o', size', hU', rfl, -⟩ := hInv.used_of_live hq
    have hoo : o ≠ o' := fun heq => hne (by rw [heq])
    -- both frees, in either order, end in the arena with both blocks freed
    have hBoth : ∀ {o o' size size' s'}, A.Used o size → A.Used o' size' → o ≠ o' →
        Run (Step K) s [.kfree (K.heapStart + o + headerSize),
          .kfree (K.heapStart + o' + headerSize)] s' → Inv K s' ((A.free o).free o') := by
      intro o o' size size' s' hU hU' hoo hRun
      cases hRun with
      | cons hStep₁ hRest =>
        cases hRest with
        | cons hStep₂ hNil =>
          cases hNil with
          | nil =>
            obtain ⟨-, hInv₁, -⟩ := hInv.step_kfree hU hStep₁
            exact (hInv₁.step_kfree (Arena.mem_used_free.mpr ⟨hU', hoo.symm⟩) hStep₂).2.1
    refine ⟨?_, ?_⟩
    · obtain ⟨s₁, hStep₁⟩ := hInv.exists_kfree_step hp
      obtain ⟨hLive, hInv₁, -⟩ := hInv.step_kfree hU hStep₁
      have hq' : K.heapStart + o' + headerSize ∈ s₁.live := by
        rw [hLive]
        exact (List.mem_erase_of_ne hne.symm).mpr hq
      obtain ⟨s₂, hStep₂⟩ := hInv₁.exists_kfree_step hq'
      exact ⟨s₂, .cons hStep₁ (.cons hStep₂ (.nil _))⟩
    · intro s₁ s₂ hRun₁ hRun₂
      have h₁ := hBoth hU hU' hoo hRun₁
      have h₂ := hBoth hU' hU hoo.symm hRun₂
      rw [Arena.free_comm hU hU' hoo] at h₁
      exact h₁.sameChain h₂
  · intro ps hPerm
    obtain ⟨hExists, hAll⟩ := hInv.free_all hPerm
    exact ⟨hExists, fun s' hRun => (hAll s' hRun).repr.chainFrom⟩

theorem free_order_independent_demo :
    ∃ s s', s.live = [0x300020, 0x30000c] ∧ Reachable demoSite s ∧
      Run (Step demoSite) s [.kfree 0x30000c, .kfree 0x300020] s' ∧
      ChainFrom s'.st.mem 0x300000
        [{ addr := 0x300000, size := 4194292, isFree := 1, next := 0 }] := by
  obtain ⟨s, hReach, hLive⟩ := demo_reachable
  obtain ⟨-, -, hFreeAll⟩ := free_order_independent hReach
  obtain ⟨⟨s', hRun⟩, hChain⟩ := hFreeAll [0x30000c, 0x300020] (by
    rw [hLive]
    exact List.Perm.swap _ _ _)
  exact ⟨s, s', hLive, hReach, hRun, hChain s' hRun⟩

/-! ## Accounting -/

/-- The sizes of the free blocks of a chain, added up. -/
def freeSizes (hs : List Header) : Nat :=
  (hs.map fun h => if h.isFree ≠ 0 then h.size else 0).sum

theorem freeSizes_headersOf (a : Nat) (bs : List Block) :
    freeSizes (headersOf a bs) = freeBytes bs := by
  induction bs generalizing a with
  | nil => rfl
  | cons b bs ih =>
    have hHead : (if freeFlag b ≠ 0 then b.size else 0) = if b.free then b.size else 0 := by
      by_cases hb : b.free = true
      · rw [if_pos (freeFlag_ne_zero_iff.mpr hb), if_pos hb]
      · rw [if_neg (fun h => hb (freeFlag_ne_zero_iff.mp h)), if_neg hb]
    rw [freeBytes_cons, ← ih (a + span headerSize b), ← hHead]
    simp [freeSizes, headersOf]

/-- `get_used_memory()` returns `u`. -/
def UsedMemory (K : Site) (st : State) (u : Nat) : Prop :=
  ∃ fuel, getUsedMemory K fuel st = some u

theorem Inv.usedMemory_iff {K : Site} {s : Sys} {A : Arena} (h : Inv K s A) {u : Nat} :
    UsedMemory K s.st u ↔ u = A.used := by
  constructor
  · rintro ⟨fuel, hRet⟩
    exact getUsedMemory_unique hRet h.used_spec
  · rintro rfl
    exact ⟨_, h.used_spec⟩

/-- A free block of the chain touches the block behind `p`. -/
def HasFreeNeighbour (K : Site) (m : Mem) (p : Nat) : Prop :=
  ∃ hs, ChainFrom m K.heapStart hs ∧ ∃ hd ∈ hs, hd.isFree ≠ 0 ∧
    (hd.addr + headerSize + hd.size + headerSize = p ∨ hd.addr = p + blockSize m p)

theorem Inv.hasFreeNeighbour_iff {K : Site} {s : Sys} {A : Arena} (h : Inv K s A)
    {o size : Nat} (hUsed : A.Used o size) :
    HasFreeNeighbour K s.st.mem (K.heapStart + o + headerSize) ↔ A.FreeNeighbour o size := by
  have hHeaders := @exists_mem_headersOf K.heapStart A.blocks
    (fun addr sz isFree => isFree ≠ 0 ∧
      (addr + headerSize + sz + headerSize = K.heapStart + o + headerSize ∨
        addr = K.heapStart + o + headerSize + size))
  unfold HasFreeNeighbour
  rw [h.blockSize_eq hUsed]
  constructor
  · rintro ⟨hs, hChain, hNb⟩
    rw [h.chain_eq hChain] at hNb
    obtain ⟨o', b, hmem, hFree, hTouch⟩ := hHeaders.mp hNb
    rw [freeFlag_ne_zero_iff] at hFree
    have hb : b = { size := b.size, free := true } := by rw [← hFree]
    refine ⟨o', b.size, by rw [← hb]; exact hmem, by omega⟩
  · rintro ⟨o', size', hmem, hTouch⟩
    refine ⟨_, h.repr.chainFrom, hHeaders.mpr ⟨o', _, hmem, ?_, ?_⟩⟩
    · rw [freeFlag_ne_zero_iff]
    · simp only
      omega

/--
**Memory accounting.** In every state of the heap in use `get_used_memory()` returns
a value `u` that together with the sizes of the free blocks makes up
`get_total_memory()`; a `kmalloc` that returns does not decrease it; a `kfree` of a
held pointer does not increase it, and decreases it unless the block is empty and
touches no free block. `u * 100` does not wrap, so the System Monitor shows
`⌊100 u / total⌋`, which is at most 100 without the clamp.
-/
theorem memory_accounting {K : Site} {s : Sys} (h : Reachable K s) :
    ∃ u, UsedMemory K s.st u ∧
      (∀ hs, ChainFrom s.st.mem K.heapStart hs → u + freeSizes hs = getTotalMemory) ∧
      (∀ size s', Step K s (.kmalloc size) s' → ∃ u', UsedMemory K s'.st u' ∧ u ≤ u') ∧
      (∀ p ∈ s.live, ∀ s', Step K s (.kfree p) s' → ∃ u', UsedMemory K s'.st u' ∧ u' ≤ u ∧
        (u' < u ↔ ¬ (blockSize s.st.mem p = 0 ∧ ¬ HasFreeNeighbour K s.st.mem p))) ∧
      u * 100 < 2 ^ 32 ∧
      memPercentRaw u getTotalMemory = 100 * u / getTotalMemory ∧
      memPercent u getTotalMemory = 100 * u / getTotalMemory ∧
      100 * u / getTotalMemory ≤ 100 := by
  obtain ⟨A, hInv⟩ := reachable_inv h
  have hTotal := A.used_add_freeBytes
  have hHeap : heapSize = 4194304 := rfl
  have hRaw : memPercentRaw A.used getTotalMemory = 100 * A.used / getTotalMemory := by
    rw [memPercentRaw, Nat.mod_eq_of_lt (by omega), Nat.mul_comm]
  have hLe : 100 * A.used / getTotalMemory ≤ 100 := by
    unfold getTotalMemory
    omega
  refine ⟨A.used, hInv.usedMemory_iff.mpr rfl, ?_, ?_, ?_, by omega, hRaw, ?_, hLe⟩
  · intro hs hChain
    rw [hInv.chain_eq hChain, freeSizes_headersOf]
    exact hTotal
  · intro size s' hStep
    obtain ⟨o, B, hAlloc, -, hInv', -⟩ := hInv.step_kmalloc hStep
    exact ⟨B.used, hInv'.usedMemory_iff.mpr rfl, Arena.used_le_alloc hAlloc⟩
  · intro p hp s' hStep
    obtain ⟨o, size, hUsed, rfl, hSize⟩ := hInv.used_of_live hp
    obtain ⟨-, hInv', -⟩ := hInv.step_kfree hUsed hStep
    obtain ⟨hMono, hStrict⟩ := Arena.used_free hUsed
    refine ⟨_, hInv'.usedMemory_iff.mpr rfl, hMono, ?_⟩
    rw [hSize, hInv.hasFreeNeighbour_iff hUsed, hStrict, not_and_or, not_not, Nat.pos_iff_ne_zero]
  · rw [memPercent, if_pos (by decide), hRaw, if_neg (by omega)]

theorem memory_accounting_demo :
    ∃ s, s.live = [0x300020, 0x30000c] ∧ Reachable demoSite s ∧
      ∃ u, UsedMemory demoSite s.st u ∧
        memPercent u getTotalMemory = 100 * u / getTotalMemory := by
  obtain ⟨s, hReach, hLive⟩ := demo_reachable
  obtain ⟨u, hUsed, -, -, -, -, -, hPercent, -⟩ := memory_accounting hReach
  exact ⟨s, hLive, hReach, u, hUsed, hPercent⟩

/-! ## Sizes -/

/-- `ALIGN` rounds up until the sum wraps around. -/
theorem le_align_iff {size : Nat} (h : size < 2 ^ 32) : size ≤ align size ↔ size ≤ 2 ^ 32 - 8 := by
  rw [align_eq]
  omega

theorem align_of_wraps {size : Nat} (h : size < 2 ^ 32) (hWraps : 2 ^ 32 - 8 < size) :
    align size = 0 := by
  rw [align_eq]
  omega

/-- The block behind a returned pointer: as large as the aligned request, and inside the heap. -/
theorem Inv.blockSize_kmalloc {K : Site} {s : Sys} {A : Arena} (h : Inv K s A) {fuel size p : Nat}
    {st : State} (hSize : size < 2 ^ 32) (hRet : kmalloc K fuel size s.st = some (.ptr p, st)) :
    align size ≤ blockSize st.mem p ∧ blockSize st.mem p ≤ heapSize := by
  obtain ⟨o, B, hAlloc, hLive, hInv, -⟩ := h.step_kmalloc (.kmalloc hSize hRet)
  obtain ⟨rfl, -⟩ := List.cons.inj hLive
  obtain ⟨granted, hNeed, hUsed⟩ := Arena.mem_used_alloc hAlloc
  have hBlock : B.Used o granted := (hUsed o granted).mpr (Or.inr ⟨rfl, rfl⟩)
  have hBounds := hBlock.bounds
  have hGranted : blockSize st.mem (K.heapStart + o + headerSize) = granted := hInv.blockSize_eq hBlock
  rw [hGranted]
  exact ⟨hNeed, by omega⟩

/--
**Size guarantee.** When `kmalloc(size)` returns a pointer, in any state of the heap in use,
the block behind it has at least `size` usable bytes if and only if `size` is at most
`2 ^ 32 - 8`. For the seven sizes above `ALIGN` wraps around to 0, and `kmalloc` returns a
pointer whenever there is a free block at all.
-/
theorem kmalloc_size_guarantee {K : Site} {s : Sys} (h : Reachable K s) {size : Nat}
    (hSize : size < 2 ^ 32) :
    (∀ fuel p st, kmalloc K fuel size s.st = some (.ptr p, st) →
      (size ≤ blockSize st.mem p ↔ size ≤ 2 ^ 32 - 8)) ∧
    (2 ^ 32 - 8 < size → (∃ hs, ChainFrom s.st.mem K.heapStart hs ∧ ∃ hd ∈ hs, hd.isFree ≠ 0) →
      ∃ fuel p st, kmalloc K fuel size s.st = some (.ptr p, st)) := by
  obtain ⟨A, hInv⟩ := reachable_inv h
  refine ⟨?_, ?_⟩
  · intro fuel p st hRet
    obtain ⟨hNeed, hHeap⟩ := hInv.blockSize_kmalloc hSize hRet
    constructor
    · intro _
      have : heapSize = 4194304 := rfl
      omega
    · intro hLe
      exact ((le_align_iff hSize).mpr hLe).trans hNeed
  · rintro hWraps ⟨hs, hChain, hFree⟩
    rcases hInv.kmalloc_total size with ⟨hNone, -⟩ | ⟨o, B, fuel, m, -, hRet, -⟩
    · -- every free block fits a request of no bytes
      rw [hInv.chain_eq hChain, exists_mem_headersOf (P := fun _ _ isFree => isFree ≠ 0)] at hFree
      obtain ⟨o, b, hmem, hFlag⟩ := hFree
      obtain ⟨pre, post, hbs, -⟩ := mem_place_iff.mp hmem
      refine absurd ⟨freeFlag_ne_zero_iff.mp hFlag, ?_⟩
        (Arena.alloc_none_iff.mp hNone b (by rw [hbs]; simp))
      rw [align_of_wraps hSize hWraps]
      exact Nat.zero_le _
    · exact ⟨fuel, _, _, hRet⟩

theorem kmalloc_size_guarantee_demo :
    ∃ st, kmalloc demoSite 1 5 (initMm demoSite demoBoot) = some (.ptr 0x30000c, st) ∧
      5 ≤ blockSize st.mem 0x30000c := by
  obtain ⟨⟨_, st⟩, hRet, rfl⟩ := Option.map_eq_some_iff.mp demo_first_call
  have hReach : Reachable demoSite (Sys.init demoSite demoBoot) := ⟨demoBoot, [], .nil _⟩
  exact ⟨st, hRet,
    ((kmalloc_size_guarantee hReach (by decide)).1 1 0x30000c st hRet).mpr (by decide)⟩

/-- The largest request of all succeeds on a fresh heap, with a block of no bytes. -/
theorem kmalloc_size_wraps :
    Reachable demoSite (Sys.init demoSite demoBoot) ∧
      (kmalloc demoSite 1 (2 ^ 32 - 1) (Sys.init demoSite demoBoot).st).map
        (fun r => (r.1, blockSize r.2.mem 0x30000c)) = some (.ptr 0x30000c, 0) :=
  ⟨⟨demoBoot, [], .nil _⟩, by decide⟩

end Nao.Mm
