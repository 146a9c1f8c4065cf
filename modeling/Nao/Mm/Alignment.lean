import Nao.Mm.Safety

/-!
# Alignment of heap pointers

`ALIGN` rounds every request up to a multiple of 8, but a header takes 12 bytes, so the pointer
behind the first header of an aligned heap is a multiple of 4 only. Where a block starts depends on
the blocks before it: one whose size is a multiple of 8 moves its successor by 4 modulo 8, one
whose size is not does not.

* `reachable_granular`  — the sizes of all blocks stay multiples of 4.
* `kmalloc_aligned_iff` — which pointers are multiples of 8.
-/

namespace Nao.Mm

open SysLib SysLib.BlockList

-- ---------------------------------------------------------------------------
-- Sizes
-- ---------------------------------------------------------------------------

/-- The sizes of all blocks are multiples of 4. -/
def Arena.Granular (A : Arena) : Prop := ∀ b ∈ A.blocks, 4 ∣ b.size

theorem granular_initial : Arena.initial.Granular := by
  intro b hb
  obtain rfl := List.mem_singleton.mp hb
  decide

theorem dvd_align (size : Nat) : 4 ∣ align size := by
  rw [align_eq]
  exact Nat.dvd_mul_left_of_dvd (by decide) _

theorem Arena.Granular.step {K : Site} {A B : Arena} {op : Op} (h : A.Granular)
    (hStep : ArenaStep K A op B) : B.Granular := by
  have hHdr : 4 ∣ headerSize := by decide
  cases hStep with
  | kmalloc hAlloc =>
    obtain ⟨pre, b, post, hA, -, -, -, hB⟩ := Arena.alloc_eq_some hAlloc
    rw [Arena.Granular, hA, List.forall_mem_append, List.forall_mem_cons] at h
    obtain ⟨hPre, hb, hPost⟩ := h
    rw [Arena.Granular, hB, List.forall_mem_append, List.forall_mem_append]
    exact ⟨⟨hPre, dvd_size_carve hHdr (dvd_align _) hb⟩, hPost⟩
  | kfree hUsed => exact dvd_size_freeAt hHdr h
  | kfreeNull => exact h
  | store => exact h

theorem reachable_granular {K : Site} {s : Sys} (h : Reachable K s) : ∃ A, Inv K s A ∧ A.Granular := by
  obtain ⟨st, ops, hRun⟩ := h
  refine Run.invariant (fun s => ∃ A, Inv K s A ∧ A.Granular) ?_ ⟨_, inv_init K st, granular_initial⟩ hRun
  rintro s op s' ⟨A, hInv, hGranular⟩ hStep
  obtain ⟨B, hArena, hInv'⟩ := step_refines hInv hStep
  exact ⟨B, hInv', hGranular.step hArena⟩

-- ---------------------------------------------------------------------------
-- Addresses
-- ---------------------------------------------------------------------------

/-- Where a list of blocks ends, modulo 8. -/
theorem extent_mod {bs : List Block} (h : ∀ b ∈ bs, 4 ∣ b.size) :
    extent headerSize bs % 8 = 4 * bs.countP (fun b => b.size % 8 = 0) % 8 := by
  induction bs with
  | nil => rfl
  | cons b bs ih =>
    obtain ⟨⟨k, hk⟩, hRest⟩ := List.forall_mem_cons.mp h
    have ih := ih hRest
    rw [extent_cons, span, List.countP_cons]
    show (12 + b.size + extent headerSize bs) % 8 = _
    by_cases hRound : b.size % 8 = 0
    · rw [if_pos (decide_eq_true hRound)]
      omega
    · rw [if_neg (by simpa using hRound)]
      omega

/-- The block is free and has room for `need` bytes. -/
def Header.fits (need : Nat) (hd : Header) : Bool := hd.isFree ≠ 0 ∧ need ≤ hd.size

/-- How many of the headers in front of the first one with room for `size` bytes have a size that
is a multiple of 8. -/
def roundBefore (hs : List Header) (size : Nat) : Nat :=
  (hs.takeWhile fun hd => !hd.fits (align size)).countP fun hd => hd.size % 8 = 0

theorem fits_head_headersOf (need a : Nat) (b : Block) (bs : List Block) :
    Header.fits need
        { addr := a, size := b.size, isFree := freeFlag b, next := link (a + span headerSize b) bs 0 }
      = decide (Fits need b) :=
  decide_eq_decide.mpr (and_congr freeFlag_ne_zero_iff Iff.rfl)

/-- On the chain of a block list, these are the blocks in front of the first fit. -/
theorem roundBefore_headersOf {size : Nat} {pre : List Block} {b : Block}
    (hPre : ∀ c ∈ pre, ¬ Fits (align size) c) (hb : Fits (align size) b) (a : Nat)
    (post : List Block) :
    roundBefore (headersOf a (pre ++ b :: post)) size = pre.countP fun c => c.size % 8 = 0 := by
  induction pre generalizing a with
  | nil =>
    rw [List.nil_append, headersOf, roundBefore, List.takeWhile_cons, fits_head_headersOf,
      decide_eq_true hb]
    rfl
  | cons c pre ih =>
    obtain ⟨hc, hRest⟩ := List.forall_mem_cons.mp hPre
    rw [List.cons_append, headersOf, roundBefore, List.takeWhile_cons, fits_head_headersOf,
      decide_eq_false hc, Bool.not_false, if_pos rfl, List.countP_cons, List.countP_cons,
      ← ih hRest (a + span headerSize c)]
    rfl

/--
**Alignment of heap pointers.** Let `kernel_heap_space` be aligned to 8 bytes. In every state of the
heap in use, the pointer that `kmalloc` returns for a request of any size is a multiple of 4. It is
a multiple of 8 if and only if, in the chain before the call, an odd number of the headers in front
of the first free one with `ALIGN(size)` bytes have a size that is a multiple of 8. In front of the
first header of the heap there are none.
-/
theorem kmalloc_aligned_iff {K : Site} (hBase : K.heapStart % 8 = 0) {s : Sys} (h : Reachable K s)
    {hs : List Header} (hChain : ChainFrom s.st.mem K.heapStart hs) {fuel size p : Nat} {st : State}
    (hRet : kmalloc K fuel size s.st = some (.ptr p, st)) :
    p % 4 = 0 ∧ (p % 8 = 0 ↔ roundBefore hs size % 2 = 1) := by
  obtain ⟨A, hInv, hGranular⟩ := reachable_granular h
  rcases hInv.kmalloc_total size with ⟨-, hPanic⟩ | ⟨o, B, fuel', m, hAlloc, hPtr, -⟩
  · cases kmalloc_unique hRet hPanic
  · cases kmalloc_unique hRet hPtr
    obtain ⟨pre, b, post, hA, hPre, hb, rfl, -⟩ := Arena.alloc_eq_some hAlloc
    rw [Arena.Granular, hA, List.forall_mem_append] at hGranular
    have hMod := extent_mod hGranular.1
    rw [hInv.chain_eq hChain, hA, roundBefore_headersOf hPre hb]
    show (K.heapStart + extent headerSize pre + 12) % 4 = 0
      ∧ ((K.heapStart + extent headerSize pre + 12) % 8 = 0 ↔ _)
    omega

/-- A request for 100 bytes, behind a block of 8 bytes. -/
theorem kmalloc_aligned_iff_second :
    ∃ s hs, Reachable demoSite s ∧ ChainFrom s.st.mem demoSite.heapStart hs
      ∧ 0x300020 % 8 = 0 ∧ roundBefore hs 100 % 2 = 1 := by
  obtain ⟨⟨_, st₁⟩, hRet₁, rfl⟩ := Option.map_eq_some_iff.mp demo_first_call
  have h₂ := demo_second_call
  rw [hRet₁, Option.bind_some] at h₂
  obtain ⟨⟨_, st₂⟩, hRet₂, rfl⟩ := Option.map_eq_some_iff.mp h₂
  have hReach : Reachable demoSite { st := st₁, live := [0x30000c] } :=
    ⟨demoBoot, [.kmalloc 5], .cons (.kmalloc (by decide) hRet₁) (.nil _)⟩
  obtain ⟨A, hInv⟩ := reachable_inv hReach
  have hAligned := kmalloc_aligned_iff (by decide) hReach hInv.repr.chainFrom hRet₂
  exact ⟨_, _, hReach, hInv.repr.chainFrom, rfl, hAligned.2.mp rfl⟩

/-- The first block. -/
theorem kmalloc_first_not_aligned :
    demoSite.heapStart % 8 = 0 ∧ Reachable demoSite (Sys.init demoSite demoBoot)
      ∧ (kmalloc demoSite 1 5 (Sys.init demoSite demoBoot).st).map Prod.fst = some (.ptr 0x30000c)
      ∧ 0x30000c % 8 = 4 :=
  ⟨by decide, ⟨demoBoot, [], .nil _⟩, demo_first_call, rfl⟩

end Nao.Mm
