import Nao.Mm.Chain

/-!
# The byte-level heap refines the arena

Each operation of `mm.c`, run on memory that represents an arena, ends and
leaves memory that represents the arena after the abstract operation; and it
writes only bytes that belong to no other caller's block.

* `init_represents`  — `init_mm` sets up `Arena.initial`;
* `kmalloc_panic`, `kmalloc_ptr` — `kmalloc` is `Arena.alloc`;
* `kfree_spec`       — `kfree` is `Arena.free`;
* `used_spec`        — `get_used_memory` is `Arena.used`.

`Inv K s A` ties a heap in use to its arena, and `step_refines` is the
simulation: every step of the heap is a step of the arena.
-/

namespace Nao.Mm

open SysLib SysLib.BlockList

/-! ## Arithmetic of `ALIGN` -/

theorem align_eq (size : Nat) : align size = (size + 7) % 2 ^ 32 / 8 * 8 := by
  have h := and_high_mask (w := 32) (k := 3) (Nat.mod_lt (size + 7) (by decide : 0 < 2 ^ 32))
  exact h

/-! ## `init_mm` -/

theorem init_represents (K : Site) (s : State) :
    Represents K (initMm K s).mem Arena.initial.blocks := by
  refine ⟨⟨⟨?_, ?_, ?_⟩, trivial⟩, Arena.initial.tiles⟩
  · simp [initMm, heapSize, headerSize]
  · simp [initMm, freeFlag]
  · simp [initMm]

/-! ## `kmalloc` -/

/-- The split branch of `kmalloc` with its arithmetic carried out. -/
theorem takeBlock_split {m : Mem} {a needed nx : Nat} {b : Block} (h : Holds m a b nx)
    (hSplit : needed + headerSize + 8 ≤ b.size) (hEnd : a + headerSize + b.size ≤ 2 ^ 32) :
    takeBlock m needed a =
      setIsFree (setNext (setSize (setNext (setIsFree (setSize m (a + headerSize + needed)
        (b.size - needed - headerSize)) (a + headerSize + needed) 1)
        (a + headerSize + needed) nx) a needed) a (a + headerSize + needed)) a 0 := by
  have hSize := sizeAt_lt m a
  rw [h.size] at hSize
  have hCond : (needed + headerSize + 8) % 2 ^ 32 ≤ sizeAt m a := by
    rw [h.size, Nat.mod_eq_of_lt (by omega)]
    exact hSplit
  have hAddr : (a + headerSize + needed) % 2 ^ 32 = a + headerSize + needed :=
    Nat.mod_eq_of_lt (by omega)
  have hRest : sub32 (sub32 (sizeAt m a) needed) headerSize = b.size - needed - headerSize := by
    rw [h.size, sub32_of_le (by omega) hSize, sub32_of_le (by omega) (by omega)]
  -- `current->next` is read after the new header was started, behind `current`
  have hNext : ∀ r, nextAt (setIsFree (setSize m (a + headerSize + needed) r)
      (a + headerSize + needed) 1) a = nx := by
    intro r
    rw [← h.next]
    refine nextAt_congr fun x h1 h2 => ?_
    unfold headerSize
    rw [setIsFree_of_ne _ _ (by omega), setSize_of_disjoint _ _ (by omega)]
  unfold takeBlock
  simp only [if_pos hCond, hAddr, hRest, hNext]

theorem takeBlock_whole {m : Mem} {a needed nx : Nat} {b : Block} (h : Holds m a b nx)
    (hFit : needed ≤ b.size) (hSize : b.size + headerSize + 8 < 2 ^ 32)
    (hWhole : ¬ needed + headerSize + 8 ≤ b.size) :
    takeBlock m needed a = setIsFree m a 0 := by
  have hCond : ¬ (needed + headerSize + 8) % 2 ^ 32 ≤ sizeAt m a := by
    rw [h.size, Nat.mod_eq_of_lt (by omega)]
    exact hWhole
  unfold takeBlock
  simp only [if_neg hCond]

/-- Taking a block writes only inside the block taken. -/
theorem takeBlock_outside {m : Mem} {a needed nx x : Nat} {b : Block} (h : Holds m a b nx)
    (hFit : needed ≤ b.size) (hSize : b.size + headerSize + 8 < 2 ^ 32)
    (hEnd : a + headerSize + b.size ≤ 2 ^ 32)
    (hx : x < a ∨ a + span headerSize b ≤ x) : takeBlock m needed a x = m x := by
  rw [span, headerSize] at hx
  by_cases hSplit : needed + headerSize + 8 ≤ b.size
  · rw [takeBlock_split h hSplit hEnd]
    unfold headerSize at *
    rw [setIsFree_of_ne _ _ (by omega), setNext_of_disjoint _ _ (by omega),
      setSize_of_disjoint _ _ (by omega), setNext_of_disjoint _ _ (by omega),
      setIsFree_of_ne _ _ (by omega), setSize_of_disjoint _ _ (by omega)]
  · rw [takeBlock_whole h hFit hSize hSplit, setIsFree_of_ne _ _ (by omega)]

/-- Taking a block leaves the headers of the carved block in its place. -/
theorem takeBlock_linked {m : Mem} {a needed nx : Nat} {b : Block} (h : Holds m a b nx)
    (hFit : needed ≤ b.size) (hSize : b.size + headerSize + 8 < 2 ^ 32)
    (hEnd : a + headerSize + b.size ≤ 2 ^ 32) (hNx : nx < 2 ^ 32) :
    Linked (takeBlock m needed a) a (carve headerSize 8 needed b) nx := by
  by_cases hSplit : needed + headerSize + 8 ≤ b.size
  · rw [takeBlock_split h hSplit hEnd, carve, if_pos hSplit]
    refine ⟨⟨?_, ?_, ?_⟩, ⟨?_, trivial⟩⟩
    · simp only [sizeAt_setIsFree, sizeAt_setNext, sizeAt_setSize]
      exact Nat.mod_eq_of_lt (by omega)
    · simp [freeFlag]
    · simp only [nextAt_setIsFree, nextAt_setNext, link_cons, span_mk, ← Nat.add_assoc]
      exact Nat.mod_eq_of_lt (by omega)
    · -- the new header: the writes to `current` that follow it do not reach it
      rw [span_mk, ← Nat.add_assoc, link_nil]
      refine Holds.congr (m := setNext (setIsFree (setSize m (a + headerSize + needed)
        (b.size - needed - headerSize)) (a + headerSize + needed) 1)
        (a + headerSize + needed) nx) ⟨?_, ?_, ?_⟩ ?_
      · simp only [sizeAt_setNext, sizeAt_setIsFree, sizeAt_setSize]
        exact Nat.mod_eq_of_lt (by omega)
      · simp [freeFlag]
      · simp only [nextAt_setNext]
        exact Nat.mod_eq_of_lt hNx
      · intro x h1 h2
        unfold headerSize at h1
        rw [setIsFree_of_ne _ _ (by omega), setNext_of_disjoint _ _ (by omega),
          setSize_of_disjoint _ _ (by omega)]
  · rw [takeBlock_whole h hFit hSize hSplit, carve, if_neg hSplit]
    refine ⟨⟨?_, ?_, ?_⟩, trivial⟩
    · rw [sizeAt_setIsFree, h.size]
    · simp [freeFlag]
    · rw [nextAt_setIsFree, h.next, link_nil]

/-- Size and position of a block in a represented list, as 32-bit quantities. -/
theorem Represents.fits {K : Site} {m : Mem} {pre post : List Block} {b : Block}
    (h : Represents K m (pre ++ b :: post)) :
    b.size + headerSize + 8 < 2 ^ 32 ∧
      K.heapStart + BlockList.extent headerSize pre + headerSize + b.size ≤ 2 ^ 32 := by
  have hBounds := h.bounds
  have hFits := K.fits
  have hHeap : heapSize = 4194304 := rfl
  omega

/-- The memory after taking the first fitting block represents the carved list. -/
theorem takeBlock_represents {K : Site} {m : Mem} {pre post : List Block} {b : Block}
    {needed : Nat} (h : Represents K m (pre ++ b :: post)) (hb : Fits needed b) :
    Represents K (takeBlock m needed (K.heapStart + extent headerSize pre))
      (pre ++ carve headerSize 8 needed b ++ post) := by
  obtain ⟨hSize, hEnd⟩ := h.fits
  have hHolds := h.holds
  have hOut := fun x => takeBlock_outside (x := x) hHolds hb.2 hSize hEnd
  obtain ⟨hpre, hrest⟩ := linked_append.mp h.linked
  have hNx : link (K.heapStart + extent headerSize pre + span headerSize b) post 0 < 2 ^ 32 := by
    rw [← hHolds.next]
    exact nextAt_lt _ _
  have hExt : extent headerSize (pre ++ carve headerSize 8 needed b) =
      extent headerSize pre + span headerSize b := by
    rw [extent_append, extent_carve]
  refine represents_of_parts ?_ ?_ ?_ ?_ ?_
  · unfold carve
    split <;> simp
  · exact Linked.congr_outside hpre (Or.inl (Nat.le_refl _)) hOut
  · rw [hExt, ← Nat.add_assoc]
    exact takeBlock_linked hHolds hb.2 hSize hEnd hNx
  · rw [hExt, ← Nat.add_assoc]
    exact Linked.congr_outside hrest.2 (Or.inr (Nat.le_refl _)) hOut
  · have := h.extent
    rw [extent_append, hExt]
    rw [extent_append, extent_cons] at this
    omega

/-- Nothing fits: `kmalloc` runs into the panic. -/
theorem kmalloc_panic {K : Site} {s : State} {bs : List Block} {size : Nat}
    (hInit : s.mmInitialized = true) (h : Represents K s.mem bs)
    (hNone : ∀ b ∈ bs, ¬ Fits (align size) b) :
    kmalloc K (bs.length + 1) size s = some (.panic, s) := by
  have hSearch := search_none K.pos h.linked hNone
  obtain ⟨b, bs', rfl⟩ := List.exists_cons_of_ne_nil h.ne_nil
  rw [link_cons] at hSearch
  simp only [kmalloc, hInit, if_true, hSearch]

/-- Something fits: `kmalloc` returns the payload of the first such block. -/
theorem kmalloc_ptr {K : Site} {s : State} {pre post : List Block} {b : Block} {size : Nat}
    (hInit : s.mmInitialized = true) (h : Represents K s.mem (pre ++ b :: post))
    (hpre : ∀ c ∈ pre, ¬ Fits (align size) c) (hb : Fits (align size) b) :
    kmalloc K (pre.length + 1) size s =
      some (.ptr (K.heapStart + extent headerSize pre + headerSize),
        { s with mem := takeBlock s.mem (align size) (K.heapStart + extent headerSize pre) }) := by
  have hSearch := search_found K.pos h.linked hpre hb
  have hAddr : (K.heapStart + extent headerSize pre + headerSize) % 2 ^ 32 =
      K.heapStart + extent headerSize pre + headerSize := by
    have hBounds := h.bounds
    have hFits := K.fits
    exact Nat.mod_eq_of_lt (by omega)
  simp only [kmalloc, hInit, if_true, hSearch, hAddr]

/-! ## `kfree` -/

/-- Bytes no operation on the arena may touch: everything outside the heap, and
the payload of every block in use. -/
def Kept (K : Site) (A : Arena) (x : Nat) : Prop :=
  x < K.heapStart ∨ K.heapStart + heapSize ≤ x ∨
    ∃ o size, A.Used o size ∧ K.heapStart + o + headerSize ≤ x ∧
      x < K.heapStart + o + headerSize + size

/-- One merge: the turn rewrites the header of `current` and nothing else. -/
theorem coalesceBody_merge {K : Site} {m : Mem} {pre post : List Block} {a b : Block}
    (h : Represents K m (pre ++ a :: b :: post)) (ha : a.free = true) (hb : b.free = true) :
    ∃ m', coalesceBody (K.heapStart + extent headerSize pre, m) =
        .again (K.heapStart + extent headerSize pre, m') ∧
      Represents K m'
        (pre ++ { size := a.size + headerSize + b.size, free := true } :: post) ∧
      ∀ x, x < K.heapStart + extent headerSize pre ∨
        K.heapStart + extent headerSize pre + headerSize ≤ x → m' x = m x := by
  have hPos := K.pos
  have hA := h.holds
  have hRepr := h
  have hBounds := h.bounds
  have hFits := K.fits
  have hHeap : heapSize = 4194304 := rfl
  rw [List.append_cons] at hRepr
  have hB := hRepr.holds
  have hExt : extent headerSize (pre ++ [a]) = extent headerSize pre + span headerSize a := by
    simp
  rw [hExt, ← Nat.add_assoc] at hB
  rw [link_cons] at hA
  set cur := K.heapStart + extent headerSize pre with hcur
  set nxt := cur + span headerSize a with hnxt
  have hNxt : nxt = cur + (headerSize + a.size) := by rw [hnxt, span]
  simp only [extent_cons, span] at hBounds
  -- the merged size and the new link, read from memory
  have hSize : (sizeAt m cur + (headerSize + sizeAt m nxt)) % 2 ^ 32 =
      a.size + headerSize + b.size := by
    rw [hA.size, hB.size, Nat.mod_eq_of_lt (by omega)]
    omega
  have hGuard : nextAt m cur ≠ 0 ∧ isFreeAt m cur ≠ 0 ∧ isFreeAt m (nextAt m cur) ≠ 0 := by
    rw [hA.next, hA.isFree, hB.isFree, freeFlag_ne_zero_iff, freeFlag_ne_zero_iff]
    exact ⟨by omega, ha, hb⟩
  have hLink : nextAt (setSize m cur (a.size + headerSize + b.size)) nxt =
      link (nxt + span headerSize b) post 0 := by
    rw [← hB.next]
    refine nextAt_congr fun x h1 h2 => setSize_of_disjoint _ _ ?_
    unfold headerSize at hNxt
    omega
  have hOut : ∀ x, x < cur ∨ cur + headerSize ≤ x →
      setNext (setSize m cur (a.size + headerSize + b.size)) cur
        (link (nxt + span headerSize b) post 0) x = m x := by
    intro x hx
    unfold headerSize at hx
    rw [setNext_of_disjoint _ _ (by omega), setSize_of_disjoint _ _ (by omega)]
  refine ⟨setNext (setSize m cur (a.size + headerSize + b.size)) cur
    (link (nxt + span headerSize b) post 0), ?_, ?_, hOut⟩
  · rw [hA.next] at hGuard
    simp only [coalesceBody, if_neg (show ¬ cur = 0 by omega), hA.next, if_pos hGuard, hSize,
      nextAt_setSize, hLink]
  · obtain ⟨hLpre, hLrest⟩ := linked_append.mp h.linked
    have hNx : link (nxt + span headerSize b) post 0 < 2 ^ 32 := by
      rw [← hB.next]
      exact nextAt_lt _ _
    have hEnd : nxt + span headerSize b =
        cur + span headerSize { size := a.size + headerSize + b.size, free := true } := by
      rw [hNxt]
      simp only [span]
      omega
    refine ⟨linked_append.mpr ⟨?_, ⟨?_, ?_, ?_⟩, ?_⟩, ?_⟩
    · exact Linked.congr_outside hLpre (Or.inl (Nat.le_refl _)) hOut
    · simp only [← hcur, sizeAt_setNext, sizeAt_setSize]
      exact Nat.mod_eq_of_lt (by omega)
    · simp only [← hcur, isFreeAt_setNext, isFreeAt_setSize, hA.isFree]
      simp [freeFlag, ha]
    · simp only [← hcur, nextAt_setNext, ← hEnd]
      exact Nat.mod_eq_of_lt hNx
    · rw [← hcur, ← hEnd]
      exact Linked.congr_outside hLrest.2.2 (Or.inr (by omega)) hOut
    · rw [← h.extent]
      simp only [extent_append, extent_cons, span]
      omega

/-- No merge: the turn moves on to the next header. -/
theorem coalesceBody_advance {K : Site} {m : Mem} {pre rest : List Block} {a : Block}
    (h : Represents K m (pre ++ a :: rest))
    (hNo : ∀ b post, rest = b :: post → ¬ (a.free = true ∧ b.free = true)) :
    coalesceBody (K.heapStart + extent headerSize pre, m) =
      .again (link (K.heapStart + extent headerSize (pre ++ [a])) rest 0, m) := by
  have hPos := K.pos
  have hA := h.holds
  have hExt : K.heapStart + extent headerSize (pre ++ [a]) =
      K.heapStart + extent headerSize pre + span headerSize a := by
    rw [extent_append, extent_cons, extent_nil, Nat.add_zero, Nat.add_assoc]
  have hGuard : ¬ (nextAt m (K.heapStart + extent headerSize pre) ≠ 0 ∧
      isFreeAt m (K.heapStart + extent headerSize pre) ≠ 0 ∧
      isFreeAt m (nextAt m (K.heapStart + extent headerSize pre)) ≠ 0) := by
    rw [hA.next, hA.isFree, freeFlag_ne_zero_iff]
    cases rest with
    | nil => simp
    | cons b post =>
      rw [List.append_cons] at h
      have hB := h.holds
      rw [hExt] at hB
      rw [link_cons, hB.isFree, freeFlag_ne_zero_iff]
      exact fun hAll => hNo b post rfl ⟨hAll.2.1, hAll.2.2⟩
  rw [coalesceBody, if_neg (show ¬ K.heapStart + extent headerSize pre = 0 by omega),
    if_neg hGuard, hA.next, hExt]

/-- The state of the coalescing loop with `n` blocks still to visit: `pre` is done,
`rest` is ahead, and the normal form of the whole is the one to reach. -/
def Coalescing (K : Site) (m₀ : Mem) (target : Arena) (n : Nat) (c : Nat × Mem) : Prop :=
  ∃ pre rest, n = rest.length ∧ c.1 = link (K.heapStart + extent headerSize pre) rest 0 ∧
    Represents K c.2 (pre ++ rest) ∧ coalesce headerSize (pre ++ rest) = target.blocks ∧
    Separated (pre ++ rest.take 1) ∧ ∀ x, Kept K target x → c.2 x = m₀ x

theorem coalescing_again {K : Site} {m₀ : Mem} {target : Arena} {n : Nat} {c c' : Nat × Mem}
    (h : Coalescing K m₀ target n c) (hTurn : coalesceBody c = .again c') :
    ∃ k, k < n ∧ Coalescing K m₀ target k c' := by
  obtain ⟨cur, m⟩ := c
  obtain ⟨pre, rest, rfl, hcur, hRepr, hTarget, hSep, hKept⟩ := h
  simp only at hcur hRepr hKept
  cases rest with
  | nil =>
    rw [hcur, link_nil] at hTurn
    simp [coalesceBody] at hTurn
  | cons a rest =>
    rw [link_cons] at hcur
    subst hcur
    by_cases hMerge : ∃ b post, rest = b :: post ∧ a.free = true ∧ b.free = true
    · obtain ⟨b, post, rfl, ha, hb⟩ := hMerge
      obtain ⟨m', hTurn', hRepr', hOut⟩ := coalesceBody_merge hRepr ha hb
      rw [hTurn'] at hTurn
      cases hTurn
      refine ⟨(post.length + 1), by simp, pre,
        { size := a.size + headerSize + b.size, free := true } :: post, by simp, rfl, hRepr',
        by rw [coalesce_merge _ _ ha hb]; exact hTarget, ?_, ?_⟩
      · -- the merged block is as free as the block it grew from
        simp only [List.take_succ_cons, List.take_zero] at hSep ⊢
        unfold Separated at hSep ⊢
        rw [List.isChain_append] at hSep ⊢
        refine ⟨hSep.1, List.isChain_singleton _, ?_⟩
        intro x hx y hy hBoth
        exact hSep.2.2 x hx a (by simp) ⟨hBoth.1, ha⟩
      · -- the header rewritten belongs to a free block, so it is not kept
        intro x hx
        rw [← hKept x hx]
        apply hOut
        have hBounds := hRepr.bounds
        have hHeap : heapSize = 4194304 := rfl
        rcases hx with hx | hx | ⟨o, size, hUsed, hlo, hhi⟩
        · omega
        · omega
        · have hUsed' : (o, { size := size, free := false }) ∈
              place headerSize 0 (pre ++ a :: b :: post) := by
            rw [← mem_place_coalesce_used rfl, hTarget]
            exact hUsed
          have ha' : (extent headerSize pre, a) ∈ place headerSize 0 (pre ++ a :: b :: post) :=
            mem_place_iff.mpr ⟨pre, b :: post, rfl, by simp⟩
          rcases place_disjoint ha' hUsed' with ⟨-, heq⟩ | hlt | hlt
          · rw [heq] at ha
            simp at ha
          · rw [span] at hlt
            omega
          · rw [span_mk] at hlt
            omega
    · have hNo : ∀ b post, rest = b :: post → ¬ (a.free = true ∧ b.free = true) :=
        fun b post hrest hBoth => hMerge ⟨b, post, hrest, hBoth⟩
      rw [coalesceBody_advance hRepr hNo] at hTurn
      cases hTurn
      refine ⟨rest.length, by simp, pre ++ [a], rest, rfl, rfl, by simpa using hRepr,
        by simpa using hTarget, ?_, hKept⟩
      simp only [List.take_succ_cons, List.take_zero] at hSep
      cases rest with
      | nil => simpa using hSep
      | cons b post =>
        simp only [List.take_succ_cons, List.take_zero, List.append_assoc, List.singleton_append]
        exact List.isChain_append_cons_cons.mpr
          ⟨hSep, hNo b post rfl, List.isChain_singleton _⟩

theorem coalescing_exit {K : Site} {m₀ m : Mem} {target : Arena} {n : Nat} {c : Nat × Mem}
    (h : Coalescing K m₀ target n c) (hTurn : coalesceBody c = .exit m) :
    Represents K m target.blocks ∧ ∀ x, Kept K target x → m x = m₀ x := by
  obtain ⟨cur, mc⟩ := c
  obtain ⟨pre, rest, -, hcur, hRepr, hTarget, hSep, hKept⟩ := h
  have hPos := K.pos
  simp only at hcur hRepr hKept
  cases rest with
  | nil =>
    rw [hcur, link_nil] at hTurn
    simp only [coalesceBody, if_true, Turn.exit.injEq] at hTurn
    subst hTurn
    simp only [List.take_nil, List.append_nil] at hSep hTarget hRepr
    rw [coalesce_of_separated hSep] at hTarget
    exact ⟨hTarget ▸ hRepr, hKept⟩
  | cons a rest =>
    -- the loop leaves only at `NULL`
    rw [link_cons] at hcur
    simp only [coalesceBody] at hTurn
    rw [if_neg (by omega)] at hTurn
    split at hTurn <;> simp at hTurn

/-- The coalescing loop reaches the normal form. -/
theorem coalesce_loop {K : Site} {m : Mem} {bs : List Block} (target : Arena)
    (h : Represents K m bs) (hTarget : coalesce headerSize bs = target.blocks) :
    ∃ m', loop coalesceBody (bs.length + 1) (K.heapStart, m) = some m' ∧
      Represents K m' target.blocks ∧ ∀ x, Kept K target x → m' x = m x := by
  refine loop_total (Coalescing K m target)
    (fun n c c' => coalescing_again) (fun n c r => coalescing_exit) ?_
  obtain ⟨b, bs', rfl⟩ := List.exists_cons_of_ne_nil h.ne_nil
  exact ⟨[], b :: bs', rfl, rfl, h, hTarget, List.isChain_singleton _, fun _ _ => rfl⟩

/-- `kfree` of the block in use at offset `o` is `Arena.free`. -/
theorem kfree_spec {K : Site} {s : State} {A : Arena} {o size : Nat}
    (h : Represents K s.mem A.blocks) (hUsed : A.Used o size) :
    ∃ m, kfree K (A.blocks.length + 1) (K.heapStart + o + headerSize) s =
        some { s with mem := m } ∧
      Represents K m (A.free o).blocks ∧ ∀ x, Kept K (A.free o) x → m x = s.mem x := by
  have hPos := K.pos
  have hFits := K.fits
  have hBounds := hUsed.bounds
  obtain ⟨pre, post, hbs, ho⟩ := mem_place_iff.mp hUsed
  rw [Nat.zero_add] at ho
  have hHeader : sub32 (K.heapStart + o + headerSize) headerSize = K.heapStart + o := by
    rw [sub32_of_le (by omega) (by omega)]
    omega
  -- setting the flag releases the block
  have hFlag : Represents K (setIsFree s.mem (K.heapStart + o) 1)
      (release headerSize o 0 A.blocks) := by
    rw [hbs] at h ⊢
    rw [ho, release_at headerSize_pos]
    have hHolds := h.holds
    obtain ⟨hLpre, hLrest⟩ := linked_append.mp h.linked
    have hOut : ∀ x, x < K.heapStart + extent headerSize pre ∨
        K.heapStart + extent headerSize pre + headerSize ≤ x →
        setIsFree s.mem (K.heapStart + extent headerSize pre) 1 x = s.mem x := by
      intro x hx
      have h12 : headerSize = 12 := rfl
      exact setIsFree_of_ne _ _ (by omega)
    refine ⟨linked_append.mpr ⟨?_, ⟨?_, ?_, ?_⟩, ?_⟩, ?_⟩
    · exact Linked.congr_outside hLpre (Or.inl (Nat.le_refl _)) hOut
    · rw [sizeAt_setIsFree, hHolds.size]
    · simp [freeFlag]
    · rw [nextAt_setIsFree, hHolds.next]
      rfl
    · exact Linked.congr_outside hLrest.2 (Or.inr (by rw [span_mk]; omega)) hOut
    · rw [← h.extent]
      simp
  have hLen : (release headerSize o 0 A.blocks).length = A.blocks.length := by
    rw [hbs, ho, release_at headerSize_pos]
    simp
  obtain ⟨m, hLoop, hRepr, hKept⟩ := coalesce_loop (A.free o) hFlag rfl
  refine ⟨m, ?_, hRepr, ?_⟩
  · rw [hLen] at hLoop
    rw [kfree, if_neg (by omega)]
    simp only [hHeader, hLoop, Option.map_some]
  · intro x hx
    rw [hKept x hx]
    refine setIsFree_of_ne _ _ ?_
    -- the flag byte lies in the header of the block being freed
    rcases hx with hx | hx | ⟨o', size', hUsed', hlo, hhi⟩
    · omega
    · unfold headerSize at hBounds
      omega
    · obtain ⟨hUsed'', hne⟩ := Arena.mem_used_free.mp hUsed'
      rcases hUsed.disjoint hUsed'' with ⟨heq, -⟩ | hlt | hlt
      · exact absurd heq.symm hne
      · unfold headerSize at *
        omega
      · unfold headerSize at *
        omega

/-! ## Answers do not depend on the fuel -/

theorem kmalloc_unique {K : Site} {fuel fuel' size : Nat} {s : State}
    {r r' : Outcome × State} (h : kmalloc K fuel size s = some r)
    (h' : kmalloc K fuel' size s = some r') : r = r' := by
  unfold kmalloc at h h'
  generalize (if s.mmInitialized = true then s else initMm K s) = st at h h'
  simp only at h h'
  cases hL : loop (searchBody st.mem (align size)) fuel K.heapStart with
  | none => simp [hL] at h
  | some found =>
    cases hL' : loop (searchBody st.mem (align size)) fuel' K.heapStart with
    | none => simp [hL'] at h'
    | some found' =>
      rw [hL] at h
      rw [hL', loop_unique hL' hL] at h'
      rw [h] at h'
      exact Option.some.inj h'

theorem kfree_unique {K : Site} {fuel fuel' p : Nat} {s r r' : State}
    (h : kfree K fuel p s = some r) (h' : kfree K fuel' p s = some r') : r = r' := by
  unfold kfree at h h'
  split at h
  · rename_i hp
    rw [if_pos hp] at h'
    rw [h] at h'
    exact Option.some.inj h'
  · rename_i hp
    rw [if_neg hp] at h'
    obtain ⟨m, hL, rfl⟩ := Option.map_eq_some_iff.mp h
    obtain ⟨m', hL', rfl⟩ := Option.map_eq_some_iff.mp h'
    rw [loop_unique hL hL']

/-! ## Simulation -/

/-- The heap in use `s` is the arena `A`, and callers hold its blocks in use. -/
structure Inv (K : Site) (s : Sys) (A : Arena) : Prop where
  init  : s.st.mmInitialized = true
  repr  : Represents K s.st.mem A.blocks
  live  : ∀ p, p ∈ s.live ↔ ∃ o size, A.Used o size ∧ p = K.heapStart + o + headerSize
  nodup : s.live.Nodup

theorem inv_init (K : Site) (st : State) : Inv K (Sys.init K st) Arena.initial := by
  refine ⟨rfl, init_represents K st, ?_, List.nodup_nil⟩
  intro p
  simp [Sys.init, Arena.Used, Arena.initial]

/-- A pointer held by a caller names a block in use. -/
theorem Inv.used_of_live {K : Site} {s : Sys} {A : Arena} (h : Inv K s A) {p : Nat}
    (hp : p ∈ s.live) :
    ∃ o size, A.Used o size ∧ p = K.heapStart + o + headerSize ∧
      blockSize s.st.mem p = size := by
  obtain ⟨o, size, hUsed, rfl⟩ := (h.live p).mp hp
  refine ⟨o, size, hUsed, rfl, ?_⟩
  obtain ⟨pre, post, hbs, ho⟩ := mem_place_iff.mp hUsed
  have hRepr := h.repr
  rw [hbs] at hRepr
  rw [blockSize, Nat.add_sub_cancel, ho, Nat.zero_add, hRepr.holds.size]

theorem Inv.ne_zero_of_live {K : Site} {s : Sys} {A : Arena} (h : Inv K s A) {p : Nat}
    (hp : p ∈ s.live) : p ≠ 0 := by
  obtain ⟨o, size, -, rfl⟩ := (h.live p).mp hp
  have := K.pos
  omega

/-- The taken block is not kept, so what is kept survives an allocation. -/
theorem kmalloc_kept {K : Site} {m : Mem} {A : Arena} {pre post : List Block} {b : Block}
    {needed x : Nat} (h : Represents K m A.blocks) (hbs : A.blocks = pre ++ b :: post)
    (hb : Fits needed b) (hx : Kept K A x) :
    takeBlock m needed (K.heapStart + extent headerSize pre) x = m x := by
  rw [hbs] at h
  obtain ⟨hSize, hEnd⟩ := h.fits
  have hBounds := h.bounds
  refine takeBlock_outside h.holds hb.2 hSize hEnd ?_
  rw [span]
  rcases hx with hx | hx | ⟨o, size, hUsed, hlo, hhi⟩
  · omega
  · omega
  · have hmem : (extent headerSize pre, b) ∈ place headerSize 0 A.blocks :=
      mem_place_iff.mpr ⟨pre, post, hbs, by simp⟩
    rcases place_disjoint hmem hUsed with ⟨-, heq⟩ | hlt | hlt
    · have hfree := hb.1
      rw [heq] at hfree
      simp at hfree
    · rw [span] at hlt
      omega
    · rw [span_mk] at hlt
      omega

/-- `kmalloc` on a heap in use: it always ends, with the outcome of `Arena.alloc`. -/
theorem Inv.kmalloc_total {K : Site} {s : Sys} {A : Arena} (h : Inv K s A) (size : Nat) :
    (A.alloc (align size) = none ∧
        kmalloc K (A.blocks.length + 1) size s.st = some (.panic, s.st)) ∨
      ∃ o B fuel m, A.alloc (align size) = some (o, B) ∧
        kmalloc K fuel size s.st =
          some (.ptr (K.heapStart + o + headerSize), { s.st with mem := m }) ∧
        Represents K m B.blocks ∧ ∀ x, Kept K A x → m x = s.st.mem x := by
  rcases exists_first_fit (align size) A.blocks with hNone | ⟨pre, b, post, hbs, hpre, hb⟩
  · exact Or.inl ⟨Arena.alloc_none_iff.mpr hNone, kmalloc_panic h.init h.repr hNone⟩
  · right
    obtain ⟨B, hAlloc, hB⟩ := Arena.alloc_of_split hbs hpre hb
    have hRepr := h.repr
    rw [hbs] at hRepr
    refine ⟨_, B, _, _, hAlloc, kmalloc_ptr h.init hRepr hpre hb, ?_, ?_⟩
    · rw [hB]
      exact takeBlock_represents hRepr hb
    · intro x hx
      exact kmalloc_kept h.repr hbs hb hx

/-- A `kmalloc` step is an allocation of the arena. -/
theorem Inv.step_kmalloc {K : Site} {s s' : Sys} {A : Arena} {size : Nat} (h : Inv K s A)
    (hStep : Step K s (.kmalloc size) s') :
    ∃ o B, A.alloc (align size) = some (o, B) ∧
      s'.live = (K.heapStart + o + headerSize) :: s.live ∧ Inv K s' B ∧
      ∀ x, Kept K A x → s'.st.mem x = s.st.mem x := by
  cases hStep with
  | kmalloc hSize hRet =>
    rcases h.kmalloc_total size with ⟨-, hPanic⟩ | ⟨o, B, fuel', m, hAlloc, hRet', hRepr, hKept⟩
    · have := kmalloc_unique hRet hPanic
      simp at this
    · have heq := kmalloc_unique hRet hRet'
      simp only [Prod.mk.injEq, Outcome.ptr.injEq] at heq
      obtain ⟨rfl, rfl⟩ := heq
      refine ⟨o, B, hAlloc, rfl, ⟨h.init, hRepr, fun q => ?_, ?_⟩, hKept⟩
      · obtain ⟨granted, -, hUsed⟩ := Arena.mem_used_alloc hAlloc
        rw [List.mem_cons, h.live]
        constructor
        · rintro (rfl | ⟨o', size', hU, rfl⟩)
          · exact ⟨o, granted, (hUsed o granted).mpr (Or.inr ⟨rfl, rfl⟩), rfl⟩
          · exact ⟨o', size', (hUsed o' size').mpr (Or.inl hU), rfl⟩
        · rintro ⟨o', size', hU, rfl⟩
          rcases (hUsed o' size').mp hU with hU' | ⟨rfl, -⟩
          · exact Or.inr ⟨o', size', hU', rfl⟩
          · exact Or.inl rfl
      · refine List.nodup_cons.mpr ⟨fun hmem => ?_, h.nodup⟩
        obtain ⟨o', size', hU, heq⟩ := (h.live _).mp hmem
        have ho : o' = o := by omega
        subst ho
        exact Arena.alloc_fresh hAlloc hU

/-- A `kfree` step of a held pointer frees its block. -/
theorem Inv.step_kfree {K : Site} {s s' : Sys} {A : Arena} {o size : Nat} (h : Inv K s A)
    (hUsed : A.Used o size)
    (hStep : Step K s (.kfree (K.heapStart + o + headerSize)) s') :
    s'.live = s.live.erase (K.heapStart + o + headerSize) ∧ Inv K s' (A.free o) ∧
      ∀ x, Kept K (A.free o) x → s'.st.mem x = s.st.mem x := by
  cases hStep with
  | kfree hp hRet =>
    obtain ⟨m, hRet', hRepr, hKept⟩ := kfree_spec (s := s.st) h.repr hUsed
    have heq := kfree_unique hRet hRet'
    subst heq
    refine ⟨rfl, ⟨h.init, hRepr, fun q => ?_, h.nodup.erase _⟩, hKept⟩
    rw [h.nodup.mem_erase_iff, h.live]
    constructor
    · rintro ⟨hne, o', size', hU, rfl⟩
      exact ⟨o', size', Arena.mem_used_free.mpr ⟨hU, fun heq => hne (by rw [heq])⟩, rfl⟩
    · rintro ⟨o', size', hU, rfl⟩
      obtain ⟨hU', hne⟩ := Arena.mem_used_free.mp hU
      exact ⟨by omega, o', size', hU', rfl⟩

/-- `kfree(NULL)` does nothing. -/
theorem Inv.step_kfree_null {K : Site} {s s' : Sys} {A : Arena} (h : Inv K s A)
    (hStep : Step K s (.kfree 0) s') : s' = s := by
  cases hStep with
  | kfree hp hRet =>
    simp only [kfree, if_true, Option.some.injEq] at hRet
    have hNot : 0 ∉ s.live := fun h0 => h.ne_zero_of_live h0 rfl
    rw [← hRet, List.erase_of_not_mem hNot]

/-- A caller's write stays in its own payload, so the arena is unchanged. -/
theorem Inv.step_store {K : Site} {s s' : Sys} {A : Arena} {a : Nat} {v : UInt8}
    (h : Inv K s A) (hStep : Step K s (.store a v) s') :
    s'.live = s.live ∧ Inv K s' A ∧ ∀ x, x ≠ a → s'.st.mem x = s.st.mem x := by
  cases hStep with
  | store hp ha =>
    obtain ⟨o, size, hUsed, rfl, hSize⟩ := h.used_of_live hp
    rw [hSize] at ha
    refine ⟨rfl, ⟨h.init, ⟨?_, h.repr.extent⟩, h.live, h.nodup⟩,
      fun x hx => Mem.write8_of_ne _ _ hx⟩
    refine Linked.congr h.repr.linked fun o' b hmem x h1 h2 => Mem.write8_of_ne _ _ ?_
    -- a header byte of some block is not a payload byte of this one
    have hShift : ∃ o'', o' = K.heapStart + o'' ∧ (o'', b) ∈ place headerSize 0 A.blocks := by
      obtain ⟨pre, post, hbs, rfl⟩ := mem_place_iff.mp hmem
      exact ⟨_, rfl, mem_place_iff.mpr ⟨pre, post, hbs, by simp⟩⟩
    obtain ⟨o'', rfl, hmem'⟩ := hShift
    rcases place_disjoint hmem' hUsed with ⟨rfl, -⟩ | hlt | hlt
    · omega
    · rw [span] at hlt
      omega
    · rw [span_mk] at hlt
      omega

/-- Steps of the arena. -/
inductive ArenaStep (K : Site) : Arena → Op → Arena → Prop where
  | kmalloc {A B : Arena} {size o : Nat} (hAlloc : A.alloc (align size) = some (o, B)) :
      ArenaStep K A (.kmalloc size) B
  | kfree {A : Arena} {o size : Nat} (hUsed : A.Used o size) :
      ArenaStep K A (.kfree (K.heapStart + o + headerSize)) (A.free o)
  | kfreeNull {A : Arena} : ArenaStep K A (.kfree 0) A
  | store {A : Arena} {a : Nat} {v : UInt8} : ArenaStep K A (.store a v) A

/-- **Refinement.** Every step of the byte-level heap is a step of the arena. -/
theorem step_refines {K : Site} {s s' : Sys} {A : Arena} {op : Op} (h : Inv K s A)
    (hStep : Step K s op s') : ∃ B, ArenaStep K A op B ∧ Inv K s' B := by
  cases op with
  | kmalloc size =>
    obtain ⟨o, B, hAlloc, -, hInv, -⟩ := h.step_kmalloc hStep
    exact ⟨B, .kmalloc hAlloc, hInv⟩
  | kfree p =>
    have hp : p = 0 ∨ p ∈ s.live := by
      cases hStep with
      | kfree hp _ => exact hp
    rcases hp with rfl | hp
    · rw [h.step_kfree_null hStep]
      exact ⟨A, .kfreeNull, h⟩
    · obtain ⟨o, size, hUsed, rfl, -⟩ := h.used_of_live hp
      exact ⟨A.free o, .kfree hUsed, (h.step_kfree hUsed hStep).2.1⟩
  | store a v => exact ⟨A, .store, (h.step_store hStep).2.1⟩

/-- Every state of the heap in use is some arena. -/
theorem reachable_inv {K : Site} {s : Sys} (h : Reachable K s) : ∃ A, Inv K s A := by
  obtain ⟨st, ops, hRun⟩ := h
  refine Run.invariant (fun s => ∃ A, Inv K s A) ?_ ⟨_, inv_init K st⟩ hRun
  rintro s op s' ⟨A, hInv⟩ hStep
  obtain ⟨B, -, hInv'⟩ := step_refines hInv hStep
  exact ⟨B, hInv'⟩

/-- `get_used_memory` on a heap in use. -/
theorem Inv.used_spec {K : Site} {s : Sys} {A : Arena} (h : Inv K s A) :
    getUsedMemory K (A.blocks.length + 1) s.st = some A.used := by
  have hFit := A.used_add_freeBytes
  have hHeap : heapSize = 4194304 := rfl
  have hWalk := used_walk 0 K.pos h.repr.linked (by
    show 0 + A.used < 2 ^ 32
    omega)
  obtain ⟨b, bs, hbs⟩ := List.exists_cons_of_ne_nil h.repr.ne_nil
  rw [Nat.zero_add] at hWalk
  rw [getUsedMemory, if_pos h.init]
  rw [hbs, link_cons, ← hbs] at hWalk
  exact hWalk

theorem getUsedMemory_unique {K : Site} {fuel fuel' u u' : Nat} {s : State}
    (h : getUsedMemory K fuel s = some u) (h' : getUsedMemory K fuel' s = some u') : u = u' := by
  unfold getUsedMemory at h h'
  split at h
  · rename_i hInit
    rw [if_pos hInit] at h'
    exact loop_unique h h'
  · rename_i hInit
    rw [if_neg hInit] at h'
    rw [h] at h'
    exact Option.some.inj h'

end Nao.Mm
