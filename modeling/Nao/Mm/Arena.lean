import Nao.Mm.Definitions
import Nao.Lib.FirstFit

/-!
# What the heap is for: the arena

The abstract heap. An `Arena` is a tiling of the 4 MiB into blocks in which no
two free blocks are neighbours; both facts are fields, so an ill-formed arena
cannot be built. `alloc` and `free` are first fit and free-with-coalescing on
tilings, and what a user of the heap relies on is said here once, away from
bytes, pointers and fuel:

* `mem_used_alloc` / `mem_used_free` — the blocks in use change by exactly the
  block allocated or freed;
* `alloc_none_iff_regions`, `alloc_lowest` — a request fails only when no maximal free
  run is long enough, and is served from the lowest one otherwise;
* `free_alloc`, `free_comm` — freeing undoes allocating, and frees commute;
* `used_add_freeBytes`, `used_le_alloc`, `used_free` — the accounting.
-/

namespace Nao.Mm

open SysLib SysLib.BlockList

theorem headerSize_pos : 0 < headerSize := by decide

/-- A tiling of the heap without adjacent free blocks. -/
@[ext] structure Arena where
  blocks    : List Block
  tiles     : extent headerSize blocks = heapSize
  separated : Separated blocks

namespace Arena

/-- A block in use of `size` bytes, `o` bytes into the heap. -/
def Used (A : Arena) (o size : Nat) : Prop :=
  (o, { size := size, free := false }) ∈ place headerSize 0 A.blocks

/-- The arena `init_mm` sets up. -/
def initial : Arena where
  blocks := [{ size := heapSize - headerSize, free := true }]
  tiles := by decide
  separated := List.isChain_singleton _

/-- Allocate `need` bytes: the offset of the block, and the arena after. -/
def alloc (A : Arena) (need : Nat) : Option (Nat × Arena) :=
  match h : firstFit headerSize 8 need 0 A.blocks with
  | none => none
  | some (o, bs) => some (o,
      { blocks := bs
        tiles := by
          obtain ⟨pre, b, post, hbs, -, -, -, rfl⟩ := firstFit_eq_some h
          have := A.tiles
          rw [hbs] at this
          simpa [extent_carve, Nat.add_assoc] using this
        separated := by
          obtain ⟨pre, b, post, hbs, -, hb, -, rfl⟩ := firstFit_eq_some h
          have := A.separated
          rw [hbs] at this
          exact separated_carve hb.1 this })

/-- Free the block at offset `o`. -/
def free (A : Arena) (o : Nat) : Arena where
  blocks := freeAt headerSize o A.blocks
  tiles := by
    rw [freeAt, extent_coalesce, extent_release]
    exact A.tiles
  separated := separated_coalesce _

/-! ## Blocks in use -/

theorem Used.bounds {A : Arena} {o size : Nat} (h : A.Used o size) :
    o + headerSize + size ≤ heapSize := by
  have := (place_bounds h).2
  rw [A.tiles, span_mk] at this
  omega

/-- Two blocks in use are the same or apart. -/
theorem Used.disjoint {A : Arena} {o o' size size' : Nat} (h : A.Used o size)
    (h' : A.Used o' size') :
    (o = o' ∧ size = size') ∨ o + headerSize + size ≤ o' ∨ o' + headerSize + size' ≤ o := by
  rcases place_disjoint h h' with ⟨ho, hb⟩ | hlt | hlt
  · exact Or.inl ⟨ho, congrArg Block.size hb⟩
  · rw [span_mk] at hlt
    exact Or.inr (Or.inl (by omega))
  · rw [span_mk] at hlt
    exact Or.inr (Or.inr (by omega))

theorem Used.size_unique {A : Arena} {o size size' : Nat} (h : A.Used o size)
    (h' : A.Used o size') : size = size' :=
  congrArg Block.size (place_offset_inj headerSize_pos h h')

/-- A served request, spelt out. -/
theorem alloc_eq_some {A B : Arena} {need o : Nat} (h : A.alloc need = some (o, B)) :
    ∃ pre b post, A.blocks = pre ++ b :: post ∧ (∀ c ∈ pre, ¬ Fits need c) ∧ Fits need b ∧
      o = extent headerSize pre ∧ B.blocks = pre ++ carve headerSize 8 need b ++ post := by
  unfold alloc at h
  split at h
  · simp at h
  · rename_i o' bs hFit
    simp only [Option.some.injEq, Prod.mk.injEq] at h
    obtain ⟨rfl, rfl⟩ := h
    obtain ⟨pre, b, post, hbs, hpre, hb, ho, hbs'⟩ := firstFit_eq_some hFit
    exact ⟨pre, b, post, hbs, hpre, hb, by omega, hbs'⟩

/-- The converse: splitting the blocks at the first fit determines the answer. -/
theorem alloc_of_split {A : Arena} {need : Nat} {pre post : List Block} {b : Block}
    (hbs : A.blocks = pre ++ b :: post) (hpre : ∀ c ∈ pre, ¬ Fits need c) (hb : Fits need b) :
    ∃ B, A.alloc need = some (extent headerSize pre, B) ∧
      B.blocks = pre ++ carve headerSize 8 need b ++ post := by
  have hFit : firstFit headerSize 8 need 0 A.blocks =
      some (extent headerSize pre, pre ++ carve headerSize 8 need b ++ post) := by
    rw [hbs, firstFit_append hpre hb, Nat.zero_add]
  unfold alloc
  split
  · rename_i hNone
    rw [hFit] at hNone
    simp at hNone
  · rename_i o bs hSome
    rw [hFit] at hSome
    simp only [Option.some.injEq, Prod.mk.injEq] at hSome
    obtain ⟨rfl, rfl⟩ := hSome
    exact ⟨_, rfl, rfl⟩

theorem alloc_none_iff {A : Arena} {need : Nat} :
    A.alloc need = none ↔ ∀ b ∈ A.blocks, ¬ Fits need b := by
  rw [← firstFit_eq_none_iff headerSize 8 0]
  unfold alloc
  split
  · rename_i h
    simp [h]
  · rename_i h
    simp [h]

/-- Allocating adds the granted block, of at least `need` bytes, and nothing else. -/
theorem mem_used_alloc {A B : Arena} {need o : Nat} (h : A.alloc need = some (o, B)) :
    ∃ granted, need ≤ granted ∧ ∀ o' size,
      B.Used o' size ↔ A.Used o' size ∨ (o' = o ∧ size = granted) := by
  obtain ⟨pre, b, post, hbs, -, hb, rfl, hB⟩ := alloc_eq_some h
  refine ⟨(granted headerSize 8 need b).size, need_le_granted hb, ?_⟩
  intro o' size
  unfold Used
  rw [hB, hbs, mem_place_carve_used hb.1 rfl]
  have hGranted : ({ size := size, free := false } : Block) = granted headerSize 8 need b ↔
      size = (granted headerSize 8 need b).size := by
    constructor
    · intro heq
      rw [← heq]
    · intro heq
      rw [heq, ← granted_free headerSize 8 need b]
  rw [hGranted]

/-- The granted block does not start where another block in use does. -/
theorem alloc_fresh {A B : Arena} {need o size : Nat} (h : A.alloc need = some (o, B)) :
    ¬ A.Used o size := by
  obtain ⟨pre, b, post, hbs, -, hb, rfl, -⟩ := alloc_eq_some h
  intro hUsed
  have hmem : (extent headerSize pre, b) ∈ place headerSize 0 A.blocks :=
    mem_place_iff.mpr ⟨pre, post, hbs, by simp⟩
  have := place_offset_inj headerSize_pos hUsed hmem
  have hfree := hb.1
  rw [← this] at hfree
  simp at hfree

/-- Freeing removes exactly the block freed. -/
theorem mem_used_free {A : Arena} {o o' size : Nat} :
    (A.free o).Used o' size ↔ A.Used o' size ∧ o' ≠ o :=
  mem_place_freeAt_used rfl

/-! ## Order of operations -/

/-- Freeing the block just allocated restores the arena. -/
theorem free_alloc {A B : Arena} {need o : Nat} (h : A.alloc need = some (o, B)) :
    B.free o = A := by
  obtain ⟨pre, b, post, hbs, -, hb, rfl, hB⟩ := alloc_eq_some h
  have hSep := A.separated
  rw [hbs] at hSep
  apply Arena.ext
  show freeAt headerSize (extent headerSize pre) B.blocks = A.blocks
  rw [hB, freeAt_carve headerSize_pos hb.1 hSep, hbs]

/-- Freeing two blocks in use commutes. -/
theorem free_comm {A : Arena} {o o' size size' : Nat} (h : A.Used o size)
    (h' : A.Used o' size') (hne : o ≠ o') : (A.free o).free o' = (A.free o').free o := by
  apply Arena.ext
  exact freeAt_comm headerSize_pos h rfl h' rfl hne

/-- An arena with no block in use is the initial one: its free blocks, having no
used block to part them, are a single block. -/
theorem eq_initial_of_not_used {A : Arena} (h : ∀ o size, ¬ A.Used o size) : A = initial := by
  have hFree : ∀ b ∈ A.blocks, b.free = true := by
    intro b hb
    obtain ⟨pre, post, hbs⟩ := List.append_of_mem hb
    by_contra hne
    refine h (extent headerSize pre) b.size ?_
    rw [Used, ← Block.eq_used hne]
    exact mem_place_iff.mpr ⟨pre, post, hbs, by simp⟩
  have hTiles := A.tiles
  have hSep := A.separated
  apply Arena.ext
  match hbs : A.blocks, hTiles with
  | [], hTiles => simp [heapSize] at hTiles
  | [b], hTiles =>
    have hb := hFree b (by simp [hbs])
    simp only [extent_cons, extent_nil, span] at hTiles
    have hsize : b.size = heapSize - headerSize := by omega
    show [b] = [{ size := heapSize - headerSize, free := true }]
    rw [← hsize, ← hb]
  | a :: b :: rest, _ =>
    rw [hbs] at hSep
    have hab := (List.isChain_cons_cons.mp hSep).1
    exact absurd ⟨hFree a (by simp [hbs]), hFree b (by simp [hbs])⟩ hab

/-! ## Regions -/

/-- The byte `x` of the heap belongs to no block in use, header included. -/
def Vacant (A : Arena) (x : Nat) : Prop :=
  x < heapSize ∧ ∀ o size, A.Used o size → ¬ (o ≤ x ∧ x < o + headerSize + size)

theorem vacant_iff_freeByte {A : Arena} {x : Nat} :
    A.Vacant x ↔ FreeByte headerSize 0 A.blocks x := by
  constructor
  · rintro ⟨hx, hNot⟩
    have hEnd : x < 0 + extent headerSize A.blocks := by
      rw [A.tiles]
      omega
    obtain ⟨o, b, hmem, ho, hlt⟩ := exists_place_of_lt (Nat.zero_le x) hEnd
    refine ⟨o, b, hmem, ?_, ho, hlt⟩
    by_contra hFree
    rw [span] at hlt
    refine hNot o b.size ?_ ⟨ho, by omega⟩
    rw [Used, ← Block.eq_used hFree]
    exact hmem
  · rintro ⟨o, b, hmem, hFree, ho, hlt⟩
    have hBound := (place_bounds hmem).2
    rw [A.tiles] at hBound
    refine ⟨by omega, ?_⟩
    intro o' size hUsed hx
    have heq := place_unique hmem hUsed ⟨ho, hlt⟩ (by rw [span_mk]; omega)
    rw [heq.2] at hFree
    simp at hFree

/-- The maximal vacant regions are the free blocks with their headers. -/
theorem maximalRun_vacant_iff {A : Arena} {a e : Nat} :
    MaximalRun A.Vacant a e ↔
      ∃ b, (a, b) ∈ place headerSize 0 A.blocks ∧ b.free = true ∧ e = a + span headerSize b := by
  have hVacant : A.Vacant = FreeByte headerSize 0 A.blocks := by
    funext x
    exact propext vacant_iff_freeByte
  rw [hVacant, maximalRun_iff headerSize_pos A.separated]

/-- A request fails exactly when every maximal vacant region is too short for it. -/
theorem alloc_none_iff_regions {A : Arena} {need : Nat} :
    A.alloc need = none ↔ ∀ a e, MaximalRun A.Vacant a e → e - a < need + headerSize := by
  rw [alloc_none_iff]
  constructor
  · intro hNone a e hRun
    obtain ⟨b, hmem, hFree, rfl⟩ := maximalRun_vacant_iff.mp hRun
    obtain ⟨pre, post, hbs, -⟩ := mem_place_iff.mp hmem
    have hFit := hNone b (by simp [hbs])
    unfold Fits at hFit
    unfold span
    by_contra hge
    exact hFit ⟨hFree, by omega⟩
  · intro hShort b hb hFit
    obtain ⟨pre, post, hbs⟩ := List.append_of_mem hb
    have hmem : (extent headerSize pre, b) ∈ place headerSize 0 A.blocks :=
      mem_place_iff.mpr ⟨pre, post, hbs, by simp⟩
    have := hShort _ _ (maximalRun_vacant_iff.mpr ⟨b, hmem, hFit.1, rfl⟩)
    have := hFit.2
    unfold span at *
    omega

/-- A served request uses the lowest maximal vacant region that is long enough. -/
theorem alloc_lowest {A B : Arena} {need o : Nat} (h : A.alloc need = some (o, B)) :
    (∃ e, MaximalRun A.Vacant o e ∧ need + headerSize ≤ e - o) ∧
      ∀ a e, MaximalRun A.Vacant a e → need + headerSize ≤ e - a → o ≤ a := by
  obtain ⟨pre, b, post, hbs, hpre, hb, rfl, -⟩ := alloc_eq_some h
  have hmem : (extent headerSize pre, b) ∈ place headerSize 0 A.blocks :=
    mem_place_iff.mpr ⟨pre, post, hbs, by simp⟩
  constructor
  · refine ⟨_, maximalRun_vacant_iff.mpr ⟨b, hmem, hb.1, rfl⟩, ?_⟩
    have := hb.2
    unfold span
    omega
  · intro a e hRun hLong
    obtain ⟨c, hc, hFree, rfl⟩ := maximalRun_vacant_iff.mp hRun
    by_contra hlt
    -- a fitting block in front of the chosen one would lie among the skipped ones
    rw [hbs, place_append, List.mem_append] at hc
    rcases hc with hc | hc
    · obtain ⟨pre', post', hpre', -⟩ := mem_place_iff.mp hc
      refine hpre c (by simp [hpre']) ⟨hFree, ?_⟩
      unfold span at hLong
      omega
    · have := (place_bounds hc).1
      omega

/-! ## Accounting -/

/-- Bytes not available to callers: headers and blocks in use. -/
def used (A : Arena) : Nat := footprint headerSize A.blocks

theorem used_add_freeBytes (A : Arena) : A.used + freeBytes A.blocks = heapSize := by
  rw [used, footprint_add_freeBytes, A.tiles]

theorem used_le_alloc {A B : Arena} {need o : Nat} (h : A.alloc need = some (o, B)) :
    A.used ≤ B.used := by
  obtain ⟨pre, b, post, hbs, -, hb, -, hB⟩ := alloc_eq_some h
  have hCarve := footprint_carve_ge headerSize 8 need hb.1
  simp only [used, hbs, hB, footprint_append, footprint_cons, footprint_nil] at hCarve ⊢
  omega

/-- A free block touches the block in use at `o`. -/
def FreeNeighbour (A : Arena) (o size : Nat) : Prop :=
  ∃ o' size', (o', { size := size', free := true }) ∈ place headerSize 0 A.blocks ∧
    (o' + headerSize + size' = o ∨ o' = o + headerSize + size)

/-- Releasing a block brings two free blocks together exactly when a free block
touches it. -/
theorem separated_release_iff {A : Arena} {o size : Nat} (h : A.Used o size) :
    Separated (release headerSize o 0 A.blocks) ↔ ¬ A.FreeNeighbour o size := by
  obtain ⟨pre, post, hbs, ho⟩ := mem_place_iff.mp h
  rw [Nat.zero_add] at ho
  subst ho
  rw [hbs, release_at headerSize_pos]
  constructor
  · rintro hSep ⟨o', size', hmem, hTouch | hTouch⟩
    · -- the neighbour in front is the last block of `pre`
      rw [hbs, place_append, List.mem_append] at hmem
      rcases hmem with hmem | hmem
      · obtain ⟨pre', post', rfl, rfl⟩ := mem_place_iff.mp hmem
        have hPost' : post' = [] := by
          cases post' with
          | nil => rfl
          | cons c cs =>
            simp only [extent_append, extent_cons, span] at hTouch
            have := headerSize_pos
            omega
        subst hPost'
        rw [List.append_assoc, List.singleton_append] at hSep
        exact separated_append_cons_cons hSep ⟨rfl, rfl⟩
      · have := (place_bounds hmem).1
        have := headerSize_pos
        omega
    · subst hTouch
      rw [hbs] at hmem
      cases post with
      | nil =>
        have := (place_bounds hmem).2
        simp only [extent_append, extent_cons, extent_nil, span_mk] at this
        have := headerSize_pos
        omega
      | cons c cs =>
        have hc : (extent headerSize pre + headerSize + size, c) ∈ place headerSize 0
            (pre ++ { size := size, free := false } :: c :: cs) :=
          mem_place_iff.mpr ⟨pre ++ [{ size := size, free := false }], cs, by simp,
            by simp [Nat.add_assoc]⟩
        have heq := place_offset_inj headerSize_pos hmem hc
        exact separated_append_cons_cons hSep ⟨rfl, by rw [← heq]⟩
  · intro hNo
    have hSep := A.separated
    rw [hbs] at hSep
    unfold Separated at hSep ⊢
    rw [List.isChain_split] at hSep ⊢
    refine ⟨?_, ?_⟩
    · rw [List.isChain_append] at hSep ⊢
      refine ⟨hSep.1.1, List.isChain_singleton _, ?_⟩
      intro x hx y _ hBoth
      -- a free last block of `pre` would be a neighbour
      obtain ⟨pre', rfl⟩ : ∃ pre', pre = pre' ++ [x] := List.getLast?_eq_some_iff.mp hx
      refine hNo ⟨extent headerSize pre', x.size, ?_, Or.inl ?_⟩
      · have hx' : ({ size := x.size, free := true } : Block) = x := by
          rw [← hBoth.1]
        rw [hx', hbs]
        exact mem_place_iff.mpr ⟨pre', { size := size, free := false } :: post, by simp, by simp⟩
      · simp [span, Nat.add_assoc]
    · cases post with
      | nil => exact List.isChain_singleton _
      | cons c cs =>
        rw [List.isChain_cons_cons] at hSep ⊢
        refine ⟨?_, hSep.2.2⟩
        intro hBoth
        refine hNo ⟨extent headerSize pre + headerSize + size, c.size, ?_, Or.inr rfl⟩
        have hc' : ({ size := c.size, free := true } : Block) = c := by
          rw [← hBoth.2]
        rw [hc', hbs]
        exact mem_place_iff.mpr ⟨pre ++ [{ size := size, free := false }], cs, by simp,
          by simp [Nat.add_assoc]⟩

/-- Freeing never raises the use, and lowers it exactly when there is something to
give back: payload bytes, or the header between two free blocks. -/
theorem used_free {A : Arena} {o size : Nat} (h : A.Used o size) :
    (A.free o).used ≤ A.used ∧
      ((A.free o).used < A.used ↔ 0 < size ∨ A.FreeNeighbour o size) := by
  have hSep := separated_release_iff h
  obtain ⟨pre, post, hbs, ho⟩ := mem_place_iff.mp h
  rw [Nat.zero_add] at ho
  have hRelease : release headerSize o 0 A.blocks =
      pre ++ { size := size, free := true } :: post := by
    rw [hbs, ho, release_at headerSize_pos]
  have hCoalesce := footprint_coalesce headerSize (release headerSize o 0 A.blocks)
  have hShort := length_coalesce_lt_iff headerSize (release headerSize o 0 A.blocks)
  have hUsed : A.used = footprint headerSize (release headerSize o 0 A.blocks) + size := by
    rw [used, hRelease, hbs]
    simp only [footprint_append, footprint_cons]
    simp
    omega
  have hFree : (A.free o).used =
      footprint headerSize (coalesce headerSize (release headerSize o 0 A.blocks)) := rfl
  rw [hSep, not_not] at hShort
  have h12 : headerSize = 12 := rfl
  rw [h12] at hCoalesce hUsed hFree hShort
  rw [hFree, hUsed, ← hShort]
  omega

end Arena

end Nao.Mm
