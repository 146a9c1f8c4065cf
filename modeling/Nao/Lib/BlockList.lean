import Mathlib.Algebra.Order.Ring.Nat
import Mathlib.Data.List.Chain
import Mathlib.Algebra.BigOperators.Group.List.Basic

/-!
# Block lists: a region cut into consecutive blocks

The abstract view of a header-based allocator. A region is cut into consecutive
blocks; each block is `hdr` bytes of header followed by `size` usable bytes, and
is free or in use. Offsets are not stored: a block sits where the blocks before
it end (`place`), so a block list is a tiling by construction and two block
lists are equal exactly when offsets, sizes and flags are.

* `mem_place_iff`     — a placed block splits its list at its offset.
* `place_disjoint`    — two placed blocks are the same or do not overlap.
* `exists_place_of_lt` — every byte of the region lies in some block.
* `maximalRun_iff`    — when no two neighbours are free, the maximal runs of
  free bytes are exactly the free blocks.
-/

namespace SysLib

/-- A block: `size` usable bytes behind its header, free or in use. -/
structure Block where
  size : Nat
  free : Bool
  deriving DecidableEq, Repr

/-- A block that is not free is in use. -/
theorem Block.eq_used {b : Block} (h : ¬ b.free = true) : b = { size := b.size, free := false } := by
  rcases b with ⟨size, _ | _⟩
  · rfl
  · exact absurd rfl h

namespace BlockList

variable (hdr : Nat)

/-! ## Layout -/

/-- Bytes a block takes, header included. -/
def span (b : Block) : Nat := hdr + b.size

/-- Bytes a list of blocks takes. -/
def extent (bs : List Block) : Nat := (bs.map (span hdr)).sum

/-- The blocks of a list with their offsets, the first one at `off`. -/
def place : Nat → List Block → List (Nat × Block)
  | _, [] => []
  | off, b :: bs => (off, b) :: place (off + span hdr b) bs

/-- No two consecutive blocks are both free. -/
def Separated (bs : List Block) : Prop :=
  bs.IsChain fun a b => ¬ (a.free = true ∧ b.free = true)

@[simp] theorem span_mk (size : Nat) (free : Bool) :
    span hdr { size := size, free := free } = hdr + size := rfl

@[simp] theorem extent_nil : extent hdr [] = 0 := rfl

@[simp] theorem extent_cons (b : Block) (bs : List Block) :
    extent hdr (b :: bs) = span hdr b + extent hdr bs := by
  simp [extent]

@[simp] theorem extent_append (xs ys : List Block) :
    extent hdr (xs ++ ys) = extent hdr xs + extent hdr ys := by
  simp [extent]

@[simp] theorem place_nil (off : Nat) : place hdr off [] = [] := rfl

@[simp] theorem place_cons (off : Nat) (b : Block) (bs : List Block) :
    place hdr off (b :: bs) = (off, b) :: place hdr (off + span hdr b) bs := rfl

theorem place_append (off : Nat) (xs ys : List Block) :
    place hdr off (xs ++ ys) = place hdr off xs ++ place hdr (off + extent hdr xs) ys := by
  induction xs generalizing off with
  | nil => simp
  | cons b xs ih => simp [ih, Nat.add_assoc]

variable {hdr}

/-- A block is placed at `o` exactly when the blocks before it reach up to `o`. -/
theorem mem_place_iff {off o : Nat} {b : Block} {bs : List Block} :
    (o, b) ∈ place hdr off bs ↔
      ∃ pre post, bs = pre ++ b :: post ∧ o = off + extent hdr pre := by
  constructor
  · intro h
    induction bs generalizing off with
    | nil => simp at h
    | cons c bs ih =>
      rw [place_cons, List.mem_cons] at h
      rcases h with h | h
      · obtain ⟨rfl, rfl⟩ := Prod.mk.inj h
        exact ⟨[], bs, rfl, by simp⟩
      · obtain ⟨pre, post, rfl, rfl⟩ := ih h
        exact ⟨c :: pre, post, rfl, by simp [Nat.add_assoc]⟩
  · rintro ⟨pre, post, rfl, rfl⟩
    simp [place_append]

theorem place_bounds {off o : Nat} {b : Block} {bs : List Block}
    (h : (o, b) ∈ place hdr off bs) :
    off ≤ o ∧ o + span hdr b ≤ off + extent hdr bs := by
  obtain ⟨pre, post, rfl, rfl⟩ := mem_place_iff.mp h
  simp only [extent_append, extent_cons]
  omega

/-- Two placed blocks either coincide or do not overlap. -/
theorem place_disjoint {off o o' : Nat} {b b' : Block} {bs : List Block}
    (h : (o, b) ∈ place hdr off bs) (h' : (o', b') ∈ place hdr off bs) :
    (o = o' ∧ b = b') ∨ o + span hdr b ≤ o' ∨ o' + span hdr b' ≤ o := by
  induction bs generalizing off with
  | nil => simp at h
  | cons c bs ih =>
    rw [place_cons, List.mem_cons] at h h'
    rcases h with h | h <;> rcases h' with h' | h'
    · obtain ⟨rfl, rfl⟩ := Prod.mk.inj h
      obtain ⟨rfl, rfl⟩ := Prod.mk.inj h'
      exact Or.inl ⟨rfl, rfl⟩
    · obtain ⟨rfl, rfl⟩ := Prod.mk.inj h
      exact Or.inr (Or.inl (place_bounds h').1)
    · obtain ⟨rfl, rfl⟩ := Prod.mk.inj h'
      exact Or.inr (Or.inr (place_bounds h).1)
    · exact ih h h'

/-- Overlapping placed blocks are the same block. -/
theorem place_unique {off o o' x : Nat} {b b' : Block} {bs : List Block}
    (h : (o, b) ∈ place hdr off bs) (h' : (o', b') ∈ place hdr off bs)
    (hx : o ≤ x ∧ x < o + span hdr b) (hx' : o' ≤ x ∧ x < o' + span hdr b') :
    o = o' ∧ b = b' := by
  rcases place_disjoint h h' with heq | hlt | hlt
  · exact heq
  · omega
  · omega

/-- Two blocks placed at one offset are the same block: headers take room. -/
theorem place_offset_inj (hHdr : 0 < hdr) {off o : Nat} {b b' : Block} {bs : List Block}
    (h : (o, b) ∈ place hdr off bs) (h' : (o, b') ∈ place hdr off bs) : b = b' := by
  refine (place_unique h h' (x := o) ?_ ?_).2 <;> unfold span <;> omega

/-- Every byte of the region lies in some block. -/
theorem exists_place_of_lt {off x : Nat} {bs : List Block} (hlo : off ≤ x)
    (hhi : x < off + extent hdr bs) :
    ∃ o b, (o, b) ∈ place hdr off bs ∧ o ≤ x ∧ x < o + span hdr b := by
  induction bs generalizing off with
  | nil => simp at hhi; omega
  | cons c bs ih =>
    by_cases hx : x < off + span hdr c
    · exact ⟨off, c, by simp, hlo, hx⟩
    · have hRest : x < off + span hdr c + extent hdr bs := by
        rw [extent_cons] at hhi
        omega
      obtain ⟨o, b, hmem, ho⟩ := ih (by omega) hRest
      exact ⟨o, b, by simp [hmem], ho⟩

/-! ## Free bytes and maximal free runs -/

/-- The byte at `x` belongs to a free block. -/
def FreeByte (hdr off : Nat) (bs : List Block) (x : Nat) : Prop :=
  ∃ o b, (o, b) ∈ place hdr off bs ∧ b.free = true ∧ o ≤ x ∧ x < o + span hdr b

/-- `[a, e)` is a maximal run of positions satisfying `P`. -/
structure MaximalRun (P : Nat → Prop) (a e : Nat) : Prop where
  nonempty : a < e
  inside   : ∀ x, a ≤ x → x < e → P x
  left     : a = 0 ∨ ¬ P (a - 1)
  right    : ¬ P e

theorem separated_append_cons_cons {pre post : List Block} {a b : Block}
    (h : Separated (pre ++ a :: b :: post)) : ¬ (a.free = true ∧ b.free = true) :=
  (List.isChain_append_cons_cons.mp h).2.1

/-- The byte before a free block of a separated list is not free. -/
theorem not_freeByte_before {pre post : List Block} {b : Block} (hHdr : 0 < hdr)
    (hSep : Separated (pre ++ b :: post)) (hb : b.free = true) (hpos : 0 < extent hdr pre) :
    ¬ FreeByte hdr 0 (pre ++ b :: post) (extent hdr pre - 1) := by
  rintro ⟨o, c, hmem, hc, ho, hlt⟩
  -- the block before `b` is the last one of `pre`
  obtain ⟨pre', d, rfl⟩ : ∃ pre' d, pre = pre' ++ [d] := by
    rcases List.eq_nil_or_concat pre with rfl | ⟨pre', d, h⟩
    · simp at hpos
    · exact ⟨pre', d, by simpa using h⟩
  have hd : (extent hdr pre', d) ∈ place hdr 0 (pre' ++ [d] ++ b :: post) :=
    mem_place_iff.mpr ⟨pre', b :: post, by simp, by simp⟩
  simp only [extent_append, extent_cons, extent_nil] at hpos ho hlt
  have heq := place_unique hmem hd (x := extent hdr pre' + (span hdr d + 0) - 1)
    ⟨ho, hlt⟩ (by unfold span at *; omega)
  rw [heq.2] at hc
  rw [List.append_assoc, List.singleton_append] at hSep
  exact separated_append_cons_cons hSep ⟨hc, hb⟩

/-- The byte behind a free block of a separated list is not free. -/
theorem not_freeByte_behind {pre post : List Block} {b : Block} (hHdr : 0 < hdr)
    (hSep : Separated (pre ++ b :: post)) (hb : b.free = true) :
    ¬ FreeByte hdr 0 (pre ++ b :: post) (extent hdr pre + span hdr b) := by
  rintro ⟨o, c, hmem, hc, ho, hlt⟩
  cases post with
  | nil =>
    have := (place_bounds hmem).2
    simp only [extent_append, extent_cons, extent_nil] at this
    omega
  | cons d post =>
    have hd : (extent hdr pre + span hdr b, d) ∈ place hdr 0 (pre ++ b :: d :: post) :=
      mem_place_iff.mpr ⟨pre ++ [b], post, by simp, by simp⟩
    have heq := place_unique hmem hd (x := extent hdr pre + span hdr b)
      ⟨ho, hlt⟩ (by unfold span at *; omega)
    rw [heq.2] at hc
    exact separated_append_cons_cons hSep ⟨hb, hc⟩

/--
**Free blocks are the maximal free runs.** In a separated block list the maximal
runs of bytes lying in free blocks are exactly the free blocks, header included.
-/
theorem maximalRun_iff {bs : List Block} (hHdr : 0 < hdr) (hSep : Separated bs) {a e : Nat} :
    MaximalRun (FreeByte hdr 0 bs) a e ↔
      ∃ b, (a, b) ∈ place hdr 0 bs ∧ b.free = true ∧ e = a + span hdr b := by
  constructor
  · intro h
    obtain ⟨o, b, hmem, hb, ho, hlt⟩ := h.inside a (Nat.le_refl a) h.nonempty
    -- the run starts where its first block does
    have hstart : o = a := by
      rcases h.left with rfl | hleft
      · omega
      · by_contra hne
        exact hleft ⟨o, b, hmem, hb, by omega, by omega⟩
    subst hstart
    refine ⟨b, hmem, hb, ?_⟩
    obtain ⟨pre, post, rfl, rfl⟩ := mem_place_iff.mp hmem
    rw [Nat.zero_add] at *
    rcases Nat.lt_trichotomy e (extent hdr pre + span hdr b) with hlt' | heq | hgt
    · exact absurd ⟨_, b, hmem, hb, h.nonempty.le, hlt'⟩ h.right
    · exact heq
    · exact absurd (h.inside _ (by omega) hgt) (not_freeByte_behind hHdr hSep hb)
  · rintro ⟨b, hmem, hb, rfl⟩
    refine ⟨by unfold span; omega, fun x h1 h2 => ⟨a, b, hmem, hb, h1, h2⟩, ?_, ?_⟩
    · obtain ⟨pre, post, rfl, rfl⟩ := mem_place_iff.mp hmem
      rw [Nat.zero_add] at *
      by_cases hpos : 0 < extent hdr pre
      · exact Or.inr (not_freeByte_before hHdr hSep hb hpos)
      · exact Or.inl (by omega)
    · obtain ⟨pre, post, rfl, rfl⟩ := mem_place_iff.mp hmem
      rw [Nat.zero_add] at *
      exact not_freeByte_behind hHdr hSep hb

end BlockList

end SysLib
