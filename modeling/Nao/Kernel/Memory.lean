import Mathlib.Algebra.Order.Ring.Nat
import Nao.Lib.Copy

/-!
# Moving memory

`memmove` of `kernel.c`, over the whole address space: a pointer is a 32-bit number, and so is
every address computed from it. The lower of the two pointers decides the direction, and that is
the direction in which no source byte is overwritten before it is read.
-/

namespace Nao.Kernel

open SysLib

/-- The bytes of the address space. -/
abbrev Ram := BitVec 32 → UInt8

/-- The address of `p[i]`. -/
def elementAt (p : BitVec 32) (i : Nat) : BitVec 32 := p + BitVec.ofNat 32 i

/-- `memmove(dest, src, n)`: the memory and the result. -/
def memmove (dest src n : BitVec 32) (m : Ram) : Ram × BitVec 32 :=
  if dest < src then (copyUp (elementAt dest) (elementAt src) n.toNat m, dest)
  else (copyDown (elementAt dest) (elementAt src) n.toNat m, dest)

-- ---------------------------------------------------------------------------
-- Addresses
-- ---------------------------------------------------------------------------

/-- A range that ends inside the address space, or with it. -/
def NoWrap (p n : BitVec 32) : Prop := p.toNat + n.toNat ≤ 2 ^ 32

instance (p n : BitVec 32) : Decidable (NoWrap p n) := inferInstanceAs (Decidable (_ ≤ _))

theorem toNat_elementAt {p n : BitVec 32} (h : NoWrap p n) {i : Nat} (hi : i < n.toNat) :
    (elementAt p i).toNat = p.toNat + i := by
  have hSum : p.toNat + i < 2 ^ 32 := Nat.lt_of_lt_of_le (Nat.add_lt_add_left hi _) h
  rw [elementAt, BitVec.toNat_add, BitVec.toNat_ofNat, Nat.add_mod_mod, Nat.mod_eq_of_lt hSum]

/-- Two elements are at one address only if they are equally far from 0. -/
theorem elementAt_ne {p q n : BitVec 32} (hp : NoWrap p n) (hq : NoWrap q n) {i j : Nat}
    (hi : i < n.toNat) (hj : j < n.toNat) (h : p.toNat + i ≠ q.toNat + j) :
    elementAt p i ≠ elementAt q j := by
  intro hSame
  have hNat := congrArg BitVec.toNat hSame
  rw [toNat_elementAt hp hi, toNat_elementAt hq hj] at hNat
  exact h hNat

/-- An address outside of the range is none of its elements. -/
theorem ne_elementAt {p n a : BitVec 32} (h : NoWrap p n)
    (ha : ¬ (p.toNat ≤ a.toNat ∧ a.toNat < p.toNat + n.toNat)) {i : Nat} (hi : i < n.toNat) :
    a ≠ elementAt p i := by
  intro hSame
  rw [hSame, toNat_elementAt h hi] at ha
  omega

-- ---------------------------------------------------------------------------
-- Main result
-- ---------------------------------------------------------------------------

theorem memmove_copied {dest src n : BitVec 32} (hDest : NoWrap dest n) (hSrc : NoWrap src n)
    (m : Ram) : Copied (elementAt dest) (elementAt src) n.toNat m (memmove dest src n m).1 := by
  have hDistinct : ∀ i j, i < j → j < n.toNat → elementAt dest i ≠ elementAt dest j := by
    intro i j hij hj
    exact elementAt_ne hDest hDest (by omega) hj (by omega)
  rw [memmove]
  split
  · next hLower =>
    rw [BitVec.lt_def] at hLower
    refine copyUp_copied hDistinct ?_ m
    intro i j hij hj
    exact elementAt_ne hSrc hDest hj (by omega) (by omega)
  · next hHigher =>
    rw [BitVec.lt_def] at hHigher
    refine copyDown_copied hDistinct ?_ m
    intro i j hij hj
    exact elementAt_ne hSrc hDest (by omega) hj (by omega)

/--
**`memmove` is safe for overlapping ranges.** For every `dest`, `src` and `n` whose ranges do not
wrap around the address space, however they overlap: byte `i` of the destination is what byte `i`
of the source was, for all `i < n`; every address outside of the destination keeps its byte; and
`dest` is returned.
-/
theorem memmove_overlap_safe {dest src n : BitVec 32} (hDest : NoWrap dest n) (hSrc : NoWrap src n)
    (m : Ram) :
    (∀ i, i < n.toNat → (memmove dest src n m).1 (elementAt dest i) = m (elementAt src i))
      ∧ (∀ a, ¬ (dest.toNat ≤ a.toNat ∧ a.toNat < dest.toNat + n.toNat) →
          (memmove dest src n m).1 a = m a)
      ∧ (memmove dest src n m).2 = dest := by
  have hCopied := memmove_copied hDest hSrc m
  refine ⟨hCopied.cells, ?_, ?_⟩
  · intro a ha
    exact hCopied.frame a fun i hi => ne_elementAt hDest ha hi
  · rw [memmove]
    split <;> rfl

/-- Four bytes moved up by one, over themselves, at the end of the address space. -/
theorem memmove_overlap_safe_up :
    (memmove 0xFFFFFFFC 0xFFFFFFFB 4 fun a => UInt8.ofNat a.toNat).1 (elementAt 0xFFFFFFFC 3)
      = 0xFE :=
  (@memmove_overlap_safe 0xFFFFFFFC 0xFFFFFFFB 4 (by decide) (by decide)
    fun a => UInt8.ofNat a.toNat).1 3 (by decide)

end Nao.Kernel
