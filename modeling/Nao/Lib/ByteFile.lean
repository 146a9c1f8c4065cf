import Nao.Lib.Mem

/-!
# Files as byte sequences

The abstract file: a finite sequence of bytes and a position in it. Writing puts bytes over
those at the position and lengthens the sequence if they reach past its end.

`Mem.slice_overwrite` is the link to a memory: its first bytes after a write are those before it,
overwritten.
-/

namespace SysLib

/-- A file: its bytes, and the position of the next access. -/
@[ext] structure ByteFile where
  bytes : List UInt8
  pos   : Nat

variable {α : Type*}

/-- `ys` in the place of the elements of `xs` from `pos` on. -/
def overwrite (xs : List α) (pos : Nat) (ys : List α) : List α :=
  xs.take pos ++ ys ++ xs.drop (pos + ys.length)

namespace Mem

theorem drop_slice (m : Mem) (a n k : Nat) : (m.slice a n).drop k = m.slice (a + k) (n - k) := by
  refine List.ext_getElem (by simp) fun i _ _ => ?_
  simp [slice, Nat.add_assoc]

/-- A memory after a write of `w` bytes at `pos`, from its start on. -/
theorem slice_overwrite {m m' src : Mem} {n pos w ptr : Nat} (hPos : pos ≤ n)
    (h : ∀ p < max n (pos + w),
      m' p = if pos ≤ p ∧ p < pos + w then src (ptr + (p - pos)) else m p) :
    m'.slice 0 (max n (pos + w)) = overwrite (m.slice 0 n) pos (src.slice ptr w) := by
  have hSplit : max n (pos + w) = pos + w + (n - (pos + w)) := by omega
  have hFront : m'.slice 0 pos = m.slice 0 pos := slice_congr fun p _ hHi => by
    rw [h p (by omega), if_neg (by omega)]
  have hBack : m'.slice (0 + (pos + w)) (n - (pos + w)) = m.slice (0 + (pos + w)) (n - (pos + w)) :=
    slice_congr fun p hLo hHi => by rw [h p (by omega), if_neg (by omega)]
  have hMiddle : m'.slice (0 + pos) w = src.slice ptr w := by
    unfold slice
    refine List.map_congr_left fun i hi => ?_
    have hLt := List.mem_range.mp hi
    rw [h _ (by omega), if_pos (by omega)]
    congr 1
    omega
  rw [hSplit, slice_add, slice_add, hFront, hMiddle, hBack, overwrite, take_slice, drop_slice,
    length_slice, Nat.min_eq_left hPos]

end Mem

end SysLib
