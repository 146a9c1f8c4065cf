import Mathlib.Data.List.Range

/-!
# Row-major arrays

A picture of `height` rows of `width` cells, stored row after row: cell `(x, y)` is at index
`y * width + x`. The indices of the cells are the numbers below `width * height`
(`index_lt`, `index_inj`, `flatMap_rows`), also when the rows are taken in reverse order
(`perm_reversed`).
-/

namespace SysLib

/-- A part of row `y` ends inside the array. -/
theorem row_le {width height y k : Nat} (hk : k ≤ width) (hy : y < height) :
    y * width + k ≤ width * height := by
  have hRow : (y + 1) * width ≤ height * width := Nat.mul_le_mul_right _ hy
  rw [Nat.succ_mul, Nat.mul_comm height] at hRow
  omega

theorem index_lt {width height x y : Nat} (hx : x < width) (hy : y < height) :
    y * width + x < width * height :=
  row_le (Nat.succ_le_of_lt hx) hy

/-- A cell is known by its index. -/
theorem index_inj {width x y x' y' : Nat} (hx : x < width) (hx' : x' < width)
    (h : y * width + x = y' * width + x') : x = x' ∧ y = y' := by
  have hColumn := congrArg (· % width) h
  simp only [Nat.mul_comm _ width, Nat.mul_add_mod, Nat.mod_eq_of_lt hx, Nat.mod_eq_of_lt hx'] at hColumn
  subst hColumn
  exact ⟨rfl, Nat.eq_of_mul_eq_mul_right (by omega) (Nat.add_right_cancel h)⟩

/-- The indices of all cells, row after row. -/
theorem flatMap_rows (width height : Nat) :
    (List.range height).flatMap (fun y => (List.range width).map (y * width + ·))
      = List.range (width * height) := by
  induction height with
  | zero => rfl
  | succ height ih =>
    rw [List.range_succ, List.flatMap_append, ih, Nat.mul_succ, List.range_add, Nat.mul_comm width]
    simp

/-- The rows in reverse order are the rows. -/
theorem perm_reversed (n : Nat) : ((List.range n).map (n - 1 - ·)).Perm (List.range n) := by
  have hRev : (List.range n).map (n - 1 - ·) = (List.range n).reverse := by
    rw [List.range_eq_range', List.reverse_range', Nat.zero_add, List.range_eq_range']
  rw [hRev]
  exact List.reverse_perm _

end SysLib
