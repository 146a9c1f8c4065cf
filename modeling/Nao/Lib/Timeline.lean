import Mathlib.Algebra.BigOperators.Group.List.Basic
import Mathlib.Algebra.Order.Ring.Nat
import Mathlib.Order.Interval.Finset.Nat

/-!
# Timelines

A timeline is a list of durations: slot `i` begins when the slots before it are over, at
`(ds.take i).sum`, and lasts `ds[i]`. `slotAt m ds` is the slot at time `m`. It is the one
slot that has begun and is not over (`slotAt_eq_some_iff`), there is one at every time before
the end (`exists_slotAt`), and every slot is there for exactly its duration
(`card_slotAt`).
-/

namespace SysLib

/-- The slot at time `m`, if the timeline is not over by then. -/
def slotAt (m : Nat) : List Nat → Option Nat
  | [] => none
  | d :: ds => if m < d then some 0 else (slotAt (m - d) ds).map (· + 1)

theorem slotAt_eq_some_iff {m i : Nat} {ds : List Nat} :
    slotAt m ds = some i ↔ i < ds.length ∧ (ds.take i).sum ≤ m ∧ m < (ds.take (i + 1)).sum := by
  induction ds generalizing m i with
  | nil => simp [slotAt]
  | cons d ds ih =>
    rw [slotAt]
    split
    · next h =>
      cases i with
      | zero => simpa using h
      | succ i => simp only [List.take_succ_cons, List.sum_cons, Option.some.injEq]; omega
    · next h =>
      cases i with
      | zero => simp [h]
      | succ i =>
        simp only [Option.map_eq_some_iff, Nat.add_right_cancel_iff, exists_eq_right, ih,
          List.take_succ_cons, List.sum_cons, List.length_cons]
        omega

theorem exists_slotAt {m : Nat} {ds : List Nat} (h : m < ds.sum) : ∃ i, slotAt m ds = some i := by
  induction ds generalizing m with
  | nil => simp at h
  | cons d ds ih =>
    rw [slotAt]
    split
    · exact ⟨0, rfl⟩
    · rw [List.sum_cons] at h
      obtain ⟨i, hi⟩ := ih (m := m - d) (by omega)
      exact ⟨i + 1, by rw [hi]; rfl⟩

theorem sum_take_le (ds : List Nat) (i : Nat) : (ds.take i).sum ≤ ds.sum := by
  rw [← List.sum_take_add_sum_drop ds i]
  exact Nat.le_add_right ..

/-- A slot is there for its duration. -/
theorem card_slotAt {ds : List Nat} {i : Nat} (hi : i < ds.length) :
    ((Finset.range ds.sum).filter fun m => slotAt m ds = some i).card = ds[i] := by
  have hSlot : (Finset.range ds.sum).filter (fun m => slotAt m ds = some i)
      = Finset.Ico (ds.take i).sum (ds.take (i + 1)).sum := by
    ext m
    have hEnd := sum_take_le ds (i + 1)
    simp only [Finset.mem_filter, Finset.mem_range, Finset.mem_Ico, slotAt_eq_some_iff, hi, true_and]
    omega
  rw [hSlot, Nat.card_Ico, List.sum_take_succ ds i hi, Nat.add_sub_cancel_left]

end SysLib
