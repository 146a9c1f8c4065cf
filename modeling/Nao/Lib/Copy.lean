import Mathlib.Logic.Function.Basic
import Mathlib.Tactic.TypeStar

/-!
# Copying within one memory

A copy reads and writes the same memory, cell by cell, from the first cell to the last
(`copyUp`) or from the last to the first (`copyDown`). The two ranges may overlap. `Copied` is
what a copy is for: every destination cell holds what the source cell held before, and nothing
else has changed.

A direction is safe when no cell is overwritten before it is read: `copyUp_copied` asks that no
write hits a source cell of a later turn, `copyDown_copied` that none hits a source cell of a
lower index.
-/

namespace SysLib

variable {Addr Cell : Type*} [DecidableEq Addr] (dest src : Nat → Addr)

/-- `dest[i] = src[i];` -/
def copyCell (i : Nat) (m : Addr → Cell) : Addr → Cell := Function.update m (dest i) (m (src i))

/-- `for (i = 0; i < n; i++) dest[i] = src[i];` -/
def copyUp : Nat → (Addr → Cell) → Addr → Cell
  | 0, m => m
  | n + 1, m => copyCell dest src n (copyUp n m)

/-- `for (i = n; i > 0; i--) dest[i - 1] = src[i - 1];` -/
def copyDown : Nat → (Addr → Cell) → Addr → Cell
  | 0, m => m
  | n + 1, m => copyDown n (copyCell dest src n m)

/-- `m'` is `m` with the first `n` cells copied. -/
structure Copied (n : Nat) (m m' : Addr → Cell) : Prop where
  cells : ∀ i, i < n → m' (dest i) = m (src i)
  frame : ∀ a, (∀ i, i < n → a ≠ dest i) → m' a = m a

variable {dest src} {n : Nat}

theorem copyUp_copied (hDistinct : ∀ i j, i < j → j < n → dest i ≠ dest j)
    (hAhead : ∀ i j, i < j → j < n → src j ≠ dest i) (m : Addr → Cell) :
    Copied dest src n m (copyUp dest src n m) := by
  induction n with
  | zero => exact ⟨fun i hi => absurd hi (Nat.not_lt_zero i), fun a _ => rfl⟩
  | succ n ih =>
    have hBefore := ih (fun i j hij hj => hDistinct i j hij (Nat.lt_succ_of_lt hj))
      (fun i j hij hj => hAhead i j hij (Nat.lt_succ_of_lt hj))
    have hRead : copyUp dest src n m (src n) = m (src n) :=
      hBefore.frame (src n) fun i hi => hAhead i n hi (Nat.lt_succ_self n)
    constructor
    · intro i hi
      rw [copyUp, copyCell, hRead]
      rcases Nat.lt_succ_iff_lt_or_eq.mp hi with hlt | rfl
      · rw [Function.update_of_ne (hDistinct i n hlt (Nat.lt_succ_self n))]
        exact hBefore.cells i hlt
      · exact Function.update_self ..
    · intro a ha
      rw [copyUp, copyCell, Function.update_of_ne (ha n (Nat.lt_succ_self n))]
      exact hBefore.frame a fun i hi => ha i (Nat.lt_succ_of_lt hi)

theorem copyDown_copied (hDistinct : ∀ i j, i < j → j < n → dest i ≠ dest j)
    (hBehind : ∀ i j, i < j → j < n → src i ≠ dest j) (m : Addr → Cell) :
    Copied dest src n m (copyDown dest src n m) := by
  induction n generalizing m with
  | zero => exact ⟨fun i hi => absurd hi (Nat.not_lt_zero i), fun a _ => rfl⟩
  | succ n ih =>
    have hAfter := ih (fun i j hij hj => hDistinct i j hij (Nat.lt_succ_of_lt hj))
      (fun i j hij hj => hBehind i j hij (Nat.lt_succ_of_lt hj)) (copyCell dest src n m)
    constructor
    · intro i hi
      rw [copyDown]
      rcases Nat.lt_succ_iff_lt_or_eq.mp hi with hlt | rfl
      · -- the first write has left this source cell alone
        rw [hAfter.cells i hlt, copyCell,
          Function.update_of_ne (hBehind i n hlt (Nat.lt_succ_self n))]
      · -- and the writes after it leave its own cell alone
        rw [hAfter.frame (dest i) fun j hj => (hDistinct j i hj (Nat.lt_succ_self i)).symm, copyCell,
          Function.update_self]
    · intro a ha
      rw [copyDown, hAfter.frame a fun i hi => ha i (Nat.lt_succ_of_lt hi), copyCell,
        Function.update_of_ne (ha n (Nat.lt_succ_self n))]

end SysLib
