import Nao.Lib.Lts
import Nao.Lib.History
import Mathlib.Data.List.Basic
import Mathlib.Logic.Function.Basic

/-!
# Bounded queues and rings

`BoundedQueue.Step cap` is a first-in first-out queue of at most `cap` elements, seen from
outside: it accepts an element or, when it is full, rejects it; it gives its first element
away or, when it is empty, none. `Run.conservation` says that nothing is lost, duplicated or
reordered: what went in is what came out followed by what is still there.

A ring is `n` slots and two indices. `Ring.pending` reads its contents from `tail` up to
`head`, around the end of the array. One slot always stays free, so that `head = tail` means
empty (`pending_eq_nil_iff`) and `head + 1 = tail` means that `n - 1` elements are pending
(`next_eq_tail_iff`). `pending_push` and `pending_pop` are what makes a ring a queue.

A ring without `tail` is a log: the next element goes where the oldest is. `Ring.around` reads all
slots, oldest first, and `around_store` gives the oldest up for the new one.
-/

namespace SysLib

variable {α : Type*}

-- ---------------------------------------------------------------------------
-- Bounded queues
-- ---------------------------------------------------------------------------

/-- What can be seen of a queue. -/
inductive QueueEvent (α : Type*) where
  | accept (a : α)
  | reject (a : α)
  | take (a : α)
  | empty

namespace BoundedQueue

inductive Step (cap : Nat) : List α → QueueEvent α → List α → Prop where
  | accept {q : List α} (a : α) (hRoom : q.length < cap) : Step cap q (.accept a) (q ++ [a])
  | reject {q : List α} (a : α) (hFull : q.length = cap) : Step cap q (.reject a) q
  | take (a : α) (q : List α) : Step cap (a :: q) (.take a) q
  | empty : Step cap [] .empty []

def accepted : List (QueueEvent α) → List α :=
  List.filterMap fun | .accept a => some a | _ => none

def taken : List (QueueEvent α) → List α :=
  List.filterMap fun | .take a => some a | _ => none

/-- What came out, followed by what is still there, is what went in. -/
theorem conservation {cap : Nat} {es : List (QueueEvent α)} {q : List α}
    (h : Run (Step cap) [] es q) : taken es ++ q = accepted es := by
  refine h.invariant_trace (fun es q => taken es ++ q = accepted es) ?_ rfl
  intro es q e q' hInv hStep
  simp only [taken, accepted, List.filterMap_append] at hInv ⊢
  cases hStep <;> simp [← hInv]

end BoundedQueue

-- ---------------------------------------------------------------------------
-- Rings
-- ---------------------------------------------------------------------------

namespace Ring

/-- How many slots lie from `tail` up to `head`, around the end. -/
def count (n head tail : Nat) : Nat := if tail ≤ head then head - tail else head + n - tail

/-- The contents of a ring of `n` slots, oldest first. -/
def pending (n : Nat) (slots : Nat → α) (head tail : Nat) : List α :=
  (List.range (count n head tail)).map fun i => slots ((tail + i) % n)

variable {n head tail : Nat} {slots : Nat → α}

@[simp] theorem length_pending : (pending n slots head tail).length = count n head tail := by
  simp [pending]

/-- The index after `i`. -/
theorem next_eq {i : Nat} (hi : i < n) : (i + 1) % n = if i + 1 = n then 0 else i + 1 := by
  split
  · next h => rw [h, Nat.mod_self]
  · exact Nat.mod_eq_of_lt (by omega)

theorem next_lt {i : Nat} (hi : i < n) : (i + 1) % n < n := Nat.mod_lt _ (by omega)

theorem pending_eq_nil_iff (hTail : tail < n) :
    pending n slots head tail = [] ↔ head = tail := by
  rw [← List.length_eq_zero_iff, length_pending, count]
  split <;> omega

theorem count_lt (hHead : head < n) (hTail : tail < n) : count n head tail < n := by
  rw [count]
  split <;> omega

/-- Full is one slot before `tail`. -/
theorem next_eq_tail_iff (hHead : head < n) (hTail : tail < n) :
    (head + 1) % n = tail ↔ count n head tail = n - 1 := by
  rw [next_eq hHead, count]
  split <;> split <;> omega

/-- The slot that lies `count` places after `tail` is the free one at `head`. -/
theorem index_count (hHead : head < n) (hTail : tail < n) :
    (tail + count n head tail) % n = head := by
  rw [count]
  split
  · rw [Nat.add_sub_cancel' ‹_›, Nat.mod_eq_of_lt hHead]
  · rw [show tail + (head + n - tail) = head + n by omega, Nat.add_mod_right,
      Nat.mod_eq_of_lt hHead]

/-- No pending element lies in the slot at `head`. -/
theorem index_ne_head (hHead : head < n) (hTail : tail < n) {i : Nat}
    (hi : i < count n head tail) : (tail + i) % n ≠ head := by
  rw [count] at hi
  split at hi
  · rw [Nat.mod_eq_of_lt (by omega)]
    omega
  · -- the pending part runs to the end of the array and on from its start
    rcases Nat.lt_or_ge (tail + i) n with h | h
    · rw [Nat.mod_eq_of_lt h]
      omega
    · rw [Nat.mod_eq_sub_mod h, Nat.mod_eq_of_lt (by omega)]
      omega

/-- Storing at `head` and moving it on appends an element. -/
theorem pending_push (hHead : head < n) (hTail : tail < n) (hRoom : (head + 1) % n ≠ tail) (a : α) :
    pending n (Function.update slots head a) ((head + 1) % n) tail
      = pending n slots head tail ++ [a] := by
  have hCount : count n ((head + 1) % n) tail = count n head tail + 1 := by
    grind [count, next_eq]
  rw [pending, hCount, List.range_succ, List.map_append, List.map_singleton,
    index_count hHead hTail, Function.update_self, pending]
  congr 1
  refine List.map_congr_left ?_
  intro i hi
  exact Function.update_of_ne (index_ne_head hHead hTail (List.mem_range.mp hi)) ..

/-- The element at `tail` is the first one, and moving `tail` on removes it. -/
theorem pending_pop (hHead : head < n) (hTail : tail < n) (hSome : head ≠ tail) :
    pending n slots head tail = slots tail :: pending n slots head ((tail + 1) % n) := by
  have hCount : count n head tail = count n head ((tail + 1) % n) + 1 := by
    grind [count, next_eq]
  rw [pending, hCount, List.range_succ_eq_map, List.map_cons, List.map_map, pending,
    Nat.add_zero, Nat.mod_eq_of_lt hTail]
  congr 2
  funext i
  simp only [Function.comp_apply, Nat.mod_add_mod, Nat.succ_eq_add_one]
  rw [Nat.add_right_comm, Nat.add_assoc]

-- ---------------------------------------------------------------------------
-- Logs
-- ---------------------------------------------------------------------------

/-- All slots once around, from `start` on. -/
def around (n : Nat) (slots : Nat → α) (start : Nat) : List α :=
  (List.range n).map fun i => slots ((start + i) % n)

@[simp] theorem length_around (n : Nat) (slots : Nat → α) (start : Nat) :
    (around n slots start).length = n := by
  simp [around]

/-- Less than once around, one does not come back. -/
theorem index_ne_start {start i : Nat} (hStart : start < n) (hPos : 0 < i) (hi : i < n) :
    (start + i) % n ≠ start := by
  rcases Nat.lt_or_ge (start + i) n with h | h
  · rw [Nat.mod_eq_of_lt h]
    omega
  · rw [Nat.mod_eq_sub_mod h, Nat.mod_eq_of_lt (by omega)]
    omega

/-- Storing at `start` and moving it on. -/
theorem around_store {start : Nat} (hStart : start < n) (a : α) :
    around n (Function.update slots start a) ((start + 1) % n) = (around n slots start).tail ++ [a] := by
  obtain ⟨k, rfl⟩ : ∃ k, n = k + 1 := ⟨n - 1, by omega⟩
  have hIndex : ∀ i, ((start + 1) % (k + 1) + i) % (k + 1) = (start + (i + 1)) % (k + 1) := by
    intro i
    rw [Nat.mod_add_mod, Nat.add_assoc, Nat.add_comm 1 i]
  have hBack : (start + (k + 1)) % (k + 1) = start := by
    rw [Nat.add_mod_right, Nat.mod_eq_of_lt hStart]
  have hTail : (around (k + 1) slots start).tail
      = (List.range k).map fun i => slots ((start + (i + 1)) % (k + 1)) := by
    rw [around, List.range_succ_eq_map, List.map_cons, List.tail_cons, List.map_map]
    rfl
  rw [hTail, around, List.range_succ, List.map_append, List.map_singleton, hIndex, hBack,
    Function.update_self]
  congr 1
  refine List.map_congr_left fun i hi => ?_
  have hLt := List.mem_range.mp hi
  rw [hIndex, Function.update_of_ne (index_ne_start hStart (by omega) (by omega))]

end Ring

end SysLib
