import Mathlib.Data.List.Nodup

/-!
# Linked lists in a successor map

A linked list that is stored as a map from each node to its successor, as in a file
allocation table: `Linked next node stop c l` says that following `next` from `c` visits the
nodes `l`, in this order, and then meets a value that stops.

Main results:

* `Linked.unique`, `Linked.nodup` — the list is determined by where it starts, and no node
  comes twice.
* `Linked.congr`, `Linked.extend`, `Linked.cut` — how the list changes when the map does: not
  at all if its nodes keep their successors, by one node at its end, or by losing its tail.
-/

namespace SysLib

variable {α : Type*} {next next' : α → α} {node stop : α → Prop} {c x y : α} {l l' pre post : List α}

inductive Linked (next : α → α) (node stop : α → Prop) : α → List α → Prop where
  | last {c : α} (hNode : node c) (hStop : stop (next c)) : Linked next node stop c [c]
  | cons {c : α} {l : List α} (hNode : node c) (hRest : Linked next node stop (next c) l) :
      Linked next node stop c (c :: l)

namespace Linked

theorem exists_cons (h : Linked next node stop c l) : ∃ t, l = c :: t := by
  cases h with
  | last => exact ⟨[], rfl⟩
  | cons => exact ⟨_, rfl⟩

theorem ne_nil (h : Linked next node stop c l) : l ≠ [] := by
  obtain ⟨t, rfl⟩ := h.exists_cons
  exact List.cons_ne_nil c t

theorem node_of_mem (h : Linked next node stop c l) (hx : x ∈ l) : node x := by
  induction h with
  | last hNode _ => exact List.mem_singleton.mp hx ▸ hNode
  | cons hNode _ ih =>
    rcases List.mem_cons.mp hx with rfl | hx
    · exact hNode
    · exact ih hx

theorem node_head (h : Linked next node stop c l) : node c := by
  obtain ⟨t, rfl⟩ := h.exists_cons
  exact h.node_of_mem List.mem_cons_self

/-- The successor of a node of the list is a node again or stops. -/
theorem next_of_mem (h : Linked next node stop c l) (hx : x ∈ l) :
    node (next x) ∨ stop (next x) := by
  induction h with
  | last _ hStop => exact .inr (List.mem_singleton.mp hx ▸ hStop)
  | cons _ hRest ih =>
    rcases List.mem_cons.mp hx with rfl | hx
    · exact .inl hRest.node_head
    · exact ih hx

theorem unique (hApart : ∀ x, node x → ¬ stop x) (h : Linked next node stop c l)
    (h' : Linked next node stop c l') : l = l' := by
  induction h generalizing l' with
  | last _ hStop =>
    cases h' with
    | last => rfl
    | cons _ hRest => exact absurd hStop (hApart _ hRest.node_head)
  | cons _ hRest ih =>
    cases h' with
    | last _ hStop => exact absurd hStop (hApart _ hRest.node_head)
    | cons _ hRest' => rw [ih hRest']

theorem of_cons (h : Linked next node stop c (x :: l)) (hl : l ≠ []) :
    node x ∧ Linked next node stop (next x) l := by
  generalize hEq : x :: l = m at h
  cases h with
  | last =>
    obtain ⟨-, rfl⟩ := List.cons.inj hEq
    exact absurd rfl hl
  | cons hNode hRest =>
    obtain ⟨rfl, rfl⟩ := List.cons.inj hEq
    exact ⟨hNode, hRest⟩

theorem head_eq (h : Linked next node stop c (x :: l)) : c = x := by
  obtain ⟨t, hEq⟩ := h.exists_cons
  exact (List.cons.inj hEq).1.symm

theorem suffix (h : Linked next node stop c (pre ++ x :: post)) :
    Linked next node stop x (x :: post) := by
  induction pre generalizing c with
  | nil =>
    obtain rfl := h.head_eq
    exact h
  | cons a pre ih => exact ih (h.of_cons (by simp)).2

theorem nodup (hApart : ∀ x, node x → ¬ stop x) (h : Linked next node stop c l) : l.Nodup := by
  induction h with
  | last => exact List.nodup_singleton _
  | @cons c l hNode hRest ih =>
    refine List.nodup_cons.mpr ⟨?_, ih⟩
    intro hMem
    -- the list from the second visit on is the whole list
    obtain ⟨pre, post, hSplit⟩ := List.append_of_mem hMem
    have hAgain : Linked next node stop c (c :: post) := by
      rw [hSplit] at hRest
      exact hRest.suffix
    have hEq := unique hApart (Linked.cons hNode hRest) hAgain
    have hLength := congrArg List.length (List.cons.inj hEq).2
    rw [hSplit, List.length_append, List.length_cons] at hLength
    omega

theorem stop_last (h : Linked next node stop c (pre ++ [x])) : stop (next x) := by
  cases h.suffix with
  | last _ hStop => exact hStop
  | cons _ hRest => exact absurd rfl hRest.ne_nil

/-- A node leads to the one behind it. -/
theorem next_getElem? (h : Linked next node stop c l) {i : Nat} (hx : l[i]? = some x)
    (hy : l[i + 1]? = some y) : next x = y := by
  induction h generalizing i with
  | last => simp at hy
  | @cons c l hNode hRest ih =>
    cases i with
    | zero =>
      obtain ⟨t, rfl⟩ := hRest.exists_cons
      simp_all
    | succ i => exact ih (by simpa using hx) (by simpa using hy)

theorem congr (h : Linked next node stop c l) (hSame : ∀ x ∈ l, next' x = next x) :
    Linked next' node stop c l := by
  induction h with
  | last hNode hStop =>
    refine .last hNode ?_
    rw [hSame _ List.mem_cons_self]
    exact hStop
  | cons hNode _ ih =>
    refine .cons hNode ?_
    rw [hSame _ List.mem_cons_self]
    exact ih fun x hx => hSame x (List.mem_cons_of_mem _ hx)

/-- The list loses what comes after `x`. -/
theorem cut (h : Linked next node stop c (pre ++ x :: post))
    (hSame : ∀ y ∈ pre, next' y = next y) (hStop : stop (next' x)) :
    Linked next' node stop c (pre ++ [x]) := by
  induction pre generalizing c with
  | nil =>
    obtain rfl := h.head_eq
    exact .last h.node_head hStop
  | cons a pre ih =>
    obtain ⟨hNode, hRest⟩ := h.of_cons (by simp)
    obtain rfl := h.head_eq
    refine .cons hNode ?_
    rw [hSame _ List.mem_cons_self]
    exact ih hRest fun y hy => hSame y (List.mem_cons_of_mem _ hy)

/-- The list gains a node at its end. -/
theorem extend (h : Linked next node stop c (pre ++ [x])) (hSame : ∀ z ∈ pre, next' z = next z)
    (hLink : next' x = y) (hNode : node y) (hStop : stop (next' y)) :
    Linked next' node stop c (pre ++ [x, y]) := by
  induction pre generalizing c with
  | nil =>
    obtain rfl := h.head_eq
    refine .cons h.node_head ?_
    rw [hLink]
    exact .last hNode hStop
  | cons a pre ih =>
    obtain ⟨hNode', hRest⟩ := h.of_cons (by simp)
    obtain rfl := h.head_eq
    refine .cons hNode' ?_
    rw [hSame _ List.mem_cons_self]
    exact ih hRest fun z hz => hSame z (List.mem_cons_of_mem _ hz)

end Linked

end SysLib
