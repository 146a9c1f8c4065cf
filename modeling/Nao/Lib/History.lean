import Mathlib.Data.List.Basic

/-!
# Histories

A history is the list of the events of a run. `Throughout P h` says that every event of
`h` satisfies `P` with respect to the events before it; it is built up event by event
(`throughout_concat`), it holds of every initial part (`Throughout.of_append`), and it can be
decided by trying every position.

Two views of a history look backwards from its end: `since p h` are the events after the last
one that satisfies `p`, and `latest f h` is what `f` says about the last event it knows.
-/

namespace SysLib

variable {ι : Type*} {P Q : List ι → ι → Prop}

/-- Every event of the history is fine, given what came before it. -/
def Throughout (P : List ι → ι → Prop) (h : List ι) : Prop :=
  ∀ pre e post, h = pre ++ e :: post → P pre e

theorem throughout_nil : Throughout P [] := by
  intro pre e post h
  simp at h

theorem throughout_concat {h : List ι} {e : ι} :
    Throughout P (h ++ [e]) ↔ Throughout P h ∧ P h e := by
  constructor
  · intro hAll
    refine ⟨?_, hAll h e [] rfl⟩
    intro pre x post hEq
    exact hAll pre x (post ++ [e]) (by rw [hEq, List.append_assoc, List.cons_append])
  · rintro ⟨hAll, hLast⟩ pre x post hEq
    rcases List.eq_nil_or_concat post with rfl | ⟨rest, y, rfl⟩
    · obtain ⟨rfl, hx⟩ := List.append_inj' hEq rfl
      cases hx
      exact hLast
    · rw [List.concat_eq_append, ← List.cons_append, ← List.append_assoc] at hEq
      exact hAll pre x rest (List.append_inj' hEq rfl).1

theorem Throughout.of_append {pre post : List ι} (h : Throughout P (pre ++ post)) :
    Throughout P pre := by
  intro xs e ys hEq
  exact h xs e (ys ++ post) (by rw [hEq, List.append_assoc, List.cons_append])

theorem throughout_iff_get {h : List ι} :
    Throughout P h ↔ ∀ i (hi : i < h.length), P (h.take i) (h.get ⟨i, hi⟩) := by
  constructor
  · intro hAll i hi
    refine hAll (h.take i) _ (h.drop (i + 1)) ?_
    rw [List.get_eq_getElem, ← List.drop_eq_getElem_cons hi, List.take_append_drop]
  · rintro hAll pre e post rfl
    simpa using hAll pre.length (by simp)

instance [∀ pre e, Decidable (P pre e)] (h : List ι) : Decidable (Throughout P h) :=
  decidable_of_iff _ throughout_iff_get.symm

-- ---------------------------------------------------------------------------
-- Looking back
-- ---------------------------------------------------------------------------

variable {α : Type*}

/-- The events after the last one that satisfies `p`; all of them when none does. -/
def since (p : ι → Bool) (h : List ι) : List ι := (h.reverse.takeWhile fun e => !p e).reverse

theorem since_concat (p : ι → Bool) (h : List ι) (e : ι) :
    since p (h ++ [e]) = if p e then [] else since p h ++ [e] := by
  simp only [since, List.reverse_append, List.reverse_singleton, List.singleton_append,
    List.takeWhile_cons]
  cases p e <;> simp

/-- What `f` says about the last event it says anything about. -/
def latest (f : ι → Option α) (h : List ι) : Option α := h.reverse.findSome? f

theorem latest_append (f : ι → Option α) (h h' : List ι) :
    latest f (h ++ h') = (latest f h').or (latest f h) := by
  rw [latest, List.reverse_append, List.findSome?_append]
  rfl

theorem latest_concat (f : ι → Option α) (h : List ι) (e : ι) :
    latest f (h ++ [e]) = (f e).or (latest f h) := by
  rw [latest_append]
  cases hf : f e <;> simp [latest, hf]

end SysLib
