import Mathlib.Order.Basic

/-!
# Labelled transition systems and their runs

A system is a step relation `step s a s'`: the action `a` may take the state
from `s` to `s'`. A run is a finite sequence of actions with the states in
between; a nondeterministic environment (a device, an interrupt, a caller) is
nothing but further actions, so a statement about every run is a statement about
every interleaving.

* `Run.invariant` — what every step preserves, every run preserves.
* `Run.invariant_trace` — the same for an invariant that mentions the history.
* `Run.preserve`  — the relative form: a reflexive, transitive relation between
  the states before and after a step relates the two ends of a run.
* `Run.lift` — the runs of a component are runs of the system it is a part of.
-/

namespace SysLib

variable {σ ι : Type*}

/-- `Run step s as s'`: the actions `as`, taken in order, lead from `s` to `s'`. -/
inductive Run (step : σ → ι → σ → Prop) : σ → List ι → σ → Prop where
  | nil (s : σ) : Run step s [] s
  | cons {s s' s'' : σ} {a : ι} {as : List ι}
      (hStep : step s a s') (hRun : Run step s' as s'') : Run step s (a :: as) s''

namespace Run

variable {step : σ → ι → σ → Prop} {s s' s'' : σ} {as bs : List ι}

theorem append (h : Run step s as s') (h' : Run step s' bs s'') :
    Run step s (as ++ bs) s'' := by
  induction h with
  | nil s => exact h'
  | cons hStep _ ih => exact cons hStep (ih h')

theorem snoc {a : ι} (h : Run step s as s') (hStep : step s' a s'') :
    Run step s (as ++ [a]) s'' :=
  h.append (cons hStep (nil _))

/-- An invariant of every step is an invariant of every run. -/
theorem invariant (inv : σ → Prop)
    (hStep : ∀ s a s', inv s → step s a s' → inv s')
    (hs : inv s) (h : Run step s as s') : inv s' := by
  induction h with
  | nil s => exact hs
  | cons h₁ _ ih => exact ih (hStep _ _ _ hs h₁)

/-- The same for an invariant that also speaks of the actions taken so far. -/
theorem invariant_trace (inv : List ι → σ → Prop)
    (hStep : ∀ as s a s', inv as s → step s a s' → inv (as ++ [a]) s')
    (hs : inv [] s) (h : Run step s as s') : inv as s' := by
  -- generalise over the actions before `s`: the run then only extends them
  suffices hGen : ∀ pre, inv pre s → inv (pre ++ as) s' from hGen [] hs
  clear hs
  induction h with
  | nil s =>
    intro pre hPre
    rwa [List.append_nil]
  | cons h₁ _ ih =>
    intro pre hPre
    rw [List.append_cons]
    exact ih _ (hStep _ _ _ _ hPre h₁)

/-- A reflexive and transitive relation kept by every admissible step of a run
holds between the ends of the run. -/
theorem preserve (inv : σ → Prop) (ok : ι → Prop) {R : σ → σ → Prop}
    (hRefl : ∀ s, R s s) (hTrans : ∀ s s' s'', R s s' → R s' s'' → R s s'')
    (hStep : ∀ s a s', inv s → ok a → step s a s' → inv s' ∧ R s s')
    (hs : inv s) (hok : ∀ a ∈ as, ok a) (h : Run step s as s') : R s s' := by
  induction h with
  | nil s => exact hRefl s
  | cons h₁ _ ih =>
    obtain ⟨hs', hR⟩ := hStep _ _ _ hs (hok _ (List.mem_cons_self ..)) h₁
    exact hTrans _ _ _ hR (ih hs' fun a ha => hok a (List.mem_cons_of_mem _ ha))

/-- `put` places a component's state in a system, and `f` tells what its actions are there. -/
theorem lift {τ κ : Type*} {step' : τ → κ → τ → Prop} (put : σ → τ) (f : ι → κ)
    (hStep : ∀ s a s', step s a s' → step' (put s) (f a) (put s')) (h : Run step s as s') :
    Run step' (put s) (as.map f) (put s') := by
  induction h with
  | nil s => exact nil _
  | cons h₁ _ ih => exact cons (hStep _ _ _ h₁) ih

end Run

end SysLib
