import Nao.Lib.Lts
import Nao.Lib.Traced
import Mathlib.Data.List.Induction

/-!
# Machines

A machine reacts to its inputs one at a time: `step s i` is the state after the input `i`,
together with the events the reaction produces. `feed step s is` gives it a whole list of
inputs; its trace is the log of the run.

A statement about `feed step s is` for every `is` speaks about every moment of every run.
`feed_invariant` is its induction rule: the invariant may mention the inputs so far, the log
so far and the state. `feed_cons` unfolds a run from its first input on.

A long reaction is a sequence of moves, each with the events it is seen by. `Does move s t` says
that the reaction `t` from the state `s` is one; it is built along the program (`Does.one`,
`Does.bind`, `does_guarded`), and what every move keeps, the reaction keeps (`Does.keeps`) and so
does every run (`feed_keeps`). The reactions of a component are reactions of the system it is a
part of (`Does.lift`).
-/

namespace SysLib

universe u v w

variable {ε : Type u} {σ : Type v} {ι : Type w}

/-- The machine `step`, started in `s`, on the inputs `is`. -/
def feed (step : σ → ι → Traced ε σ) (s : σ) (is : List ι) : Traced ε σ :=
  is.foldl (fun t i => t >>= (step · i)) (pure s)

variable {step : σ → ι → Traced ε σ} {s : σ}

@[simp] theorem feed_nil : feed step s [] = pure s := rfl

theorem feed_concat (is : List ι) (i : ι) :
    feed step s (is ++ [i]) = feed step s is >>= (step · i) := by
  rw [feed, List.foldl_append]
  rfl

theorem feed_cons (i : ι) (is : List ι) :
    feed step s (i :: is) = step s i >>= (feed step · is) := by
  induction is using List.reverseRecOn with
  | nil =>
    simp only [feed_nil, bind_pure]
    exact pure_bind ..
  | append_singleton is j ih =>
    rw [← List.cons_append, feed_concat, ih, bind_assoc]
    simp only [feed_concat]

/-- What holds at the start and is kept by every reaction holds after every run. -/
theorem feed_invariant (inv : List ι → List ε → σ → Prop) (hs : inv [] [] s)
    (hStep : ∀ is log s i, inv is log s → inv (is ++ [i]) (log ++ (step s i).trace) (step s i).val)
    (is : List ι) : inv is (feed step s is).trace (feed step s is).val := by
  induction is using List.reverseRecOn with
  | nil => exact hs
  | append_singleton is i ih =>
    rw [feed_concat]
    exact hStep is _ _ i ih

-- ---------------------------------------------------------------------------
-- Reactions made of moves
-- ---------------------------------------------------------------------------

/-- The reaction `t` from `s` is a run of `move`, seen by the events of its moves. -/
def Does (move : σ → List ε → σ → Prop) (s : σ) (t : Traced ε σ) : Prop :=
  ∃ seen, Run move s seen t.val ∧ seen.flatten = t.trace

variable {move : σ → List ε → σ → Prop} {t : Traced ε σ}

theorem does_pure (s : σ) : Does move s (pure s) := ⟨[], .nil s, rfl⟩

theorem Does.one (h : move s t.trace t.val) : Does move s t :=
  ⟨[t.trace], .cons h (.nil _), List.append_nil _⟩

theorem Does.bind {f : σ → Traced ε σ} (h : Does move s t) (h' : Does move t.val (f t.val)) :
    Does move s (t >>= f) := by
  obtain ⟨seen, hRun, hSeen⟩ := h
  obtain ⟨seen', hRun', hSeen'⟩ := h'
  exact ⟨seen ++ seen', hRun.append hRun', by rw [List.flatten_append, hSeen, hSeen']; rfl⟩

/-- Moves without events, before a reaction. -/
theorem Does.after {s' : σ} (h : Does move s (pure s')) (h' : Does move s' t) : Does move s t :=
  pure_bind (m := Traced ε) s' (fun _ => t) ▸ h.bind h'

/-- A reaction behind a test, nothing otherwise. -/
theorem does_guarded {c : Prop} [Decidable c] (h : c → Does move s t) :
    Does move s (if c then t else pure s) := by
  split
  · next hc => exact h hc
  · exact does_pure s

theorem does_guarded_pure {c : Prop} [Decidable c] {s' : σ} (h : c → Does move s (pure s')) :
    Does move s (pure (if c then s' else s)) := by
  split
  · next hc => exact h hc
  · exact does_pure s

theorem does_foldl {α : Type*} {g : σ → α → σ} (h : ∀ s a, Does move s (pure (g s a))) (s : σ)
    (as : List α) : Does move s (pure (as.foldl g s)) := by
  induction as generalizing s with
  | nil => exact does_pure s
  | cons a as ih => exact (h s a).after (ih (g s a))

theorem does_feed (h : ∀ s i, Does move s (step s i)) (s : σ) (is : List ι) :
    Does move s (feed step s is) := by
  induction is using List.reverseRecOn with
  | nil => exact does_pure s
  | append_singleton is i ih =>
    rw [feed_concat]
    exact ih.bind (h _ i)

/-- What every move keeps, a reaction keeps. -/
theorem Does.keeps (inv : List ε → σ → Prop)
    (hMove : ∀ log s seen s', inv log s → move s seen s' → inv (log ++ seen) s')
    (h : Does move s t) {log : List ε} (hs : inv log s) : inv (log ++ t.trace) t.val := by
  obtain ⟨seen, hRun, hSeen⟩ := h
  rw [← hSeen]
  refine hRun.invariant_trace (fun seen s => inv (log ++ seen.flatten) s) ?_ ?_
  · intro seen s new s' hInv hNew
    rw [List.flatten_append, List.flatten_singleton, ← List.append_assoc]
    exact hMove _ _ _ _ hInv hNew
  · rwa [List.flatten_nil, List.append_nil]

/-- The induction rule of a machine whose reactions are made of moves. -/
theorem feed_keeps (h : ∀ s i, Does move s (step s i)) (inv : List ε → σ → Prop) (hs : inv [] s)
    (hMove : ∀ log s seen s', inv log s → move s seen s' → inv (log ++ seen) s') (is : List ι) :
    inv (feed step s is).trace (feed step s is).val := by
  have hRun := (does_feed h s is).keeps inv hMove hs
  rwa [List.nil_append] at hRun

/-- A component inside a system: `put` places its state there, and `f` tells what its events
look like. -/
theorem Does.lift {ε' : Type*} {τ : Type v} {move' : τ → List ε' → τ → Prop} (put : σ → τ)
    (f : ε → ε') (hMove : ∀ s seen s', move s seen s' → move' (put s) (seen.map f) (put s'))
    (h : Does move s t) : Does move' (put s) (put <$> t.relabel f) := by
  obtain ⟨seen, hRun, hSeen⟩ := h
  refine ⟨seen.map (List.map f), hRun.lift put (List.map f) hMove, ?_⟩
  rw [Traced.trace_map, Traced.relabel, ← hSeen, List.map_flatten]

end SysLib
