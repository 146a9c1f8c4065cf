import Nao.Lib.Loop

/-!
# Programs that leave a trace

`Traced ε α` is a result together with the events of the run that computed it: the array
cells a program touches, the turns of its loops. A safety property of a run is a property of
all its events (`All`), and it composes: `all_bind` for sequencing, `all_forTo` for counted
loops, `all_whileLoop` for `while` loops.

A `while` loop is given fuel. When it runs out the result is `none` and the trace holds what
was done so far, so "for every fuel, all events are fine" speaks about runs that never end
as well. `whileLoop_total` is the rule for runs that do; it may use what is known about the
events of the run.
-/

namespace SysLib

universe u v

/-- A result and the events on the way to it. -/
structure Traced (ε : Type u) (α : Type v) where
  val   : α
  trace : List ε

namespace Traced

variable {ε : Type u} {α β σ ρ : Type v} {P Q : ε → Prop}

instance : Monad (Traced ε) where
  pure a := ⟨a, []⟩
  bind t f := ⟨(f t.val).val, t.trace ++ (f t.val).trace⟩

/-- Record an event. -/
def tell (e : ε) : Traced ε Unit := ⟨(), [e]⟩

@[simp] theorem val_pure (a : α) : (pure a : Traced ε α).val = a := rfl

@[simp] theorem val_bind (t : Traced ε α) (f : α → Traced ε β) :
    (t >>= f).val = (f t.val).val := rfl

@[simp] theorem val_map (f : α → β) (t : Traced ε α) : (f <$> t).val = f t.val := rfl

@[simp] theorem trace_pure (a : α) : (pure a : Traced ε α).trace = [] := rfl

@[simp] theorem trace_tell (e : ε) : (tell e).trace = [e] := rfl

@[simp] theorem trace_bind (t : Traced ε α) (f : α → Traced ε β) :
    (t >>= f).trace = t.trace ++ (f t.val).trace := rfl

@[simp] theorem trace_map (f : α → β) (t : Traced ε α) : (f <$> t).trace = t.trace :=
  List.append_nil _

instance : LawfulMonad (Traced ε) :=
  LawfulMonad.mk' _
    (fun t => by
      show (⟨t.val, t.trace ++ []⟩ : Traced ε _) = t
      rw [List.append_nil])
    (fun _ _ => rfl)
    (fun t f g => by
      show (⟨_, (t.trace ++ (f t.val).trace) ++ _⟩ : Traced ε _) = ⟨_, t.trace ++ ((f t.val).trace ++ _)⟩
      rw [List.append_assoc]
      rfl)

/-- The same run, with its events seen through `f`. -/
def relabel {ε' : Type*} (f : ε → ε') (t : Traced ε α) : Traced ε' α := ⟨t.val, t.trace.map f⟩

/-- Every event of the run satisfies `P`. -/
def All (P : ε → Prop) (t : Traced ε α) : Prop := ∀ e ∈ t.trace, P e

@[simp] theorem all_pure (a : α) : All P (pure a : Traced ε α) := by
  intro e he
  cases he

@[simp] theorem all_tell {e : ε} : All P (tell e) ↔ P e := by
  simp [All, tell]

@[simp] theorem all_bind {t : Traced ε α} {f : α → Traced ε β} :
    All P (t >>= f) ↔ All P t ∧ All P (f t.val) :=
  List.forall_mem_append

/-- A program that returns early. -/
theorem all_ite_pure {c : Prop} [Decidable c] {a : α} {t : Traced ε α} :
    All P (if c then pure a else t) ↔ (¬ c → All P t) := by
  split
  · next h => exact iff_of_true (all_pure a) fun hNot => absurd h hNot
  · next h => exact ⟨fun hAll _ => hAll, fun hAll => hAll h⟩

@[simp] theorem all_map {f : α → β} {t : Traced ε α} :
    All P (f <$> t) ↔ All P t := by
  rw [All, trace_map, All]

-- ---------------------------------------------------------------------------
-- Counted loops
-- ---------------------------------------------------------------------------

/-- `for (i = 0; i < n; i++) s = body(i, s)`. -/
def forTo (body : Nat → σ → Traced ε σ) : Nat → σ → Traced ε σ
  | 0, s => pure s
  | n + 1, s => do
    let s ← forTo body n s
    body n s

theorem all_forTo {body : Nat → σ → Traced ε σ} {n : Nat}
    (h : ∀ i, i < n → ∀ s, All P (body i s)) (s : σ) : All P (forTo body n s) := by
  induction n with
  | zero => exact all_pure s
  | succ n ih =>
    rw [forTo, all_bind]
    exact ⟨ih fun i hi => h i (by omega), h n (by omega) _⟩

/-- If what a turn does is the same in every state, the loop does what its turns do. -/
theorem all_forTo_iff {body : Nat → σ → Traced ε σ} {Q : Nat → Prop}
    (h : ∀ i s, All P (body i s) ↔ Q i) {n : Nat} {s : σ} :
    All P (forTo body n s) ↔ ∀ i, i < n → Q i := by
  induction n with
  | zero => exact iff_of_true (all_pure s) fun i hi => absurd hi (Nat.not_lt_zero i)
  | succ n ih => rw [forTo, all_bind, ih, h, Nat.forall_lt_succ_right]

/-- An invariant of a counted loop, which knows the number of the turn. -/
theorem forTo_invariant (inv : Nat → σ → Prop) {body : Nat → σ → Traced ε σ} {n : Nat} {s : σ}
    (hs : inv 0 s) (hStep : ∀ i s, i < n → inv i s → inv (i + 1) (body i s).val) :
    inv n (forTo body n s).val := by
  induction n with
  | zero => exact hs
  | succ n ih => exact hStep n _ (by omega) (ih fun i s hi => hStep i s (by omega))

theorem val_forTo (body : Nat → σ → Traced ε σ) (n : Nat) (s : σ) :
    (forTo body n s).val = (List.range n).foldl (fun s i => (body i s).val) s := by
  induction n with
  | zero => rfl
  | succ n ih => rw [forTo, val_bind, ih, List.range_succ, List.foldl_append,
      List.foldl_cons, List.foldl_nil]

/-- What is seen of the events, if a turn shows the same in every state. -/
theorem map_trace_forTo {body : Nat → σ → Traced ε σ} {f : ε → α} {seen : Nat → List α}
    (h : ∀ i s, (body i s).trace.map f = seen i) (n : Nat) (s : σ) :
    (forTo body n s).trace.map f = (List.range n).flatMap seen := by
  induction n with
  | zero => rfl
  | succ n ih => rw [forTo, trace_bind, List.map_append, ih, h, List.range_succ,
      List.flatMap_append, List.flatMap_singleton]

/-- What a turn does, the loop does. -/
theorem mem_trace_forTo {body : Nat → σ → Traced ε σ} {n i : Nat} (hi : i < n) {e : ε} {s : σ}
    (h : e ∈ (body i (forTo body i s).val).trace) : e ∈ (forTo body n s).trace := by
  induction n with
  | zero => exact absurd hi (Nat.not_lt_zero _)
  | succ n ih =>
    rw [forTo, trace_bind, List.mem_append]
    rcases Nat.lt_succ_iff_lt_or_eq.mp hi with hlt | rfl
    · exact .inl (ih hlt)
    · exact .inr h

-- ---------------------------------------------------------------------------
-- While loops
-- ---------------------------------------------------------------------------

/-- Run `body` from `s` for at most `fuel` turns; loops inside the body share the fuel. -/
def whileLoop (body : Nat → σ → Traced ε (Option (Turn σ ρ))) : Nat → σ → Traced ε (Option ρ)
  | 0, _ => pure none
  | fuel + 1, s => do
    match ← body fuel s with
    | none => pure none
    | some (.again s) => whileLoop body fuel s
    | some (.exit r) => pure (some r)

variable {body : Nat → σ → Traced ε (Option (Turn σ ρ))}

theorem whileLoop_again {fuel : Nat} {s s' : σ} (h : (body fuel s).val = some (.again s')) :
    (whileLoop body (fuel + 1) s).val = (whileLoop body fuel s').val := by
  rw [whileLoop, val_bind, h]

theorem whileLoop_exit {fuel : Nat} {s : σ} {r : ρ} (h : (body fuel s).val = some (.exit r)) :
    (whileLoop body (fuel + 1) s).val = some r := by
  rw [whileLoop, val_bind, h, val_pure]

/-- Partial correctness: an invariant of the loop state that gives `post` where a turn leaves
the loop. -/
theorem whileLoop_partial (inv : σ → Prop) {post : ρ → Prop}
    (hAgain : ∀ fuel s s', inv s → (body fuel s).val = some (.again s') → inv s')
    (hExit : ∀ fuel s r, inv s → (body fuel s).val = some (.exit r) → post r)
    {fuel : Nat} {s : σ} {r : ρ} (hs : inv s) (h : (whileLoop body fuel s).val = some r) : post r := by
  induction fuel generalizing s with
  | zero => cases h
  | succ fuel ih =>
    cases hBody : (body fuel s).val with
    | none =>
      rw [whileLoop, val_bind, hBody] at h
      cases h
    | some turn =>
      cases turn with
      | again s' =>
        rw [whileLoop_again hBody] at h
        exact ih (hAgain fuel s s' hs hBody) h
      | exit r' =>
        rw [whileLoop_exit hBody] at h
        cases h
        exact hExit fuel s r hs hBody

theorem all_whileLoop_again {fuel : Nat} {s s' : σ} (h : (body fuel s).val = some (.again s')) :
    All P (whileLoop body (fuel + 1) s) ↔ All P (body fuel s) ∧ All P (whileLoop body fuel s') := by
  rw [whileLoop, all_bind, h]

theorem all_body_of_all_whileLoop {fuel : Nat} {s : σ} (h : All P (whileLoop body (fuel + 1) s)) :
    All P (body fuel s) := by
  rw [whileLoop, all_bind] at h
  exact h.1

/-- Safety of a loop: an invariant of the loop state under which the events of one turn
satisfy `Q`. The turn may rely on a property `P` that the events of the run are known to
have. -/
theorem all_whileLoop (inv : σ → Prop)
    (hTurn : ∀ fuel s, inv s → All P (body fuel s) →
      All Q (body fuel s) ∧ ∀ s', (body fuel s).val = some (.again s') → inv s')
    {fuel : Nat} {s : σ} (hs : inv s) (hP : All P (whileLoop body fuel s)) :
    All Q (whileLoop body fuel s) := by
  induction fuel generalizing s with
  | zero => exact all_pure none
  | succ fuel ih =>
    obtain ⟨hQ, hInv⟩ := hTurn fuel s hs (all_body_of_all_whileLoop hP)
    cases hBody : (body fuel s).val with
    | none =>
      rw [whileLoop, all_bind, hBody]
      exact ⟨hQ, all_pure none⟩
    | some turn =>
      cases turn with
      | again s' =>
        rw [all_whileLoop_again hBody] at hP ⊢
        exact ⟨hQ, ih (hInv s' hBody) hP.2⟩
      | exit r =>
        rw [whileLoop, all_bind, hBody]
        exact ⟨hQ, all_pure _⟩

/-- Under an invariant of the loop state, two properties that the events of a turn have together. -/
theorem all_whileLoop_iff (inv : σ → Prop)
    (hTurn : ∀ fuel s, inv s → (All P (body fuel s) ↔ All Q (body fuel s)))
    (hAgain : ∀ fuel s s', inv s → (body fuel s).val = some (.again s') → inv s')
    {fuel : Nat} {s : σ} (hs : inv s) :
    All P (whileLoop body fuel s) ↔ All Q (whileLoop body fuel s) :=
  ⟨all_whileLoop inv (fun fuel s hs hP => ⟨(hTurn fuel s hs).mp hP, fun s' => hAgain fuel s s' hs⟩) hs,
    all_whileLoop inv (fun fuel s hs hQ => ⟨(hTurn fuel s hs).mpr hQ, fun s' => hAgain fuel s s' hs⟩) hs⟩

/-- The events of every long enough run satisfy `P`. -/
def Eventually (P : ε → Prop) (f : Nat → Traced ε α) : Prop :=
  ∃ n, ∀ fuel, n ≤ fuel → All P (f fuel)

/-- Total correctness: `inv n s` bounds the turns left by `n`. That the body comes to an end
may be proved from a property `P` of the events of the run. -/
theorem whileLoop_total (inv : Nat → σ → Prop)
    (hTurn : ∀ n s, inv n s → Eventually P (body · s) →
      ∃ turn, Returns (fun fuel => (body fuel s).val) turn ∧
        ∀ s', turn = .again s' → ∃ k, k < n ∧ inv k s')
    {n : Nat} {s : σ} (hs : inv n s) (hP : Eventually P (whileLoop body · s)) :
    ∃ r, Returns (fun fuel => (whileLoop body fuel s).val) r := by
  induction n using Nat.strongRecOn generalizing s with
  | ind n ih =>
    obtain ⟨N, hN⟩ := hP
    have hBodyP : Eventually P (body · s) :=
      ⟨N, fun fuel hle => all_body_of_all_whileLoop (hN (fuel + 1) (by omega))⟩
    obtain ⟨turn, ⟨M, hM⟩, hInv⟩ := hTurn n s hs hBodyP
    cases turn with
    | again s' =>
      obtain ⟨k, hk, hs'⟩ := hInv s' rfl
      have hRest : Eventually P (whileLoop body · s') := by
        refine ⟨max N M, ?_⟩
        intro fuel hle
        exact ((all_whileLoop_again (hM fuel (by omega))).mp (hN (fuel + 1) (by omega))).2
      obtain ⟨r, K, hK⟩ := ih k hk hs' hRest
      refine ⟨r, max M K + 1, ?_⟩
      intro fuel hle
      obtain ⟨fuel, rfl⟩ : ∃ m, fuel = m + 1 := ⟨fuel - 1, by omega⟩
      exact (whileLoop_again (hM fuel (by omega))).trans (hK fuel (by omega))
    | exit r =>
      refine ⟨r, M + 1, ?_⟩
      intro fuel hle
      obtain ⟨fuel, rfl⟩ : ∃ m, fuel = m + 1 := ⟨fuel - 1, by omega⟩
      exact whileLoop_exit (hM fuel (by omega))

end Traced

end SysLib
