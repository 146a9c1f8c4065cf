import Mathlib.Order.Basic

/-!
# Fuel-bounded `while` loops

A C `while` loop is given by its body: from a loop state it either goes round
again or leaves with a result. `loop body fuel s` runs at most `fuel` turns and
answers `none` when they are used up, so a loop that never ends is a loop that
answers `none` for every fuel.

Main results:

* `loop_mono` / `loop_unique` — more fuel never changes an answer, so "the"
  result of a loop makes sense without naming the fuel.
* `loop_total` — the total-correctness rule: an invariant indexed by a bound on
  the turns left gives an answer within that bound, and the answer satisfies the
  postcondition.
* `Returns` — "with enough fuel, this program returns `r`", closed under sequential
  composition, so that programs with several loops are verified piece by piece.
-/

namespace SysLib

/-- One turn of a loop: round again from a new state, or out with a result. -/
inductive Turn (σ ρ : Type*) where
  | again (s : σ)
  | exit (r : ρ)

variable {σ ρ : Type*}

/-- Run the loop `body` for at most `fuel` turns from `s`. -/
def loop (body : σ → Turn σ ρ) : Nat → σ → Option ρ
  | 0, _ => none
  | fuel + 1, s =>
    match body s with
    | .again s' => loop body fuel s'
    | .exit r => some r

theorem loop_again {body : σ → Turn σ ρ} {s s' : σ} (h : body s = .again s')
    (fuel : Nat) : loop body (fuel + 1) s = loop body fuel s' := by
  simp only [loop, h]

theorem loop_exit {body : σ → Turn σ ρ} {s : σ} {r : ρ} (h : body s = .exit r)
    (fuel : Nat) : loop body (fuel + 1) s = some r := by
  simp only [loop, h]

/-- An answer survives any increase of the fuel. -/
theorem loop_mono {body : σ → Turn σ ρ} {fuel fuel' : Nat} {s : σ} {r : ρ}
    (h : loop body fuel s = some r) (hle : fuel ≤ fuel') :
    loop body fuel' s = some r := by
  induction fuel generalizing fuel' s with
  | zero => simp [loop] at h
  | succ fuel ih =>
    obtain ⟨k, rfl⟩ : ∃ k, fuel' = k + 1 := ⟨fuel' - 1, by omega⟩
    cases hb : body s with
    | again s' =>
      rw [loop_again hb] at h ⊢
      exact ih h (by omega)
    | exit r' =>
      rw [loop_exit hb] at h ⊢
      exact h

/-- Two answers of one loop agree, whatever fuel each was given. -/
theorem loop_unique {body : σ → Turn σ ρ} {fuel fuel' : Nat} {s : σ} {r r' : ρ}
    (h : loop body fuel s = some r) (h' : loop body fuel' s = some r') : r = r' := by
  have hmax := loop_mono h (Nat.le_max_left fuel fuel')
  have hmax' := loop_mono h' (Nat.le_max_right fuel fuel')
  rw [hmax] at hmax'
  exact Option.some.inj hmax'

/--
**Total correctness.** `inv n s` reads "the loop state `s` is fine and at most `n`
more turns go round"; whatever ghost data the invariant needs is quantified inside
it. If every turn either goes round with a smaller count or leaves with a result
satisfying `post`, the loop answers within `n + 1` turns and satisfies `post`.
-/
theorem loop_total {body : σ → Turn σ ρ} (inv : Nat → σ → Prop) {post : ρ → Prop}
    (hAgain : ∀ n s s', inv n s → body s = .again s' → ∃ k, k < n ∧ inv k s')
    (hExit : ∀ n s r, inv n s → body s = .exit r → post r)
    {n : Nat} {s : σ} (hs : inv n s) :
    ∃ r, loop body (n + 1) s = some r ∧ post r := by
  induction n using Nat.strongRecOn generalizing s with
  | ind n ih =>
    cases hb : body s with
    | again s' =>
      obtain ⟨k, hk, hs'⟩ := hAgain n s s' hs hb
      obtain ⟨r, hr, hpost⟩ := ih k hk hs'
      refine ⟨r, ?_, hpost⟩
      rw [loop_again hb]
      exact loop_mono hr (by omega)
    | exit r => exact ⟨r, loop_exit hb n, hExit n s r hs hb⟩

-- ---------------------------------------------------------------------------
-- Programs with loops
-- ---------------------------------------------------------------------------

/-- A program whose loops share one fuel argument returns `r`: it does so for every
fuel that is large enough. -/
def Returns (f : Nat → Option ρ) (r : ρ) : Prop := ∃ n, ∀ fuel, n ≤ fuel → f fuel = some r

namespace Returns

theorem pure (r : ρ) : Returns (fun _ => some r) r := ⟨0, fun _ _ => rfl⟩

/-- A program that spends one unit of fuel of its own. -/
theorem succ {f g : Nat → Option ρ} {r : ρ} (hf : Returns f r) (h : ∀ fuel, g (fuel + 1) = f fuel) :
    Returns g r := by
  obtain ⟨n, hn⟩ := hf
  refine ⟨n + 1, ?_⟩
  intro fuel hle
  obtain ⟨fuel, rfl⟩ : ∃ m, fuel = m + 1 := ⟨fuel - 1, by omega⟩
  rw [h, hn fuel (by omega)]

theorem of_loop {body : σ → Turn σ ρ} {n : Nat} {s : σ} {r : ρ} (h : loop body n s = some r) :
    Returns (fun fuel => loop body fuel s) r :=
  ⟨n, fun _ hle => loop_mono h hle⟩

/-- Sequential composition. -/
theorem bind {τ : Type*} {f : Nat → Option ρ} {g : ρ → Nat → Option τ} {r : ρ} {t : τ}
    (hf : Returns f r) (hg : Returns (g r) t) :
    Returns (fun fuel => (f fuel).bind fun x => g x fuel) t := by
  obtain ⟨n, hn⟩ := hf
  obtain ⟨k, hk⟩ := hg
  refine ⟨max n k, ?_⟩
  intro fuel hle
  simp only [hn fuel (by omega), Option.bind_some]
  exact hk fuel (by omega)

theorem map {τ : Type*} {f : Nat → Option ρ} {r : ρ} (hf : Returns f r) (g : ρ → τ) :
    Returns (fun fuel => (f fuel).map g) (g r) := by
  obtain ⟨n, hn⟩ := hf
  refine ⟨n, ?_⟩
  intro fuel hle
  simp only [hn fuel hle, Option.map_some]

theorem unique {f : Nat → Option ρ} {r r' : ρ} (h : Returns f r) (h' : Returns f r') : r = r' := by
  obtain ⟨n, hn⟩ := h
  obtain ⟨k, hk⟩ := h'
  have hmax := hn (max n k) (Nat.le_max_left ..)
  rw [hk (max n k) (Nat.le_max_right ..)] at hmax
  exact (Option.some.inj hmax).symm

end Returns

end SysLib
