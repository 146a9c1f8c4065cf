import Nao.Lib.Loop
import Mathlib.Logic.Function.Iterate

/-!
# Waiting for a device to settle

Time passes for a device by `tick : σ → σ`. A device that has been given a task is
busy for a finite number of ticks and then rests: further ticks change nothing. How
many ticks it takes is up to the device, and software that samples it sees it at
some ticks only.

`Settles tick busy n s r` says that from `s` the device is busy for `n` ticks and
comes to rest in `r`. Sampling it in between does not change where it ends
(`Settles.advance`), and a loop that waits while it is busy leaves it at rest
(`Settles.await`, however many ticks a turn of the loop takes; `Settles.poll` for a
loop that samples and then tests).
-/

namespace SysLib

variable {σ τ ρ : Type*}

/-- From `s` the device is busy for `n` ticks, then at rest in `r`. -/
inductive Settles (tick : σ → σ) (busy : σ → Prop) : Nat → σ → σ → Prop where
  | rest {r : σ} (hRest : tick r = r) (hDone : ¬ busy r) : Settles tick busy 0 r r
  | wait {n : Nat} {s r : σ} (hBusy : busy s) (h : Settles tick busy n (tick s) r) :
      Settles tick busy (n + 1) s r

namespace Settles

variable {tick : σ → σ} {busy : σ → Prop} {n : Nat} {s r : σ}

/-- A device that counts down its busy ticks, in the states `f d`, and then rests. -/
theorem countdown {f : Nat → σ} (hBusy : ∀ d, busy (f d)) (hStep : ∀ d, tick (f (d + 1)) = f d)
    (hEnd : tick (f 0) = r) (hRest : tick r = r) (hDone : ¬ busy r) (d : Nat) :
    Settles tick busy (d + 1) (f d) r := by
  induction d with
  | zero =>
    refine wait (hBusy 0) ?_
    rw [hEnd]
    exact rest hRest hDone
  | succ d ih =>
    refine wait (hBusy (d + 1)) ?_
    rw [hStep]
    exact ih

/-- One more tick does not change where the device settles. -/
theorem advance (h : Settles tick busy n s r) : Settles tick busy (n - 1) (tick s) r := by
  cases h with
  | rest hRest hDone =>
    rw [hRest]
    exact rest hRest hDone
  | wait hBusy h => exact h

theorem iterate (h : Settles tick busy n s r) (k : Nat) :
    Settles tick busy (n - k) (tick^[k] s) r := by
  induction k generalizing n s with
  | zero => exact h
  | succ k ih =>
    rw [Function.iterate_succ_apply]
    have hNext := ih h.advance
    rwa [Nat.sub_sub, Nat.add_comm 1 k] at hNext

theorem busy_iff (h : Settles tick busy n s r) : busy s ↔ n ≠ 0 := by
  cases h with
  | rest _ hDone => simp [hDone]
  | wait hBusy _ => simp [hBusy]

theorem at_rest (h : Settles tick busy n s r) (hDone : ¬ busy s) : s = r := by
  cases h with
  | rest => rfl
  | wait hBusy _ => exact absurd hBusy hDone

theorem tick_rest (h : Settles tick busy n s r) : tick r = r ∧ ¬ busy r := by
  induction h with
  | rest hRest hDone => exact ⟨hRest, hDone⟩
  | wait _ _ ih => exact ih

/--
**Waiting loop.** `device c` is the device in the loop state `c`. If a turn goes round
only while the device is busy, letting at least one tick pass, and leaves only when
it is at rest, the loop ends with the device in its resting state.
-/
theorem await {body : τ → Turn τ ρ} {device : τ → σ} {post : ρ → Prop}
    (hAgain : ∀ c c', body c = .again c' →
      busy (device c) ∧ ∃ k, device c' = tick^[k + 1] (device c))
    (hExit : ∀ c x, body c = .exit x → device c = r → post x)
    (hLeave : ∀ c x, body c = .exit x → ¬ busy (device c))
    {c : τ} (h : Settles tick busy n (device c) r) :
    ∃ x, loop body (n + 1) c = some x ∧ post x := by
  refine loop_total (fun k c => Settles tick busy k (device c) r) ?_ ?_ h
  · intro k c c' hc hTurn
    obtain ⟨hBusy, j, hTicks⟩ := hAgain c c' hTurn
    have hk := hc.busy_iff.mp hBusy
    refine ⟨k - (j + 1), by omega, ?_⟩
    rw [hTicks]
    exact hc.iterate (j + 1)
  · intro k c x hc hTurn
    exact hExit c x hTurn (hc.at_rest (hLeave c x hTurn))

/-- A polling loop: let a tick pass, go round if the device is still busy. -/
theorem poll {body : σ → Turn σ σ} (hAgain : ∀ c, busy (tick c) → body c = .again (tick c))
    (hExit : ∀ c, ¬ busy (tick c) → body c = .exit (tick c))
    (h : Settles tick busy n s r) : loop body (n + 1) s = some r := by
  induction h with
  | @rest r hRest hDone =>
    have hTurn := hExit r (by rwa [hRest])
    rw [loop_exit hTurn, hRest]
  | @wait n s r hBusy h ih =>
    by_cases hb : busy (tick s)
    · rw [loop_again (hAgain s hb), ih]
    · rw [loop_exit (hExit s hb), h.at_rest hb]

end Settles

end SysLib
