import Nao.Lib.Mem
import Mathlib.Algebra.BigOperators.Group.List.Basic

/-!
# Records in a byte ring with slack

A producer writes records one behind the other into a ring of `N` bytes. A
record is never cut at the end of the ring: it starts inside the ring and runs on
contiguously, into slack bytes behind the ring if it has to, while the next record
starts at the wrapped position. Each record advances the producer by `adv x`
bytes, at least the length of its encoding.

`Queued` says that the unread records sit in the buffer from the read position on.
The one fact that needs the geometry is `queued_append`: as long as the advances of
all unread records add up to at most `N`, writing one more record disturbs none of
them, wherever the wrap falls.
-/

namespace SysLib

namespace ByteRing

variable {α : Type*} (N : Nat) (adv : α → Nat) (enc : α → List UInt8)

/-- Ring bytes taken up by the records. -/
def occupied (xs : List α) : Nat := (xs.map adv).sum

/-- The records `xs` are in the buffer, the first one at `r`. -/
def Queued (buf : Mem) : Nat → List α → Prop
  | _, [] => True
  | r, x :: xs =>
    buf.slice r (enc x).length = enc x ∧ Queued buf ((r + adv x) % N) xs

@[simp] theorem occupied_nil : occupied adv ([] : List α) = 0 := rfl

@[simp] theorem occupied_cons (x : α) (xs : List α) :
    occupied adv (x :: xs) = adv x + occupied adv xs := by
  simp [occupied]

@[simp] theorem occupied_append (xs ys : List α) :
    occupied adv (xs ++ ys) = occupied adv xs + occupied adv ys := by
  simp [occupied]

variable {N adv enc}

/-- Two records `d` and `D` bytes behind the read position do not overlap, even where
one of them runs into the slack. -/
theorem record_disjoint {r d D a A x : Nat} (hr : r < N) (hd : d + a ≤ D) (hD : D + A ≤ N)
    (hx : (r + d) % N ≤ x ∧ x < (r + d) % N + a) :
    x < (r + D) % N ∨ (r + D) % N + A ≤ x := by
  have hwrap : ∀ e, e < N → (r + e) % N = if r + e < N then r + e else r + e - N := by
    intro e he
    split
    · rename_i hlt
      exact Nat.mod_eq_of_lt hlt
    · rename_i hge
      rw [Nat.mod_eq_sub_mod (by omega), Nat.mod_eq_of_lt (by omega)]
  rcases Nat.lt_or_ge D N with hlt | hge
  · rw [hwrap D hlt]
    rw [hwrap d (by omega)] at hx
    split at hx <;> split <;> omega
  · -- then `A = 0` and the second record is empty
    have : A = 0 := by omega
    omega

theorem queued_congr {buf buf' : Mem} {r : Nat} {xs : List α} (hAdv : ∀ x, (enc x).length ≤ adv x)
    (h : Queued N adv enc buf r xs)
    (hx : ∀ pre x post, xs = pre ++ x :: post → ∀ y,
      (r + occupied adv pre) % N ≤ y → y < (r + occupied adv pre) % N + adv x → buf' y = buf y)
    (hr : r < N) : Queued N adv enc buf' r xs := by
  induction xs generalizing r with
  | nil => trivial
  | cons x xs ih =>
    have hN : 0 < N := by omega
    refine ⟨?_, ih h.2 ?_ (Nat.mod_lt _ hN)⟩
    · refine (Mem.slice_congr fun y h1 h2 => hx [] x xs rfl y ?_ ?_).trans h.1
      · simpa [Nat.mod_eq_of_lt hr] using h1
      · have := hAdv x
        simp only [occupied_nil, Nat.add_zero, Nat.mod_eq_of_lt hr]
        omega
    · intro pre z post hxs y h1 h2
      refine hx (x :: pre) z post (by rw [hxs]; rfl) y ?_ ?_
      · simpa [Nat.add_assoc] using h1
      · simpa [Nat.add_assoc] using h2

/-- **Writing one more record** behind the unread ones leaves them in place, provided
the ring has room for all of them. -/
theorem queued_append {buf : Mem} {r : Nat} {xs : List α} {x : α}
    (hAdv : ∀ x, (enc x).length ≤ adv x) (hr : r < N) (h : Queued N adv enc buf r xs)
    (hRoom : occupied adv xs + adv x ≤ N) :
    Queued N adv enc (buf.blit ((r + occupied adv xs) % N) (enc x)) r (xs ++ [x]) := by
  -- the old records first, then the new one at the end
  have hOld : Queued N adv enc (buf.blit ((r + occupied adv xs) % N) (enc x)) r xs := by
    refine queued_congr hAdv h (fun pre z post hxs y h1 h2 => ?_) hr
    refine Mem.blit_of_disjoint buf _ ?_
    have hpos : occupied adv pre + adv z ≤ occupied adv xs := by
      rw [hxs]
      simp only [occupied_append, occupied_cons]
      omega
    have := record_disjoint hr hpos hRoom ⟨h1, h2⟩
    have := hAdv x
    omega
  have hNew : (buf.blit ((r + occupied adv xs) % N) (enc x)).slice
      ((r + occupied adv xs) % N) (enc x).length = enc x := Mem.slice_blit _ _ _
  generalize buf.blit ((r + occupied adv xs) % N) (enc x) = buf' at hOld hNew
  clear h hRoom
  induction xs generalizing r with
  | nil =>
    rw [occupied_nil, Nat.add_zero, Nat.mod_eq_of_lt hr] at hNew
    exact ⟨hNew, trivial⟩
  | cons z zs ih =>
    have hN : 0 < N := by omega
    refine ⟨hOld.1, ih (Nat.mod_lt _ hN) hOld.2 ?_⟩
    rw [occupied_cons, ← Nat.add_assoc] at hNew
    rw [Nat.mod_add_mod]
    exact hNew

end ByteRing

end SysLib
