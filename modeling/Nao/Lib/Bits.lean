import Mathlib.Data.Nat.Bitwise

/-!
# Masks, unsigned subtraction and signed words

The bit operations C code uses on unsigned words, as arithmetic: clearing low
bits with `& ~(2^k - 1)` rounds down to a multiple of `2 ^ k`, and subtraction
wraps modulo `2 ^ 32`. A word that is not negative as an `int` is the same
number when it is read as unsigned, and a number below `2 ^ 31` is such a word.
-/

namespace SysLib

/-- Clearing the low `k` bits of a `w`-bit word rounds it down to a multiple of
`2 ^ k`. -/
theorem and_high_mask {x w k : Nat} (hx : x < 2 ^ w) :
    x &&& ((2 ^ w - 1) - (2 ^ k - 1)) = x / 2 ^ k * 2 ^ k := by
  rcases Nat.lt_or_ge w k with hlt | hle
  · have hpow : 2 ^ w ≤ 2 ^ k := Nat.pow_le_pow_right (by omega) hlt.le
    have hmask : (2 ^ w - 1) - (2 ^ k - 1) = 0 := by omega
    rw [hmask, Nat.and_zero, Nat.div_eq_of_lt (by omega), Nat.zero_mul]
  · -- the mask is a run of `w - k` ones shifted up by `k`
    have hmask : (2 ^ w - 1) - (2 ^ k - 1) = (2 ^ (w - k) - 1) * 2 ^ k := by
      have hsplit : 2 ^ w = 2 ^ (w - k) * 2 ^ k := by
        rw [← Nat.pow_add, Nat.sub_add_cancel hle]
      have hpos : 0 < 2 ^ k := Nat.two_pow_pos k
      rw [Nat.sub_mul, ← hsplit]
      omega
    have hlow : ∀ i, ((x &&& (2 ^ (w - k) - 1) * 2 ^ k)).testBit i =
        (x / 2 ^ k * 2 ^ k).testBit i := by
      intro i
      rw [Nat.testBit_and, Nat.testBit_mul_two_pow, Nat.testBit_mul_two_pow,
        Nat.testBit_two_pow_sub_one, Nat.testBit_div_two_pow]
      by_cases hi : k ≤ i
      · have hik : i - k + k = i := by omega
        simp only [hi, decide_true, Bool.true_and, hik]
        by_cases hiw : i < w
        · have : i - k < w - k := by omega
          simp [this]
        · have hbig : x.testBit i = false :=
            Nat.testBit_lt_two_pow (lt_of_lt_of_le hx (Nat.pow_le_pow_right (by omega) (by omega)))
          simp [hbig]
      · simp [hi]
    rw [hmask]
    exact Nat.eq_of_testBit_eq hlow

/-- `a - b` on 32-bit unsigned words. -/
def sub32 (a b : Nat) : Nat := (a + (2 ^ 32 - b % 2 ^ 32)) % 2 ^ 32

theorem sub32_of_le {a b : Nat} (h : b ≤ a) (ha : a < 2 ^ 32) : sub32 a b = a - b := by
  unfold sub32
  omega

/-- An unsigned word read as a signed one. -/
theorem toInt_of_nonneg {w : BitVec 32} (h : 0 ≤ w.toInt) : w.toInt = w.toNat ∧ w.toNat < 2 ^ 31 := by
  have hCond := BitVec.toInt_eq_toNat_cond w
  have hLt := w.isLt
  split at hCond <;> omega

/-- A number that fits into a signed word is the value of that word. -/
theorem toInt_ofNat_of_lt {n : Nat} (h : n < 2 ^ 31) : (BitVec.ofNat 32 n).toInt = n := by
  have hNat : (BitVec.ofNat 32 n).toNat = n := by
    rw [BitVec.toNat_ofNat]
    exact Nat.mod_eq_of_lt (by omega)
  rw [BitVec.toInt_eq_toNat_of_lt (by omega), hNat]

/-- Two words one after the other, as a number. -/
theorem toNat_append_eq {v w : Nat} (x : BitVec v) (y : BitVec w) :
    (x ++ y).toNat = 2 ^ w * x.toNat + y.toNat := by
  rw [BitVec.toNat_append, ← Nat.shiftLeft_add_eq_or_of_lt y.isLt, Nat.shiftLeft_eq, Nat.mul_comm]

end SysLib
