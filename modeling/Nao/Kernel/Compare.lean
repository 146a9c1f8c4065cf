import Nao.Kernel.Format

/-!
# Comparing strings

Both comparisons of the kernel look for the first place where two strings differ, their
terminators included. `strcmp` subtracts the two bytes there as unsigned values. `strncmp` compares
them as they are, and a `char` is signed: a byte of 128 or more is less than every other byte, the
terminator among them.

* `strncmp_eq`, `strcmp_eq` — the results, by the first difference.
* `string_comparisons_agree_iff` — for which strings they order alike.
-/

namespace Nao.Kernel

open SysLib

-- ---------------------------------------------------------------------------
-- The first difference
-- ---------------------------------------------------------------------------

/-- The first two bytes that differ; behind a string stands its terminator. -/
def firstDifference : List UInt8 → List UInt8 → Option (UInt8 × UInt8)
  | [], [] => none
  | [], b :: _ => some (0, b)
  | a :: _, [] => some (a, 0)
  | a :: s, b :: t => if a = b then firstDifference s t else some (a, b)

theorem firstDifference_eq_none_iff {s t : List UInt8} : firstDifference s t = none ↔ s = t := by
  fun_induction firstDifference s t with
  | case1 => simp
  | case2 => simp
  | case3 => simp
  | case4 s a t ih => simp [ih]
  | case5 a s b t hne => simp [hne]

theorem firstDifference_swap (s t : List UInt8) :
    firstDifference t s = (firstDifference s t).map Prod.swap := by
  fun_induction firstDifference s t with
  | case1 => rfl
  | case2 => rfl
  | case3 => rfl
  | case4 s a t ih =>
    rw [firstDifference, if_pos rfl]
    exact ih
  | case5 a s b t hne =>
    rw [firstDifference, if_neg (Ne.symm hne)]
    rfl

theorem firstDifference_ne {s t : List UInt8} (hs : 0 ∉ s) (ht : 0 ∉ t) {a b : UInt8}
    (h : firstDifference s t = some (a, b)) : a ≠ b := by
  fun_induction firstDifference s t with
  | case1 => cases h
  | case2 c t =>
    cases h
    exact List.ne_of_not_mem_cons ht
  | case3 c s =>
    cases h
    exact (List.ne_of_not_mem_cons hs).symm
  | case4 s c t ih => exact ih (List.not_mem_of_not_mem_cons hs) (List.not_mem_of_not_mem_cons ht) h
  | case5 c s d t hne =>
    cases h
    exact hne

/-- Strings are ordered by their bytes as unsigned values, and a string comes before its
continuations. -/
theorem lt_iff_of_firstDifference {s t : List UInt8} (ht : 0 ∉ t) {a b : UInt8}
    (h : firstDifference s t = some (a, b)) : s < t ↔ a < b := by
  fun_induction firstDifference s t with
  | case1 => cases h
  | case2 c t =>
    have hPos : 0 < c := UInt8.pos_iff_ne_zero.mpr (List.ne_of_not_mem_cons ht).symm
    cases h
    simp [hPos]
  | case3 c s =>
    cases h
    simp
  | case4 s c t ih =>
    rw [List.cons_lt_cons_iff, ih (List.not_mem_of_not_mem_cons ht) h]
    simp
  | case5 c s d t hne =>
    cases h
    simp [List.cons_lt_cons_iff, hne]

-- ---------------------------------------------------------------------------
-- The two results
-- ---------------------------------------------------------------------------

/-- `(a < b) ? -1 : (a > b)`, as in `strncmp`. -/
def charOrder (a b : UInt8) : Int :=
  if a.toInt8 < b.toInt8 then -1 else if a.toInt8 > b.toInt8 then 1 else 0

theorem strcmp_eq {s t : List UInt8} (hs : 0 ∉ s) :
    strcmp s t = (firstDifference s t).elim 0 fun d => (d.1.toNat : Int) - d.2.toNat := by
  fun_induction firstDifference s t with
  | case1 => rfl
  | case2 c t => rfl
  | case3 c s =>
    have hc : c ≠ 0 := (List.ne_of_not_mem_cons hs).symm
    rw [strcmp, if_neg fun h => hc h.2]
    rfl
  | case4 s c t ih =>
    have hc : c ≠ 0 := (List.ne_of_not_mem_cons hs).symm
    rw [strcmp, if_pos ⟨hc, rfl⟩]
    exact ih (List.not_mem_of_not_mem_cons hs)
  | case5 c s d t hne =>
    rw [strcmp, if_neg fun h => hne h.2]
    rfl

/-- From an index on: `m` holds the rest `s` of the first string there, and `u` is the rest of the
second one. -/
theorem strncmpFrom_eq {m : Mem} {t s u : List UInt8} {i n : Nat}
    (hm : ∀ j, j ≤ s.length → m (i + j) = s.getD j 0) (ht : ∀ j, t.getD (i + j) 0 = u.getD j 0)
    (hs : 0 ∉ s) (hn : s.length < n) :
    strncmpFrom m t i n = (firstDifference s u).elim 0 fun d => charOrder d.1 d.2 := by
  induction s generalizing i u n with
  | nil =>
    obtain ⟨n, rfl⟩ : ∃ k, n = k + 1 := ⟨n - 1, by omega⟩
    have hFirst : m i = 0 := hm 0 (Nat.le_refl _)
    have hSecond : t.getD i 0 = u.getD 0 0 := ht 0
    rw [strncmpFrom, hFirst, hSecond, if_pos (.inr rfl)]
    cases u with
    | nil => rfl
    | cons b u => rfl
  | cons a s ih =>
    obtain ⟨n, rfl⟩ : ∃ k, n = k + 1 := ⟨n - 1, by omega⟩
    have hFirst : m i = a := hm 0 (Nat.zero_le _)
    have hSecond : t.getD i 0 = u.getD 0 0 := ht 0
    have ha : a ≠ 0 := (List.ne_of_not_mem_cons hs).symm
    rw [strncmpFrom, hFirst, hSecond]
    cases u with
    | nil =>
      rw [if_pos (.inl ha)]
      rfl
    | cons b u =>
      show (if a ≠ b ∨ a = 0 then charOrder a b else _) = _
      rw [firstDifference]
      by_cases hab : a = b
      · -- both go on behind the common byte
        rw [if_neg (by simpa [hab] using hab ▸ ha), if_pos hab]
        refine ih ?_ ?_ (List.not_mem_of_not_mem_cons hs) (Nat.lt_of_succ_lt_succ hn)
        · intro j hj
          rw [Nat.add_right_comm]
          exact hm (j + 1) (Nat.succ_le_succ hj)
        · intro j
          rw [Nat.add_right_comm]
          exact ht (j + 1)
      · rw [if_pos (.inl hab), if_neg hab]
        rfl

/-- `m` holds the string `s`, with its terminator. -/
structure Terminated (m : Mem) (s : List UInt8) : Prop where
  bytes      : m.slice 0 s.length = s
  terminator : m s.length = 0
  nonzero    : 0 ∉ s

theorem Terminated.byte {m : Mem} {s : List UInt8} (h : Terminated m s) {j : Nat} (hj : j ≤ s.length) :
    m j = s.getD j 0 := by
  rcases Nat.lt_or_eq_of_le hj with hlt | rfl
  · have hByte : (m.slice 0 s.length).getD j 0 = m j := by
      simp [Mem.slice, hlt]
    rw [← hByte, h.bytes]
  · rw [h.terminator, List.getD_eq_default _ _ (Nat.le_refl _)]

theorem terminated_of_nonzero {s : List UInt8} (hs : 0 ∉ s) : Terminated (fun i => s.getD i 0) s where
  bytes := by
    refine List.ext_getElem (by simp [Mem.slice]) fun j hj hj' => ?_
    simp [Mem.slice, hj']
  terminator := List.getD_eq_default _ _ (Nat.le_refl _)
  nonzero := hs

/-- The rest of a string from an index on. -/
theorem Terminated.view {m : Mem} {s : List UInt8} (h : Terminated m s) {i : Nat}
    (hi : i ≤ s.length) : Terminated (m.view i) (s.drop i) where
  bytes := by
    have hSplit : s.length = i + (s.length - i) := by omega
    have hBytes := h.bytes
    rw [hSplit, Mem.slice_add, Nat.zero_add] at hBytes
    rw [Mem.slice_view, List.length_drop, Nat.add_zero]
    conv_rhs => rw [← hBytes]
    rw [List.drop_left' (Mem.length_slice ..)]
  terminator := by
    show m (i + (s.drop i).length) = 0
    rw [List.length_drop, Nat.add_sub_cancel' hi, h.terminator]
  nonzero := fun hZero => h.nonzero (List.mem_of_mem_drop hZero)

theorem strncmp_eq {m : Mem} {s t : List UInt8} (hs : Terminated m s) {n : Nat} (hn : s.length < n) :
    strncmp m t n = (firstDifference s t).elim 0 fun d => charOrder d.1 d.2 := by
  refine strncmpFrom_eq ?_ ?_ hs.nonzero hn
  · intro j hj
    rw [Nat.zero_add]
    exact hs.byte hj
  · intro j
    rw [Nat.zero_add]

/-- Nothing behind the terminator is read. -/
theorem strncmpFrom_congr {m m' : Mem} {l : Nat} (hSame : ∀ j, j ≤ l → m j = m' j) (hEnd : m l = 0)
    (t : List UInt8) {i : Nat} (hi : i ≤ l) (n : Nat) : strncmpFrom m t i n = strncmpFrom m' t i n := by
  induction n generalizing i with
  | zero => rfl
  | succ n ih =>
    rw [strncmpFrom, strncmpFrom, ← hSame i hi]
    by_cases hLast : i = l
    · have hStop : m i ≠ t.getD i 0 ∨ m i = 0 := .inr (hLast ▸ hEnd)
      rw [if_pos hStop, if_pos hStop]
    · rw [ih (by omega)]

/-- Comparing with a whole key asks whether the string begins with it. -/
theorem strncmp_terminated {m : Mem} {s : List UInt8} (hs : Terminated m s) {key : List UInt8}
    (hKey : 0 ∉ key) : strncmp m key key.length = 0 ↔ key <+: s := by
  have hList : strncmp m key key.length = strncmp (fun i => s.getD i 0) key key.length :=
    strncmpFrom_congr (fun j hj => hs.byte hj) hs.terminator key (Nat.zero_le _) _
  rw [hList]
  exact strncmp_eq_zero_iff hKey

-- ---------------------------------------------------------------------------
-- Signed and unsigned bytes
-- ---------------------------------------------------------------------------

theorem toInt_toInt8 (a : UInt8) : a.toInt8.toInt = if a.toNat < 128 then (a.toNat : Int) else a.toNat - 256 := by
  show a.toBitVec.toInt = _
  rw [BitVec.toInt_eq_toNat_cond]
  show (if 2 * a.toNat < 2 ^ 8 then (a.toNat : Int) else a.toNat - 2 ^ 8) = _
  split <;> split <;> omega

theorem sign_charOrder (a b : UInt8) : (charOrder a b).sign = (a.toInt8.toInt - b.toInt8.toInt).sign := by
  unfold charOrder
  simp only [GT.gt, Int8.lt_iff_toInt_lt]
  split
  · next hLess =>
    rw [Int.sign_eq_neg_one_of_neg (Int.sub_neg_of_lt hLess)]
    rfl
  · next hNotLess =>
    split
    · next hMore =>
      rw [Int.sign_eq_one_of_pos (Int.sub_pos_of_lt hMore)]
      rfl
    · next hNotMore =>
      have hSame : a.toInt8.toInt - b.toInt8.toInt = 0 := by omega
      rw [hSame]

/-- The two orders agree on bytes of the same half. -/
theorem sign_charOrder_iff (a b : UInt8) :
    (charOrder a b).sign = ((a.toNat : Int) - b.toNat).sign ↔ (a.toNat < 128 ↔ b.toNat < 128) := by
  have ha := a.toNat_lt
  have hb := b.toNat_lt
  rw [sign_charOrder, toInt_toInt8, toInt_toInt8]
  by_cases hLow : a.toNat < 128
  · by_cases hLow' : b.toNat < 128
    · rw [if_pos hLow, if_pos hLow']
      exact iff_of_true rfl (iff_of_true hLow hLow')
    · rw [if_pos hLow, if_neg hLow', Int.sign_eq_one_of_pos (by omega), Int.sign_eq_neg_one_of_neg (by omega)]
      exact iff_of_false (by decide) fun h => hLow' (h.mp hLow)
  · by_cases hLow' : b.toNat < 128
    · rw [if_neg hLow, if_pos hLow', Int.sign_eq_neg_one_of_neg (by omega), Int.sign_eq_one_of_pos (by omega)]
      exact iff_of_false (by decide) fun h => hLow (h.mpr hLow')
    · have hShift : (a.toNat - 256 : Int) - (b.toNat - 256) = a.toNat - b.toNat := by omega
      rw [if_neg hLow, if_neg hLow', hShift]
      exact iff_of_true rfl (iff_of_false hLow hLow')

-- ---------------------------------------------------------------------------
-- Main result
-- ---------------------------------------------------------------------------

/-- Where the strings differ first, both bytes are below 128 or both are not. A terminator is
below. -/
def SameHalf (s t : List UInt8) : Prop :=
  ∀ a b, firstDifference s t = some (a, b) → (a.toNat < 128 ↔ b.toNat < 128)

/--
**When the two string comparisons agree.** For all strings `s` and `t` and every `n` greater than
the length of `s`: both comparisons answer 0 exactly when the strings are equal, and `strcmp`
orders them by their bytes as unsigned values. The results have the same sign if and only if the
bytes that differ first lie in the same half; otherwise `strncmp` orders the strings the other way
around.
-/
theorem string_comparisons_agree_iff {m : Mem} {s t : List UInt8} (hs : Terminated m s) (ht : 0 ∉ t)
    {n : Nat} (hn : s.length < n) :
    (strncmp m t n = 0 ↔ s = t) ∧ (strcmp s t = 0 ↔ s = t)
      ∧ (strcmp s t < 0 ↔ s < t) ∧ (0 < strcmp s t ↔ t < s)
      ∧ ((strncmp m t n).sign = (strcmp s t).sign ↔ SameHalf s t) := by
  rw [strncmp_eq hs hn, strcmp_eq hs.nonzero, ← firstDifference_eq_none_iff, SameHalf]
  cases hDiff : firstDifference s t with
  | none =>
    obtain rfl : s = t := firstDifference_eq_none_iff.mp hDiff
    simp
  | some d =>
    obtain ⟨a, b⟩ := d
    have hSwap : firstDifference t s = some (b, a) := by
      rw [firstDifference_swap s t, hDiff]
      rfl
    have hne : a ≠ b := firstDifference_ne hs.nonzero ht hDiff
    have hNat : a.toNat ≠ b.toNat := fun hSame => hne (UInt8.toNat_inj.mp hSame)
    have hOrder : charOrder a b ≠ 0 := compare_ne_zero hne
    rw [lt_iff_of_firstDifference ht hDiff, lt_iff_of_firstDifference hs.nonzero hSwap,
      UInt8.lt_iff_toNat_lt, UInt8.lt_iff_toNat_lt]
    simp only [Option.elim_some, reduceCtorEq, iff_false, Option.some.injEq, Prod.mk.injEq]
    refine ⟨hOrder, by omega, by omega, by omega, ?_⟩
    rw [sign_charOrder_iff]
    constructor
    · rintro h _ _ ⟨rfl, rfl⟩
      exact h
    · intro h
      exact h a b ⟨rfl, rfl⟩

theorem string_comparisons_agree_iff_letters :
    SameHalf (lit "boot") (lit "boxes")
      ∧ (strncmp (fun i => (lit "boot").getD i 0) (lit "boxes") 6).sign
          = (strcmp (lit "boot") (lit "boxes")).sign := by
  have hSame : SameHalf (lit "boot") (lit "boxes") := by
    intro a b hDiff
    have hBytes : firstDifference (lit "boot") (lit "boxes") = some (0x6F, 0x78) := by decide
    rw [hBytes] at hDiff
    cases hDiff
    decide
  have hs : Terminated (fun i => (lit "boot").getD i 0) (lit "boot") := terminated_of_nonzero (by decide)
  have hAgree := string_comparisons_agree_iff hs (by decide : 0 ∉ lit "boxes")
    (by decide : (lit "boot").length < 6)
  exact ⟨hSame, hAgree.2.2.2.2.mpr hSame⟩

/-- An `é` in UTF-8 and a `z`: `strcmp` puts the `é` behind the `z`, `strncmp` before it. -/
theorem string_comparisons_disagree :
    Terminated (fun i => ([0xC3, 0xA9] : List UInt8).getD i 0) [0xC3, 0xA9]
      ∧ lit "z" < [0xC3, 0xA9]
      ∧ strcmp [0xC3, 0xA9] (lit "z") = 73
      ∧ strncmp (fun i => ([0xC3, 0xA9] : List UInt8).getD i 0) (lit "z") 3 = -1 :=
  ⟨terminated_of_nonzero (by decide), by decide, by decide, by decide⟩

end Nao.Kernel
