import Mathlib.Data.Nat.Digits.Lemmas
import Nao.Kernel.Strings

/-!
# What `mini_snprintf` prints, and reading it back

`mini_snprintf` stops when its buffer is full. `expand` is the text without that limit.

* `formatLoop_eq` — the loop stores the characters of the text one by one while there is room:
  its many tests against the end of the buffer amount to one.
* `mini_snprintf_truncates` — so what is stored is the text, cut off where the buffer ends.
* `strtol_decimal` — `strtol` reads back what `%d` prints for a number that is not negative.
* `strncmp_eq_zero_iff` — comparing with a whole key asks whether the text begins with it.
-/

namespace Nao.Kernel

open SysLib

-- ---------------------------------------------------------------------------
-- The text
-- ---------------------------------------------------------------------------

/-- The digits that `%d` prints for a number that is not negative, highest first. -/
def decimal (val : Int) : List UInt8 := (numScratch val).reverse

/-- The text of one conversion, and the arguments it leaves. -/
def conversion (k : UInt8) (args : List Arg) : List UInt8 × List Arg :=
  if k = 0x73 then
    match args with
    | .str s :: args => (s.getD (lit "(null)"), args)
    | args => ([], args)
  else if k = 0x64 then
    match args with
    | .word w :: args =>
      if w.toInt < 0 then (0x2D :: decimal (-w).toInt, args) else (decimal w.toInt, args)
    | args => ([], args)
  else if k = 0x75 then
    match args with
    | .word w :: args => (decimal w.toInt, args)
    | args => ([], args)
  else ([k], args)

/-- The whole text. -/
def expand : List UInt8 → List Arg → List UInt8
  | [], _ => []
  | c :: p, args =>
    if c = 0x25 then
      match p with
      | [] => []
      | k :: p => (conversion k args).1 ++ expand p (conversion k args).2
    else c :: expand p args

-- ---------------------------------------------------------------------------
-- Storing it
-- ---------------------------------------------------------------------------

/-- All of `cs` stored from `write_idx` on. -/
def Output.append (o : Output) (cs : List UInt8) : Output :=
  { buf := o.buf.blit o.writeIdx cs, writeIdx := o.writeIdx + cs.length }

@[simp] theorem Output.append_nil (o : Output) : o.append [] = o := by
  rw [Output.append, Mem.blit_nil]
  rfl

theorem Output.append_append (o : Output) (cs cs' : List UInt8) :
    (o.append cs).append cs' = o.append (cs ++ cs') := by
  simp only [Output.append, Mem.blit_append, List.length_append, Nat.add_assoc]

theorem Output.put_eq (o : Output) (c : UInt8) : o.put c = o.append [c] := by
  rw [Output.put, Output.append, Mem.write8_eq_blit]
  rfl

/-- Nothing goes into a full buffer. -/
theorem putAll_full {size : Nat} {o : Output} (h : ¬ o.writeIdx < size - 1) (cs : List UInt8) :
    o.putAll size cs = o := by
  cases cs with
  | nil => rfl
  | cons c cs => exact if_neg h

theorem putAll_singleton {size : Nat} {o : Output} (h : o.writeIdx < size - 1) (c : UInt8) :
    o.putAll size [c] = o.put c :=
  if_pos h

/-- Two texts stored one after the other are one text. -/
theorem putAll_append (size : Nat) (o : Output) (cs cs' : List UInt8) :
    o.putAll size (cs ++ cs') = (o.putAll size cs).putAll size cs' := by
  induction cs generalizing o with
  | nil => rfl
  | cons c cs ih =>
    rw [List.cons_append, Output.putAll, Output.putAll]
    split
    · exact ih _
    · next hFull => exact (putAll_full hFull cs').symm

/-- What is stored is the text as far as there is room for it. -/
theorem putAll_eq (size : Nat) (o : Output) (cs : List UInt8) :
    o.putAll size cs = o.append (cs.take (size - 1 - o.writeIdx)) := by
  induction cs generalizing o with
  | nil => rw [List.take_nil, Output.append_nil, Output.putAll]
  | cons c cs ih =>
    by_cases hRoom : o.writeIdx < size - 1
    · obtain ⟨room, hEq⟩ : ∃ room, size - 1 - o.writeIdx = room + 1 :=
        ⟨size - 1 - o.writeIdx - 1, by omega⟩
      have hRest : size - 1 - (o.append [c]).writeIdx = room := by
        show size - 1 - (o.writeIdx + 1) = room
        omega
      rw [Output.putAll, if_pos hRoom, ih, Output.put_eq, hRest, Output.append_append, hEq,
        List.take_succ_cons, List.singleton_append]
    · have hNone : size - 1 - o.writeIdx = 0 := by omega
      rw [putAll_full hRoom, hNone, List.take_zero, Output.append_nil]

/-- A conversion stores its text. The loop has checked that there is room for one character. -/
theorem convert_eq {size : Nat} {o : Output} (h : o.writeIdx < size - 1) (k : UInt8)
    (args : List Arg) :
    convert size k args o = (o.putAll size (conversion k args).1, (conversion k args).2) := by
  unfold convert conversion
  by_cases hs : k = 0x73
  · simp only [if_pos hs]
    rcases args with _ | ⟨s | w, args⟩ <;> rfl
  by_cases hd : k = 0x64
  · simp only [if_neg hs, if_pos hd]
    rcases args with _ | ⟨s | w, args⟩
    · rfl
    · rfl
    · by_cases hNeg : w.toInt < 0
      · -- the sign and the digits are stored separately
        simp only [if_pos hNeg]
        have hSplit := putAll_append size o [0x2D] (decimal (-w).toInt)
        rw [List.singleton_append] at hSplit
        exact congrArg (·, args) hSplit.symm
      · simp only [if_neg hNeg]
        rfl
  by_cases hu : k = 0x75
  · simp only [if_neg hs, if_neg hd, if_pos hu]
    rcases args with _ | ⟨s | w, args⟩ <;> rfl
  · simp only [if_neg hs, if_neg hd, if_neg hu, putAll_singleton h]

/-- The loop stores the text. -/
theorem formatLoop_eq (size : Nat) (format : List UInt8) (args : List Arg) (o : Output) :
    formatLoop size format args o = o.putAll size (expand format args) := by
  fun_induction expand format args generalizing o with
  | case1 => rfl
  | case2 args =>
    rw [formatLoop]
    split <;> rfl
  | case3 args k p ih =>
    by_cases hRoom : o.writeIdx < size - 1
    · rw [formatLoop, if_pos hRoom, if_pos rfl, convert_eq hRoom, ih, putAll_append]
    · rw [formatLoop, if_neg hRoom, putAll_full hRoom]
  | case4 c p args hPercent ih =>
    unfold formatLoop
    rw [if_neg hPercent, Output.putAll, ih]

/-- `mini_snprintf` stores the text as far as the buffer goes, and a terminator behind it. -/
theorem miniSnprintf_take {size : Nat} (h : 0 < size) (buf : Mem) (format : List UInt8)
    (args : List Arg) :
    miniSnprintf buf size format args
      = ((buf.blit 0 ((expand format args).take (size - 1))).write8
          ((expand format args).take (size - 1)).length 0,
        ((expand format args).take (size - 1)).length) := by
  rw [miniSnprintf, if_neg (by omega), formatLoop_eq, putAll_eq]
  simp only [Output.append, Nat.sub_zero, Nat.zero_add]

/-- A text that fits with its terminator is stored completely. -/
theorem miniSnprintf_eq {size : Nat} {format : List UInt8} {args : List Arg}
    (h : (expand format args).length < size) (buf : Mem) :
    miniSnprintf buf size format args
      = ((buf.blit 0 (expand format args)).write8 (expand format args).length 0,
          (expand format args).length) := by
  rw [miniSnprintf_take (by omega), List.take_of_length_le (by omega)]

/--
**`mini_snprintf` truncates safely.** For every buffer size `n` of at least 1, every format, all
arguments and whatever the buffer holds: bytes from index `n` on keep their values, the text
ends with a zero at the index returned, which is at most `n - 1`, and what stands before it is
the first `n - 1` characters of `expand format args` or, if it has less, all of them. That text
is what the call produces with every buffer it fits into.
-/
theorem mini_snprintf_truncates {n : Nat} (h : 1 ≤ n) (format : List UInt8) (args : List Arg)
    (buf : Mem) :
    let text := expand format args
    let written := (miniSnprintf buf n format args).1
    let result := (miniSnprintf buf n format args).2
    (∀ i, n ≤ i → written i = buf i)
      ∧ written result = 0 ∧ result ≤ n - 1
      ∧ result = min (n - 1) text.length ∧ written.slice 0 result = text.take (min (n - 1) text.length)
      ∧ ∀ large, text.length < large →
          (miniSnprintf buf large format args).2 = text.length
            ∧ (miniSnprintf buf large format args).1.slice 0 text.length = text := by
  have hSlice : ∀ cs : List UInt8, ((buf.blit 0 cs).write8 cs.length 0).slice 0 cs.length = cs := by
    intro cs
    rw [Mem.slice_write8_of_le _ _ (Nat.le_of_eq (Nat.zero_add _)), Mem.slice_blit]
  have hLength : ((expand format args).take (n - 1)).length = min (n - 1) (expand format args).length :=
    List.length_take
  rw [miniSnprintf_take h]
  dsimp only
  refine ⟨?_, Mem.write8_same .., by omega, hLength, ?_, ?_⟩
  · intro i hi
    rw [Mem.write8_of_ne _ _ (by omega), Mem.blit_of_disjoint _ _ (by omega)]
  · rw [hSlice, ← List.take_eq_take_min]
  · intro large hLarge
    rw [miniSnprintf_eq hLarge]
    exact ⟨rfl, hSlice _⟩

/-- The sign and the first digit of -42 in a buffer of three bytes. -/
theorem mini_snprintf_truncates_sign :
    (miniSnprintf (fun _ => 0xFF) 3 (lit "%d!") [.word (-42)]).1.slice 0 3 = [0x2D, 0x34, 0]
      ∧ (miniSnprintf (fun _ => 0xFF) 3 (lit "%d!") [.word (-42)]).1 3 = 0xFF :=
  ⟨rfl, (mini_snprintf_truncates (n := 3) (by decide) _ _ _).1 3 (Nat.le_refl _)⟩

-- ---------------------------------------------------------------------------
-- Numbers
-- ---------------------------------------------------------------------------

/-- The character of a decimal digit. -/
def digitChar (d : Nat) : UInt8 := UInt8.ofNat (d + 0x30)

/-- The decimal representation of a number, without leading zeros. -/
def numeral (n : Nat) : List UInt8 :=
  if n = 0 then [digitChar 0] else ((Nat.digits 10 n).map digitChar).reverse

def signedNumeral (z : Int) : List UInt8 :=
  if z < 0 then 0x2D :: numeral z.natAbs else numeral z.natAbs

theorem scratchDigits_eq {slots val : Nat} (h : val < 10 ^ slots) :
    scratchDigits slots val = (Nat.digits 10 val).map digitChar := by
  induction slots generalizing val with
  | zero =>
    obtain rfl : val = 0 := by simpa using h
    rfl
  | succ slots ih =>
    rw [scratchDigits]
    split
    · next hZero =>
      rw [hZero, Nat.digits_zero, List.map_nil]
    · next hPos =>
      rw [Nat.digits_def' (by decide) (Nat.pos_of_ne_zero hPos), List.map_cons,
        ih (by rw [Nat.pow_succ] at h; omega)]
      rfl

theorem toNat_digitChar {d : Nat} (h : d < 10) : (digitChar d).toNat = d + 0x30 := by
  rw [digitChar, UInt8.toNat_ofNat', Nat.mod_eq_of_lt (by omega)]

theorem strtolFrom_digit {d : Nat} (h : d < 10) (result : BitVec 32) (rest : List UInt8) :
    strtolFrom result (digitChar d :: rest) = strtolFrom (result * 10 + BitVec.ofNat 32 d) rest := by
  have hDigit : 0x30 ≤ digitChar d ∧ digitChar d ≤ 0x39 := by
    rw [UInt8.le_iff_toNat_le, UInt8.le_iff_toNat_le, toNat_digitChar h]
    show 48 ≤ d + 48 ∧ d + 48 ≤ 57
    omega
  rw [strtolFrom, if_pos hDigit, toNat_digitChar h, Nat.add_sub_cancel]

/-- Reading digits, highest first. -/
theorem strtolFrom_digits {ds : List Nat} (h : ∀ d ∈ ds, d < 10) (result : BitVec 32)
    (rest : List UInt8) :
    strtolFrom result ((ds.map digitChar).reverse ++ rest)
      = strtolFrom (result * BitVec.ofNat 32 (10 ^ ds.length) + BitVec.ofNat 32 (Nat.ofDigits 10 ds))
          rest := by
  induction ds generalizing rest with
  | nil => simp
  | cons d ds ih =>
    rw [List.map_cons, List.reverse_cons, List.append_assoc, List.singleton_append,
      ih (fun d hd => h d (List.mem_cons_of_mem _ hd)), strtolFrom_digit (h d (by simp))]
    congr 1
    rw [Nat.ofDigits_cons, List.length_cons, Nat.pow_succ, BitVec.ofNat_mul, BitVec.ofNat_add,
      BitVec.ofNat_mul]
    grind

theorem decimal_eq {val : Nat} (hPos : val ≠ 0) (h : val < 2 ^ 31) :
    decimal val = ((Nat.digits 10 val).map digitChar).reverse := by
  have hSlots : (val : Int).toNat < 10 ^ 12 := by
    rw [Int.toNat_natCast]
    omega
  rw [decimal, numScratch, if_neg (by omega), scratchDigits_eq hSlots, Int.toNat_natCast]

/-- `strtol` reads back a number that `%d` has printed, up to a byte that is not a digit. -/
theorem strtol_decimal {val : Nat} (h : val < 2 ^ 31) {c : UInt8} (hEnd : c < 0x30)
    (rest : List UInt8) : strtol (decimal val ++ c :: rest) = (BitVec.ofNat 32 val, c :: rest) := by
  have hStop : ∀ result, strtolFrom result (c :: rest) = (result, c :: rest) := by
    intro result
    rw [strtolFrom, if_neg fun hDigit => ?_]
    exact absurd hDigit.1 (by simpa using hEnd)
  by_cases hZero : val = 0
  · subst hZero
    show strtolFrom 0 (digitChar 0 :: c :: rest) = _
    rw [strtolFrom_digit (by decide), hStop]
    rfl
  · rw [strtol, decimal_eq hZero h, strtolFrom_digits fun d hd => Nat.digits_lt_base (by decide) hd,
      hStop, Nat.ofDigits_digits]
    simp

theorem length_decimal_le {val : Nat} (h : val < 2 ^ 31) : (decimal val).length ≤ 10 := by
  by_cases hZero : val = 0
  · subst hZero
    decide
  · rw [decimal_eq hZero h, List.length_reverse, List.length_map,
      Nat.digits_length_le_iff (by decide)]
    omega

theorem zero_not_mem_decimal {val : Nat} (h : val < 2 ^ 31) : 0 ∉ decimal val := by
  by_cases hZero : val = 0
  · subst hZero
    decide
  · rw [decimal_eq hZero h, List.mem_reverse, List.mem_map]
    rintro ⟨d, hd, hNul⟩
    have hVal := congrArg UInt8.toNat hNul
    rw [toNat_digitChar (Nat.digits_lt_base (by decide) hd)] at hVal
    exact absurd hVal (Nat.succ_ne_zero _)

-- ---------------------------------------------------------------------------
-- Keys
-- ---------------------------------------------------------------------------

/-- Two different characters compare as different. -/
theorem compare_ne_zero {a b : UInt8} (h : a ≠ b) :
    (if a.toInt8 < b.toInt8 then -1 else if a.toInt8 > b.toInt8 then 1 else 0 : Int) ≠ 0 := by
  have hInt : a.toInt8.toInt ≠ b.toInt8.toInt := by
    rw [Ne, Int8.toInt_inj]
    exact fun hSame => h (congrArg Int8.toUInt8 hSame)
  simp only [GT.gt, Int8.lt_iff_toInt_lt]
  split
  · decide
  · rw [if_pos (by omega)]
    decide

theorem strncmpFrom_cons (a b : UInt8) (p key : List UInt8) (i n : Nat) :
    strncmpFrom (fun j => (a :: p).getD j 0) (b :: key) (i + 1) n
      = strncmpFrom (fun j => p.getD j 0) key i n := by
  induction n generalizing i with
  | zero => rfl
  | succ n ih => simp only [strncmpFrom, List.getD_cons_succ, ih]

/-- `strncmp(p, key, strlen(key)) == 0`. -/
theorem strncmp_eq_zero_iff {p key : List UInt8} (hKey : 0 ∉ key) :
    strncmp (fun i => p.getD i 0) key key.length = 0 ↔ key <+: p := by
  induction key generalizing p with
  | nil => simp [strncmp, strncmpFrom]
  | cons k key ih =>
    rw [List.mem_cons, not_or] at hKey
    have hk : k ≠ 0 := Ne.symm hKey.1
    rw [strncmp, List.length_cons, strncmpFrom]
    cases p with
    | nil =>
      rw [if_pos (.inl (Ne.symm hk))]
      simp only [List.getD_nil, List.getD_cons_zero]
      simpa using compare_ne_zero (Ne.symm hk)
    | cons c p =>
      simp only [List.getD_cons_zero, List.cons_prefix_cons]
      by_cases hc : c = k
      · subst hc
        rw [if_neg (by simpa using hk), strncmpFrom_cons, ← strncmp,
          ih hKey.2]
        exact (and_iff_right rfl).symm
      · rw [if_pos (.inl hc)]
        simpa [Ne.symm hc] using compare_ne_zero hc

end Nao.Kernel
