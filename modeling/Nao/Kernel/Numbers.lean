import Nao.Kernel.Snprintf

/-!
# Which numbers `mini_snprintf` prints

`mini_snprintf` takes the digits of a number from a `long`, and a `long` has as many bits as an
`unsigned int` on this target. An unsigned number with the highest bit set becomes negative there
and has no digits. So has the smallest `int`, which has no negative.

* `expand_items` — the text for every format made of characters, `%s`, `%d` and `%u`.
* `flatMap_printed_eq_iff` — it is the text that C requires if and only if all numbers are
  printable.
* `mini_snprintf_numbers_iff` — one conversion anywhere in a format, and `mini_itoa`.
-/

namespace Nao.Kernel

open SysLib

-- ---------------------------------------------------------------------------
-- Digits
-- ---------------------------------------------------------------------------

theorem numeral_ne_nil (n : Nat) : numeral n ≠ [] := by
  rw [numeral]
  split
  · exact List.cons_ne_nil _ _
  · next hPos =>
    rw [Ne, List.reverse_eq_nil_iff, List.map_eq_nil_iff, Nat.digits_eq_nil_iff_eq_zero]
    exact hPos

theorem decimal_natCast {n : Nat} (h : n < 2 ^ 31) : decimal n = numeral n := by
  rw [numeral]
  split
  · next hZero =>
    subst hZero
    rfl
  · next hPos => exact decimal_eq hPos h

/-- A `long` below zero has no digits. -/
theorem decimal_of_neg {z : Int} (h : z < 0) : decimal z = [] := by
  rw [decimal, numScratch, if_neg (by omega), Int.toNat_of_nonpos (by omega)]
  rfl

/-- The digits of an `unsigned int`. -/
theorem decimal_toInt (w : BitVec 32) :
    decimal w.toInt = if w.toNat < 2 ^ 31 then numeral w.toNat else [] := by
  split
  · next hLow =>
    rw [BitVec.toInt_eq_toNat_of_lt (by omega), decimal_natCast hLow]
  · next hHigh =>
    have hLt := w.isLt
    have hCond := BitVec.toInt_eq_toNat_cond w
    rw [if_neg (by omega)] at hCond
    exact decimal_of_neg (by omega)

/-- The digits of a negative `int`, after `val = -sval`. -/
theorem decimal_toInt_neg {w : BitVec 32} (h : w.toInt < 0) :
    decimal (-w).toInt = if w = BitVec.intMin 32 then [] else numeral w.toInt.natAbs := by
  have hLt := w.isLt
  have hInt : w.toInt = w.toNat - 4294967296 ∧ 2147483648 ≤ w.toNat := by
    have hCond := BitVec.toInt_eq_toNat_cond w
    split at hCond <;> omega
  have hNeg : (-w).toNat = 4294967296 - w.toNat := by
    rw [BitVec.toNat_neg]
    exact Nat.mod_eq_of_lt (by omega)
  rw [decimal_toInt, hNeg]
  have hMin : w = BitVec.intMin 32 ↔ w.toNat = 2 ^ 31 := by
    rw [← BitVec.toNat_inj]
    rfl
  by_cases hEq : w = BitVec.intMin 32
  · rw [if_pos hEq, if_neg (by have := hMin.mp hEq; omega)]
  · have hNat : w.toNat ≠ 2 ^ 31 := fun hSame => hEq (hMin.mpr hSame)
    rw [if_neg hEq, if_pos (by omega)]
    congr 1
    omega

-- ---------------------------------------------------------------------------
-- The text of a format
-- ---------------------------------------------------------------------------

/-- What `mini_snprintf` prints for a piece. -/
def Item.printed : Item → List UInt8
  | .char c => [c]
  | .str s => s
  | .int w => if w = BitVec.intMin 32 then [0x2D] else signedNumeral w.toInt
  | .unsigned w => if w.toNat < 2 ^ 31 then numeral w.toNat else []

/-- The numbers that are printed as C requires. -/
def Item.Printable : Item → Prop
  | .char _ => True
  | .str _ => True
  | .int w => w ≠ BitVec.intMin 32
  | .unsigned w => w.toNat < 2 ^ 31

theorem conversion_int (w : BitVec 32) (args : List Arg) :
    conversion 0x64 (.word w :: args) = ((Item.int w).printed, args) := by
  show (if w.toInt < 0 then (0x2D :: decimal (-w).toInt, args) else (decimal w.toInt, args)) = _
  by_cases hNeg : w.toInt < 0
  · rw [if_pos hNeg, decimal_toInt_neg hNeg, Item.printed, signedNumeral, if_pos hNeg]
    split <;> rfl
  · obtain ⟨hInt, hLow⟩ := toInt_of_nonneg (Int.not_lt.mp hNeg)
    have hMin : w ≠ BitVec.intMin 32 := by
      rintro rfl
      exact hNeg (by decide)
    rw [if_neg hNeg, decimal_toInt, if_pos hLow, Item.printed, if_neg hMin, signedNumeral, if_neg hNeg,
      hInt, Int.natAbs_natCast]

theorem conversion_unsigned (w : BitVec 32) (args : List Arg) :
    conversion 0x75 (.word w :: args) = ((Item.unsigned w).printed, args) := by
  show (decimal w.toInt, args) = _
  rw [decimal_toInt, Item.printed]

/-- A format made of pieces prints their texts one after the other. -/
theorem expand_items {items : List Item} (h : ∀ i ∈ items, i.Plain) :
    expand (formatOf items) (argsOf items) = items.flatMap Item.printed := by
  induction items with
  | nil => rfl
  | cons i items ih =>
    have ih := ih fun j hj => h j (List.mem_cons_of_mem _ hj)
    rw [List.flatMap_cons, ← ih, formatOf_cons, argsOf_cons]
    cases i with
    | char c =>
      have hc : c ≠ 0x25 := h _ List.mem_cons_self
      show expand (c :: formatOf items) (argsOf items) = c :: _
      rw [expand.eq_def]
      exact if_neg hc
    | str s => rfl
    | int w =>
      show (conversion 0x64 (.word w :: argsOf items)).1
        ++ expand (formatOf items) (conversion 0x64 (.word w :: argsOf items)).2 = _
      rw [conversion_int]
    | unsigned w =>
      show (conversion 0x75 (.word w :: argsOf items)).1
        ++ expand (formatOf items) (conversion 0x75 (.word w :: argsOf items)).2 = _
      rw [conversion_unsigned]

-- ---------------------------------------------------------------------------
-- Against the text that C requires
-- ---------------------------------------------------------------------------

theorem Item.printed_eq {i : Item} (h : i.Printable) : i.printed = i.text := by
  cases i with
  | char c => rfl
  | str s => rfl
  | int w => exact if_neg h
  | unsigned w => exact if_pos h

/-- A number that is not printable loses characters. -/
theorem Item.length_printed_lt {i : Item} (h : ¬ i.Printable) : i.printed.length < i.text.length := by
  have hDigits : ∀ n, 0 < (numeral n).length := fun n => List.length_pos_iff.mpr (numeral_ne_nil n)
  cases i with
  | char c => exact absurd trivial h
  | str s => exact absurd trivial h
  | int w =>
    obtain rfl : w = BitVec.intMin 32 := not_not.mp h
    show 1 < (numeral _).length + 1
    exact Nat.succ_lt_succ (hDigits _)
  | unsigned w =>
    have hHigh : ¬ w.toNat < 2 ^ 31 := h
    rw [Item.printed, if_neg hHigh]
    exact hDigits _

theorem Item.length_printed_le (i : Item) : i.printed.length ≤ i.text.length := by
  by_cases h : i.Printable
  · exact Nat.le_of_eq (congrArg List.length (Item.printed_eq h))
  · exact Nat.le_of_lt (Item.length_printed_lt h)

theorem length_flatMap_printed_le (items : List Item) :
    (items.flatMap Item.printed).length ≤ (completeText items).length := by
  induction items with
  | nil => exact Nat.le_refl _
  | cons i items ih =>
    show (i.printed ++ items.flatMap Item.printed).length ≤ (i.text ++ completeText items).length
    rw [List.length_append, List.length_append]
    exact Nat.add_le_add i.length_printed_le ih

/-- What is lost in one place is not made up for in another. -/
theorem flatMap_printed_eq_iff (items : List Item) :
    items.flatMap Item.printed = completeText items ↔ ∀ i ∈ items, i.Printable := by
  induction items with
  | nil => simp [completeText]
  | cons i items ih =>
    show i.printed ++ items.flatMap Item.printed = i.text ++ completeText items ↔ _
    rw [List.forall_mem_cons]
    by_cases h : i.Printable
    · rw [Item.printed_eq h, List.append_cancel_left_eq, ih, and_iff_right h]
    · refine iff_of_false (fun hSame => ?_) (fun hAll => h hAll.1)
      have hLength := congrArg List.length hSame
      rw [List.length_append, List.length_append] at hLength
      have hHere := Item.length_printed_lt h
      have hRest := length_flatMap_printed_le items
      omega

/-- The text that `mini_snprintf(buf, size, ..)` leaves for a format made of pieces. -/
def miniText (buf : Mem) (size : Nat) (items : List Item) : List UInt8 :=
  let out := miniSnprintf buf size (formatOf items) (argsOf items)
  out.1.slice 0 out.2

theorem miniText_eq {items : List Item} (h : ∀ i ∈ items, i.Plain) {size : Nat}
    (hRoom : (completeText items).length < size) (buf : Mem) :
    miniText buf size items = items.flatMap Item.printed := by
  have hText := expand_items h
  have hLength := length_flatMap_printed_le items
  have hFits : (expand (formatOf items) (argsOf items)).length < size := by
    rw [hText]
    omega
  rw [miniText, miniSnprintf_eq hFits, hText]
  show ((buf.blit 0 _).write8 _ 0).slice 0 _ = _
  rw [Mem.slice_write8_of_le _ _ (Nat.le_of_eq (Nat.zero_add _)), Mem.slice_blit]

/-- In a format whose other pieces are printed correctly, it depends on the one number. -/
theorem miniText_eq_iff {before after : List Item} (hBefore : ∀ i ∈ before, i.Plain ∧ i.Printable)
    (hAfter : ∀ i ∈ after, i.Plain ∧ i.Printable) {i : Item} (hPlain : i.Plain) {size : Nat}
    (hRoom : (completeText (before ++ i :: after)).length < size) (buf : Mem) :
    miniText buf size (before ++ i :: after) = completeText before ++ i.text ++ completeText after
      ↔ i.Printable := by
  have hAll : ∀ j ∈ before ++ i :: after, j.Plain := by
    intro j hj
    rcases List.mem_append.mp hj with hj | hj
    · exact (hBefore j hj).1
    · rcases List.mem_cons.mp hj with rfl | hj
      · exact hPlain
      · exact (hAfter j hj).1
  have hText : completeText before ++ i.text ++ completeText after = completeText (before ++ i :: after) := by
    rw [completeText, completeText, completeText, List.flatMap_append, List.flatMap_cons, List.append_assoc]
  rw [miniText_eq hAll hRoom, hText, flatMap_printed_eq_iff, List.forall_mem_append, List.forall_mem_cons]
  constructor
  · rintro ⟨_, h, _⟩
    exact h
  · intro h
    exact ⟨fun j hj => (hBefore j hj).2, h, fun j hj => (hAfter j hj).2⟩

/--
**Which numbers `mini_snprintf` prints correctly.** Let a conversion stand anywhere in a format
whose other pieces are printed correctly, and let the buffer have room for the text that C
requires. `%d` yields the canonical decimal representation of every `int` but the smallest one.
`%u` yields that of an `unsigned int` if and only if it is below 2^31, and these are the values
for which its text is that of `mini_itoa`.
-/
theorem mini_snprintf_numbers_iff {before after : List Item}
    (hBefore : ∀ i ∈ before, i.Plain ∧ i.Printable) (hAfter : ∀ i ∈ after, i.Plain ∧ i.Printable)
    (v : BitVec 32) (size : Nat) (buf : Mem) :
    ((completeText (before ++ .int v :: after)).length < size →
        (miniText buf size (before ++ .int v :: after)
            = completeText before ++ signedNumeral v.toInt ++ completeText after
          ↔ v ≠ BitVec.intMin 32))
      ∧ ((completeText (before ++ .unsigned v :: after)).length < size →
        (miniText buf size (before ++ .unsigned v :: after)
            = completeText before ++ numeral v.toNat ++ completeText after
          ↔ v.toNat < 2 ^ 31)
        ∧ (miniText buf size (before ++ .unsigned v :: after)
            = completeText before ++ miniItoa v ++ completeText after
          ↔ v.toNat < 2 ^ 31)) := by
  refine ⟨fun hRoom => ?_, fun hRoom => ?_⟩
  · exact miniText_eq_iff hBefore hAfter (show (Item.int v).Plain from trivial) hRoom buf
  · have hText := miniText_eq_iff hBefore hAfter (show (Item.unsigned v).Plain from trivial) hRoom buf
    rw [miniItoa_eq]
    exact ⟨hText, hText⟩

theorem mini_snprintf_numbers_iff_size :
    miniText (fun _ => 0xFF) 16 [.str (lit "size="), .unsigned 1044480]
      = lit "size=" ++ miniItoa 1044480 := by
  have hBefore : ∀ i ∈ [Item.str (lit "size=")], i.Plain ∧ i.Printable := by
    intro i hi
    obtain rfl := List.mem_singleton.mp hi
    exact ⟨trivial, trivial⟩
  have hNumbers := mini_snprintf_numbers_iff hBefore (List.forall_mem_nil _) 1044480 16 fun _ => 0xFF
  have hRoom : (completeText [.str (lit "size="), .unsigned 1044480]).length < 16 := by
    show (lit "size=" ++ (numeral (BitVec.toNat 1044480) ++ [])).length < 16
    rw [← miniItoa_eq]
    decide
  refine ((hNumbers.2 hRoom).2.mpr (by decide)).trans ?_
  show lit "size=" ++ [] ++ _ ++ [] = _
  rw [List.append_nil, List.append_nil]

/-- `%u` prints nothing for 2147483648. -/
theorem mini_snprintf_high_bit :
    miniText (fun _ => 0xFF) 16 [.unsigned 0x80000000] = []
      ∧ miniItoa 0x80000000 = lit "2147483648" :=
  ⟨by decide, by decide⟩

end Nao.Kernel
