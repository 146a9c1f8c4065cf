import Nao.Kernel.Format
import Nao.Lib.Bits

/-!
# What `snprintf` returns

C requires of `snprintf` the length of the complete text, whatever the size of the buffer: a
caller may ask with size 0 how much room it needs. The kernel's function returns the number of
characters it has stored.

* `snprintf_eq` — what is stored and returned, for every format made of characters, `%s`, `%d`
  and `%u`.
* `snprintf_result_iff` — when the result is the length of the text.
-/

namespace Nao.Kernel

open SysLib

-- ---------------------------------------------------------------------------
-- Formats
-- ---------------------------------------------------------------------------

/-- A piece of a format, together with the argument that it takes. -/
inductive Item where
  | char (c : UInt8)
  | str (s : List UInt8)
  | int (w : BitVec 32)
  | unsigned (w : BitVec 32)

/-- How the piece is written in the format. -/
def Item.format : Item → List UInt8
  | .char c => [c]
  | .str _ => lit "%s"
  | .int _ => lit "%d"
  | .unsigned _ => lit "%u"

def Item.arg : Item → Option Arg
  | .char _ => none
  | .str s => some (.str (some s))
  | .int w => some (.word w)
  | .unsigned w => some (.word w)

/-- What C requires to be printed. -/
def Item.text : Item → List UInt8
  | .char c => [c]
  | .str s => s
  | .int w => signedNumeral w.toInt
  | .unsigned w => numeral w.toNat

/-- What `snprintf` prints: all numbers are unsigned to it. -/
def Item.stored : Item → List UInt8
  | .char c => [c]
  | .str s => s
  | .int w => numeral w.toNat
  | .unsigned w => numeral w.toNat

/-- A character of the format is none that begins a conversion. -/
def Item.Plain : Item → Prop
  | .char c => c ≠ 0x25
  | .str _ => True
  | .int _ => True
  | .unsigned _ => True

/-- A number printed with `%d` is not negative. -/
def Item.Nonneg : Item → Prop
  | .char _ => True
  | .str _ => True
  | .int w => 0 ≤ w.toInt
  | .unsigned _ => True

def formatOf (items : List Item) : List UInt8 := items.flatMap Item.format

def argsOf (items : List Item) : List Arg := items.filterMap Item.arg

/-- The complete formatted text. -/
def completeText (items : List Item) : List UInt8 := items.flatMap Item.text

/-- The text with `%d` printed like `%u`. -/
def unsignedText (items : List Item) : List UInt8 := items.flatMap Item.stored

@[simp] theorem formatOf_nil : formatOf [] = [] := rfl

@[simp] theorem formatOf_cons (i : Item) (items : List Item) :
    formatOf (i :: items) = i.format ++ formatOf items := rfl

@[simp] theorem formatOf_append (items items' : List Item) :
    formatOf (items ++ items') = formatOf items ++ formatOf items' := List.flatMap_append

@[simp] theorem argsOf_nil : argsOf [] = [] := rfl

@[simp] theorem argsOf_cons (i : Item) (items : List Item) :
    argsOf (i :: items) = i.arg.toList ++ argsOf items := by
  rw [argsOf, List.filterMap_cons]
  cases i <;> rfl

@[simp] theorem argsOf_append (items items' : List Item) :
    argsOf (items ++ items') = argsOf items ++ argsOf items' := List.filterMap_append

theorem unsignedText_cons (i : Item) (items : List Item) :
    unsignedText (i :: items) = i.stored ++ unsignedText items := rfl

theorem Item.stored_eq {i : Item} (h : i.Nonneg) : i.stored = i.text := by
  cases i with
  | char c => rfl
  | str s => rfl
  | int w =>
    have hNeg : ¬ w.toInt < 0 := Int.not_lt.mpr h
    rw [Item.stored, Item.text, signedNumeral, if_neg hNeg, (toInt_of_nonneg h).1, Int.natAbs_natCast]
  | unsigned w => rfl

theorem unsignedText_eq {items : List Item} (h : ∀ i ∈ items, i.Nonneg) :
    unsignedText items = completeText items :=
  List.flatMap_congr fun i hi => Item.stored_eq (h i hi)

-- ---------------------------------------------------------------------------
-- The loop
-- ---------------------------------------------------------------------------

theorem miniItoa_eq (w : BitVec 32) : miniItoa w = numeral w.toNat := by
  unfold miniItoa numeral
  by_cases hZero : w = 0
  · subst hZero
    rfl
  · have hNat : w.toNat ≠ 0 := fun h => hZero (BitVec.eq_of_toNat_eq h)
    rw [if_neg hZero, if_neg hNat, scratchDigits_eq (by have := w.isLt; omega)]

variable {size : Nat}

theorem snprintfLoop_char {c : UInt8} (h : c ≠ 0x25) (p : List UInt8) (args : List Arg) (o : Output) :
    snprintfLoop size (c :: p) args o
      = if o.writeIdx < size - 1 then snprintfLoop size p args (o.put c) else o := by
  cases p with
  | nil => rfl
  | cons k p => rw [snprintfLoop, if_neg h]

theorem snprintfLoop_percent (k : UInt8) (p : List UInt8) (args : List Arg) (o : Output) :
    snprintfLoop size (0x25 :: k :: p) args o
      = if o.writeIdx < size - 1 then
          snprintfLoop size p (snprintfConvert size k args o).2 (snprintfConvert size k args o).1
        else o := by
  rw [snprintfLoop, if_pos rfl]

/-- The loop stores the text of the pieces. -/
theorem snprintfLoop_eq {items : List Item} (h : ∀ i ∈ items, i.Plain) (o : Output) :
    snprintfLoop size (formatOf items) (argsOf items) o
      = o.putAll size (unsignedText items) := by
  induction items generalizing o with
  | nil => rfl
  | cons i items ih =>
    have ih := ih fun j hj => h j (List.mem_cons_of_mem _ hj)
    rw [unsignedText_cons, putAll_append]
    by_cases hRoom : o.writeIdx < size - 1
    · cases i with
      | char c =>
        have hc : c ≠ 0x25 := h _ (List.mem_cons_self ..)
        show snprintfLoop size (c :: formatOf items) (argsOf items) o = _
        rw [snprintfLoop_char hc, if_pos hRoom, ih, Item.stored, putAll_singleton hRoom]
      | str s =>
        show snprintfLoop size (0x25 :: 0x73 :: formatOf items) (.str (some s) :: argsOf items) o = _
        rw [snprintfLoop_percent, if_pos hRoom]
        exact ih _
      | int w =>
        show snprintfLoop size (0x25 :: 0x64 :: formatOf items) (.word w :: argsOf items) o = _
        rw [snprintfLoop_percent, if_pos hRoom, Item.stored, ← miniItoa_eq]
        exact ih _
      | unsigned w =>
        show snprintfLoop size (0x25 :: 0x75 :: formatOf items) (.word w :: argsOf items) o = _
        rw [snprintfLoop_percent, if_pos hRoom, Item.stored, ← miniItoa_eq]
        exact ih _
    · -- a full buffer ends the loop before the piece is looked at
      have hStop : ∀ p args, snprintfLoop size p args o = o := by
        intro p args
        cases p with
        | nil => rfl
        | cons c p => rw [snprintfLoop.eq_def]; exact if_neg hRoom
      rw [hStop, putAll_full hRoom, putAll_full hRoom]

-- ---------------------------------------------------------------------------
-- The result
-- ---------------------------------------------------------------------------

/-- What `snprintf` stores, and what it returns. -/
theorem snprintf_eq {items : List Item} (h : ∀ i ∈ items, i.Plain) (hSize : 0 < size) (buf : Mem) :
    snprintf buf size (formatOf items) (argsOf items)
      = ((buf.blit 0 ((unsignedText items).take (size - 1))).write8
          ((unsignedText items).take (size - 1)).length 0,
        (BitVec.ofNat 32 ((unsignedText items).take (size - 1)).length).toInt) := by
  rw [snprintf, if_neg (by omega), snprintfLoop_eq h, putAll_eq]
  simp only [Output.append, Nat.sub_zero, Nat.zero_add]

/-- A number of characters as an `int`. -/
theorem toInt_ofNat_eq_iff {m n : Nat} :
    (BitVec.ofNat 32 m).toInt = n ↔ m % 2 ^ 32 = n ∧ n < 2 ^ 31 := by
  rw [BitVec.toInt_eq_toNat_cond, BitVec.toNat_ofNat]
  split <;> omega

/-- The result is the length of the text, if the text that is printed has that length as far as it
fits into the buffer, and an `int` can hold it. -/
theorem snprintf_result_iff {items : List Item} (hPlain : ∀ i ∈ items, i.Plain) (buf : Mem)
    (size : Nat) :
    (snprintf buf size (formatOf items) (argsOf items)).2 = (completeText items).length
      ↔ min (unsignedText items).length (size - 1) % 2 ^ 32 = (completeText items).length
        ∧ (completeText items).length < 2 ^ 31 := by
  rcases Nat.eq_zero_or_pos size with rfl | hSize
  · show (0 : Int) = (completeText items).length ↔ _
    omega
  · rw [snprintf_eq hPlain hSize, toInt_ofNat_eq_iff, List.length_take, Nat.min_comm]

/-- A text that fits is stored, and its length is returned. -/
theorem snprintf_fits {items : List Item} (hPlain : ∀ i ∈ items, i.Plain)
    (hNonneg : ∀ i ∈ items, i.Nonneg) (hSize : (completeText items).length < size)
    (hInt : (completeText items).length < 2 ^ 31) (buf : Mem) :
    snprintf buf size (formatOf items) (argsOf items)
      = ((buf.blit 0 (completeText items)).write8 (completeText items).length 0,
        ((completeText items).length : Int)) := by
  rw [snprintf_eq hPlain (by omega), unsignedText_eq hNonneg, List.take_of_length_le (by omega),
    toInt_ofNat_of_lt hInt]

end Nao.Kernel
