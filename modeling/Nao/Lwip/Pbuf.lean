import Nao.Lib.Search
import Mathlib.Algebra.Order.Ring.Nat

/-!
# Packet buffers of lwIP

The functions of `pbuf.c` that read a chain of packet buffers: `pbuf_skip`, `pbuf_get_at`,
`pbuf_memcmp`, `pbuf_memfind`, `pbuf_copy_partial`, `pbuf_cat` and `pbuf_free_header`. A chain is the
list of the payloads of its buffers, and `NULL` is the empty list. `tot_len` of a buffer is the
length of the payloads from it on, in 16 bits; `pbuf_cat` and `pbuf_remove_header` keep it so.

Where the length of a chain fits into `tot_len`, each function does to the bytes of the chain,
one after another, what its name says, and it does not matter how they lie in the buffers.
-/

namespace Nao.Lwip

open SysLib

/-- The payloads of a chain of buffers. -/
abbrev Chain : Type := List (List UInt8)

namespace Chain

variable (c : Chain)

def totLen : Nat := c.flatten.length % 2 ^ 16

-- ---------------------------------------------------------------------------
-- The functions
-- ---------------------------------------------------------------------------

/-- `pbuf_skip_const`: the rest of the chain from the buffer that holds a position on, and the
position in it. -/
def pbufSkip : Chain → Nat → Chain × Nat
  | [], offset => ([], offset)
  | p :: q, offset => if p.length ≤ offset then pbufSkip q (offset - p.length) else (p :: q, offset)

def pbufTryGetAt (offset : Nat) : Option UInt8 :=
  match pbufSkip c offset with
  | ([], _) => none
  | (p :: _, i) => p[i]?

def pbufGetAt (offset : Nat) : UInt8 := (c.pbufTryGetAt offset).getD 0

/-- The loop of `pbuf_memcmp` from index `i` on. -/
def memcmpFrom (start : Nat) : List UInt8 → Nat → Nat
  | [], _ => 0
  | b :: s2, i =>
    if c.pbufGetAt ((start + i) % 2 ^ 16) ≠ b then min (i + 1) 0xFFFF
    else memcmpFrom start s2 (i + 1)

def pbufMemcmp (offset : Nat) (s2 : List UInt8) : Nat :=
  if c.totLen < offset + s2.length then 0xFFFF
  else
    -- the loop that looks for the buffer is that of `pbuf_skip_const`
    let (q, start) := pbufSkip c offset
    memcmpFrom q start s2 0

/-- The loop of `pbuf_memfind` from position `i` on, with the number of positions left. -/
def memfindFrom (mem : List UInt8) (i : Nat) : Nat → Nat
  | 0 => 0xFFFF
  | left + 1 => if c.pbufMemcmp i mem = 0 then i else memfindFrom mem (i + 1) left

def pbufMemfind (mem : List UInt8) (startOffset : Nat) : Nat :=
  if mem.length + startOffset ≤ c.totLen then
    c.memfindFrom mem startOffset (c.totLen - mem.length + 1 - startOffset)
  else 0xFFFF

/-- `pbuf_copy_partial`: the bytes it writes to `dataptr`. -/
def pbufCopyPartial : Chain → (len offset : Nat) → List UInt8
  | [], _, _ => []
  | p :: q, len, offset =>
    if len = 0 then []
    else if offset ≠ 0 ∧ p.length ≤ offset then pbufCopyPartial q len (offset - p.length)
    else
      let bufCopyLen := min (p.length - offset) len
      (p.drop offset).take bufCopyLen ++ pbufCopyPartial q (len - bufCopyLen) 0

/-- `pbuf_cat`. -/
def pbufCat (h t : Chain) : Chain := h ++ t

def pbufFreeHeader : Chain → Nat → Chain
  | [], _ => []
  | p :: q, size =>
    if size = 0 then p :: q
    else if p.length ≤ size then pbufFreeHeader q (size - p.length)
    else p.drop size :: q

-- ---------------------------------------------------------------------------
-- The bytes of a chain
-- ---------------------------------------------------------------------------

theorem totLen_lt : c.totLen < 2 ^ 16 := Nat.mod_lt _ (by decide)

variable {c}

theorem totLen_eq (h : c.flatten.length < 2 ^ 16) : c.totLen = c.flatten.length :=
  Nat.mod_eq_of_lt h

theorem length_pbufSkip_le (c : Chain) (offset : Nat) :
    (pbufSkip c offset).1.flatten.length ≤ c.flatten.length := by
  induction c generalizing offset with
  | nil => exact Nat.le_refl _
  | cons p q ih =>
    rw [pbufSkip]
    split
    · have := ih (offset - p.length)
      rw [List.flatten_cons, List.length_append]
      omega
    · exact Nat.le_refl _

theorem pbufSkip_eq (c : Chain) (offset : Nat) :
    (pbufSkip c offset).1.flatten.drop (pbufSkip c offset).2 = c.flatten.drop offset
      ∧ ∀ p ∈ (pbufSkip c offset).1.head?, (pbufSkip c offset).2 < p.length := by
  induction c generalizing offset with
  | nil => simp [pbufSkip]
  | cons p q ih =>
    rw [pbufSkip]
    split
    · next hLe =>
      rw [List.flatten_cons, List.drop_append, List.drop_eq_nil_of_le hLe, List.nil_append]
      exact ih _
    · next hLt =>
      exact ⟨rfl, by simpa using hLt⟩

theorem pbufTryGetAt_eq (c : Chain) (offset : Nat) : c.pbufTryGetAt offset = c.flatten[offset]? := by
  obtain ⟨hDrop, hIn⟩ := pbufSkip_eq c offset
  have hAt := congrArg (·[0]?) hDrop
  simp only [List.getElem?_drop, Nat.add_zero] at hAt
  rw [pbufTryGetAt, ← hAt]
  split
  · next hSkip => simp [hSkip]
  · next p q i hSkip =>
    rw [hSkip] at hIn ⊢
    rw [List.flatten_cons, List.getElem?_append_left (by simpa using hIn)]

theorem pbufGetAt_eq (c : Chain) (offset : Nat) :
    c.pbufGetAt offset = (c.flatten[offset]?).getD 0 := by
  rw [pbufGetAt, pbufTryGetAt_eq]

/-- The comparison goes through when the bytes agree; the positions do not wrap. -/
theorem memcmpFrom_eq_zero_iff {start i : Nat} {s2 : List UInt8} (h : c.flatten.length < 2 ^ 16)
    (hIn : start + i + s2.length ≤ c.flatten.length) :
    c.memcmpFrom start s2 i = 0 ↔ OccursAt s2 c.flatten (start + i) := by
  induction s2 generalizing i with
  | nil => simp [memcmpFrom, OccursAt]
  | cons b s2 ih =>
    rw [List.length_cons] at hIn
    have hlt : start + i < c.flatten.length := by omega
    rw [memcmpFrom, Nat.mod_eq_of_lt (by omega), pbufGetAt_eq, List.getElem?_eq_getElem hlt,
      Option.getD_some, OccursAt, List.drop_eq_getElem_cons hlt, List.cons_prefix_cons]
    split
    · next hNe =>
      simp [Ne.symm hNe]
    · next hEq =>
      rw [ih (by omega), not_not.mp hEq, OccursAt, ← Nat.add_assoc]
      simp

theorem pbufMemcmp_eq_zero_iff {offset : Nat} {s2 : List UInt8} (h : c.flatten.length < 2 ^ 16)
    (hs2 : s2 ≠ []) : c.pbufMemcmp offset s2 = 0 ↔ OccursAt s2 c.flatten offset := by
  rw [pbufMemcmp, totLen_eq h]
  split
  · next hShort =>
    have hOut : ¬ OccursAt s2 c.flatten offset := fun hOccurs => by
      have := hOccurs.le_length hs2
      omega
    simp [hOut]
  · next hLong =>
    obtain ⟨hDrop, -⟩ := pbufSkip_eq c offset
    have hRest := length_pbufSkip_le c offset
    have hLen := congrArg List.length hDrop
    have hPos := List.length_pos_iff.mpr hs2
    rw [List.length_drop, List.length_drop] at hLen
    rw [memcmpFrom_eq_zero_iff (by omega) (by omega), OccursAt, Nat.add_zero, hDrop, OccursAt]

/-- The loop stops at the first occurrence. -/
theorem memfindFrom_of_firstAt {mem : List UInt8} (h : c.flatten.length < 2 ^ 16) (hMem : mem ≠ [])
    {start i left : Nat} (hFirst : FirstAt mem c.flatten start i) (hLeft : i < start + left) :
    c.memfindFrom mem start left = i := by
  induction left generalizing start with
  | zero => exact absurd hLeft (by have := hFirst.start_le; omega)
  | succ left ih =>
    rw [memfindFrom]
    simp only [pbufMemcmp_eq_zero_iff h hMem]
    rcases Nat.eq_or_lt_of_le hFirst.start_le with rfl | hlt
    · rw [if_pos hFirst.occurs]
    · rw [if_neg (hFirst.first start (Nat.le_refl _) hlt)]
      exact ih ⟨hlt, hFirst.occurs, fun j hj => hFirst.first j (by omega)⟩ (by omega)

theorem memfindFrom_of_absent {mem : List UInt8} (h : c.flatten.length < 2 ^ 16) (hMem : mem ≠ [])
    {start : Nat} (hAbsent : ∀ j, start ≤ j → ¬ OccursAt mem c.flatten j) (left : Nat) :
    c.memfindFrom mem start left = 0xFFFF := by
  induction left generalizing start with
  | zero => rfl
  | succ left ih =>
    rw [memfindFrom]
    simp only [pbufMemcmp_eq_zero_iff h hMem]
    rw [if_neg (hAbsent start (Nat.le_refl _))]
    exact ih fun j hj => hAbsent j (by omega)

theorem pbufMemfind_of_firstAt {mem : List UInt8} (h : c.flatten.length < 2 ^ 16) (hMem : mem ≠ [])
    {start i : Nat} (hFirst : FirstAt mem c.flatten start i) : c.pbufMemfind mem start = i := by
  have hIn := hFirst.occurs.le_length hMem
  have hStart := hFirst.start_le
  rw [pbufMemfind, totLen_eq h, if_pos (by omega)]
  exact memfindFrom_of_firstAt h hMem hFirst (by omega)

theorem pbufMemfind_of_absent {mem : List UInt8} (h : c.flatten.length < 2 ^ 16) (hMem : mem ≠ [])
    {start : Nat} (hAbsent : ∀ j, start ≤ j → ¬ OccursAt mem c.flatten j) :
    c.pbufMemfind mem start = 0xFFFF := by
  rw [pbufMemfind]
  split
  · exact memfindFrom_of_absent h hMem hAbsent _
  · rfl

theorem memfindFrom_lt {mem : List UInt8} {i left : Nat} (h : c.memfindFrom mem i left ≠ 0xFFFF) :
    c.memfindFrom mem i left < i + left := by
  induction left generalizing i with
  | zero => exact absurd rfl h
  | succ left ih =>
    rw [memfindFrom] at h ⊢
    split at h
    · next hEq =>
      rw [if_pos hEq]
      omega
    · next hNe =>
      rw [if_neg hNe]
      have := ih h
      omega

/-- What is found lies in the chain. -/
theorem pbufMemfind_le {mem : List UInt8} {start : Nat} (h : c.pbufMemfind mem start ≠ 0xFFFF) :
    c.pbufMemfind mem start + mem.length ≤ c.totLen := by
  rw [pbufMemfind] at h ⊢
  split at h
  · next hIn =>
    rw [if_pos hIn]
    have := memfindFrom_lt h
    omega
  · exact absurd rfl h

theorem pbufCopyPartial_eq (c : Chain) (len offset : Nat) :
    c.pbufCopyPartial len offset = (c.flatten.drop offset).take len := by
  induction c generalizing len offset with
  | nil => simp [pbufCopyPartial]
  | cons p q ih =>
    rw [pbufCopyPartial, List.flatten_cons, List.drop_append]
    split
    · next hZero => rw [hZero, List.take_zero]
    split
    · next hSkip =>
      rw [ih, List.drop_eq_nil_of_le hSkip.2, List.nil_append]
    · next hHere =>
      have hRest : offset - p.length = 0 := by omega
      dsimp only
      rw [ih, List.drop_zero, hRest, List.drop_zero, List.take_append, List.length_drop]
      congr 1
      · rw [List.take_eq_take_iff, List.length_drop]
        omega
      · congr 1
        omega

theorem flatten_pbufFreeHeader (c : Chain) (size : Nat) :
    (c.pbufFreeHeader size).flatten = c.flatten.drop size := by
  induction c generalizing size with
  | nil => simp [pbufFreeHeader]
  | cons p q ih =>
    rw [pbufFreeHeader, List.flatten_cons, List.drop_append]
    split
    · next hZero => simp [hZero]
    split
    · next hLe =>
      rw [ih, List.drop_eq_nil_of_le hLe, List.nil_append]
    · next hLt =>
      have hRest : size - p.length = 0 := by omega
      rw [List.flatten_cons, hRest, List.drop_zero]

end Chain

end Nao.Lwip
