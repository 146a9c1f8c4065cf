import Mathlib.Algebra.Order.Ring.Nat
import Mathlib.Logic.Function.Basic
import Mathlib.Data.List.GetD
import Nao.Lib.Copy

/-!
# Byte-addressed memory

A memory is a total function from addresses to bytes. Machine words are read
and written little-endian, as naturals below `2 ^ 16` and `2 ^ 32`; a word that
does not fit is truncated by the write, as a store instruction does. Runs of
bytes are read with `slice`, written with `blit` and moved with `copy`.

Every operation comes with the two facts a client needs: what is read back at
the written place (`read32_write32`, `slice_blit`), and that every other byte is
untouched (`write32_of_disjoint`, `blit_of_disjoint`). Reads depend only on the
bytes they cover (`read16_congr`, `read32_congr`, `slice_congr`).
-/

namespace SysLib

/-- A byte-addressed memory. -/
abbrev Mem := Nat → UInt8

namespace Mem

/-! ## Bytes and words -/

/-- Store one byte. -/
def write8 (m : Mem) (a : Nat) (v : UInt8) : Mem := Function.update m a v

/-- The 16-bit little-endian word at `a`. -/
def read16 (m : Mem) (a : Nat) : Nat := (m a).toNat + 256 * (m (a + 1)).toNat

/-- The 32-bit little-endian word at `a`. -/
def read32 (m : Mem) (a : Nat) : Nat := m.read16 a + 65536 * m.read16 (a + 2)

/-- Store the low 16 bits of `v` at `a`. -/
def write16 (m : Mem) (a v : Nat) : Mem :=
  (m.write8 a (UInt8.ofNat v)).write8 (a + 1) (UInt8.ofNat (v / 256))

/-- Store the low 32 bits of `v` at `a`. -/
def write32 (m : Mem) (a v : Nat) : Mem :=
  (m.write16 a v).write16 (a + 2) (v / 65536)

@[simp] theorem write8_same (m : Mem) (a : Nat) (v : UInt8) : m.write8 a v a = v := by
  simp [write8]

theorem write8_of_ne (m : Mem) {a x : Nat} (v : UInt8) (h : x ≠ a) :
    m.write8 a v x = m x := by
  simp [write8, h]

theorem read16_lt (m : Mem) (a : Nat) : m.read16 a < 65536 := by
  have h0 := (m a).toNat_lt
  have h1 := (m (a + 1)).toNat_lt
  unfold read16
  omega

theorem read32_lt (m : Mem) (a : Nat) : m.read32 a < 2 ^ 32 := by
  have h0 := m.read16_lt a
  have h1 := m.read16_lt (a + 2)
  unfold read32
  omega

theorem write16_of_disjoint (m : Mem) {a x : Nat} (v : Nat) (h : x < a ∨ a + 2 ≤ x) :
    m.write16 a v x = m x := by
  unfold write16
  rw [write8_of_ne _ _ (by omega), write8_of_ne _ _ (by omega)]

theorem write32_of_disjoint (m : Mem) {a x : Nat} (v : Nat) (h : x < a ∨ a + 4 ≤ x) :
    m.write32 a v x = m x := by
  unfold write32
  rw [write16_of_disjoint _ _ (by omega), write16_of_disjoint _ _ (by omega)]

theorem read16_congr {m m' : Mem} {a : Nat}
    (h : ∀ x, a ≤ x → x < a + 2 → m x = m' x) : m.read16 a = m'.read16 a := by
  unfold read16
  rw [h a (by omega) (by omega), h (a + 1) (by omega) (by omega)]

theorem read32_congr {m m' : Mem} {a : Nat}
    (h : ∀ x, a ≤ x → x < a + 4 → m x = m' x) : m.read32 a = m'.read32 a := by
  unfold read32
  rw [read16_congr fun x h1 h2 => h x h1 (by omega),
    read16_congr fun x h1 h2 => h x (by omega) (by omega)]

@[simp] theorem read16_write16 (m : Mem) (a v : Nat) :
    (m.write16 a v).read16 a = v % 65536 := by
  have h0 : m.write16 a v a = UInt8.ofNat v := by
    rw [write16, write8_of_ne _ _ (by omega), write8_same]
  have h1 : m.write16 a v (a + 1) = UInt8.ofNat (v / 256) := by
    rw [write16, write8_same]
  unfold read16
  rw [h0, h1, UInt8.toNat_ofNat', UInt8.toNat_ofNat']
  omega

@[simp] theorem read32_write32 (m : Mem) (a v : Nat) :
    (m.write32 a v).read32 a = v % 2 ^ 32 := by
  have hlow : (m.write32 a v).read16 a = v % 65536 := by
    rw [write32, read16_congr fun x h1 h2 => write16_of_disjoint _ _ (by omega),
      read16_write16]
  unfold read32
  rw [hlow, write32, read16_write16]
  omega

/-! ## Runs of bytes -/

/-- The `n` bytes from `a` on. -/
def slice (m : Mem) (a n : Nat) : List UInt8 := (List.range n).map fun i => m (a + i)

/-- Store the bytes `bs` from `a` on. -/
def blit (m : Mem) (a : Nat) (bs : List UInt8) : Mem :=
  fun x => if a ≤ x then bs.getD (x - a) (m x) else m x

@[simp] theorem length_slice (m : Mem) (a n : Nat) : (m.slice a n).length = n := by
  simp [slice]

theorem slice_congr {m m' : Mem} {a n : Nat}
    (h : ∀ x, a ≤ x → x < a + n → m x = m' x) : m.slice a n = m'.slice a n := by
  unfold slice
  apply List.map_congr_left
  intro i hi
  rw [List.mem_range] at hi
  exact h (a + i) (by omega) (by omega)

theorem slice_add (m : Mem) (a n k : Nat) :
    m.slice a (n + k) = m.slice a n ++ m.slice (a + n) k := by
  simp [slice, List.range_add, Function.comp_def, Nat.add_assoc]

theorem take_slice (m : Mem) (a n k : Nat) : (m.slice a n).take k = m.slice a (min k n) := by
  simp [slice, ← List.map_take, List.take_range]

/-- A byte behind a run does not change it. -/
theorem slice_write8_of_le (m : Mem) {a n x : Nat} (v : UInt8) (h : a + n ≤ x) :
    (m.write8 x v).slice a n = m.slice a n :=
  slice_congr fun y _ hy => write8_of_ne m v (by omega)

/-- Two adjoining runs hold `xs` and `ys` iff the joint run holds `xs ++ ys`. -/
theorem slice_eq_append_iff {m : Mem} {a : Nat} {xs ys : List UInt8} :
    m.slice a (xs ++ ys).length = xs ++ ys ↔
      m.slice a xs.length = xs ∧ m.slice (a + xs.length) ys.length = ys := by
  rw [List.length_append, slice_add]
  constructor
  · intro h
    exact List.append_inj h (by simp)
  · rintro ⟨hx, hy⟩
    rw [hx, hy]

/-- The low 16 bits of `v` as two bytes in memory order. -/
def le16 (v : Nat) : List UInt8 := [UInt8.ofNat v, UInt8.ofNat (v / 256)]

theorem read16_of_slice {m : Mem} {a v : Nat} (h : m.slice a (le16 v).length = le16 v) :
    m.read16 a = v % 65536 := by
  have hBytes : m a = UInt8.ofNat v ∧ m (a + 1) = UInt8.ofNat (v / 256) := by
    simpa [slice, le16, List.range_succ] using h
  unfold read16
  rw [hBytes.1, hBytes.2, UInt8.toNat_ofNat', UInt8.toNat_ofNat']
  omega

/-- The low 32 bits of `v` as four bytes in memory order. -/
def le32 (v : Nat) : List UInt8 := le16 v ++ le16 (v / 65536)

theorem read32_of_slice {m : Mem} {a v : Nat} (h : m.slice a (le32 v).length = le32 v) :
    m.read32 a = v % 2 ^ 32 := by
  obtain ⟨hLow, hHigh⟩ := slice_eq_append_iff.mp h
  have hHigh : m.read16 (a + 2) = v / 65536 % 65536 := read16_of_slice hHigh
  rw [read32, read16_of_slice hLow, hHigh]
  omega

theorem length_flatMap_range {n count : Nat} {record : Nat → List UInt8}
    (hLength : ∀ i, (record i).length = n) :
    ((List.range count).flatMap record).length = n * count := by
  rw [List.length_flatMap, List.map_congr_left fun i _ => hLength i, List.map_const',
    List.sum_replicate_nat, List.length_range, Nat.mul_comm]

/-- A run that holds records of `n` bytes one after the other holds each of them. -/
theorem slice_record {m : Mem} {a n count : Nat} {record : Nat → List UInt8}
    (hLength : ∀ i, (record i).length = n)
    (h : m.slice a (n * count) = (List.range count).flatMap record) {i : Nat} (hi : i < count) :
    m.slice (a + i * n) n = record i := by
  induction count with
  | zero => exact absurd hi (Nat.not_lt_zero _)
  | succ count ih =>
    rw [Nat.mul_succ, slice_add, List.range_succ, List.flatMap_append, List.flatMap_singleton] at h
    obtain ⟨hInit, hLast⟩ := List.append_inj h (by rw [length_slice, length_flatMap_range hLength])
    rcases Nat.lt_succ_iff_lt_or_eq.mp hi with hlt | rfl
    · exact ih hInit hlt
    · rw [Nat.mul_comm]
      exact hLast

theorem blit_of_disjoint (m : Mem) {a x : Nat} (bs : List UInt8)
    (h : x < a ∨ a + bs.length ≤ x) : m.blit a bs x = m x := by
  unfold blit
  split
  · rw [List.getD_eq_default _ _ (by omega)]
  · rfl

theorem blit_apply (m : Mem) (a : Nat) (bs : List UInt8) {i : Nat} (h : i < bs.length) :
    m.blit a bs (a + i) = bs[i] := by
  unfold blit
  rw [if_pos (by omega), Nat.add_sub_cancel_left, List.getD_eq_getElem _ _ h]

@[simp] theorem slice_blit (m : Mem) (a : Nat) (bs : List UInt8) :
    (m.blit a bs).slice a bs.length = bs := by
  apply List.ext_getElem (by simp)
  intro i h1 h2
  simp only [slice, List.getElem_map, List.getElem_range]
  exact blit_apply m a bs h2

/-- Storing what is there already, and only that, changes nothing. -/
theorem blit_eq_self_iff {m : Mem} {a : Nat} {bs : List UInt8} :
    m.blit a bs = m ↔ m.slice a bs.length = bs := by
  constructor
  · intro h
    have hRead := slice_blit m a bs
    rwa [h] at hRead
  · intro h
    funext x
    by_cases hx : a ≤ x ∧ x < a + bs.length
    · obtain ⟨i, rfl⟩ := Nat.exists_eq_add_of_le hx.1
      have hi : i < bs.length := by omega
      have hByte : (m.slice a bs.length)[i]? = some (m (a + i)) := by
        simp [slice, hi]
      rw [blit_apply _ _ _ hi]
      rw [h, List.getElem?_eq_getElem hi, Option.some.injEq] at hByte
      exact hByte
    · exact blit_of_disjoint m bs (by omega)

theorem blit_append (m : Mem) (a : Nat) (xs ys : List UInt8) :
    m.blit a (xs ++ ys) = (m.blit a xs).blit (a + xs.length) ys := by
  funext x
  rcases Nat.lt_or_ge x (a + xs.length) with hlt | hge
  · rw [blit_of_disjoint _ ys (.inl hlt)]
    rcases Nat.lt_or_ge x a with hxa | hax
    · rw [blit_of_disjoint _ _ (.inl hxa), blit_of_disjoint _ _ (.inl hxa)]
    · obtain ⟨i, rfl⟩ := Nat.exists_eq_add_of_le hax
      have hi : i < xs.length := by omega
      rw [blit_apply _ _ _ hi, blit_apply _ _ _ (by rw [List.length_append]; omega),
        List.getElem_append_left hi]
  · obtain ⟨i, rfl⟩ := Nat.exists_eq_add_of_le hge
    rcases Nat.lt_or_ge i ys.length with hi | hi
    · rw [blit_apply _ _ _ hi, Nat.add_assoc,
        blit_apply _ _ _ (by rw [List.length_append]; omega), List.getElem_append_right (by omega)]
      simp
    · rw [blit_of_disjoint _ _ (by rw [List.length_append]; omega),
        blit_of_disjoint _ _ (by omega), blit_of_disjoint _ _ (by omega)]

/-- `for (i = 0; i < n; i++) dest[i] = src[i];` within one memory. -/
def copy (m : Mem) (dest src : Nat) : Nat → Mem
  | 0 => m
  | n + 1 => (m.copy dest src n).write8 (dest + n) (m.copy dest src n (src + n))

theorem copy_eq (m : Mem) (dest src n : Nat) : m.copy dest src n = copyUp (dest + ·) (src + ·) n m := by
  induction n with
  | zero => rfl
  | succ n ih => rw [copy, ih, copyUp, copyCell, write8]

/-- What a copy between disjoint ranges leaves at each address. -/
theorem copy_apply (m : Mem) {dest src n : Nat} (h : src + n ≤ dest ∨ dest + n ≤ src) (x : Nat) :
    m.copy dest src n x = if dest ≤ x ∧ x < dest + n then m (src + (x - dest)) else m x := by
  have hCopied : Copied (dest + ·) (src + ·) n m (m.copy dest src n) := by
    rw [copy_eq]
    exact copyUp_copied (fun i j hij hj => by omega) (fun i j hij hj => by omega) m
  split
  · next hIn =>
    have hCell := hCopied.cells (x - dest) (by omega)
    rwa [Nat.add_sub_cancel' hIn.1] at hCell
  · next hOut => exact hCopied.frame x fun i hi => by omega

theorem slice_copy (m : Mem) {dest src n : Nat} (h : src + n ≤ dest ∨ dest + n ≤ src) :
    (m.copy dest src n).slice dest n = m.slice src n := by
  unfold slice
  apply List.map_congr_left
  intro i hi
  rw [List.mem_range] at hi
  rw [copy_apply m h, if_pos (by omega), Nat.add_sub_cancel_left]

/-! ## Runs of 16-bit words -/

/-- The bytes of a run of words. -/
def ofWords (ws : List Nat) : List UInt8 := ws.flatMap le16

/-- A run of bytes as words; an odd byte at the end is dropped. -/
def toWords : List UInt8 → List Nat
  | lo :: hi :: bs => (lo.toNat + 256 * hi.toNat) :: toWords bs
  | _ => []

@[simp] theorem ofWords_cons (w : Nat) (ws : List Nat) :
    ofWords (w :: ws) = le16 w ++ ofWords ws := rfl

theorem length_ofWords (ws : List Nat) : (ofWords ws).length = 2 * ws.length := by
  induction ws with
  | nil => rfl
  | cons w ws ih =>
    rw [ofWords_cons, List.length_append, ih, List.length_cons, le16]
    simp only [List.length_cons, List.length_nil]
    omega

theorem le16_of_bytes (lo hi : UInt8) : le16 (lo.toNat + 256 * hi.toNat) = [lo, hi] := by
  have hlo := lo.toNat_lt
  have hhi := hi.toNat_lt
  have hLow : UInt8.ofNat (lo.toNat + 256 * hi.toNat) = lo := by
    apply UInt8.toNat_inj.mp
    rw [UInt8.toNat_ofNat']
    omega
  have hHigh : UInt8.ofNat ((lo.toNat + 256 * hi.toNat) / 256) = hi := by
    apply UInt8.toNat_inj.mp
    rw [UInt8.toNat_ofNat']
    omega
  rw [le16, hLow, hHigh]

/-- Words taken out of an even run of bytes put the same bytes back. -/
theorem ofWords_toWords {bs : List UInt8} (h : bs.length % 2 = 0) : ofWords (toWords bs) = bs := by
  induction bs using toWords.induct with
  | case1 lo hi bs ih =>
    have hRest : bs.length % 2 = 0 := by
      simp only [List.length_cons] at h
      omega
    rw [toWords, ofWords_cons, le16_of_bytes, ih hRest]
    rfl
  | case2 bs hShort =>
    match bs, hShort, h with
    | [], _, _ => rfl
    | [_], _, h => simp at h
    | lo :: hi :: rest, hShort, _ => exact absurd rfl (hShort lo hi rest)

theorem length_toWords (bs : List UInt8) : (toWords bs).length = bs.length / 2 := by
  induction bs using toWords.induct with
  | case1 lo hi bs ih =>
    rw [toWords, List.length_cons, ih]
    simp only [List.length_cons]
    omega
  | case2 bs hShort =>
    match bs, hShort with
    | [], _ => rfl
    | [_], _ => simp [toWords]
    | lo :: hi :: rest, hShort => exact absurd rfl (hShort lo hi rest)

@[simp] theorem blit_nil (m : Mem) (a : Nat) : m.blit a [] = m := by
  funext x
  exact blit_of_disjoint m [] (by rw [List.length_nil]; omega)

theorem write8_eq_blit (m : Mem) (a : Nat) (v : UInt8) : m.write8 a v = m.blit a [v] := by
  funext x
  by_cases hx : x = a
  · subst hx
    simp [blit]
  · rw [write8_of_ne _ _ hx, blit_of_disjoint _ _ (by rw [List.length_singleton]; omega)]

theorem write16_eq_blit (m : Mem) (a v : Nat) : m.write16 a v = m.blit a (le16 v) := by
  funext x
  rcases Nat.lt_or_ge x a with hlt | hge
  · rw [write16_of_disjoint _ _ (.inl hlt), blit_of_disjoint _ _ (.inl hlt)]
  · obtain ⟨i, rfl⟩ := Nat.exists_eq_add_of_le hge
    match i with
    | 0 => simp [write16, write8, blit, le16]
    | 1 => simp [write16, write8, blit, le16]
    | i + 2 =>
      rw [write16_of_disjoint _ _ (by omega), blit_of_disjoint _ _ (by simp [le16])]

/-- The first word of a run of bytes. -/
theorem slice_word (m : Mem) (a n : Nat) :
    m.slice a (2 + n) = le16 (m.read16 a) ++ m.slice (a + 2) n := by
  have hWord : m.slice a 2 = le16 (m.read16 a) := by
    rw [read16, le16_of_bytes]
    simp [slice, List.range_succ]
  rw [slice_add, hWord]

/-! ## Windows -/

/-- The memory seen from `b` on: an array that starts there, indexed from 0. -/
def view (m : Mem) (b : Nat) : Mem := fun x => m (b + x)

theorem slice_view (m : Mem) (b a n : Nat) : (m.view b).slice a n = m.slice (b + a) n := by
  simp [slice, view, Nat.add_assoc]

theorem view_blit (m : Mem) (b a : Nat) (bs : List UInt8) :
    (m.blit (b + a) bs).view b = (m.view b).blit a bs := by
  funext x
  simp [view, blit, Nat.add_sub_add_left]

end Mem

end SysLib
