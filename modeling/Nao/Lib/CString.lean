import Nao.Lib.Mem
import Mathlib.Data.List.TakeWhile

/-!
# C strings in byte memory

A C string in an array of `n` bytes is what stands before the first zero byte. A run of
bytes other than zero with a zero behind it is the string (`cstr_eq`), and conversely the
string is such a run (`slice_cstr`).
-/

namespace SysLib.Mem

/-- The C string at the start of an array of `n` bytes. -/
def cstr (m : Mem) (n : Nat) : List UInt8 := (m.slice 0 n).takeWhile (· != 0)

/-- `strlen`. -/
def strlen (m : Mem) (n : Nat) : Nat := (m.cstr n).length

theorem cstr_ne_zero (m : Mem) (n : Nat) : ∀ b ∈ m.cstr n, b ≠ 0 := by
  intro b hb
  simpa using List.mem_takeWhile_imp hb

/-- A string whose first byte is zero is empty, and no other. -/
theorem cstr_eq_nil_iff {m : Mem} {n : Nat} (hn : 0 < n) : m.cstr n = [] ↔ m 0 = 0 := by
  obtain ⟨k, rfl⟩ : ∃ k, n = k + 1 := ⟨n - 1, by omega⟩
  rw [cstr, Nat.add_comm, slice_add]
  show List.takeWhile _ (m 0 :: _) = [] ↔ _
  rw [List.takeWhile_cons]
  split
  · next hByte => simpa using hByte
  · next hByte => simpa using hByte

theorem strlen_le (m : Mem) (n : Nat) : m.strlen n ≤ n := by
  have h := (List.takeWhile_prefix (l := m.slice 0 n) (· != 0)).length_le
  rwa [length_slice] at h

/-- Behind `bytes` stands a zero: the string ends there at the latest. -/
theorem cstr_of_slice {m : Mem} {n : Nat} {bytes : List UInt8}
    (hBytes : m.slice 0 bytes.length = bytes) (hEnd : m bytes.length = 0) (hn : bytes.length < n) :
    m.cstr n = bytes.takeWhile (· != 0) := by
  obtain ⟨k, rfl⟩ : ∃ k, n = bytes.length + (k + 1) := ⟨n - bytes.length - 1, by omega⟩
  have hRest : (m.slice (0 + bytes.length) (k + 1)).takeWhile (· != 0) = [] := by
    rw [Nat.zero_add, Nat.add_comm k 1, slice_add]
    simp [slice, hEnd]
  rw [cstr, slice_add, hBytes, List.takeWhile_append, hRest, List.append_nil]
  split
  · next hAll =>
    exact (List.takeWhile_prefix _).eq_of_length hAll |>.symm
  · rfl

/-- A zero ends the string. -/
theorem strlen_le_of_zero {m : Mem} {n i : Nat} (hi : i < n) (h : m i = 0) : m.strlen n ≤ i := by
  have hCstr : m.cstr n = (m.slice 0 i).takeWhile (· != 0) :=
    cstr_of_slice (by rw [length_slice]) (by rwa [length_slice]) (by rwa [length_slice])
  calc m.strlen n = ((m.slice 0 i).takeWhile (· != 0)).length := congrArg List.length hCstr
    _ ≤ (m.slice 0 i).length := (List.takeWhile_prefix _).length_le
    _ = i := length_slice ..

theorem cstr_eq {m : Mem} {n : Nat} {text : List UInt8} (hText : m.slice 0 text.length = text)
    (hEnd : m text.length = 0) (hn : text.length < n) (hNonzero : ∀ b ∈ text, b ≠ 0) :
    m.cstr n = text := by
  rw [cstr_of_slice hText hEnd hn, List.takeWhile_eq_self_iff]
  simpa using hNonzero

theorem slice_cstr (m : Mem) (n : Nat) : m.slice 0 (m.strlen n) = m.cstr n := by
  have hPrefix := List.takeWhile_prefix (l := m.slice 0 n) (· != 0)
  have hLen := m.strlen_le n
  have hSplit : m.slice 0 n = m.slice 0 (m.strlen n) ++ m.slice (0 + m.strlen n) (n - m.strlen n) := by
    rw [← slice_add, Nat.add_sub_cancel' hLen]
  have hTake : (m.slice 0 n).take (m.strlen n) = m.cstr n := (List.prefix_iff_eq_take.mp hPrefix).symm
  rw [← hTake, hSplit, List.take_left' (length_slice ..)]

end SysLib.Mem
