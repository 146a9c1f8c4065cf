import Nao.HttpClient.Parsing

/-!
# The HTTP client — numbers that do not fit

`http_parse_response_status` copies what stands between the first two spaces of a response into ten
bytes, and `http_wait_headers` the value of the content length into sixteen. Neither looks at how
much it copies. `status_overruns_iff` and `content_length_overruns_iff` say for which responses
they leave their array.

The second space of a response is looked for behind the end of the first line, too. A status line
without a reason, such as `HTTP/1.1 200`, takes the name of the first header line with it.
-/

namespace Nao.HttpClient

open SysLib Kernel Lwip Lwip.Chain

-- ---------------------------------------------------------------------------
-- Reading outside an array
-- ---------------------------------------------------------------------------

def IsDigit (c : UInt8) : Prop := 0x30 ≤ c ∧ c ≤ 0x39

instance (c : UInt8) : Decidable (IsDigit c) := inferInstanceAs (Decidable (_ ∧ _))

/-- A number of `word` that is copied to an array of `size` bytes and read there leaves it. -/
def LeavesArray (size : Nat) (word : List UInt8) : Prop :=
  size < word.length ∨ word.length = size ∧ ∀ c ∈ word, IsDigit c

instance (size : Nat) (word : List UInt8) : Decidable (LeavesArray size word) :=
  inferInstanceAs (Decidable (_ ∨ _))

theorem strtolFrom_rest_eq_nil_iff (result : BitVec 32) (l : List UInt8) :
    (strtolFrom result l).2 = [] ↔ ∀ c ∈ l, IsDigit c := by
  induction l generalizing result with
  | nil => simp [strtolFrom]
  | cons c l ih =>
    rw [strtolFrom, List.forall_mem_cons]
    split
    · next hDigit => rw [ih, and_iff_right (show IsDigit c from hDigit)]
    · next hOther => simp [IsDigit, hOther]

theorem atoi_eq_none_iff (l : List UInt8) : atoi l = none ↔ ∀ c ∈ l, IsDigit c := by
  rw [← strtolFrom_rest_eq_nil_iff 0, atoi, strtol]
  split
  · next h => rw [h]; simp
  · next h => rw [h]; simp

/-- A copy of the asked length runs out of the array, or is read to the end of it. -/
theorem readNumber_eq_none_iff {p : Chain} {word : List UInt8} {offset : Nat}
    (hAt : OccursAt word p.flatten offset) (size : Nat) :
    readNumber p size word.length word.length offset = none ↔ LeavesArray size word := by
  have hCopied : p.pbufCopyPartial word.length offset = word := by
    rw [pbufCopyPartial_eq, occursAt_iff.mp hAt]
  rw [readNumber, hCopied, LeavesArray]
  split
  · next hLong => simp [hLong]
  · next hFits =>
    rw [if_pos rfl, Option.map_eq_none_iff, atoi_eq_none_iff, or_iff_right hFits]
    rcases Nat.lt_or_eq_of_le (Nat.le_of_not_lt hFits) with hlt | heq
    · -- a zero behind the word ends the number
      have hZero : (0 : UInt8) ∈ word ++ List.replicate (size - word.length) 0 := by
        exact List.mem_append_right _ (List.mem_replicate.mpr ⟨by omega, rfl⟩)
      constructor
      · intro hAll
        exact absurd (hAll 0 hZero) (by decide)
      · intro hEnd
        omega
    · simp [heq]

-- ---------------------------------------------------------------------------
-- The status
-- ---------------------------------------------------------------------------

/-- The status of a response that begins with `HTTP/`, a version and `word` between two spaces. -/
theorem status_overruns_iff {p : Chain} {major minor : UInt8} {word rest : List UInt8}
    (hBytes : p.flatten = lit "HTTP/" ++ [major] ++ lit "." ++ [minor]
      ++ (lit " " ++ (word ++ (lit " " ++ rest))))
    (hMajor : major ≠ 0x20) (hMinor : minor ≠ 0x20) (hWord : 0x20 ∉ word)
    {i : Nat} (hLine : OccursAt crlf p.flatten i) (hLen : p.flatten.length < 2 ^ 16)
    (version status : BitVec 16) :
    httpParseResponseStatus p version status = none ↔ LeavesArray 10 word := by
  have hVersion : (0x20 : UInt8) ∉ lit "HTTP/" ++ [major] ++ lit "." ++ [minor] := by
    simp [lit, hMajor.symm, hMinor.symm]
  have hEnd1 : p.pbufMemfind (lit "\r\n") 0 ≠ 0xFFFF := by
    obtain ⟨j, hFirst⟩ := hLine.exists_firstAt (Nat.zero_le i)
    have hIn : j + 2 ≤ p.flatten.length := hFirst.occurs.le_length (by decide)
    have hFound := pbufMemfind_of_firstAt hLen (by decide) hFirst
    rw [crlf] at hFound
    omega
  have hSpace1 : p.pbufMemfind (lit " ") 0 = 8 := by
    refine pbufMemfind_of_firstAt hLen (by decide) ?_
    have hFirst := firstAt_of_notMem [] [] _ hVersion (word ++ (lit " " ++ rest))
    rw [hBytes]
    exact hFirst
  have hSpace2 : p.pbufMemfind (lit " ") (8 + 1) = 9 + word.length := by
    refine pbufMemfind_of_firstAt hLen (by decide) ?_
    have hFirst := firstAt_of_notMem [] (lit "HTTP/" ++ [major] ++ lit "." ++ [minor] ++ lit " ")
      word hWord rest
    rw [List.append_assoc] at hFirst
    rw [hBytes]
    exact hFirst
  have hName : p.pbufMemcmp 0 (lit "HTTP/") = 0 := by
    rw [pbufMemcmp_eq_zero_iff hLen (by decide), hBytes]
    exact ⟨_, rfl⟩
  have hDot : p.pbufGetAt 6 = 0x2E := by
    rw [pbufGetAt_eq, hBytes]
    rfl
  have hIn : 10 + word.length ≤ p.flatten.length := by
    rw [hBytes]
    simp [lit]
    omega
  have hNumLen : (BitVec.ofNat 32 (9 + word.length) - BitVec.ofNat 32 8 - 1).toNat
      = word.length := by
    rw [BitVec.ofNat_add]
    bv_omega
  have hAt : OccursAt word p.flatten 9 := by
    have h := occursAt_append_right (lit "HTTP/" ++ [major] ++ lit "." ++ [minor] ++ lit " ") word
      (lit " " ++ rest)
    rw [List.append_assoc] at h
    rw [hBytes]
    exact h
  rw [httpParseResponseStatus]
  simp only [hSpace1, hSpace2, hName, hDot]
  rw [if_pos ⟨hEnd1, by decide, trivial, trivial⟩, if_pos (by omega), hNumLen,
    Nat.mod_eq_of_lt (by omega), Option.map_eq_none_iff, readNumber_eq_none_iff hAt]

/-- A status line without a reason, and one header line: twelve bytes up to the second space. -/
theorem status_overruns_without_reason :
    httpParseResponseStatus [lit "HTTP/1.1 200\r\nServer: nao\r\n\r\n"] 0 0 = none := by
  have hBytes : List.flatten [lit "HTTP/1.1 200\r\nServer: nao\r\n\r\n"]
      = lit "HTTP/" ++ [0x31] ++ lit "." ++ [0x31]
        ++ (lit " " ++ (lit "200\r\nServer:" ++ (lit " " ++ lit "nao\r\n\r\n"))) := rfl
  exact (status_overruns_iff hBytes (by decide) (by decide) (by decide) (i := 12) (by decide)
    (by decide) 0 0).mpr (by decide)

-- ---------------------------------------------------------------------------
-- The content length
-- ---------------------------------------------------------------------------

/-- A header line holds a line end only if its value does. -/
theorem not_crlf_of_value {value : List UInt8} (hValue : ∀ j, ¬ OccursAt crlf value j) (j : Nat) :
    ¬ OccursAt crlf (lit "Content-Length: " ++ value) j := by
  intro hOccurs
  rcases Nat.lt_or_ge j 16 with hlt | hge
  · have hHead := hOccurs.head
    rw [List.getElem?_append_left hlt] at hHead
    exact absurd (List.mem_of_getElem? hHead) (by decide)
  · obtain ⟨k, rfl⟩ := Nat.exists_eq_add_of_le hge
    exact hValue k ((occursAt_append_left (lit "Content-Length: ")).mp hOccurs)

/-- The content length of a response whose header is complete. -/
theorem content_length_overruns_iff {p : Chain} {front value rest : List UInt8}
    (hBytes : p.flatten = front ++ (lit "Content-Length: " ++ (value ++ (crlf ++ rest))))
    (hFirst : ∀ j < front.length, ¬ OccursAt (lit "Content-Length: ") p.flatten j)
    (hValue : ∀ j, ¬ OccursAt crlf value j) {i : Nat} (hEnd : OccursAt (lit "\r\n\r\n") p.flatten i)
    (hLen : p.flatten.length < 2 ^ 16) :
    httpWaitHeaders p = none ↔ LeavesArray 16 value := by
  have hEnd1 : p.pbufMemfind (lit "\r\n\r\n") 0 < 0xFFFF - 2 := by
    obtain ⟨j, hFirst⟩ := hEnd.exists_firstAt (Nat.zero_le i)
    have hIn : j + 4 ≤ p.flatten.length := hFirst.occurs.le_length (by decide)
    rw [pbufMemfind_of_firstAt hLen (by decide) hFirst]
    omega
  have hIn : front.length + 18 + value.length ≤ p.flatten.length := by
    rw [hBytes]
    simp [lit, crlf]
    omega
  have hHdr : p.pbufMemfind (lit "Content-Length: ") 0 = front.length := by
    refine pbufMemfind_of_firstAt hLen (by decide) ⟨Nat.zero_le _, ?_, fun j _ => hFirst j⟩
    rw [hBytes]
    exact occursAt_append_right _ _ _
  have hLineEnd : p.pbufMemfind (lit "\r\n") front.length = front.length + (16 + value.length) := by
    refine pbufMemfind_of_firstAt hLen (by decide) ?_
    have hFirst := firstAt_of_none (by decide) front _ (not_crlf_of_value hValue) rest
    rw [List.append_assoc, @List.length_append _ (lit _)] at hFirst
    rw [hBytes]
    exact hFirst
  have hNumLen : (BitVec.ofNat 16 (front.length + (16 + value.length))
      - BitVec.ofNat 16 front.length - 16).toNat = value.length := by
    rw [BitVec.ofNat_add, BitVec.ofNat_add]
    bv_omega
  have hAt : OccursAt value p.flatten (front.length + 16) := by
    have h := occursAt_append_right (front ++ lit "Content-Length: ") value (crlf ++ rest)
    rw [List.append_assoc, List.length_append] at h
    rw [hBytes]
    exact h
  rw [httpWaitHeaders, if_pos hEnd1, Option.map_eq_none_iff, readContentLength]
  simp only [hHdr, hLineEnd, hNumLen]
  rw [if_pos (by omega), if_pos (by omega), Option.map_eq_none_iff, readNumber_eq_none_iff hAt]

/-- A content length of seventeen digits. -/
theorem content_length_overruns_long :
    httpWaitHeaders [lit "Content-Length: 00000000000000005\r\n\r\n"] = none := by
  have hBytes : List.flatten [lit "Content-Length: 00000000000000005\r\n\r\n"]
      = [] ++ (lit "Content-Length: " ++ (lit "00000000000000005" ++ (crlf ++ lit "\r\n"))) := rfl
  have hValue : ∀ j, ¬ OccursAt crlf (lit "00000000000000005") j := by
    intro j hOccurs
    exact absurd (List.mem_of_getElem? hOccurs.head) (by decide)
  exact (content_length_overruns_iff hBytes (by simp) hValue (i := 33) (by decide)
    (by decide)).mpr (by decide)

end Nao.HttpClient
