import Nao.HttpClient.Response
import Nao.Kernel.Format
import Nao.Lib.Bits

/-!
# The HTTP client — parsing what has arrived

A `Message` is a response as a server writes it: a status line with two spaces, header lines, a
content length or none, and a body. `text` is what is sent, and the client sees growing prefixes of
it.

* `parseStatus_arrived`, `parseStatus_missing` — the status line is read as soon as its end is
  there, and not before.
* `waitHeaders_arrived`, `waitHeaders_missing` — the same for the header, whose content length is
  the one of the message.

In all four the number that is copied fits into its array.
-/

namespace Nao.HttpClient

open SysLib Kernel Lwip Lwip.Chain

-- ---------------------------------------------------------------------------
-- Numbers
-- ---------------------------------------------------------------------------

theorem isDigit_of_mem_decimal {val : Nat} (h : val < 2 ^ 31) {c : UInt8} (hc : c ∈ decimal val) :
    0x30 ≤ c.toNat ∧ c.toNat < 0x3A := by
  by_cases hZero : val = 0
  · subst hZero
    obtain rfl : c = 0x30 := List.mem_singleton.mp hc
    decide
  · rw [decimal_eq hZero h, List.mem_reverse, List.mem_map] at hc
    obtain ⟨d, hd, rfl⟩ := hc
    have hLt : d < 10 := Nat.digits_lt_base (by decide) hd
    rw [toNat_digitChar hLt]
    omega

theorem length_decimal_le_five {val : Nat} (h : val < 2 ^ 16) : (decimal val).length ≤ 5 := by
  by_cases hZero : val = 0
  · subst hZero
    decide
  · rw [decimal_eq hZero (by omega), List.length_reverse, List.length_map,
      Nat.digits_length_le_iff (by decide)]
    omega

/-- A number that ends in its array is read. -/
theorem atoi_decimal {val : Nat} (h : val < 2 ^ 31) {n : Nat} (hn : 0 < n) :
    atoi (decimal val ++ List.replicate n 0) = some (.ofNat 32 val) := by
  obtain ⟨n, rfl⟩ := Nat.exists_eq_add_of_lt hn
  rw [Nat.zero_add, List.replicate_succ, atoi, strtol_decimal h (by decide)]

/-- A number of the text that fits into its array. -/
theorem readNumber_decimal {p : Chain} {val offset : Nat} (h : val < 2 ^ 31) (size : Nat)
    (hFits : (decimal val).length < size)
    (hAt : OccursAt (decimal val) p.flatten offset) :
    readNumber p size (decimal val).length (decimal val).length offset
      = some (some (.ofNat 32 val)) := by
  have hCopied : p.pbufCopyPartial (decimal val).length offset = decimal val := by
    rw [pbufCopyPartial_eq, occursAt_iff.mp hAt]
  rw [readNumber, hCopied, if_neg (by omega), if_pos rfl, atoi_decimal h (by omega), Option.map_some]

-- ---------------------------------------------------------------------------
-- Messages
-- ---------------------------------------------------------------------------

def crlf : List UInt8 := lit "\r\n"

structure Message where
  major         : Nat
  minor         : Nat
  status        : Nat
  reason        : List UInt8
  before        : List (List UInt8)
  contentLength : Option Nat
  after         : List (List UInt8)
  body          : List UInt8

namespace Message

variable (m : Message)

def version : List UInt8 := lit "HTTP/" ++ [digitChar m.major] ++ lit "." ++ [digitChar m.minor]

def statusLine : List UInt8 := m.version ++ lit " " ++ decimal m.status ++ lit " " ++ m.reason

def contentLengthLine : List (List UInt8) :=
  m.contentLength.toList.map fun n : Nat => lit "Content-Length: " ++ decimal n

def lines : List (List UInt8) := m.before ++ m.contentLengthLine ++ m.after

/-- Everything up to the empty line. -/
def head : List UInt8 := m.statusLine ++ crlf ++ (m.lines.flatMap (· ++ crlf) ++ crlf)

def text : List UInt8 := m.head ++ m.body

/-- Where the line with the content length begins, if there is one. -/
def contentLengthAt : Nat := (m.statusLine ++ crlf ++ m.before.flatMap (· ++ crlf)).length

/-- What makes a response one that can be read: the lines are lines, the numbers fit, and the name
of the content length stands nowhere before its line, and nowhere at all if there is none. -/
structure Proper : Prop where
  major_lt      : m.major < 10
  minor_lt      : m.minor < 10
  status_pos    : 0 < m.status
  status_lt     : m.status < 2 ^ 16
  reason_line   : 0x0D ∉ m.reason
  lines_proper  : ∀ l ∈ m.before ++ m.after, l ≠ [] ∧ 0x0D ∉ l
  length_lt     : ∀ n ∈ m.contentLength, n < 2 ^ 31
  unambiguous   : ∀ i, OccursAt (lit "Content-Length: ") m.text i →
    m.contentLength.isSome ∧ m.contentLengthAt ≤ i

/-- What the client makes of the version. -/
def versionWord : BitVec 16 := BitVec.ofNat 16 m.major <<< 8 ||| BitVec.ofNat 16 m.minor

/-- What the client makes of the content length. -/
def contentLengthWord : BitVec 32 := (m.contentLength.map (BitVec.ofNat 32)).getD httpcContentLenInvalid

variable {m}

theorem length_version : m.version.length = 8 := rfl

-- ---------------------------------------------------------------------------
-- Where the parts of the text stand
-- ---------------------------------------------------------------------------

theorem Proper.statusLine_line (h : m.Proper) : 0x0D ∉ m.statusLine := by
  have hStatus : (0x0D : UInt8) ∉ decimal m.status := fun hMem => by
    have := isDigit_of_mem_decimal (by have := h.status_lt; omega) hMem
    exact absurd this.1 (by decide)
  have hDigit : ∀ d < 10, digitChar d ≠ 0x0D := by decide
  have hMajor := (hDigit _ h.major_lt).symm
  have hMinor := (hDigit _ h.minor_lt).symm
  simp [statusLine, version, lit, hStatus, hMajor, hMinor, h.reason_line]

theorem Proper.lines_line (h : m.Proper) : ∀ l ∈ m.lines, l ≠ [] ∧ 0x0D ∉ l := by
  intro l hl
  rw [lines, List.append_assoc, List.mem_append, List.mem_append] at hl
  rcases hl with hl | hl | hl
  · exact h.lines_proper l (List.mem_append_left _ hl)
  · rw [contentLengthLine, List.mem_map] at hl
    obtain ⟨n, hn, rfl⟩ := hl
    have hNum : (0x0D : UInt8) ∉ decimal n := fun hMem => by
      have := isDigit_of_mem_decimal (h.length_lt n (by simpa using hn)) hMem
      exact absurd this.1 (by decide)
    simp [lit, hNum]
  · exact h.lines_proper l (List.mem_append_right _ hl)

/-- The first line ends behind the status line. -/
theorem Proper.firstAt_end1 (h : m.Proper) : FirstAt (lit "\r\n") m.text 0 m.statusLine.length := by
  have hFirst := firstAt_of_notMem [0x0A] [] m.statusLine h.statusLine_line
    (m.lines.flatMap (· ++ crlf) ++ crlf ++ m.body)
  rw [List.length_nil, Nat.zero_add, List.nil_append] at hFirst
  rw [text, head, List.append_assoc, List.append_assoc]
  exact hFirst

/-- The text from the status on. -/
theorem text_eq : m.text = m.version ++ (lit " " ++ (decimal m.status ++ (lit " "
    ++ (m.reason ++ crlf ++ (m.lines.flatMap (· ++ crlf) ++ crlf) ++ m.body)))) := by
  simp only [text, head, statusLine, List.append_assoc]

theorem Proper.space_notMem_version (h : m.Proper) : 0x20 ∉ m.version := by
  have hDigit : ∀ d < 10, digitChar d ≠ 0x20 := by decide
  have hMajor := (hDigit _ h.major_lt).symm
  have hMinor := (hDigit _ h.minor_lt).symm
  simp [version, lit, hMajor, hMinor]

theorem Proper.firstAt_space1 (h : m.Proper) : FirstAt (lit " ") m.text 0 8 := by
  have hFirst := firstAt_of_notMem [] [] m.version h.space_notMem_version
    (decimal m.status ++ (lit " "
      ++ (m.reason ++ crlf ++ (m.lines.flatMap (· ++ crlf) ++ crlf) ++ m.body)))
  rw [List.length_nil, Nat.zero_add, List.nil_append, length_version] at hFirst
  rw [text_eq]
  exact hFirst

theorem Proper.firstAt_space2 (h : m.Proper) :
    FirstAt (lit " ") m.text 9 (9 + (decimal m.status).length) := by
  have hDigits : (0x20 : UInt8) ∉ decimal m.status := fun hMem => by
    have := isDigit_of_mem_decimal (by have := h.status_lt; omega) hMem
    exact absurd this.1 (by decide)
  have hFirst := firstAt_of_notMem [] (m.version ++ lit " ") (decimal m.status) hDigits
    (m.reason ++ crlf ++ (m.lines.flatMap (· ++ crlf) ++ crlf) ++ m.body)
  rw [List.length_append, length_version, List.append_assoc] at hFirst
  rw [text_eq]
  exact hFirst

theorem occursAt_status : OccursAt (decimal m.status) m.text 9 := by
  have h := occursAt_append_right (m.version ++ lit " ") (decimal m.status)
    (lit " " ++ (m.reason ++ crlf ++ (m.lines.flatMap (· ++ crlf) ++ crlf) ++ m.body))
  rw [List.length_append, length_version, List.append_assoc] at h
  rw [text_eq]
  exact h

theorem length_statusLine :
    m.statusLine.length = 10 + (decimal m.status).length + m.reason.length := by
  simp only [statusLine, List.length_append, length_version]
  simp [lit]
  omega

theorem Proper.firstAt_end (h : m.Proper) :
    FirstAt (lit "\r\n\r\n") m.text 0
      (m.statusLine.length + (m.lines.flatMap (· ++ crlf)).length) := by
  have hFirst := firstAt_blank_line (show (0x0D : UInt8) ≠ 0x0A by decide) h.statusLine_line
    h.lines_line m.body
  rw [text, head, List.append_assoc, List.append_assoc (List.flatMap _ _)]
  exact hFirst

theorem length_head : m.head.length
    = m.statusLine.length + (m.lines.flatMap (· ++ crlf)).length + (lit "\r\n\r\n").length := by
  have hCrlf : crlf.length = 2 := rfl
  have hPat : (lit "\r\n\r\n").length = 4 := rfl
  rw [head, List.length_append, List.length_append, List.length_append, hCrlf, hPat]
  omega

/-- The text around the content length. -/
theorem text_eq_contentLength {n : Nat} (hLength : m.contentLength = some n) :
    m.text = m.statusLine ++ crlf ++ m.before.flatMap (· ++ crlf)
      ++ ((lit "Content-Length: " ++ decimal n)
        ++ (crlf ++ (m.after.flatMap (· ++ crlf) ++ crlf ++ m.body))) := by
  simp only [text, head, lines, contentLengthLine, hLength, Option.toList_some, List.map_cons,
    List.map_nil, List.flatMap_append, List.flatMap_cons, List.flatMap_nil, List.append_assoc,
    List.nil_append]

theorem contentLength_le_head {n : Nat} (hLength : m.contentLength = some n) :
    m.contentLengthAt + 16 + (decimal n).length + 2 ≤ m.head.length := by
  have hText := congrArg List.length (text_eq_contentLength hLength)
  have hCrlf : crlf.length = 2 := rfl
  have hName : (lit "Content-Length: ").length = 16 := rfl
  simp only [text, contentLengthAt, List.length_append, hCrlf, hName] at hText ⊢
  omega

theorem Proper.firstAt_contentLength (h : m.Proper) {n : Nat} (hLength : m.contentLength = some n) :
    FirstAt (lit "Content-Length: ") m.text 0 m.contentLengthAt where
  start_le := Nat.zero_le _
  occurs := by
    rw [text_eq_contentLength hLength, List.append_assoc (lit "Content-Length: ")]
    exact occursAt_append_right _ _ _
  first j _ hj hOccurs := by
    have := (h.unambiguous j hOccurs).2
    omega

theorem Proper.firstAt_lineEnd (h : m.Proper) {n : Nat} (hLength : m.contentLength = some n) :
    FirstAt (lit "\r\n") m.text m.contentLengthAt
      (m.contentLengthAt + (16 + (decimal n).length)) := by
  have hLine : (0x0D : UInt8) ∉ lit "Content-Length: " ++ decimal n :=
    (h.lines_line _ (by simp [lines, contentLengthLine, hLength])).2
  have hFirst := firstAt_of_notMem [0x0A]
    (m.statusLine ++ crlf ++ m.before.flatMap (· ++ crlf)) _ hLine
    (m.after.flatMap (· ++ crlf) ++ crlf ++ m.body)
  have hLen : (lit "Content-Length: " ++ decimal n).length = 16 + (decimal n).length :=
    List.length_append
  rw [hLen] at hFirst
  rw [text_eq_contentLength hLength]
  exact hFirst

theorem occursAt_contentLength {n : Nat} (hLength : m.contentLength = some n) :
    OccursAt (decimal n) m.text (m.contentLengthAt + 16) := by
  have h := occursAt_append_right
    (m.statusLine ++ crlf ++ m.before.flatMap (· ++ crlf) ++ lit "Content-Length: ") (decimal n)
    (crlf ++ (m.after.flatMap (· ++ crlf) ++ crlf ++ m.body))
  rw [List.length_append, List.append_assoc, ← List.append_assoc (lit "Content-Length: "),
    ← text_eq_contentLength hLength] at h
  exact h

-- ---------------------------------------------------------------------------
-- The status line
-- ---------------------------------------------------------------------------

section Arrived

variable {p : Chain} (hp : p.flatten <+: m.text) (hLen : p.flatten.length < 2 ^ 16)
include hp hLen

omit hLen in
theorem occursAt_arrived {pat : List UInt8} {i : Nat} (hOccurs : OccursAt pat m.text i)
    (hIn : i + pat.length ≤ p.flatten.length) : OccursAt pat p.flatten i := by
  obtain ⟨more, hMore⟩ := hp
  rw [← hMore] at hOccurs
  exact hOccurs.of_append hIn

/-- A search in what has arrived. -/
theorem memfind_arrived {pat : List UInt8} {start i : Nat} (hPat : pat ≠ [])
    (hFirst : FirstAt pat m.text start i) (hIn : i + pat.length ≤ p.flatten.length) :
    p.pbufMemfind pat start = i := by
  obtain ⟨more, hMore⟩ := hp
  rw [← hMore] at hFirst
  exact pbufMemfind_of_firstAt hLen hPat (hFirst.of_append hIn)

theorem memfind_missing {pat : List UInt8} {start i : Nat} (hPat : pat ≠ [])
    (hFirst : FirstAt pat m.text start i) (hOut : p.flatten.length < i + pat.length) :
    p.pbufMemfind pat start = 0xFFFF := by
  obtain ⟨more, hMore⟩ := hp
  rw [← hMore] at hFirst
  exact pbufMemfind_of_absent hLen hPat (hFirst.absent_of_append hPat hOut)

theorem parseStatus_missing (h : m.Proper) (hEnd : p.flatten.length < m.statusLine.length + 2)
    (version status : BitVec 16) :
    httpParseResponseStatus p version status = some (false, version, status) := by
  have hEnd1 := memfind_missing hp hLen (by decide) h.firstAt_end1 hEnd
  rw [httpParseResponseStatus]
  simp only [hEnd1, ne_eq, not_true_eq_false, false_and, if_false]

omit hLen in
theorem getAt_version {i : Nat} (hi : i < 8) (hIn : i < p.flatten.length) :
    p.pbufGetAt i = (m.version[i]?).getD 0 := by
  obtain ⟨more, hMore⟩ := hp
  have hText : p.flatten[i]? = m.text[i]? := by rw [← hMore, List.getElem?_append_left hIn]
  rw [pbufGetAt_eq, hText, text_eq, List.getElem?_append_left (by rwa [length_version])]

theorem parseStatus_arrived (h : m.Proper) (hEnd : m.statusLine.length + 2 ≤ p.flatten.length)
    (version status : BitVec 16) :
    httpParseResponseStatus p version status
      = some (true, m.versionWord, .ofNat 16 m.status) := by
  have hLine := length_statusLine (m := m)
  have hStatus := h.status_lt
  have hDigits := length_decimal_le_five h.status_lt
  have hEnd1 := memfind_arrived hp hLen (by decide) h.firstAt_end1 hEnd
  have hSpace1 := memfind_arrived hp hLen (by decide) h.firstAt_space1
    (by rw [show (lit " ").length = 1 from rfl]; omega)
  have hSpace2 := memfind_arrived hp hLen (by decide) h.firstAt_space2
    (by rw [show (lit " ").length = 1 from rfl]; omega)
  have hName : p.pbufMemcmp 0 (lit "HTTP/") = 0 := by
    rw [pbufMemcmp_eq_zero_iff hLen (by decide)]
    refine occursAt_arrived hp ?_ (by rw [show (lit "HTTP/").length = 5 from rfl]; omega)
    rw [text_eq]
    exact ⟨_, rfl⟩
  have hDot : p.pbufGetAt 6 = 0x2E := getAt_version hp (by decide) (by omega)
  have hMajor : p.pbufGetAt 5 = digitChar m.major := getAt_version hp (by decide) (by omega)
  have hMinor : p.pbufGetAt 7 = digitChar m.minor := getAt_version hp (by decide) (by omega)
  have hDigit : ∀ d < 10, (digitChar d).toBitVec.setWidth 16 - 0x30 = BitVec.ofNat 16 d := by decide
  have hNumLen : (BitVec.ofNat 32 (9 + (decimal m.status).length) - BitVec.ofNat 32 8 - 1).toNat
      = (decimal m.status).length := by
    have : ∀ k ≤ 5, (BitVec.ofNat 32 (9 + k) - BitVec.ofNat 32 8 - 1).toNat = k := by decide
    exact this _ hDigits
  have hAt := occursAt_arrived hp occursAt_status (by omega)
  have hRead := readNumber_decimal (by omega) 10 (by omega) hAt
  have hInt := toInt_ofNat_of_lt (n := m.status) (by omega)
  rw [httpParseResponseStatus]
  simp only [hEnd1, hSpace1, hSpace2, hName, hDot, hMajor, hMinor, hDigit _ h.major_lt,
    hDigit _ h.minor_lt]
  rw [if_pos ⟨by omega, by decide, trivial, trivial⟩, if_pos (by omega), hNumLen,
    Nat.mod_eq_of_lt (by omega), hRead, Option.map_some]
  simp only [hInt]
  rw [if_pos (by have := h.status_pos; omega), versionWord, BitVec.setWidth_ofNat_of_le (by decide)]

-- ---------------------------------------------------------------------------
-- The header
-- ---------------------------------------------------------------------------

theorem waitHeaders_missing (h : m.Proper) (hEnd : p.flatten.length < m.head.length) :
    httpWaitHeaders p = some none := by
  have hEnd1 := memfind_missing hp hLen (by decide) h.firstAt_end (by rwa [← length_head])
  rw [httpWaitHeaders]
  simp only [hEnd1]
  rfl

/-- The first line that has the name of the content length is that of the message. -/
theorem readContentLength_arrived (h : m.Proper) (hEnd : m.head.length ≤ p.flatten.length) :
    readContentLength p = some m.contentLengthWord := by
  rcases hLength : m.contentLength with _ | n
  · have hAbsent : ∀ j, 0 ≤ j → ¬ OccursAt (lit "Content-Length: ") p.flatten j := by
      intro j _ hOccurs
      obtain ⟨more, hMore⟩ := hp
      have := (h.unambiguous j (hMore ▸ hOccurs.append more)).1
      rw [hLength] at this
      cases this
    rw [readContentLength, pbufMemfind_of_absent hLen (by decide) hAbsent]
    simp [contentLengthWord, hLength]
  · have hn : n < 2 ^ 31 := h.length_lt n hLength
    have hDigits := length_decimal_le hn
    have hHead := contentLength_le_head hLength
    have hHdr := memfind_arrived hp hLen (by decide) (h.firstAt_contentLength hLength)
      (by rw [show (lit "Content-Length: ").length = 16 from rfl]; omega)
    have hLineEnd := memfind_arrived hp hLen (by decide) (h.firstAt_lineEnd hLength)
      (by rw [show (lit "\r\n").length = 2 from rfl]; omega)
    have hNumLen : (BitVec.ofNat 16 (m.contentLengthAt + (16 + (decimal n).length))
        - BitVec.ofNat 16 m.contentLengthAt - 16).toNat = (decimal n).length := by
      rw [BitVec.ofNat_add, BitVec.ofNat_add]
      bv_omega
    have hAt := occursAt_arrived hp (occursAt_contentLength hLength) (by omega)
    have hRead := readNumber_decimal hn 16 (by omega) hAt
    have hValid : 0 ≤ (BitVec.ofNat 32 n).toInt ∧ BitVec.ofNat 32 n < httpcContentLenInvalid := by
      refine ⟨by rw [toInt_ofNat_of_lt hn]; omega, ?_⟩
      rw [httpcContentLenInvalid, BitVec.lt_def, BitVec.toNat_ofNat]
      exact Nat.lt_of_le_of_lt (Nat.mod_le _ _) (by simp; omega)
    rw [readContentLength]
    simp only [hHdr, hLineEnd, hNumLen, hRead]
    rw [if_pos (by omega), if_pos (by omega), Option.map_some]
    simp only [hValid, and_self, if_true, contentLengthWord, hLength, Option.map_some,
      Option.getD_some]

theorem waitHeaders_arrived (h : m.Proper) (hEnd : m.head.length ≤ p.flatten.length) :
    httpWaitHeaders p = some (some (m.contentLengthWord, m.head.length)) := by
  have hEnd1 := memfind_arrived hp hLen (by decide) h.firstAt_end (by rwa [← length_head])
  have hHead := length_head (m := m)
  have hPat : (lit "\r\n\r\n").length = 4 := rfl
  rw [httpWaitHeaders]
  simp only [hEnd1]
  rw [if_pos (by omega), readContentLength_arrived hp hLen h hEnd, Option.map_some,
    Nat.mod_eq_of_lt (by omega), hHead, hPat]

end Arrived

end Message

end Nao.HttpClient
