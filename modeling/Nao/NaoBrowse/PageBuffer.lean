import Nao.NaoBrowse.Requests

/-!
# NaoBrowse — the page buffer

The chunks of one response, in the order of the callbacks. A chunk that does not fit is dropped
as a whole, and a later one that is shorter may still be stored; then bytes are missing in the
middle of the page.

* `holds_receive` — the buffer holds the chunks that fitted, followed by zeros.
* `stored_initial` — without a gap this is an initial part of the response.
* `page_buffer` — whether there is a gap is decided by the lengths of the chunks alone, and a
  sequence of lengths with a gap spoils the page for some contents.
-/

namespace Nao.NaoBrowse

open SysLib

-- ---------------------------------------------------------------------------
-- Receiving chunks
-- ---------------------------------------------------------------------------

/-- The bytes a callback brings. -/
def bytesOf : Option Pbuf → List UInt8
  | none => []
  | some p => p.payload

/-- `naobrowse_http_body_cb` for one chunk after the other. -/
def receive (b : Browser) (chunks : List (Option Pbuf)) : Browser :=
  chunks.foldl (fun b p => naobrowseHttpBodyCb p b) b

/-- The response so far. -/
def received (chunks : List (Option Pbuf)) : List UInt8 := chunks.flatMap bytesOf

/-- `raw_html_buffer[0 .. content_len)`. -/
def Browser.page (b : Browser) : List UInt8 := b.rawHtmlBuffer.slice 0 b.contentLen

/-- The page with a further chunk, which is dropped if it does not fit. -/
def extend (page bytes : List UInt8) : List UInt8 :=
  if page.length + bytes.length < maxPageStorage - 1 then page ++ bytes else page

/-- The chunks that fitted. -/
def stored (chunks : List (Option Pbuf)) : List UInt8 :=
  chunks.foldl (fun page p => extend page (bytesOf p)) []

theorem receive_concat (b : Browser) (chunks : List (Option Pbuf)) (p : Option Pbuf) :
    receive b (chunks ++ [p]) = naobrowseHttpBodyCb p (receive b chunks) := by
  simp [receive]

@[simp] theorem received_concat (chunks : List (Option Pbuf)) (p : Option Pbuf) :
    received (chunks ++ [p]) = received chunks ++ bytesOf p := by
  simp [received]

theorem stored_concat (chunks : List (Option Pbuf)) (p : Option Pbuf) :
    stored (chunks ++ [p]) = extend (stored chunks) (bytesOf p) := by
  simp [stored]

theorem length_extend_lt {page bytes : List UInt8} (h : page.length < maxPageStorage - 1) :
    (extend page bytes).length < maxPageStorage - 1 := by
  unfold extend
  split
  · next hFits => rwa [List.length_append]
  · exact h

theorem length_stored_lt (chunks : List (Option Pbuf)) :
    (stored chunks).length < maxPageStorage - 1 := by
  induction chunks using List.reverseRecOn with
  | nil => decide
  | append_singleton chunks p ih =>
    rw [stored_concat]
    exact length_extend_lt ih

/-- A chunk that does not fit leaves the buffer alone. -/
theorem bodyCb_shared_of_full {p : Pbuf} {b : Browser}
    (hFull : ¬ b.contentLen + p.payload.length < maxPageStorage - 1) :
    (naobrowseHttpBodyCb (some p) b).shared = b.shared := by
  unfold naobrowseHttpBodyCb
  dsimp only
  rw [if_neg (by exact hFull)]
  rfl

theorem bodyCb_holds_extend {page : List UInt8} {b : Browser} (hPage : Holds page b)
    (p : Option Pbuf) : Holds (extend page (bytesOf p)) (naobrowseHttpBodyCb p b) := by
  cases p with
  | none =>
    rw [bytesOf, extend, List.append_nil, ite_self]
    exact hPage
  | some p =>
    rw [bytesOf, extend]
    split
    · next hFits => exact bodyCb_holds hPage (by rwa [List.length_append])
    · next hFull =>
      rw [← hPage.2] at hFull
      have hKept := bodyCb_shared_of_full hFull
      simp only [Browser.shared, Prod.mk.injEq] at hKept
      exact ⟨hKept.1.trans hPage.1, hKept.2.1.trans hPage.2⟩

theorem holds_receive {b : Browser} (hEmpty : Holds [] b) (chunks : List (Option Pbuf)) :
    Holds (stored chunks) (receive b chunks) := by
  induction chunks using List.reverseRecOn with
  | nil => exact hEmpty
  | append_singleton chunks p ih =>
    rw [receive_concat, stored_concat]
    exact bodyCb_holds_extend ih p

theorem Holds.page {page : List UInt8} {b : Browser} (h : Holds page b) : b.page = page := by
  rw [Browser.page, h.1, h.2, Mem.slice_blit]

/-- The buffer is zero behind the page. -/
theorem Holds.terminated {page : List UInt8} {b : Browser} (h : Holds page b) :
    b.rawHtmlBuffer b.contentLen = 0 := by
  rw [h.1, h.2, Mem.blit_of_disjoint _ _ (.inr (Nat.zero_add _).le)]
  rfl

-- ---------------------------------------------------------------------------
-- Lengths
-- ---------------------------------------------------------------------------

def lengths (chunks : List (Option Pbuf)) : List Nat := chunks.map fun p => (bytesOf p).length

/-- How much is stored of chunks with these lengths. -/
def storedLen (ls : List Nat) : Nat :=
  ls.foldl (fun n l => if n + l < maxPageStorage - 1 then n + l else n) 0

/-- No bytes are stored once a chunk has been dropped. -/
def Gapless : List Nat → Prop :=
  Throughout fun pre l => storedLen pre < pre.sum → storedLen pre + l < maxPageStorage - 1 → l = 0

theorem lengths_concat (chunks : List (Option Pbuf)) (p : Option Pbuf) :
    lengths (chunks ++ [p]) = lengths chunks ++ [(bytesOf p).length] := by
  simp [lengths]

theorem length_received (chunks : List (Option Pbuf)) :
    (received chunks).length = (lengths chunks).sum := by
  simp [received, lengths, List.length_flatMap]

theorem length_stored (chunks : List (Option Pbuf)) :
    (stored chunks).length = storedLen (lengths chunks) := by
  induction chunks using List.reverseRecOn with
  | nil => rfl
  | append_singleton chunks p ih =>
    rw [stored_concat, lengths_concat, storedLen, List.foldl_concat, ← storedLen, ← ih, extend]
    split
    · exact List.length_append
    · rfl

/-- As long as everything fits, everything is stored. -/
theorem stored_of_fits {chunks : List (Option Pbuf)}
    (hFits : (received chunks).length < maxPageStorage - 1) : stored chunks = received chunks := by
  induction chunks using List.reverseRecOn with
  | nil => rfl
  | append_singleton chunks p ih =>
    rw [received_concat, List.length_append] at hFits
    rw [stored_concat, ih (by omega), extend, if_pos hFits, received_concat]

theorem stored_initial {chunks : List (Option Pbuf)} (h : Gapless (lengths chunks)) :
    stored chunks <+: received chunks := by
  induction chunks using List.reverseRecOn with
  | nil => exact List.prefix_refl _
  | append_singleton chunks p ih =>
    rw [lengths_concat] at h
    obtain ⟨hBefore, hGap⟩ := throughout_concat.mp h
    have hPrefix := ih hBefore
    rw [← length_stored, ← length_received] at hGap
    rw [stored_concat, received_concat, extend]
    split
    · next hFits =>
      rcases hPrefix.length_le.lt_or_eq with hLost | hAll
      · rw [List.eq_nil_of_length_eq_zero (hGap hLost hFits), List.append_nil, List.append_nil]
        exact hPrefix
      · exact ⟨[], by rw [List.append_nil, hPrefix.eq_of_length hAll]⟩
    · exact hPrefix.trans (List.prefix_append _ _)

-- ---------------------------------------------------------------------------
-- Gaps
-- ---------------------------------------------------------------------------

/-- A chunk of the same length, all of one byte. -/
def paint (v : UInt8) : Option Pbuf → Option Pbuf :=
  Option.map fun p =>
    { payload := List.replicate p.payload.length v, tot_lt := by simpa using p.tot_lt }

theorem bytesOf_paint (v : UInt8) (p : Option Pbuf) :
    bytesOf (paint v p) = List.replicate (bytesOf p).length v := by
  cases p <;> rfl

theorem lengths_map_paint (v : UInt8) (chunks : List (Option Pbuf)) :
    lengths (chunks.map (paint v)) = lengths chunks := by
  simp [lengths, bytesOf_paint]

/-- If a chunk is stored after bytes have been lost, the page is wrong for some contents: all
zeros up to that chunk, which is all ones. -/
theorem gap_spoils {pre : List (Option Pbuf)} {p : Option Pbuf}
    (hLost : storedLen (lengths pre) < (lengths pre).sum)
    (hFits : storedLen (lengths pre) + (bytesOf p).length < maxPageStorage - 1)
    (hSome : (bytesOf p).length ≠ 0) :
    ¬ stored (pre.map (paint 0) ++ [paint 1 p]) <+: received (pre.map (paint 0) ++ [paint 1 p]) := by
  have hLen : (stored (pre.map (paint 0))).length = storedLen (lengths pre) := by
    rw [length_stored, lengths_map_paint]
  have hZero : ∀ v ∈ received (pre.map (paint 0)), v = 0 := by
    simp only [received, List.flatMap_map, bytesOf_paint, List.mem_flatMap]
    rintro v ⟨q, -, hv⟩
    exact List.eq_of_mem_replicate hv
  rw [stored_concat, extend, hLen, bytesOf_paint, List.length_replicate, if_pos hFits,
    received_concat, bytesOf_paint]
  intro hPrefix
  -- the byte behind the stored zeros is a one, that of the response still a zero
  have hIn : storedLen (lengths pre) < (received (pre.map (paint 0))).length := by
    rwa [length_received, lengths_map_paint]
  have hByte := hPrefix.getElem (i := storedLen (lengths pre)) (by
    rw [List.length_append, List.length_replicate, hLen]
    omega)
  rw [List.getElem_append_right (by omega), List.getElem_replicate,
    List.getElem_append_left hIn, hZero _ (List.getElem_mem hIn)] at hByte
  exact absurd hByte (by decide)

theorem gapless_of_initial {chunks : List (Option Pbuf)}
    (h : ∀ chunks', lengths chunks' = lengths chunks →
      ∀ pre, pre <+: chunks' → stored pre <+: received pre) : Gapless (lengths chunks) := by
  intro ls l ls' hSplit hLost hFits
  by_contra hSome
  obtain ⟨pre, rest, rfl, rfl, hRest⟩ := List.map_eq_append_iff.mp hSplit
  obtain ⟨p, post, rfl, rfl, rfl⟩ := List.map_eq_cons_iff.mp hRest
  refine @gap_spoils pre p hLost hFits hSome
    (h (pre.map (paint 0) ++ [paint 1 p] ++ post) ?_ _ (List.prefix_append _ _))
  simp [lengths, bytesOf_paint]

-- ---------------------------------------------------------------------------
-- The theorem
-- ---------------------------------------------------------------------------

/--
**The page buffer.** After a navigation, for every sequence of chunks: `content_len` is at most
16382 and the byte behind the page is 0; a response of at most 16382 bytes is in the buffer as
a whole, however it was split. And after every callback the buffer holds an initial part of the
response, whatever its bytes are, if and only if the lengths of the chunks are such that
nothing is stored after a chunk was dropped.
-/
theorem page_buffer (url : List UInt8) (save : Bool) (error : BitVec 8) (b : Browser) :
    (∀ chunks, (receive (naobrowseNavigateTo url save error b) chunks).contentLen ≤ 16382 ∧
      (receive (naobrowseNavigateTo url save error b) chunks).rawHtmlBuffer
        (receive (naobrowseNavigateTo url save error b) chunks).contentLen = 0) ∧
    (∀ chunks, (received chunks).length ≤ 16382 →
      (receive (naobrowseNavigateTo url save error b) chunks).page = received chunks) ∧
    (∀ chunks chunks', received chunks = received chunks' → (received chunks).length ≤ 16382 →
      (receive (naobrowseNavigateTo url save error b) chunks).rawHtmlBuffer =
        (receive (naobrowseNavigateTo url save error b) chunks').rawHtmlBuffer) ∧
    ∀ chunks, (∀ chunks', lengths chunks' = lengths chunks → ∀ pre, pre <+: chunks' →
        (receive (naobrowseNavigateTo url save error b) pre).page <+: received pre) ↔
      Gapless (lengths chunks) := by
  have hHolds := holds_receive (navigateTo_holds url save error b)
  have hMax : maxPageStorage - 1 = 16383 := rfl
  refine ⟨?_, ?_, ?_, ?_⟩
  · intro chunks
    have hLt := length_stored_lt chunks
    refine ⟨?_, (hHolds chunks).terminated⟩
    rw [(hHolds chunks).2]
    omega
  · intro chunks hFits
    rw [(hHolds chunks).page, stored_of_fits (by omega)]
  · intro chunks chunks' hSame hFits
    rw [(hHolds chunks).1, (hHolds chunks').1, stored_of_fits (by omega),
      stored_of_fits (by rw [← hSame]; omega), hSame]
  · intro chunks
    simp only [(hHolds _).page]
    refine ⟨gapless_of_initial, ?_⟩
    rintro hGapless chunks' hLengths pre ⟨post, rfl⟩
    apply stored_initial
    rw [← hLengths, lengths, List.map_append] at hGapless
    exact hGapless.of_append

theorem stored_of_dropped {p q : Pbuf} (hp : ¬ p.payload.length < maxPageStorage - 1)
    (hq : q.payload.length < maxPageStorage - 1) : stored [some p, some q] = q.payload := by
  have hDropped : extend [] p.payload = [] := if_neg (by simpa using hp)
  show extend (extend [] p.payload) q.payload = q.payload
  rw [hDropped]
  exact if_pos (by simpa using hq)

/-- A chunk of letters `a`, one byte too long for the buffer. -/
def tooLong : Pbuf :=
  { payload := List.replicate 16383 97, tot_lt := by rw [List.length_replicate]; decide }

/-- A response of 16383 letters `a` and one `b`: the page is `b`. -/
theorem page_buffer_gap :
    (receive (naobrowseNavigateTo [] true 0 initNaobrowse) [some tooLong, some (letterPage 98)]).page =
        [98] ∧
      ¬ [98] <+: received [some tooLong, some (letterPage 98)] := by
  have hLen : tooLong.payload.length = 16383 := List.length_replicate
  have hHead : tooLong.payload.head? = some 97 := List.head?_replicate.trans (if_neg (by decide))
  have hStored : stored [some tooLong, some (letterPage 98)] = [98] :=
    stored_of_dropped (by rw [hLen]; decide) (by decide)
  refine ⟨by rw [(holds_receive (navigateTo_holds ..) _).page, hStored], ?_⟩
  rintro ⟨rest, hEq⟩
  have hFirst := congrArg List.head? hEq
  rw [received, List.flatMap_cons, bytesOf, List.head?_append, List.head?_append, hHead] at hFirst
  exact absurd (Option.some.inj hFirst) (by decide)

end Nao.NaoBrowse
