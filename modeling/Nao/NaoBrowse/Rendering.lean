import Nao.Kernel.Compare
import Nao.NaoBrowse.Requests

/-!
# NaoBrowse — what the rendering engine shows

`naobrowse_render_engine_parse` goes through a page once, with one flag for being inside a tag and
three comparisons that look ahead of it. `visible` says what a page shows position by position;
`strip` is the loop on lists.

* `parseLoop_eq`      — the loop stores `strip` and is never stopped by its capacity test.
* `strip_eq_visible`  — the flag says whether a `<` is open.
* `strip_append`      — no look-ahead reaches out of a page whose tags are closed: each of the three
  tags has its `>` at the very end.
* `html_stripping_compositional` — what is shown, and that pages compose.
* `run_result_text`   — after every history of navigations and callbacks.
-/

namespace Nao.NaoBrowse

open SysLib Kernel

-- ---------------------------------------------------------------------------
-- What a page shows
-- ---------------------------------------------------------------------------

/-- The tags that break the line. -/
def breakTags : List (List UInt8) := [lit "<p>", lit "<br>", lit "</div>"]

/-- One of them stands at the start. -/
def Breaks (s : List UInt8) : Prop := ∃ tag ∈ breakTags, tag <+: s

instance (s : List UInt8) : Decidable (Breaks s) := inferInstanceAs (Decidable (∃ tag ∈ breakTags, tag <+: s))

/-- Behind `before` a tag is open: some `<` of it has no `>` behind it. -/
def InTag (before : List UInt8) : Prop := ∃ pre post, before = pre ++ 0x3C :: post ∧ 0x3E ∉ post

theorem inTag_concat (s : List UInt8) (c : UInt8) :
    InTag (s ++ [c]) ↔ c = 0x3C ∨ c ≠ 0x3E ∧ InTag s := by
  constructor
  · rintro ⟨pre, post, hEq, hPost⟩
    rcases List.eq_nil_or_concat post with rfl | ⟨post, d, rfl⟩
    · exact .inl (List.cons.inj (List.append_inj' hEq rfl).2).1
    · rw [List.concat_eq_append] at hEq hPost
      rw [← List.cons_append, ← List.append_assoc] at hEq
      obtain ⟨rfl, hLast⟩ := List.append_inj' hEq rfl
      obtain rfl : c = d := (List.cons.inj hLast).1
      rw [List.mem_append, not_or] at hPost
      exact .inr ⟨fun hClose => hPost.2 (hClose ▸ List.mem_singleton_self _), pre, post, rfl, hPost.1⟩
  · rintro (rfl | ⟨hClose, pre, post, rfl, hPost⟩)
    · exact ⟨s, [], rfl, List.not_mem_nil⟩
    · refine ⟨pre, post ++ [c], by rw [List.append_assoc, List.cons_append], ?_⟩
      rw [List.mem_append, List.mem_singleton, not_or]
      exact ⟨hPost, Ne.symm hClose⟩

/-- `inside_tag` after one more character. -/
def flag (inside : Bool) (c : UInt8) : Bool :=
  if c = 0x3E then false else if c = 0x3C then true else inside

/-- The flag is right. -/
theorem foldl_flag_iff (s : List UInt8) : s.foldl flag false = true ↔ InTag s := by
  induction s using List.reverseRecOn with
  | nil =>
    refine iff_of_false Bool.false_ne_true ?_
    rintro ⟨pre, post, hEq, -⟩
    exact absurd hEq (by simp)
  | append_singleton s c ih =>
    rw [List.foldl_append, inTag_concat, ← ih]
    show flag _ c = true ↔ _
    unfold flag
    split_ifs <;> simp_all

instance (s : List UInt8) : Decidable (InTag s) := decidable_of_iff _ (foldl_flag_iff s)

/-- What is shown for the first character of `rest`, with `before` in front of it: a newline for a
tag that breaks the line, nothing for other brackets and inside of tags, and the character
itself otherwise. -/
def piece (before : List UInt8) : List UInt8 → List UInt8
  | [] => []
  | c :: rest =>
    if c = 0x3C then if Breaks (c :: rest) then [0x0A] else []
    else if c = 0x3E ∨ InTag before then []
    else [c]

/-- What a page shows. -/
def visible (page : List UInt8) : List UInt8 :=
  (List.range page.length).flatMap fun i => piece (page.take i) (page.drop i)

-- ---------------------------------------------------------------------------
-- Going through it once
-- ---------------------------------------------------------------------------

/-- What a turn of the loop stores. -/
def output (inside : Bool) : List UInt8 → List UInt8
  | [] => []
  | c :: rest =>
    if c = 0x3E then []
    else if c = 0x3C then if Breaks (c :: rest) then [0x0A] else []
    else if inside then [] else [c]

def strip (inside : Bool) : List UInt8 → List UInt8
  | [] => []
  | c :: rest => output inside (c :: rest) ++ strip (flag inside c) rest

theorem length_output_le (inside : Bool) (s : List UInt8) : (output inside s).length ≤ 1 := by
  cases s with
  | nil => exact Nat.zero_le _
  | cons c rest =>
    rw [output]
    split_ifs <;> simp

/-- The characters that are shown. -/
theorem mem_output {inside : Bool} {c d : UInt8} {rest : List UInt8} (h : d ∈ output inside (c :: rest)) :
    d = 0x0A ∨ d = c ∧ c ≠ 0x3C ∧ c ≠ 0x3E := by
  rw [output] at h
  split_ifs at h <;> simp_all

theorem length_strip_le (inside : Bool) (s : List UInt8) : (strip inside s).length ≤ s.length := by
  induction s generalizing inside with
  | nil => exact Nat.le_refl _
  | cons c rest ih =>
    have hFirst := length_output_le inside (c :: rest)
    have hRest := ih (flag inside c)
    rw [strip, List.length_append, List.length_cons]
    omega

theorem mem_strip {inside : Bool} {d : UInt8} {s : List UInt8} (h : d ∈ strip inside s) :
    d = 0x0A ∨ d ∈ s ∧ d ≠ 0x3C ∧ d ≠ 0x3E := by
  induction s generalizing inside with
  | nil => exact absurd h List.not_mem_nil
  | cons c rest ih =>
    rw [strip, List.mem_append] at h
    rcases h with hHere | hRest
    · rcases mem_output hHere with hBreak | ⟨rfl, hBrackets⟩
      · exact .inl hBreak
      · exact .inr ⟨List.mem_cons_self, hBrackets⟩
    · exact (ih hRest).imp_right fun hMem => ⟨List.mem_cons_of_mem _ hMem.1, hMem.2⟩

theorem output_eq_piece (before rest : List UInt8) :
    output (before.foldl flag false) rest = piece before rest := by
  cases rest with
  | nil => rfl
  | cons c rest =>
    have hInside := foldl_flag_iff before
    rw [output, piece]
    split_ifs <;> simp_all

/-- The loop shows what the page shows, position by position. -/
theorem strip_eq_flatMap (before rest : List UInt8) :
    strip (before.foldl flag false) rest
      = (List.range rest.length).flatMap fun i => piece (before ++ rest.take i) (rest.drop i) := by
  induction rest generalizing before with
  | nil => rfl
  | cons c rest ih =>
    have hNext : flag (before.foldl flag false) c = (before ++ [c]).foldl flag false := by
      rw [List.foldl_append]
      rfl
    rw [strip, output_eq_piece, hNext, ih, List.length_cons, List.range_succ_eq_map, List.flatMap_cons,
      List.flatMap_map, List.take_zero, List.append_nil, List.drop_zero]
    simp only [List.take_succ_cons, List.drop_succ_cons, List.append_assoc, List.singleton_append]

theorem strip_eq_visible (page : List UInt8) : strip false page = visible page :=
  strip_eq_flatMap [] page

-- ---------------------------------------------------------------------------
-- Two pages
-- ---------------------------------------------------------------------------

/-- Every `<` is followed by a `>`. -/
def Closed (page : List UInt8) : Prop := ∀ pre post, page = pre ++ 0x3C :: post → 0x3E ∈ post

theorem Closed.tail {c : UInt8} {page : List UInt8} (h : Closed (c :: page)) : Closed page := by
  intro pre post hEq
  exact h (c :: pre) post (by rw [hEq, List.cons_append])

/-- No tag is open at the end. -/
theorem closed_iff {page : List UInt8} : Closed page ↔ ¬ InTag page := by
  constructor
  · rintro h ⟨pre, post, hEq, hPost⟩
    exact hPost (h pre post hEq)
  · intro h pre post hEq
    by_contra hPost
    exact h ⟨pre, post, hEq, hPost⟩

/-- A tag that ends with its only `>` is found in `s`, which has one, or not at all. -/
theorem isPrefix_append_iff {tag s : List UInt8} (hTag : 0x3E ∉ tag.dropLast) (hs : 0x3E ∈ s)
    (t : List UInt8) : tag <+: s ++ t ↔ tag <+: s := by
  constructor
  · intro h
    rcases List.prefix_or_prefix_of_prefix h (List.prefix_append s t) with hIn | hOut
    · exact hIn
    · by_cases hAll : s = tag
      · rw [hAll]
      · -- `s` ends before the last character of the tag
        have hShort : s <+: tag.dropLast := by
          have hLt : s.length < tag.length := by
            have hLe := hOut.length_le
            have hNe : s.length ≠ tag.length := fun hLen => hAll (hOut.eq_of_length hLen)
            omega
          rw [List.dropLast_eq_take, List.prefix_take_iff]
          exact ⟨hOut, by omega⟩
        exact absurd (hShort.subset hs) hTag
  · intro h
    exact h.trans (List.prefix_append s t)

theorem breaks_append_iff {s : List UInt8} (hs : 0x3E ∈ s) (t : List UInt8) :
    Breaks (s ++ t) ↔ Breaks s := by
  have hTags : ∀ tag ∈ breakTags, 0x3E ∉ tag.dropLast := by decide
  constructor
  · rintro ⟨tag, hMem, hAt⟩
    exact ⟨tag, hMem, (isPrefix_append_iff (hTags tag hMem) hs t).mp hAt⟩
  · rintro ⟨tag, hMem, hAt⟩
    exact ⟨tag, hMem, (isPrefix_append_iff (hTags tag hMem) hs t).mpr hAt⟩

theorem output_append {c : UInt8} {s : List UInt8} (h : Closed (c :: s)) (inside : Bool) (t : List UInt8) :
    output inside (c :: (s ++ t)) = output inside (c :: s) := by
  by_cases hOpen : c = 0x3C
  · have hEnd : 0x3E ∈ c :: s := List.mem_cons_of_mem _ (h [] s (by rw [hOpen]; rfl))
    rw [output, output, ← List.cons_append]
    simp only [breaks_append_iff hEnd]
  · rw [output, output, if_neg hOpen, if_neg hOpen]

theorem strip_append {s : List UInt8} (h : Closed s) (inside : Bool) (t : List UInt8) :
    strip inside (s ++ t) = strip inside s ++ strip (s.foldl flag inside) t := by
  induction s generalizing inside with
  | nil => rfl
  | cons c s ih =>
    rw [List.cons_append, strip, strip, output_append h, ih h.tail, List.append_assoc, List.foldl_cons]

-- ---------------------------------------------------------------------------
-- The loop
-- ---------------------------------------------------------------------------

theorem breaksLine_iff {raw : Mem} {page : List UInt8} (h : Terminated raw page) {i : Nat}
    (hi : i ≤ page.length) : breaksLine raw i = true ↔ Breaks (page.drop i) := by
  have hView := h.view hi
  have hP : strncmp (raw.view i) (lit "<p>") 3 = 0 ↔ lit "<p>" <+: page.drop i :=
    strncmp_terminated hView (by decide)
  have hBr : strncmp (raw.view i) (lit "<br>") 4 = 0 ↔ lit "<br>" <+: page.drop i :=
    strncmp_terminated hView (by decide)
  have hDiv : strncmp (raw.view i) (lit "</div>") 6 = 0 ↔ lit "</div>" <+: page.drop i :=
    strncmp_terminated hView (by decide)
  rw [breaksLine, Bool.or_eq_true, Bool.or_eq_true, decide_eq_true_eq, decide_eq_true_eq, decide_eq_true_eq,
    hP, hBr, hDiv, Breaks]
  simp only [breakTags, List.mem_cons, List.not_mem_nil, or_false, exists_eq_or_imp, exists_eq_left, or_assoc]

/-- The variables after a turn that stores `out`. -/
def Parse.emit (s : Parse) (inside : Bool) (out : List UInt8) : Parse :=
  { srcIdx := s.srcIdx + 1, destIdx := s.destIdx + out.length, insideTag := inside,
    renderedText := s.renderedText.blit s.destIdx out }

theorem length_of_drop_eq_cons {page rest : List UInt8} {i : Nat} {c : UInt8} (h : page.drop i = c :: rest) :
    page.length = i + (rest.length + 1) := by
  have hLength := congrArg List.length h
  rw [List.length_drop, List.length_cons] at hLength
  omega

/-- One turn. -/
theorem parseTurn_eq {raw : Mem} {page : List UInt8} (h : Terminated raw page) {s : Parse} {c : UInt8}
    {rest : List UInt8} (hRest : page.drop s.srcIdx = c :: rest) :
    parseTurn raw s = s.emit (flag s.insideTag c) (output s.insideTag (c :: rest)) := by
  have hLe : s.srcIdx ≤ page.length := Nat.le.intro (length_of_drop_eq_cons hRest).symm
  have hByte : raw s.srcIdx = c := by
    have hHead := congrArg List.head? hRest
    rw [List.head?_drop, List.head?_cons] at hHead
    rw [h.byte hLe, List.getD_eq_getElem?_getD, hHead]
    rfl
  have hBreaks := breaksLine_iff h hLe
  rw [hRest] at hBreaks
  unfold parseTurn output flag Parse.emit
  rw [hByte]
  by_cases hClose : c = 0x3E
  · simp only [if_pos hClose, List.length_nil, Nat.add_zero, Mem.blit_nil]
  by_cases hOpen : c = 0x3C
  · simp only [if_neg hClose, if_pos hOpen]
    by_cases hBreak : Breaks (c :: rest)
    · simp only [if_pos (hBreaks.mpr hBreak), if_pos hBreak, Parse.put, if_true, Mem.write8_eq_blit]
      rfl
    · simp only [if_neg (fun hRaw => hBreak (hBreaks.mp hRaw)), if_neg hBreak, if_true, Mem.blit_nil]
      rfl
  · simp only [if_neg hClose, if_neg hOpen]
    cases hInside : s.insideTag with
    | true => simp only [if_true, Mem.blit_nil, List.length_nil, Nat.add_zero, hInside]
    | false => simp [Parse.put, Mem.write8_eq_blit, hInside]

/-- The variables after the rest of the page. -/
def Parse.after (s : Parse) (rest : List UInt8) : Parse :=
  { srcIdx := s.srcIdx + rest.length, destIdx := s.destIdx + (strip s.insideTag rest).length,
    insideTag := rest.foldl flag s.insideTag,
    renderedText := s.renderedText.blit s.destIdx (strip s.insideTag rest) }

/-- The loop. `dest_idx` never overtakes `src_idx`, so there is always room. -/
theorem parseLoop_eq {raw : Mem} {page : List UInt8} (h : Terminated raw page)
    (hLen : page.length ≤ maxPageStorage - 2) {rest : List UInt8} {s : Parse}
    (hRest : page.drop s.srcIdx = rest) (hDest : s.destIdx ≤ s.srcIdx) :
    parseLoop raw rest.length s = s.after rest := by
  induction rest generalizing s with
  | nil =>
    rw [Parse.after, strip, Mem.blit_nil]
    rfl
  | cons c rest ih =>
    have hLength := length_of_drop_eq_cons hRest
    have hOut := length_output_le s.insideTag (c :: rest)
    have hNext : page.drop (s.srcIdx + 1) = rest := by
      rw [← List.tail_drop, hRest, List.tail_cons]
    rw [List.length_cons, parseLoop, if_pos (by omega), parseTurn_eq h hRest,
      ih hNext (by show s.destIdx + _ ≤ s.srcIdx + 1; omega)]
    simp only [Parse.after, Parse.emit, strip, Mem.blit_append, List.length_append, List.length_cons,
      List.foldl_cons, Nat.add_assoc, Nat.add_comm 1]

/-- Before the first turn. -/
def parseStart : Parse := { srcIdx := 0, destIdx := 0, insideTag := false, renderedText := zeroed }

theorem parseLoop_start {raw : Mem} {page : List UInt8} (h : Terminated raw page)
    (hLen : page.length ≤ maxPageStorage - 2) :
    parseLoop raw page.length parseStart = parseStart.after page :=
  parseLoop_eq h hLen rfl (Nat.le_refl _)

theorem cstr_parseText {raw : Mem} {page : List UInt8} (h : Terminated raw page)
    (hLen : page.length ≤ maxPageStorage - 2) :
    (parseText raw page.length).cstr maxPageStorage = strip false page := by
  have hShort := length_strip_le false page
  have hText : parseText raw page.length
      = (zeroed.blit 0 (strip false page)).write8 (strip false page).length 0 := by
    show (parseLoop raw page.length parseStart).renderedText.write8
      (parseLoop raw page.length parseStart).destIdx 0 = _
    rw [parseLoop_start h hLen, Parse.after]
    show (zeroed.blit 0 _).write8 (0 + _) 0 = _
    rw [Nat.zero_add]
    rfl
  rw [hText]
  refine Mem.cstr_eq ?_ (Mem.write8_same ..) ?_ ?_
  · rw [Mem.slice_write8_of_le _ _ (by omega), Mem.slice_blit]
  · have hStorage : maxPageStorage = 16384 := rfl
    omega
  · intro d hd hZero
    rcases mem_strip hd with hBreak | hChar
    · exact absurd (hBreak.symm.trans hZero) (by decide)
    · exact h.nonzero (hZero ▸ hChar.1)

-- ---------------------------------------------------------------------------
-- Main result
-- ---------------------------------------------------------------------------

/-- The page that `raw_html_buffer` holds; anything may stand behind its terminator. -/
structure Loaded (page : List UInt8) (b : Browser) : Prop where
  buffer : Terminated b.rawHtmlBuffer page
  len    : b.contentLen = page.length

/-- The text on the screen. -/
def Browser.text (b : Browser) : List UInt8 := b.renderedText.cstr maxPageStorage

/-- The text for a page by itself. -/
def render (page : List UInt8) : List UInt8 := (rendering page).cstr maxPageStorage

theorem terminated_blit {page : List UInt8} (h : 0 ∉ page) : Terminated (zeroed.blit 0 page) page where
  bytes := Mem.slice_blit ..
  terminator := Mem.blit_of_disjoint _ _ (.inr (Nat.le_of_eq (Nat.zero_add _)))
  nonzero := h

theorem Holds.loaded {page : List UInt8} {b : Browser} (h : Holds page b) (hPage : 0 ∉ page) :
    Loaded page b where
  buffer := by
    rw [h.1]
    exact terminated_blit hPage
  len := h.2

theorem render_eq {page : List UInt8} (hPage : 0 ∉ page) (hLen : page.length ≤ maxPageStorage - 2) :
    render page = strip false page :=
  cstr_parseText (terminated_blit hPage) hLen

/--
**HTML stripping is compositional.** Let a page have no zero byte and at most 16382 bytes. Whatever
stands behind it in the buffer, `naobrowse_render_engine_parse` reads all of it and shows
`render page`. There is no bracket in that text: it consists, in order, of the characters outside of
tags and of one newline for each `<` at which `<p>`, `<br>` or `</div>` starts. If every `<` of the
page is followed by a `>`, then the page and another one behind it show the one text behind the
other.
-/
theorem html_stripping_compositional {page : List UInt8} (hPage : 0 ∉ page) (hLen : page.length ≤ 16382) :
    (∀ b, Loaded page b →
        (parseLoop b.rawHtmlBuffer b.contentLen parseStart).srcIdx = page.length
          ∧ (naobrowseRenderEngineParse b).text = render page)
      ∧ (0x3C ∉ render page ∧ 0x3E ∉ render page)
      ∧ render page = visible page
      ∧ ∀ rest, 0 ∉ rest → page.length + rest.length ≤ 16382 → Closed page →
          render (page ++ rest) = render page ++ render rest := by
  have hRender := render_eq hPage hLen
  refine ⟨fun b hLoaded => ⟨?_, ?_⟩, ?_, ?_, ?_⟩
  · rw [hLoaded.len, parseLoop_start hLoaded.buffer hLen]
    exact Nat.zero_add _
  · show (parseText b.rawHtmlBuffer b.contentLen).cstr maxPageStorage = _
    rw [hLoaded.len, cstr_parseText hLoaded.buffer hLen, hRender]
  · rw [hRender]
    refine ⟨fun hOpen => ?_, fun hClose => ?_⟩
    · rcases mem_strip hOpen with hBreak | ⟨-, hNe, -⟩
      · exact absurd hBreak (by decide)
      · exact hNe rfl
    · rcases mem_strip hClose with hBreak | ⟨-, -, hNe⟩
      · exact absurd hBreak (by decide)
      · exact hNe rfl
  · rw [hRender, strip_eq_visible]
  · intro rest hRest hBoth hClosed
    have hOut : page.foldl flag false = false :=
      Bool.eq_false_iff.mpr fun hOpen => closed_iff.mp hClosed ((foldl_flag_iff page).mp hOpen)
    have hRestLen : rest.length ≤ maxPageStorage - 2 := Nat.le_trans (Nat.le_add_left ..) hBoth
    have hBothLen : (page ++ rest).length ≤ maxPageStorage - 2 := by
      rw [List.length_append]
      exact hBoth
    have hBothPage : 0 ∉ page ++ rest := by
      rw [List.mem_append, not_or]
      exact ⟨hPage, hRest⟩
    rw [render_eq hBothPage hBothLen, hRender, render_eq hRest hRestLen, strip_append hClosed, hOut]

/-- A page cut between two tags. -/
theorem html_stripping_compositional_lines :
    render (lit "<p>one<br>" ++ lit "two</div>") = lit "\none\n" ++ lit "two\n" := by
  have hPages := @html_stripping_compositional (lit "<p>one<br>") (by decide) (by decide)
  have hRest := @html_stripping_compositional (lit "two</div>") (by decide) (by decide)
  rw [hPages.2.2.2 _ (by decide) (by decide) (closed_iff.mpr (by decide)), hPages.2.2.1, hRest.2.2.1]
  decide

-- ---------------------------------------------------------------------------
-- The browser in use
-- ---------------------------------------------------------------------------

/-- The buffer holds a page that can be shown as a whole. -/
def HasPage (b : Browser) : Prop := ∃ page, Loaded page b ∧ page.length ≤ maxPageStorage - 2

theorem HasPage.congr {b b' : Browser} (h : HasPage b) (hRaw : b'.rawHtmlBuffer = b.rawHtmlBuffer)
    (hLen : b'.contentLen = b.contentLen) : HasPage b' := by
  obtain ⟨page, hLoaded, hShort⟩ := h
  refine ⟨page, ⟨?_, hLen.trans hLoaded.len⟩, hShort⟩
  rw [hRaw]
  exact hLoaded.buffer

theorem hasPage_of_holds_nil {b : Browser} (h : Holds [] b) : HasPage b :=
  ⟨[], h.loaded List.not_mem_nil, Nat.zero_le _⟩

/-- A chunk is appended to the page. -/
theorem Loaded.bodyCb {page : List UInt8} {b : Browser} (h : Loaded page b) {p : Pbuf}
    (hBytes : 0 ∉ p.payload) (hFits : b.contentLen + p.payload.length < maxPageStorage - 1) :
    Loaded (page ++ p.payload) (naobrowseHttpBodyCb (some p) b) := by
  have hStored := bodyCb_shared_of_fits hFits
  simp only [Browser.shared, Prod.mk.injEq, h.len] at hStored
  obtain ⟨hRaw, hLen, -⟩ := hStored
  refine ⟨⟨?_, ?_, ?_⟩, by rw [hLen, List.length_append]⟩
  · have hKept : (b.rawHtmlBuffer.blit page.length p.payload).slice 0 page.length = page := by
      have hSame : ∀ i, 0 ≤ i → i < 0 + page.length →
          b.rawHtmlBuffer.blit page.length p.payload i = b.rawHtmlBuffer i :=
        fun i _ hi => Mem.blit_of_disjoint _ _ (.inl (by omega))
      rw [Mem.slice_congr hSame, h.buffer.bytes]
    rw [hRaw, List.length_append, Mem.slice_write8_of_le _ _ (by omega), Mem.slice_add, hKept, Nat.zero_add,
      Mem.slice_blit]
  · rw [hRaw, List.length_append, Mem.write8_same]
  · rw [List.mem_append, not_or]
    exact ⟨h.buffer.nonzero, hBytes⟩

theorem HasPage.bodyCb {b : Browser} (h : HasPage b) {p : Pbuf} (hBytes : 0 ∉ p.payload) :
    HasPage (naobrowseHttpBodyCb (some p) b) := by
  by_cases hFits : b.contentLen + p.payload.length < maxPageStorage - 1
  · obtain ⟨page, hLoaded, -⟩ := h
    refine ⟨_, hLoaded.bodyCb hBytes hFits, ?_⟩
    rw [hLoaded.len] at hFits
    rw [List.length_append]
    omega
  · -- nothing is stored of a chunk that does not fit
    have hSame : naobrowseHttpBodyCb (some p) b
        = naobrowseLog (lit "CRITICAL ERROR: Incoming HTML exceeds allocated buffer size limits!")
            (naobrowseLog (printed 64 "lwIP Body CB: Received chunk segment of %d bytes"
              [.word (.ofNat 32 p.payload.length)]) b) := if_neg hFits
    rw [hSame]
    exact h.congr rfl rfl

/-- The bodies are texts. -/
def Event.Clean : Event → Prop
  | .navigate .. => True
  | .body _ p => ∀ q ∈ p, 0 ∉ q.payload
  | .result .. => True

theorem HasPage.step {b : Browser} (h : HasPage b) {e : Event} (hClean : e.Clean) : HasPage (step b e) := by
  cases e with
  | navigate url save error => exact hasPage_of_holds_nil (navigateTo_holds url save error b)
  | body req p =>
    cases p with
    | none => exact h
    | some p => exact h.bodyCb (hClean p rfl)
  | result req res rxContentLen err =>
    have hKept := resultCb_shared res rxContentLen err b
    simp only [Browser.shared, Prod.mk.injEq] at hKept
    exact h.congr hKept.1 hKept.2.1

theorem run_hasPage {h : List Event} (hClean : ∀ e ∈ h, e.Clean) : HasPage (run h) := by
  induction h using List.reverseRecOn with
  | nil => exact hasPage_of_holds_nil ⟨(Mem.blit_nil zeroed 0).symm, rfl⟩
  | append_singleton h e ih =>
    rw [List.forall_mem_append] at hClean
    rw [run_concat]
    exact (ih hClean.1).step (hClean.2 e (List.mem_singleton_self e))

/-- Whatever navigations and callbacks there have been, a success shows the page in the buffer. -/
theorem run_result_text {h : List Event} (hClean : ∀ e ∈ h, e.Clean) (req : Nat) (rxContentLen : BitVec 32)
    (err : BitVec 8) :
    ∃ page, Loaded page (run h) ∧ (run (h ++ [.result req .ok rxContentLen err])).text = visible page := by
  obtain ⟨page, hLoaded, hShort⟩ := run_hasPage hClean
  refine ⟨page, hLoaded, ?_⟩
  rw [run_concat]
  show (naobrowseHttpResultCb .ok rxContentLen err (run h)).renderedText.cstr maxPageStorage = _
  rw [resultCb_renderedText, hLoaded.len, cstr_parseText hLoaded.buffer hShort, strip_eq_visible]

end Nao.NaoBrowse
