import Nao.NaoBrowse.Definitions
import Nao.Lib.History
import Mathlib.Data.List.Induction

/-!
# NaoBrowse — overlapping requests

Every navigation that `httpc_get_file` accepts starts a request. Its callbacks come later, at
any time: chunks of the body and then one result. A history is a list of navigations and
callbacks, the requests numbered in the order of their navigations; `Valid` says that a
callback belongs to a request whose result is outstanding, and nothing else about the order.

All requests share one buffer and one flag, and the callbacks do not know which request they
belong to. `navigations_do_not_mix` says when this does no harm: the flag is right exactly if
no result of an older request comes while the latest is outstanding (`NoOverlap`), and the
page is right if no callback of an older request comes at all (`NoStale`).
-/

namespace Nao.NaoBrowse

open SysLib
open HttpClient (HttpcResult)

-- ---------------------------------------------------------------------------
-- Histories
-- ---------------------------------------------------------------------------

inductive Event where
  | navigate (url : List UInt8) (saveToHistory : Bool) (error : BitVec 8)
  | body (req : Nat) (p : Option Pbuf)
  | result (req : Nat) (res : HttpcResult) (rxContentLen : BitVec 32) (err : BitVec 8)

def step (b : Browser) : Event → Browser
  | .navigate url save error => naobrowseNavigateTo url save error b
  | .body _ p => naobrowseHttpBodyCb p b
  | .result _ res rxContentLen err => naobrowseHttpResultCb res rxContentLen err b

/-- The browser after a history, from `init_naobrowse` on. -/
def run (h : List Event) : Browser := h.foldl step initNaobrowse

theorem run_concat (h : List Event) (e : Event) : run (h ++ [e]) = step (run h) e := by
  simp [run]

/-- What `httpc_get_file` answered to a navigation. -/
def Event.answer? : Event → Option (BitVec 8)
  | .navigate _ _ error => some error
  | _ => none

/-- The request a callback belongs to. -/
def Event.request? : Event → Option Nat
  | .body req _ | .result req .. => some req
  | .navigate .. => none

/-- The request that ends with this event. -/
def Event.ended? : Event → Option Nat
  | .result req .. => some req
  | _ => none

/-- The request that ends with success. -/
def Event.succeeded? : Event → Option Nat
  | .result req .ok .. => some req
  | _ => none

/-- The bytes an event brings for the body of request `r`. -/
def Event.chunk (r : Nat) : Event → List UInt8
  | .body req (some p) => if req = r then p.payload else []
  | _ => []

def answers (h : List Event) : List (BitVec 8) := h.filterMap Event.answer?

def ended (h : List Event) : List Nat := h.filterMap Event.ended?

def succeeded (h : List Event) : List Nat := h.filterMap Event.succeeded?

/-- The body of request `r` as far as it has come. -/
def bodyOf (r : Nat) (h : List Event) : List UInt8 := h.flatMap (Event.chunk r)

/-- The number of the most recent navigation, if there is one. -/
def latest (h : List Event) : Nat := (answers h).length - 1

/-- Request `r` was accepted and its result has not come. -/
def Outstanding (r : Nat) (h : List Event) : Prop := (answers h)[r]? = some 0 ∧ r ∉ ended h

instance (r : Nat) (h : List Event) : Decidable (Outstanding r h) :=
  inferInstanceAs (Decidable (_ ∧ _))

/-- Callbacks come for outstanding requests only. -/
def Valid : List Event → Prop := Throughout fun pre e => ∀ r ∈ e.request?, Outstanding r pre

/-- No callback of a request comes after a later navigation. -/
def NoStale : List Event → Prop :=
  Throughout fun pre e => ∀ r ∈ e.request?, r + 1 = (answers pre).length

/-- No result of another request comes while that of the latest navigation is outstanding. -/
def NoOverlap : List Event → Prop :=
  Throughout fun pre e => ∀ r ∈ e.ended?, Outstanding (latest pre) pre → r = latest pre

instance (h : List Event) : Decidable (Valid h) := inferInstanceAs (Decidable (Throughout _ h))

instance (h : List Event) : Decidable (NoStale h) := inferInstanceAs (Decidable (Throughout _ h))

section Concat

variable (h : List Event) (e : Event)

@[simp] theorem answers_concat : answers (h ++ [e]) = answers h ++ e.answer?.toList := by
  cases hAnswer : e.answer? <;> simp [answers, hAnswer]

@[simp] theorem ended_concat : ended (h ++ [e]) = ended h ++ e.ended?.toList := by
  cases hEnded : e.ended? <;> simp [ended, hEnded]

@[simp] theorem succeeded_concat : succeeded (h ++ [e]) = succeeded h ++ e.succeeded?.toList := by
  cases hOk : e.succeeded? <;> simp [succeeded, hOk]

@[simp] theorem bodyOf_concat (r : Nat) : bodyOf r (h ++ [e]) = bodyOf r h ++ e.chunk r := by
  simp [bodyOf]

end Concat

theorem Event.ended?_of_succeeded? {e : Event} {r : Nat} (h : e.succeeded? = some r) :
    e.ended? = some r := by
  unfold succeeded? at h
  split at h <;> simp_all [ended?]

theorem Event.request?_of_ended? {e : Event} {r : Nat} (h : e.ended? = some r) :
    e.request? = some r := by
  unfold ended? at h
  split at h <;> simp_all [request?]

theorem ended_of_succeeded {h : List Event} {r : Nat} (hr : r ∈ succeeded h) : r ∈ ended h := by
  obtain ⟨e, he, hOk⟩ := List.mem_filterMap.mp hr
  exact List.mem_filterMap.mpr ⟨e, he, Event.ended?_of_succeeded? hOk⟩

theorem Outstanding.lt {r : Nat} {h : List Event} (hr : Outstanding r h) : r < (answers h).length :=
  (List.getElem?_eq_some_iff.mp hr.1).1

/-- The next request has no callback yet. -/
theorem Valid.request_lt {h : List Event} (hValid : Valid h) {e : Event} (he : e ∈ h) {r : Nat}
    (hr : e.request? = some r) : r < (answers h).length := by
  obtain ⟨pre, post, rfl⟩ := List.append_of_mem he
  have hLt := (hValid pre e post rfl r hr).lt
  rw [answers, List.filterMap_append, List.length_append]
  exact Nat.lt_add_right _ hLt

theorem Valid.ended_lt {h : List Event} (hValid : Valid h) {r : Nat} (hr : r ∈ ended h) :
    r < (answers h).length := by
  obtain ⟨e, he, hEnd⟩ := List.mem_filterMap.mp hr
  exact hValid.request_lt he (Event.request?_of_ended? hEnd)

theorem Valid.bodyOf_next {h : List Event} (hValid : Valid h) : bodyOf (answers h).length h = [] := by
  refine List.flatMap_eq_nil_iff.mpr fun e he => ?_
  unfold Event.chunk
  split
  · next req p =>
    have hLt : req < (answers h).length := hValid.request_lt he rfl
    rw [if_neg (by omega)]
  · rfl

-- ---------------------------------------------------------------------------
-- The shared variables
-- ---------------------------------------------------------------------------

/-- What the requests share: `raw_html_buffer`, `content_len` and `is_loading`. -/
def Browser.shared (b : Browser) : Mem × Nat × Bool := (b.rawHtmlBuffer, b.contentLen, b.isLoading)

@[simp] theorem log_shared (msg : List UInt8) (b : Browser) : (naobrowseLog msg b).shared = b.shared :=
  rfl

/-- The end of a request: the flag goes down and a text is shown. -/
theorem ended_shared (text : Mem) (b : Browser) :
    { b with isLoading := false, renderedText := text }.shared =
      (b.shared.1, b.shared.2.1, false) := rfl

theorem saveUrl_shared (url : List UInt8) (b : Browser) : (saveUrl url b).shared = b.shared := by
  unfold saveUrl
  dsimp only
  split <;> split <;> rfl

/-- A navigation starts afresh. -/
theorem navigateTo_shared (url : List UInt8) (save : Bool) (error : BitVec 8) (b : Browser) :
    (naobrowseNavigateTo url save error b).shared = (zeroed, 0, decide (error = 0)) := by
  have hSave (b : Browser) : (if save then saveUrl url b else b).shared = b.shared := by
    split
    · exact saveUrl_shared url b
    · rfl
  unfold naobrowseNavigateTo
  dsimp only
  split
  · next hError =>
    rw [decide_eq_false hError]
    simp only [ended_shared, log_shared, hSave]
    rfl
  · next hError =>
    rw [decide_eq_true (not_not.mp hError)]
    simp only [log_shared, hSave]
    rfl

/-- A chunk that fits is appended. -/
theorem bodyCb_shared_of_fits {p : Pbuf} {b : Browser}
    (hFits : b.contentLen + p.payload.length < maxPageStorage - 1) :
    (naobrowseHttpBodyCb (some p) b).shared =
      ((b.rawHtmlBuffer.blit b.contentLen p.payload).write8 (b.contentLen + p.payload.length) 0,
        b.contentLen + p.payload.length, b.isLoading) := by
  unfold naobrowseHttpBodyCb
  dsimp only
  rw [if_pos (by exact hFits)]
  rfl

theorem bodyCb_isLoading (p : Option Pbuf) (b : Browser) :
    (naobrowseHttpBodyCb p b).isLoading = b.isLoading := by
  unfold naobrowseHttpBodyCb
  split
  · rfl
  · dsimp only
    split <;> rfl

theorem resultCb_shared (res : HttpcResult) (rxContentLen : BitVec 32) (err : BitVec 8)
    (b : Browser) :
    (naobrowseHttpResultCb res rxContentLen err b).shared =
      (b.rawHtmlBuffer, b.contentLen, false) := by
  unfold naobrowseHttpResultCb
  dsimp only
  split <;> rfl

-- ---------------------------------------------------------------------------
-- The flag
-- ---------------------------------------------------------------------------

/-- `is_loading` is 1 exactly while the result of the most recent navigation is outstanding. -/
def LoadingTruthful (h : List Event) : Prop :=
  ∀ pre, pre <+: h → ((run pre).isLoading = true ↔ Outstanding (latest pre) pre)

theorem loadingTruthful_concat {h : List Event} {e : Event} :
    LoadingTruthful (h ++ [e]) ↔
      LoadingTruthful h ∧
        ((run (h ++ [e])).isLoading = true ↔ Outstanding (latest (h ++ [e])) (h ++ [e])) := by
  simp only [LoadingTruthful, List.prefix_concat_iff, or_imp, forall_and, forall_eq]
  exact and_comm

/-- One event: if the flag was right, it stays right unless an older request's result comes
while the latest is outstanding. -/
theorem isLoading_step {h : List Event} {e : Event} (hValid : Valid h)
    (hFlag : (run h).isLoading = true ↔ Outstanding (latest h) h) :
    ((run (h ++ [e])).isLoading = true ↔ Outstanding (latest (h ++ [e])) (h ++ [e])) ↔
      ∀ r ∈ e.ended?, Outstanding (latest h) h → r = latest h := by
  rw [run_concat]
  cases e with
  | navigate url save error =>
    refine iff_of_true ?_ (by simp [Event.ended?])
    have hNew : (answers h).length ∉ ended h := fun hr => (hValid.ended_lt hr).false
    have hFresh := congrArg (·.2.2) (navigateTo_shared url save error (run h))
    change (naobrowseNavigateTo url save error (run h)).isLoading = _ at hFresh
    rw [step, hFresh]
    simp [Outstanding, latest, Event.answer?, Event.ended?, hNew]
  | body req p =>
    refine iff_of_true ?_ (by simp [Event.ended?])
    rw [step, bodyCb_isLoading, hFlag]
    simp [Outstanding, latest, Event.answer?, Event.ended?]
  | result req res rxContentLen err =>
    have hDown : (step (run h) (.result req res rxContentLen err)).isLoading = false := rfl
    simp only [hDown, Bool.false_eq_true, false_iff, Outstanding, latest, answers_concat,
      ended_concat, Event.answer?, Event.ended?, Option.toList_none, Option.toList_some,
      List.append_nil, List.mem_append, List.mem_singleton, Option.mem_def, Option.some.injEq,
      forall_eq']
    constructor
    · rintro hOver ⟨hAnswer, hOpen⟩
      by_contra hNe
      exact hOver ⟨hAnswer, by rintro (hEnd | rfl) <;> contradiction⟩
    · rintro hOver ⟨hAnswer, hOpen⟩
      exact hOpen (.inr (hOver ⟨hAnswer, fun hEnd => hOpen (.inl hEnd)⟩).symm)

theorem loadingTruthful_iff {h : List Event} (hValid : Valid h) : LoadingTruthful h ↔ NoOverlap h := by
  induction h using List.reverseRecOn with
  | nil =>
    refine iff_of_true ?_ throughout_nil
    intro pre hPre
    rw [List.prefix_nil.mp hPre]
    simp [run, initNaobrowse, naobrowseLog, Outstanding, answers]
  | append_singleton h e ih =>
    have hBefore : Valid h := hValid.of_append
    rw [loadingTruthful_concat, NoOverlap, throughout_concat]
    constructor
    · rintro ⟨hFlag, hLast⟩
      exact ⟨(ih hBefore).mp hFlag, (isLoading_step hBefore (hFlag h (List.prefix_refl h))).mp hLast⟩
    · rintro ⟨hOver, hLast⟩
      have hFlag := (ih hBefore).mpr hOver
      exact ⟨hFlag, (isLoading_step hBefore (hFlag h (List.prefix_refl h))).mpr hLast⟩

theorem NoStale.noOverlap {h : List Event} (hStale : NoStale h) : NoOverlap h := by
  intro pre e post hEq r hr _
  have hLatest := hStale pre e post hEq r (Event.request?_of_ended? hr)
  rw [latest]
  omega

-- ---------------------------------------------------------------------------
-- The page
-- ---------------------------------------------------------------------------

/-- The rendering of a page by itself. -/
def rendering (page : List UInt8) : Mem := parseText (zeroed.blit 0 page) page.length

/-- The buffer holds the page and zeros behind it. -/
def Holds (page : List UInt8) (b : Browser) : Prop :=
  b.rawHtmlBuffer = zeroed.blit 0 page ∧ b.contentLen = page.length

theorem navigateTo_holds (url : List UInt8) (save : Bool) (error : BitVec 8) (b : Browser) :
    Holds [] (naobrowseNavigateTo url save error b) := by
  have hFresh := navigateTo_shared url save error b
  simp only [Browser.shared, Prod.mk.injEq] at hFresh
  exact ⟨hFresh.1.trans (Mem.blit_nil zeroed 0).symm, hFresh.2.1⟩

theorem bodyCb_holds {page : List UInt8} {b : Browser} (hPage : Holds page b) {p : Pbuf}
    (hFits : (page ++ p.payload).length < maxPageStorage - 1) :
    Holds (page ++ p.payload) (naobrowseHttpBodyCb (some p) b) := by
  obtain ⟨hRaw, hLen⟩ := hPage
  rw [List.length_append, ← hLen] at hFits
  have hStored := bodyCb_shared_of_fits hFits
  simp only [Browser.shared, Prod.mk.injEq] at hStored
  refine ⟨?_, by rw [hStored.2.1, hLen, List.length_append]⟩
  rw [hStored.1, hRaw, hLen]
  -- the terminator falls on a zero
  funext i
  rcases eq_or_ne i (page.length + p.payload.length) with rfl | hi
  · rw [Mem.write8_same, Mem.blit_of_disjoint _ _ (by simp)]
    rfl
  · rw [Mem.write8_of_ne _ _ hi, Mem.blit_append, Nat.zero_add]

theorem resultCb_holds {page : List UInt8} {b : Browser} (hPage : Holds page b) (res : HttpcResult)
    (rxContentLen : BitVec 32) (err : BitVec 8) :
    Holds page (naobrowseHttpResultCb res rxContentLen err b) := by
  have hKept := resultCb_shared res rxContentLen err b
  simp only [Browser.shared, Prod.mk.injEq] at hKept
  exact ⟨hKept.1.trans hPage.1, hKept.2.1.trans hPage.2⟩

/-- A success shows what is in the buffer. -/
theorem resultCb_renderedText (rxContentLen : BitVec 32) (err : BitVec 8) (b : Browser) :
    (naobrowseHttpResultCb .ok rxContentLen err b).renderedText
      = parseText b.rawHtmlBuffer b.contentLen := rfl

theorem resultCb_renders {page : List UInt8} {b : Browser} (hPage : Holds page b)
    (rxContentLen : BitVec 32) (err : BitVec 8) :
    (naobrowseHttpResultCb .ok rxContentLen err b).renderedText = rendering page := by
  rw [resultCb_renderedText, rendering, ← hPage.1, ← hPage.2]

/-- The browser is about the latest request alone, as long as its body fits: what has come of
the body is in the buffer, and after a success its rendering is on the screen. -/
structure Unmixed (h : List Event) : Prop where
  holds : (bodyOf (latest h) h).length < maxPageStorage - 1 → Holds (bodyOf (latest h) h) (run h)
  shows : (bodyOf (latest h) h).length < maxPageStorage - 1 → latest h ∈ succeeded h →
    (run h).renderedText = rendering (bodyOf (latest h) h)

namespace Unmixed

variable {h : List Event}

theorem nil : Unmixed [] where
  holds _ := by
    refine ⟨?_, rfl⟩
    funext i
    simp [run, initNaobrowse, naobrowseLog, Mem.blit, bodyOf]
  shows _ hOk := by simp [succeeded] at hOk

theorem navigate (hValid : Valid h) (url : List UInt8) (save : Bool) (error : BitVec 8) :
    Unmixed (h ++ [.navigate url save error]) := by
  have hLatest : latest (h ++ [.navigate url save error]) = (answers h).length := by
    simp [latest, Event.answer?]
  have hBody : bodyOf (answers h).length (h ++ [.navigate url save error]) = [] := by
    rw [bodyOf_concat, hValid.bodyOf_next]
    rfl
  constructor
  · intro _
    rw [hLatest, hBody, run_concat]
    exact navigateTo_holds ..
  · intro _ hOk
    -- no request has succeeded before it was started
    rw [hLatest, succeeded_concat] at hOk
    have hEnd := ended_of_succeeded (h := h) (by simpa [Event.succeeded?] using hOk)
    exact absurd (hValid.ended_lt hEnd) (Nat.lt_irrefl _)

theorem body (hMix : Unmixed h) (hOpen : Outstanding (latest h) h) (p : Option Pbuf) :
    Unmixed (h ++ [.body (latest h) p]) := by
  have hLatest : latest (h ++ [.body (latest h) p]) = latest h := by simp [latest, Event.answer?]
  constructor
  · rw [hLatest, bodyOf_concat, run_concat]
    intro hFits
    cases p with
    | none =>
      simp only [Event.chunk, List.append_nil] at hFits ⊢
      exact hMix.holds hFits
    | some p =>
      simp only [Event.chunk, if_true] at hFits ⊢
      refine bodyCb_holds (hMix.holds ?_) hFits
      rw [List.length_append] at hFits
      omega
  · intro _ hOk
    rw [hLatest, succeeded_concat] at hOk
    exact absurd (ended_of_succeeded (by simpa [Event.succeeded?] using hOk)) hOpen.2

theorem result (hMix : Unmixed h) (hOpen : Outstanding (latest h) h) (res : HttpcResult)
    (rxContentLen : BitVec 32) (err : BitVec 8) :
    Unmixed (h ++ [.result (latest h) res rxContentLen err]) := by
  have hLatest : latest (h ++ [.result (latest h) res rxContentLen err]) = latest h := by
    simp [latest, Event.answer?]
  have hBody : bodyOf (latest h) (h ++ [.result (latest h) res rxContentLen err]) =
      bodyOf (latest h) h := by
    simp [Event.chunk]
  constructor
  · rw [hLatest, hBody, run_concat]
    exact fun hFits => resultCb_holds (hMix.holds hFits) ..
  · rw [hLatest, hBody, run_concat, succeeded_concat]
    intro hFits hOk
    rcases List.mem_append.mp hOk with hOk | hOk
    · exact absurd (ended_of_succeeded hOk) hOpen.2
    · cases res with
      | ok => exact resultCb_renders (hMix.holds hFits) ..
      | _ => simp [Event.succeeded?] at hOk

end Unmixed

theorem unmixed_of_noStale {h : List Event} (hValid : Valid h) (hStale : NoStale h) : Unmixed h := by
  induction h using List.reverseRecOn with
  | nil => exact .nil
  | append_singleton h e ih =>
    obtain ⟨hBefore, hOpen⟩ := throughout_concat.mp hValid
    obtain ⟨hNoStale, hCurrent⟩ := throughout_concat.mp hStale
    have hMix := ih hBefore hNoStale
    have hLatest : ∀ r ∈ e.request?, r = latest h := fun r hr => by
      rw [latest, ← hCurrent r hr, Nat.add_sub_cancel]
    cases e with
    | navigate url save error => exact .navigate hBefore url save error
    | body req p =>
      obtain rfl := hLatest req rfl
      exact hMix.body (hOpen _ rfl) p
    | result req res rxContentLen err =>
      obtain rfl := hLatest req rfl
      exact hMix.result (hOpen _ rfl) res rxContentLen err

-- ---------------------------------------------------------------------------
-- The theorem
-- ---------------------------------------------------------------------------

/-- Whenever the most recent navigation has ended with success, and its body fits, its
rendering is on the screen. -/
def PagesTruthful (h : List Event) : Prop :=
  ∀ pre, pre <+: h → latest pre ∈ succeeded pre →
    (bodyOf (latest pre) pre).length < maxPageStorage - 1 →
      (run pre).renderedText = rendering (bodyOf (latest pre) pre)

/--
**When navigations do not mix.** For every interleaving of the callbacks of any number of
requests with further navigations: `is_loading` is 1 exactly while the result of the most
recent navigation is outstanding, at every moment, if and only if no result of another
request comes while that one is outstanding; and if no callback of a request comes after a
later navigation, then in addition `rendered_text` is the rendering of the most recent
navigation's body alone whenever this one has ended with success and its body has at most
16382 bytes.
-/
theorem navigations_do_not_mix {h : List Event} (hValid : Valid h) :
    (LoadingTruthful h ↔ NoOverlap h) ∧ (NoStale h → LoadingTruthful h ∧ PagesTruthful h) := by
  refine ⟨loadingTruthful_iff hValid, fun hStale => ?_⟩
  refine ⟨(loadingTruthful_iff hValid).mpr hStale.noOverlap, ?_⟩
  rintro pre ⟨post, rfl⟩ hOk hFits
  exact (unmixed_of_noStale hValid.of_append hStale.of_append).shows hFits hOk

/-- A page of one letter. -/
def letterPage (c : UInt8) : Pbuf := { payload := [c], tot_lt := by simp }

/-- Two navigations, one after the other. -/
def oneByOne : List Event :=
  [.navigate [] true 0, .body 0 (some (letterPage 65)), .result 0 .ok 1 0,
    .navigate [] true 0, .body 1 (some (letterPage 66)), .result 1 .ok 1 0]

theorem navigations_do_not_mix_demo : (run oneByOne).renderedText = rendering [66] := by
  have hValid : Valid oneByOne := by decide
  have hStale : NoStale oneByOne := by decide
  exact ((navigations_do_not_mix hValid).2 hStale).2 oneByOne (List.prefix_refl _) (by decide)
    (by decide)

/-- The second navigation is started while the first is under way, and the first one's page
still comes in. -/
def overlapping : List Event :=
  [.navigate [] true 0, .navigate [] true 0, .body 0 (some (letterPage 65)),
    .body 1 (some (letterPage 66)), .result 1 .ok 1 0]

/-- The second navigation has ended with success and its page is `B`, but the text is `AB`. And
if only the result of the first comes in, the flag is down although the second is under way. -/
theorem navigations_mix :
    (Valid overlapping ∧ latest overlapping ∈ succeeded overlapping ∧
      bodyOf (latest overlapping) overlapping = [66] ∧
      (rendering [66]).slice 0 3 = [66, 0, 0] ∧
      (run overlapping).renderedText.slice 0 3 = [65, 66, 0]) ∧
    Valid (overlapping.take 2 ++ [.result 0 .ok 1 0]) ∧
      Outstanding 1 (overlapping.take 2 ++ [.result 0 .ok 1 0]) ∧
      (run (overlapping.take 2 ++ [.result 0 .ok 1 0])).isLoading = false := by
  decide

end Nao.NaoBrowse
