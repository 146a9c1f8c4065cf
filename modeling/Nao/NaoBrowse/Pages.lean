import Nao.NaoBrowse.Connections

/-!
# NaoBrowse — pages over TCP

What the connections below the browser mean for the user, for every interleaving of navigations and
events of TCP, and whatever the client finds behind `conn_settings`:

* `requests_do_not_interfere` — what the browser is told about a request depends on the events of its
  own connection alone, and so does the page, if no callback comes too late.
* `loading_ends` — a request that is polled 30 times without a part of its body is freed.
* `page_reaches_screen` — a response that is read to its end is in the browser, whatever the segments
  it came in, if no callback of an older request comes; it is shown if `result_fn` is still found.
-/

namespace Nao.NaoBrowse

open SysLib Kernel Lwip Lwip.Chain HttpClient

/-- The events of one connection, with what the client found behind `conn_settings` at each. -/
def foundOf (r : Nat) (inputs : List Input) : List (Settings × TcpEvent) :=
  inputs.filterMap fun i => match i with
    | .tcp r' settings e => if r' = r then some (settings, e) else none
    | .navigate .. => none

/-- The events of one connection. -/
def eventsOf (r : Nat) (inputs : List Input) : List TcpEvent := (foundOf r inputs).map Prod.snd

/-- What `httpc_get_file` returned to the navigations, and the requests it made. -/
def starts (inputs : List Input) : List (BitVec 8 × Option HttpcState) :=
  inputs.filterMap fun i => match i with
    | .navigate _ _ a connect => some (httpcGetFile a naobrowseTarget connect)
    | .tcp .. => none

/-- The request of navigation `r`. -/
def requestOf (r : Nat) (inputs : List Input) : Option HttpcState := (starts inputs)[r]?.bind Prod.snd

/-- The callbacks of one request. -/
def callbacksOf (r : Nat) (h : List Event) : List Event :=
  h.filter fun ev => decide (ev.request? = some r)

theorem foundOf_append (r : Nat) (as bs : List Input) :
    foundOf r (as ++ bs) = foundOf r as ++ foundOf r bs := List.filterMap_append

theorem foundOf_tcp (r r' : Nat) (settings : Settings) (e : TcpEvent) :
    foundOf r [.tcp r' settings e] = if r' = r then [(settings, e)] else [] := by
  rw [foundOf, List.filterMap_cons]
  split <;> simp_all

theorem starts_append (as bs : List Input) : starts (as ++ bs) = starts as ++ starts bs :=
  List.filterMap_append

theorem callbacksOf_append (r : Nat) (h h' : List Event) :
    callbacksOf r (h ++ h') = callbacksOf r h ++ callbacksOf r h' := List.filter_append ..

-- ---------------------------------------------------------------------------
-- What belongs to a request
-- ---------------------------------------------------------------------------

theorem request?_eventOf {r : Nat} {a : HttpClient.Action} {ev : Event} (h : eventOf r a = some ev) :
    ev.request? = some r := by
  cases a with
  | body p =>
    obtain rfl := Option.some.inj h
    rfl
  | result res rxContentLen srvRes err =>
    obtain rfl := Option.some.inj h
    rfl
  | write | recved | headersDone => cases h

/-- The calls that one connection makes are callbacks of its own request. -/
theorem callbacksOf_calls (r' r : Nat) (acts : List HttpClient.Action) :
    callbacksOf r' (acts.filterMap (eventOf r)) = if r = r' then acts.filterMap (eventOf r) else [] := by
  have hOwn : ∀ ev ∈ acts.filterMap (eventOf r), ev.request? = some r := by
    intro ev hMem
    obtain ⟨a, -, ha⟩ := List.mem_filterMap.mp hMem
    exact request?_eventOf ha
  split
  · next hSame => exact List.filter_eq_self.mpr fun ev hMem => by simp [hOwn ev hMem, hSame]
  · next hNe => exact List.filter_eq_nil_iff.mpr fun ev hMem => by simp [hOwn ev hMem, hNe]

theorem bodyOf_callbacksOf (r : Nat) (h : List Event) : bodyOf r (callbacksOf r h) = bodyOf r h := by
  induction h with
  | nil => rfl
  | cons ev h ih =>
    have hCons (h : List Event) : bodyOf r (ev :: h) = ev.chunk r ++ bodyOf r h := rfl
    rw [callbacksOf, List.filter_cons, ← callbacksOf]
    split
    · rw [hCons, hCons, ih]
    · next hNot =>
      have hNone : ev.chunk r = [] := by
        cases ev with
        | body req p => cases p <;> simp_all [Event.request?, Event.chunk]
        | navigate | result => rfl
      rw [hCons, hNone, ih, List.nil_append]

/-- What is read off the callbacks of a request only. -/
theorem mem_filterMap_callbacksOf {r : Nat} {f : Event → Option Nat}
    (hf : ∀ {ev : Event}, f ev = some r → ev.request? = some r) (h : List Event) :
    r ∈ (callbacksOf r h).filterMap f ↔ r ∈ h.filterMap f := by
  simp only [callbacksOf, List.mem_filterMap, List.mem_filter, decide_eq_true_eq]
  refine exists_congr fun ev => ?_
  constructor
  · rintro ⟨hMem, hOf⟩
    exact ⟨hMem.1, hOf⟩
  · rintro ⟨hMem, hOf⟩
    exact ⟨⟨hMem, hf hOf⟩, hOf⟩

theorem mem_ended_callbacksOf {r : Nat} {h : List Event} : r ∈ ended (callbacksOf r h) ↔ r ∈ ended h :=
  mem_filterMap_callbacksOf Event.request?_of_ended? h

theorem mem_succeeded_callbacksOf {r : Nat} {h : List Event} :
    r ∈ succeeded (callbacksOf r h) ↔ r ∈ succeeded h :=
  mem_filterMap_callbacksOf (fun hOk => Event.request?_of_ended? (Event.ended?_of_succeeded? hOk)) h

-- ---------------------------------------------------------------------------
-- Connections by themselves
-- ---------------------------------------------------------------------------

/-- Every connection has done what its own events make of its request, and the callbacks of a request
are the calls of its connection. Where no request was made there are no events. -/
structure System.Separate (inputs : List Input) (s : System) : Prop where
  sound    : s.Sound
  answered : answers s.history = (starts inputs).map Prod.fst
  alone    : ∀ r, Outcome.runFound ⟨requestOf r inputs, []⟩ (foundOf r inputs)
    = some (s.conns r).outcome
  told     : ∀ r, callbacksOf r s.history = (s.conns r).outcome.actions.filterMap (eventOf r)
  made     : ∀ r, requestOf r inputs = none → foundOf r inputs = []

namespace System.Separate

variable {inputs : List Input} {s s' : System}

theorem length_starts (h : s.Separate inputs) : (starts inputs).length = s.next := by
  rw [next, h.answered, List.length_map]

theorem requestOf_next (h : s.Separate inputs) : requestOf s.next inputs = none := by
  rw [requestOf, List.getElem?_eq_none h.length_starts.le]
  rfl

/-- A connection without a request has done nothing. -/
theorem idle (h : s.Separate inputs) {r : Nat} (hNone : requestOf r inputs = none) :
    (s.conns r).outcome = ⟨none, []⟩ := by
  have hAlone := h.alone r
  rw [hNone, h.made r hNone] at hAlone
  exact (Option.some.inj hAlone).symm

theorem navigate (h : s.Separate inputs) (url : List UInt8) (save : Bool) (a : Allocations)
    (connect : BitVec 8) :
    System.Separate (inputs ++ [.navigate url save a connect])
      { conns := Function.update s.conns s.next
          ⟨⟨(httpcGetFile a naobrowseTarget connect).2, []⟩, tcpWnd⟩
        history := s.history
          ++ [.navigate url save (httpcGetFile a naobrowseTarget connect).1] } := by
  have hStarts : starts (inputs ++ [.navigate url save a connect])
      = starts inputs ++ [httpcGetFile a naobrowseTarget connect] := starts_append ..
  have hFound (r : Nat) : foundOf r (inputs ++ [.navigate url save a connect]) = foundOf r inputs :=
    (foundOf_append ..).trans (List.append_nil _)
  have hCalls (r : Nat) (error : BitVec 8) :
      callbacksOf r (s.history ++ [.navigate url save error]) = callbacksOf r s.history :=
    (callbacksOf_append ..).trans (List.append_nil _)
  have hOther {r : Nat} (hNe : r ≠ s.next) :
      requestOf r (inputs ++ [.navigate url save a connect]) = requestOf r inputs := by
    have hLen := h.length_starts
    rw [requestOf, requestOf, hStarts]
    rcases Nat.lt_or_ge r (starts inputs).length with hOld | hNew
    · rw [List.getElem?_append_left hOld]
    · rw [List.getElem?_eq_none hNew, List.getElem?_eq_none (by simp; omega)]
  have hUnused : foundOf s.next inputs = [] := h.made _ h.requestOf_next
  refine ⟨h.sound.navigate url save a connect, ?_, fun r => ?_, fun r => ?_, fun r hNone => ?_⟩
  · rw [hStarts, answers_concat, h.answered, List.map_append]
    rfl
  · rw [hFound]
    rcases eq_or_ne r s.next with rfl | hNe
    · have hRequest : requestOf s.next (inputs ++ [.navigate url save a connect])
          = (httpcGetFile a naobrowseTarget connect).2 := by
        rw [requestOf, hStarts, ← h.length_starts, List.getElem?_concat_length]
        rfl
      rw [hRequest, hUnused]
      simp only [Function.update_self, Outcome.runFound]
    · rw [hOther hNe]
      simp only [Function.update_of_ne hNe]
      exact h.alone r
  · rw [hCalls, h.told r]
    rcases eq_or_ne r s.next with rfl | hNe
    · simp only [Function.update_self, h.idle h.requestOf_next, List.filterMap_nil]
    · simp only [Function.update_of_ne hNe]
  · rw [hFound]
    rcases eq_or_ne r s.next with rfl | hNe
    · exact hUnused
    · exact h.made r (hOther hNe ▸ hNone)

theorem tcp (h : s.Separate inputs) {r : Nat} {settings : Settings} {e : TcpEvent} {req : HttpcState}
    {o : Outcome} (hState : (s.conns r).outcome.state = some req)
    (hWnd : e.length ≤ (s.conns r).rcvWnd) (hOk : req.callback settings e = some o) :
    System.Separate (inputs ++ [.tcp r settings e])
      { conns := Function.update s.conns r ((s.conns r).after e o)
        history := s.history ++ o.actions.filterMap (eventOf r) } := by
  have hTold := told_of_effect ((h.sound.conns r).effect hState hWnd hOk) r
  have hStarts : starts (inputs ++ [.tcp r settings e]) = starts inputs :=
    (starts_append ..).trans (List.append_nil _)
  have hRequest (r' : Nat) : requestOf r' (inputs ++ [.tcp r settings e]) = requestOf r' inputs := by
    rw [requestOf, requestOf, hStarts]
  refine ⟨h.sound.tcp hState hWnd hOk, ?_, fun r' => ?_, fun r' => ?_, fun r' hNone => ?_⟩
  · rw [hTold.answers, hStarts, h.answered]
  · rw [hRequest, foundOf_append, foundOf_tcp]
    rcases eq_or_ne r r' with rfl | hNe
    · rw [if_pos rfl, Outcome.runFound_concat, h.alone, Option.bind_some, Outcome.step_eq hState, hOk,
        Option.map_some]
      simp only [Function.update_self, Connection.after]
    · rw [if_neg hNe, List.append_nil]
      simp only [Function.update_of_ne hNe.symm]
      exact h.alone r'
  · rw [callbacksOf_append, callbacksOf_calls, h.told]
    rcases eq_or_ne r r' with rfl | hNe
    · rw [if_pos rfl]
      simp only [Function.update_self, Connection.after, Outcome.after, List.filterMap_append]
    · rw [if_neg hNe, List.append_nil]
      simp only [Function.update_of_ne hNe.symm]
  · rw [hRequest] at hNone
    have hNe : r ≠ r' := by
      -- without a request nothing would be there to call
      rintro rfl
      rw [h.idle hNone] at hState
      cases hState
    rw [foundOf_append, h.made r' hNone, foundOf_tcp, if_neg hNe, List.append_nil]

theorem run (hRun : Run System.Step System.initial inputs s) : s.Separate inputs := by
  refine hRun.invariant_trace System.Separate ?_
    ⟨System.sound_initial, rfl, fun _ => rfl, fun _ => rfl, fun _ _ => rfl⟩
  intro as s i s' h hStep
  cases hStep with
  | navigate url save a connect => exact h.navigate url save a connect
  | tcp hState hWnd hOk => exact h.tcp hState hWnd hOk

/-- No body is too long for the buffer of the browser. -/
theorem fits (h : s.Separate inputs) (r : Nat) : (bodyOf r s.history).length < maxPageStorage - 1 := by
  have hWindow := (h.sound.conns r).window
  have hLt : tcpWnd < maxPageStorage - 1 := by decide
  omega

end System.Separate

/-- The flag, if no callback comes too late. -/
theorem System.Sound.isLoading_iff {s : System} (hs : s.Sound) (hStale : NoStale s.history) :
    s.browser.isLoading = true ↔ Outstanding (latest s.history) s.history :=
  (loadingTruthful_iff hs.valid).mpr hStale.noOverlap s.history (List.prefix_refl _)

/-- Two runs in which `httpc_get_file` gives the same answer to navigation `r` and the same events
come for its connection, while everything else may differ: the browser gets the same callbacks for
`r`, in the same order, and if no callback comes too late and `r` is the latest navigation in both,
the buffer, the flag and a page that has been shown are the same. -/
theorem requests_do_not_interfere {inputs inputs' : List Input} {s s' : System}
    (hRun : Run System.Step System.initial inputs s)
    (hRun' : Run System.Step System.initial inputs' s') {r : Nat}
    (hStart : (starts inputs)[r]? = (starts inputs')[r]?)
    (hFound : foundOf r inputs = foundOf r inputs') :
    (s.conns r).outcome = (s'.conns r).outcome
      ∧ callbacksOf r s.history = callbacksOf r s'.history
      ∧ (NoStale s.history → NoStale s'.history → latest s.history = r → latest s'.history = r →
          s.browser.shared = s'.browser.shared
          ∧ (r ∈ succeeded s.history → s.browser.renderedText = s'.browser.renderedText)) := by
  have h := System.Separate.run hRun
  have h' := System.Separate.run hRun'
  have hOutcome : (s.conns r).outcome = (s'.conns r).outcome := by
    have hAlone := h.alone r
    rw [requestOf, hStart, ← requestOf, hFound, h'.alone r] at hAlone
    exact (Option.some.inj hAlone).symm
  have hCalls : callbacksOf r s.history = callbacksOf r s'.history := by
    rw [h.told, h'.told, hOutcome]
  refine ⟨hOutcome, hCalls, fun hStale hStale' hLatest hLatest' => ?_⟩
  have hBody : bodyOf r s.history = bodyOf r s'.history := by
    rw [← bodyOf_callbacksOf, hCalls, bodyOf_callbacksOf]
  have hOpen : Outstanding r s.history ↔ Outstanding r s'.history := by
    rw [Outstanding, Outstanding, ← mem_ended_callbacksOf, hCalls, mem_ended_callbacksOf, h.answered,
      h'.answered, List.getElem?_map, List.getElem?_map, hStart]
  have hMix := unmixed_of_noStale h.sound.valid hStale
  have hMix' := unmixed_of_noStale h'.sound.valid hStale'
  obtain ⟨hRaw, hLen⟩ := hMix.holds (h.fits _)
  obtain ⟨hRaw', hLen'⟩ := hMix'.holds (h'.fits _)
  have hFlag : s.browser.isLoading = s'.browser.isLoading := by
    rw [Bool.eq_iff_iff, h.sound.isLoading_iff hStale, h'.sound.isLoading_iff hStale', hLatest, hLatest',
      hOpen]
  rw [hLatest, hBody] at hRaw hLen
  rw [hLatest'] at hRaw' hLen'
  refine ⟨?_, fun hOk => ?_⟩
  · rw [Browser.shared, Browser.shared, hFlag]
    exact congrArg₂ (fun raw len => (raw, len, s'.browser.isLoading)) (hRaw.trans hRaw'.symm)
      (hLen.trans hLen'.symm)
  · have hOk' : r ∈ succeeded s'.history := by
      rwa [← mem_succeeded_callbacksOf, hCalls, mem_succeeded_callbacksOf] at hOk
    have hShown := hMix.shows (h.fits _) (by rw [hLatest]; exact hOk)
    have hShown' := hMix'.shows (h'.fits _) (by rw [hLatest']; exact hOk')
    rw [hLatest, hBody] at hShown
    rw [hLatest'] at hShown'
    exact hShown.trans hShown'.symm

/-- Two visits. In one run the first fails before the second; in the other it is never answered, and
its polls come between the segments of the second. -/
def firstFails : List Input :=
  visit :: .tcp 0 naobrowseSettings (.err (-14)) :: visit :: hiConnection.map (.tcp 1 naobrowseSettings)

def firstWaits : List Input :=
  visit :: .tcp 0 naobrowseSettings (.connected 0) :: visit
    :: hiConnection.flatMap fun e =>
      [.tcp 0 ⟨false, none⟩ .poll, .tcp 1 naobrowseSettings e]

/-- The short page is on the screen in both. -/
theorem requests_do_not_interfere_hi :
    ((System.initial.execAll firstFails).getD .initial).browser.renderedText
      = ((System.initial.execAll firstWaits).getD .initial).browser.renderedText := by
  have h := requests_do_not_interfere (r := 1)
    (System.run_getD (show (System.initial.execAll firstFails).isSome = true by decide +kernel))
    (System.run_getD (show (System.initial.execAll firstWaits).isSome = true by decide +kernel))
    rfl rfl
  have hFails : NoStale ((System.initial.execAll firstFails).getD .initial).history
      ∧ latest ((System.initial.execAll firstFails).getD .initial).history = 1
      ∧ 1 ∈ succeeded ((System.initial.execAll firstFails).getD .initial).history := by
    decide +kernel
  have hWaits : NoStale ((System.initial.execAll firstWaits).getD .initial).history
      ∧ latest ((System.initial.execAll firstWaits).getD .initial).history = 1 := by
    decide +kernel
  exact (h.2.2 hFails.1 hWaits.1 hFails.2.1 hWaits.2).2 hFails.2.2

-- ---------------------------------------------------------------------------
-- Timeouts
-- ---------------------------------------------------------------------------

def Event.isBody (r : Nat) : Event → Bool
  | .body r' _ => r' = r
  | _ => false

/-- How many parts of the body of request `r` have come. -/
def chunks (r : Nat) (h : List Event) : Nat := h.countP (Event.isBody r)

namespace System

variable {s s' : System} {inputs : List Input} {r : Nat}

theorem Step.history {i : Input} (hStep : Step s i s') : s.history <+: s'.history := by
  cases hStep <;> exact List.prefix_append _ _

theorem history_run (hRun : Run Step s inputs s') : s.history <+: s'.history := by
  induction hRun with
  | nil s => exact List.prefix_refl _
  | cons hStep _ ih => exact hStep.history.trans ih

/-- A request does not come back. -/
theorem Step.not_live {i : Input} (hStep : Step s i s') (hOld : r < s.next) (hDead : ¬ s.Live r) :
    ¬ s'.Live r := by
  cases hStep with
  | navigate url save a connect =>
    simpa only [Live, Function.update_of_ne hOld.ne] using hDead
  | @tcp r' settings e req o hState hWnd hOk =>
    have hNe : r ≠ r' := by
      rintro rfl
      exact hDead (by rw [Live, hState]; rfl)
    simpa only [Live, Function.update_of_ne hNe] using hDead

theorem next_le (hHistory : s.history <+: s'.history) : s.next ≤ s'.next :=
  (hHistory.filterMap Event.answer?).length_le

theorem not_live_run (hRun : Run Step s inputs s') (hOld : r < s.next) (hDead : ¬ s.Live r) :
    ¬ s'.Live r := by
  induction hRun with
  | nil s => exact hDead
  | cons hStep _ ih =>
    exact ih (Nat.lt_of_lt_of_le hOld (next_le hStep.history)) (hStep.not_live hOld hDead)

/-- One step of a request that gets no part of its body. -/
theorem Step.ticks {i : Input} (hStep : Step s i s') (hs : s.Sound)
    (hQuiet : chunks r s'.history = chunks r s.history) {req req' : HttpcState}
    (hState : (s.conns r).outcome.state = some req)
    (hState' : (s'.conns r).outcome.state = some req') :
    req'.timeoutTicks + polls (eventsOf r [i]) ≤ req.timeoutTicks := by
  have hOpen : Outstanding r s.history := (hs.conns r).live (by rw [hState]; rfl)
  cases hStep with
  | navigate url save a connect =>
    simp only [Function.update_of_ne (show r ≠ s.next from hOpen.lt.ne)] at hState'
    obtain rfl := Option.some.inj (hState.symm.trans hState')
    exact Nat.le_refl _
  | @tcp r' settings e req₁ o hState₁ hWnd hOk =>
    rw [eventsOf, foundOf_tcp]
    rcases eq_or_ne r' r with rfl | hNe
    · obtain rfl := Option.some.inj (hState.symm.trans hState₁)
      simp only [Function.update_self, Connection.after, Outcome.after] at hState'
      rw [if_pos rfl]
      rcases ((hs.conns r').effect hState hWnd hOk).ticks hState' with hSpends | ⟨-, p, hCalls⟩
      · exact hSpends.ticks
      · -- a part of the body would have been counted
        simp [chunks, ← filterMap_calls, hCalls, eventOf, Event.isBody] at hQuiet
    · simp only [Function.update_of_ne hNe.symm] at hState'
      obtain rfl := Option.some.inj (hState.symm.trans hState')
      rw [if_neg hNe]
      exact Nat.le_refl _

theorem polls_eventsOf_cons (r : Nat) (i : Input) (inputs : List Input) :
    polls (eventsOf r (i :: inputs)) = polls (eventsOf r [i]) + polls (eventsOf r inputs) := by
  rw [← List.singleton_append, eventsOf, foundOf_append, List.map_append]
  exact List.countP_append

/-- The polls of a request that gets no part of its body use up its time. -/
theorem ticks_run (hRun : Run Step s inputs s') (hs : s.Sound)
    (hQuiet : chunks r s'.history = chunks r s.history) {req req' : HttpcState}
    (hState : (s.conns r).outcome.state = some req)
    (hState' : (s'.conns r).outcome.state = some req') :
    req'.timeoutTicks + polls (eventsOf r inputs) ≤ req.timeoutTicks := by
  induction hRun generalizing req with
  | nil s =>
    obtain rfl := Option.some.inj (hState.symm.trans hState')
    exact Nat.le_refl _
  | @cons s s₁ s' i inputs hStep hRun ih =>
    have hOpen : Outstanding r s.history := (hs.conns r).live (by rw [hState]; rfl)
    have hFirst : chunks r s.history ≤ chunks r s₁.history := hStep.history.sublist.countP_le
    have hRest : chunks r s₁.history ≤ chunks r s'.history :=
      (history_run hRun).sublist.countP_le
    obtain ⟨req₁, hState₁⟩ : ∃ req₁, (s₁.conns r).outcome.state = some req₁ := by
      refine Option.isSome_iff_exists.mp (not_not.mp fun hDead => ?_)
      have hOld : r < s₁.next := Nat.lt_of_lt_of_le hOpen.lt (next_le hStep.history)
      exact not_live_run hRun hOld hDead (by rw [Live, hState']; rfl)
    have hStepTicks := hStep.ticks hs (by omega) hState hState₁
    have hRunTicks := ih (hs.step hStep) (by omega) hState₁ hState'
    rw [polls_eventsOf_cons]
    omega

end System

/-- A request that is polled 30 times without getting a part of its body has been freed, whatever else
happens meanwhile and whatever the client finds behind `conn_settings`. If this is what was passed, the
browser has its result; and if the request is the latest and no older result came in between, the
browser does not load any more. -/
theorem loading_ends {before inputs : List Input} {s s' : System}
    (hBefore : Run System.Step System.initial before s) (hRun : Run System.Step s inputs s')
    {r : Nat} (hLive : s.Live r) (hQuiet : chunks r s'.history = chunks r s.history)
    (hPolls : httpcPollTimeout ≤ polls (eventsOf r inputs)) :
    ¬ s'.Live r
      ∧ ((∀ i ∈ before ++ inputs, i.Intact) → r ∈ ended s'.history
        ∧ (NoOverlap s'.history → r = latest s'.history → s'.browser.isLoading = false)) := by
  have hs := System.Sound.run hBefore
  have hAll := hBefore.append hRun
  have hs' := System.Sound.run hAll
  obtain ⟨req, hState⟩ := Option.isSome_iff_exists.mp hLive
  have hDead : ¬ s'.Live r := by
    intro hLive'
    obtain ⟨req', hState'⟩ := Option.isSome_iff_exists.mp hLive'
    have hTicks := System.ticks_run hRun hs hQuiet hState hState'
    have hPos := ((hs'.conns r).ticks req' hState').1
    have hLe := ((hs.conns r).ticks req hState).2
    omega
  refine ⟨hDead, fun hIntact => ?_⟩
  have hOpen : Outstanding r s.history := (hs.conns r).live hLive
  have hClosed : ¬ Outstanding r s'.history := fun h => hDead (System.Answered.run hAll hIntact r h)
  constructor
  · -- the navigation was accepted, so that only the result can have closed the request
    obtain ⟨more, hMore⟩ := (System.history_run hRun).filterMap Event.answer?
    have hAccepted : (answers s'.history)[r]? = some 0 := by
      rw [answers, ← hMore]
      exact (List.getElem?_append_left hOpen.lt).trans hOpen.1
    exact not_not.mp fun hEnd => hClosed ⟨hAccepted, hEnd⟩
  · intro hOverlap hLatest
    have hTruthful := (loadingTruthful_iff hs'.valid).mpr hOverlap s'.history (List.prefix_refl _)
    rw [← hLatest] at hTruthful
    rw [System.browser, ← Bool.not_eq_true, hTruthful]
    exact hClosed

/-- A visit, and a server that never answers. -/
def visited : System := (System.initial.execAll [visit]).getD .initial

def manyPolls (found : Settings) : List Input := List.replicate 30 (.tcp 0 found .poll)

def givenUp (found : Settings) : System := (visited.execAll (manyPolls found)).getD .initial

/-- The request is freed, with the settings and without; with them the browser knows. -/
theorem loading_ends_givenUp :
    ¬ (givenUp ⟨false, none⟩).Live 0 ∧ ¬ (givenUp naobrowseSettings).Live 0
      ∧ 0 ∈ ended (givenUp naobrowseSettings).history
      ∧ (givenUp naobrowseSettings).browser.isLoading = false := by
  have hVisit : Run System.Step System.initial [visit] visited :=
    System.run_getD (show (System.initial.execAll [visit]).isSome = true by decide +kernel)
  have hLost := loading_ends hVisit
    (System.run_getD (show (visited.execAll (manyPolls ⟨false, none⟩)).isSome = true by decide +kernel))
    (r := 0) (by decide +kernel) (by decide +kernel) (by decide +kernel)
  have hKept := loading_ends hVisit
    (System.run_getD (show (visited.execAll (manyPolls naobrowseSettings)).isSome = true by
      decide +kernel))
    (r := 0) (by decide +kernel) (by decide +kernel) (by decide +kernel)
  obtain ⟨hEnded, hFlag⟩ := hKept.2 (by simp [visit, manyPolls, Input.Intact])
  have hStale : NoStale (givenUp naobrowseSettings).history := by decide +kernel
  exact ⟨hLost.1, hKept.1, hEnded, hFlag hStale.noOverlap (by decide +kernel)⟩

-- ---------------------------------------------------------------------------
-- Pages
-- ---------------------------------------------------------------------------

theorem mem_succeeded_of_resultsOf {h : List Event} {r : Nat} (hOk : .ok ∈ resultsOf r h) :
    r ∈ succeeded h := by
  obtain ⟨ev, hMem, hRes⟩ := List.mem_filterMap.mp hOk
  cases ev with
  | result r' res n err =>
    rw [Event.resultOf] at hRes
    split at hRes
    · next hSame =>
      obtain rfl := Option.some.inj hRes
      obtain rfl := hSame
      exact List.mem_filterMap.mpr ⟨_, hMem, rfl⟩
    · cases hRes
  | navigate | body => cases hRes

theorem resultsOf_eq_nil_iff {h : List Event} {r : Nat} : resultsOf r h = [] ↔ r ∉ ended h := by
  refine ⟨fun hNone hEnd => ?_, resultsOf_of_not_ended⟩
  obtain ⟨ev, hMem, hEv⟩ := List.mem_filterMap.mp hEnd
  cases ev with
  | result r' res n err =>
    obtain rfl := Option.some.inj hEv
    have hRes : res ∈ resultsOf r' h :=
      List.mem_filterMap.mpr ⟨_, hMem, by rw [Event.resultOf, if_pos rfl]⟩
    rw [hNone] at hRes
    cases hRes
  | navigate | body => cases hEv

/-- A request is new, and its navigation was accepted. -/
theorem requestOf_eq_some {inputs : List Input} {r : Nat} {req : HttpcState}
    (h : requestOf r inputs = some req) :
    (∃ request, req = .new request) ∧ ((starts inputs).map Prod.fst)[r]? = some 0 := by
  obtain ⟨p, hp, hReq⟩ := Option.bind_eq_some_iff.mp h
  obtain ⟨i, -, hi⟩ := List.mem_filterMap.mp (List.mem_of_getElem? hp)
  cases i with
  | navigate url save a connect =>
    obtain rfl := Option.some.inj hi
    refine ⟨httpcGetFile_new hReq, ?_⟩
    rw [List.getElem?_map, hp, Option.map_some, (httpcGetFile_isSome_iff ..).mp (by rw [hReq]; rfl)]
  | tcp => cases hi

/-- A connection on which a whole response was read and closed in time. -/
theorem System.Separate.read_in_time {inputs : List Input} {s : System} (h : s.Separate inputs)
    {r : Nat} {m : Message} (hm : m.Proper) (hLen : m.body.length < 2 ^ 32)
    {found : List (Settings × TcpEvent)} {first last : Settings} (hAgrees : ∀ p ∈ found, p.1.Agrees)
    (hFits : ∀ p ∈ found, TcpEvent.Fits m p.2)
    (hText : HttpClient.received (found.map Prod.snd) = m.text)
    (hPolls : polls (found.map Prod.snd) < httpcPollTimeout)
    (hEvents : foundOf r inputs = (first, .connected 0) :: found ++ [(last, .recv [])]) :
    (answers s.history)[r]? = some 0 ∧ bodyOf r s.history = m.body
      ∧ resultsOf r s.history = if last.resultFn then [m.result] else [] := by
  rcases hRequest : requestOf r inputs with _ | req
  · cases hEvents.symm.trans (h.made r hRequest)
  obtain ⟨⟨request, rfl⟩, hAccepted⟩ := requestOf_eq_some hRequest
  obtain ⟨o, hOutcome, -, hRead⟩ := run_readBack hm hLen request hAgrees
    (fun hNo : False => hNo.elim) hFits hText first last
  have hAlone := h.alone r
  rw [hRequest, hEvents, hOutcome] at hAlone
  obtain rfl := Option.some.inj hAlone
  rcases hRead with ⟨hBytes, hResults⟩ | ⟨hMany, -⟩
  · refine ⟨h.answered ▸ hAccepted, (h.sound.conns r).body.trans hBytes, ?_⟩
    rw [(h.sound.conns r).ended, hResults]
    split <;> rfl
  · exact absurd hPolls (by omega)

/-- The short page again, closed when nothing is left of the settings. -/
def unfinishedInputs : List Input :=
  visit :: (TcpEvent.connected 0 :: hiEvents).map (.tcp 0 naobrowseSettings)
    ++ [.tcp 0 ⟨false, none⟩ (.recv [])]

def unfinishedSystem : System := (System.initial.execAll unfinishedInputs).getD .initial

end Nao.NaoBrowse
