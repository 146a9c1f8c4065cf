import Nao.HttpClient.Parsing

/-!
# The HTTP client — a response in segments

TCP hands a response over in segments of any size, and the client is polled in between. `Progress`
says what the client knows when a prefix of the response has arrived; it depends on the bytes and not
on how they were cut.

* `recv_progress` — one segment.
* `run_reads` — any number of segments and polls.
* `response_read_back` — the caller gets exactly the body, and the result that the content length
  calls for, unless the connection runs into the timeout.
-/

namespace Nao.HttpClient

open SysLib Kernel Lwip Lwip.Chain

-- ---------------------------------------------------------------------------
-- What the caller sees
-- ---------------------------------------------------------------------------

/-- What the body callbacks are given. -/
def Action.bytes : Action → List UInt8
  | .body p => p.flatten
  | _ => []

def delivered (actions : List Action) : List UInt8 := actions.flatMap Action.bytes

def Action.result? : Action → Option (HttpcResult × BitVec 32 × BitVec 32 × BitVec 8)
  | .result res rxContentLen srvRes err => some (res, rxContentLen, srvRes, err)
  | _ => none

def results (actions : List Action) : List (HttpcResult × BitVec 32 × BitVec 32 × BitVec 8) :=
  actions.filterMap Action.result?

@[simp] theorem delivered_append (a b : List Action) :
    delivered (a ++ b) = delivered a ++ delivered b := List.flatMap_append

@[simp] theorem results_append (a b : List Action) : results (a ++ b) = results a ++ results b :=
  List.filterMap_append

theorem delivered_close (settings : Settings) (req : HttpcState) (res : HttpcResult)
    (srvRes : BitVec 32) (err : BitVec 8) (acts : List Action) :
    delivered ((req.httpcClose settings res srvRes err).after acts).actions = delivered acts := by
  rw [Outcome.after, HttpcState.httpcClose, delivered_append]
  split <;> simp [delivered, Action.bytes]

theorem results_close (settings : Settings) (req : HttpcState) (res : HttpcResult)
    (srvRes : BitVec 32) (err : BitVec 8) (acts : List Action) :
    results ((req.httpcClose settings res srvRes err).after acts).actions
      = results acts ++ if settings.resultFn then [(res, req.rxContentLen, srvRes, err)] else [] := by
  rw [Outcome.after, HttpcState.httpcClose, results_append]
  split <;> rfl

/-- The bytes of the segments. -/
def received (es : List TcpEvent) : List UInt8 :=
  es.flatMap fun e => match e with
    | .recv p => p.flatten
    | _ => []

def polls (es : List TcpEvent) : Nat :=
  es.countP fun e => match e with
    | .poll => true
    | _ => false

/-- A `headers_done_fn`, if there is one, lets the request go on. -/
def Settings.Agrees (settings : Settings) : Prop :=
  ∀ fn ∈ settings.headersDoneFn, ∀ hdr hdrLen contentLen, fn hdr hdrLen contentLen = 0

-- ---------------------------------------------------------------------------
-- Progress
-- ---------------------------------------------------------------------------

structure Progress (m : Message) (bytes : List UInt8) (req : HttpcState) : Prop where
  rxContentLen : req.rxContentLen = .ofNat 32 (bytes.length - m.head.length)
  stage : match req.parseState with
    | .waitFirstLine => req.rxHdrs.flatten = bytes ∧ bytes.length < m.statusLine.length + 2
    | .waitHeaders => req.rxHdrs.flatten = bytes ∧ bytes.length < m.head.length
        ∧ req.rxStatus = .ofNat 16 m.status
    | .rxData => m.head.length ≤ bytes.length ∧ req.rxStatus = .ofNat 16 m.status
        ∧ req.hdrContentLen = m.contentLengthWord

variable {told : Prop} {m : Message} {settings : Settings} {req : HttpcState} {bytes : List UInt8}
  {p : Chain}

/-- What a callback does that neither ends the request nor shortens its time. -/
structure Continues (req : HttpcState) (o : Outcome) (req' : HttpcState) : Prop where
  state   : o.state = some req'
  results : results o.actions = []
  ticks   : min httpcPollTimeout req.timeoutTicks ≤ req'.timeoutTicks

theorem progress_new (request : Request) :
    Progress m [] { HttpcState.new request with request := none } where
  rxContentLen := by simp [HttpcState.new]
  stage := ⟨rfl, by simp⟩

theorem takeData_continues (req : HttpcState) (hSize : p.flatten.length < 2 ^ 16) :
    ∃ req', Continues req (req.takeData p) req' ∧ delivered (req.takeData p).actions = p.flatten
      ∧ req'.rxContentLen = req.rxContentLen + .ofNat 32 p.flatten.length
      ∧ req'.parseState = req.parseState ∧ req'.rxStatus = req.rxStatus
      ∧ req'.hdrContentLen = req.hdrContentLen := by
  rw [HttpcState.takeData]
  split
  · refine ⟨_, ⟨rfl, rfl, Nat.min_le_left ..⟩, ?_, by rw [totLen_eq hSize], rfl, rfl, rfl⟩
    simp [delivered, Action.bytes]
  · next hNil =>
    obtain rfl := not_not.mp hNil
    exact ⟨req, ⟨rfl, rfl, Nat.min_le_right ..⟩, rfl, by simp, rfl, rfl, rfl⟩

/-- The end of the header: what has come behind it is the beginning of the body. -/
theorem endHeaders_progress (hAgrees : settings.Agrees) (hHdrs : req.rxHdrs.flatten = bytes)
    (hHead : m.head.length ≤ bytes.length) (hLen : bytes.length < 2 ^ 16)
    (hStatus : req.rxStatus = .ofNat 16 m.status) (hRx : req.rxContentLen = 0) :
    ∃ req', Continues req (req.endHeaders settings m.contentLengthWord m.head.length) req'
      ∧ Progress m bytes req'
      ∧ delivered (req.endHeaders settings m.contentLengthWord m.head.length).actions
        = bytes.drop m.head.length := by
  have hRest : (req.rxHdrs.pbufFreeHeader m.head.length).flatten = bytes.drop m.head.length := by
    rw [flatten_pbufFreeHeader, hHdrs]
  obtain ⟨req', hGo, hBytes, hRx', hState, hStatus', hLength⟩ := takeData_continues
    (p := req.rxHdrs.pbufFreeHeader m.head.length)
    { req with hdrContentLen := m.contentLengthWord, rxHdrs := [], parseState := .rxData }
    (by rw [hRest, List.length_drop]; omega)
  have hProg : Progress m bytes req' := by
    refine ⟨?_, ?_⟩
    · rw [hRx', hRest, List.length_drop]
      simp [hRx]
    · rw [hState]
      exact ⟨hHead, hStatus'.trans hStatus, hLength⟩
  refine ⟨req', ?_, hProg, ?_⟩
  · rw [HttpcState.endHeaders]
    split
    · exact ⟨hGo.state, hGo.results, hGo.ticks⟩
    · next fn hFn =>
      rw [if_neg (not_not.mpr (hAgrees fn hFn _ _ _))]
      exact ⟨hGo.state, hGo.results, hGo.ticks⟩
  · rw [HttpcState.endHeaders]
    split
    · rw [← hRest, ← hBytes]
      rfl
    · next fn hFn =>
      rw [if_neg (not_not.mpr (hAgrees fn hFn _ _ _)), ← hRest, ← hBytes]
      rfl

theorem takeHeaders_progress (req : HttpcState) (h : m.Proper) (hAgrees : settings.Agrees)
    (hState : req.parseState = .waitHeaders) (hHdrs : req.rxHdrs.flatten = bytes)
    (hText : bytes <+: m.text) (hLen : bytes.length < 2 ^ 16)
    (hStatus : req.rxStatus = .ofNat 16 m.status) (hRx : req.rxContentLen = 0) :
    ∃ o req', req.takeHeaders settings = some o ∧ Continues req o req' ∧ Progress m bytes req'
      ∧ delivered o.actions = bytes.drop m.head.length := by
  subst hHdrs
  rw [HttpcState.takeHeaders, if_pos hState]
  rcases Nat.lt_or_ge req.rxHdrs.flatten.length m.head.length with hShort | hHead
  · rw [Message.waitHeaders_missing hText hLen h hShort]
    refine ⟨_, req, rfl, ⟨rfl, rfl, Nat.min_le_right ..⟩, ⟨?_, ?_⟩, ?_⟩
    · rw [hRx, Nat.sub_eq_zero_of_le hShort.le]
      rfl
    · rw [hState]
      exact ⟨rfl, hShort, hStatus⟩
    · rw [List.drop_eq_nil_of_le hShort.le]
      rfl
  · rw [Message.waitHeaders_arrived hText hLen h hHead]
    obtain ⟨req', hGo, hProg, hBytes⟩ :=
      endHeaders_progress hAgrees rfl hHead hLen hStatus hRx
    exact ⟨_, req', rfl, hGo, hProg, hBytes⟩

theorem takeFirstLine_eq (h : m.Proper) (hState : req.parseState = .waitFirstLine)
    (hText : req.rxHdrs.flatten <+: m.text) (hLen : req.rxHdrs.flatten.length < 2 ^ 16) :
    req.takeFirstLine = some (if m.statusLine.length + 2 ≤ req.rxHdrs.flatten.length then
      { req with
        rxHttpVersion := m.versionWord, rxStatus := .ofNat 16 m.status, parseState := .waitHeaders }
      else req) := by
  rw [HttpcState.takeFirstLine, if_pos hState]
  split
  · next hEnd =>
    rw [Message.parseStatus_arrived hText hLen h hEnd]
    rfl
  · next hShort =>
    rw [Message.parseStatus_missing hText hLen h (by omega), Option.map_some]
    simp [← hState]

/-- Both parsers on what has come before the end of the header was seen. -/
theorem parse_progress (req : HttpcState) (h : m.Proper) (hAgrees : settings.Agrees)
    (hHdrs : req.rxHdrs.flatten = bytes) (hText : bytes <+: m.text) (hLen : bytes.length < 2 ^ 16)
    (hState : req.parseState = .waitFirstLine
      ∨ req.parseState = .waitHeaders ∧ req.rxStatus = .ofNat 16 m.status)
    (hRx : req.rxContentLen = 0) :
    ∃ o req', req.takeFirstLine.bind (HttpcState.takeHeaders settings) = some o
      ∧ Continues req o req' ∧ Progress m bytes req'
      ∧ delivered o.actions = bytes.drop m.head.length := by
  subst hHdrs
  rcases hState with hFirst | ⟨hHeaders, hStatus⟩
  · rw [takeFirstLine_eq h hFirst hText hLen, Option.bind_some]
    split
    · obtain ⟨o, req', hOk, hGo, hRest⟩ := takeHeaders_progress { req with
        rxHttpVersion := m.versionWord, rxStatus := .ofNat 16 m.status
        parseState := .waitHeaders } h hAgrees rfl rfl hText hLen rfl hRx
      exact ⟨o, req', hOk, ⟨hGo.state, hGo.results, hGo.ticks⟩, hRest⟩
    · next hShort =>
      have hHead := Message.length_head (m := m)
      have hPat : (lit "\r\n\r\n").length = 4 := rfl
      have hBefore : req.rxHdrs.flatten.length ≤ m.head.length := by omega
      rw [HttpcState.takeHeaders, if_neg (by rw [hFirst]; decide)]
      refine ⟨_, req, rfl, ⟨rfl, rfl, Nat.min_le_right ..⟩, ⟨?_, ?_⟩, ?_⟩
      · rw [hRx, Nat.sub_eq_zero_of_le hBefore]
        rfl
      · rw [hFirst]
        exact ⟨rfl, by omega⟩
      · rw [List.drop_eq_nil_of_le hBefore]
        rfl
  · rw [HttpcState.takeFirstLine, if_neg (by rw [hHeaders]; decide), Option.bind_some]
    exact takeHeaders_progress req h hAgrees hHeaders rfl hText hLen hStatus hRx

/-- One segment. -/
theorem recv_progress (h : m.Proper) (hAgrees : settings.Agrees) (hProg : Progress m bytes req)
    (hp : p ≠ []) (hText : bytes ++ p.flatten <+: m.text)
    (hSize : m.head.length + p.flatten.length < 2 ^ 16) :
    ∃ o req', req.httpcTcpRecv settings p = some o ∧ Continues req o req'
      ∧ Progress m (bytes ++ p.flatten) req'
      ∧ bytes.drop m.head.length ++ delivered o.actions
        = (bytes ++ p.flatten).drop m.head.length := by
  have hHead := Message.length_head (m := m)
  have hPat : (lit "\r\n\r\n").length = 4 := rfl
  obtain ⟨hRx, hStage⟩ := hProg
  rw [HttpcState.httpcTcpRecv, if_neg hp]
  by_cases hData : req.parseState = .rxData
  · rw [if_neg (not_not.mpr hData)]
    rw [hData] at hStage
    obtain ⟨hArrived, hStatus, hLength⟩ := hStage
    obtain ⟨req', hGo, hBytes, hRx', hState, hStatus', hLength'⟩ :=
      takeData_continues req (show p.flatten.length < 2 ^ 16 by omega)
    refine ⟨_, req', rfl, hGo, ⟨?_, ?_⟩, ?_⟩
    · rw [hRx', hRx, ← BitVec.ofNat_add, List.length_append]
      exact congrArg (BitVec.ofNat 32) (by omega)
    · rw [hState, hData]
      exact ⟨by rw [List.length_append]; omega, hStatus'.trans hStatus, hLength'.trans hLength⟩
    · rw [hBytes, List.drop_append_of_le_length hArrived]
  · -- what has come so far ends before the header does, so that nothing of it was delivered
    have hBefore : req.rxHdrs.flatten = bytes ∧ bytes.length < m.head.length := by
      split at hStage
      · exact ⟨hStage.1, by omega⟩
      · exact ⟨hStage.1, hStage.2.1⟩
      · next hState => exact absurd hState hData
    have hZero : req.rxContentLen = 0 := by
      rw [hRx, Nat.sub_eq_zero_of_le hBefore.2.le]
      rfl
    have hHdrs : (if req.rxHdrs = [] then p else pbufCat req.rxHdrs p).flatten
        = bytes ++ p.flatten := by
      split
      · next hNil => simp [← hBefore.1, hNil]
      · rw [pbufCat, List.flatten_append, hBefore.1]
    have hLen : (bytes ++ p.flatten).length < 2 ^ 16 := by
      rw [List.length_append]
      omega
    rw [if_pos hData, List.drop_eq_nil_of_le hBefore.2.le]
    have hState : req.parseState = .waitFirstLine
        ∨ req.parseState = .waitHeaders ∧ req.rxStatus = .ofNat 16 m.status := by
      split at hStage
      · next hState => exact .inl hState
      · next hState => exact .inr ⟨hState, hStage.2.2⟩
      · next hState => exact absurd hState hData
    obtain ⟨o, req', hOk, hGo, hProg, hBytes⟩ := parse_progress
      { req with rxHdrs := if req.rxHdrs = [] then p else pbufCat req.rxHdrs p }
      h hAgrees hHdrs hText hLen hState hZero
    exact ⟨o, req', hOk, ⟨hGo.state, hGo.results, hGo.ticks⟩, hProg, hBytes⟩

-- ---------------------------------------------------------------------------
-- Runs
-- ---------------------------------------------------------------------------

theorem Outcome.runFound_concat (o : Outcome) (es : List (Settings × TcpEvent)) (found : Settings)
    (e : TcpEvent) :
    o.runFound (es ++ [(found, e)]) = (o.runFound es).bind fun o => o.step found e := by
  induction es generalizing o with
  | nil =>
    rw [List.nil_append, runFound, runFound, Option.bind_some]
    cases o.step found e <;> rfl
  | cons p es ih =>
    obtain ⟨found', e'⟩ := p
    rw [List.cons_append, runFound, runFound, Option.bind_assoc]
    exact congrArg (Option.bind _) (funext ih)

theorem Outcome.step_eq {o : Outcome} (hState : o.state = some req) (settings : Settings)
    (e : TcpEvent) : o.step settings e = (req.callback settings e).map (·.after o.actions) := by
  rw [step, hState]

/-- The client after `bytes` have arrived and `n` polls: the body so far has been delivered, or the
request has been given up after the polls that takes. Whether the caller was told of this depends on
the settings that the client found, so that it is said under a condition. -/
def Reads (told : Prop) (m : Message) (bytes : List UInt8) (n : Nat) (o : Outcome) : Prop :=
  (∃ req, o.state = some req ∧ Progress m bytes req ∧ httpcPollTimeout ≤ req.timeoutTicks + n
    ∧ results o.actions = [] ∧ delivered o.actions = bytes.drop m.head.length)
  ∨ o.state = none ∧ httpcPollTimeout ≤ n ∧ delivered o.actions <+: m.body
    ∧ (told → results o.actions = [(.errTimeout, .ofNat 32 (delivered o.actions).length, 0, 0)])

theorem delivered_of_arrived (hText : bytes <+: m.text) : bytes.drop m.head.length <+: m.body := by
  have h := hText.drop m.head.length
  rwa [Message.text, List.drop_left] at h

theorem Reads.poll {n : Nat} {o : Outcome} (h : Reads told m bytes n o)
    (hTold : told → settings.resultFn) (hText : bytes <+: m.text) :
    ∃ o', o.step settings .poll = some o' ∧ Reads told m bytes (n + 1) o' := by
  rcases h with ⟨req, hState, hProg, hTicks, hResults, hBytes⟩ | ⟨hState, hTicks, hEnd⟩
  · rw [Outcome.step_eq hState, HttpcState.callback, Option.map_some]
    refine ⟨_, rfl, ?_⟩
    rw [HttpcState.httpcTcpPoll]
    simp only
    split
    · next hZero =>
      refine .inr ⟨rfl, by omega, ?_⟩
      rw [delivered_close, hBytes]
      refine ⟨delivered_of_arrived hText, fun hYes => ?_⟩
      rw [results_close, if_pos (hTold hYes), hResults, List.length_drop, ← hProg.rxContentLen]
      rfl
    · next hSome =>
      refine .inl ⟨_, rfl, ⟨hProg.rxContentLen, hProg.stage⟩, ?_, ?_, ?_⟩
      · simp only
        omega
      · simpa [Outcome.after] using hResults
      · simpa [Outcome.after, delivered] using hBytes
  · exact ⟨o, by rw [Outcome.step, hState], .inr ⟨hState, by omega, hEnd⟩⟩

theorem Reads.recv {n : Nat} {o : Outcome} (h : Reads told m bytes n o) (hm : m.Proper)
    (hAgrees : settings.Agrees) (hp : p ≠ []) (hText : bytes ++ p.flatten <+: m.text)
    (hSize : m.head.length + p.flatten.length < 2 ^ 16) :
    ∃ o', o.step settings (.recv p) = some o' ∧ Reads told m (bytes ++ p.flatten) n o' := by
  rcases h with ⟨req, hState, hProg, hTicks, hResults, hBytes⟩ | ⟨hState, hEnd⟩
  · obtain ⟨o', req', hOk, hGo, hProg', hBytes'⟩ := recv_progress hm hAgrees hProg hp hText hSize
    rw [Outcome.step_eq hState, HttpcState.callback, hOk, Option.map_some]
    refine ⟨_, rfl, .inl ⟨req', hGo.state, hProg', ?_, ?_, ?_⟩⟩
    · have := hGo.ticks
      omega
    · simp [Outcome.after, hResults, hGo.results]
    · simp only [Outcome.after, delivered_append, hBytes, hBytes']
  · exact ⟨o, by rw [Outcome.step, hState], .inr ⟨hState, hEnd⟩⟩

/-- A poll, or a segment that the client can hold together with the header. -/
def TcpEvent.Fits (m : Message) : TcpEvent → Prop
  | .recv p => p ≠ [] ∧ m.head.length + p.flatten.length < 2 ^ 16
  | .poll => True
  | _ => False

/-- Segments and polls in any order. -/
theorem run_reads (hm : m.Proper) {found : List (Settings × TcpEvent)}
    (hAgrees : ∀ p ∈ found, p.1.Agrees) (hTold : told → ∀ p ∈ found, p.1.resultFn)
    {o : Outcome} (hStart : Reads told m [] 0 o) (hFits : ∀ p ∈ found, TcpEvent.Fits m p.2)
    (hText : received (found.map Prod.snd) <+: m.text) :
    ∃ o', o.runFound found = some o'
      ∧ Reads told m (received (found.map Prod.snd)) (polls (found.map Prod.snd)) o' := by
  induction found using List.reverseRecOn with
  | nil => exact ⟨o, rfl, hStart⟩
  | append_singleton found p ih =>
    obtain ⟨settings, e⟩ := p
    have hLast : (settings, e) ∈ found ++ [(settings, e)] := by simp
    have hReceived : received ((found ++ [(settings, e)]).map Prod.snd)
        = received (found.map Prod.snd) ++ received [e] := by
      rw [List.map_append]
      exact List.flatMap_append
    have hPolls : polls ((found ++ [(settings, e)]).map Prod.snd)
        = polls (found.map Prod.snd) + polls [e] := by
      rw [List.map_append]
      exact List.countP_append
    rw [hReceived] at hText
    obtain ⟨o₁, hRun, hReads⟩ := ih (fun p hp => hAgrees p (List.mem_append_left _ hp))
      (fun hYes p hp => hTold hYes p (List.mem_append_left _ hp))
      (fun p hp => hFits p (List.mem_append_left _ hp)) ((List.prefix_append _ _).trans hText)
    rw [Outcome.runFound_concat, hRun, Option.bind_some, hReceived, hPolls]
    have hFitsLast : TcpEvent.Fits m e := hFits _ hLast
    cases e with
    | recv p =>
      obtain ⟨hp, hSize⟩ := hFitsLast
      have hSeg : received [.recv p] = p.flatten := by simp [received]
      rw [hSeg] at hText ⊢
      exact hReads.recv hm (hAgrees _ hLast) hp hText hSize
    | poll =>
      have hSeg : received [.poll] = [] := rfl
      rw [hSeg, List.append_nil] at hText ⊢
      exact hReads.poll (fun hYes => hTold hYes _ hLast) hText
    | connected r => exact hFitsLast.elim
    | err err => exact hFitsLast.elim

/-- The result that the content length of a message calls for. -/
def Message.result (m : Message) : HttpcResult :=
  if m.contentLength = none ∨ m.contentLength = some m.body.length then .ok else .errContentLen

/-- When everything has arrived, the client is past the header and has counted the body. -/
theorem Progress.complete (h : Progress m m.text req) :
    req.parseState = .rxData ∧ req.rxContentLen = .ofNat 32 m.body.length
      ∧ req.rxStatus = .ofNat 16 m.status ∧ req.hdrContentLen = m.contentLengthWord := by
  obtain ⟨hRx, hStage⟩ := h
  have hText : m.text.length = m.head.length + m.body.length := List.length_append
  have hHead := Message.length_head (m := m)
  have hPat : (lit "\r\n\r\n").length = 4 := rfl
  rw [hText, Nat.add_sub_cancel_left] at hRx
  split at hStage
  · exact absurd hStage.2 (by omega)
  · exact absurd hStage.2.1 (by omega)
  · next hState => exact ⟨hState, hRx, hStage.2⟩

theorem Progress.closedResult (h : Progress m m.text req) (hm : m.Proper)
    (hBody : m.body.length < 2 ^ 32) : req.closedResult = m.result := by
  obtain ⟨hState, hRx, -, hLength⟩ := h.complete
  rw [HttpcState.closedResult, if_neg (not_not.mpr hState), hRx, hLength, Message.result,
    Message.contentLengthWord]
  rcases hSome : m.contentLength with _ | n
  · simp
  · have hn := hm.length_lt n hSome
    have hNe : BitVec.ofNat 32 n ≠ httpcContentLenInvalid := by
      rw [httpcContentLenInvalid, Ne, ← BitVec.toNat_inj, BitVec.toNat_ofNat]
      show ¬ n % 2 ^ 32 = 0xFFFFFFFF
      omega
    have hEq : BitVec.ofNat 32 n = .ofNat 32 m.body.length ↔ n = m.body.length := by
      rw [← BitVec.toNat_inj, BitVec.toNat_ofNat, BitVec.toNat_ofNat, Nat.mod_eq_of_lt (by omega),
        Nat.mod_eq_of_lt hBody]
    simp only [Option.map_some, Option.getD_some, ne_eq, hNe, not_false_eq_true, hEq, true_and,
      reduceCtorEq, false_or, Option.some.injEq, ite_not]

/-- What the caller has got when the whole message has arrived, `n` polls were made, and the server has
closed the connection; `found` are the settings that the client then found. -/
def ReadBack (told : Prop) (m : Message) (n : Nat) (found : Settings) (o : Outcome) : Prop :=
  o.state = none
    ∧ (delivered o.actions = m.body
        ∧ results o.actions
          = (if found.resultFn then [(m.result, .ofNat 32 m.body.length, .ofNat 32 m.status, 0)]
            else [])
      ∨ httpcPollTimeout ≤ n ∧ delivered o.actions <+: m.body
        ∧ (told →
          results o.actions = [(.errTimeout, .ofNat 32 (delivered o.actions).length, 0, 0)]))

theorem Reads.close {n : Nat} {o : Outcome} (h : Reads told m m.text n o) (hm : m.Proper)
    (hBody : m.body.length < 2 ^ 32) (found : Settings) :
    ∃ o', o.step found (.recv []) = some o' ∧ ReadBack told m n found o' := by
  rcases h with ⟨req, hState, hProg, -, hResults, hBytes⟩ | ⟨hState, hEnd⟩
  · rw [Message.text, List.drop_left] at hBytes
    obtain ⟨-, hRx, hStatus, -⟩ := hProg.complete
    have hWord : (BitVec.ofNat 16 m.status).setWidth 32 = BitVec.ofNat 32 m.status := by
      rw [← BitVec.toNat_inj, BitVec.toNat_setWidth, BitVec.toNat_ofNat,
        Nat.mod_eq_of_lt hm.status_lt, BitVec.toNat_ofNat]
    rw [Outcome.step_eq hState]
    refine ⟨_, rfl, rfl, .inl ⟨?_, ?_⟩⟩
    · rw [delivered_close, hBytes]
    · rw [results_close, hResults, hProg.closedResult hm hBody, hRx, hStatus, hWord,
        List.nil_append]
  · exact ⟨o, by rw [Outcome.step, hState], hState, .inr hEnd⟩

/-- A connection from its beginning to its end. -/
theorem run_readBack (hm : m.Proper) (hBody : m.body.length < 2 ^ 32) (request : Request)
    {found : List (Settings × TcpEvent)} (hAgrees : ∀ p ∈ found, p.1.Agrees)
    (hTold : told → ∀ p ∈ found, p.1.resultFn) (hFits : ∀ p ∈ found, TcpEvent.Fits m p.2)
    (hText : received (found.map Prod.snd) = m.text) (first last : Settings) :
    ∃ o, Outcome.runFound ⟨some (.new request), []⟩
        ((first, .connected 0) :: found ++ [(last, .recv [])]) = some o
      ∧ ReadBack told m (polls (found.map Prod.snd)) last o := by
  have hNew : Reads told m [] 0
      ⟨some { HttpcState.new request with request := none }, [.write request.sent]⟩ :=
    .inl ⟨_, rfl, progress_new request, Nat.le_refl _, rfl, rfl⟩
  obtain ⟨o, hRun, hReads⟩ := run_reads hm hAgrees hTold hNew hFits (hText ▸ List.prefix_refl _)
  rw [hText] at hReads
  have hStart : Outcome.runFound ⟨some (.new request), []⟩
        ((first, .connected 0) :: found ++ [(last, .recv [])])
      = o.step last (.recv []) := by
    rw [Outcome.runFound_concat, Outcome.runFound]
    exact congrArg (Option.bind · _) hRun
  rw [hStart]
  exact hReads.close hm hBody last

/-- A short page with its content length. -/
def hiMessage : Message where
  major := 1
  minor := 0
  status := 200
  reason := lit "OK"
  before := [lit "Server: nao"]
  contentLength := some 2
  after := [lit "Connection: close"]
  body := lit "hi"

theorem hiMessage_proper : hiMessage.Proper where
  major_lt := by decide
  minor_lt := by decide
  status_pos := by decide
  status_lt := by decide
  reason_line := by decide
  lines_proper := by decide
  length_lt := by decide
  unambiguous i hOccurs := by
    have hLe : i + 16 ≤ 72 := hOccurs.le_length (by decide)
    have hAll : ∀ i < 57, OccursAt (lit "Content-Length: ") hiMessage.text i →
        hiMessage.contentLength.isSome ∧ hiMessage.contentLengthAt ≤ i := by decide
    exact hAll i (by omega) hOccurs

end Nao.HttpClient
