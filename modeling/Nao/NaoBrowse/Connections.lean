import Nao.NaoBrowse.Requests
import Nao.HttpClient.Callbacks
import Nao.Lib.Lts

/-!
# NaoBrowse — requests over TCP

The browser with the HTTP client below it. Every navigation calls `httpc_get_file`; TCP then reports
events for the connections, in any order, and the callbacks of the client call those of the browser.
The histories that arise are those of `Requests`, with nothing assumed about them but what TCP does:
it hands over at most as many bytes as the receive window has room for, and the window opens only by
what `altcp_recved` reports.

* `Sound` — what every step keeps: callbacks come for outstanding requests only, and the browser is
  given what the client has counted.
* `requests_meet_contract` — callbacks come for requests that the client holds and the browser waits
  for, and stop with the one result.
* `body_within_window` — no body is longer than the receive window: `naobrowse_http_body_cb` does not
  report what it takes.

`naobrowse_navigate_to` passes the settings in a local variable, which is gone when the client reads
them. What it finds there is part of the events, and the results hold for anything it may find. Only
that the browser hears of the end of a request is said under `Input.Intact`: the client finds what was
passed.
-/

namespace Nao.NaoBrowse

open SysLib Kernel Lwip Lwip.Chain HttpClient

-- ---------------------------------------------------------------------------
-- The system
-- ---------------------------------------------------------------------------

/-- `TCP_WND`, four times `TCP_MSS`. -/
def tcpWnd : Nat := 4 * 1460

/-- What `httpc_get_file` is asked for: `/` from the gateway, without a proxy. -/
def naobrowseTarget : Target where
  useProxy := false
  proxyPort := 0
  serverName := lit "10.0.2.2"
  serverPort := 80
  uri := lit "/"
  useHost := true

/-- `settings`, all zeros but for `result_fn`. -/
def naobrowseSettings : Settings where
  resultFn := true
  headersDoneFn := none

/-- The values of `ERR_MEM` and `ERR_VAL`. -/
def errCode : Err → BitVec 8
  | .mem => -1
  | .val => -6

/-- `httpc_get_file`, with what `altcp_connect` returns. -/
def httpcGetFile (a : Allocations) (t : Target) (connect : BitVec 8) :
    BitVec 8 × Option HttpcState :=
  match httpcInitConnectionCommon a t with
  | .error err => (errCode err, none)
  | .ok request => if connect ≠ 0 then (connect, none) else (0, some (.new request))

/-- A connection: the client's state and what the client did on it, and the receive window. -/
structure Connection where
  outcome : Outcome
  rcvWnd  : Nat

/-- The connections by the number of the navigation, and what the browser has seen. -/
structure System where
  conns   : Nat → Connection
  history : List Event

inductive Input where
  | navigate (url : List UInt8) (saveToHistory : Bool) (a : Allocations) (connect : BitVec 8)
  | tcp (r : Nat) (settings : Settings) (e : TcpEvent)

theorem length_copied_lt (p : Chain) : (p.pbufCopyPartial p.totLen 0).length < 65536 := by
  have h := totLen_lt p
  rw [pbufCopyPartial_eq, List.length_take]
  omega

/-- The chunk that `naobrowse_http_body_cb` copies. -/
def pbufOf (p : Chain) : Pbuf where
  payload := p.pbufCopyPartial p.totLen 0
  tot_lt := length_copied_lt p

/-- The callback of the browser. Its fourth parameter is a `signed char`, where the client passes
the server's response; the low byte of that arrives. -/
def eventOf (r : Nat) : HttpClient.Action → Option Event
  | .body p => some (.body r (some (pbufOf p)))
  | .result res rxContentLen srvRes _ => some (.result r res rxContentLen (srvRes.setWidth 8))
  | _ => none

/-- A connection after an event; `tcp_recved` does not open the window beyond `TCP_WND`. -/
def Connection.after (c : Connection) (e : TcpEvent) (o : Outcome) : Connection where
  outcome := o.after c.outcome.actions
  rcvWnd := min tcpWnd (c.rcvWnd - e.length + recvedLen o.actions)

namespace System

def initial : System where
  conns _ := ⟨⟨none, []⟩, tcpWnd⟩
  history := []

/-- The number of the next navigation. -/
def next (s : System) : Nat := (answers s.history).length

inductive Step : System → Input → System → Prop where
  | navigate (s : System) (url : List UInt8) (save : Bool) (a : Allocations) (connect : BitVec 8) :
      Step s (.navigate url save a connect)
        { conns := Function.update s.conns s.next
            ⟨⟨(httpcGetFile a naobrowseTarget connect).2, []⟩, tcpWnd⟩
          history := s.history
            ++ [.navigate url save (httpcGetFile a naobrowseTarget connect).1] }
  | tcp {s : System} {r : Nat} {settings : Settings} {e : TcpEvent} {req : HttpcState} {o : Outcome}
      (hState : (s.conns r).outcome.state = some req) (hWnd : e.length ≤ (s.conns r).rcvWnd)
      (hOk : req.callback settings e = some o) :
      Step s (.tcp r settings e)
        { conns := Function.update s.conns r ((s.conns r).after e o)
          history := s.history ++ o.actions.filterMap (eventOf r) }

/-- One step, computed. -/
def exec (s : System) : Input → Option System
  | .navigate url save a connect => some
      { conns := Function.update s.conns s.next
          ⟨⟨(httpcGetFile a naobrowseTarget connect).2, []⟩, tcpWnd⟩
        history := s.history ++ [.navigate url save (httpcGetFile a naobrowseTarget connect).1] }
  | .tcp r settings e =>
    match (s.conns r).outcome.state with
    | none => none
    | some req =>
      if e.length ≤ (s.conns r).rcvWnd then
        (req.callback settings e).map fun o =>
          { conns := Function.update s.conns r ((s.conns r).after e o)
            history := s.history ++ o.actions.filterMap (eventOf r) }
      else none

def execAll : System → List Input → Option System
  | s, [] => some s
  | s, i :: inputs => (s.exec i).bind fun s => s.execAll inputs

theorem step_of_exec {s s' : System} {i : Input} (h : s.exec i = some s') : Step s i s' := by
  cases i with
  | navigate url save a connect =>
    obtain rfl := Option.some.inj h
    exact .navigate s url save a connect
  | tcp r settings e =>
    rw [exec] at h
    split at h
    · cases h
    · next req hState =>
      split at h
      · next hWnd =>
        obtain ⟨o, hOk, rfl⟩ := Option.map_eq_some_iff.mp h
        exact .tcp hState hWnd hOk
      · cases h

theorem run_of_execAll {s s' : System} {inputs : List Input} (h : s.execAll inputs = some s') :
    Run Step s inputs s' := by
  induction inputs generalizing s with
  | nil =>
    obtain rfl := Option.some.inj h
    exact .nil s
  | cons i inputs ih =>
    obtain ⟨s₁, hStep, hRest⟩ := Option.bind_eq_some_iff.mp h
    exact .cons (step_of_exec hStep) (ih hRest)

theorem run_getD {s : System} {inputs : List Input} (h : (s.execAll inputs).isSome = true) :
    Run Step s inputs ((s.execAll inputs).getD initial) := by
  obtain ⟨s', hs'⟩ := Option.isSome_iff_exists.mp h
  rw [hs', Option.getD_some]
  exact run_of_execAll hs'

/-- The browser. -/
def browser (s : System) : Browser := run s.history

/-- The client still has the request of navigation `r`. -/
def Live (s : System) (r : Nat) : Prop := (s.conns r).outcome.state.isSome

instance (s : System) (r : Nat) : Decidable (s.Live r) := inferInstanceAs (Decidable (_ = true))

end System

-- ---------------------------------------------------------------------------
-- Events and outstanding requests
-- ---------------------------------------------------------------------------

theorem outstanding_body (r r' : Nat) (h : List Event) (p : Option Pbuf) :
    Outstanding r (h ++ [.body r' p]) ↔ Outstanding r h := by
  simp [Outstanding, Event.answer?, Event.ended?]

theorem outstanding_result (r r' : Nat) (h : List Event) (res : HttpcResult) (n : BitVec 32)
    (err : BitVec 8) :
    Outstanding r (h ++ [.result r' res n err]) ↔ Outstanding r h ∧ r ≠ r' := by
  simp [Outstanding, Event.answer?, Event.ended?, and_assoc]

theorem outstanding_navigate {h : List Event} (hValid : Valid h) (r : Nat) (url : List UInt8)
    (save : Bool) (error : BitVec 8) :
    Outstanding r (h ++ [.navigate url save error])
      ↔ Outstanding r h ∨ r = (answers h).length ∧ error = 0 := by
  have hNew : (answers h).length ∉ ended h := fun hr => (hValid.ended_lt hr).false
  simp only [Outstanding, answers_concat, ended_concat, Event.answer?, Event.ended?,
    Option.toList_some, Option.toList_none, List.append_nil]
  rcases Nat.lt_trichotomy r (answers h).length with hlt | rfl | hgt
  · rw [List.getElem?_append_left hlt]
    simp [hlt.ne]
  · simp [hNew]
  · simp [List.getElem?_eq_none (show (answers h).length ≤ r by omega), hgt.ne',
      List.getElem?_eq_none (show (answers h ++ [error]).length ≤ r by simp; omega)]

theorem payload_pbufOf {p : Chain} (hSize : p.flatten.length < 2 ^ 16) :
    (pbufOf p).payload = p.flatten := by
  show p.pbufCopyPartial p.totLen 0 = p.flatten
  rw [pbufCopyPartial_eq, totLen_eq hSize, List.drop_zero, List.take_length]

/-- The results an event brings for request `r`. -/
def Event.resultOf (r : Nat) : Event → Option HttpcResult
  | .result r' res _ _ => if r' = r then some res else none
  | _ => none

def resultsOf (r : Nat) (h : List Event) : List HttpcResult := h.filterMap (Event.resultOf r)

theorem resultsOf_append (r : Nat) (h h' : List Event) :
    resultsOf r (h ++ h') = resultsOf r h ++ resultsOf r h' := List.filterMap_append

theorem resultsOf_of_not_ended {h : List Event} {r : Nat} (hEnd : r ∉ ended h) :
    resultsOf r h = [] := by
  rw [resultsOf, List.filterMap_eq_nil_iff]
  intro ev hMem
  cases ev with
  | result r' res n err =>
    have hNe : r' ≠ r := by
      rintro rfl
      exact hEnd (List.mem_filterMap.mpr ⟨_, hMem, rfl⟩)
    simp [Event.resultOf, hNe]
  | _ => rfl

-- ---------------------------------------------------------------------------
-- What every step keeps
-- ---------------------------------------------------------------------------

/-- The state of one connection against what the browser has been told about it. -/
structure Connection.Sound (c : Connection) (r : Nat) (h : List Event) : Prop where
  live   : c.outcome.state.isSome → Outstanding r h
  body   : bodyOf r h = delivered c.outcome.actions
  ended  : resultsOf r h = (results c.outcome.actions).map (·.1)
  window : c.outcome.pending + (bodyOf r h).length + c.rcvWnd ≤ tcpWnd
  count  : ∀ req ∈ c.outcome.state, req.rxContentLen = .ofNat 32 (bodyOf r h).length
  ticks  : ∀ req ∈ c.outcome.state, 0 < req.timeoutTicks ∧ req.timeoutTicks ≤ httpcPollTimeout

structure System.Sound (s : System) : Prop where
  valid    : Valid s.history
  conns    : ∀ r, (s.conns r).Sound r s.history
  reported : ∀ r res n err, .result r res n err ∈ s.history →
    n = .ofNat 32 (bodyOf r s.history).length

theorem httpcGetFile_isSome_iff (a : Allocations) (t : Target) (connect : BitVec 8) :
    (httpcGetFile a t connect).2.isSome ↔ (httpcGetFile a t connect).1 = 0 := by
  rw [httpcGetFile]
  split
  · next err _ => cases err <;> simp [errCode]
  · split
    · next hConnect => simpa using hConnect
    · simp

theorem httpcGetFile_new {a : Allocations} {t : Target} {connect : BitVec 8} {req : HttpcState}
    (h : req ∈ (httpcGetFile a t connect).2) : ∃ request, req = .new request := by
  rw [httpcGetFile] at h
  split at h
  · cases h
  · next request _ =>
    split at h
    · cases h
    · exact ⟨request, (Option.some.inj h).symm⟩

namespace Connection.Sound

variable {c : Connection} {r : Nat} {h : List Event}

/-- A connection of which an event does not speak. -/
theorem other (hc : c.Sound r h) {r' : Nat} (hNe : r ≠ r') {ev : Event}
    (hReq : ev.request? = some r') : c.Sound r (h ++ [ev]) := by
  have hBody : bodyOf r (h ++ [ev]) = bodyOf r h := by
    cases ev with
    | navigate => cases hReq
    | body req p =>
      obtain rfl := Option.some.inj hReq
      cases p <;> simp [Event.chunk, hNe.symm]
    | result req => simp [Event.chunk]
  have hOpen : Outstanding r h → Outstanding r (h ++ [ev]) := by
    cases ev with
    | navigate => cases hReq
    | body req p => exact (outstanding_body r req h p).mpr
    | result req res n err =>
      obtain rfl := Option.some.inj hReq
      exact fun hr => (outstanding_result r req h res n err).mpr ⟨hr, hNe⟩
  have hResults : resultsOf r [ev] = [] := by
    cases ev with
    | navigate | body => rfl
    | result req res n err =>
      obtain rfl := Option.some.inj hReq
      simp [resultsOf, Event.resultOf, hNe.symm]
  constructor
  · exact fun hLive => hOpen (hc.live hLive)
  · rw [hBody, hc.body]
  · rw [resultsOf_append, hResults, List.append_nil, hc.ended]
  · rw [hBody]
    exact hc.window
  · rw [hBody]
    exact hc.count
  · exact hc.ticks

theorem navigate (hc : c.Sound r h) (hValid : Valid h) (url : List UInt8) (save : Bool)
    (error : BitVec 8) : c.Sound r (h ++ [.navigate url save error]) := by
  have hBody : bodyOf r (h ++ [.navigate url save error]) = bodyOf r h := by simp [Event.chunk]
  constructor
  · exact fun hLive => (outstanding_navigate hValid r url save error).mpr (.inl (hc.live hLive))
  · rw [hBody, hc.body]
  · rw [resultsOf_append]
    exact (List.append_nil _).trans hc.ended
  · rw [hBody]
    exact hc.window
  · rw [hBody]
    exact hc.count
  · exact hc.ticks

/-- The connection of a new navigation. -/
theorem started (hValid : Valid h) (url : List UInt8) (save : Bool) (a : Allocations)
    (connect : BitVec 8) :
    Connection.Sound ⟨⟨(httpcGetFile a naobrowseTarget connect).2, []⟩, tcpWnd⟩ (answers h).length
      (h ++ [.navigate url save (httpcGetFile a naobrowseTarget connect).1]) := by
  have hBody : bodyOf (answers h).length
      (h ++ [.navigate url save (httpcGetFile a naobrowseTarget connect).1]) = [] := by
    rw [bodyOf_concat, hValid.bodyOf_next]
    rfl
  constructor
  · intro hSome
    exact (outstanding_navigate hValid _ _ _ _).mpr
      (.inr ⟨rfl, (httpcGetFile_isSome_iff ..).mp hSome⟩)
  · exact hBody
  · rw [resultsOf_append, resultsOf_of_not_ended fun hr => (hValid.ended_lt hr).false]
    rfl
  · rw [hBody, Outcome.pending]
    simp only
    rcases hReq : (httpcGetFile a naobrowseTarget connect).2 with _ | req
    · simp
    · obtain ⟨request, rfl⟩ := httpcGetFile_new hReq
      simp [HttpcState.new]
  · intro req hReq
    obtain ⟨request, rfl⟩ := httpcGetFile_new hReq
    rw [hBody]
    rfl
  · intro req hReq
    obtain ⟨request, rfl⟩ := httpcGetFile_new hReq
    exact ⟨show 0 < httpcPollTimeout by decide, Nat.le_refl _⟩

end Connection.Sound

/-- What the browser can be told by one callback about request `r`, of whose body the client has
counted `n` bytes. -/
inductive Told (r : Nat) (n : BitVec 32) : List Event → Prop where
  | nothing : Told r n []
  | body (p : Pbuf) : Told r n [.body r (some p)]
  | result (res : HttpcResult) (err : BitVec 8) : Told r n [.result r res n err]

theorem filterMap_calls (r : Nat) (acts : List HttpClient.Action) :
    (calls acts).filterMap (eventOf r) = acts.filterMap (eventOf r) := by
  induction acts with
  | nil => rfl
  | cons a acts ih =>
    rw [calls, List.filter_cons, List.filterMap_cons, ← ih]
    cases a <;> rfl

theorem told_of_effect {settings : Settings} {req : HttpcState} {e : TcpEvent} {o : Outcome}
    (h : Effect settings req e o) (r : Nat) :
    Told r req.rxContentLen (o.actions.filterMap (eventOf r)) := by
  obtain ⟨-, hKind⟩ := h
  rw [← filterMap_calls]
  generalize o.state = st, calls o.actions = cs at hKind ⊢
  cases hKind with
  | waits => exact .nothing
  | delivers req' p => exact .body (pbufOf p)
  | ends res srvRes err =>
    split
    · exact .result res (srvRes.setWidth 8)
    · exact .nothing

namespace Told

variable {r : Nat} {n : BitVec 32} {evs h : List Event}

theorem valid (hTold : Told r n evs) (hValid : Valid h) (hOpen : Outstanding r h) :
    Valid (h ++ evs) := by
  cases hTold with
  | nothing => simpa using hValid
  | body p => exact throughout_concat.mpr ⟨hValid, by simpa [Event.request?] using hOpen⟩
  | result res err => exact throughout_concat.mpr ⟨hValid, by simpa [Event.request?] using hOpen⟩

/-- The other requests get no part of a body. -/
theorem bodyOf_of_ne (hTold : Told r n evs) {r' : Nat} (hNe : r' ≠ r) :
    bodyOf r' (h ++ evs) = bodyOf r' h := by
  cases hTold <;> simp [Event.chunk, hNe.symm]

/-- A result is about `r`, reports the count, and comes without a part of the body. -/
theorem of_result (hTold : Told r n evs) {r' : Nat} {res : HttpcResult} {n' : BitVec 32}
    {err : BitVec 8} (hMem : .result r' res n' err ∈ evs) :
    r' = r ∧ n' = n ∧ bodyOf r (h ++ evs) = bodyOf r h := by
  cases hTold with
  | nothing => cases hMem
  | body p => cases List.mem_singleton.mp hMem
  | result res' err' =>
    cases List.mem_singleton.mp hMem
    exact ⟨rfl, rfl, by simp [Event.chunk]⟩

end Told

/-- The body grows by what was delivered. -/
theorem bodyOf_effect {settings : Settings} {req : HttpcState} {e : TcpEvent} {o : Outcome}
    (hEffect : Effect settings req e o) (r : Nat) (h : List Event) :
    bodyOf r (h ++ o.actions.filterMap (eventOf r)) = bodyOf r h ++ delivered o.actions := by
  obtain ⟨-, hKind⟩ := hEffect
  rw [← filterMap_calls, ← delivered_calls]
  generalize o.state = st, calls o.actions = cs at hKind ⊢
  cases hKind with
  | waits => simp [delivered]
  | delivers req' p hSize =>
    simp [eventOf, Event.chunk, payload_pbufOf hSize, delivered, HttpClient.Action.bytes]
  | ends res srvRes err =>
    split
    · simp [eventOf, Event.chunk, delivered, HttpClient.Action.bytes]
    · simp [delivered]

/-- The browser is told the results that the client has reported. -/
theorem resultsOf_effect (r : Nat) (acts : List HttpClient.Action) :
    resultsOf r (acts.filterMap (eventOf r)) = (results acts).map (·.1) := by
  rw [resultsOf, results, List.filterMap_filterMap, List.map_filterMap]
  congr 1
  funext a
  cases a <;> simp [eventOf, Event.resultOf, HttpClient.Action.result?]

/-- A callback that keeps the request does not end it for the browser. -/
theorem outstanding_effect {settings : Settings} {req req' : HttpcState} {e : TcpEvent} {o : Outcome}
    (hEffect : Effect settings req e o) (hState : o.state = some req') {r : Nat} {h : List Event}
    (hOpen : Outstanding r h) : Outstanding r (h ++ o.actions.filterMap (eventOf r)) := by
  obtain ⟨-, hKind⟩ := hEffect
  rw [← filterMap_calls]
  generalize o.state = st, calls o.actions = cs at hKind hState ⊢
  cases hKind with
  | waits => simpa using hOpen
  | delivers req' p => exact (outstanding_body r r h _).mpr hOpen
  | ends => cases hState

namespace Connection.Sound

variable {c : Connection} {r : Nat} {h : List Event} {settings : Settings} {req : HttpcState}
  {e : TcpEvent} {o : Outcome}

/-- Nothing is lost when segments arrive: the window has room for them. -/
theorem effect (hc : c.Sound r h) (hState : c.outcome.state = some req) (hWnd : e.length ≤ c.rcvWnd)
    (hOk : req.callback settings e = some o) : Effect settings req e o := by
  have hWindow := hc.window
  rw [Outcome.pending, hState, Option.elim_some] at hWindow
  refine callback_effect ?_ hOk
  have : tcpWnd < 2 ^ 16 := by decide
  omega

theorem tcp (hc : c.Sound r h) (hState : c.outcome.state = some req) (hWnd : e.length ≤ c.rcvWnd)
    (hOk : req.callback settings e = some o) :
    (c.after e o).Sound r (h ++ o.actions.filterMap (eventOf r)) := by
  have hEffect := hc.effect hState hWnd hOk
  have hBody := bodyOf_effect hEffect r h
  have hBytes := hEffect.bytes
  constructor
  · intro hLive
    obtain ⟨req', hState'⟩ := Option.isSome_iff_exists.mp hLive
    exact outstanding_effect hEffect hState' (hc.live (by rw [hState]; rfl))
  · rw [hBody, hc.body, Connection.after, Outcome.after, delivered_append]
  · rw [resultsOf_append, hc.ended, resultsOf_effect, Connection.after, Outcome.after, results_append,
      List.map_append]
  · have hWindow := hc.window
    rw [Outcome.pending, hState, Option.elim_some] at hWindow
    have hPending : (c.after e o).outcome.pending = o.pending := rfl
    rw [hBody, hPending, List.length_append, Connection.after]
    simp only
    omega
  · intro req' hReq'
    rw [hBody, List.length_append, BitVec.ofNat_add, ← hc.count req hState]
    exact hEffect.rxContentLen hReq'
  · intro req' hReq'
    obtain ⟨hPos, hLe⟩ := hc.ticks req hState
    rcases hEffect.ticks hReq' with hSpends | ⟨hFull, -⟩
    · exact ⟨hSpends.ticks_pos hPos, by have := hSpends.ticks; omega⟩
    · exact ⟨by rw [hFull]; decide, hFull.le⟩

end Connection.Sound

namespace System

variable {s s' : System} {i : Input}

theorem sound_initial : initial.Sound where
  valid := throughout_nil
  conns r := by
    constructor
    · intro hLive
      cases hLive
    · rfl
    · rfl
    · exact Nat.le_refl _
    · intro req hReq
      cases hReq
    · intro req hReq
      cases hReq
  reported r res n err hMem := by cases hMem

theorem Sound.navigate (hs : s.Sound) (url : List UInt8) (save : Bool) (a : Allocations)
    (connect : BitVec 8) :
    Sound
      { conns := Function.update s.conns s.next
          ⟨⟨(httpcGetFile a naobrowseTarget connect).2, []⟩, tcpWnd⟩
        history := s.history ++ [.navigate url save (httpcGetFile a naobrowseTarget connect).1] } where
  valid := throughout_concat.mpr ⟨hs.valid, by simp [Event.request?]⟩
  conns r := by
    rcases eq_or_ne r s.next with rfl | hNe
    · simp only [Function.update_self]
      exact .started hs.valid url save a connect
    · simp only [Function.update_of_ne hNe]
      exact (hs.conns r).navigate hs.valid ..
  reported r res n err hMem := by
    have hOld : .result r res n err ∈ s.history := by simpa using hMem
    rw [bodyOf_concat, hs.reported r res n err hOld]
    simp [Event.chunk]

/-- One callback: its connection moves, and at most one event is about it. -/
theorem Sound.tcp (hs : s.Sound) {r : Nat} {settings : Settings} {e : TcpEvent} {req : HttpcState}
    {o : Outcome} (hState : (s.conns r).outcome.state = some req)
    (hWnd : e.length ≤ (s.conns r).rcvWnd) (hOk : req.callback settings e = some o) :
    Sound
      { conns := Function.update s.conns r ((s.conns r).after e o)
        history := s.history ++ o.actions.filterMap (eventOf r) } := by
  have hEffect := (hs.conns r).effect hState hWnd hOk
  have hOpen : Outstanding r s.history := (hs.conns r).live (by rw [hState]; rfl)
  have hMoved := (hs.conns r).tcp hState hWnd hOk
  have hTold := told_of_effect hEffect r
  have hCount := (hs.conns r).count req hState
  generalize o.actions.filterMap (eventOf r) = evs at hMoved hTold ⊢
  refine ⟨hTold.valid hs.valid hOpen, fun r' => ?_, fun r' res n err hMem => ?_⟩
  · rcases eq_or_ne r' r with rfl | hNe
    · simpa using hMoved
    · simp only [Function.update_of_ne hNe]
      cases hTold with
      | nothing => simpa using hs.conns r'
      | body p => exact (hs.conns r').other hNe rfl
      | result res err => exact (hs.conns r').other hNe rfl
  · rcases List.mem_append.mp hMem with hOld | hNew
    · -- a request that has ended is not the one of this callback
      have hNe : r' ≠ r := by
        rintro rfl
        exact hOpen.2 (List.mem_filterMap.mpr ⟨_, hOld, rfl⟩)
      rw [hTold.bodyOf_of_ne hNe]
      exact hs.reported r' res n err hOld
    · obtain ⟨rfl, rfl, hBody⟩ := hTold.of_result hNew
      rw [hBody]
      exact hCount

theorem Sound.step (hs : s.Sound) (hStep : Step s i s') : s'.Sound := by
  cases hStep with
  | navigate url save a connect => exact hs.navigate url save a connect
  | tcp hState hWnd hOk => exact hs.tcp hState hWnd hOk

theorem Sound.run {inputs : List Input} (hRun : Run Step initial inputs s) : s.Sound :=
  hRun.invariant Sound (fun _ _ _ hs hStep => hs.step hStep) sound_initial

end System

-- ---------------------------------------------------------------------------
-- The contract of the client
-- ---------------------------------------------------------------------------

/-- The client finds the settings of the browser. -/
def Input.Intact : Input → Prop
  | .tcp _ settings _ => settings = naobrowseSettings
  | .navigate .. => True

theorem Valid.nodup_ended {h : List Event} (hValid : Valid h) : (ended h).Nodup := by
  induction h using List.reverseRecOn with
  | nil => exact List.nodup_nil
  | append_singleton h e ih =>
    obtain ⟨hBefore, hOpen⟩ := throughout_concat.mp hValid
    rw [ended_concat, List.nodup_append]
    refine ⟨ih hBefore, by cases e.ended? <;> simp, ?_⟩
    rintro r hr _ hLast rfl
    have hEnd : e.ended? = some r := by simpa using hLast
    exact (hOpen r (Event.request?_of_ended? hEnd)).2 hr

/-- With the settings intact, the browser is told when the client gives a request up. -/
theorem not_outstanding_effect {req : HttpcState} {e : TcpEvent} {o : Outcome}
    (hEffect : Effect naobrowseSettings req e o) (hState : o.state = none) (r : Nat)
    (h : List Event) : ¬ Outstanding r (h ++ o.actions.filterMap (eventOf r)) := by
  obtain ⟨-, hKind⟩ := hEffect
  rw [← filterMap_calls]
  generalize o.state = st, calls o.actions = cs at hKind hState ⊢
  cases hKind with
  | waits | delivers => cases hState
  | ends res srvRes err => exact fun hOpen => ((outstanding_result r r h _ _ _).mp hOpen).2 rfl

theorem Told.outstanding {r r' : Nat} {n : BitVec 32} {evs h : List Event} (hTold : Told r n evs)
    (hOpen : Outstanding r' (h ++ evs)) : Outstanding r' h := by
  cases hTold with
  | nothing => simpa using hOpen
  | body p => exact (outstanding_body r' r h _).mp hOpen
  | result res err => exact ((outstanding_result r' r h res n err).mp hOpen).1

theorem Told.answers {r : Nat} {n : BitVec 32} {evs : List Event} (hTold : Told r n evs)
    (h : List Event) : answers (h ++ evs) = answers h := by
  cases hTold <;> simp [Event.answer?]

/-- A request that is outstanding for the browser is still held by the client. -/
def System.Answered (s : System) : Prop := ∀ r, Outstanding r s.history → s.Live r

theorem System.Answered.step {s s' : System} {i : Input} (h : s.Answered) (hs : s.Sound)
    (hIntact : i.Intact) (hStep : Step s i s') : s'.Answered := by
  cases hStep with
  | navigate url save a connect =>
    intro r hOpen
    rcases (outstanding_navigate hs.valid ..).mp hOpen with hOld | ⟨rfl, hError⟩
    · simp only [Live, Function.update_of_ne (show r ≠ s.next from hOld.lt.ne)]
      exact h r hOld
    · have hSome := (httpcGetFile_isSome_iff a naobrowseTarget connect).mpr hError
      simpa [Live, next] using hSome
  | @tcp r settings e req o hState hWnd hOk =>
    obtain rfl : settings = naobrowseSettings := hIntact
    have hEffect := (hs.conns r).effect hState hWnd hOk
    intro r' hOpen
    have hOld : Outstanding r' s.history := (told_of_effect hEffect r).outstanding hOpen
    rcases eq_or_ne r' r with rfl | hNe
    · simp only [Live, Function.update_self, Connection.after, Outcome.after]
      rw [Option.isSome_iff_ne_none]
      exact fun hNone => not_outstanding_effect hEffect hNone r' s.history hOpen
    · simp only [Live, Function.update_of_ne hNe]
      exact h r' hOld

theorem System.Answered.run {s : System} {inputs : List Input}
    (hRun : Run System.Step System.initial inputs s) (hIntact : ∀ i ∈ inputs, i.Intact) :
    s.Answered := by
  refine hRun.preserve System.Sound Input.Intact (R := fun s s' => s.Answered → s'.Answered)
    (fun _ h => h) (fun _ _ _ h h' ha => h' (h ha))
    (fun _ _ _ hs hi hStep => ⟨hs.step hStep, fun ha => ha.step hs hi hStep⟩)
    System.sound_initial hIntact ?_
  intro r hOpen
  exact absurd hOpen.lt (Nat.not_lt_zero _)

/-- A navigation that `httpc_get_file` accepts. -/
def visit : Input := .navigate (lit "nao") false ⟨true, true, true, true, fun _ => 0⟩ 0

/-- The short page in three segments, with a poll in between. -/
def hiEvents : List TcpEvent :=
  [.recv [hiMessage.text.take 10], .poll, .recv [(hiMessage.text.take 71).drop 10],
    .recv [hiMessage.text.drop 71]]

def hiConnection : List TcpEvent := .connected 0 :: hiEvents ++ [.recv []]

def hiInputs : List Input := visit :: hiConnection.map (.tcp 0 naobrowseSettings)

def hiSystem : System := (System.initial.execAll hiInputs).getD .initial

theorem run_hiSystem : Run System.Step System.initial hiInputs hiSystem :=
  System.run_getD (by decide +kernel)

theorem intact_hiInputs : ∀ i ∈ hiInputs, i.Intact := by
  simp [hiInputs, visit, hiConnection, hiEvents, Input.Intact]

/-- Whatever the client finds behind `conn_settings`: callbacks come for outstanding requests only,
no request gets two results, and the browser waits for every request that the client holds. If the
client finds the settings of the browser, it also holds every request that the browser waits for. -/
theorem requests_meet_contract {s : System} {inputs : List Input}
    (hRun : Run System.Step System.initial inputs s) :
    Valid s.history ∧ (ended s.history).Nodup ∧ (∀ r, s.Live r → Outstanding r s.history)
      ∧ ((∀ i ∈ inputs, i.Intact) → ∀ r, Outstanding r s.history → s.Live r) := by
  have hs := System.Sound.run hRun
  exact ⟨hs.valid, hs.valid.nodup_ended, fun r => (hs.conns r).live,
    fun hIntact => System.Answered.run hRun hIntact⟩

/-- The visit of the short page. -/
theorem requests_meet_contract_hi :
    Valid hiSystem.history ∧ (ended hiSystem.history).Nodup
      ∧ (∀ r, Outstanding r hiSystem.history ↔ hiSystem.Live r) := by
  obtain ⟨hValid, hNodup, hLive, hOpen⟩ := requests_meet_contract run_hiSystem
  exact ⟨hValid, hNodup, fun r => ⟨hOpen intact_hiInputs r, hLive r⟩⟩

/-- A visit that ends when nothing is left of the settings. -/
def lostSystem : System :=
  (System.initial.execAll [visit, .tcp 0 naobrowseSettings (.connected 0),
    .tcp 0 ⟨false, none⟩ (.err (-14))]).getD .initial

-- the client has freed the request, and the browser waits for ever
example : Outstanding 0 lostSystem.history ∧ lostSystem.browser.isLoading = true
    ∧ ¬ lostSystem.Live 0 := by
  decide +kernel

/-- No body is longer than the receive window, and what a result reports is the length of the body
that the browser was given. -/
theorem body_within_window {s : System} {inputs : List Input}
    (hRun : Run System.Step System.initial inputs s) (r : Nat) :
    (bodyOf r s.history).length ≤ tcpWnd
      ∧ ∀ res n err, .result r res n err ∈ s.history → n.toNat = (bodyOf r s.history).length := by
  have hs := System.Sound.run hRun
  have hLen : (bodyOf r s.history).length ≤ tcpWnd := by
    have := (hs.conns r).window
    omega
  refine ⟨hLen, fun res n err hMem => ?_⟩
  have : tcpWnd < 2 ^ 32 := by decide
  rw [hs.reported r res n err hMem, BitVec.toNat_ofNat, Nat.mod_eq_of_lt (by omega)]

theorem body_within_window_hi :
    (bodyOf 0 hiSystem.history).length ≤ tcpWnd
      ∧ ∀ res n err, .result 0 res n err ∈ hiSystem.history →
        n.toNat = (bodyOf 0 hiSystem.history).length :=
  body_within_window run_hiSystem 0

end Nao.NaoBrowse
