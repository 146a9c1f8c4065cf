import Nao.HttpClient.Segments

/-!
# The HTTP client — what a callback can do

`Effect` lists what a callback of the client can do, whatever has arrived: it waits, it delivers a
part of the body, or it ends the request with a result. `callback_effect` is the only lemma that looks
into the callbacks; what holds of a connection follows from it.

A byte that has arrived is either kept for the header, or reported to TCP as received, or handed to the
caller (`Effect.bytes`). The time that is left only grows when a part of the body is delivered.
-/

namespace Nao.HttpClient

open SysLib Kernel Lwip Lwip.Chain

-- ---------------------------------------------------------------------------
-- Counting
-- ---------------------------------------------------------------------------

def Action.isCall : Action → Bool
  | .body _ | .result .. => true
  | _ => false

/-- The calls of the functions that take the body and the result. -/
def calls (acts : List Action) : List Action := acts.filter Action.isCall

def Action.recvedLen : Action → Nat
  | .recved len => len
  | _ => 0

/-- How many bytes were reported as received. -/
def recvedLen (acts : List Action) : Nat := (acts.map Action.recvedLen).sum

/-- The bytes that are kept until the header is complete. -/
def Outcome.pending (o : Outcome) : Nat := o.state.elim 0 fun req => req.rxHdrs.flatten.length

def TcpEvent.length : TcpEvent → Nat
  | .recv p => p.flatten.length
  | _ => 0

theorem recvedLen_append (a b : List Action) : recvedLen (a ++ b) = recvedLen a + recvedLen b := by
  simp [recvedLen]

theorem calls_append (a b : List Action) : calls (a ++ b) = calls a ++ calls b :=
  List.filter_append ..

/-- The bytes of the calls are those of all actions. -/
theorem delivered_calls (acts : List Action) : delivered (calls acts) = delivered acts := by
  induction acts with
  | nil => rfl
  | cons a acts ih =>
    have hTail : ∀ b : Action, delivered (b :: acts) = b.bytes ++ delivered acts := fun _ => rfl
    rw [calls, List.filter_cons, hTail, ← ih]
    cases a <;> rfl

/-- The length of the header lies in what has arrived. -/
theorem httpWaitHeaders_le {c : Chain} {contentLen : BitVec 32} {hdrLen : Nat}
    (h : httpWaitHeaders c = some (some (contentLen, hdrLen))) : hdrLen ≤ c.totLen := by
  rw [httpWaitHeaders] at h
  split at h
  · next hEnd =>
    have hLe := pbufMemfind_le (Nat.ne_of_lt (Nat.lt_of_lt_of_le hEnd (by decide)))
    have hPat : (lit "\r\n\r\n").length = 4 := rfl
    have hLt := totLen_lt c
    rw [Option.map_eq_some_iff] at h
    obtain ⟨n, -, hn⟩ := h
    simp only [Option.some.injEq, Prod.mk.injEq] at hn
    omega
  · cases h

-- ---------------------------------------------------------------------------
-- Effects
-- ---------------------------------------------------------------------------

/-- A state in which the body has not grown, and the time has gone down by the polls alone. -/
structure Spends (req : HttpcState) (e : TcpEvent) (req' : HttpcState) : Prop where
  rxContentLen : req'.rxContentLen = req.rxContentLen
  ticks        : req'.timeoutTicks + polls [e] ≤ req.timeoutTicks
  ticks_pos    : 0 < req.timeoutTicks → 0 < req'.timeoutTicks

/-- The state and the calls after a callback. -/
inductive Effect.Kind (settings : Settings) (req : HttpcState) (e : TcpEvent) :
    Option HttpcState → List Action → Prop where
  | waits (req' : HttpcState) (hSpends : Spends req e req') : Kind settings req e (some req') []
  | delivers (req' : HttpcState) (p : Chain) (hSize : p.flatten.length < 2 ^ 16)
      (hRx : req'.rxContentLen = req.rxContentLen + .ofNat 32 p.flatten.length)
      (hTicks : req'.timeoutTicks = httpcPollTimeout) : Kind settings req e (some req') [.body p]
  | ends (res : HttpcResult) (srvRes : BitVec 32) (err : BitVec 8) :
      Kind settings req e none
        (if settings.resultFn then [.result res req.rxContentLen srvRes err] else [])

structure Effect (settings : Settings) (req : HttpcState) (e : TcpEvent) (o : Outcome) : Prop where
  bytes : o.pending + (delivered o.actions).length + recvedLen o.actions
    ≤ req.rxHdrs.flatten.length + e.length
  kind  : Effect.Kind settings req e o.state (calls o.actions)

variable {settings : Settings} {req : HttpcState} {e : TcpEvent} {o : Outcome}

/-- Closing after calls of TCP alone. -/
theorem close_effect {req' : HttpcState} (hRx : req'.rxContentLen = req.rxContentLen)
    {acts : List Action} (hCalls : calls acts = [])
    (hBytes : recvedLen acts ≤ req.rxHdrs.flatten.length + e.length)
    (res : HttpcResult) (srvRes : BitVec 32) (err : BitVec 8) :
    Effect settings req e ((req'.httpcClose settings res srvRes err).after acts) := by
  have hNone : delivered acts = [] := by rw [← delivered_calls, hCalls]; rfl
  constructor
  · rw [delivered_close, hNone]
    have hRecved : recvedLen ((req'.httpcClose settings res srvRes err).after acts).actions
        = recvedLen acts := by
      rw [Outcome.after, HttpcState.httpcClose, recvedLen_append]
      split <;> rfl
    rw [hRecved]
    simpa [Outcome.pending, Outcome.after, HttpcState.httpcClose] using hBytes
  · have hEnds : calls ((req'.httpcClose settings res srvRes err).after acts).actions
        = if settings.resultFn then [.result res req.rxContentLen srvRes err] else [] := by
      rw [Outcome.after, HttpcState.httpcClose, calls_append, hCalls, hRx]
      split <;> rfl
    rw [hEnds]
    exact .ends res srvRes err

/-- Data, after calls of TCP alone. -/
theorem data_effect {req' : HttpcState} (hSpends : Spends req e req')
    {acts : List Action} (hCalls : calls acts = []) {p : Chain} (hSize : p.flatten.length < 2 ^ 16)
    (hBytes : req'.rxHdrs.flatten.length + p.flatten.length + recvedLen acts
      ≤ req.rxHdrs.flatten.length + e.length) :
    Effect settings req e ((req'.takeData p).after acts) := by
  have hNone : delivered acts = [] := by rw [← delivered_calls, hCalls]; rfl
  rw [HttpcState.takeData]
  split
  · constructor
    · have hBody : delivered [.body p] = p.flatten := by simp [delivered, Action.bytes]
      have hZero : recvedLen [.body p] = 0 := rfl
      simp only [Outcome.pending, Outcome.after, Option.elim_some, delivered_append,
        recvedLen_append, hNone, hBody, hZero, List.nil_append]
      omega
    · simp only [Outcome.after, calls_append, hCalls, List.nil_append]
      exact .delivers _ p hSize (by rw [totLen_eq hSize, hSpends.rxContentLen]) rfl
  · constructor
    · simp only [Outcome.pending, Outcome.after, Option.elim_some, List.append_nil, hNone,
        List.length_nil]
      omega
    · simp only [Outcome.after, List.append_nil, hCalls]
      exact .waits req' hSpends

/-- What the client has seen of the header, when it is not complete. -/
theorem waits_effect {req' : HttpcState} (hSpends : Spends req e req')
    (hBytes : req'.rxHdrs.flatten.length ≤ req.rxHdrs.flatten.length + e.length) :
    Effect settings req e ⟨some req', []⟩ :=
  ⟨hBytes, .waits req' hSpends⟩

theorem endHeaders_effect {req' : HttpcState} (hSpends : Spends req e req')
    (hBytes : req'.rxHdrs.flatten.length = req.rxHdrs.flatten.length + e.length)
    (hLen : req'.rxHdrs.flatten.length < 2 ^ 16) {hdrLen : Nat} (hHdr : hdrLen ≤ req'.rxHdrs.totLen)
    (contentLen : BitVec 32) : Effect settings req e (req'.endHeaders settings contentLen hdrLen) := by
  have hRest := congrArg List.length (flatten_pbufFreeHeader req'.rxHdrs hdrLen)
  rw [List.length_drop] at hRest
  rw [totLen_eq hLen] at hHdr
  have hGo : ∀ acts : List Action, calls acts = [] → recvedLen acts = hdrLen →
      Effect settings req e ((({ req' with
        hdrContentLen := contentLen, rxHdrs := [], parseState := .rxData } : HttpcState).takeData
          (req'.rxHdrs.pbufFreeHeader hdrLen)).after acts) := by
    intro acts hCalls hLenActs
    have hKept : Spends req e { req' with
      hdrContentLen := contentLen, rxHdrs := [], parseState := .rxData } := ⟨hSpends.1, hSpends.2, hSpends.3⟩
    refine data_effect hKept hCalls (by omega) ?_
    rw [hLenActs, List.flatten_nil, List.length_nil]
    omega
  rw [HttpcState.endHeaders]
  split
  · exact hGo _ rfl rfl
  · simp only
    split
    · exact close_effect hSpends.rxContentLen rfl (by show hdrLen ≤ _; omega) ..
    · exact hGo _ rfl rfl

/-- The first line changes the version, the status and the stage alone. -/
theorem takeFirstLine_keeps {req' : HttpcState} (h : req.takeFirstLine = some req') :
    req'.rxHdrs = req.rxHdrs ∧ req'.rxContentLen = req.rxContentLen
      ∧ req'.timeoutTicks = req.timeoutTicks := by
  rw [HttpcState.takeFirstLine] at h
  split at h
  · obtain ⟨parsed, -, rfl⟩ := Option.map_eq_some_iff.mp h
    exact ⟨rfl, rfl, rfl⟩
  · obtain rfl := Option.some.inj h
    exact ⟨rfl, rfl, rfl⟩

theorem recv_effect {p : Chain} (hLen : req.rxHdrs.flatten.length + p.flatten.length < 2 ^ 16)
    (h : req.httpcTcpRecv settings p = some o) : Effect settings req (.recv p) o := by
  have hEvent : TcpEvent.length (.recv p) = p.flatten.length := rfl
  rw [HttpcState.httpcTcpRecv] at h
  split at h
  · obtain rfl := Option.some.inj h
    exact close_effect rfl (show calls [] = [] from rfl) (Nat.zero_le _) ..
  split at h
  · have hHdrs : (if req.rxHdrs = [] then p else pbufCat req.rxHdrs p).flatten.length
        = req.rxHdrs.flatten.length + p.flatten.length := by
      split
      · next hNil => simp [hNil]
      · rw [pbufCat, List.flatten_append, List.length_append]
    obtain ⟨req₁, hFirst, hHeaders⟩ := Option.bind_eq_some_iff.mp h
    obtain ⟨hHdrs₁, hRx₁, hTicks₁⟩ := takeFirstLine_keeps hFirst
    have hSpends : Spends req (.recv p) req₁ :=
      ⟨hRx₁, Nat.le_of_eq hTicks₁, fun hPos => hTicks₁ ▸ hPos⟩
    simp only at hHdrs₁
    rw [HttpcState.takeHeaders] at hHeaders
    split at hHeaders
    · obtain ⟨headers, hWait, rfl⟩ := Option.map_eq_some_iff.mp hHeaders
      split
      · next contentLen hdrLen =>
        refine endHeaders_effect hSpends ?_ ?_ (httpWaitHeaders_le hWait) _
        · rw [hHdrs₁, hHdrs, hEvent]
        · rw [hHdrs₁, hHdrs]
          exact hLen
      · exact waits_effect hSpends (by rw [hHdrs₁, hHdrs, hEvent])
    · obtain rfl := Option.some.inj hHeaders
      exact waits_effect hSpends (by rw [hHdrs₁, hHdrs, hEvent])
  · obtain rfl := Option.some.inj h
    have hSame : Spends req (.recv p) req := ⟨rfl, Nat.le_refl _, id⟩
    exact data_effect hSame (show calls [] = [] from rfl) (by omega) (Nat.le_refl _)

/-- Whatever has arrived, a callback does one of three things. -/
theorem callback_effect (hLen : req.rxHdrs.flatten.length + e.length < 2 ^ 16)
    (h : req.callback settings e = some o) : Effect settings req e o := by
  cases e with
  | recv p => exact recv_effect hLen h
  | err err =>
    obtain rfl := Option.some.inj h
    exact close_effect rfl (show calls [] = [] from rfl) (Nat.zero_le _) ..
  | poll =>
    obtain rfl := Option.some.inj h
    rw [HttpcState.httpcTcpPoll]
    simp only
    split
    · exact close_effect rfl (show calls [] = [] from rfl) (Nat.zero_le _) ..
    · next hTicks =>
      refine waits_effect ⟨rfl, ?_, fun _ => Nat.pos_of_ne_zero hTicks⟩ (Nat.le_refl _)
      show req.timeoutTicks - 1 + 1 ≤ req.timeoutTicks
      omega
  | connected r =>
    obtain ⟨request, -, rfl⟩ := Option.map_eq_some_iff.mp h
    split
    · exact close_effect rfl rfl (Nat.zero_le _) ..
    · exact ⟨Nat.le_refl _, .waits _ ⟨rfl, Nat.le_refl _, id⟩⟩

namespace Effect

variable {req' : HttpcState}

theorem rxContentLen (h : Effect settings req e o) (hState : o.state = some req') :
    req'.rxContentLen = req.rxContentLen + .ofNat 32 (delivered o.actions).length := by
  obtain ⟨-, hKind⟩ := h
  rw [← delivered_calls]
  generalize o.state = st, calls o.actions = cs at hKind hState ⊢
  cases hKind with
  | waits _ hSpends =>
    obtain rfl := Option.some.inj hState
    simp [hSpends.rxContentLen, delivered]
  | delivers _ p _ hRx =>
    obtain rfl := Option.some.inj hState
    simp [hRx, delivered, Action.bytes]
  | ends => cases hState

/-- The time only grows when a part of the body is delivered. -/
theorem ticks (h : Effect settings req e o) (hState : o.state = some req') :
    Spends req e req' ∨ req'.timeoutTicks = httpcPollTimeout ∧ ∃ p, calls o.actions = [.body p] := by
  obtain ⟨-, hKind⟩ := h
  generalize o.state = st, calls o.actions = cs at hKind hState ⊢
  cases hKind with
  | waits _ hSpends =>
    obtain rfl := Option.some.inj hState
    exact .inl hSpends
  | delivers _ p _ _ hTicks =>
    obtain rfl := Option.some.inj hState
    exact .inr ⟨hTicks, p, rfl⟩
  | ends => cases hState

end Effect

end Nao.HttpClient
