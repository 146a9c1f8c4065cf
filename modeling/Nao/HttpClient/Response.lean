import Nao.HttpClient.Definitions
import Nao.Lwip.Pbuf

/-!
# The HTTP client — the response

`http_parse_response_status`, `http_wait_headers` and the callbacks of lwIP's `http_client.c`:
`httpc_tcp_recv`, `httpc_tcp_err`, `httpc_tcp_poll`, `httpc_tcp_connected` and `httpc_close`.

The two parsers copy a number of the response into an array of fixed size without checking how
much they copy. They return `none` where this writes or reads outside the array.

What the client asks of its surroundings is listed as actions, in the order of the calls:
`altcp_recved` and the functions of the caller. `recv_fn` is there, `httpc_get_file` checks it. The
other functions are read through `conn_settings` at the time of the call, so that they are an
argument here. `atoi` is the one of the C library's header, which calls the kernel's `strtol`.
-/

namespace Nao.HttpClient

open SysLib Kernel Lwip Lwip.Chain

/-- `HTTPC_POLL_TIMEOUT`. -/
def httpcPollTimeout : Nat := 30

/-- `HTTPC_CONTENT_LEN_INVALID`. -/
def httpcContentLenInvalid : BitVec 32 := 0xFFFFFFFF

-- ---------------------------------------------------------------------------
-- Parsing
-- ---------------------------------------------------------------------------

/-- `atoi` on an array: nothing if there is no end of the number in it. -/
def atoi (array : List UInt8) : Option (BitVec 32) :=
  match strtol array with
  | (_, []) => none
  | (n, _ :: _) => some n

/-- A number that is copied to an array of `size` zeros and read there. `len` is what the copy is
asked for, in 16 bits, and `expected` what it is compared with; nothing is read if it is less. -/
def readNumber (p : Chain) (size len expected offset : Nat) : Option (Option (BitVec 32)) :=
  let copied := p.pbufCopyPartial len offset
  if size < copied.length then none
  else if copied.length = expected then
    (atoi (copied ++ List.replicate (size - copied.length) 0)).map some
  else some none

/-- `http_parse_response_status`: whether it returns `ERR_OK`, and what `*http_version` and
`*http_status` are afterwards. -/
def httpParseResponseStatus (p : Chain) (httpVersion httpStatus : BitVec 16) :
    Option (Bool × BitVec 16 × BitVec 16) :=
  let end1 := p.pbufMemfind (lit "\r\n") 0
  let space1 := p.pbufMemfind (lit " ") 0
  if end1 ≠ 0xFFFF ∧ space1 ≠ 0xFFFF ∧ p.pbufMemcmp 0 (lit "HTTP/") = 0 ∧ p.pbufGetAt 6 = 0x2E then
    let digit := fun i => (p.pbufGetAt i).toBitVec.setWidth 16 - 0x30
    let httpVersion := digit 5 <<< 8 ||| digit 7
    -- the second space is looked for behind the first line, too
    let space2 := p.pbufMemfind (lit " ") (space1 + 1)
    let statusNumLen : BitVec 32 :=
      if space2 ≠ 0xFFFF then .ofNat 32 space2 - .ofNat 32 space1 - 1
      else .ofNat 32 end1 - .ofNat 32 space1 - 1
    (readNumber p 10 (statusNumLen.toNat % 2 ^ 16) statusNumLen.toNat (space1 + 1)).map fun status =>
      match status with
      | some status =>
        if 0 < status.toInt ∧ status.toInt ≤ 0xFFFF then (true, httpVersion, status.setWidth 16)
        else (false, httpVersion, httpStatus)
      | none => (false, httpVersion, httpStatus)
  else some (false, httpVersion, httpStatus)

/-- The content length, from the first line that has one. -/
def readContentLength (p : Chain) : Option (BitVec 32) :=
  let contentLenHdr := p.pbufMemfind (lit "Content-Length: ") 0
  if contentLenHdr ≠ 0xFFFF then
    let contentLenLineEnd := p.pbufMemfind (lit "\r\n") contentLenHdr
    if contentLenLineEnd ≠ 0xFFFF then
      let len := (BitVec.ofNat 16 contentLenLineEnd - BitVec.ofNat 16 contentLenHdr - 16).toNat
      (readNumber p 16 len len (contentLenHdr + 16)).map fun n =>
        match n with
        | some n => if 0 ≤ n.toInt ∧ n < httpcContentLenInvalid then n else httpcContentLenInvalid
        | none => httpcContentLenInvalid
    else some httpcContentLenInvalid
  else some httpcContentLenInvalid

/-- `http_wait_headers`: `*content_length` and `*total_header_len`, once all headers are there. -/
def httpWaitHeaders (p : Chain) : Option (Option (BitVec 32 × Nat)) :=
  let end1 := p.pbufMemfind (lit "\r\n\r\n") 0
  if end1 < 0xFFFF - 2 then
    (readContentLength p).map fun contentLength => some (contentLength, (end1 + 4) % 2 ^ 16)
  else some none

-- ---------------------------------------------------------------------------
-- The state of a request
-- ---------------------------------------------------------------------------

/-- `httpc_parse_state_t`. -/
inductive ParseState where
  | waitFirstLine | waitHeaders | rxData
  deriving DecidableEq, Repr

/-- `httpc_state_t`. -/
structure HttpcState where
  timeoutTicks  : Nat
  request       : Option Request
  rxHdrs        : Chain
  rxHttpVersion : BitVec 16
  rxStatus      : BitVec 16
  rxContentLen  : BitVec 32
  hdrContentLen : BitVec 32
  parseState    : ParseState

/-- The state `httpc_init_connection_common` leaves. -/
def HttpcState.new (request : Request) : HttpcState where
  timeoutTicks := httpcPollTimeout
  request := some request
  rxHdrs := []
  rxHttpVersion := 0
  rxStatus := 0
  rxContentLen := 0
  hdrContentLen := httpcContentLenInvalid
  parseState := .waitFirstLine

/-- What is behind `conn_settings`: whether there is a `result_fn`, and what `headers_done_fn`, if
there is one, returns. -/
structure Settings where
  resultFn      : Bool
  headersDoneFn : Option (Chain → (hdrLen : Nat) → (contentLen : BitVec 32) → BitVec 8)

inductive Action where
  | write (request : List UInt8)
  | recved (len : Nat)
  | headersDone (hdr : Chain) (hdrLen : Nat) (contentLen : BitVec 32)
  | body (p : Chain)
  | result (res : HttpcResult) (rxContentLen srvRes : BitVec 32) (err : BitVec 8)

/-- The state after a callback, `none` when it has been freed, and what the callback did. -/
structure Outcome where
  state   : Option HttpcState
  actions : List Action

def Outcome.after (first : List Action) (o : Outcome) : Outcome :=
  { o with actions := first ++ o.actions }

/-- What TCP reports to the client. -/
inductive TcpEvent where
  | connected (r : BitVec 8)
  | recv (p : Chain)
  | err (err : BitVec 8)
  | poll

namespace HttpcState

variable (settings : Settings) (req : HttpcState)

/-- `httpc_close`. `httpc_free_state` takes the callbacks back before it closes the connection. -/
def httpcClose (result : HttpcResult) (serverResponse : BitVec 32) (err : BitVec 8) : Outcome where
  state := none
  actions := if settings.resultFn then [.result result req.rxContentLen serverResponse err] else []

-- ---------------------------------------------------------------------------
-- Receiving
-- ---------------------------------------------------------------------------

/-- The result when the server closes the connection. -/
def closedResult : HttpcResult :=
  if req.parseState ≠ .rxData then .errClosed
  else if req.hdrContentLen ≠ httpcContentLenInvalid ∧ req.hdrContentLen ≠ req.rxContentLen then
    .errContentLen
  else .ok

/-- The branch of `HTTPC_PARSE_WAIT_FIRST_LINE`. -/
def takeFirstLine : Option HttpcState :=
  if req.parseState = .waitFirstLine then
    (httpParseResponseStatus req.rxHdrs req.rxHttpVersion req.rxStatus).map fun (ok, version, status) =>
      { req with
        rxHttpVersion := version
        rxStatus := status
        parseState := if ok then .waitHeaders else .waitFirstLine }
  else some req

/-- Data for the caller. -/
def takeData (p : Chain) : Outcome :=
  if p ≠ [] then
    { state := some
        { req with
          rxContentLen := req.rxContentLen + .ofNat 32 p.totLen
          timeoutTicks := httpcPollTimeout }
      actions := [.body p] }
  else { state := some req, actions := [] }

/-- The header is complete: the rest of what has come is data. -/
def endHeaders (contentLen : BitVec 32) (totalHeaderLen : Nat) : Outcome :=
  let req := { req with hdrContentLen := contentLen }
  let goOn := takeData { req with rxHdrs := [], parseState := .rxData }
    (req.rxHdrs.pbufFreeHeader totalHeaderLen)
  match settings.headersDoneFn with
  | none => goOn.after [.recved totalHeaderLen]
  | some fn =>
    let err := fn req.rxHdrs totalHeaderLen contentLen
    let called : List Action :=
      [.recved totalHeaderLen, .headersDone req.rxHdrs totalHeaderLen contentLen]
    if err ≠ 0 then
      (httpcClose settings req .localAbort (req.rxStatus.setWidth 32) err).after called
    else goOn.after called

/-- The branch of `HTTPC_PARSE_WAIT_HEADERS`. -/
def takeHeaders : Option Outcome :=
  if req.parseState = .waitHeaders then
    (httpWaitHeaders req.rxHdrs).map fun headers =>
      match headers with
      | some (contentLen, totalHeaderLen) => req.endHeaders settings contentLen totalHeaderLen
      | none => { state := some req, actions := [] }
  else some { state := some req, actions := [] }

def httpcTcpRecv (p : Chain) : Option Outcome :=
  if p = [] then some (httpcClose settings req req.closedResult (req.rxStatus.setWidth 32) 0)
  else if req.parseState ≠ .rxData then
    let req := { req with rxHdrs := if req.rxHdrs = [] then p else pbufCat req.rxHdrs p }
    req.takeFirstLine.bind (takeHeaders settings)
  else some (req.takeData p)

-- ---------------------------------------------------------------------------
-- The other callbacks
-- ---------------------------------------------------------------------------

/-- `httpc_tcp_err`: the connection is already gone. -/
def httpcTcpErr (err : BitVec 8) : Outcome := req.httpcClose settings .errClosed 0 err

def httpcTcpPoll : Outcome :=
  let req := { req with timeoutTicks := req.timeoutTicks - 1 }
  if req.timeoutTicks = 0 then req.httpcClose settings .errTimeout 0 0
  else { state := some req, actions := [] }

/-- `httpc_tcp_connected`, with what `altcp_write` returns; the request must not have been freed. -/
def httpcTcpConnected (r : BitVec 8) : Option Outcome :=
  req.request.map fun request =>
    if r ≠ 0 then (req.httpcClose settings .errMem 0 r).after [.write request.sent]
    else { state := some { req with request := none }, actions := [.write request.sent] }

/-- The callback for an event. -/
def callback : TcpEvent → Option Outcome
  | .connected r => req.httpcTcpConnected settings r
  | .recv p => req.httpcTcpRecv settings p
  | .err err => some (req.httpcTcpErr settings err)
  | .poll => some (req.httpcTcpPoll settings)

end HttpcState

/-- One event. Once the state is freed there are no callbacks. -/
def Outcome.step (settings : Settings) (o : Outcome) (e : TcpEvent) : Option Outcome :=
  match o.state with
  | none => some o
  | some req => (req.callback settings e).map (·.after o.actions)

/-- A whole connection. `conn_settings` is read anew at every event, so that an event comes with
what is found there. -/
def Outcome.runFound : Outcome → List (Settings × TcpEvent) → Option Outcome
  | o, [] => some o
  | o, (found, e) :: es => (o.step found e).bind fun o => o.runFound es

/-- A connection that finds the same settings all the time. -/
def Outcome.run (settings : Settings) (o : Outcome) (es : List TcpEvent) : Option Outcome :=
  o.runFound (es.map fun e => (settings, e))

end Nao.HttpClient
