import Nao.HttpClient.Definitions
import Nao.Kernel.Strings

/-!
# NaoBrowse — definitions

The browser of `naobrowse.c`: its variables, the log, the HTML stripper, the two callbacks it
gives to the HTTP client of lwIP, `naobrowse_navigate_to`, and the buttons and the URL field of
`render_naobrowse`.

The page buffers are arrays of bytes. A URL is the string in its array, without the
terminator; the URL field of the window holds at most 126 characters, so the `strcpy`s fit.
What `httpc_get_file` answers is an argument of `naobrowseNavigateTo`.
-/

namespace Nao.NaoBrowse

open SysLib Kernel
open HttpClient (HttpcResult)

/-- `MAX_PAGE_STORAGE`. -/
def maxPageStorage : Nat := 16384

/-- `HISTORY_DEPTH`. -/
def historyDepth : Nat := 10

/-- `DEBUG_LINE_COUNT`. -/
def debugLineCount : Nat := 25

/-- `DEBUG_LINE_LEN`. -/
def debugLineLen : Nat := 96

/-- An array after `memset(.., 0, ..)`. -/
def zeroed : Mem := fun _ => 0

/-- `struct naobrowse_browser`. -/
structure Browser where
  urlInput          : List UInt8
  currentUrl        : List UInt8
  rawHtmlBuffer     : Mem
  renderedText      : Mem
  contentLen        : Nat
  history           : Int → List UInt8
  historyCount      : Int
  currentHistoryIdx : Int
  isLoading         : Bool
  isActive          : Bool
  debugConsole      : Nat → Mem
  debugWritePtr     : Nat

def naobrowseLog (msg : List UInt8) (b : Browser) : Browser :=
  let idx := b.debugWritePtr
  let line := strncpy (b.debugConsole idx) msg (debugLineLen - 1)
  { b with
    debugConsole := Function.update b.debugConsole idx (line.write8 (debugLineLen - 1) 0)
    debugWritePtr := (idx + 1) % debugLineCount }

-- ---------------------------------------------------------------------------
-- The rendering engine
-- ---------------------------------------------------------------------------

/-- The variables of the loop of `naobrowse_render_engine_parse`. -/
structure Parse where
  srcIdx       : Nat
  destIdx      : Nat
  insideTag    : Bool
  renderedText : Mem

/-- `rendered_text[dest_idx++] = c`. -/
def Parse.put (s : Parse) (c : UInt8) : Parse :=
  { s with renderedText := s.renderedText.write8 s.destIdx c, destIdx := s.destIdx + 1 }

/-- Does one of the tags that break the line start at `i`? -/
def breaksLine (raw : Mem) (i : Nat) : Bool :=
  strncmp (raw.view i) (lit "<p>") 3 = 0 || strncmp (raw.view i) (lit "<br>") 4 = 0 ||
    strncmp (raw.view i) (lit "</div>") 6 = 0

/-- One turn of the loop. -/
def parseTurn (raw : Mem) (s : Parse) : Parse :=
  let c := raw s.srcIdx
  if c = 0x3E then { s with insideTag := false, srcIdx := s.srcIdx + 1 } -- '>'
  else
    let s :=
      if c = 0x3C then -- '<'
        let s := { s with insideTag := true }
        if breaksLine raw s.srcIdx then s.put 0x0A else s
      else s
    let s := if s.insideTag then s else s.put c
    { s with srcIdx := s.srcIdx + 1 }

/-- The loop. Every turn moves `src_idx` on by one; the first argument is
`content_len - src_idx`. -/
def parseLoop (raw : Mem) : Nat → Parse → Parse
  | 0, s => s
  | left + 1, s =>
    if s.destIdx < maxPageStorage - 2 then parseLoop raw left (parseTurn raw s) else s

/-- What `naobrowse_render_engine_parse` stores in `rendered_text`. -/
def parseText (raw : Mem) (contentLen : Nat) : Mem :=
  let s := parseLoop raw contentLen
    { srcIdx := 0, destIdx := 0, insideTag := false, renderedText := zeroed }
  s.renderedText.write8 s.destIdx 0

def naobrowseRenderEngineParse (b : Browser) : Browser :=
  let b := naobrowseLog (lit "Parser engine triggered: Stripping tags...") b
  let b := { b with renderedText := parseText b.rawHtmlBuffer b.contentLen }
  naobrowseLog (lit "Parser finished preparing text layer structure.") b

-- ---------------------------------------------------------------------------
-- The callbacks
-- ---------------------------------------------------------------------------

/-- `struct pbuf`: a chunk of a body, with its length in the 16-bit `tot_len`. -/
structure Pbuf where
  payload : List UInt8
  tot_lt  : payload.length < 65536

/-- `naobrowse_http_body_cb`. `content_len` stays below `MAX_PAGE_STORAGE`, so the sum does
not wrap. -/
def naobrowseHttpBodyCb (p : Option Pbuf) (b : Browser) : Browser :=
  match p with
  | none => b
  | some p =>
    let chunkLen := p.payload.length
    let b := naobrowseLog
      (printed 64 "lwIP Body CB: Received chunk segment of %d bytes" [.word (.ofNat 32 chunkLen)]) b
    if b.contentLen + chunkLen < maxPageStorage - 1 then
      let raw := b.rawHtmlBuffer.blit b.contentLen p.payload
      { b with
        rawHtmlBuffer := raw.write8 (b.contentLen + chunkLen) 0
        contentLen := b.contentLen + chunkLen }
    else
      naobrowseLog (lit "CRITICAL ERROR: Incoming HTML exceeds allocated buffer size limits!") b

def naobrowseHttpResultCb (res : HttpcResult) (rxContentLen : BitVec 32) (err : BitVec 8)
    (b : Browser) : Browser :=
  let b := naobrowseLog (lit "lwIP Callback Alert: TCP Handshake cycle complete!") b
  let b :=
    if res = .ok then
      naobrowseRenderEngineParse (naobrowseLog
        (printed 96 "SUCCESS! Received HTTP 200/OK. Transferred: %u bytes" [.word rxContentLen]) b)
    else
      let b := naobrowseLog
        (printed 96 "FAIL: HTTP Connection Refused. Result: %d, lwIP Error: %d"
          [.word (.ofNat 32 res.code), .word (err.signExtend 32)]) b
      { b with renderedText := strcpy b.renderedText (lit "Error: Could not reach target web host.") }
  { b with isLoading := false }

-- ---------------------------------------------------------------------------
-- Navigation
-- ---------------------------------------------------------------------------

/-- `if (save_to_history)`: entries behind the current one are given up, and a full list
stays as it is. -/
def saveUrl (url : List UInt8) (b : Browser) : Browser :=
  let b := naobrowseLog (lit "Saving URL endpoint trace to history backstack...") b
  let b :=
    if b.currentHistoryIdx < b.historyCount - 1 then
      { b with historyCount := b.currentHistoryIdx + 1 }
    else b
  if b.historyCount < historyDepth then
    { b with
      history := Function.update b.history b.historyCount url
      currentHistoryIdx := b.historyCount
      historyCount := b.historyCount + 1 }
  else b

/-- `naobrowse_navigate_to(url_string, save_to_history)`; `error` is what `httpc_get_file`
returns, and `ERR_OK` is 0. -/
def naobrowseNavigateTo (url : List UInt8) (saveToHistory : Bool) (error : BitVec 8) (b : Browser) :
    Browser :=
  let b := naobrowseLog
    (printed 128 "Dispatcher action: routing request path to: '%s'" [.str (some url)]) b
  let b := { b with isLoading := true, contentLen := 0, rawHtmlBuffer := zeroed, currentUrl := url }
  let b := if saveToHistory then saveUrl url b else b
  let b := naobrowseLog (lit "Binding internal routing table target to QEMU Gateway IP: 10.0.2.2") b
  let b := naobrowseLog
    (lit "Invoking asynchronous lwIP network socket routine: httpc_get_file()...") b
  if error ≠ 0 then
    let b := naobrowseLog
      (printed 64 "lwIP Immediate Error: Request could not be queued. Code: %d"
        [.word (error.signExtend 32)]) b
    { b with
      isLoading := false
      renderedText :=
        strcpy b.renderedText (lit "NETWORK ROUTING DISPATCH FAILURE: Unreachable Gateway") }
  else
    naobrowseLog
      (lit "SYN Packet queued in TX descriptor ring successfully. Handshake completed!") b

-- ---------------------------------------------------------------------------
-- The window
-- ---------------------------------------------------------------------------

/-- What the Back and the Forward button do: `current_history_idx` moves, and the page of that
entry is fetched again. -/
def followHistory (msg : String) (move : Int) (error : BitVec 8) (b : Browser) : Browser :=
  let b := naobrowseLog (lit msg) b
  let b := { b with currentHistoryIdx := b.currentHistoryIdx + move }
  let b := { b with urlInput := b.history b.currentHistoryIdx }
  naobrowseNavigateTo b.urlInput false error b

/-- A click on `<<`; the button is disabled at the first entry. -/
def backButton (error : BitVec 8) (b : Browser) : Browser :=
  if b.currentHistoryIdx > 0 then
    followHistory "UI Control Action: Back Button Clicked." (-1) error b
  else b

/-- A click on `>>`; the button is disabled at the last entry. -/
def forwardButton (error : BitVec 8) (b : Browser) : Browser :=
  if b.currentHistoryIdx < b.historyCount - 1 then
    followHistory "UI Control Action: Forward Button Clicked." 1 error b
  else b

/-- A click on `Go`. -/
def goButton (error : BitVec 8) (b : Browser) : Browser :=
  let b := naobrowseLog (lit "UI Control Action: 'Go' Button Clicked.") b
  let b := { b with isLoading := true, contentLen := 0 }
  naobrowseNavigateTo b.urlInput true error b

/-- The user in one frame: what `nk_begin` answers, the buttons that are clicked, each with what
`httpc_get_file` will answer, and what the URL field holds after editing. -/
structure Frame where
  begun   : Bool
  back    : Option (BitVec 8)
  forward : Option (BitVec 8)
  typed   : List UInt8
  go      : Option (BitVec 8)

/-- `render_naobrowse`, without what it draws. -/
def renderNaobrowse (f : Frame) (b : Browser) : Browser :=
  if b.isActive ∧ f.begun then
    let b := f.back.elim b fun error => backButton error b
    let b := f.forward.elim b fun error => forwardButton error b
    let b := { b with urlInput := f.typed }
    f.go.elim b fun error => goButton error b
  else b

def initNaobrowse : Browser :=
  let b : Browser :=
    { urlInput := lit "10.0.2.2"
      currentUrl := []
      rawHtmlBuffer := zeroed
      renderedText := strcpy zeroed (lit
        "Welcome to NaoBrowse!\nType an IP Address above to search the web layout network paths.")
      contentLen := 0
      history := fun _ => []
      historyCount := 0
      currentHistoryIdx := -1
      isLoading := false
      isActive := true
      debugConsole := fun _ => zeroed
      debugWritePtr := 0 }
  let b := naobrowseLog (lit "NaoBrowse Subsystem initialized successfully.") b
  naobrowseLog (lit "Awaiting user entry interaction loop...") b

end Nao.NaoBrowse
