import Nao.NaoBrowse.Navigation
import Nao.Lib.Ring

/-!
# NaoBrowse — the diagnostic console

`naobrowse_log` keeps its messages in a ring of 25 lines, and the window lists the lines from the
oldest one on. `Shows log b` says that the lines of `b` are the end of `log`.

* `Shows.naobrowseLog`, `Shows.logAll` — a message, and a sequence of messages.
* `diagnostic_log_shows_latest`        — what the console lists, from `init_naobrowse` on.
* `navigate_shows`                     — the window and the callbacks log in no other way.
-/

namespace Nao.NaoBrowse

open SysLib Kernel
open HttpClient (HttpcResult)

-- ---------------------------------------------------------------------------
-- The console
-- ---------------------------------------------------------------------------

/-- The console loop of `render_naobrowse`: the texts given to `nk_label`, in order. -/
def consoleLabels (b : Browser) : List (List UInt8) :=
  let startPos := b.debugWritePtr
  (List.range debugLineCount).filterMap fun i =>
    let readIdx := (startPos + i) % debugLineCount
    if b.debugConsole readIdx 0 ≠ 0 then some ((b.debugConsole readIdx).cstr debugLineLen) else none

/-- The string in a line of the console. -/
def Browser.line (b : Browser) (i : Nat) : List UInt8 := (b.debugConsole i).cstr debugLineLen

/-- What a line has room for. -/
def cut (msg : List UInt8) : List UInt8 := msg.take (debugLineLen - 1)

theorem consoleLabels_eq (b : Browser) :
    consoleLabels b = (Ring.around debugLineCount b.line b.debugWritePtr).filter (· ≠ []) := by
  rw [← List.filterMap_eq_filter, Ring.around, List.filterMap_map]
  refine List.filterMap_congr fun i _ => ?_
  have hEmpty := Mem.cstr_eq_nil_iff (m := b.debugConsole ((b.debugWritePtr + i) % debugLineCount))
    (by decide : 0 < debugLineLen)
  simp only [Function.comp_apply, Option.guard_apply, Browser.line, decide_eq_true_eq, ne_eq, hEmpty]

-- ---------------------------------------------------------------------------
-- Messages
-- ---------------------------------------------------------------------------

/-- A message in its line. `strncpy` pads it with zeros, and what is too long is cut. -/
theorem cstr_logged {msg : List UInt8} (h : 0 ∉ msg) (dest : Mem) :
    ((strncpy dest msg (debugLineLen - 1)).write8 (debugLineLen - 1) 0).cstr debugLineLen = cut msg := by
  have hBytes : (cut msg ++ List.replicate (debugLineLen - 1 - msg.length) 0).length = debugLineLen - 1 := by
    rw [cut, List.length_append, List.length_take, List.length_replicate]
    omega
  have hNonzero : ∀ c ∈ cut msg, (c != 0) = true := by
    intro c hc
    exact bne_iff_ne.mpr fun hZero => h (hZero ▸ List.mem_of_mem_take hc)
  have hPad : (List.replicate (debugLineLen - 1 - msg.length) (0 : UInt8)).takeWhile (· != 0) = [] := by
    rw [List.takeWhile_replicate]
    rfl
  have hLine : ((strncpy dest msg (debugLineLen - 1)).write8 (debugLineLen - 1) 0).slice 0
      (cut msg ++ List.replicate (debugLineLen - 1 - msg.length) 0).length
        = cut msg ++ List.replicate (debugLineLen - 1 - msg.length) 0 := by
    rw [Mem.slice_write8_of_le _ _ (by omega)]
    exact Mem.slice_blit dest 0 _
  rw [Mem.cstr_of_slice hLine, List.takeWhile_append_of_pos hNonzero, hPad, List.append_nil]
  · rw [hBytes]
    exact Mem.write8_same ..
  · rw [hBytes]
    decide

/-- The lines of the console are the end of the log, behind it the empty lines of the start. -/
structure Shows (log : List (List UInt8)) (b : Browser) : Prop where
  ptr   : b.debugWritePtr < debugLineCount
  ends  : ∀ i, b.debugConsole i (debugLineLen - 1) = 0
  lines : Ring.around debugLineCount b.line b.debugWritePtr
            = (List.replicate debugLineCount [] ++ log.map cut).drop log.length

/-- One message. -/
theorem Shows.naobrowseLog {log : List (List UInt8)} {b : Browser} (h : Shows log b)
    {msg : List UInt8} (hMsg : 0 ∉ msg) : Shows (log ++ [msg]) (naobrowseLog msg b) where
  ptr := Ring.next_lt h.ptr
  ends i := by
    show Function.update b.debugConsole b.debugWritePtr _ i _ = 0
    by_cases hi : i = b.debugWritePtr
    · rw [hi, Function.update_self, Mem.write8_same]
    · rw [Function.update_of_ne hi, h.ends]
  lines := by
    have hLine : (NaoBrowse.naobrowseLog msg b).line = Function.update b.line b.debugWritePtr (cut msg) := by
      funext i
      show (Function.update b.debugConsole b.debugWritePtr _ i).cstr debugLineLen = _
      by_cases hi : i = b.debugWritePtr
      · rw [hi, Function.update_self, Function.update_self, cstr_logged hMsg]
      · rw [Function.update_of_ne hi, Function.update_of_ne hi, Browser.line]
    have hLength : log.length + 1 ≤ (List.replicate debugLineCount [] ++ log.map cut).length := by
      rw [List.length_append, List.length_replicate, List.length_map]
      show log.length + 1 ≤ 25 + log.length
      omega
    rw [hLine]
    show Ring.around debugLineCount _ ((b.debugWritePtr + 1) % debugLineCount) = _
    rw [Ring.around_store h.ptr, h.lines, List.tail_drop, List.map_append, ← List.append_assoc,
      List.length_append, List.length_singleton, List.drop_append_of_le_length hLength]
    rfl

/-- The browser after a sequence of messages. -/
def logAll (msgs : List (List UInt8)) (b : Browser) : Browser :=
  msgs.foldl (fun b msg => naobrowseLog msg b) b

/-- A sequence of messages. -/
theorem Shows.logAll {log msgs : List (List UInt8)} {b : Browser} (h : Shows log b)
    (hMsgs : ∀ msg ∈ msgs, 0 ∉ msg) : Shows (log ++ msgs) (logAll msgs b) := by
  induction msgs generalizing log b with
  | nil =>
    rw [List.append_nil]
    exact h
  | cons msg msgs ih =>
    rw [List.forall_mem_cons] at hMsgs
    rw [List.append_cons]
    exact ih (h.naobrowseLog hMsgs.1) hMsgs.2

/-- The messages of `init_naobrowse`. -/
def startup : List (List UInt8) :=
  [lit "NaoBrowse Subsystem initialized successfully.", lit "Awaiting user entry interaction loop..."]

theorem shows_init : Shows startup initNaobrowse := by
  have hBlank : ∀ b : Browser, b.debugWritePtr = 0 → b.debugConsole = (fun _ => zeroed) → Shows [] b := by
    intro b hPtr hConsole
    refine ⟨by rw [hPtr]; decide, fun i => by rw [hConsole]; rfl, ?_⟩
    have hLine : b.line = fun _ => [] := by
      funext i
      rw [Browser.line, hConsole, Mem.cstr_eq_nil_iff (by decide)]
      rfl
    rw [hLine, hPtr]
    rfl
  have hStartup : ∀ msg ∈ startup, 0 ∉ msg := by simp [startup, lit]
  exact (hBlank _ rfl rfl).logAll hStartup

-- ---------------------------------------------------------------------------
-- Main result
-- ---------------------------------------------------------------------------

/-- The labels are the lines that are not empty, so they are the messages that are not. -/
theorem Shows.labels {log : List (List UInt8)} {b : Browser} (h : Shows log b) :
    consoleLabels b = ((log.drop (log.length - debugLineCount)).map cut).filter (· ≠ []) := by
  have hBlank : ∀ k, ((List.replicate k ([] : List UInt8)).filter (· ≠ [])) = [] := by
    intro k
    rw [List.filter_replicate]
    rfl
  rw [consoleLabels_eq, h.lines, List.drop_append, List.filter_append, List.drop_replicate, hBlank,
    List.nil_append, List.length_replicate, List.map_drop]

/--
**The diagnostic log shows the latest lines in order.** After every sequence of messages from
`init_naobrowse` on, `debug_write_ptr` is in 0..24, every line of the console has a terminator
within its 96 bytes, and the console loop lists the last `min n 25` messages, the two of
`init_naobrowse` among them, oldest first, each cut to its first 95 characters, and leaves out only
empty ones.
-/
theorem diagnostic_log_shows_latest {msgs : List (List UInt8)} (hMsgs : ∀ msg ∈ msgs, 0 ∉ msg) :
    (logAll msgs initNaobrowse).debugWritePtr < 25
      ∧ (∀ i, i < 25 → ∃ j, j < 96 ∧ (logAll msgs initNaobrowse).debugConsole i j = 0)
      ∧ ((startup ++ msgs).drop ((startup ++ msgs).length - 25)).length = min (startup ++ msgs).length 25
      ∧ consoleLabels (logAll msgs initNaobrowse)
          = (((startup ++ msgs).drop ((startup ++ msgs).length - 25)).map (List.take 95)).filter (· ≠ []) := by
  have hShows := shows_init.logAll hMsgs
  refine ⟨hShows.ptr, fun i _ => ⟨95, by decide, hShows.ends i⟩, ?_, hShows.labels⟩
  rw [List.length_drop]
  omega

/-- 24 more messages: the first of `init_naobrowse` is gone. -/
theorem diagnostic_log_shows_latest_full :
    consoleLabels (logAll (List.replicate 24 (lit "tick")) initNaobrowse)
      = lit "Awaiting user entry interaction loop..." :: List.replicate 24 (lit "tick") := by
  have hMsgs : ∀ msg ∈ List.replicate 24 (lit "tick"), 0 ∉ msg := by
    intro msg hMsg
    rw [List.eq_of_mem_replicate hMsg]
    decide
  rw [(diagnostic_log_shows_latest hMsgs).2.2.2]
  decide

-- ---------------------------------------------------------------------------
-- The browser in use
-- ---------------------------------------------------------------------------

theorem zero_not_mem_printed (size : Nat) (format : String) (args : List Arg) :
    0 ∉ printed size format args :=
  fun hZero => Mem.cstr_ne_zero _ _ 0 hZero rfl

/-- The console shows the end of a log that begins with the messages of `init_naobrowse`. -/
def Truthful (b : Browser) : Prop := ∃ msgs, Shows (startup ++ msgs) b

theorem Truthful.naobrowseLog {b : Browser} (h : Truthful b) {msg : List UInt8} (hMsg : 0 ∉ msg) :
    Truthful (naobrowseLog msg b) := by
  obtain ⟨msgs, hShows⟩ := h
  refine ⟨msgs ++ [msg], ?_⟩
  rw [← List.append_assoc]
  exact hShows.naobrowseLog hMsg

/-- What does not touch the console. -/
theorem Truthful.congr {b b' : Browser} (h : Truthful b) (hConsole : b'.debugConsole = b.debugConsole)
    (hPtr : b'.debugWritePtr = b.debugWritePtr) : Truthful b' := by
  obtain ⟨msgs, hShows⟩ := h
  have hLine : b'.line = b.line := by
    funext i
    rw [Browser.line, Browser.line, hConsole]
  refine ⟨msgs, ?_, ?_, ?_⟩
  · rw [hPtr]
    exact hShows.ptr
  · rw [hConsole]
    exact hShows.ends
  · rw [hLine, hPtr]
    exact hShows.lines

theorem Truthful.saveUrl {b : Browser} (h : Truthful b) (url : List UInt8) : Truthful (saveUrl url b) := by
  have hLogged := h.naobrowseLog (by simp [lit] : 0 ∉ lit "Saving URL endpoint trace to history backstack...")
  unfold NaoBrowse.saveUrl
  dsimp only
  split_ifs <;> exact hLogged.congr rfl rfl

theorem Truthful.navigateTo {b : Browser} (h : Truthful b) (url : List UInt8) (save : Bool)
    (error : BitVec 8) : Truthful (naobrowseNavigateTo url save error b) := by
  have hSaved : ∀ b', Truthful b' → Truthful (if save then NaoBrowse.saveUrl url b' else b') := by
    intro b' h'
    split
    · exact h'.saveUrl url
    · exact h'
  have hAsked : ∀ b', Truthful b' → Truthful (NaoBrowse.naobrowseLog
      (lit "Invoking asynchronous lwIP network socket routine: httpc_get_file()...")
      (NaoBrowse.naobrowseLog (lit "Binding internal routing table target to QEMU Gateway IP: 10.0.2.2") b')) :=
    fun b' h' => (h'.naobrowseLog (by simp [lit])).naobrowseLog (by simp [lit])
  have hRouted := h.naobrowseLog
    (zero_not_mem_printed 128 "Dispatcher action: routing request path to: '%s'" [.str (some url)])
  unfold naobrowseNavigateTo
  extract_lets b₁ b₂ b₃ b₄ b₅ b₆
  have h₂ : Truthful b₂ := hRouted.congr rfl rfl
  have h₅ : Truthful b₅ := hAsked b₃ (hSaved b₂ h₂)
  split
  · have h₆ : Truthful b₆ := h₅.naobrowseLog (zero_not_mem_printed _ _ _)
    exact h₆.congr rfl rfl
  · exact h₅.naobrowseLog (by simp [lit])

theorem Truthful.bodyCb {b : Browser} (h : Truthful b) (p : Option Pbuf) :
    Truthful (naobrowseHttpBodyCb p b) := by
  cases p with
  | none => exact h
  | some p =>
    have hLogged := h.naobrowseLog (zero_not_mem_printed 64
      "lwIP Body CB: Received chunk segment of %d bytes" [.word (.ofNat 32 p.payload.length)])
    unfold naobrowseHttpBodyCb
    dsimp only
    split
    · exact hLogged.congr rfl rfl
    · exact hLogged.naobrowseLog (by simp [lit])

theorem Truthful.renderEngineParse {b : Browser} (h : Truthful b) :
    Truthful (naobrowseRenderEngineParse b) := by
  unfold naobrowseRenderEngineParse
  extract_lets b₁ b₂
  have h₁ : Truthful b₁ := h.naobrowseLog (by simp [lit])
  have h₂ : Truthful b₂ := h₁.congr rfl rfl
  exact h₂.naobrowseLog (by simp [lit])

theorem Truthful.resultCb {b : Browser} (h : Truthful b) (res : HttpcResult) (rxContentLen : BitVec 32)
    (err : BitVec 8) : Truthful (naobrowseHttpResultCb res rxContentLen err b) := by
  unfold naobrowseHttpResultCb
  extract_lets b₁ b₂ b₃
  have h₁ : Truthful b₁ := h.naobrowseLog (by simp [lit])
  have h₂ : Truthful b₂ := h₁.naobrowseLog (zero_not_mem_printed _ _ _)
  have h₃ : Truthful b₃ := by
    unfold b₃
    split
    · exact (h₁.naobrowseLog (zero_not_mem_printed _ _ _)).renderEngineParse
    · exact h₂.congr rfl rfl
  exact h₃.congr rfl rfl

theorem Truthful.followHistory {b : Browser} (h : Truthful b) {msg : String} (hMsg : 0 ∉ lit msg) (move : Int)
    (error : BitVec 8) : Truthful (followHistory msg move error b) := by
  unfold NaoBrowse.followHistory
  extract_lets b₁ b₂ b₃
  have h₁ : Truthful b₁ := h.naobrowseLog hMsg
  have h₃ : Truthful b₃ := h₁.congr rfl rfl
  exact h₃.navigateTo _ _ _

theorem Truthful.goButton {b : Browser} (h : Truthful b) (error : BitVec 8) : Truthful (goButton error b) := by
  unfold NaoBrowse.goButton
  extract_lets b₁ b₂
  have h₁ : Truthful b₁ := h.naobrowseLog (by simp [lit])
  have h₂ : Truthful b₂ := h₁.congr rfl rfl
  exact h₂.navigateTo _ _ _

theorem Truthful.act {b : Browser} (h : Truthful b) (a : Action) : Truthful (act b a).val := by
  cases a with
  | edit url => exact h.congr rfl rfl
  | back error =>
    show Truthful (backButton error b)
    unfold backButton
    split
    · exact h.followHistory (by simp [lit]) _ _
    · exact h
  | forward error =>
    show Truthful (forwardButton error b)
    unfold forwardButton
    split
    · exact h.followHistory (by simp [lit]) _ _
    · exact h
  | go error => exact h.goButton error
  | body p => exact h.bodyCb p
  | result res rxContentLen err => exact h.resultCb res rxContentLen err

/-- Whatever clicks and callbacks there have been, the console is in order. -/
theorem navigate_shows (as : List Action) : Truthful (navigate as).val := by
  refine feed_invariant (fun _ _ (b : Browser) => Truthful b) ⟨[], shows_init⟩ ?_ as
  intro _ _ b a h
  exact h.act a

end Nao.NaoBrowse
