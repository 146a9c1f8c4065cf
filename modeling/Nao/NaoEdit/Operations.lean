import Nao.Lib.History
import Nao.NaoEdit.Window

/-!
# NaoEdit — the delayed file operations

Between the OK in a dialog and the file operation lie 30 ticks and many frames, and the operation
finds its kind in `file_op_state` and its path in `filepath_buffer`. That both are still those of
the OK holds because no dialog is shown while an operation is pending, so that nothing edits the
path (`Inv`).

* `Move` — everything a part of a frame can do, guards included; `does_step` says that a frame
  does nothing else.
* `file_operation_machine` — over every run: the dialogs exclude each other and a pending
  operation; an operation runs with the kind and the path of the last OK, once, at least 30
  ticks later, and not if the window was closed; the text always ends within its buffer.
-/

namespace Nao.NaoEdit

open SysLib FatFs Ani

-- ---------------------------------------------------------------------------
-- What a frame can do
-- ---------------------------------------------------------------------------

/-- The kind of the dialog that is shown. -/
def World.dialogOp (w : World) : FileOp :=
  if w.showOpenDialog then .pendingOpen else .pendingSave

/-- A move of NaoEdit, with the events it is seen by. -/
inductive Move : World → List Event → World → Prop where
  /-- The window is shown, minimised or restored, or the alert goes. -/
  | shell {w : World} (active minimized : Bool) (alert : Alert) :
      Move w [] { w with active, minimized, editor := { w.editor with alertState := alert } }
  /-- `Open...` (`isOpen`) or `Save As...`. -/
  | menu {w : World} (isOpen : Bool) (hIdle : w.fileOp = .idle) :
      Move w [] { w with showOpenDialog := isOpen, showSaveDialog := !isOpen }
  | editPath {w : World} (edit : Mem) (hShown : w.showOpenDialog ∨ w.showSaveDialog) :
      Move w [] { w with filepathBuffer := nkEdit (filepathSize - 1) edit w.filepathBuffer }
  | ok {w : World} (playTick tick : BitVec 32) (hIdle : w.fileOp = .idle) :
      Move w [.ok w.dialogOp w.path tick, .play]
        (closeDialogs { w with
          ani := aniPlay playTick w.ani, fileOpStartTick := tick, fileOp := w.dialogOp })
  | okBusy {w : World} (tick : BitVec 32) (hShown : w.showOpenDialog ∨ w.showSaveDialog)
      (hBusy : w.fileOp ≠ .idle) : Move w [.ok w.dialogOp w.path tick] (closeDialogs w)
  | cancel {w : World} : Move w [] (closeDialogs w)
  | editText {w : World} (edit : Mem) :
      Move w [.scanned ((nkEdit (maxTextLen - 1) edit w.editor.textBuffer).strlen maxTextLen)]
        { w with editor := { w.editor with
          textBuffer := nkEdit (maxTextLen - 1) edit w.editor.textBuffer
          textLen := (nkEdit (maxTextLen - 1) edit w.editor.textBuffer).strlen maxTextLen } }
  | execute {w : World} (f : Frame) (hBusy : w.fileOp ≠ .idle)
      (hLate : f.tick - w.fileOpStartTick ≥ 30) :
      Move w [.stop, .executed w.fileOp w.path f.tick]
        { executeActual f { w with ani := aniStop w.ani } with fileOp := .idle }
  | close {w : World} :
      Move w [.closed, .stop]
        { w with
          active := false, editor := { w.editor with alertState := .none }, fileOp := .idle
          ani := aniStop w.ani }

theorem does_delayHandler (f : Frame) (w : World) : Does Move w (delayHandler f w) :=
  does_guarded fun h => .one (.execute f h.1 h.2)

theorem does_menuItem (isOpen clicked : Bool) (w : World) :
    Does Move w (pure (menuItem (if isOpen then .pendingOpen else .pendingSave) clicked w)) := by
  refine does_guarded_pure fun h => ?_
  cases isOpen with
  | true => exact .one (.menu true h.2)
  | false => exact .one (.menu false h.2)

theorem does_okButton (b : Body) (w : World) (hShown : w.showOpenDialog ∨ w.showSaveDialog) :
    Does Move w (okButton b w) := by
  refine does_guarded fun _ => ?_
  by_cases hIdle : w.fileOp = .idle
  · simp only [if_pos hIdle]
    exact .one (.ok b.playTick b.okTick hIdle)
  · simp only [if_neg hIdle]
    exact .one (.okBusy b.okTick hShown hIdle)

theorem does_cancelButton (b : Body) (w : World) : Does Move w (pure (cancelButton b w)) :=
  does_guarded_pure fun _ => .one .cancel

theorem does_dialog (b : Body) (w : World) : Does Move w (dialog b w) := by
  refine does_guarded fun hShown => ?_
  have hEdit : Does Move w (pure { w with
      filepathBuffer := nkEdit (filepathSize - 1) b.pathEdit w.filepathBuffer }) :=
    .one (.editPath b.pathEdit hShown)
  refine hEdit.after (.bind (f := fun w => pure (cancelButton b w)) ?_ (does_cancelButton b _))
  exact does_okButton b _ hShown

theorem does_windowBody (f : Frame) (w : World) : Does Move w (windowBody f w) := by
  unfold windowBody
  split
  · exact does_pure w
  · next b _ =>
    refine (does_menuItem true b.menuOpen w).after ((does_menuItem false b.menuSaveAs _).after ?_)
    exact (does_dialog b _).bind (.one (.editText b.textEdit))

theorem does_closeWindow (f : Frame) (w : World) : Does Move w (closeWindow f w) :=
  does_guarded fun _ => .one .close

theorem does_alertWindow (f : Frame) (w : World) : Does Move w (pure (alertWindow f w)) :=
  does_guarded_pure fun _ => .one (.shell w.active w.minimized .none)

/-- A frame is a sequence of moves. -/
theorem does_renderNaoedit (f : Frame) (w : World) : Does Move w (renderNaoedit f w) := by
  unfold renderNaoedit
  split
  · exact does_pure w
  · refine (does_delayHandler f w).bind ((does_windowBody f _).bind ?_)
    exact (does_closeWindow f _).bind (does_alertWindow f _)

theorem does_launch (w : World) : Does Move w (pure w.launch) :=
  .one (.shell true false w.editor.alertState)

theorem does_taskbar (w : World) : Does Move w (pure w.taskbar) :=
  does_guarded_pure fun _ => .one (.shell w.active (!w.minimized) w.editor.alertState)

theorem does_step (w : World) (i : Input) : Does Move w (step w i) := by
  cases i with
  | frame f => exact does_renderNaoedit f w
  | launch => exact does_launch w
  | taskbar => exact does_taskbar w

-- ---------------------------------------------------------------------------
-- The buffers
-- ---------------------------------------------------------------------------

/-- The edit of the text in `textArea` is one of those an edit widget may make. -/
theorem nkEdit_nkEditBytes (size : Nat) {max : Nat} (hMax : 0 < max) (typed : Option (List UInt8))
    (buffer : Mem) :
    nkEdit max (nkEditBytes size max typed buffer) buffer = nkEditBytes size max typed buffer := by
  funext i
  unfold nkEdit
  split
  · rfl
  · next hOut =>
    cases typed with
    | none =>
      rw [nkEditBytes, Mem.write8_of_ne _ _ (by omega)]
    | some text =>
      rw [nkEditBytes, Mem.write8_of_ne _ _ (by omega),
        Mem.blit_of_disjoint _ _ (.inr (by rw [List.length_take]; omega))]

/-- The text area with typed text, seen as a text field with an arbitrary edit. -/
theorem textField_editor (typed : Option (List UInt8)) (b : Body) (w : World)
    (hEdit : b.textEdit = nkEditBytes maxTextLen (maxTextLen - 1) typed w.editor.textBuffer) :
    (textField b w).val.editor = textArea typed w.editor := by
  have hBuffer : nkEdit (maxTextLen - 1) b.textEdit w.editor.textBuffer = b.textEdit := by
    rw [hEdit, nkEdit_nkEditBytes _ (by decide)]
  rw [textField, hBuffer, hEdit]
  rfl

/-- `f_read` is given one byte less than the array has, and the byte behind what it stored is
inside the array. -/
theorem executeActualOpen_end (a : OpenAnswers) (path : CStr) (vol : Files) {e : Editor}
    (h : e.textBuffer (maxTextLen - 1) = 0) :
    (executeActualOpen a path vol e).textBuffer (maxTextLen - 1) = 0 := by
  unfold executeActualOpen
  split
  · next content _ =>
    have hLen : (fRead a content (maxTextLen - 1)).length ≤ maxTextLen - 1 := by
      unfold fRead
      split <;> simp only [List.length_take] <;> omega
    have hBlit : e.textBuffer.blit 0 (fRead a content (maxTextLen - 1)) (maxTextLen - 1) = 0 := by
      rw [Mem.blit_of_disjoint _ _ (.inr (by omega)), h]
    dsimp only
    split
    · show Mem.write8 _ (fRead a content (maxTextLen - 1)).length 0 (maxTextLen - 1) = 0
      by_cases hEnd : maxTextLen - 1 = (fRead a content (maxTextLen - 1)).length
      · rw [← hEnd, Mem.write8_same]
      · rw [Mem.write8_of_ne _ _ hEnd, hBlit]
    · exact hBlit
  · exact h

theorem executeActualSave_textBuffer (a : SaveAnswers) (path : CStr) (vol : Files) (e : Editor) :
    (executeActualSave a path vol e).1.textBuffer = e.textBuffer := by
  rw [executeActualSave]
  split
  · dsimp only
    split <;> rfl
  · rfl

theorem executeActual_end (f : Frame) {w : World} (h : w.editor.textBuffer (maxTextLen - 1) = 0) :
    (executeActual f w).editor.textBuffer (maxTextLen - 1) = 0 := by
  unfold executeActual
  split
  · exact h
  · exact executeActualOpen_end _ _ _ h
  · show (executeActualSave _ _ _ _).1.textBuffer _ = 0
    rw [executeActualSave_textBuffer, h]

/-- What an execution leaves alone. -/
theorem executeActual_frame (f : Frame) (w : World) :
    (executeActual f w).showOpenDialog = w.showOpenDialog ∧
      (executeActual f w).showSaveDialog = w.showSaveDialog ∧ (executeActual f w).ani = w.ani := by
  unfold executeActual
  split <;> exact ⟨rfl, rfl, rfl⟩

-- ---------------------------------------------------------------------------
-- The machine
-- ---------------------------------------------------------------------------

/-- The events an operation begins and ends with. -/
def Event.mark : Event → Option Event
  | .ok op path tick => some (.ok op path tick)
  | .executed op path tick => some (.executed op path tick)
  | .closed => some .closed
  | .scanned _ | .play | .stop => none

/-- What is demanded of an event, given the log before it. -/
def Event.Ok (pre : List Event) : Event → Prop
  | .executed op path tick =>
    ∃ okTick, latest Event.mark pre = some (.ok op path okTick) ∧ tick - okTick ≥ 30
  | .scanned index => index < maxTextLen
  | _ => True

/-- The dialogs exclude each other, and a pending operation excludes both. -/
structure Exclusive (w : World) : Prop where
  dialogs : ¬(w.showOpenDialog ∧ w.showSaveDialog)
  pending : w.fileOp ≠ .idle → w.showOpenDialog = false ∧ w.showSaveDialog = false

/-- There is a NUL in `text_buffer`. -/
def Terminated (w : World) : Prop := ∃ i < maxTextLen, w.editor.textBuffer i = 0

/-- The log and the variables agree: a pending operation is that of the last OK, and its path is
still in the buffer. Nothing ever writes the last byte of the text. -/
structure Inv (log : List Event) (w : World) : Prop where
  exclusive : Exclusive w
  pending   : w.fileOp ≠ .idle →
    latest Event.mark log = some (.ok w.fileOp w.path w.fileOpStartTick)
  textEnd   : w.editor.textBuffer (maxTextLen - 1) = 0
  lawful    : Throughout Event.Ok log

theorem World.dialogOp_ne_idle (w : World) : w.dialogOp ≠ .idle := by
  unfold World.dialogOp
  split <;> nofun

theorem inv_move {log seen : List Event} {w w' : World} (h : Inv log w) (hMove : Move w seen w') :
    Inv (log ++ seen) w' := by
  obtain ⟨hExclusive, hPending, hEnd, hLawful⟩ := h
  cases hMove with
  | shell active minimized alert =>
    rw [List.append_nil]
    exact ⟨⟨hExclusive.dialogs, hExclusive.pending⟩, hPending, hEnd, hLawful⟩
  | menu isOpen hIdle =>
    rw [List.append_nil]
    refine ⟨⟨?_, fun hBusy => absurd hIdle hBusy⟩, hPending, hEnd, hLawful⟩
    cases isOpen <;> simp
  | editPath edit hShown =>
    rw [List.append_nil]
    refine ⟨⟨hExclusive.dialogs, hExclusive.pending⟩, fun hBusy => ?_, hEnd, hLawful⟩
    -- a dialog is shown, so no operation is pending whose path the edit could change
    obtain ⟨hOpen, hSave⟩ := hExclusive.pending hBusy
    simp [hOpen, hSave] at hShown
  | ok playTick tick hIdle =>
    rw [List.append_cons]
    refine ⟨⟨by simp [closeDialogs], fun _ => ⟨rfl, rfl⟩⟩, fun _ => ?_, hEnd, ?_⟩
    · rw [latest_concat, latest_concat]
      rfl
    · rw [throughout_concat, throughout_concat]
      exact ⟨⟨hLawful, trivial⟩, trivial⟩
  | okBusy tick hShown hBusy =>
    obtain ⟨hOpen, hSave⟩ := hExclusive.pending hBusy
    simp [hOpen, hSave] at hShown
  | cancel =>
    rw [List.append_nil]
    exact ⟨⟨by simp [closeDialogs], fun _ => ⟨rfl, rfl⟩⟩, hPending, hEnd, hLawful⟩
  | editText edit =>
    have hEnd' : nkEdit (maxTextLen - 1) edit w.editor.textBuffer (maxTextLen - 1) = 0 := by
      rw [nkEdit, if_neg (Nat.lt_irrefl _), hEnd]
    have hScan := Mem.strlen_le_of_zero (n := maxTextLen) (by decide) hEnd'
    refine ⟨⟨hExclusive.dialogs, hExclusive.pending⟩, fun hBusy => ?_, hEnd', ?_⟩
    · rw [latest_concat]
      exact hPending hBusy
    · rw [throughout_concat]
      exact ⟨hLawful, Nat.lt_of_le_of_lt hScan (by decide)⟩
  | execute f hBusy hLate =>
    obtain ⟨hOpen, hSave, -⟩ := executeActual_frame f { w with ani := aniStop w.ani }
    rw [List.append_cons]
    refine ⟨⟨?_, fun h => absurd rfl h⟩, fun h => absurd rfl h, executeActual_end f hEnd, ?_⟩
    · show ¬((executeActual f _).showOpenDialog = true ∧ (executeActual f _).showSaveDialog = true)
      rw [hOpen, hSave]
      exact hExclusive.dialogs
    · rw [throughout_concat, throughout_concat]
      refine ⟨⟨hLawful, trivial⟩, w.fileOpStartTick, ?_, hLate⟩
      rw [latest_concat]
      exact hPending hBusy
  | close =>
    rw [List.append_cons]
    refine ⟨⟨hExclusive.dialogs, fun h => absurd rfl h⟩, fun h => absurd rfl h, hEnd, ?_⟩
    rw [throughout_concat, throughout_concat]
    exact ⟨⟨hLawful, trivial⟩, trivial⟩

theorem inv_boot (files : Files) (ani : Ani.State) : Inv [] (World.boot files ani) := by
  refine ⟨⟨nofun, fun h => absurd rfl h⟩, fun h => absurd rfl h, ?_, throughout_nil⟩
  have hShort : 0 + (Kernel.lit "Welcome to NaoEdit!\nType your text here..." ++ [0]).length
      ≤ maxTextLen - 1 := by decide
  exact Mem.blit_of_disjoint (fun _ => 0) _ (.inr hShort)

/--
**The file operations of NaoEdit.** For every volume and every sequence of frames, launches and
clicks on the taskbar, with any timer values, any answers of FatFs and any edits: the dialogs
exclude each other and a pending operation; and every event of the run is lawful given those
before it. In particular the last thing that happened to an operation before it is executed is
the OK of its dialog, with the same kind and path and at least 30 ticks ago: so an OK is executed
at most once, and not after the window was closed. There is always a NUL in the text, and the
scan stops inside the buffer.
-/
theorem file_operation_machine (files : Files) (ani : Ani.State) (is : List Input) :
    let r := feed step (World.boot files ani) is
    Exclusive r.val ∧ Terminated r.val ∧ Throughout Event.Ok r.trace := by
  intro r
  have h : Inv r.trace r.val :=
    feed_keeps does_step Inv (inv_boot files ani) (fun _ _ _ _ => inv_move) is
  exact ⟨h.exclusive, ⟨maxTextLen - 1, by decide, h.textEnd⟩, h.lawful⟩

end Nao.NaoEdit
