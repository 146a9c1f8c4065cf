import Nao.Ani.Definitions
import Nao.Kernel.Strings
import Nao.Lib.Machine
import Nao.NaoEdit.Definitions

/-!
# NaoEdit — the window

`render_naoedit`: the delayed file operation, the menu, the dialog with the path, the text area
and the closing of the window.

A frame brings what the widgets report, in the order in which `render_naoedit` asks them, and
every value it reads from `timer_ticks`, which may change between two reads. An edit widget may
leave anything in the bytes it is given and touches no other.

The animation is a part of the state, since `render_naoedit` starts and stops it.
-/

namespace Nao.NaoEdit

open SysLib FatFs Ani

/-- `file_op_state`: 0, 1, 2. -/
inductive FileOp where
  | idle | pendingOpen | pendingSave
  deriving DecidableEq, Repr

/-- The variables of `naoedit.c`, the volume and the animation. -/
structure World where
  active          : Bool
  minimized       : Bool
  showOpenDialog  : Bool
  showSaveDialog  : Bool
  fileOp          : FileOp
  fileOpStartTick : BitVec 32
  filepathBuffer  : Mem
  editor          : Editor
  files           : Files
  ani             : Ani.State

/-- `sizeof(filepath_buffer)`. -/
def filepathSize : Nat := 128

/-- The contents of `filepath_buffer`. -/
def World.path (w : World) : List UInt8 := w.filepathBuffer.slice 0 filepathSize

/-- The path FatFs is given: the string in `filepath_buffer`. -/
def World.filepath (w : World) : CStr :=
  (w.filepathBuffer.cstr filepathSize).map fun b => Char.ofNat b.toNat

/-- The static variables at boot; the initial `text_len` is one less than the length. -/
def World.boot (files : Files) (ani : Ani.State) : World :=
  { active := false, minimized := false, showOpenDialog := false, showSaveDialog := false
    fileOp := .idle, fileOpStartTick := 0
    filepathBuffer := Kernel.strcpy (fun _ => 0) (Kernel.lit "0:/NOTES.TXT")
    editor :=
      { textBuffer := Kernel.strcpy (fun _ => 0)
          (Kernel.lit "Welcome to NaoEdit!\nType your text here...")
        textLen := 41, alertState := .none, alertMessage := "" }
    files, ani }

/-- What a run is seen to do. -/
inductive Event where
  /-- OK in a dialog: the kind of the dialog, the path in it, and the tick. -/
  | ok (op : FileOp) (path : List UInt8) (tick : BitVec 32)
  /-- `execute_actual_open` or `execute_actual_save`. -/
  | executed (op : FileOp) (path : List UInt8) (tick : BitVec 32)
  /-- The window was closed. -/
  | closed
  /-- The scan for the end of the text stopped at this index. -/
  | scanned (index : Nat)
  /-- `ani_play`, `ani_stop`. -/
  | play
  | stop
  deriving DecidableEq

-- ---------------------------------------------------------------------------
-- A frame
-- ---------------------------------------------------------------------------

/-- What the body of the window is told by its widgets. -/
structure Body where
  menuOpen   : Bool
  menuSaveAs : Bool
  pathEdit   : Mem
  ok         : Bool
  /-- `timer_ticks` in `ani_play` and after it. -/
  playTick   : BitVec 32
  okTick     : BitVec 32
  cancel     : Bool
  textEdit   : Mem

/-- A call of `render_naoedit`: the tick at the delay handler, the answers of FatFs to it, the
body of the window if `nk_begin` runs it, whether the window is hidden after `nk_end`, and
whether the alert is dismissed. -/
structure Frame where
  tick          : BitVec 32
  openAnswers   : OpenAnswers
  saveAnswers   : SaveAnswers
  body          : Option Body
  hidden        : Bool
  dismissAlert  : Bool

/-- `nk_edit_string_zero_terminated(.., buffer, max, ..)`: it leaves `edit` in its bytes. -/
def nkEdit (max : Nat) (edit buffer : Mem) : Mem := fun i => if i < max then edit i else buffer i

/-- `execute_actual_open(filepath_buffer)` or `execute_actual_save(filepath_buffer)`. -/
def executeActual (f : Frame) (w : World) : World :=
  match w.fileOp with
  | .idle => w
  | .pendingOpen => { w with editor := executeActualOpen f.openAnswers w.filepath w.files w.editor }
  | .pendingSave =>
    let (editor, files) := executeActualSave f.saveAnswers w.filepath w.files w.editor
    { w with editor, files }

/-- The delay handler. -/
def delayHandler (f : Frame) (w : World) : Traced Event World :=
  if w.fileOp ≠ .idle ∧ f.tick - w.fileOpStartTick ≥ 30 then do
    Traced.tell .stop
    let w := { w with ani := aniStop w.ani }
    Traced.tell (.executed w.fileOp w.path f.tick)
    let w := executeActual f w
    pure { w with fileOp := .idle }
  else pure w

/-- An item of the menu: `Open...` or `Save As...`. -/
def menuItem (op : FileOp) (clicked : Bool) (w : World) : World :=
  if clicked ∧ w.fileOp = .idle then
    { w with showOpenDialog := op = .pendingOpen, showSaveDialog := op = .pendingSave }
  else w

def closeDialogs (w : World) : World := { w with showOpenDialog := false, showSaveDialog := false }

/-- The button OK of a dialog. -/
def okButton (b : Body) (w : World) : Traced Event World :=
  if b.ok then do
    let op := if w.showOpenDialog then FileOp.pendingOpen else .pendingSave
    Traced.tell (.ok op w.path b.okTick)
    if w.fileOp = .idle then
      Traced.tell .play
      pure (closeDialogs { w with
        ani := aniPlay b.playTick w.ani, fileOpStartTick := b.okTick, fileOp := op })
    else pure (closeDialogs w)
  else pure w

def cancelButton (b : Body) (w : World) : World := if b.cancel then closeDialogs w else w

/-- The dialog with the path. -/
def dialog (b : Body) (w : World) : Traced Event World :=
  if w.showOpenDialog ∨ w.showSaveDialog then do
    let w := { w with filepathBuffer := nkEdit (filepathSize - 1) b.pathEdit w.filepathBuffer }
    let w ← okButton b w
    pure (cancelButton b w)
  else pure w

/-- The text area, and the scan for its length. -/
def textField (b : Body) (w : World) : Traced Event World := do
  let buffer := nkEdit (maxTextLen - 1) b.textEdit w.editor.textBuffer
  let len := buffer.strlen maxTextLen
  Traced.tell (.scanned len)
  pure { w with editor := { w.editor with textBuffer := buffer, textLen := len } }

/-- What stands between `nk_begin` and `nk_end`. -/
def windowBody (f : Frame) (w : World) : Traced Event World :=
  match f.body with
  | none => pure w
  | some b => do
    let w := menuItem .pendingOpen b.menuOpen w
    let w := menuItem .pendingSave b.menuSaveAs w
    let w ← dialog b w
    textField b w

/-- After `nk_end`: the window may have been closed. -/
def closeWindow (f : Frame) (w : World) : Traced Event World :=
  if f.hidden then do
    Traced.tell .closed
    Traced.tell .stop
    pure { w with
      active := false, editor := { w.editor with alertState := .none }, fileOp := .idle
      ani := aniStop w.ani }
  else pure w

/-- The floating alert. -/
def alertWindow (f : Frame) (w : World) : World :=
  if w.editor.alertState ≠ .none ∧ f.dismissAlert then
    { w with editor := { w.editor with alertState := .none } }
  else w

def renderNaoedit (f : Frame) (w : World) : Traced Event World :=
  if !w.active || w.minimized then pure w
  else do
    let w ← delayHandler f w
    let w ← windowBody f w
    let w ← closeWindow f w
    pure (alertWindow f w)

-- ---------------------------------------------------------------------------
-- The machine
-- ---------------------------------------------------------------------------

/-- A frame of the main loop, and what happens to NaoEdit outside its window: it is launched, or
its taskbar button is clicked. -/
inductive Input where
  | frame (f : Frame)
  | launch
  | taskbar

/-- `naoedit_active = 1; naoedit_minimized = 0;`. -/
def World.launch (w : World) : World := { w with active := true, minimized := false }

/-- The taskbar button, which is there while the window is. -/
def World.taskbar (w : World) : World :=
  if w.active then { w with minimized := !w.minimized } else w

def step (w : World) : Input → Traced Event World
  | .frame f => renderNaoedit f w
  | .launch => pure w.launch
  | .taskbar => pure w.taskbar

end Nao.NaoEdit
