import Nao.NaoEdit.Window

/-!
# The shell — definitions

The main loop of `kernel_main` as far as it launches apps and turns the busy cursor: the handler
of the pending launch, the taskbar, the start menu, `render_naoedit` and `ani_update`.

A click in the start menu only marks an app as pending. The next iteration starts the timer of
the launch and the animation, and an iteration 18 ticks later stops the animation and shows the
app's window. NaoEdit starts and stops the same animation for its file operations.

`Restart` and `Shutdown` do not return, and of the apps only NaoEdit's window is followed here.
-/

namespace Nao.Shell

open SysLib Ani

/-- The apps of the start menu. -/
inductive App where
  | sysMonitor | themeMixer | fileExplorer | naoEdit | naoView
  deriving DecidableEq, Repr

/-- The start menu, from top to bottom. -/
def apps : List App := [.sysMonitor, .themeMixer, .fileExplorer, .naoEdit, .naoView]

/-- `ANIMATION_DELAY_TICKS`. -/
def animationDelayTicks : BitVec 32 := 18

/-- `start_menu_open`, `pending_app_launch`, `pending_app_start_tick`, and NaoEdit with the
animation. -/
structure Desktop where
  startMenuOpen       : Bool
  pendingAppLaunch    : Option App
  pendingAppStartTick : BitVec 32
  edit                : NaoEdit.World

def Desktop.boot (files : NaoEdit.Files) (ani : Ani.State) : Desktop :=
  { startMenuOpen := false, pendingAppLaunch := none, pendingAppStartTick := 0
    edit := NaoEdit.World.boot files ani }

/-- `ani_is_active()`. -/
def Desktop.aniIsActive (s : Desktop) : Bool := s.edit.ani.active

/-- A launch is pending and its timer has been started. -/
def Desktop.launching (s : Desktop) : Bool := s.pendingAppLaunch.isSome && s.pendingAppStartTick != 0

/-- `file_op_state != 0`. -/
def Desktop.fileOpPending (s : Desktop) : Bool := s.edit.fileOp != .idle

/-- What a run is seen to do; where the animation is stopped, whether the other of its two users
has work pending. -/
inductive Event where
  /-- The timer of a launch and the animation are started. -/
  | started (tick : BitVec 32)
  /-- The animation is stopped and the app launched. -/
  | launched (app : App) (fileOpPending : Bool)
  | edit (e : NaoEdit.Event) (launching : Bool)
  deriving DecidableEq

/-- What an iteration of the main loop reads: `timer_ticks` where the timer is started, in
`ani_play`, at the delay and at `ani_update`; the buttons; NaoEdit's frame. -/
structure Iteration where
  startTick     : BitVec 32
  playTick      : BitVec 32
  launchTick    : BitVec 32
  startButton   : Bool
  naoeditButton : Bool
  menuButton    : App → Bool
  frame         : NaoEdit.Frame
  updateTick    : BitVec 32

def Desktop.withAni (s : Desktop) (f : Ani.State → Ani.State) : Desktop :=
  { s with edit := { s.edit with ani := f s.edit.ani } }

/-- The first iteration with a pending launch starts its timer. -/
def startTimer (i : Iteration) (s : Desktop) : Traced Event Desktop :=
  if s.pendingAppStartTick = 0 then do
    Traced.tell (.started i.startTick)
    let s := { s with pendingAppStartTick := i.startTick }
    pure (s.withAni (aniPlay i.playTick))
  else pure s

def showApp (app : App) (s : Desktop) : Desktop :=
  if app = .naoEdit then { s with edit := s.edit.launch } else s

/-- The launch, once the delay is over. -/
def launchApp (i : Iteration) (app : App) (s : Desktop) : Traced Event Desktop :=
  if i.launchTick - s.pendingAppStartTick ≥ animationDelayTicks then do
    Traced.tell (.launched app s.fileOpPending)
    let s := s.withAni aniStop
    let s := showApp app s
    pure { s with pendingAppLaunch := none, pendingAppStartTick := 0 }
  else pure s

/-- The handler of the pending launch. -/
def launchHandler (i : Iteration) (s : Desktop) : Traced Event Desktop :=
  match s.pendingAppLaunch with
  | none => pure s
  | some app => do
    let s ← startTimer i s
    launchApp i app s

/-- The buttons `START` and `NaoEdit` of the taskbar. -/
def taskbar (i : Iteration) (s : Desktop) : Desktop :=
  let s := if i.startButton then { s with startMenuOpen := !s.startMenuOpen } else s
  if i.naoeditButton then { s with edit := s.edit.taskbar } else s

/-- A button of the start menu. -/
def menuItem (i : Iteration) (s : Desktop) (app : App) : Desktop :=
  if i.menuButton app ∧ s.pendingAppLaunch = none then
    { s with pendingAppLaunch := some app, startMenuOpen := false }
  else s

/-- The start menu. -/
def startMenu (i : Iteration) (s : Desktop) : Desktop :=
  if s.startMenuOpen then apps.foldl (menuItem i) s else s

/-- `render_naoedit`. -/
def renderNaoedit (i : Iteration) (s : Desktop) : Traced Event Desktop :=
  (fun edit => { s with edit }) <$>
    (NaoEdit.renderNaoedit i.frame s.edit).relabel (Event.edit · s.launching)

/-- One iteration of the main loop. -/
def step (s : Desktop) (i : Iteration) : Traced Event Desktop := do
  let s ← launchHandler i s
  let s := taskbar i s
  let s := startMenu i s
  let s ← renderNaoedit i s
  pure (s.withAni (aniUpdate i.updateTick))

end Nao.Shell
