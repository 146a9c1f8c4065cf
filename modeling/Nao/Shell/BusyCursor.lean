import Nao.NaoEdit.Operations
import Nao.Shell.Definitions

/-!
# The busy cursor

The launch of an app and a file operation of NaoEdit both start the animation when they begin and
stop it when they end. Nobody counts: whoever ends first stops it for the other as well, and so
does closing NaoEdit's window.

* `Move` — everything a part of an iteration can do; `does_step` says that an iteration does
  nothing else.
* `busy_cursor_iff` — at the end of an iteration the cursor shows whether there is work pending,
  exactly if the last call to the animation was not a stop while the other user was busy.
* `busy_cursor_lost` — a launch that ends while a file is being opened.
-/

namespace Nao.Shell

open SysLib Ani

-- ---------------------------------------------------------------------------
-- What an iteration can do
-- ---------------------------------------------------------------------------

/-- A move of the main loop, with the events it is seen by. -/
inductive Move : Desktop → List Event → Desktop → Prop where
  | startMenu {s : Desktop} (isOpen : Bool) : Move s [] { s with startMenuOpen := isOpen }
  /-- A click in the start menu. -/
  | queue {s : Desktop} (app : App) (hNone : s.pendingAppLaunch = none) :
      Move s [] { s with pendingAppLaunch := some app, startMenuOpen := false }
  | start {s : Desktop} (tick playTick : BitVec 32) (hPending : s.pendingAppLaunch ≠ none) :
      Move s [.started tick]
        ({ s with pendingAppStartTick := tick }.withAni (aniPlay playTick))
  | launch {s : Desktop} (app : App) :
      Move s [.launched app s.fileOpPending]
        { s.withAni aniStop with pendingAppLaunch := none, pendingAppStartTick := 0 }
  /-- NaoEdit makes a move, in a frame or because the shell shows or hides its window. -/
  | edit {s : Desktop} {seen : List NaoEdit.Event} {w : NaoEdit.World}
      (h : NaoEdit.Move s.edit seen w) :
      Move s (seen.map (Event.edit · s.launching)) { s with edit := w }
  | update {s : Desktop} (tick : BitVec 32) : Move s [] (s.withAni (aniUpdate tick))

/-- What NaoEdit does, seen from the shell. -/
theorem does_edit (s : Desktop) {t : Traced NaoEdit.Event NaoEdit.World}
    (h : Does NaoEdit.Move s.edit t) :
    Does Move s ((fun edit => { s with edit }) <$> t.relabel (Event.edit · s.launching)) :=
  h.lift (fun edit => { s with edit }) (Event.edit · s.launching)
    fun _ _ _ hMove => Move.edit (s := { s with edit := _ }) hMove

theorem does_startTimer (i : Iteration) (s : Desktop) (hPending : s.pendingAppLaunch ≠ none) :
    Does Move s (startTimer i s) :=
  does_guarded fun _ => .one (.start i.startTick i.playTick hPending)

theorem does_showApp (app : App) (s : Desktop) : Does Move s (pure (showApp app s)) :=
  does_guarded_pure fun _ => does_edit s (NaoEdit.does_launch s.edit)

theorem does_launchApp (i : Iteration) (app : App) (s : Desktop) :
    Does Move s (launchApp i app s) := by
  refine does_guarded fun _ => ?_
  have hLaunch : Does Move s ⟨_, [.launched app s.fileOpPending]⟩ := .one (.launch app)
  have hShow := hLaunch.bind (f := fun s => pure (showApp app s)) (does_showApp app _)
  -- the source shows the window first and then clears the pending launch
  by_cases hApp : app = .naoEdit
  · simpa [showApp, hApp, bind, pure, Traced.tell] using hShow
  · simpa [showApp, hApp, bind, pure, Traced.tell] using hShow

theorem does_launchHandler (i : Iteration) (s : Desktop) : Does Move s (launchHandler i s) := by
  unfold launchHandler
  split
  · exact does_pure s
  · next app hPending =>
    have hPending : s.pendingAppLaunch ≠ none := by rw [hPending]; exact Option.some_ne_none app
    exact (does_startTimer i s hPending).bind (does_launchApp i app _)

theorem does_taskbar (i : Iteration) (s : Desktop) : Does Move s (pure (taskbar i s)) := by
  have hStart : Does Move s
      (pure (if i.startButton then { s with startMenuOpen := !s.startMenuOpen } else s)) :=
    does_guarded_pure fun _ => .one (.startMenu _)
  exact hStart.after (does_guarded_pure fun _ => does_edit _ (NaoEdit.does_taskbar _))

theorem does_menuItem (i : Iteration) (s : Desktop) (app : App) :
    Does Move s (pure (menuItem i s app)) :=
  does_guarded_pure fun h => .one (.queue app h.2)

theorem does_startMenu (i : Iteration) (s : Desktop) : Does Move s (pure (startMenu i s)) :=
  does_guarded_pure fun _ => does_foldl (does_menuItem i) s apps

/-- An iteration is a sequence of moves. -/
theorem does_step (s : Desktop) (i : Iteration) : Does Move s (step s i) := by
  refine (does_launchHandler i s).bind ((does_taskbar i _).after ((does_startMenu i _).after ?_))
  exact (does_edit _ (NaoEdit.does_renderNaoedit i.frame _)).bind (.one (.update i.updateTick))

-- ---------------------------------------------------------------------------
-- The animation
-- ---------------------------------------------------------------------------

/-- A call to the animation: it is started, or stopped while the other user has work pending or
not. -/
inductive Call where
  | play
  | stop (otherBusy : Bool)
  deriving DecidableEq

/-- The call behind an event. -/
def Event.call : Event → Option Call
  | .started _ => some .play
  | .launched _ fileOpPending => some (.stop fileOpPending)
  | .edit .play _ => some .play
  | .edit .stop launching => some (.stop launching)
  | .edit _ _ => none

/-- There is work pending. -/
def Desktop.Busy (s : Desktop) : Prop := s.launching = true ∨ s.fileOpPending = true

instance (s : Desktop) : Decidable s.Busy := inferInstanceAs (Decidable (_ ∨ _))

/-- What the last call says about the animation and the work. -/
def Agrees (s : Desktop) : Option Call → Prop
  | none => s.aniIsActive = false ∧ ¬s.Busy
  | some .play => s.aniIsActive = true ∧ s.Busy
  | some (.stop otherBusy) => s.aniIsActive = false ∧ (s.Busy ↔ otherBusy = true)

/-- The log and the variables agree. A start tick is set for a pending launch only. -/
structure Inv (log : List Event) (s : Desktop) : Prop where
  frames : 0 < s.edit.ani.frameCount
  unset  : s.pendingAppLaunch = none → s.pendingAppStartTick = 0
  agrees : Agrees s (latest Event.call log)

/-- What a move of NaoEdit does to the animation and the file operation, and how the shell sees
it. -/
inductive EditCall (w w' : NaoEdit.World) (launching : Bool) : Option Call → Prop where
  | none (hAni : w'.ani = w.ani) (hOp : w'.fileOp = w.fileOp) : EditCall w w' launching none
  | play (tick : BitVec 32) (hAni : w'.ani = aniPlay tick w.ani) (hOp : w'.fileOp ≠ .idle) :
      EditCall w w' launching (some .play)
  | stop (hAni : w'.ani = aniStop w.ani) (hOp : w'.fileOp = .idle) :
      EditCall w w' launching (some (.stop launching))

theorem editCall {w w' : NaoEdit.World} {seen : List NaoEdit.Event} (h : NaoEdit.Move w seen w')
    (launching : Bool) :
    EditCall w w' launching (latest Event.call (seen.map (Event.edit · launching))) := by
  cases h with
  | shell | menu | editPath | okBusy | cancel | editText => exact .none rfl rfl
  | ok playTick => exact .play playTick rfl w.dialogOp_ne_idle
  | execute f =>
    obtain ⟨-, -, hAni⟩ := NaoEdit.executeActual_frame f { w with ani := aniStop w.ani }
    exact .stop hAni rfl
  | close => exact .stop rfl rfl

theorem aniPlay_of_frames (tick : BitVec 32) {ani : Ani.State} (h : 0 < ani.frameCount) :
    (aniPlay tick ani).active = true ∧ (aniPlay tick ani).frameCount = ani.frameCount := by
  rw [aniPlay, if_neg (Nat.ne_of_gt h)]
  exact ⟨rfl, rfl⟩

theorem aniUpdate_frame (tick : BitVec 32) (ani : Ani.State) :
    (aniUpdate tick ani).active = ani.active ∧ (aniUpdate tick ani).frameCount = ani.frameCount := by
  unfold aniUpdate
  split <;> exact ⟨rfl, rfl⟩

theorem Agrees.congr {s s' : Desktop} {c : Option Call} (h : Agrees s c)
    (hActive : s'.aniIsActive = s.aniIsActive) (hLaunching : s'.launching = s.launching)
    (hOp : s'.fileOpPending = s.fileOpPending) : Agrees s' c := by
  have hBusy : s'.Busy ↔ s.Busy := by rw [Desktop.Busy, Desktop.Busy, hLaunching, hOp]
  match c with
  | none => exact ⟨hActive.trans h.1, fun h' => h.2 (hBusy.mp h')⟩
  | some .play => exact ⟨hActive.trans h.1, hBusy.mpr h.2⟩
  | some (.stop _) => exact ⟨hActive.trans h.1, hBusy.trans h.2⟩

theorem inv_edit {log : List Event} {s : Desktop} {seen : List NaoEdit.Event} {w : NaoEdit.World}
    (h : Inv log s) (hMove : NaoEdit.Move s.edit seen w) :
    Inv (log ++ seen.map (Event.edit · s.launching)) { s with edit := w } := by
  obtain ⟨hFrames, hUnset, hAgrees⟩ := h
  have hCall := editCall hMove s.launching
  suffices hBoth : 0 < w.ani.frameCount ∧ Agrees { s with edit := w }
      (latest Event.call (log ++ seen.map (Event.edit · s.launching))) from
    ⟨hBoth.1, hUnset, hBoth.2⟩
  rw [latest_append]
  generalize latest Event.call (seen.map _) = call at hCall
  cases hCall with
  | none hAni hOp =>
    refine ⟨hAni ▸ hFrames, hAgrees.congr (congrArg State.active hAni) rfl ?_⟩
    rw [Desktop.fileOpPending, hOp]
    rfl
  | play tick hAni hOp =>
    obtain ⟨hActive, hCount⟩ := aniPlay_of_frames tick hFrames
    rw [← hAni] at hActive hCount
    exact ⟨hCount ▸ hFrames, hActive, .inr (bne_iff_ne.mpr hOp)⟩
  | stop hAni hOp =>
    refine ⟨by rw [hAni]; exact hFrames, by rw [Desktop.aniIsActive, hAni]; rfl, ?_⟩
    -- NaoEdit is idle now: only a launch can be busy
    simp [Desktop.Busy, Desktop.fileOpPending, hOp, Desktop.launching]

theorem inv_move {log seen : List Event} {s s' : Desktop} (h : Inv log s) (hMove : Move s seen s')
    (hTick : .started 0 ∉ seen) : Inv (log ++ seen) s' := by
  cases hMove with
  | edit hEdit => exact inv_edit h hEdit
  | startMenu isOpen =>
    rw [List.append_nil]
    exact ⟨h.frames, h.unset, h.agrees.congr rfl rfl rfl⟩
  | queue app hNone =>
    rw [List.append_nil]
    refine ⟨h.frames, nofun, h.agrees.congr rfl ?_ rfl⟩
    simp [Desktop.launching, hNone, h.unset hNone]
  | start tick playTick hPending =>
    have hTick : tick ≠ 0 := by
      rintro rfl
      simp at hTick
    obtain ⟨hActive, hCount⟩ := aniPlay_of_frames playTick h.frames
    refine ⟨hCount ▸ h.frames, fun hNone => absurd hNone hPending, ?_⟩
    rw [latest_concat]
    refine ⟨hActive, .inl ?_⟩
    exact Bool.and_eq_true_iff.mpr ⟨Option.isSome_iff_ne_none.mpr hPending, bne_iff_ne.mpr hTick⟩
  | launch app =>
    refine ⟨h.frames, fun _ => rfl, ?_⟩
    rw [latest_concat]
    exact ⟨rfl, by simp [Desktop.Busy, Desktop.launching, Desktop.fileOpPending, Desktop.withAni]⟩
  | update tick =>
    rw [List.append_nil]
    obtain ⟨hActive, hCount⟩ := aniUpdate_frame tick s.edit.ani
    exact ⟨hCount ▸ h.frames, h.unset, h.agrees.congr hActive rfl rfl⟩

theorem inv_boot (files : NaoEdit.Files) {ani : Ani.State} (hFrames : 0 < ani.frameCount)
    (hStopped : ani.active = false) : Inv [] (Desktop.boot files ani) := by
  refine ⟨hFrames, fun _ => rfl, hStopped, ?_⟩
  rintro (hLaunch | hOp)
  · cases hLaunch
  · cases hOp

/-- The cursor shows whether there is work pending. -/
def CursorShowsWork (s : Desktop) : Prop := s.aniIsActive = true ↔ s.Busy

instance (s : Desktop) : Decidable (CursorShowsWork s) := inferInstanceAs (Decidable (_ ↔ _))

theorem cursorShowsWork_iff {s : Desktop} {c : Option Call} (h : Agrees s c) :
    CursorShowsWork s ↔ c ≠ some (.stop true) := by
  unfold CursorShowsWork
  match c with
  | none => simp [h.1, h.2]
  | some .play => simp [h.1, h.2]
  | some (.stop otherBusy) => simp [h.1, h.2]

/--
**When the busy cursor reflects pending work.** With a frame loaded and the animation stopped at
first, for every sequence of iterations in which no launch starts its timer at tick 0 (a start
tick of 0 means "not started"): at its end the animation is active exactly if a launch is pending
with its timer started or a file operation is, unless the last call to the animation was a stop
by one of the two users while the other had work pending; then it is not.
-/
theorem busy_cursor_iff (files : NaoEdit.Files) {ani : Ani.State} (hFrames : 0 < ani.frameCount)
    (hStopped : ani.active = false) (is : List Iteration)
    (hTicks : .started 0 ∉ (feed step (Desktop.boot files ani) is).trace) :
    let r := feed step (Desktop.boot files ani) is
    CursorShowsWork r.val ↔ latest Event.call r.trace ≠ some (.stop true) := by
  intro r
  have h : .started 0 ∉ r.trace → Inv r.trace r.val := by
    refine feed_keeps does_step (fun log s => .started 0 ∉ log → Inv log s)
      (fun _ => inv_boot files hFrames hStopped) ?_ is
    intro log s seen s' hInv hMove hNot
    rw [List.mem_append, not_or] at hNot
    exact inv_move (hInv hNot.1) hMove hNot.2
  exact cursorShowsWork_iff (h hTicks).agrees

-- ---------------------------------------------------------------------------
-- A launch and a file operation at once
-- ---------------------------------------------------------------------------

/-- A body of NaoEdit's window in which nothing is clicked. -/
def restingBody (tick : BitVec 32) : NaoEdit.Body :=
  { menuOpen := false, menuSaveAs := false, pathEdit := fun _ => 0, ok := false, playTick := tick
    okTick := tick, cancel := false, textEdit := fun _ => 0 }

/-- An iteration at a tick, with the body of NaoEdit's window and the app that is clicked in the
start menu. -/
def iteration (tick : BitVec 32) (startButton : Bool) (app : Option App) (body : NaoEdit.Body) :
    Iteration :=
  { startTick := tick, playTick := tick, launchTick := tick, startButton, naoeditButton := false
    menuButton := fun a => app = some a
    frame :=
      { tick, openAnswers := { fOpen := .noFile, fRead := .ok, delivered := 0 }
        saveAnswers := { fOpen := .ok, fWrite := .ok, room := 0, fClose := .ok, residue := [] }
        body := some body, hidden := false, dismissAlert := false }
    updateTick := tick }

def emptyVolume : NaoEdit.Files := fun _ => none

/-- An animation of one frame. -/
def oneFrame : Ani.State := { Ani.State.boot with frameCount := 1 }

/-- NaoEdit is chosen in the start menu, and its timer is started. -/
def launchEdit : List Iteration :=
  [iteration 1 true none (restingBody 1), iteration 2 false (some .naoEdit) (restingBody 2),
    iteration 3 false none (restingBody 3)]

theorem busy_cursor_iff_launch :
    CursorShowsWork (feed step (Desktop.boot emptyVolume oneFrame) launchEdit).val :=
  (busy_cursor_iff emptyVolume (by decide) rfl launchEdit (by decide)).mpr (by decide)

/-- NaoEdit is launched, a file is being opened from tick 24 on, and the System Monitor is chosen
in the start menu; its launch ends at tick 44. -/
def overlap : List Iteration :=
  launchEdit ++
    [iteration 21 false none (restingBody 21),
      iteration 22 true none { restingBody 22 with menuOpen := true },
      iteration 24 false none { restingBody 24 with ok := true },
      iteration 25 false (some .sysMonitor) (restingBody 25),
      iteration 26 false none (restingBody 26),
      iteration 44 false none (restingBody 44)]

/-- The launch of the System Monitor stops the animation while the file operation is pending. -/
theorem busy_cursor_lost :
    let s := (feed step (Desktop.boot emptyVolume oneFrame) overlap).val
    0 < oneFrame.frameCount ∧ s.fileOpPending = true ∧ s.aniIsActive = false ∧
      ¬CursorShowsWork s := by
  decide

end Nao.Shell
