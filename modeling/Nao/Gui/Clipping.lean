import Nao.Graphics.Geometry
import Nao.Gui.Definitions
import Nao.Lib.Bits
import Nao.Lib.History

/-!
# Rendering is clipped

Every drawing path of `nk_os_render_target` tests a pixel against the scissor rectangle and the
screen before it writes it, so a command changes nothing else.

* `confined_draw` — all writes of a command are `Inside`, and they are all it does to the buffer.
* `scissor_render` — the rectangle in force is that of the latest scissor command.
* `rendering_clipped` — the frame condition for every queue of commands.
-/

namespace Nao.Gui

open SysLib Idt CursorLoader Graphics

-- ---------------------------------------------------------------------------
-- Drawing paths
-- ---------------------------------------------------------------------------

/-- A write of a pixel that is inside the scissor rectangle and on the screen, at its place. -/
structure Inside (scr : Screen) (sc : Scissor) (e : Put) : Prop where
  scissor : sc.Contains e.x e.y
  screen  : OnScreen scr e.x e.y
  place   : e = putpixel e.x e.y e.color (scr.width * 4)

section Paths

variable {scr : Screen} {sc : Scissor}

theorem confined_store {x y : Int} (hScissor : sc.Contains x y) (hScreen : OnScreen scr x y)
    (color : BitVec 32) (bb : BackBuffer) :
    Confined (Inside scr sc) write bb (store (putpixel x y color (scr.width * 4)) bb) :=
  .one ⟨hScissor, hScreen, rfl⟩ bb

theorem confined_paint {x y : Int} (hScissor : sc.Contains x y) (hScreen : OnScreen scr x y)
    (c : Color) (solid : BitVec 32) (bb : BackBuffer) :
    Confined (Inside scr sc) write bb (paint scr c solid x y bb) := by
  unfold paint
  split
  · exact confined_store hScissor hScreen _ bb
  split
  · exact confined_store hScissor hScreen _ bb
  · exact .nothing bb

/-- Behind the two tests a path may draw the pixel that was tested. -/
theorem confined_clipped {x y : Int} {draw : BackBuffer → Traced Put BackBuffer}
    (h : sc.Contains x y → OnScreen scr x y → ∀ bb, Confined (Inside scr sc) write bb (draw bb))
    (bb : BackBuffer) : Confined (Inside scr sc) write bb (clipped scr sc x y draw bb) := by
  unfold clipped
  split
  · next hScissor =>
    split
    · next hScreen => exact h hScissor hScreen bb
    · exact .nothing bb
  · exact .nothing bb

theorem confined_forRows {w h : Nat} {body : Nat → Nat → BackBuffer → Traced Put BackBuffer}
    (hBody : ∀ col row bb, Confined (Inside scr sc) write bb (body col row bb)) (bb : BackBuffer) :
    Confined (Inside scr sc) write bb (forRows w h body bb) :=
  .loop (fun row _ bb => .loop (fun col _ bb => hBody col row bb) bb) bb

theorem confined_idtDrawRectTarget (x y w h : Int) (c : Color) (bb : BackBuffer) :
    Confined (Inside scr sc) write bb (idtDrawRectTarget scr sc x y w h c bb) :=
  confined_forRows (fun _ _ => confined_clipped fun hScissor hScreen =>
    confined_paint hScissor hScreen c _) bb

/-- Corners and the inside of a frame are left out; what is drawn has passed the tests. -/
theorem confined_idtDrawRectRoundedTarget (x y w h rounding : Int) (c : Color) (filled : Bool)
    (flags : CornerFlags) (bb : BackBuffer) :
    Confined (Inside scr sc) write bb
      (idtDrawRectRoundedTarget scr sc x y w h rounding c filled flags bb) := by
  refine confined_forRows (fun col row => confined_clipped fun hScissor hScreen bb => ?_) bb
  split
  · exact .nothing bb
  · exact confined_paint hScissor hScreen c _ bb

theorem confined_drawRect (box : Box) (rounding : UInt16) (c : Color) (bb : BackBuffer) :
    Confined (Inside scr sc) write bb (drawRect scr sc box rounding c bb) := by
  unfold drawRect
  split
  · exact confined_idtDrawRectRoundedTarget ..
  · -- the four edges
    refine .bind (confined_idtDrawRectTarget ..) (.bind (confined_idtDrawRectTarget ..) ?_)
    exact .bind (confined_idtDrawRectTarget ..) (confined_idtDrawRectTarget ..)

theorem confined_drawLine (ctx : Context) (beginX beginY endX endY : Int) (c : Color)
    (bb : BackBuffer) : Confined (Inside scr sc) write bb (drawLine ctx scr sc beginX beginY endX endY c bb) := by
  unfold drawLine
  dsimp only
  split
  · exact confined_idtDrawRectTarget ..
  · exact .loop (fun i _ bb => confined_idtDrawRectTarget ..) bb

theorem confined_drawRectFilled (ctx : Context) (box : Box) (rounding : UInt16) (c : Color)
    (bb : BackBuffer) :
    Confined (Inside scr sc) write bb (drawRectFilled ctx scr sc box rounding c bb) := by
  unfold drawRectFilled
  split
  · exact confined_idtDrawRectRoundedTarget ..
  · exact confined_idtDrawRectTarget ..

theorem confined_drawText (ctx : Context) (x y : Int) (string : List UInt8) (c : Color)
    (bb : BackBuffer) : Confined (Inside scr sc) write bb (drawText ctx scr sc x y string c bb) := by
  refine .loop (fun i _ bb => confined_forRows (fun col row bb => ?_) bb) bb
  dsimp only
  split
  · split
    · exact confined_idtDrawRectTarget ..
    · exact .nothing bb
  · exact .nothing bb

theorem confined_drawImage (box : Box) (handle : Option (Nat → BitVec 32)) (bb : BackBuffer) :
    Confined (Inside scr sc) write bb (drawImage scr sc box handle bb) := by
  cases handle with
  | none => exact .nothing bb
  | some sourcePixels =>
    exact confined_forRows (fun _ _ => confined_clipped fun hScissor hScreen =>
      confined_paint hScissor hScreen _ _) bb

/-- Whatever the command, it only writes pixels inside the scissor rectangle and the screen. -/
theorem confined_draw (ctx : Context) (cmd : Command) (bb : BackBuffer) :
    Confined (Inside scr sc) write bb (draw ctx scr sc cmd bb) := by
  cases cmd with
  | rect => exact confined_drawRect ..
  | line => exact confined_drawLine ..
  | scissor => exact .nothing bb
  | rectFilled => exact confined_drawRectFilled ..
  | text => exact confined_drawText ..
  | image => exact confined_drawImage ..
  | other => exact .nothing bb

end Paths

-- ---------------------------------------------------------------------------
-- Places in the back buffer
-- ---------------------------------------------------------------------------

/-- A pixel on the screen and inside the rectangle. -/
structure Visible (scr : Screen) (sc : Scissor) (x y : Nat) : Prop where
  column  : x < scr.width.toNat
  row     : y < scr.height.toNat
  scissor : sc.Contains x y

/-- The pixel that is written, as an index. -/
theorem Inside.index {scr : Screen} {sc : Scissor} {e : Put} (h : Inside scr sc e)
    (hSize : scr.width.toNat * scr.height.toNat ≤ 1024 * 768) :
    ∃ x y, Visible scr sc x y ∧ (write e).1.toNat = y * scr.width.toNat + x := by
  obtain ⟨hx, hxw, hy, hyh⟩ := h.screen
  obtain ⟨x, hX⟩ := Int.eq_ofNat_of_zero_le hx
  obtain ⟨y, hY⟩ := Int.eq_ofNat_of_zero_le hy
  have hWidth := toInt_of_nonneg (hx.trans hxw.le)
  have hHeight := toInt_of_nonneg (hy.trans hyh.le)
  have hScissor := h.scissor
  rw [hX, hY] at hScissor
  have hVisible : Visible scr sc x y := ⟨by omega, by omega, hScissor⟩
  refine ⟨x, y, hVisible, ?_⟩
  have hIndex := index_lt hVisible.column hVisible.row
  rw [write, h.place, hX, hY, offset_putpixel, BitVec.toNat_udiv, BitVec.toNat_ofNat]
  show 4 * _ % 2 ^ 32 / 4 = _
  omega

-- ---------------------------------------------------------------------------
-- Queues of commands
-- ---------------------------------------------------------------------------

/-- The rectangle that a scissor command sets. -/
def scissorOf : Command → Option Scissor
  | .scissor box => some { x := box.x.toInt, y := box.y.toInt, w := box.w.toNat, h := box.h.toNat }
  | _ => none

/-- The full screen until the first scissor command, then the latest one. -/
def inForce (scr : Screen) (cmds : List Command) : Scissor :=
  (SysLib.latest scissorOf cmds).getD (.full scr)

section Queues

variable (ctx : Context) (scr : Screen)

theorem scissor_execute (t : Target) (cmd : Command) :
    (execute ctx scr t cmd).val.scissor = (scissorOf cmd).getD t.scissor := by
  cases cmd <;> rfl

theorem trace_execute (t : Target) (cmd : Command) :
    (execute ctx scr t cmd).trace = (draw ctx scr t.scissor cmd t.buffer).trace := by
  cases cmd <;> first | rfl | exact List.append_nil _

theorem buffer_execute (t : Target) (cmd : Command) :
    (execute ctx scr t cmd).val.buffer = (draw ctx scr t.scissor cmd t.buffer).val := by
  cases cmd <;> rfl

theorem scissor_render (cmds : List Command) (bb : BackBuffer) :
    (nkOsRenderTarget ctx scr cmds bb).val.scissor = inForce scr cmds := by
  induction cmds using List.reverseRecOn with
  | nil => rfl
  | append_singleton cmds cmd ih =>
    rw [nkOsRenderTarget, feed_concat, Traced.val_bind, scissor_execute, ← nkOsRenderTarget, ih,
      inForce, inForce, latest_concat]
    cases scissorOf cmd <;> rfl

end Queues

/--
**Rendering is clipped.** On a screen of at most 1024 * 768 pixels, for every queue of commands:
`nk_os_render_target` writes only to indices of the back buffer below `width * height`. Each
command writes only pixels that are on the screen and inside the scissor rectangle in force, and
it leaves all other pixels as they are.
-/
theorem rendering_clipped (ctx : Context) {scr : Screen}
    (hSize : scr.width.toNat * scr.height.toNat ≤ 1024 * 768) (bb : BackBuffer) :
    (∀ cmds, ∀ e ∈ (nkOsRenderTarget ctx scr cmds bb).trace,
        (write e).1.toNat < scr.width.toNat * scr.height.toNat)
      ∧ (∀ cmds cmd, ∀ e ∈ (execute ctx scr (nkOsRenderTarget ctx scr cmds bb).val cmd).trace,
          ∃ x y, Visible scr (inForce scr cmds) x y ∧ (write e).1.toNat = y * scr.width.toNat + x)
      ∧ ∀ cmds cmd i,
          (¬ ∃ x y, Visible scr (inForce scr cmds) x y ∧ i.toNat = y * scr.width.toNat + x) →
          (nkOsRenderTarget ctx scr (cmds ++ [cmd]) bb).val.buffer i
            = (nkOsRenderTarget ctx scr cmds bb).val.buffer i := by
  refine ⟨?_, ?_, ?_⟩
  · intro cmds
    refine feed_invariant (fun _ log _ => ∀ e ∈ log, (write e).1.toNat < _)
      (List.forall_mem_nil _) ?_ cmds
    intro _ log t cmd hLog
    refine List.forall_mem_append.mpr ⟨hLog, fun e he => ?_⟩
    rw [trace_execute] at he
    obtain ⟨x, y, hVisible, hIndex⟩ := ((confined_draw ctx cmd t.buffer).all e he).index hSize
    rw [hIndex]
    exact index_lt hVisible.column hVisible.row
  · intro cmds cmd e he
    rw [trace_execute, scissor_render] at he
    exact ((confined_draw ctx cmd _).all e he).index hSize
  · intro cmds cmd i hOutside
    rw [nkOsRenderTarget, feed_concat, Traced.val_bind, buffer_execute, ← nkOsRenderTarget,
      scissor_render]
    refine (confined_draw ctx cmd _).unchanged fun e he hPlace => hOutside ?_
    obtain ⟨x, y, hVisible, hIndex⟩ := he.index hSize
    exact ⟨x, y, hVisible, by rw [← hPlace, hIndex]⟩

/-- A font without glyphs. -/
def demoContext : Context where
  font _ _ := 0
  header := ⟨0, 0, 0, 0⟩
  along start _ _ _ := start

/-- A white rectangle, larger than a screen of 8 by 8 pixels. -/
def demoRect : Command := .rectFilled ⟨-1, -1, 20, 20⟩ 0 ⟨255, 255, 255, 255⟩

/-- After a scissor command it does not reach the corner of the screen. -/
theorem rendering_clipped_demo :
    (nkOsRenderTarget demoContext ⟨8, 8⟩ [.scissor ⟨1, 1, 2, 2⟩, demoRect] fun _ => 0).val.buffer 0
      = (nkOsRenderTarget demoContext ⟨8, 8⟩ [.scissor ⟨1, 1, 2, 2⟩] fun _ => 0).val.buffer 0 := by
  refine (rendering_clipped demoContext (by decide) fun _ => 0).2.2 [.scissor ⟨1, 1, 2, 2⟩] demoRect 0 ?_
  rintro ⟨x, y, hVisible, hIndex⟩
  have hRow : (y : Int) ≥ 1 := hVisible.scissor.2.2.1
  have hZero : y * 8 + x = 0 := hIndex.symm
  omega

end Nao.Gui
