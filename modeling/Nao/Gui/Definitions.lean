import Nao.Graphics.Definitions
import Nao.Lib.Machine

/-!
# Rendering — definitions

`gui.c`: the execution of Nuklear's command queue on the back buffer by `nk_os_render_target`,
with `idt_draw_rect_target` and `idt_draw_rect_rounded_target`.

A write of 32 bits at a byte offset into the back buffer is a write to the pixel with a quarter
of that index. The points that a line passes through are computed in floating point by the
source; here they are given from outside, in `Context.along`.
-/

namespace Nao.Gui

open SysLib Idt CursorLoader Graphics

-- ---------------------------------------------------------------------------
-- Commands
-- ---------------------------------------------------------------------------

/-- `struct nk_color`. -/
structure Color where
  r : UInt8
  g : UInt8
  b : UInt8
  a : UInt8
  deriving DecidableEq

/-- The place of a command: `short x, y; unsigned short w, h;`. -/
structure Box where
  x : Int16
  y : Int16
  w : UInt16
  h : UInt16
  deriving DecidableEq

/-- The commands that `nk_os_render_target` knows; `other` stands for the rest. An image has a
pointer to its pixels, which may be `NULL`. -/
inductive Command where
  | rect (box : Box) (rounding : UInt16) (color : Color)
  | line (beginX beginY endX endY : Int16) (color : Color)
  | scissor (box : Box)
  | rectFilled (box : Box) (rounding : UInt16) (color : Color)
  | text (x y : Int16) (string : List UInt8) (foreground : Color)
  | image (box : Box) (handle : Option (Nat → BitVec 32))
  | other

/-- What the renderer uses besides the commands: `font_bitmap`, the colour of the window headers
in the style, and where a line is after some of its steps: `along start d steps i` is
`(int)current` after `i` additions of `(float)d / (float)steps` to `start`. -/
structure Context where
  font   : Font
  header : Color
  along  : (start d : Int) → (steps i : Nat) → Int

-- ---------------------------------------------------------------------------
-- Clipping
-- ---------------------------------------------------------------------------

/-- `scissor_x`, `scissor_y`, `scissor_w` and `scissor_h`. -/
structure Scissor where
  x : Int
  y : Int
  w : Int
  h : Int
  deriving DecidableEq

/-- The pixel is inside the scissor rectangle. -/
def Scissor.Contains (s : Scissor) (x y : Int) : Prop :=
  x ≥ s.x ∧ x < s.x + s.w ∧ y ≥ s.y ∧ y < s.y + s.h

instance (s : Scissor) (x y : Int) : Decidable (s.Contains x y) :=
  inferInstanceAs (Decidable (_ ∧ _ ∧ _ ∧ _))

/-- The pixel is on the screen. -/
def OnScreen (scr : Screen) (x y : Int) : Prop :=
  x ≥ 0 ∧ x < scr.width.toInt ∧ y ≥ 0 ∧ y < scr.height.toInt

instance (scr : Screen) (x y : Int) : Decidable (OnScreen scr x y) :=
  inferInstanceAs (Decidable (_ ∧ _ ∧ _ ∧ _))

-- ---------------------------------------------------------------------------
-- A pixel
-- ---------------------------------------------------------------------------

/-- The pixel of the back buffer that is written, and its value. -/
def write (e : Put) : BitVec 32 × BitVec 32 := (e.offset / 4, e.color)

def store (e : Put) (bb : BackBuffer) : Traced Put BackBuffer := do
  Traced.tell e
  pure (Function.update bb (write e).1 (write e).2)

/-- `(pixel >> shift) & 0xFF`. -/
def channel (pixel : BitVec 32) (shift : Nat) : UInt8 := .ofBitVec ((pixel >>> shift).setWidth 8)

/-- `((c * a) + (bg * (255 - a))) / 255`. -/
def mix (a c bg : UInt8) : UInt8 :=
  UInt8.ofNat ((c.toNat * a.toNat + bg.toNat * (255 - a.toNat)) / 255)

def blend (c : Color) (bgPixel : BitVec 32) : BitVec 32 :=
  let outR := mix c.a c.r (channel bgPixel 16)
  let outG := mix c.a c.g (channel bgPixel 8)
  let outB := mix c.a c.b (channel bgPixel 0)
  rgb outR outG outB

/-- The end of all drawing loops: `solid` where the colour is opaque, a blend where it is not,
nothing where it is transparent. -/
def paint (scr : Screen) (c : Color) (solid : BitVec 32) (x y : Int) (bb : BackBuffer) :
    Traced Put BackBuffer :=
  let targetPitch := scr.width * 4
  if c.a = 255 then store (putpixel x y solid targetPitch) bb
  else if c.a > 0 then
    let bgPixel := bb (BitVec.ofInt 32 y * scr.width + BitVec.ofInt 32 x)
    store (putpixel x y (blend c bgPixel) targetPitch) bb
  else pure bb

/-- The two tests before a pixel is drawn. -/
def clipped (scr : Screen) (sc : Scissor) (x y : Int) (draw : BackBuffer → Traced Put BackBuffer)
    (bb : BackBuffer) : Traced Put BackBuffer :=
  if sc.Contains x y then
    if OnScreen scr x y then draw bb else pure bb
  else pure bb

/-- `for (row = 0; row < h; row++) for (col = 0; col < w; col++)`. -/
def forRows (w h : Nat) (body : (col row : Nat) → BackBuffer → Traced Put BackBuffer)
    (bb : BackBuffer) : Traced Put BackBuffer :=
  Traced.forTo (fun row bb => Traced.forTo (fun col bb => body col row bb) w bb) h bb

-- ---------------------------------------------------------------------------
-- Rectangles
-- ---------------------------------------------------------------------------

def idtDrawRectTarget (scr : Screen) (sc : Scissor) (x y w h : Int) (c : Color) (bb : BackBuffer) :
    Traced Put BackBuffer :=
  forRows w.toNat h.toNat (fun col row =>
    clipped scr sc (x + col) (y + row) (paint scr c (rgb c.r c.g c.b) (x + col) (y + row))) bb

/-- `corner_flags`. -/
structure CornerFlags where
  topLeft     : Bool
  topRight    : Bool
  bottomLeft  : Bool
  bottomRight : Bool

/-- `ROUND_ALL_CORNERS`. -/
def CornerFlags.all : CornerFlags := ⟨true, true, true, true⟩

/-- `ROUND_TOP_LEFT | ROUND_TOP_RIGHT`. -/
def CornerFlags.top : CornerFlags := ⟨true, true, false, false⟩

/-- `is_corner` with `cx` and `cy`: the centre of the corner that a pixel is in. -/
def corner (x y w h rounding : Int) (flags : CornerFlags) (currX currY : Int) : Option (Int × Int) :=
  if flags.topLeft ∧ currX < x + rounding ∧ currY < y + rounding then some (x + rounding, y + rounding)
  else if flags.topRight ∧ currX ≥ x + w - rounding ∧ currY < y + rounding then
    some (x + w - rounding - 1, y + rounding)
  else if flags.bottomLeft ∧ currX < x + rounding ∧ currY ≥ y + h - rounding then
    some (x + rounding, y + h - rounding - 1)
  else if flags.bottomRight ∧ currX ≥ x + w - rounding ∧ currY ≥ y + h - rounding then
    some (x + w - rounding - 1, y + h - rounding - 1)
  else none

/-- A value computed in an `int`. -/
def int32 (v : Int) : Int := v.bmod (2 ^ 32)

/-- Whether the loop `continue`s without drawing the pixel. -/
def leftOut (x y w h rounding : Int) (filled : Bool) (flags : CornerFlags) (currX currY : Int) : Bool :=
  match corner x y w h rounding flags currX currY with
  | some (cx, cy) =>
    let dx := currX - cx
    let dy := currY - cy
    let distSq := int32 (dx * dx + dy * dy)
    let rSq := int32 (rounding * rounding)
    let innerR := rounding - 1
    if filled then distSq > rSq else distSq > rSq || distSq < int32 (innerR * innerR)
  | none => !filled && (currX > x && currX < x + w - 1 && currY > y && currY < y + h - 1)

def idtDrawRectRoundedTarget (scr : Screen) (sc : Scissor) (x y w h rounding : Int) (c : Color)
    (filled : Bool) (flags : CornerFlags) (bb : BackBuffer) : Traced Put BackBuffer :=
  forRows w.toNat h.toNat (fun col row =>
    clipped scr sc (x + col) (y + row) fun bb =>
      if leftOut x y w h rounding filled flags (x + col) (y + row) then pure bb
      else paint scr c (rgb c.r c.g c.b) (x + col) (y + row) bb) bb

-- ---------------------------------------------------------------------------
-- nk_os_render_target
-- ---------------------------------------------------------------------------

/-- `NK_COMMAND_RECT`. -/
def drawRect (scr : Screen) (sc : Scissor) (box : Box) (rounding : UInt16) (c : Color)
    (bb : BackBuffer) : Traced Put BackBuffer :=
  let x := box.x.toInt
  let y := box.y.toInt
  let w : Int := box.w.toNat
  let h : Int := box.h.toNat
  if rounding > 0 then
    let flags := if h < 35 then CornerFlags.top else .all
    idtDrawRectRoundedTarget scr sc x y w h rounding.toNat c false flags bb
  else do
    let bb ← idtDrawRectTarget scr sc x y w 1 c bb
    let bb ← idtDrawRectTarget scr sc x (y + h - 1) w 1 c bb
    let bb ← idtDrawRectTarget scr sc x y 1 h c bb
    idtDrawRectTarget scr sc (x + w - 1) y 1 h c bb

/-- `NK_COMMAND_LINE`. -/
def drawLine (ctx : Context) (scr : Screen) (sc : Scissor) (beginX beginY endX endY : Int) (c : Color)
    (bb : BackBuffer) : Traced Put BackBuffer :=
  let dx := endX - beginX
  let dy := endY - beginY
  let steps := max dx.natAbs dy.natAbs
  if steps = 0 then idtDrawRectTarget scr sc beginX beginY 1 1 c bb
  else Traced.forTo (fun i bb =>
    idtDrawRectTarget scr sc (ctx.along beginX dx steps i) (ctx.along beginY dy steps i) 1 1 c bb)
    (steps + 1) bb

/-- `NK_COMMAND_RECT_FILLED`: only the upper corners of what looks like a title bar are round. -/
def drawRectFilled (ctx : Context) (scr : Screen) (sc : Scissor) (box : Box) (rounding : UInt16)
    (c : Color) (bb : BackBuffer) : Traced Put BackBuffer :=
  let x := box.x.toInt
  let y := box.y.toInt
  let w : Int := box.w.toNat
  let h : Int := box.h.toNat
  if rounding > 0 then
    let flags := if h < 35 ∧ c.r = ctx.header.r ∧ c.g = ctx.header.g then CornerFlags.top else .all
    idtDrawRectRoundedTarget scr sc x y w h rounding.toNat c true flags bb
  else idtDrawRectTarget scr sc x y w h c bb

/-- `NK_COMMAND_TEXT`. -/
def drawText (ctx : Context) (scr : Screen) (sc : Scissor) (x y : Int) (string : List UInt8) (c : Color)
    (bb : BackBuffer) : Traced Put BackBuffer :=
  Traced.forTo (fun i bb =>
    forRows 8 8 (fun col row bb =>
      let pixelX := x + i * 8 + col
      let pixelY := y + row
      if sc.Contains pixelX pixelY then
        let char := string.getD i 0
        if char ≤ 127 ∧ ctx.font char row &&& (0x80 >>> col) ≠ 0 then
          idtDrawRectTarget scr sc pixelX pixelY 1 1 c bb
        else pure bb
      else pure bb) bb) string.length bb

/-- `NK_COMMAND_IMAGE`. -/
def drawImage (scr : Screen) (sc : Scissor) (box : Box) (handle : Option (Nat → BitVec 32))
    (bb : BackBuffer) : Traced Put BackBuffer :=
  match handle with
  | none => pure bb
  | some sourcePixels =>
    forRows box.w.toNat box.h.toNat (fun xOffset yOffset =>
      let pixelX := box.x.toInt + xOffset
      let pixelY := box.y.toInt + yOffset
      clipped scr sc pixelX pixelY fun bb =>
        let rawPixel := sourcePixels (yOffset * box.w.toNat + xOffset)
        let c : Color :=
          { r := channel rawPixel 16, g := channel rawPixel 8, b := channel rawPixel 0
            a := channel rawPixel 24 }
        paint scr c (rawPixel &&& 0x00FFFFFF) pixelX pixelY bb) bb

/-- The scissor rectangle and `target_buffer`. -/
structure Target where
  scissor : Scissor
  buffer  : BackBuffer

/-- The scissor rectangle that `nk_os_render_target` begins with. -/
def Scissor.full (scr : Screen) : Scissor :=
  { x := 0, y := 0, w := scr.width.toInt, h := scr.height.toInt }

/-- What a command draws. -/
def draw (ctx : Context) (scr : Screen) (sc : Scissor) : Command → BackBuffer → Traced Put BackBuffer
  | .rect box rounding color, bb => drawRect scr sc box rounding color bb
  | .line beginX beginY endX endY color, bb =>
    drawLine ctx scr sc beginX.toInt beginY.toInt endX.toInt endY.toInt color bb
  | .rectFilled box rounding color, bb => drawRectFilled ctx scr sc box rounding color bb
  | .text x y string foreground, bb => drawText ctx scr sc x.toInt y.toInt string foreground bb
  | .image box handle, bb => drawImage scr sc box handle bb
  | .scissor _, bb => pure bb
  | .other, bb => pure bb

/-- One turn of `nk_foreach(cmd, ctx)`. -/
def execute (ctx : Context) (scr : Screen) (t : Target) : Command → Traced Put Target
  | .scissor box =>
    pure { t with scissor := { x := box.x.toInt, y := box.y.toInt, w := box.w.toNat, h := box.h.toNat } }
  | cmd => do
    let buffer ← draw ctx scr t.scissor cmd t.buffer
    pure { t with buffer }

/-- `nk_os_render_target` on a queue of commands. -/
def nkOsRenderTarget (ctx : Context) (scr : Screen) (cmds : List Command) (bb : BackBuffer) :
    Traced Put Target :=
  feed (execute ctx scr) { scissor := .full scr, buffer := bb } cmds

end Nao.Gui
