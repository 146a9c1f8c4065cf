import Nao.CursorLoader.Definitions
import Nao.Kernel.Strings

/-!
# The framebuffer — definitions

The screen as the boot loader describes it, and the code that writes to it: the setup and the
frame loop of `kernel_main`, `putpixel`, `idt_draw_rect` and the boot screen. (`sys_shutdown` is
with the images.)

None of these writers reads the framebuffer, so a writer is the list of its writes, in order.
A write is a `Put`: the pixel that is meant, and the byte offset from the start of the buffer,
a 32-bit number, that is written to.
-/

namespace Nao.Graphics

open Kernel CursorLoader

-- ---------------------------------------------------------------------------
-- The mode
-- ---------------------------------------------------------------------------

/-- The fields of `struct multiboot_info` that the setup reads. -/
structure MultibootInfo where
  flags             : BitVec 32
  framebufferAddr   : BitVec 64
  framebufferPitch  : BitVec 32
  framebufferWidth  : BitVec 32
  framebufferHeight : BitVec 32

/-- `gfx_framebuffer`, `gfx_width`, `gfx_height` and `gfx_pitch`. -/
structure Mode where
  framebuffer : BitVec 32
  width       : BitVec 32
  height      : BitVec 32
  pitch       : BitVec 32
  deriving DecidableEq

/-- The setup in `kernel_main`; without the flag it loops for ever. -/
def framebufferSetup (mbinfo : MultibootInfo) : Option Mode :=
  if mbinfo.flags &&& (1 <<< 11) = 0 then none
  else some
    { framebuffer := mbinfo.framebufferAddr.setWidth 32
      width := mbinfo.framebufferWidth
      height := mbinfo.framebufferHeight
      pitch := mbinfo.framebufferPitch }

-- ---------------------------------------------------------------------------
-- Writes
-- ---------------------------------------------------------------------------

/-- A pixel of 32 bits stored at a byte offset. -/
structure Put where
  x      : Int
  y      : Int
  offset : BitVec 32
  color  : BitVec 32
  deriving DecidableEq

/-- `putpixel(fb, x, y, color, pitch)`. -/
def putpixel (x y : Int) (color pitch : BitVec 32) : Put :=
  { x, y, offset := BitVec.ofInt 32 y * pitch + BitVec.ofInt 32 (x * 4), color }

/-- `fb[i] = color`, for an `fb` of 32-bit pixels. -/
def putWord (x y : Int) (i color : BitVec 32) : Put := { x, y, offset := i * 4, color }

/-- `for (row = 0; row < h; row++) for (col = 0; col < w; col++)`. -/
def overRows {α : Type} (w h : Nat) (body : (col row : Nat) → List α) : List α :=
  (List.range h).flatMap fun row => (List.range w).flatMap fun col => body col row

-- ---------------------------------------------------------------------------
-- The frame loop
-- ---------------------------------------------------------------------------

/-- The number of pixels in `back_buffer`. -/
def backBufferSize : Nat := 1024 * 768

/-- The background fill; these writes go to `back_buffer`. -/
def backgroundFill (m : Mode) (currentBgColor : BitVec 32) : List Put :=
  let backPitch := m.width * 4
  overRows m.width.toNat m.height.toNat fun x y => [putpixel x y currentBgColor backPitch]

/-- A turn of the blit: the index read from `back_buffer`, and the write. -/
structure BlitStep where
  src : BitVec 32
  put : Put

/-- The blit at the end of a frame. -/
def frameBlit (m : Mode) (backBuffer : BackBuffer) : List BlitStep :=
  overRows m.width.toNat m.height.toNat fun x y =>
    let src := BitVec.ofNat 32 y * m.width + BitVec.ofNat 32 x
    let dest := BitVec.ofNat 32 y * (m.pitch / 4) + BitVec.ofNat 32 x
    [{ src, put := putWord x y dest (backBuffer src) }]

-- ---------------------------------------------------------------------------
-- idt_draw_rect
-- ---------------------------------------------------------------------------

def idtDrawRect (m : Mode) (x y w h : Int) (color : BitVec 32) : List Put :=
  if m.framebuffer = 0 then []
  else overRows w.toNat h.toNat fun col row =>
    let currX := x + col
    let currY := y + row
    if 0 ≤ currX ∧ currX < m.width.toInt ∧ 0 ≤ currY ∧ currY < m.height.toInt then
      [{ x := currX, y := currY
         offset := BitVec.ofInt 32 currY * m.pitch + BitVec.ofInt 32 (currX * 4), color }]
    else []

-- ---------------------------------------------------------------------------
-- The boot screen
-- ---------------------------------------------------------------------------

/-- `font_bitmap[c][row]`. -/
abbrev Font := UInt8 → Nat → BitVec 8

def bootDrawRect (x y w h : Int) (color pitch : BitVec 32) : List Put :=
  overRows w.toNat h.toNat fun col row => [putpixel (x + col) (y + row) color pitch]

def drawChar (font : Font) (x y : Int) (c : UInt8) (color pitch : BitVec 32) : List Put :=
  if c > 127 then []
  else overRows 8 8 fun col row =>
    if font c row &&& (0x80 >>> col) ≠ 0 then [putpixel (x + col) (y + row) color pitch] else []

def bootDrawString (font : Font) (x y : Int) (color pitch : BitVec 32) : List UInt8 → List Put
  | [] => []
  | c :: str => drawChar font x y c color pitch ++ bootDrawString font (x + 8) y color pitch str

def bootDrawProgressBar (x y width height progressPct : Int) (pitch : BitVec 32) : List Put :=
  let fillW := ((width - 4) * progressPct).tdiv 100
  bootDrawRect x y width height 0x00AAAAAA pitch
    ++ bootDrawRect (x + 2) (y + 2) (width - 4) (height - 4) 0x00333333 pitch
    ++ if fillW > 0 then bootDrawRect (x + 2) (y + 2) fillW (height - 4) 0x0044AAFF pitch else []

/-- Pixels with an alpha below 10 are skipped. -/
def bootDrawImage (imgX imgY : Int) (pixels : Nat → BitVec 32) (imgW imgH : Nat) (pitch : BitVec 32) :
    List Put :=
  overRows imgW imgH fun px py =>
    let pixel := pixels (py * imgW + px)
    if ((pixel >>> 24) &&& 0xFF).toNat < 10 then []
    else [putpixel (imgX + px) (imgY + py) pixel pitch]

/-- `pct_str`. -/
def pctStr (pct : Nat) : List UInt8 :=
  if pct = 100 then lit "100%"
  else if pct ≥ 10 then [UInt8.ofNat (pct / 10 + 0x30), UInt8.ofNat (pct % 10 + 0x30), 0x25]
  else [UInt8.ofNat (pct + 0x30), 0x25]

def stages : List (List UInt8) :=
  [lit "Initializing system...", lit "Loading drivers...", lit "Mounting storage...",
   lit "Starting network...", lit "Preparing desktop..."]

/-- One turn of `for (pct = 0; pct <= 100; pct++)`, without its wait for the timer. -/
def progressTurn (font : Font) (barX barY : Int) (pitch : BitVec 32) (pct : Nat) : List Put :=
  let barWidth : Int := 320
  let barHeight : Int := 22
  let bgColor := 0x001A1A2E
  let stageIdx := pct * stages.length / 100
  let stage := stages.getD (if stageIdx ≥ stages.length then stages.length - 1 else stageIdx) []
  let statusX := barX + (barWidth - stage.length * 8).tdiv 2
  bootDrawProgressBar barX barY barWidth barHeight pct pitch
    ++ bootDrawRect (barX + barWidth + 10) barY 50 barHeight bgColor pitch
    ++ bootDrawString font (barX + barWidth + 12) (barY + (barHeight - 8).tdiv 2) 0x00FFFFFF pitch
        (pctStr pct)
    ++ bootDrawRect barX (barY + barHeight + 5) barWidth 14 bgColor pitch
    ++ bootDrawString font statusX (barY + barHeight + 5) 0x00AAAAAA pitch stage

/-- `show_boot_screen`: all writes, in order. -/
def showBootScreen (font : Font) (m : Mode) (bootImg : Option (Nat → BitVec 32))
    (bootImgW bootImgH : Nat) : List Put :=
  let screenW := m.width.toInt
  let screenH := m.height.toInt
  let pitch := m.pitch
  let clear := bootDrawRect 0 0 screenW screenH 0x001A1A2E pitch
  let barX := (screenW - 320).tdiv 2
  let (picture, barY) := match bootImg with
    | some pixels =>
      if bootImgW > 0 ∧ bootImgH > 0 then
        let imgX := (screenW - bootImgW).tdiv 2
        let imgY := (screenH - bootImgH - 22 - 80).tdiv 2
        let imgY := if imgY < 10 then 10 else imgY
        (bootDrawImage imgX imgY pixels bootImgW bootImgH pitch, imgY + bootImgH + 30)
      else noImage screenW screenH pitch
    | none => noImage screenW screenH pitch
  clear ++ picture ++ (List.range 101).flatMap (progressTurn font barX barY pitch) ++ clear
where
  /-- The text that is shown instead of an image, and `bar_y`. -/
  noImage (screenW screenH : Int) (pitch : BitVec 32) : List Put × Int :=
    let title := lit "FATAL: 0:/boot.png Corrupt  Missing"
    let titleX := (screenW - title.length * 8).tdiv 2
    let titleY := screenH.tdiv 2 - 40
    (bootDrawString font titleX titleY 0x0044AAFF pitch title
      ++ bootDrawString font titleX (titleY + 20) 0x00AAAAAA pitch (lit "Corrupt."), titleY + 60)

end Nao.Graphics
