import Nao.Ani.Definitions
import Nao.Idt.Definitions

/-!
# The cursor — definitions

The two ways the cursor reaches the back buffer: `load_system_cursor` and `draw_custom_cursor` of
`cursor_loader.c` for the arrow, and `ani_draw` of `ani_loader.c` for a frame of the busy cursor.

The two drawing functions are the same loops. They differ in where a pixel is found: the frames of
the animation were turned upside down when they were parsed, the arrow is kept as it stands in
the file.

Screen positions are 32-bit integers, and so is the index into the back buffer. A run records what
it does to the array of pixels (`Access`).
-/

namespace Nao.CursorLoader

open SysLib FatFs Idt
open Ani (side)

/-- `back_buffer`. -/
abbrev BackBuffer := BitVec 32 → BitVec 32

-- ---------------------------------------------------------------------------
-- Drawing
-- ---------------------------------------------------------------------------

/-- `(r << 16) | (g << 8) | b`. -/
def rgb (r g b : UInt8) : BitVec 32 :=
  r.toBitVec.setWidth 32 <<< 16 ||| g.toBitVec.setWidth 32 <<< 8 ||| b.toBitVec.setWidth 32

/-- `scr_x < 0 || scr_x >= (int)gfx_width || scr_y < 0 || scr_y >= (int)gfx_height`. -/
def offScreen (scr : Screen) (scrX scrY : BitVec 32) : Bool :=
  scrX.toInt < 0 || scr.width.toInt ≤ scrX.toInt || scrY.toInt < 0 || scr.height.toInt ≤ scrY.toInt

/-- What is done to the array of pixels: `f_read` is asked to store `count` bytes from its start on;
a cell is read. -/
inductive Access where
  | store (count : Nat)
  | read (index : Nat)
  deriving DecidableEq

/-- `pixels[index]`. -/
def pixelAt (pixels : Mem) (index : Nat) : Traced Access UInt8 := do
  Traced.tell (.read index)
  pure (pixels index)

/-- A turn of the drawing loops: the pixel at `idx` of `pixels`, at a position of the screen. -/
def drawPixel (scr : Screen) (pixels : Mem) (idx : Nat) (scrX scrY : BitVec 32) (bb : BackBuffer) :
    Traced Access BackBuffer :=
  if offScreen scr scrX scrY then pure bb
  else do
    let b ← pixelAt pixels (idx + 0)
    let g ← pixelAt pixels (idx + 1)
    let r ← pixelAt pixels (idx + 2)
    let a ← pixelAt pixels (idx + 3)
    -- magenta stands for a transparent pixel
    if (r = 255 ∧ g = 0 ∧ b = 255) ∨ a = 0 then pure bb
    else pure (Function.update bb (scrY * scr.width + scrX) (rgb r g b))

/-- The drawing loops; `idx y x` is where a pixel is found. -/
def drawPixels (scr : Screen) (startX startY : BitVec 32) (width height : Nat)
    (idx : Nat → Nat → Nat) (pixels : Mem) (bb : BackBuffer) : Traced Access BackBuffer :=
  Traced.forTo (fun y bb =>
    Traced.forTo (fun x bb =>
      drawPixel scr pixels (idx y x) (startX + BitVec.ofNat 32 x) (startY + BitVec.ofNat 32 y) bb)
      width bb) height bb

/-- `ani_draw(m_x, m_y)`. -/
def aniDraw (scr : Screen) (mX mY : BitVec 32) (ani : Ani.State) (bb : BackBuffer) :
    Traced Access BackBuffer :=
  if !ani.active || ani.frameCount = 0 then pure bb
  else
    let frame := ani.frames ani.currentFrame
    if frame.width = 0 ∨ frame.height = 0 then pure bb
    else
      drawPixels scr (mX - BitVec.ofInt 32 frame.hotspotX) (mY - BitVec.ofInt 32 frame.hotspotY)
        frame.width frame.height (fun y x => (y * frame.width + x) * 4) frame.pixels bb

/-- `cursor_pixels`, `c_width`, `c_height`, `hotspot_x`, `hotspot_y`. -/
structure Cursor where
  pixels   : Mem
  width    : Nat
  height   : Nat
  hotspotX : Nat
  hotspotY : Nat

/-- The static variables at boot. -/
def Cursor.boot : Cursor :=
  { pixels := fun _ => 0, width := 0, height := 0, hotspotX := 0, hotspotY := 0 }

/-- `draw_custom_cursor`; embedded bitmaps are upside down. -/
def drawCustomCursor (scr : Screen) (mouseX mouseY : BitVec 32) (c : Cursor) (bb : BackBuffer) :
    Traced Access BackBuffer :=
  if c.width = 0 ∨ c.height = 0 then pure bb
  else
    drawPixels scr (mouseX - BitVec.ofNat 32 c.hotspotX) (mouseY - BitVec.ofNat 32 c.hotspotY)
      c.width c.height (fun y x => ((c.height - 1 - y) * c.width + x) * 4) c.pixels bb

-- ---------------------------------------------------------------------------
-- Loading
-- ---------------------------------------------------------------------------

/-- `FIL`, open for reading. -/
structure Fil where
  bytes : List UInt8
  fptr  : Nat

/-- `f_read(&file, buffer, btr, &br)`. -/
def fRead (res : FResult) (btr : Nat) (fp : Fil) (buffer : Mem) : Fil × Mem :=
  if res = .ok then
    let got := (fp.bytes.drop fp.fptr).take btr
    ({ fp with fptr := fp.fptr + got.length }, buffer.blit 0 got)
  else (fp, buffer)

/-- `f_lseek(&file, ofs)`: a file open for reading ends where it ends. -/
def fLseek (res : FResult) (ofs : Nat) (fp : Fil) : Fil :=
  if res = .ok then { fp with fptr := min ofs fp.bytes.length } else fp

/-- What FatFs answers to `load_system_cursor`, in order; a read that fails stores nothing. -/
structure LoadAnswers where
  fOpen      : FResult
  readHeader : FResult
  fLseek     : FResult
  readInfo   : FResult
  readPixels : FResult
  deriving DecidableEq

/-- `f_read(&file, cursor_pixels, count, &br)`. -/
def readPixels (res : FResult) (count : Nat) (file : Fil) (c : Cursor) : Traced Access Cursor := do
  Traced.tell (.store count)
  pure { c with pixels := (fRead res count file c.pixels).2 }

/-- `load_system_cursor` on a file with these bytes. `header` and `bmiHeader` are what the local
arrays hold at first. -/
def loadSystemCursor (a : LoadAnswers) (bytes : List UInt8) (header bmiHeader : Mem) (c : Cursor) :
    Traced Access Cursor :=
  if a.fOpen ≠ .ok then pure c
  else
    let (file, header) := fRead a.readHeader 22 { bytes, fptr := 0 } header
    let type := header.read16 2
    if type ≠ 2 then pure c
    else
      let c := { c with
        width := side (header 6)
        height := side (header 7)
        hotspotX := header.read16 10, hotspotY := header.read16 12 }
      let dataOffset := header.read32 18
      let file := fLseek a.fLseek dataOffset file
      let (file, bmiHeader) := fRead a.readInfo 40 file bmiHeader
      let bpp := bmiHeader.read16 14
      if bpp = 32 then readPixels a.readPixels (c.width * c.height * 4) file c
      else if bpp = 24 then readPixels a.readPixels (c.width * c.height * 3) file c
      else pure c

end Nao.CursorLoader
