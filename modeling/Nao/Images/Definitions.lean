import Mathlib.Algebra.Order.Ring.Nat
import Mathlib.Logic.Function.Basic
import Nao.Lib.Traced

/-!
# Loading images — definitions

The image loading of `kernel.c`: the arena that stb_image allocates from,
`load_image_via_stb`, the boot image block of `kernel_main` and `sys_shutdown`.

stb_image itself is a parameter, a `Decoder`. It keeps one global flag,
`stbi_set_flip_vertically_on_load`: when it is 1 the rows of a decoded picture come
bottom-up. Whether a file exists, what it holds and whether it can be read is given from
outside, as a `FileAnswers`.

A loader records its writes to the buffer of pixels (`Write`).
-/

namespace Nao.Images

open SysLib

-- ---------------------------------------------------------------------------
-- stb_image
-- ---------------------------------------------------------------------------

structure Rgba where
  r : BitVec 8
  g : BitVec 8
  b : BitVec 8
  a : BitVec 8
  deriving DecidableEq

/-- Decoded pixels: `pixel y x` stands at index `(y * width + x) * 4`. -/
structure Picture where
  width  : Nat
  height : Nat
  pixel  : Nat → Nat → Rgba

/-- The same picture with its rows in reverse order. -/
def Picture.flipped (p : Picture) : Picture :=
  { p with pixel := fun y x => p.pixel (p.height - 1 - y) x }

@[simp] theorem Picture.flipped_width (p : Picture) : p.flipped.width = p.width := rfl

@[simp] theorem Picture.flipped_height (p : Picture) : p.flipped.height = p.height := rfl

/-- `sizeof(stb_arena)`. -/
def arenaSize : Nat := 4 * 1024 * 1024

/-- The global state of image loading: the flip flag and `stb_arena_offset`. -/
structure Stb where
  flip        : Bool
  arenaOffset : Nat
  deriving DecidableEq

def Stb.boot : Stb := { flip := false, arenaOffset := 0 }

/-- What stb_image makes of a file, with the arena filled up to `offset`: the picture from top to
bottom, if it can be decoded in the space left, and how far the arena is filled afterwards. The
pixels of a picture are in the arena. -/
structure Decoder where
  decode      : (offset : Nat) → List UInt8 → Option Picture
  offsetAfter : (offset : Nat) → List UInt8 → Nat
  fits        : ∀ offset bytes p, decode offset bytes = some p → p.width * p.height * 4 ≤ arenaSize

/-- `stbi_malloc_arena(size)`: whether there is room, and the new offset. All sums are of 32
bits. -/
def stbiMallocArena (size : Nat) (g : Stb) : Bool × Stb :=
  let size := (size + 3) % 2 ^ 32 / 4 * 4
  if (g.arenaOffset + size) % 2 ^ 32 > arenaSize then (false, g)
  else (true, { g with arenaOffset := (g.arenaOffset + size) % 2 ^ 32 })

def stbiSetFlipVerticallyOnLoad (flag : Bool) (g : Stb) : Stb := { g with flip := flag }

/-- `stbi_load_from_memory(bytes, .., 4)`. -/
def stbiLoadFromMemory (dec : Decoder) (bytes : List UInt8) (g : Stb) : Option Picture × Stb :=
  ((dec.decode g.arenaOffset bytes).map fun p => if g.flip then p.flipped else p,
    { g with arenaOffset := dec.offsetAfter g.arenaOffset bytes })

-- ---------------------------------------------------------------------------
-- Reading a file into the arena
-- ---------------------------------------------------------------------------

/-- The contents of a file that can be opened, and whether `f_read` delivers all of them. -/
structure FileAnswers where
  content : Option (List UInt8)
  readOk  : Bool

/-- How far a loader gets before it decodes. -/
inductive Fetched where
  | notFound
  | unreadable
  | bytes (content : List UInt8)

/-- `f_open`, `stbi_malloc_arena(file_size)`, `f_read`, with the arena emptied first: the common
beginning of `load_image_via_stb`, `naoview_load_image` and the boot image block. -/
def fetchFile (a : FileAnswers) (g : Stb) : Fetched × Stb :=
  let g := { g with arenaOffset := 0 }
  match a.content with
  | none => (.notFound, g)
  | some content =>
    match stbiMallocArena content.length g with
    | (false, g) => (.unreadable, g)
    | (true, g) => if a.readOk then (.bytes content, g) else (.unreadable, g)

-- ---------------------------------------------------------------------------
-- Copying decoded pixels
-- ---------------------------------------------------------------------------

/-- `(a << 24) | (r << 16) | (g << 8) | b`. -/
def argb (c : Rgba) : BitVec 32 := c.a ++ c.r ++ c.g ++ c.b

/-- A buffer of 32-bit pixels. -/
abbrev Pixels := Nat → BitVec 32

/-- A write to such a buffer: the index and the value. -/
abbrev Write := Nat × BitVec 32

/-- `out[i] = v`. -/
def store (out : Pixels) (i : Nat) (v : BitVec 32) : Traced Write Pixels := do
  Traced.tell (i, v)
  pure (Function.update out i v)

/-- `for (x = 0; x < width; x++) out[(height - 1 - y) * width + x] = decoded[y * width + x];` -/
def copyRow (p : Picture) (y : Nat) (out : Pixels) : Traced Write Pixels :=
  Traced.forTo (fun x out => store out ((p.height - 1 - y) * p.width + x) (argb (p.pixel y x)))
    p.width out

/-- The copy loop of all three loaders: the rows go into the buffer in reverse order. -/
def copyPicture (p : Picture) (out : Pixels) : Traced Write Pixels :=
  Traced.forTo (copyRow p) p.height out

-- ---------------------------------------------------------------------------
-- load_image_via_stb
-- ---------------------------------------------------------------------------

/-- A `struct nk_image`: whether its handle is set, and its size. -/
structure NkImage where
  loaded : Bool
  w      : Nat
  h      : Nat
  deriving DecidableEq

def NkImage.empty : NkImage := { loaded := false, w := 0, h := 0 }

/-- `total_alpha`. -/
def totalAlpha (p : Picture) : Nat :=
  (((List.range p.height).flatMap fun y =>
    (List.range p.width).map fun x => (p.pixel y x).a.toNat).sum) % 2 ^ 32

/-- `for (i = 0; i < total_pixels; i++) out[i] |= 0xFF000000;` -/
def forceAlpha (totalPixels : Nat) (out : Pixels) : Traced Write Pixels :=
  Traced.forTo (fun i out => store out i (out i ||| 0xFF000000)) totalPixels out

/-- A picture that is all but transparent is made opaque. -/
def fixAlpha (p : Picture) (out : Pixels) : Traced Write Pixels :=
  if totalAlpha p / (p.width * p.height) < 5 then forceAlpha (p.width * p.height) out else pure out

/-- The image, the pixel buffer and the state of stb_image after the call. -/
def loadImageViaStb (dec : Decoder) (a : FileAnswers) (expectedW expectedH : Nat) (out : Pixels)
    (g : Stb) : Traced Write (NkImage × Pixels × Stb) :=
  match fetchFile a g with
  | (.bytes content, g) =>
    let g := stbiSetFlipVerticallyOnLoad true g
    match stbiLoadFromMemory dec content g with
    | (none, g) => pure (.empty, out, g)
    | (some p, g) =>
      if p.width ≠ expectedW ∨ p.height ≠ expectedH then pure (.empty, out, g)
      else do
        let g := stbiSetFlipVerticallyOnLoad false g
        let out ← copyPicture p out
        let out ← fixAlpha p out
        pure ({ loaded := true, w := p.width, h := p.height }, out, g)
  | (_, g) => pure (.empty, out, g)

-- ---------------------------------------------------------------------------
-- The boot image
-- ---------------------------------------------------------------------------

/-- `BOOT_IMG_MAX_W` and `BOOT_IMG_MAX_H`. -/
def bootImgMaxW : Nat := 1024
def bootImgMaxH : Nat := 768

/-- The block of `kernel_main` that loads `0:/boot.png`: the size of the image (0 by 0 without
one), `boot_img_pixels` and the state of stb_image. -/
def loadBootImage (dec : Decoder) (a : FileAnswers) (out : Pixels) (g : Stb) :
    Traced Write ((Nat × Nat) × Pixels × Stb) :=
  match fetchFile a g with
  | (.bytes content, g) =>
    let g := stbiSetFlipVerticallyOnLoad true g
    match stbiLoadFromMemory dec content g with
    | (none, g) => pure ((0, 0), out, g)
    | (some p, g) =>
      if p.width > 0 ∧ p.height > 0 ∧ p.width ≤ bootImgMaxW ∧ p.height ≤ bootImgMaxH then do
        let out ← copyPicture p out
        pure ((p.width, p.height), out, stbiSetFlipVerticallyOnLoad false g)
      else pure ((0, 0), out, g)
  | (_, g) => pure ((0, 0), out, g)

-- ---------------------------------------------------------------------------
-- sys_shutdown
-- ---------------------------------------------------------------------------

/-- `gfx_width` and `gfx_height`. -/
structure Screen where
  width  : Nat
  height : Nat

/-- `((int)screen - size) / 2`, and 0 when that is negative. -/
def centred (screen size : Nat) : Nat :=
  let start := ((screen : Int) - size).tdiv 2
  (if start < 0 then 0 else start).toNat

/-- `(r << 16) | (g << 8) | b`. -/
def rgb (c : Rgba) : BitVec 32 := (0 : BitVec 8) ++ c.r ++ c.g ++ c.b

/-- The inner loop: row `y` of the screen area is row `height - 1 - y` of the decoded pixels; it
breaks at the right edge. -/
def drawRow (scr : Screen) (p : Picture) (fb : Pixels) (y : Nat) : Pixels :=
  ((List.range p.width).takeWhile fun x => centred scr.width p.width + x < scr.width).foldl
    (fun fb x => Function.update fb
      ((centred scr.height p.height + y) * scr.width + (centred scr.width p.width + x))
      (rgb (p.pixel (p.height - 1 - y) x))) fb

/-- The outer loop, which breaks at the lower edge. -/
def drawCentred (scr : Screen) (p : Picture) (fb : Pixels) : Pixels :=
  ((List.range p.height).takeWhile fun y => centred scr.height p.height + y < scr.height).foldl
    (drawRow scr p) fb

/-- What `sys_shutdown` finds: the file `0:/shutdown.png` and whether `kmalloc` has room for it. -/
structure ShutdownAnswers where
  file    : FileAnswers
  kmalloc : Bool

/-- The framebuffer when the machine halts. -/
def sysShutdown (dec : Decoder) (scr : Screen) (a : ShutdownAnswers) (g : Stb) (fb : Pixels) : Pixels :=
  let fb : Pixels := fun i => if i < scr.width * scr.height then 0 else fb i
  match a.file.content with
  | none => fb
  | some content =>
    if a.kmalloc ∧ a.file.readOk then
      match stbiLoadFromMemory dec content { g with arenaOffset := 0 } with
      | (none, _) => fb
      | (some p, _) => drawCentred scr p fb
    else fb

end Nao.Images
