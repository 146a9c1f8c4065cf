import Nao.Images.Definitions
import Nao.Lib.Machine

/-!
# NaoView — definitions

`naoview.c`: the image it shows, `naoview_close_image`, `naoview_load_image` and
`render_naoview`, and the execution of its image command by `nk_os_render_target`.

`nk_image` does not draw. It queues a command with a copy of the pixel pointer, and the queue
is executed at the end of the frame, after `render_naoview` has gone on to its popups. The heap
is seen as the set of live blocks with their sizes; other code neither frees nor is handed
NaoView's blocks, so only these are recorded.

What a frame brings is a `Frame`: which widgets report a click, in the order in which
`render_naoview` asks them, what the file system and `kmalloc` answer to a `Load`, and whether
the window is closed. Nuklear does not run the body of a window in the frame in which it is
closed.
-/

namespace Nao.NaoView

open SysLib Images

-- ---------------------------------------------------------------------------
-- The heap
-- ---------------------------------------------------------------------------

/-- The size of the live block at an address. -/
abbrev Heap := Nat → Option Nat

/-- `kmalloc(size)`; `answer` is the address it would give. A live block is never given out. -/
def kmalloc (answer : Option Nat) (size : Nat) (heap : Heap) : Option Nat × Heap :=
  match answer with
  | some p =>
    if p ≠ 0 ∧ heap p = none then (some p, Function.update heap p (some size)) else (none, heap)
  | none => (none, heap)

def kfree (p : Nat) (heap : Heap) : Heap := Function.update heap p none

-- ---------------------------------------------------------------------------
-- The image
-- ---------------------------------------------------------------------------

/-- `naoview_status_t`. -/
inductive Status where
  | ok | errNotFound | errBadFormat
  deriving DecidableEq

/-- `naoview_pixels` (the address), its contents, `naoview_width`, `naoview_height`, the handle
of `naoview_img`, and the flags. -/
structure View where
  active         : Bool
  minimized      : Bool
  showOpenDialog : Bool
  alert          : Status
  pixels         : Option Nat
  contents       : Pixels
  width          : Nat
  height         : Nat
  img            : Option Nat

/-- NaoView with the heap and stb_image. -/
structure World where
  view : View
  heap : Heap
  stb  : Stb

def World.boot : World :=
  { view := { active := false, minimized := false, showOpenDialog := false, alert := .ok
              pixels := none, contents := fun _ => 0, width := 0, height := 0, img := none }
    heap := fun _ => none
    stb := Stb.boot }

def naoviewCloseImage (w : World) : World :=
  { w with
    heap := match w.view.pixels with
      | some p => kfree p w.heap
      | none => w.heap
    view := { w.view with pixels := none, width := 0, height := 0, img := none } }

/-- What `naoview_load_image` is answered. -/
structure LoadAnswers where
  file    : FileAnswers
  kmalloc : Option Nat

/-- The return value and the world after the call, with the writes to the new block. -/
def naoviewLoadImage (dec : Decoder) (a : LoadAnswers) (w : World) : Traced Write (Bool × World) :=
  let w := naoviewCloseImage w
  let w := { w with view := { w.view with alert := .ok } }
  match fetchFile a.file w.stb with
  | (.notFound, g) =>
    pure (false, { w with stb := g, view := { w.view with alert := .errNotFound } })
  | (.unreadable, g) =>
    pure (false, { w with stb := g, view := { w.view with alert := .errBadFormat } })
  | (.bytes content, g) =>
    let g := stbiSetFlipVerticallyOnLoad true g
    match stbiLoadFromMemory dec content g with
    | (none, g) =>
      pure (false, { w with
        stb := stbiSetFlipVerticallyOnLoad false g
        view := { w.view with alert := .errBadFormat } })
    | (some p, g) =>
      let g := stbiSetFlipVerticallyOnLoad false g
      match kmalloc a.kmalloc (p.width * p.height * 4 % 2 ^ 32) w.heap with
      | (none, heap) => pure (false, { w with heap, stb := g })
      | (some address, heap) => do
        let contents ← copyPicture p w.view.contents
        pure (true, { heap, stb := g, view := { w.view with
          pixels := some address, contents
          width := p.width, height := p.height, img := some address } })

-- ---------------------------------------------------------------------------
-- A frame
-- ---------------------------------------------------------------------------

/-- An `NK_COMMAND_IMAGE`: the pointer it holds, and its size as 16-bit numbers. -/
structure ImageCommand where
  ptr : Nat
  w   : Nat
  h   : Nat
  deriving DecidableEq

/-- The clicks on the popup with the path. -/
structure OpenPopup where
  load   : Option LoadAnswers
  cancel : Bool

/-- What the body of the window is told by its widgets. `imageShown` is whether the image group
is on the screen, so that `nk_image` queues a command; a popup that does not begin is `none`. -/
structure Body where
  openPng    : Bool
  closeImage : Bool
  imageShown : Bool
  openPopup  : Option OpenPopup
  alertPopup : Option Bool

/-- One pass of the main loop: the body of the window if `nk_begin` runs it, and whether the
window is hidden after `nk_end`. -/
structure Frame where
  body    : Option Body
  hidden  : Bool
  noBody  : hidden = true → body = none

/-- The `File` menu. -/
def menuBar (b : Body) (w : World) : World :=
  let w := if b.openPng then { w with view := { w.view with showOpenDialog := true, alert := .ok } } else w
  if b.closeImage then
    let w := naoviewCloseImage w
    { w with view := { w.view with alert := .ok } }
  else w

/-- The image canvas: the command `nk_image` queues. -/
def canvas (b : Body) (w : World) : Option ImageCommand :=
  match w.view.pixels, w.view.img with
  | some _, some ptr =>
    if b.imageShown then some { ptr, w := w.view.width % 2 ^ 16, h := w.view.height % 2 ^ 16 } else none
  | _, _ => none

/-- The `Load` button. -/
def loadButton (dec : Decoder) (load : Option LoadAnswers) (w : World) : World :=
  match load with
  | none => w
  | some a =>
    let w := (naoviewLoadImage dec a w).val.2
    if w.view.alert = .ok then { w with view := { w.view with showOpenDialog := false } } else w

/-- The popup with the path. -/
def openDialog (dec : Decoder) (popup : Option OpenPopup) (w : World) : World :=
  if w.view.showOpenDialog then
    match popup with
    | none => { w with view := { w.view with showOpenDialog := false } }
    | some p =>
      let w := loadButton dec p.load w
      if p.cancel then { w with view := { w.view with showOpenDialog := false } } else w
  else w

/-- The popup with the warning. -/
def alertDialog (popup : Option Bool) (w : World) : World :=
  if w.view.alert ≠ .ok then
    match popup with
    | none | some true => { w with view := { w.view with alert := .ok } }
    | some false => w
  else w

/-- `render_naoview`: the world after it and the command it has queued. -/
def renderNaoview (dec : Decoder) (f : Frame) (w : World) : Option ImageCommand × World :=
  if !w.view.active || w.view.minimized then (none, w)
  else
    let (cmd, w) := match f.body with
      | none => (none, w)
      | some b =>
        let w := menuBar b w
        (canvas b w, alertDialog b.alertPopup (openDialog dec b.openPopup w))
    if f.hidden then
      let w := { w with view := { w.view with active := false } }
      (cmd, naoviewCloseImage w)
    else (cmd, w)

-- ---------------------------------------------------------------------------
-- The machine
-- ---------------------------------------------------------------------------

/-- The command `nk_os_render_target` executes, with the heap it executes it on. -/
structure Executed where
  cmd  : ImageCommand
  heap : Heap

/-- A frame of the main loop, and what happens to NaoView outside its window: it is launched, or
its taskbar button is clicked. -/
inductive Input where
  | frame (f : Frame)
  | launch
  | taskbar

def step (dec : Decoder) (w : World) : Input → Traced Executed World
  | .frame f =>
    let (cmd, w) := renderNaoview dec f w
    match cmd with
    | some cmd => do
      Traced.tell { cmd, heap := w.heap }
      pure w
    | none => pure w
  | .launch => pure { w with view := { w.view with active := true, minimized := false } }
  | .taskbar =>
    if w.view.active then pure { w with view := { w.view with minimized := !w.view.minimized } }
    else pure w

end Nao.NaoView
