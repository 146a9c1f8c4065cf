import Nao.Kernel.Strings
import Nao.Lib.Machine
import Nao.Lib.Ring

/-!
# Keyboard and mouse interrupts — definitions

The keyboard and mouse parts of `idt.c`: the ring of typed characters with
`keyboard_push_char` and `keyboard_pop_char`, and the handlers of IRQ 1 and IRQ 12 in
`isr_handler`.

An interrupt handler runs to its end undisturbed, but it may run between any two steps of
the code it interrupts. `keyboard_pop_char` is therefore given a second time, as the steps
of the loop of `kernel_main` that drains the ring: `mainStep` is one of them, and `Pc` says
which one is next.
-/

namespace Nao.Idt

open SysLib Kernel

-- ---------------------------------------------------------------------------
-- The keyboard ring
-- ---------------------------------------------------------------------------

/-- The size of `keyboard_buffer`. -/
def keyboardSize : Nat := 32

/-- `keyboard_buffer`, `keyboard_head`, `keyboard_tail` and `shift_pressed`. -/
structure Keyboard where
  buffer       : Mem
  head         : Nat
  tail         : Nat
  shiftPressed : Bool

def Keyboard.boot : Keyboard := { buffer := fun _ => 0, head := 0, tail := 0, shiftPressed := false }

/-- What happens to the characters: `keyboard_push_char` stores one or drops it,
`keyboard_pop_char` returns one, and the loop that calls it stops. -/
inductive KeyEvent where
  | accepted (c : UInt8)
  | rejected (c : UInt8)
  | popped (c : UInt8)
  | stopped
  deriving DecidableEq, Repr

def keyboardPushChar (c : UInt8) (k : Keyboard) : Traced KeyEvent Keyboard :=
  let next := (k.head + 1) % keyboardSize
  if next ≠ k.tail then do
    Traced.tell (.accepted c)
    pure { k with buffer := k.buffer.write8 k.head c, head := next }
  else do
    Traced.tell (.rejected c)
    pure k

/-- `keyboard_pop_char`, when nothing interrupts it. -/
def keyboardPopChar (k : Keyboard) : UInt8 × Keyboard :=
  if k.head = k.tail then (0, k)
  else (k.buffer k.tail, { k with tail := (k.tail + 1) % keyboardSize })

-- ---------------------------------------------------------------------------
-- IRQ 1
-- ---------------------------------------------------------------------------

def scancodeToAsciiNormal : List UInt8 :=
  [0, 27] ++ lit "1234567890-=\x08" ++ lit "\tqwertyuiop[]\n" ++ [0] ++ lit "asdfghjkl;'`" ++ [0]
    ++ lit "\\zxcvbnm,./" ++ [0] ++ lit "*" ++ [0] ++ lit " "

def scancodeToAsciiShift : List UInt8 :=
  [0, 27] ++ lit "!@#$%^&*()_+\x08" ++ lit "\tQWERTYUIOP\x7b\x7d\n" ++ [0] ++ lit "ASDFGHJKL:\"~" ++ [0]
    ++ lit "|ZXCVBNM<>?" ++ [0] ++ lit "*" ++ [0] ++ lit " "

/-- One bound guards both tables: they have the same length. -/
theorem length_scancodeToAscii :
    scancodeToAsciiNormal.length = 58 ∧ scancodeToAsciiShift.length = 58 := by
  decide +kernel

/-- The IRQ 1 branch of `isr_handler`. -/
def irq1 (scancode : UInt8) (k : Keyboard) : Traced KeyEvent Keyboard :=
  if scancode = 0x2A ∨ scancode = 0x36 then pure { k with shiftPressed := true }
  else if scancode = 0xAA ∨ scancode = 0xB6 then pure { k with shiftPressed := false }
  else if scancode &&& 0x80 = 0 then
    if scancode.toNat < scancodeToAsciiNormal.length then
      let ascii := (if k.shiftPressed then scancodeToAsciiShift else scancodeToAsciiNormal).getD
        scancode.toNat 0
      if ascii ≠ 0 then keyboardPushChar ascii k else pure k
    else pure k
  else pure k

-- ---------------------------------------------------------------------------
-- The drain loop, step by step
-- ---------------------------------------------------------------------------

/-- Where `while ((incoming_char = keyboard_pop_char()) != 0)` is. -/
inductive Pc where
  /-- outside the loop -/
  | away
  /-- `keyboard_pop_char` has been called -/
  | calling
  /-- its test has found the ring not empty -/
  | tested
  /-- it has read the slot at the tail -/
  | loaded (c : UInt8)

structure Sys where
  kbd : Keyboard
  pc  : Pc

def Sys.boot : Sys := { kbd := Keyboard.boot, pc := .away }

/-- `keyboard_pop_char` returns `c` to the loop, which goes on unless it is 0. -/
def returned (c : UInt8) (k : Keyboard) : Traced KeyEvent Sys := do
  Traced.tell (.popped c)
  if c ≠ 0 then pure { kbd := k, pc := .calling }
  else do
    Traced.tell .stopped
    pure { kbd := k, pc := .away }

def mainStep (s : Sys) : Traced KeyEvent Sys :=
  match s.pc with
  | .away => pure { s with pc := .calling }
  | .calling => if s.kbd.head = s.kbd.tail then returned 0 s.kbd else pure { s with pc := .tested }
  | .tested => pure { s with pc := .loaded (s.kbd.buffer s.kbd.tail) }
  | .loaded c => returned c { s.kbd with tail := (s.kbd.tail + 1) % keyboardSize }

/-- An interrupt, or a step of the interrupted loop. -/
inductive Action where
  | irq1 (scancode : UInt8)
  | main

def step (s : Sys) : Action → Traced KeyEvent Sys
  | .irq1 scancode => do
    let kbd ← irq1 scancode s.kbd
    pure { s with kbd }
  | .main => mainStep s

-- ---------------------------------------------------------------------------
-- IRQ 12
-- ---------------------------------------------------------------------------

/-- `gfx_width` and `gfx_height`. -/
structure Screen where
  width  : BitVec 32
  height : BitVec 32

/-- `mouse_x`, `mouse_y` and the buttons. -/
structure Pointer where
  x            : Int
  y            : Int
  leftClicked  : Bool
  rightClicked : Bool

/-- The pointer, `mouse_cycle` and `mouse_packet`. -/
structure Mouse where
  pointer : Pointer
  cycle   : Nat
  packet  : Nat → BitVec 8

def Mouse.boot : Mouse :=
  { pointer := { x := 500, y := 400, leftClicked := false, rightClicked := false }
    cycle := 0, packet := fun _ => 0 }

/-- What one interrupt finds: the status byte at port 0x64 and the data byte at port 0x60. -/
structure Irq12 where
  status : BitVec 8
  data   : BitVec 8

/-- A packet: its flags and the two movements. -/
structure Packet where
  flags : BitVec 8
  dx    : BitVec 8
  dy    : BitVec 8
  deriving DecidableEq

/-- A write to `mouse_packet[index]`; a packet taken out of it. -/
inductive MouseEvent where
  | wrote (index : Nat)
  | decoded (p : Packet)
  deriving DecidableEq

/-- `int16_t rel = mouse_packet[i]; if (flags & sign) rel |= 0xFF00;` -/
def relative (flags sign move : BitVec 8) : BitVec 16 :=
  let rel := move.signExtend 16
  if flags &&& sign ≠ 0 then rel ||| 0xFF00 else rel

/-- The two tests that keep a coordinate on the screen. -/
def clamp (size : BitVec 32) (v : Int) : Int :=
  let v := if v < 0 then 0 else v
  if v > size.toInt - 10 then (size - 10).toInt else v

/-- What a complete packet does to the buttons and the position. -/
def applyPacket (scr : Screen) (c : Pointer) (p : Packet) : Pointer :=
  { leftClicked := p.flags &&& 0x01 ≠ 0
    rightClicked := p.flags &&& 0x02 ≠ 0
    x := clamp scr.width (c.x + (relative p.flags 0x10 p.dx).toInt)
    y := clamp scr.height (c.y - (relative p.flags 0x20 p.dy).toInt) }

/-- The `if (mouse_cycle == 3)` block. -/
def packetDone (scr : Screen) (m : Mouse) : Traced MouseEvent Mouse :=
  if m.cycle = 3 then
    let p : Packet := { flags := m.packet 0, dx := m.packet 1, dy := m.packet 2 }
    do
      Traced.tell (.decoded p)
      pure { m with cycle := 0, pointer := applyPacket scr m.pointer p }
  else pure m

/-- The IRQ 12 branch of `isr_handler`. -/
def irq12 (scr : Screen) (m : Mouse) (i : Irq12) : Traced MouseEvent Mouse :=
  if i.status &&& 0x01 ≠ 0 then
    if i.status &&& 0x20 ≠ 0 then
      if m.cycle = 0 ∧ i.data &&& 0x08 = 0 then packetDone scr { m with cycle := 0 }
      else do
        Traced.tell (.wrote m.cycle)
        packetDone scr
          { m with packet := Function.update m.packet m.cycle i.data, cycle := m.cycle + 1 }
    else pure m
  else pure m

end Nao.Idt
