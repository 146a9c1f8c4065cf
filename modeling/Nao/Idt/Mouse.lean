import Nao.Idt.Definitions

/-!
# The mouse packet machine

IRQ 12 delivers the mouse's bytes one at a time. `packets` says what they mean as a stream:
a byte without bit 3 is skipped where a packet should begin, any other one begins a packet
of three bytes. Main results:

* `decoded_feed` — from any state the machine can be in, it decodes the packets of the bytes
  it already holds followed by those that arrive.
* `mouse_packet_machine` — the cycle counter stays below 3 and so do the indices written; a
  packet leaves the pointer on the screen; bytes that are not the mouse's change nothing; a
  stream of well-formed packets is decoded packet by packet.
* `mouse_sums_fit` — the additions behind a movement do not leave the range of an `int`.
-/

namespace Nao.Idt

open SysLib

-- ---------------------------------------------------------------------------
-- What an interrupt can do
-- ---------------------------------------------------------------------------

/-- The data byte is the mouse's: bits 0 and 5 of the status are set. -/
def Irq12.IsMouse (i : Irq12) : Prop := i.status &&& 0x01 ≠ 0 ∧ i.status &&& 0x20 ≠ 0

instance (i : Irq12) : Decidable i.IsMouse := inferInstanceAs (Decidable (_ ∧ _))

/-- A byte that can begin a packet. -/
def CanBegin (b : BitVec 8) : Prop := b &&& 0x08 ≠ 0

instance (b : BitVec 8) : Decidable (CanBegin b) := inferInstanceAs (Decidable (_ ≠ _))

variable {scr : Screen} {m : Mouse} {i : Irq12}

theorem irq12_foreign (h : ¬ i.IsMouse) : irq12 scr m i = pure m := by
  unfold irq12
  split
  · split
    · exact absurd ⟨‹_›, ‹_›⟩ h
    · rfl
  · rfl

theorem irq12_skip (hMouse : i.IsMouse) (hCycle : m.cycle = 0) (hData : ¬ CanBegin i.data) :
    irq12 scr m i = pure m := by
  have hBit : i.data &&& 0x08 = 0 := not_not.mp hData
  obtain ⟨c, cycle, packet⟩ := m
  cases hCycle
  rw [irq12, if_pos hMouse.1, if_pos hMouse.2, if_pos ⟨rfl, hBit⟩]
  rfl

/-- The byte goes into `mouse_packet`, and that is not yet a packet. -/
theorem irq12_store (hMouse : i.IsMouse) (hTake : m.cycle = 0 → CanBegin i.data)
    (hCycle : m.cycle < 2) :
    irq12 scr m i =
      ⟨{ m with packet := Function.update m.packet m.cycle i.data, cycle := m.cycle + 1 },
        [.wrote m.cycle]⟩ := by
  have hNot : ¬ (m.cycle = 0 ∧ i.data &&& 0x08 = 0) := fun h => hTake h.1 h.2
  have hDone : m.cycle + 1 ≠ 3 := by omega
  rw [irq12, if_pos hMouse.1, if_pos hMouse.2, if_neg hNot, packetDone, if_neg hDone]
  rfl

/-- The byte completes a packet. -/
theorem irq12_complete (hMouse : i.IsMouse) (hCycle : m.cycle = 2) :
    irq12 scr m i =
      ⟨{ pointer := applyPacket scr m.pointer ⟨m.packet 0, m.packet 1, i.data⟩
         packet := Function.update m.packet 2 i.data, cycle := 0 },
        [.wrote 2, .decoded ⟨m.packet 0, m.packet 1, i.data⟩]⟩ := by
  obtain ⟨c, cycle, packet⟩ := m
  cases hCycle
  have hNot : ¬ ((2 : Nat) = 0 ∧ i.data &&& 0x08 = 0) := fun h => absurd h.1 (by decide)
  rw [irq12, if_pos hMouse.1, if_pos hMouse.2, if_neg hNot, packetDone, if_pos rfl]
  rfl

-- ---------------------------------------------------------------------------
-- The stream of packets
-- ---------------------------------------------------------------------------

def Packet.bytes (p : Packet) : List (BitVec 8) := [p.flags, p.dx, p.dy]

/-- The packets in a stream of bytes. -/
def packets : List (BitVec 8) → List Packet
  | [] => []
  | b :: rest =>
    if CanBegin b then
      match rest with
      | dx :: dy :: rest => ⟨b, dx, dy⟩ :: packets rest
      | _ => []
    else packets rest

theorem packets_skip {b : BitVec 8} (h : ¬ CanBegin b) (rest : List (BitVec 8)) :
    packets (b :: rest) = packets rest := by
  rw [packets.eq_def]
  simp only [if_neg h]

theorem packets_cons {b : BitVec 8} (h : CanBegin b) (dx dy : BitVec 8) (rest : List (BitVec 8)) :
    packets (b :: dx :: dy :: rest) = ⟨b, dx, dy⟩ :: packets rest := by
  rw [packets, if_pos h]

/-- The bytes the mouse has sent. -/
def mouseBytes (is : List Irq12) : List (BitVec 8) :=
  is.filterMap fun i => if i.IsMouse then some i.data else none

/-- The packets that were decoded. -/
def decodedPackets (log : List MouseEvent) : List Packet :=
  log.filterMap fun | .decoded p => some p | .wrote _ => none

/-- The part of a packet that the machine holds. -/
def Mouse.held (m : Mouse) : List (BitVec 8) := (List.range m.cycle).map m.packet

/-- Between two interrupts. -/
structure Mouse.Framed (m : Mouse) : Prop where
  cycle_lt : m.cycle < 3
  begun    : 0 < m.cycle → CanBegin (m.packet 0)

theorem Mouse.Framed.cases (h : m.Framed) :
    m.cycle = 0 ∧ m.held = []
      ∨ m.cycle = 1 ∧ CanBegin (m.packet 0) ∧ m.held = [m.packet 0]
      ∨ m.cycle = 2 ∧ CanBegin (m.packet 0) ∧ m.held = [m.packet 0, m.packet 1] := by
  obtain ⟨hLt, hBegun⟩ := h
  obtain ⟨c, cycle, packet⟩ := m
  match cycle, hLt with
  | 0, _ => exact .inl ⟨rfl, rfl⟩
  | 1, _ => exact .inr (.inl ⟨rfl, hBegun Nat.one_pos, rfl⟩)
  | 2, _ => exact .inr (.inr ⟨rfl, hBegun Nat.two_pos, rfl⟩)

/-- One interrupt: the machine stays framed, writes below 3, and decodes the packets that its
byte completes, whatever comes after it. -/
theorem irq12_framed (scr : Screen) (h : m.Framed) (i : Irq12) :
    (irq12 scr m i).val.Framed
      ∧ (∀ k, .wrote k ∈ (irq12 scr m i).trace → k < 3)
      ∧ ∀ later, packets (m.held ++ (mouseBytes [i] ++ later))
          = decodedPackets (irq12 scr m i).trace ++ packets ((irq12 scr m i).val.held ++ later) := by
  by_cases hMouse : i.IsMouse
  swap
  · rw [irq12_foreign hMouse]
    refine ⟨h, by simp, ?_⟩
    intro later
    simp [mouseBytes, hMouse, decodedPackets]
  have hBytes : mouseBytes [i] = [i.data] := by simp [mouseBytes, hMouse]
  rw [hBytes]
  obtain ⟨hCycle, hHeld⟩ | ⟨hCycle, hBegun, hHeld⟩ | ⟨hCycle, hBegun, hHeld⟩ := h.cases
  · by_cases hData : CanBegin i.data
    · rw [irq12_store hMouse (fun _ => hData) (by omega), hHeld, hCycle]
      refine ⟨⟨Nat.lt_of_sub_eq_succ rfl, fun _ => by simpa using hData⟩, by simp, ?_⟩
      intro later
      simp [decodedPackets, Mouse.held]
    · rw [irq12_skip hMouse hCycle hData]
      refine ⟨h, by simp, ?_⟩
      intro later
      simp [decodedPackets, hHeld, packets_skip hData]
  · rw [irq12_store hMouse (by omega) (by omega), hHeld, hCycle]
    refine ⟨⟨Nat.lt_of_sub_eq_succ rfl, fun _ => by simpa using hBegun⟩, by simp, ?_⟩
    intro later
    simp [decodedPackets, Mouse.held, List.range_succ]
  · rw [irq12_complete hMouse hCycle, hHeld]
    refine ⟨⟨Nat.lt_of_sub_eq_succ rfl, by simp⟩, by simp, ?_⟩
    intro later
    simp [decodedPackets, Mouse.held, packets_cons hBegun]

theorem mouseBytes_cons (i : Irq12) (is : List Irq12) :
    mouseBytes (i :: is) = mouseBytes [i] ++ mouseBytes is := by
  rw [mouseBytes, ← List.singleton_append, List.filterMap_append]
  rfl

theorem decodedPackets_append (log log' : List MouseEvent) :
    decodedPackets (log ++ log') = decodedPackets log ++ decodedPackets log' :=
  List.filterMap_append

/-- The machine decodes the packets of its byte stream. -/
theorem decoded_feed (scr : Screen) (h : m.Framed) (is : List Irq12) :
    (feed (irq12 scr) m is).val.Framed
      ∧ packets (m.held ++ mouseBytes is)
          = decodedPackets (feed (irq12 scr) m is).trace
            ++ packets (feed (irq12 scr) m is).val.held := by
  induction is generalizing m with
  | nil => exact ⟨h, by simp [mouseBytes, decodedPackets]⟩
  | cons i is ih =>
    obtain ⟨hFramed, -, hPackets⟩ := irq12_framed scr h i
    obtain ⟨hEnd, hRest⟩ := ih hFramed
    rw [feed_cons]
    refine ⟨hEnd, ?_⟩
    rw [mouseBytes_cons, hPackets, hRest, Traced.trace_bind, decodedPackets_append,
      List.append_assoc]
    rfl

/-- A part of a packet is no packet. -/
theorem packets_held (h : m.Framed) : packets m.held = [] := by
  obtain ⟨-, hHeld⟩ | ⟨-, hBegun, hHeld⟩ | ⟨-, hBegun, hHeld⟩ := h.cases <;>
    simp [hHeld, packets]

theorem packets_flatMap_bytes {ps : List Packet} (h : ∀ p ∈ ps, CanBegin p.flags) :
    packets (ps.flatMap Packet.bytes) = ps := by
  induction ps with
  | nil => rfl
  | cons p ps ih =>
    have hp := h p (List.mem_cons_self ..)
    rw [List.flatMap_cons, Packet.bytes]
    simp only [List.cons_append, List.nil_append]
    rw [packets_cons hp, ih fun q hq => h q (List.mem_cons_of_mem _ hq)]

/-- A stream of packets, whatever foreign bytes come in between, is decoded packet by packet. -/
theorem decoded_of_packets (scr : Screen) {is : List Irq12} {ps : List Packet} (hCycle : m.cycle = 0)
    (hBytes : mouseBytes is = ps.flatMap Packet.bytes) (hBegin : ∀ p ∈ ps, CanBegin p.flags) :
    decodedPackets (feed (irq12 scr) m is).trace = ps := by
  have hFramed : m.Framed := ⟨by omega, by omega⟩
  have hHeld : m.held = [] := by simp [Mouse.held, hCycle]
  obtain ⟨hEnd, hPackets⟩ := decoded_feed scr hFramed is
  rw [hHeld, List.nil_append, hBytes, packets_flatMap_bytes hBegin, packets_held hEnd,
    List.append_nil] at hPackets
  exact hPackets.symm

theorem framed_boot : Mouse.boot.Framed := ⟨by decide, fun h => absurd h (by decide)⟩

-- ---------------------------------------------------------------------------
-- The pointer
-- ---------------------------------------------------------------------------

/-- A coordinate within a screen side of `size` pixels. -/
def OnScreen (size : BitVec 32) (v : Int) : Prop := 0 ≤ v ∧ v ≤ (size.toNat : Int) - 10

structure Screen.Usable (scr : Screen) : Prop where
  width  : 10 ≤ scr.width.toNat ∧ scr.width.toNat ≤ 2 ^ 30
  height : 10 ≤ scr.height.toNat ∧ scr.height.toNat ≤ 2 ^ 30

/-- On a side of such a length the two tests are a clamp. -/
theorem clamp_eq {size : BitVec 32} (h : 10 ≤ size.toNat ∧ size.toNat ≤ 2 ^ 30) (v : Int) :
    clamp size v = max 0 (min v (size.toNat - 10)) := by
  have hInt : size.toInt = size.toNat := BitVec.toInt_eq_toNat_of_lt (by omega)
  have hSub : (size - 10).toInt = (size.toNat : Int) - 10 := by
    have hNat : (size - 10).toNat = size.toNat - 10 :=
      BitVec.toNat_sub_of_le (BitVec.le_def.mpr h.1)
    rw [BitVec.toInt_eq_toNat_of_lt (by rw [hNat]; omega), hNat]
    omega
  unfold clamp
  dsimp only
  rw [hInt, hSub]
  split <;> split <;> omega

theorem clamp_onScreen {size : BitVec 32} (h : 10 ≤ size.toNat ∧ size.toNat ≤ 2 ^ 30) (v : Int) :
    OnScreen size (clamp size v) := by
  rw [OnScreen, clamp_eq h]
  omega

theorem applyPacket_onScreen (h : scr.Usable) (c : Pointer) (p : Packet) :
    OnScreen scr.width (applyPacket scr c p).x ∧ OnScreen scr.height (applyPacket scr c p).y :=
  ⟨clamp_onScreen h.width _, clamp_onScreen h.height _⟩

/-- The pointer moves by the packets decoded, and only by them. -/
theorem pointer_irq12 (i : Irq12) :
    (irq12 scr m i).val.pointer
      = (decodedPackets (irq12 scr m i).trace).foldl (applyPacket scr) m.pointer := by
  have hDone : ∀ m : Mouse, (packetDone scr m).val.pointer
      = (decodedPackets (packetDone scr m).trace).foldl (applyPacket scr) m.pointer := by
    intro m
    unfold packetDone
    split <;> rfl
  unfold irq12
  split
  · split
    · split
      · exact hDone _
      · exact hDone _
    · rfl
  · rfl

/-- The pointer is where the packets decoded so far have put it. -/
theorem pointer_feed (is : List Irq12) :
    (feed (irq12 scr) m is).val.pointer
      = (decodedPackets (feed (irq12 scr) m is).trace).foldl (applyPacket scr) m.pointer := by
  refine feed_invariant
    (fun _ log (m' : Mouse) => m'.pointer = (decodedPackets log).foldl (applyPacket scr) m.pointer)
    rfl ?_ is
  intro _ log m' i h
  rw [pointer_irq12, h, decodedPackets_append, List.foldl_append]

/-- The pointer of every run: where it was at boot, or on the screen. -/
theorem pointer_bounds (hScr : scr.Usable) (is : List Irq12) :
    let c := (feed (irq12 scr) Mouse.boot is).val.pointer
    0 ≤ c.x ∧ c.x ≤ 2 ^ 30 ∧ 0 ≤ c.y ∧ c.y ≤ 2 ^ 30 := by
  intro c
  have hc : c = (decodedPackets _).foldl (applyPacket scr) Mouse.boot.pointer := pointer_feed is
  rcases List.eq_nil_or_concat (decodedPackets (feed (irq12 scr) Mouse.boot is).trace) with
    hNil | ⟨ps, p, hConcat⟩
  · rw [hNil, List.foldl_nil] at hc
    rw [hc]
    decide
  · rw [hConcat, List.concat_eq_append, List.foldl_append] at hc
    have hOn := applyPacket_onScreen hScr (ps.foldl (applyPacket scr) Mouse.boot.pointer) p
    have hw := hScr.width
    have hh := hScr.height
    rw [hc]
    simp only [List.foldl, OnScreen] at hOn ⊢
    omega

/-- The sums behind a movement stay in the range of an `int`. -/
theorem mouse_sums_fit (hScr : scr.Usable) (is : List Irq12) (p : Packet) :
    let c := (feed (irq12 scr) Mouse.boot is).val.pointer
    let x := c.x + (relative p.flags 0x10 p.dx).toInt
    let y := c.y - (relative p.flags 0x20 p.dy).toInt
    x < 2 ^ 31 ∧ y < 2 ^ 31 ∧ -2 ^ 31 ≤ x ∧ -2 ^ 31 ≤ y := by
  have hc := pointer_bounds hScr is
  have hx := (relative p.flags 0x10 p.dx).toInt_lt
  have hx' := (relative p.flags 0x10 p.dx).le_toInt
  have hy := (relative p.flags 0x20 p.dy).toInt_lt
  have hy' := (relative p.flags 0x20 p.dy).le_toInt
  dsimp only at hc ⊢
  omega

-- ---------------------------------------------------------------------------
-- Main result
-- ---------------------------------------------------------------------------

/--
**The mouse packet machine.** On a usable screen, after any interrupts `is` and for the next
one `i`: the cycle is 0, 1 or 2 and every index written is below 3; if `i` completes a packet
the pointer is on the screen; if the status of `i` lacks bit 0 or bit 5 nothing changes. And
from any state with cycle 0, whatever foreign bytes come in between, mouse bytes that are a
sequence of packets whose first byte has bit 3 set are decoded to exactly these packets.
-/
theorem mouse_packet_machine (hScr : scr.Usable) :
    (∀ is i, let m := (feed (irq12 scr) Mouse.boot is).val
      m.cycle < 3
      ∧ (∀ k, .wrote k ∈ (irq12 scr m i).trace → k < 3)
      ∧ (∀ p, .decoded p ∈ (irq12 scr m i).trace →
          OnScreen scr.width (irq12 scr m i).val.pointer.x
          ∧ OnScreen scr.height (irq12 scr m i).val.pointer.y)
      ∧ (i.status &&& 0x01 = 0 ∨ i.status &&& 0x20 = 0 → irq12 scr m i = pure m))
    ∧ ∀ (m : Mouse) (is : List Irq12) (ps : List Packet), m.cycle = 0 →
        mouseBytes is = ps.flatMap Packet.bytes → (∀ p ∈ ps, p.flags &&& 0x08 ≠ 0) →
        decodedPackets (feed (irq12 scr) m is).trace = ps := by
  refine ⟨?_, ?_⟩
  · intro is i m
    have hFramed : m.Framed := (decoded_feed scr framed_boot is).1
    refine ⟨hFramed.cycle_lt, (irq12_framed scr hFramed i).2.1, ?_, ?_⟩
    · intro p hp
      -- a packet was applied last
      have hMem : p ∈ decodedPackets (irq12 scr m i).trace :=
        List.mem_filterMap.mpr ⟨_, hp, rfl⟩
      rcases List.eq_nil_or_concat (decodedPackets (irq12 scr m i).trace) with hNil | ⟨ps, q, hEq⟩
      · rw [hNil] at hMem
        cases hMem
      · rw [pointer_irq12, hEq, List.concat_eq_append, List.foldl_append]
        exact applyPacket_onScreen hScr _ q
    · intro hLacks
      refine irq12_foreign ?_
      rintro ⟨h0, h5⟩
      exact hLacks.elim h0 h5
  · intro m is ps hCycle hBytes hBegin
    exact decoded_of_packets scr hCycle hBytes hBegin

/-- Two packets with a keyboard byte in between, on a screen of 1024 by 768. -/
theorem mouse_packet_machine_demo :
    decodedPackets (feed (irq12 ⟨1024, 768⟩) Mouse.boot
      [⟨0x21, 0x08⟩, ⟨0x21, 5⟩, ⟨0x01, 0x1C⟩, ⟨0x21, 0⟩, ⟨0x21, 0x29⟩, ⟨0x21, 1⟩, ⟨0x21, 0xFF⟩]).trace
      = [⟨0x08, 5, 0⟩, ⟨0x29, 1, 0xFF⟩] := by
  have hScr : Screen.Usable ⟨1024, 768⟩ := ⟨by decide, by decide⟩
  exact (mouse_packet_machine hScr).2 Mouse.boot _ _ rfl (by decide) (by decide)

end Nao.Idt
