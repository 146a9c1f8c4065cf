import Nao.Idt.Mouse
import Nao.Lib.Bits

/-!
# Movements of the mouse

A movement in a PS/2 packet is a number of nine bits in two's complement: the sign stands among
the flags, the low eight bits in a byte of its own. The handler keeps that byte in a signed
variable, and so takes its highest bit for a sign as well.

* `relative_toInt` — what the handler makes of the two.
* `relative_eq_iff` — the packets for which it is the movement.
* `mouse_displacement` — on a stream of such packets the pointer goes where the movements lead.
-/

namespace Nao.Idt

open SysLib

-- ---------------------------------------------------------------------------
-- What a packet says
-- ---------------------------------------------------------------------------

/-- The movement: the sign bit in front of the byte, as nine bits in two's complement. -/
def movement (flags sign move : BitVec 8) : Int :=
  (BitVec.ofBool (flags &&& sign ≠ 0) ++ move).toInt

/-- A coordinate kept between 0 and `size - 10`. -/
def limit (size : BitVec 32) (v : Int) : Int := max 0 (min v (size.toNat - 10))

/-- The position after a packet. The mouse counts upwards, the screen downwards. -/
def moved (scr : Screen) (pos : Int × Int) (p : Packet) : Int × Int :=
  (limit scr.width (pos.1 + movement p.flags 0x10 p.dx),
    limit scr.height (pos.2 - movement p.flags 0x20 p.dy))

def Pointer.position (c : Pointer) : Int × Int := (c.x, c.y)

theorem movement_eq (flags sign move : BitVec 8) :
    movement flags sign move = if flags &&& sign ≠ 0 then (move.toNat : Int) - 256 else move.toNat := by
  have hMove := move.isLt
  rw [movement, BitVec.toInt_eq_toNat_cond, toNat_append_eq, BitVec.toNat_ofBool]
  by_cases hSign : flags &&& sign ≠ 0
  · rw [if_pos hSign, decide_eq_true hSign, Bool.toNat_true, if_neg (by omega)]
    omega
  · rw [if_neg hSign, decide_eq_false hSign, Bool.toNat_false, if_pos (by omega)]
    omega

-- ---------------------------------------------------------------------------
-- What the handler makes of it
-- ---------------------------------------------------------------------------

/-- Setting the upper byte makes a word negative, whatever it was extended to. -/
theorem signExtend_or (move : BitVec 8) : move.signExtend 16 ||| 0xFF00 = BitVec.allOnes 8 ++ move := by
  have hMask : (0xFF00 : BitVec 16) = BitVec.allOnes 8 ++ 0#8 := rfl
  rw [hMask]
  ext i hi
  rw [BitVec.getElem_or, BitVec.getElem_append, BitVec.getElem_append, BitVec.getElem_signExtend]
  by_cases hLow : i < 8
  · simp [hLow]
  · simp only [hLow, dite_false, BitVec.getElem_allOnes, Bool.or_true]

theorem relative_toInt (flags sign move : BitVec 8) :
    (relative flags sign move).toInt
      = if flags &&& sign ≠ 0 then (move.toNat : Int) - 256 else move.toInt := by
  have hMove := move.isLt
  unfold relative
  dsimp only
  split
  · rw [signExtend_or, BitVec.toInt_eq_toNat_cond, toNat_append_eq, BitVec.toNat_allOnes,
      if_neg (by omega)]
    omega
  · exact BitVec.toInt_signExtend_of_le (by decide)

/-- A movement by less than 128, or a negative one. -/
def Narrow (flags sign move : BitVec 8) : Prop := flags &&& sign ≠ 0 ∨ move.toNat < 128

/-- Exactly these are decoded correctly. -/
theorem relative_eq_iff (flags sign move : BitVec 8) :
    (relative flags sign move).toInt = movement flags sign move ↔ Narrow flags sign move := by
  rw [relative_toInt, movement_eq, Narrow]
  by_cases hSign : flags &&& sign ≠ 0
  · rw [if_pos hSign, if_pos hSign]
    exact iff_of_true rfl (.inl hSign)
  · have hCond := BitVec.toInt_eq_toNat_cond move
    rw [if_neg hSign, if_neg hSign, or_iff_right hSign]
    split at hCond <;> omega

/-- Both movements of a packet. -/
def Packet.Narrow (p : Packet) : Prop :=
  Idt.Narrow p.flags 0x10 p.dx ∧ Idt.Narrow p.flags 0x20 p.dy

instance (p : Packet) : Decidable p.Narrow := inferInstanceAs (Decidable ((_ ∨ _) ∧ (_ ∨ _)))

theorem applyPacket_position {scr : Screen} (hScr : scr.Usable) {p : Packet} (h : p.Narrow)
    (c : Pointer) : (applyPacket scr c p).position = moved scr c.position p := by
  have hx := (relative_eq_iff p.flags 0x10 p.dx).mpr h.1
  have hy := (relative_eq_iff p.flags 0x20 p.dy).mpr h.2
  simp only [Pointer.position, applyPacket, moved, hx, hy, clamp_eq hScr.width, clamp_eq hScr.height,
    limit]

theorem foldl_applyPacket {scr : Screen} (hScr : scr.Usable) {ps : List Packet}
    (h : ∀ p ∈ ps, p.Narrow) (c : Pointer) :
    (ps.foldl (applyPacket scr) c).position = ps.foldl (moved scr) c.position := by
  induction ps generalizing c with
  | nil => rfl
  | cons p ps ih =>
    rw [List.foldl_cons, ih fun q hq => h q (List.mem_cons_of_mem _ hq),
      applyPacket_position hScr (h p (List.mem_cons_self ..)), List.foldl_cons]

-- ---------------------------------------------------------------------------
-- Main result
-- ---------------------------------------------------------------------------

/--
**Displacements.** On a usable screen, from every state with cycle 0 and with whatever foreign
bytes in between: after a stream of well-framed packets that are all narrow, the pointer is
where the movements of the packets, taken one by one and clamped to the screen, have led it. And
a packet is narrow exactly if the handler decodes both its movements correctly: it fails for
every movement of 128 and more to the right or upwards.
-/
theorem mouse_displacement {scr : Screen} (hScr : scr.Usable) :
    (∀ (m : Mouse) (is : List Irq12) (ps : List Packet), m.cycle = 0 →
      mouseBytes is = ps.flatMap Packet.bytes → (∀ p ∈ ps, p.flags &&& 0x08 ≠ 0) →
      (∀ p ∈ ps, p.Narrow) →
      (feed (irq12 scr) m is).val.pointer.position = ps.foldl (moved scr) m.pointer.position)
    ∧ ∀ p : Packet,
        (relative p.flags 0x10 p.dx).toInt = movement p.flags 0x10 p.dx
          ∧ (relative p.flags 0x20 p.dy).toInt = movement p.flags 0x20 p.dy
        ↔ p.Narrow := by
  refine ⟨?_, ?_⟩
  · intro m is ps hCycle hBytes hBegin hNarrow
    rw [pointer_feed, decoded_of_packets scr hCycle hBytes hBegin]
    exact foldl_applyPacket hScr hNarrow m.pointer
  · intro p
    exact and_congr (relative_eq_iff ..) (relative_eq_iff ..)

/-- On a screen of 1024 by 768: left by 200 and up by 5, right by 10 and down by 20, and up beyond
the edge, with a byte of the keyboard in the second packet. -/
theorem mouse_displacement_demo :
    (feed (irq12 ⟨1024, 768⟩) Mouse.boot
        ([⟨0x21, 0x18⟩, ⟨0x21, 56⟩, ⟨0x21, 5⟩] ++ [⟨0x21, 0x28⟩, ⟨0x01, 0x1E⟩, ⟨0x21, 10⟩, ⟨0x21, 236⟩]
          ++ List.flatten (List.replicate 4 [⟨0x21, 0x08⟩, ⟨0x21, 0⟩, ⟨0x21, 127⟩]))).val.pointer.position
      = (310, 0) := by
  have hScr : Screen.Usable ⟨1024, 768⟩ := ⟨by decide, by decide⟩
  rw [(mouse_displacement hScr).1 Mouse.boot _
    ([⟨0x18, 56, 5⟩, ⟨0x28, 10, 236⟩] ++ List.replicate 4 ⟨0x08, 0, 127⟩) rfl (by decide) (by decide)
    (by decide)]
  decide

/-- Right by 128: the pointer goes left. -/
theorem fast_movement_reversed :
    (feed (irq12 ⟨1024, 768⟩) Mouse.boot [⟨0x21, 0x08⟩, ⟨0x21, 0x80⟩, ⟨0x21, 0⟩]).val.pointer.position
        = (372, 400)
      ∧ moved ⟨1024, 768⟩ Mouse.boot.pointer.position ⟨0x08, 0x80, 0⟩ = (628, 400) := by
  decide

end Nao.Idt
