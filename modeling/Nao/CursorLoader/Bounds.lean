import Nao.CursorLoader.Definitions
import Nao.Lib.Bits
import Nao.Lib.Rows

/-!
# The buffer of the system cursor

`cursor_pixels` has room for 32 by 32 pixels. `load_system_cursor` takes the size of the picture
from two bytes of the file, where 0 stands for 256, and uses it as it is: for the number of bytes
it reads into the buffer, and through `draw_custom_cursor` for the cells that are drawn.

`system_cursor_bounded_iff` says when all of it lies in the buffer.
-/

namespace Nao.CursorLoader

open SysLib FatFs Idt Traced
open Ani (side side_bounds)

/-- `MAX_CURSOR_W * MAX_CURSOR_H * 4`. -/
def cursorPixelsSize : Nat := 32 * 32 * 4

def Access.Inside : Access → Prop
  | .store count => count ≤ cursorPixelsSize
  | .read index => index < cursorPixelsSize

-- ---------------------------------------------------------------------------
-- The size
-- ---------------------------------------------------------------------------

/-- Byte `i` of `header` once `f_read` has returned: a read that fails or comes short leaves what
the array held. -/
def headerByte (a : LoadAnswers) (bytes : List UInt8) (header : Mem) (i : Nat) : UInt8 :=
  if a.readHeader = .ok then bytes.getD i (header i) else header i

theorem fRead_header (a : LoadAnswers) (bytes : List UInt8) (header : Mem) {i : Nat} (hi : i < 22) :
    (fRead a.readHeader 22 { bytes, fptr := 0 } header).2 i = headerByte a bytes header i := by
  unfold fRead headerByte
  split
  · show header.blit 0 ((bytes.drop 0).take 22) i = _
    rw [List.drop_zero]
    rcases Nat.lt_or_ge i bytes.length with hIn | hOut
    · have hByte := header.blit_apply 0 (bytes.take 22) (i := i) (by rw [List.length_take]; omega)
      rw [Nat.zero_add] at hByte
      rw [hByte, List.getElem_take, List.getD_eq_getElem]
    · rw [Mem.blit_of_disjoint _ _ (.inr (by rw [List.length_take]; omega)),
        List.getD_eq_default _ _ hOut]
  · rfl

theorem readPixels_stores {count size : Nat} (h : count ≤ size) (res : FResult) (file : Fil)
    (c : Cursor) :
    ∀ e ∈ (readPixels res count file c).trace, ∃ n, e = .store n ∧ n ≤ size := by
  intro e he
  have hTrace : (readPixels res count file c).trace = [.store count] := rfl
  rw [hTrace, List.mem_singleton] at he
  exact ⟨count, he, h⟩

/-- Loading: the sides are those of the header, unless the file is refused, and what is asked for is
at most four bytes for each pixel. -/
theorem loadSystemCursor_spec (a : LoadAnswers) (bytes : List UInt8) (header bmiHeader : Mem) :
    ((a.fOpen ≠ .ok ∨ Mem.read16 (headerByte a bytes header) 2 ≠ 2)
        ∧ loadSystemCursor a bytes header bmiHeader .boot = pure .boot)
      ∨ (a.fOpen = .ok ∧ Mem.read16 (headerByte a bytes header) 2 = 2)
        ∧ (loadSystemCursor a bytes header bmiHeader .boot).val.width
            = side (headerByte a bytes header 6)
        ∧ (loadSystemCursor a bytes header bmiHeader .boot).val.height
            = side (headerByte a bytes header 7)
        ∧ ∀ e ∈ (loadSystemCursor a bytes header bmiHeader .boot).trace, ∃ n, e = .store n
            ∧ n ≤ side (headerByte a bytes header 6) * side (headerByte a bytes header 7) * 4 := by
  have hByte {i : Nat} (hi : i < 22) := fRead_header a bytes header hi
  have hType : Mem.read16 (fRead a.readHeader 22 { bytes, fptr := 0 } header).2 2
      = Mem.read16 (headerByte a bytes header) 2 := Mem.read16_congr fun i _ hi => hByte (by omega)
  unfold loadSystemCursor
  dsimp only
  rw [hType, hByte (by decide), hByte (by decide)]
  split
  · next hOpen => exact .inl ⟨.inl hOpen, rfl⟩
  next hOpen =>
  split
  · next hOther => exact .inl ⟨.inr hOther, rfl⟩
  next hCur =>
  refine .inr ⟨⟨not_not.mp hOpen, not_not.mp hCur⟩, ?_⟩
  split
  · exact ⟨rfl, rfl, readPixels_stores (Nat.le_refl _) _ _ _⟩
  split
  · exact ⟨rfl, rfl, readPixels_stores (Nat.mul_le_mul_left _ (by decide)) _ _ _⟩
  · exact ⟨rfl, rfl, by simp⟩

/-- Drawing: a cursor of at most 1024 pixels is read inside the buffer, wherever it is drawn. -/
theorem drawCustomCursor_inside {c : Cursor} (h : c.width * c.height ≤ 1024) (scr : Screen)
    (mouseX mouseY : BitVec 32) (bb : BackBuffer) :
    (drawCustomCursor scr mouseX mouseY c bb).All Access.Inside := by
  unfold drawCustomCursor
  split
  · exact all_pure _
  refine all_forTo (fun y hy bb => all_forTo (fun x hx bb => ?_) bb) bb
  have hIndex : (c.height - 1 - y) * c.width + x < c.width * c.height := index_lt hx (by omega)
  unfold drawPixel
  split
  · exact all_pure _
  simp only [pixelAt, all_bind, all_tell, all_pure, and_true, Access.Inside, cursorPixelsSize]
  refine ⟨by omega, by omega, by omega, by omega, ?_⟩
  split <;> exact all_pure _

/-- On a screen of 256 by 256, with the mouse on the hotspot, all of the cursor is drawn. -/
theorem drawCustomCursor_last {c : Cursor} (hWidth : 0 < c.width ∧ c.width ≤ 256)
    (hHeight : 0 < c.height ∧ c.height ≤ 256) (bb : BackBuffer) :
    .read (c.width * c.height * 4 - 1) ∈
      (drawCustomCursor ⟨256, 256⟩ (BitVec.ofNat 32 c.hotspotX) (BitVec.ofNat 32 c.hotspotY) c
        bb).trace := by
  have hCell : ((c.height - 1 - 0) * c.width + (c.width - 1)) * 4 + 3 = c.width * c.height * 4 - 1 := by
    obtain ⟨h, hEq⟩ : ∃ h, c.height = h + 1 := ⟨c.height - 1, by omega⟩
    have hRow : c.height - 1 - 0 = h := by omega
    rw [hRow, hEq, Nat.mul_succ c.width h, Nat.mul_comm h]
    omega
  have hOn : offScreen ⟨256, 256⟩
      (BitVec.ofNat 32 c.hotspotX - BitVec.ofNat 32 c.hotspotX + BitVec.ofNat 32 (c.width - 1))
      (BitVec.ofNat 32 c.hotspotY - BitVec.ofNat 32 c.hotspotY + BitVec.ofNat 32 0) = false := by
    have hX : (BitVec.ofNat 32 (c.width - 1)).toInt = (c.width - 1 : Nat) :=
      toInt_ofNat_of_lt (by omega)
    rw [BitVec.sub_self, BitVec.sub_self, BitVec.zero_add, BitVec.zero_add]
    have hSide : (256 : BitVec 32).toInt = 256 := by decide
    have hTop : (BitVec.ofNat 32 0).toInt = 0 := by decide
    simp only [offScreen, hX, hSide, hTop, Bool.or_eq_false_iff, decide_eq_false_iff_not]
    omega
  unfold drawCustomCursor
  rw [if_neg (by omega)]
  -- the last row of the bitmap is the first that is drawn
  refine mem_trace_forTo hHeight.1 (mem_trace_forTo (i := c.width - 1) (by omega) ?_)
  rw [drawPixel, hOn, ← hCell]
  simp [pixelAt]

-- ---------------------------------------------------------------------------
-- Main result
-- ---------------------------------------------------------------------------

/--
**When the system cursor stays in its buffer.** For every content of the file, whatever FatFs
answers and the local arrays hold: `load_system_cursor`, called at boot, asks for at most 4096 bytes,
and `draw_custom_cursor` then reads below index 4096 for every mouse position and screen, if and only
if the file is not opened, or its type is not 2, or bytes 6 and 7 of its header, where 0 stands for
256, have a product of at most 1024. Nothing checks that they have.
-/
theorem system_cursor_bounded_iff (a : LoadAnswers) (bytes : List UInt8) (header bmiHeader : Mem) :
    ((loadSystemCursor a bytes header bmiHeader .boot).All Access.Inside
      ∧ ∀ scr mouseX mouseY bb, (drawCustomCursor scr mouseX mouseY
          (loadSystemCursor a bytes header bmiHeader .boot).val bb).All Access.Inside)
    ↔ a.fOpen ≠ .ok ∨ Mem.read16 (headerByte a bytes header) 2 ≠ 2
      ∨ side (headerByte a bytes header 6) * side (headerByte a bytes header 7) ≤ 1024 := by
  rcases loadSystemCursor_spec a bytes header bmiHeader with
    ⟨hRefused, hLoad⟩ | ⟨⟨hOpen, hType⟩, hWidth, hHeight, hStores⟩
  · rw [hLoad, val_pure]
    exact iff_of_true ⟨all_pure _, drawCustomCursor_inside (by decide)⟩
      (hRefused.imp_right Or.inl)
  · rw [or_iff_right (not_not.mpr hOpen), or_iff_right (not_not.mpr hType)]
    constructor
    · rintro ⟨-, hDraw⟩
      have hLast := hDraw _ _ _ _ _ (drawCustomCursor_last (hWidth ▸ side_bounds _)
        (hHeight ▸ side_bounds _) fun _ => 0)
      simp only [Access.Inside, cursorPixelsSize, hWidth, hHeight] at hLast
      omega
    · intro hSize
      refine ⟨fun e he => ?_, drawCustomCursor_inside (by rw [hWidth, hHeight]; exact hSize)⟩
      obtain ⟨count, rfl, hCount⟩ := hStores e he
      exact hCount.trans (Nat.mul_le_mul_right 4 hSize)

/-- A file that declares 64 by 64 pixels of 32 bits. -/
def largeCursor : List UInt8 :=
  [0, 0, 2, 0, 1, 0, 64, 64, 0, 0, 0, 0, 0, 0, 0, 0, 0, 0, 22, 0, 0, 0] ++
    [40, 0, 0, 0, 64, 0, 0, 0, 128, 0, 0, 0, 1, 0, 32, 0] ++ List.replicate 24 0

/-- 16384 bytes are asked for. -/
theorem system_cursor_overruns :
    (loadSystemCursor { fOpen := .ok, readHeader := .ok, fLseek := .ok, readInfo := .ok, readPixels := .ok }
      largeCursor (fun _ => 0) (fun _ => 0) .boot).trace = [.store 16384]
      ∧ cursorPixelsSize = 4096 := by
  decide +kernel

end Nao.CursorLoader
