import Nao.CursorLoader.Definitions
import Nao.Lib.Bits
import Nao.Lib.Rows
import Nao.Lib.Writes

/-!
# The two cursor paths

A cursor file can reach the screen in two ways: loaded by `load_system_cursor` and drawn by
`draw_custom_cursor`, or parsed by `parse_cur_frame` and drawn by `ani_draw`. One keeps the rows as
they stand in the file and turns the picture over when it draws, the other turns it over when it
parses, with the padding of the rows taken out.

* `parseCurFrame_pixels`, `loadSystemCursor_pixels` — what the two loaders make of a valid file.
* `drawPixels_val` — the drawing loops as a list of writes to the back buffer.
* `cursor_paths_agree` — the two paths draw the same exactly if every pixel that is on the screen
  looks the same in both layouts; with 32 bits per pixel it does.
* `cursor_paths_differ` — with 24 bits it may not: `draw_custom_cursor` takes four bytes for a
  pixel whatever was loaded.
-/

namespace Nao.CursorLoader

open SysLib FatFs Idt Ani

-- ---------------------------------------------------------------------------
-- Cursor files
-- ---------------------------------------------------------------------------

/-- The bytes of a file by their offset. -/
def contents (bytes : List UInt8) : Mem := fun i => bytes.getD i 0

/-- The fields of the directory entry and of the info header. -/
def curWidth (bytes : List UInt8) : Nat := (contents bytes 6).toNat

def curHeight (bytes : List UInt8) : Nat := (contents bytes 7).toNat

def curHotspotX (bytes : List UInt8) : Nat := (contents bytes).read16 10

def curHotspotY (bytes : List UInt8) : Nat := (contents bytes).read16 12

def curDataOffset (bytes : List UInt8) : Nat := (contents bytes).read32 18

def curBpp (bytes : List UInt8) : Nat := (contents bytes).read16 (curDataOffset bytes + 14)

/-- A valid cursor file with at most 32 by 32 pixels (a size of 0 stands for 256), an info header
of 40 bytes, 24 or 32 bits per pixel, a small hotspot and all its rows. -/
structure ValidCur (bytes : List UInt8) : Prop where
  size     : bytes.length < 2 ^ 32
  entry    : 22 ≤ bytes.length
  type     : (contents bytes).read16 2 = 2
  width    : 0 < curWidth bytes ∧ curWidth bytes ≤ 32
  height   : 0 < curHeight bytes ∧ curHeight bytes ≤ 32
  hotspotX : curHotspotX bytes < 2 ^ 15
  hotspotY : curHotspotY bytes < 2 ^ 15
  info     : (contents bytes).read32 (curDataOffset bytes) = 40
  depth    : curBpp bytes = 24 ∨ curBpp bytes = 32
  rows     : curDataOffset bytes + 40 + rowStride (curWidth bytes) (curBpp bytes) * curHeight bytes ≤
    bytes.length

instance (bytes : List UInt8) : Decidable (ValidCur bytes) :=
  decidable_of_iff
    (bytes.length < 2 ^ 32 ∧ 22 ≤ bytes.length ∧ (contents bytes).read16 2 = 2 ∧
      (0 < curWidth bytes ∧ curWidth bytes ≤ 32) ∧ (0 < curHeight bytes ∧ curHeight bytes ≤ 32) ∧
      curHotspotX bytes < 2 ^ 15 ∧ curHotspotY bytes < 2 ^ 15 ∧
      (contents bytes).read32 (curDataOffset bytes) = 40 ∧ (curBpp bytes = 24 ∨ curBpp bytes = 32) ∧
      curDataOffset bytes + 40 + rowStride (curWidth bytes) (curBpp bytes) * curHeight bytes ≤
        bytes.length)
    ⟨fun ⟨a, b, c, d, e, f, g, h, i, j⟩ => ⟨a, b, c, d, e, f, g, h, i, j⟩,
      fun ⟨a, b, c, d, e, f, g, h, i, j⟩ => ⟨a, b, c, d, e, f, g, h, i, j⟩⟩

-- ---------------------------------------------------------------------------
-- parse_cur_frame
-- ---------------------------------------------------------------------------

section Parse

variable {f : File} (hSize : f.size < 2 ^ 32)

include hSize

theorem fileData_val {i : Nat} (hi : i < f.size) : (fileData f i).val = contents f.bytes i := by
  show f.get (i % 2 ^ 32) = _
  rw [Nat.mod_eq_of_lt (by omega), File.get, contents, List.getD_eq_getElem _ _ hi,
    List.getD_eq_getElem _ _ hi]

theorem readLe16_val {i : Nat} (hi : i + 2 ≤ f.size) :
    (readLe16 f i).val = (contents f.bytes).read16 i := by
  simp only [readLe16, Traced.val_bind, Traced.val_pure]
  rw [fileData_val hSize (by omega), fileData_val hSize (by omega), Mem.read16]
  rfl

theorem readLe32_val {i : Nat} (hi : i + 4 ≤ f.size) :
    (readLe32 f i).val = (contents f.bytes).read32 i := by
  simp only [readLe32, Traced.val_bind, Traced.val_pure]
  rw [fileData_val hSize (by omega), fileData_val hSize (by omega), fileData_val hSize (by omega),
    fileData_val hSize (by omega), Mem.read32, Mem.read16, Mem.read16,
    Nat.add_assoc i 2 1]
  omega

end Parse

theorem toInt16_of_lt {w : Nat} (h : w < 2 ^ 15) : toInt16 w = w := if_pos h

/-- The 0 that stands for 256 does not concern a valid file. -/
theorem side_ne_zero {b : UInt8} (h : 0 < b.toNat ∧ b.toNat ≤ 32) : side b = b.toNat :=
  if_pos (by rintro rfl; simp at h)

/-- Nor does the clipping to 32. -/
theorem side_eq {b : UInt8} (h : 0 < b.toNat ∧ b.toNat ≤ 32) : min (side b) 32 = b.toNat := by
  rw [side_ne_zero h]
  omega

/-- What `parse_cur_frame` reads of a cursor before it comes to the pixels. -/
structure CurHeader where
  width      : Nat
  height     : Nat
  hotspotX   : Nat
  hotspotY   : Nat
  dataOffset : Nat
  infoSize   : Nat
  bpp        : Nat

/-- The cursor of `curSize` bytes at `cur` has this header, with a size and a hotspot that are not
changed by the parser, and is long enough for all its rows. -/
structure CurHeader.FoundAt (hd : CurHeader) (f : File) (cur curSize : Nat) : Prop where
  size     : curSize < 2 ^ 32
  entry    : 22 ≤ curSize
  type     : (readLe16 f (cur + 2)).val = 2
  width    : (fileData f (cur + 6)).val.toNat = hd.width
  height   : (fileData f (cur + 7)).val.toNat = hd.height
  sides    : (0 < hd.width ∧ hd.width ≤ 32) ∧ 0 < hd.height ∧ hd.height ≤ 32
  hotspotX : (readLe16 f (cur + 10)).val = hd.hotspotX
  hotspotY : (readLe16 f (cur + 12)).val = hd.hotspotY
  hotspot  : hd.hotspotX < 2 ^ 15 ∧ hd.hotspotY < 2 ^ 15
  offset   : (readLe32 f (cur + 18)).val = hd.dataOffset
  info     : (readLe32 f (cur + hd.dataOffset)).val = hd.infoSize
  infoSize : 40 ≤ hd.infoSize
  depth    : (readLe16 f (cur + hd.dataOffset + 14)).val = hd.bpp
  rows     : hd.dataOffset + hd.infoSize + rowStride hd.width hd.bpp * hd.height ≤ curSize

section FoundAt

variable {hd : CurHeader} {f : File} {cur curSize : Nat}

/-- The bitmap is accepted. -/
theorem parseDib_found (h : hd.FoundAt f cur curSize) {frame : Frame} (hWidth : frame.width = hd.width)
    (hHeight : frame.height = hd.height) :
    (parseDib f cur curSize hd.dataOffset frame).val =
      (decodePixels f (cur + (hd.dataOffset + hd.infoSize)) (rowStride hd.width hd.bpp) hd.bpp
        frame).val := by
  have hSize := h.size
  have hRows := h.rows
  have hInfo := h.infoSize
  have hStart : (hd.dataOffset + hd.infoSize) % 2 ^ 32 = hd.dataOffset + hd.infoSize :=
    Nat.mod_eq_of_lt (by omega)
  have hEnd : (hd.dataOffset + hd.infoSize + rowStride hd.width hd.bpp * hd.height) % 2 ^ 32 ≤ curSize :=
    (Nat.mod_le _ _).trans hRows
  have hForty : (hd.dataOffset + 40) % 2 ^ 32 ≤ curSize := (Nat.mod_le _ _).trans (by omega)
  rw [parseDib, if_neg (Nat.not_lt.mpr hForty), Traced.val_bind, h.info, if_neg (by omega),
    Traced.val_bind, h.depth]
  dsimp only
  rw [hStart, hWidth, hHeight, if_neg (by omega), if_neg (Nat.not_lt.mpr hEnd)]

/-- `parse_cur_frame` accepts the cursor and comes to its pixels. -/
theorem parseCurFrame_found (h : hd.FoundAt f cur curSize) (frame : Frame) :
    (parseCurFrame f cur curSize frame).val =
      (decodePixels f (cur + (hd.dataOffset + hd.infoSize)) (rowStride hd.width hd.bpp) hd.bpp
        { frame with
          width := hd.width, height := hd.height
          hotspotX := hd.hotspotX, hotspotY := hd.hotspotY }).val := by
  have hEntry := h.entry
  have hWidth : min (side (fileData f (cur + 6)).val) aniMaxCursorW = hd.width :=
    (side_eq (h.width ▸ h.sides.1)).trans h.width
  have hHeight : min (side (fileData f (cur + 7)).val) aniMaxCursorH = hd.height :=
    (side_eq (h.height ▸ h.sides.2)).trans h.height
  rw [parseCurFrame, if_neg (by omega), Traced.val_bind, h.type]
  rw [if_neg (by decide)]
  simp only [Traced.val_bind, h.offset, h.hotspotX, h.hotspotY, toInt16_of_lt h.hotspot.1,
    toInt16_of_lt h.hotspot.2]
  rw [hWidth, hHeight, parseDib_found h rfl rfl]

end FoundAt

/-- The header of a valid file. -/
def curHeader (bytes : List UInt8) : CurHeader :=
  { width := curWidth bytes, height := curHeight bytes, hotspotX := curHotspotX bytes
    hotspotY := curHotspotY bytes, dataOffset := curDataOffset bytes, infoSize := 40
    bpp := curBpp bytes }

theorem ValidCur.found {f : File} (h : ValidCur f.bytes) : (curHeader f.bytes).FoundAt f 0 f.size := by
  have hSize : f.size < 2 ^ 32 := h.size
  have hEntry : 22 ≤ f.size := h.entry
  have hRows : curDataOffset f.bytes + 40 +
      rowStride (curWidth f.bytes) (curBpp f.bytes) * curHeight f.bytes ≤ f.size := h.rows
  exact
    { size := hSize
      entry := hEntry
      type := (readLe16_val hSize (by omega)).trans h.type
      width := congrArg UInt8.toNat (fileData_val hSize (by omega))
      height := congrArg UInt8.toNat (fileData_val hSize (by omega))
      sides := ⟨h.width, h.height⟩
      hotspotX := readLe16_val hSize (by omega)
      hotspotY := readLe16_val hSize (by omega)
      hotspot := ⟨h.hotspotX, h.hotspotY⟩
      offset := readLe32_val hSize (by omega)
      info := by
        rw [Nat.zero_add]
        exact (readLe32_val hSize (show curDataOffset f.bytes + 4 ≤ f.size by omega)).trans h.info
      infoSize := Nat.le_refl _
      depth := by
        rw [Nat.zero_add]
        exact readLe16_val hSize (show curDataOffset f.bytes + 14 + 2 ≤ f.size by omega)
      rows := hRows }

/-- `parse_cur_frame` accepts a valid file and comes to its pixels. -/
theorem parseCurFrame_valid {f : File} (h : ValidCur f.bytes) (frame : Frame) :
    (parseCurFrame f 0 f.size frame).val =
      (decodePixels f (curDataOffset f.bytes + 40) (rowStride (curWidth f.bytes) (curBpp f.bytes))
        (curBpp f.bytes)
        { frame with
          width := curWidth f.bytes, height := curHeight f.bytes
          hotspotX := curHotspotX f.bytes, hotspotY := curHotspotY f.bytes }).val := by
  rw [parseCurFrame_found h.found, Nat.zero_add]
  rfl

/-- A turn of the copying loops: the pixel at `src` of the file to `dst`. -/
def copyPixel (f : File) (alpha : Nat → Traced Ani.Event UInt8) (src dst : Nat) (px : Mem) :
    Traced Ani.Event Mem := do
  let px ← setPixel px dst (← fileData f src)
  let px ← setPixel px (dst + 1) (← fileData f (src + 1))
  let px ← setPixel px (dst + 2) (← fileData f (src + 2))
  setPixel px (dst + 3) (← alpha src)

/-- Byte `k` of the pixel at `src` of the file. -/
def pixelByte (f : File) (alpha : Nat → Traced Ani.Event UInt8) (src k : Nat) : UInt8 :=
  if k = 3 then (alpha src).val else (fileData f (src + k)).val

section CopyPixels

variable {f : File} {start stride cw ch width : Nat} {alpha : Nat → Traced Ani.Event UInt8}

theorem copyPixel_of_lt {src dst p : Nat} (px : Mem) (hp : p < dst) :
    (copyPixel f alpha src dst px).val p = px p := by
  simp only [copyPixel, setPixel, Traced.val_bind, Traced.val_pure]
  rw [Mem.write8_of_ne _ _ (by omega), Mem.write8_of_ne _ _ (by omega),
    Mem.write8_of_ne _ _ (by omega), Mem.write8_of_ne _ _ (by omega)]

theorem copyPixel_byte (src dst : Nat) (px : Mem) {k : Nat} (hk : k < 4) :
    (copyPixel f alpha src dst px).val (dst + k) = pixelByte f alpha src k := by
  simp only [copyPixel, setPixel, Traced.val_bind, Traced.val_pure]
  match k with
  | 0 =>
    rw [Mem.write8_of_ne _ _ (by omega), Mem.write8_of_ne _ _ (by omega),
      Mem.write8_of_ne _ _ (by omega)]
    exact Mem.write8_same ..
  | 1 =>
    rw [Mem.write8_of_ne _ _ (by omega), Mem.write8_of_ne _ _ (by omega)]
    exact Mem.write8_same ..
  | 2 =>
    rw [Mem.write8_of_ne _ _ (by omega)]
    exact Mem.write8_same ..
  | 3 => exact Mem.write8_same ..

/-- What the copying loops leave in cell `p`: the row and the column of its pixel give the place
in the file. -/
def copied (f : File) (start stride cw ch width : Nat) (alpha : Nat → Traced Ani.Event UInt8)
    (p : Nat) : UInt8 :=
  pixelByte f alpha (start + (ch - 1 - p / 4 / cw) * stride + p / 4 % cw * width) (p % 4)

theorem copied_pixel {x : Nat} (hx : x < cw) (y : Nat) {k : Nat} (hk : k < 4) :
    copied f start stride cw ch width alpha ((y * cw + x) * 4 + k) =
      pixelByte f alpha (start + (ch - 1 - y) * stride + x * width) k := by
  have hPixel : ((y * cw + x) * 4 + k) / 4 = y * cw + x := by omega
  have hByte : ((y * cw + x) * 4 + k) % 4 = k := by omega
  have hRow : (y * cw + x) / cw = y := by
    rw [Nat.mul_comm, Nat.mul_add_div (by omega), Nat.div_eq_of_lt hx, Nat.add_zero]
  have hColumn : (y * cw + x) % cw = x := by
    rw [Nat.mul_comm, Nat.mul_add_mod, Nat.mod_eq_of_lt hx]
  rw [copied, hPixel, hByte, hRow, hColumn]

/-- The copying loops fill the array from its start on, pixel by pixel. -/
theorem copyPixels_val (px : Mem) : ∀ p < ch * cw * 4,
    (copyPixels f start stride cw ch width alpha px).val p =
      copied f start stride cw ch width alpha p := by
  let done (n : Nat) (px : Mem) : Prop := ∀ p < n, px p = copied f start stride cw ch width alpha p
  refine Traced.forTo_invariant (fun y px => done (y * cw * 4) px) (fun p hp => by omega) ?_
  intro y px _ hRows
  have hRow : done ((y * cw + cw) * 4) (Traced.forTo (fun x px => copyPixel f alpha
      (start + (ch - 1 - y) * stride + x * width) ((y * cw + x) * 4) px) cw px).val := by
    refine Traced.forTo_invariant (fun x px => done ((y * cw + x) * 4) px) hRows ?_
    intro x px hx hDone p hp
    rcases Nat.lt_or_ge p ((y * cw + x) * 4) with hOld | hNew
    · rw [copyPixel_of_lt _ hOld, hDone p hOld]
    · obtain ⟨k, rfl⟩ := Nat.exists_eq_add_of_le hNew
      rw [copyPixel_byte _ _ _ (by omega), copied_pixel hx y (by omega)]
  rwa [← Nat.succ_mul] at hRow

end CopyPixels

/-- Byte `k` of the pixel in row `y`, column `x` as `parse_cur_frame` finds it: the rows stand in the
file from below and padded, and with 24 bits a pixel has no alpha. -/
def frameByte (bytes : List UInt8) (y x k : Nat) : UInt8 :=
  if curBpp bytes = 24 ∧ k = 3 then 255
  else contents bytes (curDataOffset bytes + 40
    + (curHeight bytes - 1 - y) * rowStride (curWidth bytes) (curBpp bytes)
    + x * (curBpp bytes / 8) + k)

theorem rowStride_32 (cw : Nat) : rowStride cw 32 = cw * 4 := by
  simp only [rowStride]
  omega

/-- A row has room for its pixels. -/
theorem le_rowStride {bpp : Nat} (hBpp : bpp = 24 ∨ bpp = 32) (cw : Nat) :
    cw * (bpp / 8) ≤ rowStride cw bpp := by
  rcases hBpp with rfl | rfl <;>
  · simp only [rowStride]
    omega

/-- Every byte of the bitmap is inside the file. -/
theorem ValidCur.inside {bytes : List UInt8} (h : ValidCur bytes) {y x k : Nat}
    (hy : y < curHeight bytes) (hx : x < curWidth bytes) (hk : k < curBpp bytes / 8) :
    curDataOffset bytes + 40 + (curHeight bytes - 1 - y) * rowStride (curWidth bytes) (curBpp bytes)
      + x * (curBpp bytes / 8) + k < bytes.length := by
  have hRows := h.rows
  have hPixel : (x + 1) * (curBpp bytes / 8) ≤ curWidth bytes * (curBpp bytes / 8) :=
    Nat.mul_le_mul_right _ hx
  have hRow := row_le (hPixel.trans (le_rowStride h.depth _))
    (show curHeight bytes - 1 - y < curHeight bytes by omega)
  rw [Nat.succ_mul] at hRow
  omega

/-- What `parse_cur_frame` makes of a valid file. -/
theorem parseCurFrame_pixels {f : File} (h : ValidCur f.bytes) (frame : Frame) :
    ∃ px, (parseCurFrame f 0 f.size frame).val = (true, { frame with
        width := curWidth f.bytes, height := curHeight f.bytes
        hotspotX := curHotspotX f.bytes, hotspotY := curHotspotY f.bytes, pixels := px }) ∧
      ∀ y x k, y < curHeight f.bytes → x < curWidth f.bytes → k < 4 →
        px ((y * curWidth f.bytes + x) * 4 + k) = frameByte f.bytes y x k := by
  have hInside {y x k : Nat} (hy : y < curHeight f.bytes) (hx : x < curWidth f.bytes)
      (hk : k < curBpp f.bytes / 8) := fileData_val h.size (h.inside hy hx hk)
  have hCell {y x k : Nat} (hy : y < curHeight f.bytes) (hx : x < curWidth f.bytes) (hk : k < 4) :
      (y * curWidth f.bytes + x) * 4 + k < curHeight f.bytes * curWidth f.bytes * 4 := by
    have hIndex := index_lt hx hy
    rw [Nat.mul_comm (curHeight f.bytes)]
    omega
  rw [parseCurFrame_valid h]
  rcases h.depth with hBpp | hBpp
  · rw [hBpp] at hInside ⊢
    refine ⟨_, rfl, ?_⟩
    intro y x k hy hx hk
    rw [copyPixels_val _ _ (hCell hy hx hk), copied_pixel hx y hk, pixelByte, frameByte, hBpp]
    split
    · next hAlpha => rw [if_pos ⟨rfl, hAlpha⟩, Traced.val_pure]
    · next hColour => rw [if_neg (fun h => hColour h.2), hInside hy hx (by omega)]
  · rw [hBpp] at hInside ⊢
    refine ⟨_, rfl, ?_⟩
    intro y x k hy hx hk
    have hByte : pixelByte f (fun src => fileData f (src + 3)) (curDataOffset f.bytes + 40
          + (curHeight f.bytes - 1 - y) * rowStride (curWidth f.bytes) 32 + x * 4) k
        = (fileData f (curDataOffset f.bytes + 40
          + (curHeight f.bytes - 1 - y) * rowStride (curWidth f.bytes) 32 + x * 4 + k)).val := by
      rw [pixelByte]
      split
      · next hAlpha => rw [hAlpha]
      · rfl
    rw [copyPixels_val _ _ (hCell hy hx hk), copied_pixel hx y hk, hByte, hInside hy hx hk, frameByte,
      hBpp, if_neg (by omega)]

-- ---------------------------------------------------------------------------
-- load_system_cursor
-- ---------------------------------------------------------------------------

/-- No call fails. -/
def LoadAnswers.smooth : LoadAnswers :=
  { fOpen := .ok, readHeader := .ok, fLseek := .ok, readInfo := .ok, readPixels := .ok }

/-- A read inside the file. -/
theorem fRead_spec (fp : Fil) (btr : Nat) (buffer : Mem) (h : fp.fptr + btr ≤ fp.bytes.length) :
    ∃ m, fRead .ok btr fp buffer = ({ fp with fptr := fp.fptr + btr }, m) ∧
      ∀ i, m i = if i < btr then contents fp.bytes (fp.fptr + i) else buffer i := by
  have hLen : ((fp.bytes.drop fp.fptr).take btr).length = btr := by
    rw [List.length_take, List.length_drop]
    omega
  refine ⟨buffer.blit 0 ((fp.bytes.drop fp.fptr).take btr), ?_, ?_⟩
  · rw [fRead, if_pos rfl]
    dsimp only
    rw [hLen]
  · intro i
    split
    · next hi =>
      have hByte := Mem.blit_apply buffer 0 ((fp.bytes.drop fp.fptr).take btr) (hLen ▸ hi)
      rw [Nat.zero_add] at hByte
      rw [hByte, List.getElem_take, List.getElem_drop, contents, List.getD_eq_getElem]
    · next hi => exact Mem.blit_of_disjoint _ _ (.inr (by omega))

/-- Cell `i` of `cursor_pixels` once a valid file is loaded: as many bytes of the bitmap as the depth
asks for, as they stand; `old` is what the array held. -/
def arrowByte (bytes : List UInt8) (old : Mem) (i : Nat) : UInt8 :=
  if i < curWidth bytes * curHeight bytes * (curBpp bytes / 8) then
    contents bytes (curDataOffset bytes + 40 + i)
  else old i

/-- The fields of the directory entry in an array that holds it. -/
theorem ValidCur.entry_fields {bytes : List UInt8} (h : ValidCur bytes) {hdr : Mem}
    (hByte : ∀ i < 22, hdr i = contents bytes i) :
    hdr.read16 2 = 2 ∧ side (hdr 6) = curWidth bytes ∧ side (hdr 7) = curHeight bytes
      ∧ hdr.read16 10 = curHotspotX bytes ∧ hdr.read16 12 = curHotspotY bytes
      ∧ hdr.read32 18 = curDataOffset bytes := by
  refine ⟨(Mem.read16_congr fun i _ hi => hByte i (by omega)).trans h.type, ?_, ?_,
    Mem.read16_congr fun i _ hi => hByte i (by omega),
    Mem.read16_congr fun i _ hi => hByte i (by omega),
    Mem.read32_congr fun i _ hi => hByte i (by omega)⟩
  · rw [hByte 6 (by decide)]
    exact side_ne_zero h.width
  · rw [hByte 7 (by decide)]
    exact side_ne_zero h.height

/-- What `load_system_cursor` makes of a valid file. -/
theorem loadSystemCursor_pixels {bytes : List UInt8} (h : ValidCur bytes) (header bmiHeader : Mem)
    (c : Cursor) :
    (loadSystemCursor .smooth bytes header bmiHeader c).val =
      { pixels := arrowByte bytes c.pixels, width := curWidth bytes, height := curHeight bytes
        hotspotX := curHotspotX bytes, hotspotY := curHotspotY bytes } := by
  have hEntry := h.entry
  have hRows : curDataOffset bytes + 40 + curWidth bytes * curHeight bytes * (curBpp bytes / 8)
      ≤ bytes.length := by
    have hRow := Nat.mul_le_mul_right (curHeight bytes) (le_rowStride h.depth (curWidth bytes))
    rw [Nat.mul_right_comm] at hRow
    exact (Nat.add_le_add_left hRow _).trans h.rows
  have hInside : curDataOffset bytes + 40 ≤ bytes.length := by omega
  obtain ⟨hdr, hHdr, hHdrByte⟩ := fRead_spec ⟨bytes, 0⟩ 22 header (by rwa [Nat.zero_add])
  obtain ⟨info, hInfo, hInfoByte⟩ := fRead_spec ⟨bytes, curDataOffset bytes⟩ 40 bmiHeader hInside
  obtain ⟨px, hPx, hPxByte⟩ := fRead_spec ⟨bytes, curDataOffset bytes + 40⟩
    (curWidth bytes * curHeight bytes * (curBpp bytes / 8)) c.pixels hRows
  simp only [Nat.zero_add] at hHdr
  have hEntryByte (i : Nat) (hi : i < 22) : hdr i = contents bytes i := by
    rw [hHdrByte, if_pos hi, Nat.zero_add]
  obtain ⟨hType, hWidth, hHeight, hX, hY, hOffset⟩ := h.entry_fields hEntryByte
  have hDepth : info.read16 14 = curBpp bytes := by
    rw [Mem.read16, hInfoByte, hInfoByte, if_pos (by decide), if_pos (by decide)]
    rfl
  have hSeek : fLseek .ok (curDataOffset bytes) ⟨bytes, 22⟩ = ⟨bytes, curDataOffset bytes⟩ := by
    rw [fLseek, if_pos rfl, Nat.min_eq_left (Nat.le_of_add_right_le hInside)]
  obtain rfl : px = arrowByte bytes c.pixels := funext hPxByte
  unfold loadSystemCursor
  simp only [LoadAnswers.smooth, ne_eq, not_true_eq_false, if_false, hHdr, hType, hOffset, hSeek,
    hInfo, hDepth, hX, hY]
  rcases h.depth with hBpp | hBpp
  · rw [hBpp] at hPx ⊢
    rw [if_neg (by decide), if_pos rfl, readPixels, Traced.val_bind, Traced.val_pure]
    rw [hWidth, hHeight, hPx]
  · rw [hBpp] at hPx ⊢
    rw [if_pos rfl, readPixels, Traced.val_bind, Traced.val_pure]
    rw [hWidth, hHeight, hPx]

-- ---------------------------------------------------------------------------
-- Drawing
-- ---------------------------------------------------------------------------

/-- What the drawing loops write for a pixel with these bytes, if anything. -/
def shown (byte : Nat → UInt8) : Option (BitVec 32) :=
  if (byte 2 = 255 ∧ byte 1 = 0 ∧ byte 0 = 255) ∨ byte 3 = 0 then none
  else some (rgb (byte 2) (byte 1) (byte 0))

/-- Only the four bytes of the pixel matter. -/
theorem shown_congr {byte byte' : Nat → UInt8} (h : ∀ k, k < 4 → byte k = byte' k) :
    shown byte = shown byte' := by
  unfold shown
  rw [h 0 (by decide), h 1 (by decide), h 2 (by decide), h 3 (by decide)]

/-- A turn of the drawing loops, as a write. -/
def pixelWrite (scr : Screen) (scrX scrY : BitVec 32) (byte : Nat → UInt8) :
    Option (BitVec 32 × BitVec 32) :=
  if offScreen scr scrX scrY then none else (shown byte).map (Prod.mk (scrY * scr.width + scrX))

theorem drawPixel_val (scr : Screen) (pixels : Mem) (idx : Nat) (scrX scrY : BitVec 32)
    (bb : BackBuffer) :
    (drawPixel scr pixels idx scrX scrY bb).val
      = applyWrites bb (pixelWrite scr scrX scrY fun k => pixels (idx + k)).toList := by
  unfold drawPixel pixelWrite shown
  split
  · rfl
  simp only [pixelAt, Traced.val_bind, Traced.val_pure]
  split <;> rfl

/-- The writes of the drawing loops, in their order; `byte y x` are the bytes of a pixel. -/
def drawWrites (scr : Screen) (startX startY : BitVec 32) (width height : Nat)
    (byte : Nat → Nat → Nat → UInt8) : List (BitVec 32 × BitVec 32) :=
  (List.range height).flatMap fun y => (List.range width).flatMap fun x =>
    (pixelWrite scr (startX + BitVec.ofNat 32 x) (startY + BitVec.ofNat 32 y) (byte y x)).toList

theorem drawPixels_val (scr : Screen) (startX startY : BitVec 32) (width height : Nat)
    (idx : Nat → Nat → Nat) (pixels : Mem) (bb : BackBuffer) :
    (drawPixels scr startX startY width height idx pixels bb).val
      = applyWrites bb
          (drawWrites scr startX startY width height fun y x k => pixels (idx y x + k)) := by
  simp only [drawPixels, Traced.val_forTo, drawPixel_val, drawWrites, applyWrites, List.foldl_flatMap]

section DrawWrites

variable {scr : Screen} {startX startY : BitVec 32} {width height : Nat}
  {byte byte' : Nat → Nat → Nat → UInt8}

/-- The writes depend on how the pixels on the screen look. -/
theorem drawWrites_congr (h : ∀ y < height, ∀ x < width,
      offScreen scr (startX + BitVec.ofNat 32 x) (startY + BitVec.ofNat 32 y) = false →
      shown (byte y x) = shown (byte' y x)) :
    drawWrites scr startX startY width height byte
      = drawWrites scr startX startY width height byte' := by
  refine List.flatMap_congr fun y hy => List.flatMap_congr fun x hx => ?_
  unfold pixelWrite
  split
  · rfl
  · next hOn =>
    rw [h y (List.mem_range.mp hy) x (List.mem_range.mp hx) (Bool.eq_false_of_not_eq_true hOn)]

theorem mem_drawWrites {cell colour : BitVec 32} :
    (cell, colour) ∈ drawWrites scr startX startY width height byte ↔
      ∃ y x, y < height ∧ x < width
        ∧ offScreen scr (startX + BitVec.ofNat 32 x) (startY + BitVec.ofNat 32 y) = false
        ∧ shown (byte y x) = some colour
        ∧ (startY + BitVec.ofNat 32 y) * scr.width + (startX + BitVec.ofNat 32 x) = cell := by
  simp only [drawWrites, pixelWrite, List.mem_flatMap, List.mem_range, Option.mem_toList]
  constructor
  · rintro ⟨y, hy, x, hx, hWrite⟩
    split at hWrite
    · cases hWrite
    · next hOn =>
      obtain ⟨colour', hShown, hPair⟩ := Option.map_eq_some_iff.mp hWrite
      cases hPair
      exact ⟨y, x, hy, hx, Bool.eq_false_of_not_eq_true hOn, hShown, rfl⟩
  · rintro ⟨y, x, hy, hx, hOn, hShown, rfl⟩
    exact ⟨y, hy, x, hx, by rw [if_neg (by rw [hOn]; decide), hShown]; rfl⟩

/-- A position on the screen, in natural numbers. -/
theorem toNat_lt_of_onScreen {scrX scrY : BitVec 32} (h : offScreen scr scrX scrY = false) :
    scrX.toNat < scr.width.toNat ∧ scrY.toNat < scr.height.toNat := by
  simp only [offScreen, Bool.or_eq_false_iff, decide_eq_false_iff_not, Int.not_lt, Int.not_le] at h
  obtain ⟨⟨⟨hX, hXw⟩, hY⟩, hYh⟩ := h
  have hW := (toInt_of_nonneg (hX.trans (Int.le_of_lt hXw))).1
  have hH := (toInt_of_nonneg (hY.trans (Int.le_of_lt hYh))).1
  have hX' := (toInt_of_nonneg hX).1
  have hY' := (toInt_of_nonneg hY).1
  omega

/-- On a screen whose cells have 32-bit indices, a cell is known by its index. -/
theorem cell_inj (hScr : scr.width.toNat * scr.height.toNat ≤ 2 ^ 32) {X Y X' Y' : BitVec 32}
    (h : offScreen scr X Y = false) (h' : offScreen scr X' Y' = false)
    (hCell : Y * scr.width + X = Y' * scr.width + X') : X = X' ∧ Y = Y' := by
  have hIndex {X Y : BitVec 32} (h : offScreen scr X Y = false) :
      (Y * scr.width + X).toNat = Y.toNat * scr.width.toNat + X.toNat := by
    obtain ⟨hX, hY⟩ := toNat_lt_of_onScreen h
    have hLt := index_lt hX hY
    rw [BitVec.toNat_add, BitVec.toNat_mul, Nat.mod_add_mod, Nat.mod_eq_of_lt (by omega)]
  have hNat := congrArg BitVec.toNat hCell
  rw [hIndex h, hIndex h'] at hNat
  obtain ⟨hX, hY⟩ := index_inj (toNat_lt_of_onScreen h).1 (toNat_lt_of_onScreen h').1 hNat
  exact ⟨BitVec.eq_of_toNat_eq hX, BitVec.eq_of_toNat_eq hY⟩

/-- What a cell holds afterwards is decided by its own pixel. -/
theorem drawWrites_apply (hScr : scr.width.toNat * scr.height.toNat ≤ 2 ^ 32) (hWidth : width ≤ 32)
    (hHeight : height ≤ 32) {y x : Nat} (hy : y < height) (hx : x < width)
    (hOn : offScreen scr (startX + BitVec.ofNat 32 x) (startY + BitVec.ofNat 32 y) = false)
    (bb : BackBuffer) :
    applyWrites bb (drawWrites scr startX startY width height byte)
        ((startY + BitVec.ofNat 32 y) * scr.width + (startX + BitVec.ofNat 32 x))
      = (shown (byte y x)).getD
          (bb ((startY + BitVec.ofNat 32 y) * scr.width + (startX + BitVec.ofNat 32 x))) := by
  have hOwn {colour : BitVec 32}
      (hMem : ((startY + BitVec.ofNat 32 y) * scr.width + (startX + BitVec.ofNat 32 x), colour)
        ∈ drawWrites scr startX startY width height byte) : shown (byte y x) = some colour := by
    obtain ⟨y', x', hy', hx', hOn', hShown, hCell⟩ := mem_drawWrites.mp hMem
    obtain ⟨hX, hY⟩ := cell_inj hScr hOn' hOn hCell
    obtain rfl : x' = x := by bv_omega
    obtain rfl : y' = y := by bv_omega
    exact hShown
  cases hShown : shown (byte y x) with
  | none =>
    refine applyWrites_of_not_mem fun hMem => ?_
    obtain ⟨⟨cell, colour⟩, hWrite, rfl⟩ := List.mem_map.mp hMem
    cases hShown.symm.trans (hOwn hWrite)
  | some colour =>
    refine applyWrites_of_unique (mem_drawWrites.mpr ⟨y, x, hy, hx, hOn, hShown, rfl⟩) fun b hb => ?_
    exact Option.some.inj ((hOwn hb).symm.trans hShown)

end DrawWrites

/-- The upper byte of a colour is 0. -/
theorem shown_ne {byte : Nat → UInt8} : shown byte ≠ some 0xFFFFFFFF := by
  unfold shown
  split
  · simp
  · intro h
    have hByte := congrArg (·.getLsbD 31) (Option.some.inj h)
    revert hByte
    simp [rgb]

theorem eq_of_getD_eq {α : Type*} {o o' : Option α} {d : α} (h : o ≠ some d) (h' : o' ≠ some d)
    (hEq : o.getD d = o'.getD d) : o = o' := by
  cases o <;> cases o' <;> simp_all [eq_comm]

-- ---------------------------------------------------------------------------
-- The two paths
-- ---------------------------------------------------------------------------

/-- Every pixel of the file that is on the screen, with the mouse at `(mX, mY)`, looks the same as
`parse_cur_frame` finds it and in `cursor_pixels`, which held `old` before. -/
def SameLook (bytes : List UInt8) (old : Mem) (scr : Screen) (mX mY : BitVec 32) : Prop :=
  ∀ y < curHeight bytes, ∀ x < curWidth bytes,
    offScreen scr (mX - BitVec.ofNat 32 (curHotspotX bytes) + BitVec.ofNat 32 x)
      (mY - BitVec.ofNat 32 (curHotspotY bytes) + BitVec.ofNat 32 y) = false →
    shown (frameByte bytes y x)
      = shown fun k => arrowByte bytes old (((curHeight bytes - 1 - y) * curWidth bytes + x) * 4 + k)

instance (bytes : List UInt8) (old : Mem) (scr : Screen) (mX mY : BitVec 32) :
    Decidable (SameLook bytes old scr mX mY) :=
  inferInstanceAs (Decidable (∀ y < curHeight bytes, ∀ x < curWidth bytes, _ → _))

/-- With 32 bits the rows have no padding and the pixels have an alpha. -/
theorem sameLook_32 {bytes : List UInt8} (hBpp : curBpp bytes = 32) (old : Mem) (scr : Screen)
    (mX mY : BitVec 32) : SameLook bytes old scr mX mY := by
  intro y hy x hx _
  refine shown_congr fun k hk => ?_
  have hIndex : (curHeight bytes - 1 - y) * curWidth bytes + x < curWidth bytes * curHeight bytes :=
    index_lt hx (by omega)
  rw [frameByte, arrowByte, hBpp, rowStride_32, if_neg (by omega), if_pos (by omega), Nat.add_mul,
    Nat.mul_assoc]
  congr 1
  omega

/--
**When the two cursor paths agree.** For every valid cursor file, every mouse position and every
screen, `parse_cur_frame` accepts the file. `ani_draw` with its frame current and
`load_system_cursor` followed by `draw_custom_cursor` leave the same back buffer, whatever was in the
frame, the arrow, the local arrays and the back buffer before, if every pixel on the screen looks the
same in both layouts; and only if, on a screen whose cells have 32-bit indices. With 32 bits per pixel
they always do.
-/
theorem cursor_paths_agree {bytes : List UInt8} (h : ValidCur bytes) (outside : Nat → UInt8)
    (frame : Frame) {ani : Ani.State} (hActive : ani.active = true) (hCount : 0 < ani.frameCount)
    (hCurrent : ani.frames ani.currentFrame =
      (parseCurFrame ⟨bytes, outside⟩ 0 bytes.length frame).val.2)
    (header bmiHeader : Mem) (c : Cursor) (scr : Screen) (mX mY : BitVec 32) :
    (parseCurFrame ⟨bytes, outside⟩ 0 bytes.length frame).val.1 = true
      ∧ (SameLook bytes c.pixels scr mX mY → ∀ bb, (aniDraw scr mX mY ani bb).val =
          (drawCustomCursor scr mX mY
            (loadSystemCursor .smooth bytes header bmiHeader c).val bb).val)
      ∧ (scr.width.toNat * scr.height.toNat ≤ 2 ^ 32 →
          (∀ bb, (aniDraw scr mX mY ani bb).val =
            (drawCustomCursor scr mX mY
              (loadSystemCursor .smooth bytes header bmiHeader c).val bb).val) →
          SameLook bytes c.pixels scr mX mY)
      ∧ (curBpp bytes = 32 → SameLook bytes c.pixels scr mX mY) := by
  obtain ⟨px, hParse, hPx⟩ := parseCurFrame_pixels (f := ⟨bytes, outside⟩) h frame
  change (parseCurFrame ⟨bytes, outside⟩ 0 bytes.length frame).val = _ at hParse
  have hWidth := h.width
  have hHeight := h.height
  rw [hParse] at hCurrent ⊢
  -- both paths as lists of writes
  have hAni (bb : BackBuffer) : (aniDraw scr mX mY ani bb).val = applyWrites bb
      (drawWrites scr (mX - BitVec.ofNat 32 (curHotspotX bytes))
        (mY - BitVec.ofNat 32 (curHotspotY bytes)) (curWidth bytes) (curHeight bytes)
        (frameByte bytes)) := by
    rw [aniDraw, hActive, hCurrent]
    simp only [Bool.not_true, Bool.false_or, decide_eq_true_eq]
    rw [if_neg (by omega), if_neg (by omega), BitVec.ofInt_natCast, BitVec.ofInt_natCast,
      drawPixels_val]
    congr 1
    exact drawWrites_congr fun y hy x hx _ => shown_congr fun k hk => hPx y x k hy hx hk
  have hArrow (bb : BackBuffer) : (drawCustomCursor scr mX mY
      (loadSystemCursor .smooth bytes header bmiHeader c).val bb).val = applyWrites bb
      (drawWrites scr (mX - BitVec.ofNat 32 (curHotspotX bytes))
        (mY - BitVec.ofNat 32 (curHotspotY bytes)) (curWidth bytes) (curHeight bytes)
        fun y x k => arrowByte bytes c.pixels
          (((curHeight bytes - 1 - y) * curWidth bytes + x) * 4 + k)) := by
    rw [loadSystemCursor_pixels h, drawCustomCursor]
    dsimp only
    rw [if_neg (by omega), drawPixels_val]
  refine ⟨rfl, ?_, ?_, fun hBpp => sameLook_32 hBpp _ _ _ _⟩
  · intro hSame bb
    rw [hAni, hArrow, drawWrites_congr hSame]
  · intro hScr hEqual y hy x hx hOn
    -- a back buffer that holds no colour tells the two apart
    have hCell := congrFun (hEqual fun _ => 0xFFFFFFFF)
      ((mY - BitVec.ofNat 32 (curHotspotY bytes) + BitVec.ofNat 32 y) * scr.width
        + (mX - BitVec.ofNat 32 (curHotspotX bytes) + BitVec.ofNat 32 x))
    rw [hAni, hArrow, drawWrites_apply hScr hWidth.2 hHeight.2 hy hx hOn,
      drawWrites_apply hScr hWidth.2 hHeight.2 hy hx hOn] at hCell
    exact eq_of_getD_eq shown_ne shown_ne hCell

/-- A cursor file of one pixel, with the hotspot on it: directory entry, info header, the row of
the bitmap and the row of the mask. -/
def onePixel (bpp : UInt8) (row : List UInt8) : List UInt8 :=
  [0, 0, 2, 0, 1, 0, 1, 1, 0, 0, 0, 0, 0, 0, 48, 0, 0, 0, 22, 0, 0, 0] ++
    ([40, 0, 0, 0, 1, 0, 0, 0, 2, 0, 0, 0, 1, 0, bpp, 0] ++ List.replicate 24 0) ++ row ++ [0, 0, 0, 0]

/-- The animation with the frame of a file as its only one. -/
def showing (bytes : List UInt8) : Ani.State :=
  { Ani.State.boot with
    frames := fun i => (parseCurFrame ⟨bytes, fun _ => 0⟩ 0 bytes.length (Ani.State.boot.frames i)).val.2
    frameCount := 1, active := true }

/-- A cursor of two by two pixels with the hotspot in its upper right one, by its two rows. -/
def fourPixels (bpp : UInt8) (rows : List UInt8) : List UInt8 :=
  [0, 0, 2, 0, 1, 0, 2, 2, 0, 0, 1, 0, 0, 0, 64, 0, 0, 0, 22, 0, 0, 0] ++
    ([40, 0, 0, 0, 2, 0, 0, 0, 4, 0, 0, 0, 1, 0, bpp, 0] ++ List.replicate 24 0) ++ rows ++
    [0, 0, 0, 0, 0, 0, 0, 0]

/-- Blue, green and red, and a transparent pixel. -/
def colourful : List UInt8 :=
  fourPixels 32 [255, 0, 0, 255, 0, 255, 0, 255, 0, 0, 255, 255, 9, 9, 9, 0]

/-- Two rows of three bytes for a pixel and two of padding. -/
def colourful24 : List UInt8 := fourPixels 24 [255, 0, 0, 0, 255, 0, 0, 0, 0, 0, 255, 9, 9, 9, 0, 0]

/-- The colourful picture in the lower right corner of a screen, which cuts it off; and in 24 bits
left of the screen. -/
theorem cursor_paths_agree_colourful :
    (∀ bb, (aniDraw ⟨3, 3⟩ 2 2 (showing colourful) bb).val =
        (drawCustomCursor ⟨3, 3⟩ 2 2
          (loadSystemCursor .smooth colourful (fun _ => 0) (fun _ => 0) .boot).val bb).val)
      ∧ ∀ bb, (aniDraw ⟨3, 3⟩ (-2) 0 (showing colourful24) bb).val =
        (drawCustomCursor ⟨3, 3⟩ (-2) 0
          (loadSystemCursor .smooth colourful24 (fun _ => 0) (fun _ => 0) .boot).val bb).val := by
  have hFull := @cursor_paths_agree colourful (by decide) (fun _ => 0) _ (showing colourful)
    rfl (by decide) rfl (fun _ => 0) (fun _ => 0) .boot ⟨3, 3⟩ 2 2
  have hLeft := @cursor_paths_agree colourful24 (by decide) (fun _ => 0) _ (showing colourful24)
    rfl (by decide) rfl (fun _ => 0) (fun _ => 0) .boot ⟨3, 3⟩ (-2) 0
  exact ⟨hFull.2.1 (hFull.2.2.2 (by decide)), hLeft.2.1 (by decide)⟩

/-- A red pixel in 24 bits: `ani_draw` draws it; `draw_custom_cursor` takes the byte behind it,
which was never loaded, for its alpha. -/
theorem cursor_paths_differ :
    let bytes := onePixel 24 [0, 0, 255, 0]
    ValidCur bytes ∧
      (aniDraw ⟨1, 1⟩ 0 0 (showing bytes) (fun _ => 0)).val 0 = 0xff0000 ∧
      (drawCustomCursor ⟨1, 1⟩ 0 0
        (loadSystemCursor .smooth bytes (fun _ => 0) (fun _ => 0) .boot).val (fun _ => 0)).val 0 = 0 := by
  decide +kernel

end Nao.CursorLoader
