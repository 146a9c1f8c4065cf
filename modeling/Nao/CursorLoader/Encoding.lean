import Nao.CursorLoader.Agreement

/-!
# Encoding and decoding a cursor

A cursor entry holds its rows from the last to the first, each one padded to a multiple of four
bytes, behind a directory entry and an info header. `encodeCur` writes a picture that way;
`parse_cur_frame` reads it back.

* `found_encodeCur` — the header that is written is the one that is read.
* `pixelByte_encodeCur` — every pixel is found at its place in the bitmap.
* `cur_decode_encode` — the frame is the picture, for both depths and every size up to 32 by 32.
-/

namespace Nao.CursorLoader

open SysLib Ani

-- ---------------------------------------------------------------------------
-- Pictures
-- ---------------------------------------------------------------------------

structure Pixel where
  b : UInt8
  g : UInt8
  r : UInt8
  a : UInt8
  deriving DecidableEq

/-- The bytes of a pixel in a frame. -/
def Pixel.byte (p : Pixel) (k : Nat) : UInt8 := [p.b, p.g, p.r, p.a].getD k 0

/-- A pixel of the file has four bytes, or three without the alpha. -/
inductive Depth where
  | bgra | bgr
  deriving DecidableEq

def Depth.bpp : Depth → Nat
  | .bgra => 32
  | .bgr => 24

def Depth.size : Depth → Nat
  | .bgra => 4
  | .bgr => 3

def Depth.bytes : Depth → Pixel → List UInt8
  | .bgra, p => [p.b, p.g, p.r, p.a]
  | .bgr, p => [p.b, p.g, p.r]

/-- A pixel as it is shown: without an alpha it is opaque. -/
def Depth.shown : Depth → Pixel → Pixel
  | .bgra, p => p
  | .bgr, p => { p with a := 255 }

/-- A picture with its hotspot. Pixel `(x, y)` is in column `x` of row `y`, counted from the top. -/
structure CursorImage where
  width    : Nat
  height   : Nat
  hotspotX : Nat
  hotspotY : Nat
  pixel    : Nat → Nat → Pixel
  sides    : (0 < width ∧ width ≤ 32) ∧ 0 < height ∧ height ≤ 32
  hotspot  : hotspotX < 2 ^ 15 ∧ hotspotY < 2 ^ 15

/-- What the format leaves open: where the info header is and how long, the fields that do not
matter (`other`, by their offset), the padding and the mask. -/
structure Layout where
  dataOffset : Nat
  infoSize   : Nat
  other      : Nat → UInt8
  padding    : Nat → Nat → UInt8
  mask       : List UInt8
  behind     : 22 ≤ dataOffset
  complete   : 40 ≤ infoSize

-- ---------------------------------------------------------------------------
-- The encoder
-- ---------------------------------------------------------------------------

def Layout.fill (l : Layout) (start n : Nat) : List UInt8 :=
  (List.range n).map fun i => l.other (start + i)

/-- The file header and the directory entry, 22 bytes. -/
def encodeEntry (img : CursorImage) (l : Layout) : List UInt8 :=
  l.fill 0 2 ++ (Mem.le16 2 ++ (l.fill 4 2 ++ ([UInt8.ofNat img.width, UInt8.ofNat img.height] ++
    (l.fill 8 2 ++ (Mem.le16 img.hotspotX ++ (Mem.le16 img.hotspotY ++ (l.fill 14 4 ++
      Mem.le32 l.dataOffset)))))))

def encodeInfo (d : Depth) (l : Layout) : List UInt8 :=
  Mem.le32 l.infoSize ++ (l.fill (l.dataOffset + 4) 10 ++ (Mem.le16 d.bpp ++
    l.fill (l.dataOffset + 16) (l.infoSize - 16)))

/-- A row of pixels, padded to a multiple of four bytes. -/
def encodeRow (img : CursorImage) (d : Depth) (l : Layout) (y : Nat) : List UInt8 :=
  (List.range img.width).flatMap (fun x => d.bytes (img.pixel x y)) ++
    (List.range (rowStride img.width d.bpp - d.size * img.width)).map (l.padding y)

/-- The rows, the last one first. -/
def encodeRows (img : CursorImage) (d : Depth) (l : Layout) : List UInt8 :=
  (List.range img.height).flatMap fun j => encodeRow img d l (img.height - 1 - j)

def encodeCur (img : CursorImage) (d : Depth) (l : Layout) : List UInt8 :=
  encodeEntry img l ++ (l.fill 22 (l.dataOffset - 22) ++ (encodeInfo d l ++
    (encodeRows img d l ++ l.mask)))

section Lengths

variable (img : CursorImage) (d : Depth) (l : Layout)

@[simp] theorem length_fill (start n : Nat) : (l.fill start n).length = n := by
  simp [Layout.fill]

theorem length_encodeEntry : (encodeEntry img l).length = 22 := by
  simp [encodeEntry, Mem.le16, Mem.le32]

theorem length_encodeInfo : (encodeInfo d l).length = l.infoSize := by
  have hComplete := l.complete
  simp only [encodeInfo, List.length_append, length_fill, Mem.le16, Mem.le32, List.length_cons,
    List.length_nil]
  omega

theorem length_depth_bytes (p : Pixel) : (d.bytes p).length = d.size := by
  cases d <;> rfl

theorem size_le_rowStride (w : Nat) : d.size * w ≤ rowStride w d.bpp := by
  cases d <;> simp only [rowStride, Depth.bpp, Depth.size] <;> omega

theorem length_pixels (y : Nat) :
    ((List.range img.width).flatMap fun x => d.bytes (img.pixel x y)).length = d.size * img.width := by
  rw [Mem.length_flatMap_range fun x => length_depth_bytes d _]

theorem length_encodeRow (y : Nat) : (encodeRow img d l y).length = rowStride img.width d.bpp := by
  have hLe := size_le_rowStride d img.width
  rw [encodeRow, List.length_append, length_pixels, List.length_map, List.length_range]
  omega

theorem length_encodeRows :
    (encodeRows img d l).length = rowStride img.width d.bpp * img.height :=
  Mem.length_flatMap_range fun _ => length_encodeRow img d l _

theorem length_encodeCur :
    (encodeCur img d l).length
      = l.dataOffset + l.infoSize + rowStride img.width d.bpp * img.height + l.mask.length := by
  have hBehind := l.behind
  simp only [encodeCur, List.length_append, length_encodeEntry, length_fill, length_encodeInfo,
    length_encodeRows]
  omega

end Lengths

-- ---------------------------------------------------------------------------
-- What is found in a file
-- ---------------------------------------------------------------------------

/-- The memory at `file_data + cur`. -/
def fileAt (f : File) (cur : Nat) : Mem := fun i => f.get ((cur + i) % 2 ^ 32)

theorem fileData_at (f : File) (cur i : Nat) : (fileData f (cur + i)).val = fileAt f cur i := rfl

theorem readLe32_at (f : File) (cur i : Nat) : (readLe32 f (cur + i)).val = (fileAt f cur).read32 i := by
  simp only [readLe32, Traced.val_bind, Traced.val_pure, Nat.add_assoc cur, fileData_at, Mem.read32,
    Mem.read16, Nat.add_assoc i 2 1]
  omega

/-- The bytes stand at `file_data + cur`. -/
def StandsAt (f : File) (cur : Nat) (bytes : List UInt8) : Prop :=
  (fileAt f cur).slice 0 bytes.length = bytes

theorem standsAt_zero (bytes : List UInt8) (outside : Nat → UInt8) (h : bytes.length < 2 ^ 32) :
    StandsAt ⟨bytes, outside⟩ 0 bytes := by
  refine List.ext_getElem (Mem.length_slice ..) ?_
  intro i hLeft hRight
  simp only [Mem.slice, List.getElem_map, List.getElem_range, fileAt, File.get, Nat.zero_add]
  rw [Nat.mod_eq_of_lt (by omega), List.getD_eq_getElem _ _ hRight]

section Standing

variable {img : CursorImage} {d : Depth} {l : Layout} {f : File} {cur : Nat}

/-- The parts of an encoded cursor, each at its offset. -/
theorem standsAt_parts (h : StandsAt f cur (encodeCur img d l)) :
    (fileAt f cur).slice 0 (encodeEntry img l).length = encodeEntry img l
      ∧ (fileAt f cur).slice l.dataOffset (encodeInfo d l).length = encodeInfo d l
      ∧ (fileAt f cur).slice (l.dataOffset + l.infoSize) (encodeRows img d l).length
          = encodeRows img d l := by
  obtain ⟨hEntry, hRest⟩ := Mem.slice_eq_append_iff.mp h
  obtain ⟨-, hRest⟩ := Mem.slice_eq_append_iff.mp hRest
  obtain ⟨hInfo, hRest⟩ := Mem.slice_eq_append_iff.mp hRest
  obtain ⟨hRows, -⟩ := Mem.slice_eq_append_iff.mp hRest
  have hOffset : 0 + (encodeEntry img l).length + (l.fill 22 (l.dataOffset - 22)).length
      = l.dataOffset := by
    rw [length_encodeEntry, length_fill]
    have := l.behind
    omega
  rw [hOffset] at hInfo hRows
  rw [length_encodeInfo] at hRows
  exact ⟨hEntry, hInfo, hRows⟩

/-- The header that was written is the header that is read. -/
theorem found_encodeCur (h : StandsAt f cur (encodeCur img d l))
    (hSize : (encodeCur img d l).length < 2 ^ 32) :
    CurHeader.FoundAt
      { width := img.width, height := img.height, hotspotX := img.hotspotX, hotspotY := img.hotspotY
        dataOffset := l.dataOffset, infoSize := l.infoSize, bpp := d.bpp }
      f cur (encodeCur img d l).length := by
  obtain ⟨hEntry, hInfo, -⟩ := standsAt_parts h
  have hLength := length_encodeCur img d l
  have hBehind := l.behind
  have hComplete := l.complete
  obtain ⟨hWidth, hHeight⟩ := img.sides
  obtain ⟨hX, hY⟩ := img.hotspot
  -- the entry, field by field
  simp only [encodeEntry, Mem.slice_eq_append_iff, length_fill] at hEntry
  obtain ⟨-, hType, -, hSides, -, hHotX, hHotY, -, hOffset⟩ := hEntry
  have hSides : fileAt f cur 6 = UInt8.ofNat img.width ∧ fileAt f cur 7 = UInt8.ofNat img.height := by
    simpa [Mem.slice, Mem.le16, List.range_succ] using hSides
  simp only [encodeInfo, Mem.slice_eq_append_iff, length_fill] at hInfo
  obtain ⟨hInfoSize, -, hDepth, -⟩ := hInfo
  have hBpp : d.bpp % 65536 = d.bpp := by cases d <;> rfl
  exact
    { size := hSize
      entry := by omega
      type := Mem.read16_of_slice hType
      width := by
        show (fileAt f cur 6).toNat = img.width
        rw [hSides.1, UInt8.toNat_ofNat']
        omega
      height := by
        show (fileAt f cur 7).toNat = img.height
        rw [hSides.2, UInt8.toNat_ofNat']
        omega
      sides := img.sides
      hotspotX := (Mem.read16_of_slice hHotX).trans (Nat.mod_eq_of_lt (by omega))
      hotspotY := (Mem.read16_of_slice hHotY).trans (Nat.mod_eq_of_lt (by omega))
      hotspot := img.hotspot
      offset := by
        rw [readLe32_at]
        exact (Mem.read32_of_slice hOffset).trans (Nat.mod_eq_of_lt (by omega))
      info := by
        rw [readLe32_at]
        exact (Mem.read32_of_slice hInfoSize).trans (Nat.mod_eq_of_lt (by omega))
      infoSize := l.complete
      depth := by
        rw [Nat.add_assoc]
        exact (Mem.read16_of_slice hDepth).trans hBpp
      rows := by
        show l.dataOffset + l.infoSize + rowStride img.width d.bpp * img.height ≤ _
        omega }

/-- Every pixel stands in the bitmap, in the row counted from below. -/
theorem pixel_encodeCur (h : StandsAt f cur (encodeCur img d l)) {x y : Nat} (hx : x < img.width)
    (hy : y < img.height) :
    (fileAt f cur).slice
        (l.dataOffset + l.infoSize + (img.height - 1 - y) * rowStride img.width d.bpp + x * d.size) d.size
      = d.bytes (img.pixel x y) := by
  obtain ⟨-, -, hRows⟩ := standsAt_parts h
  rw [length_encodeRows] at hRows
  have hRow := Mem.slice_record (fun j => length_encodeRow img d l _) hRows
    (i := img.height - 1 - y) (by omega)
  have hTurn : img.height - 1 - (img.height - 1 - y) = y := by omega
  rw [hTurn, ← length_encodeRow img d l y] at hRow
  obtain ⟨hPixels, -⟩ := Mem.slice_eq_append_iff.mp hRow
  rw [length_pixels] at hPixels
  have hPixel := Mem.slice_record (fun x => length_depth_bytes d (img.pixel x y)) hPixels hx
  rwa [length_encodeRow] at hPixel

end Standing

-- ---------------------------------------------------------------------------
-- The frame
-- ---------------------------------------------------------------------------

/-- Where the alpha of a pixel comes from. -/
def Depth.alpha : Depth → File → Nat → Traced Ani.Event UInt8
  | .bgra, f => fun src => fileData f (src + 3)
  | .bgr, _ => fun _ => pure 255

/-- The pixels are cleared, then copied. -/
theorem decodePixels_depth (d : Depth) (f : File) (start stride : Nat) (frame : Frame) :
    (decodePixels f start stride d.bpp frame).val
      = (true, { frame with
          pixels := (copyPixels f start stride frame.width frame.height d.size (d.alpha f)
            (clearPixels frame.pixels).val).val }) := by
  cases d <;> rfl

theorem clearPixels_val (px : Mem) {p : Nat} (hp : p < 4096) : (clearPixels px).val p = 0 := by
  refine Traced.forTo_invariant (fun n (px : Mem) => ∀ p, p < n → px p = 0) ?_ ?_ p hp
  · intro p hp
    exact absurd hp (Nat.not_lt_zero _)
  · intro n px _ hCleared p hp
    show px.write8 n 0 p = 0
    rcases Nat.lt_succ_iff_lt_or_eq.mp hp with hlt | rfl
    · rw [Mem.write8_of_ne _ _ (by omega), hCleared p hlt]
    · exact Mem.write8_same ..

section Rest

variable {f : File} {start stride cw ch width : Nat} {alpha : Nat → Traced Ani.Event UInt8}

theorem copyPixel_of_ge {src dst p : Nat} (px : Mem) (hp : dst + 4 ≤ p) :
    (copyPixel f alpha src dst px).val p = px p := by
  simp only [copyPixel, setPixel, Traced.val_bind, Traced.val_pure]
  rw [Mem.write8_of_ne _ _ (by omega), Mem.write8_of_ne _ _ (by omega),
    Mem.write8_of_ne _ _ (by omega), Mem.write8_of_ne _ _ (by omega)]

/-- The copying loops leave alone what is behind the last pixel. -/
theorem copyPixels_of_ge (px : Mem) {p : Nat} (hp : cw * ch * 4 ≤ p) :
    (copyPixels f start stride cw ch width alpha px).val p = px p := by
  refine Traced.forTo_invariant (fun _ (px' : Mem) => px' p = px p) rfl ?_
  intro y px' hy hRows
  refine Traced.forTo_invariant (fun _ (px' : Mem) => px' p = px p) hRows ?_
  intro x px'' hx hRow
  have hIndex : y * cw + x < cw * ch := index_lt hx hy
  exact (copyPixel_of_ge px'' (by omega)).trans hRow

end Rest

/-- A pixel as the copying loops find it. -/
theorem pixelByte_encodeCur {img : CursorImage} {d : Depth} {l : Layout} {f : File} {cur : Nat}
    (h : StandsAt f cur (encodeCur img d l)) {x y k : Nat} (hx : x < img.width) (hy : y < img.height)
    (hk : k < 4) :
    pixelByte f (d.alpha f)
        (cur + (l.dataOffset + l.infoSize) + (img.height - 1 - y) * rowStride img.width d.bpp
          + x * d.size) k
      = (d.shown (img.pixel x y)).byte k := by
  have hPixel := pixel_encodeCur h hx hy
  generalize hPlace : l.dataOffset + l.infoSize + (img.height - 1 - y) * rowStride img.width d.bpp
    + x * d.size = place at hPixel
  have hSrc : cur + (l.dataOffset + l.infoSize) + (img.height - 1 - y) * rowStride img.width d.bpp
      + x * d.size = cur + place := by omega
  rw [hSrc]
  have hPosition : k = 0 ∨ k = 1 ∨ k = 2 ∨ k = 3 := by omega
  have hByte : ∀ j, (fileData f (cur + place + j)).val = fileAt f cur (place + j) := by
    intro j
    rw [Nat.add_assoc, fileData_at]
  cases d with
  | bgra =>
    have hBytes : fileAt f cur place = (img.pixel x y).b ∧ fileAt f cur (place + 1) = (img.pixel x y).g
        ∧ fileAt f cur (place + 2) = (img.pixel x y).r ∧ fileAt f cur (place + 3) = (img.pixel x y).a := by
      simpa [Mem.slice, Depth.bytes, Depth.size, List.range_succ] using hPixel
    obtain ⟨hb, hg, hr, ha⟩ := hBytes
    rcases hPosition with rfl | rfl | rfl | rfl
    · exact (hByte 0).trans hb
    · exact (hByte 1).trans hg
    · exact (hByte 2).trans hr
    · exact (hByte 3).trans ha
  | bgr =>
    have hBytes : fileAt f cur place = (img.pixel x y).b ∧ fileAt f cur (place + 1) = (img.pixel x y).g
        ∧ fileAt f cur (place + 2) = (img.pixel x y).r := by
      simpa [Mem.slice, Depth.bytes, Depth.size, List.range_succ] using hPixel
    obtain ⟨hb, hg, hr⟩ := hBytes
    rcases hPosition with rfl | rfl | rfl | rfl
    · exact (hByte 0).trans hb
    · exact (hByte 1).trans hg
    · exact (hByte 2).trans hr
    · rfl

/--
**Decoding undoes encoding.** For every picture of 1 by 1 to 32 by 32 pixels with a hotspot below
32768, both depths, every info header of 40 bytes and more at any offset behind the entry, and
whatever stands in the fields that do not matter, in the padding and in the mask: if the encoded
cursor has less than `2 ^ 32` bytes, `parse_cur_frame` on it returns 1 and gives back the size and
the hotspot; the bytes of `pixels` are those of the picture, with an alpha of 255 where the file
has none, and 0 behind them.
-/
theorem cur_decode_encode (img : CursorImage) (d : Depth) (l : Layout) (f : File) (cur : Nat)
    (frame : Frame) (hSize : (encodeCur img d l).length < 2 ^ 32)
    (hStands : StandsAt f cur (encodeCur img d l)) :
    ∃ px, (parseCurFrame f cur (encodeCur img d l).length frame).val
        = (true, { frame with
            width := img.width, height := img.height, hotspotX := img.hotspotX
            hotspotY := img.hotspotY, pixels := px })
      ∧ (∀ x y k, x < img.width → y < img.height → k < 4 →
          px ((y * img.width + x) * 4 + k) = (d.shown (img.pixel x y)).byte k)
      ∧ ∀ p, img.width * img.height * 4 ≤ p → p < 4096 → px p = 0 := by
  rw [parseCurFrame_found (found_encodeCur hStands hSize), decodePixels_depth]
  dsimp only
  refine ⟨_, rfl, ?_, ?_⟩
  · intro x y k hx hy hk
    have hIndex : y * img.width + x < img.width * img.height := index_lt hx hy
    rw [Nat.mul_comm img.width] at hIndex
    rw [copyPixels_val _ _ (by omega), copied_pixel hx y hk]
    exact pixelByte_encodeCur hStands hx hy hk
  · intro p hBehind hp
    rw [copyPixels_of_ge _ hBehind, clearPixels_val _ hp]

/-- One column of a red pixel over a blue one, in 24 bits. -/
def redOverBlue : CursorImage :=
  { width := 1, height := 2, hotspotX := 0, hotspotY := 1
    pixel := fun _ y => if y = 0 then ⟨0, 0, 255, 0⟩ else ⟨255, 0, 0, 0⟩
    sides := by decide, hotspot := by decide }

/-- The usual layout, with a mask. -/
def plainLayout : Layout :=
  { dataOffset := 22, infoSize := 40, other := fun _ => 0, padding := fun _ _ => 7
    mask := [0, 0, 0, 0], behind := by decide, complete := by decide }

theorem cur_decode_encode_redOverBlue :
    ∃ px, (parseCurFrame ⟨encodeCur redOverBlue .bgr plainLayout, fun _ => 0⟩ 0
        (encodeCur redOverBlue .bgr plainLayout).length (Ani.State.boot.frames 0)).val
          = (true, { Ani.State.boot.frames 0 with
              width := 1, height := 2, hotspotX := 0, hotspotY := 1, pixels := px })
      ∧ px 2 = 255 ∧ px 3 = 255 := by
  have hSize : (encodeCur redOverBlue .bgr plainLayout).length < 2 ^ 32 := by
    rw [length_encodeCur]
    decide
  obtain ⟨px, hParse, hPixels, -⟩ := cur_decode_encode redOverBlue .bgr plainLayout _ 0
    (Ani.State.boot.frames 0) hSize (standsAt_zero _ (fun _ => 0) hSize)
  exact ⟨px, hParse, hPixels 0 0 2 (by decide) (by decide) (by decide),
    hPixels 0 0 3 (by decide) (by decide) (by decide)⟩

end Nao.CursorLoader
