import Nao.Graphics.Definitions
import Nao.Images.Definitions
import Nao.Lib.Rows
import Nao.Lib.Writes

/-!
# Where the pixels are

Pixel `(x, y)` of the screen is at byte offset `y * pitch + 4 * x` of the framebuffer. The boot
screen, `idt_draw_rect` and the blit compute it from the pitch. `sys_shutdown` counts pixels as
if a row were as long as the screen is wide, and the back buffer has room for 1024 by 768
pixels whatever the mode is.

* `at_putpixel`, `at_frameBlit`, .. — the writers that are always right.
* `shutdownCells` — the pixels `sys_shutdown` writes (`sysShutdown_eq`).
* `screen_writers_agree` — all writers agree exactly for a mode that fits the back buffer and
  has no gap between its rows.
-/

namespace Nao.Graphics

open SysLib CursorLoader Images

-- ---------------------------------------------------------------------------
-- Offsets
-- ---------------------------------------------------------------------------

/-- The write goes to where its pixel is. -/
def Mode.At (m : Mode) (e : Put) : Prop :=
  e.offset = BitVec.ofInt 32 (e.y * m.pitch.toNat + 4 * e.x)

instance (m : Mode) (e : Put) : Decidable (m.At e) := inferInstanceAs (Decidable (_ = _))

theorem offset_eq (x y : Int) (pitch : BitVec 32) :
    BitVec.ofInt 32 y * pitch + BitVec.ofInt 32 (x * 4) = BitVec.ofInt 32 (y * pitch.toNat + 4 * x) := by
  rw [Int.mul_comm x, BitVec.ofInt_add, BitVec.ofInt_mul y, BitVec.ofInt_natCast, BitVec.ofNat_toNat,
    BitVec.setWidth_eq]

/-- Word `y * k + x` of a buffer of 32-bit pixels. -/
theorem word_offset (x y : Nat) (k : BitVec 32) :
    (BitVec.ofNat 32 y * k + BitVec.ofNat 32 x) * 4 = BitVec.ofNat 32 (4 * (y * k.toNat + x)) := by
  rw [BitVec.ofNat_mul, BitVec.ofNat_add, BitVec.ofNat_mul, BitVec.ofNat_toNat, BitVec.setWidth_eq]
  grind

/-- A word is where its pixel is iff rows of `k` pixels begin where the rows of the screen do. -/
theorem at_word_iff {m : Mode} {x y : Nat} {k color : BitVec 32} :
    m.At (putWord x y (BitVec.ofNat 32 y * k + BitVec.ofNat 32 x) color)
      ↔ 4 * (y * k.toNat) % 2 ^ 32 = y * m.pitch.toNat % 2 ^ 32 := by
  have hPixel : (y : Int) * m.pitch.toNat + 4 * x = (y * m.pitch.toNat + 4 * x : Nat) := by
    push_cast
    rfl
  show (BitVec.ofNat 32 y * k + BitVec.ofNat 32 x) * 4 = BitVec.ofInt 32 (y * m.pitch.toNat + 4 * x) ↔ _
  rw [hPixel, BitVec.ofInt_natCast, word_offset, ← BitVec.toNat_inj, BitVec.toNat_ofNat,
    BitVec.toNat_ofNat]
  omega

theorem mem_overRows {α : Type} {w h : Nat} {body : Nat → Nat → List α} {a : α} :
    a ∈ overRows w h body ↔ ∃ col row, col < w ∧ row < h ∧ a ∈ body col row := by
  simp only [overRows, List.mem_flatMap, List.mem_range]
  constructor
  · rintro ⟨row, hRow, col, hCol, ha⟩
    exact ⟨col, row, hCol, hRow, ha⟩
  · rintro ⟨col, row, hCol, hRow, ha⟩
    exact ⟨row, hRow, col, hCol, ha⟩

section Writers

variable (m : Mode)

theorem at_putpixel (x y : Int) (color : BitVec 32) : m.At (putpixel x y color m.pitch) :=
  offset_eq x y m.pitch

theorem at_idtDrawRect {x y w h : Int} {color : BitVec 32} {e : Put}
    (he : e ∈ idtDrawRect m x y w h color) : m.At e := by
  rw [idtDrawRect] at he
  split at he
  · cases he
  · obtain ⟨col, row, -, -, hMem⟩ := mem_overRows.mp he
    dsimp only at hMem
    split at hMem
    · rw [List.mem_singleton.mp hMem]
      exact offset_eq _ _ _
    · cases hMem

theorem at_bootDrawRect {x y w h : Int} {color : BitVec 32} :
    ∀ e ∈ bootDrawRect x y w h color m.pitch, m.At e := by
  intro e he
  obtain ⟨col, row, -, -, hMem⟩ := mem_overRows.mp he
  rw [List.mem_singleton.mp hMem]
  exact at_putpixel m _ _ _

theorem at_drawChar {font : Font} {x y : Int} {c : UInt8} {color : BitVec 32} :
    ∀ e ∈ drawChar font x y c color m.pitch, m.At e := by
  intro e he
  rw [drawChar] at he
  split at he
  · cases he
  · obtain ⟨col, row, -, -, hMem⟩ := mem_overRows.mp he
    split at hMem
    · rw [List.mem_singleton.mp hMem]
      exact at_putpixel m _ _ _
    · cases hMem

theorem at_bootDrawString {font : Font} {x y : Int} {color : BitVec 32} {str : List UInt8} :
    ∀ e ∈ bootDrawString font x y color m.pitch str, m.At e := by
  induction str generalizing x with
  | nil => exact List.forall_mem_nil _
  | cons c str ih => exact List.forall_mem_append.mpr ⟨at_drawChar m, ih⟩

theorem at_bootDrawProgressBar {x y width height pct : Int} :
    ∀ e ∈ bootDrawProgressBar x y width height pct m.pitch, m.At e := by
  simp only [bootDrawProgressBar, List.forall_mem_append]
  refine ⟨⟨at_bootDrawRect m, at_bootDrawRect m⟩, ?_⟩
  split
  · exact at_bootDrawRect m
  · exact List.forall_mem_nil _

theorem at_bootDrawImage {imgX imgY : Int} {pixels : Nat → BitVec 32} {imgW imgH : Nat} :
    ∀ e ∈ bootDrawImage imgX imgY pixels imgW imgH m.pitch, m.At e := by
  intro e he
  obtain ⟨px, py, -, -, hMem⟩ := mem_overRows.mp he
  dsimp only at hMem
  split at hMem
  · cases hMem
  · rw [List.mem_singleton.mp hMem]
    exact at_putpixel m _ _ _

theorem at_progressTurn {font : Font} {barX barY : Int} {pct : Nat} :
    ∀ e ∈ progressTurn font barX barY m.pitch pct, m.At e := by
  simp only [progressTurn, List.forall_mem_append]
  exact ⟨⟨⟨⟨at_bootDrawProgressBar m, at_bootDrawRect m⟩, at_bootDrawString m⟩, at_bootDrawRect m⟩,
    at_bootDrawString m⟩

theorem at_noImage {font : Font} {screenW screenH : Int} :
    ∀ e ∈ (showBootScreen.noImage font screenW screenH m.pitch).1, m.At e :=
  List.forall_mem_append.mpr ⟨at_bootDrawString m, at_bootDrawString m⟩

theorem at_showBootScreen (font : Font) (bootImg : Option (Nat → BitVec 32)) (w h : Nat) :
    ∀ e ∈ showBootScreen font m bootImg w h, m.At e := by
  simp only [showBootScreen, List.forall_mem_append]
  refine ⟨⟨⟨at_bootDrawRect m, ?_⟩, ?_⟩, at_bootDrawRect m⟩
  · split
    · split
      · exact at_bootDrawImage m
      · exact at_noImage m
    · exact at_noImage m
  · intro e he
    obtain ⟨pct, -, hMem⟩ := List.mem_flatMap.mp he
    exact at_progressTurn m e hMem

/-- The blit divides the pitch by 4, which loses nothing. -/
theorem at_frameBlit (hPitch : 4 ∣ m.pitch.toNat) (bb : BackBuffer) :
    ∀ s ∈ frameBlit m bb, m.At s.put := by
  intro s hs
  obtain ⟨x, y, -, -, hMem⟩ := mem_overRows.mp hs
  rw [List.mem_singleton.mp hMem]
  refine at_word_iff.mpr ?_
  rw [BitVec.toNat_udiv]
  show 4 * (y * (m.pitch.toNat / 4)) % 2 ^ 32 = _
  rw [Nat.mul_left_comm, Nat.mul_div_cancel' hPitch]

end Writers

-- ---------------------------------------------------------------------------
-- The back buffer
-- ---------------------------------------------------------------------------

section BackBuffer

variable {m : Mode}

/-- `putpixel` into a buffer without gaps between its rows. -/
theorem offset_putpixel (x y : Nat) (color width : BitVec 32) :
    (putpixel x y color (width * 4)).offset = BitVec.ofNat 32 (4 * (y * width.toNat + x)) := by
  show BitVec.ofInt 32 y * (width * 4) + BitVec.ofInt 32 (x * 4) = _
  rw [← word_offset, BitVec.ofInt_mul, BitVec.ofInt_natCast, BitVec.ofInt_natCast]
  grind

/-- A mode with more pixels than the back buffer goes beyond its end. -/
theorem fill_bounded_iff :
    (∀ color, ∀ e ∈ backgroundFill m color, e.offset.toNat / 4 < backBufferSize)
      ↔ m.width.toNat * m.height.toNat ≤ backBufferSize := by
  have hSize : backBufferSize = 786432 := rfl
  constructor
  · intro h
    by_contra hMany
    have hWidth : 0 < m.width.toNat := by
      by_contra hZero
      rw [Nat.eq_zero_of_not_pos hZero, Nat.zero_mul] at hMany
      omega
    -- the first pixel that the buffer has no room for
    have hRow : backBufferSize / m.width.toNat < m.height.toNat :=
      (Nat.div_lt_iff_lt_mul hWidth).mpr (by rw [Nat.mul_comm]; omega)
    have hLt := h 0 _ (mem_overRows.mpr ⟨backBufferSize % m.width.toNat, backBufferSize / m.width.toNat,
      Nat.mod_lt _ hWidth, hRow, List.mem_singleton_self _⟩)
    rw [offset_putpixel, Nat.div_add_mod', BitVec.toNat_ofNat] at hLt
    omega
  · intro h color e he
    obtain ⟨x, y, hx, hy, hMem⟩ := mem_overRows.mp he
    have hIndex := index_lt hx hy
    rw [List.mem_singleton.mp hMem, offset_putpixel, BitVec.toNat_ofNat]
    omega

theorem source_bounded (h : m.width.toNat * m.height.toNat ≤ backBufferSize) (bb : BackBuffer) :
    ∀ s ∈ frameBlit m bb, s.src.toNat < backBufferSize := by
  intro s hs
  obtain ⟨x, y, hx, hy, hMem⟩ := mem_overRows.mp hs
  have hIndex := index_lt hx hy
  have hSrc : BitVec.ofNat 32 y * m.width + BitVec.ofNat 32 x
      = BitVec.ofNat 32 (y * m.width.toNat + x) := by
    rw [BitVec.ofNat_add, BitVec.ofNat_mul, BitVec.ofNat_toNat, BitVec.setWidth_eq]
  rw [List.mem_singleton.mp hMem]
  show (BitVec.ofNat 32 y * m.width + BitVec.ofNat 32 x).toNat < _
  rw [hSrc, BitVec.toNat_ofNat]
  exact Nat.lt_of_le_of_lt (Nat.mod_le ..) (by omega)

end BackBuffer

-- ---------------------------------------------------------------------------
-- sys_shutdown
-- ---------------------------------------------------------------------------

/-- A pixel of the screen and a colour. -/
structure Cell where
  x     : Nat
  y     : Nat
  color : BitVec 32

/-- The pixels that the clear loop counts. -/
def clearCells (m : Mode) : List Cell :=
  (List.range (m.width * m.height).toNat).map fun i =>
    { x := i % m.width.toNat, y := i / m.width.toNat, color := 0 }

/-- The pixels of the picture, in the order of its loops. -/
def pictureCells (m : Mode) (p : Picture) : List Cell :=
  let startX := centred m.width.toNat p.width
  let startY := centred m.height.toNat p.height
  ((List.range p.height).takeWhile fun y => startY + y < m.height.toNat).flatMap fun y =>
    ((List.range p.width).takeWhile fun x => startX + x < m.width.toNat).map fun x =>
      { x := startX + x, y := startY + y, color := Images.rgb (p.pixel (p.height - 1 - y) x) }

def shutdownCells (m : Mode) (picture : Option Picture) : List Cell :=
  clearCells m ++ picture.elim [] (pictureCells m)

/-- `gfx_framebuffer[y * gfx_width + x] = color`. -/
def Cell.put (m : Mode) (c : Cell) : Put :=
  putWord c.x c.y (BitVec.ofNat 32 c.y * m.width + BitVec.ofNat 32 c.x) c.color

/-- The picture that `sys_shutdown` decodes, if it gets that far. -/
def shutdownPicture (dec : Decoder) (a : ShutdownAnswers) (g : Stb) : Option Picture :=
  match a.file.content with
  | none => none
  | some content =>
    if a.kmalloc ∧ a.file.readOk then (stbiLoadFromMemory dec content { g with arenaOffset := 0 }).1
    else none

/-- The index that a cell is written to. -/
def Cell.write (m : Mode) (c : Cell) : Nat × BitVec 32 := (c.y * m.width.toNat + c.x, c.color)

theorem drawCentred_eq (m : Mode) (p : Picture) (fb : Pixels) :
    drawCentred ⟨m.width.toNat, m.height.toNat⟩ p fb
      = applyWrites fb ((pictureCells m p).map (Cell.write m)) := by
  simp only [pictureCells, List.map_flatMap, List.map_map]
  rw [applyWrites, List.foldl_flatMap]
  simp only [List.foldl_map]
  rfl

theorem clear_eq {m : Mode} (h : m.width.toNat * m.height.toNat < 2 ^ 32) (fb : Pixels) :
    (fun i => if i < m.width.toNat * m.height.toNat then 0 else fb i)
      = applyWrites fb ((clearCells m).map (Cell.write m)) := by
  have hCells : (clearCells m).map (Cell.write m)
      = (List.range (m.width.toNat * m.height.toNat)).map fun i => (i, 0) := by
    simp only [clearCells, List.map_map, BitVec.toNat_mul, Nat.mod_eq_of_lt h]
    refine List.map_congr_left fun i _ => ?_
    show (i / _ * _ + i % _, _) = _
    rw [Nat.div_add_mod']
  have hPlaces : ((clearCells m).map (Cell.write m)).map Prod.fst
      = List.range (m.width.toNat * m.height.toNat) := by
    rw [hCells, List.map_map]
    exact List.map_id _
  have hNodup := List.nodup_range (n := m.width.toNat * m.height.toNat)
  rw [← hPlaces] at hNodup
  funext i
  split
  · next hi =>
    refine (applyWrites_of_mem hNodup ?_).symm
    rw [hCells]
    exact List.mem_map.mpr ⟨i, List.mem_range.mpr hi, rfl⟩
  · next hi =>
    exact (applyWrites_of_not_mem (by rw [hPlaces]; simpa using hi)).symm

/-- `sys_shutdown` writes these cells, in this order. -/
theorem sysShutdown_eq {m : Mode} (h : m.width.toNat * m.height.toNat < 2 ^ 32) (dec : Decoder)
    (a : ShutdownAnswers) (g : Stb) (fb : Pixels) :
    sysShutdown dec ⟨m.width.toNat, m.height.toNat⟩ a g fb
      = applyWrites fb ((shutdownCells m (shutdownPicture dec a g)).map (Cell.write m)) := by
  rw [shutdownCells, List.map_append, applyWrites_append, ← clear_eq h, sysShutdown, shutdownPicture]
  cases a.file.content with
  | none => rfl
  | some content =>
    dsimp only
    split
    · cases stbiLoadFromMemory dec content { g with arenaOffset := 0 } with
      | mk p g =>
        cases p with
        | none => rfl
        | some p => exact drawCentred_eq m p _
    · rfl

/-- All pixels of the shutdown are on the screen. -/
theorem onScreen_of_mem {m : Mode} {picture : Option Picture} {c : Cell}
    (h : c ∈ shutdownCells m picture) : c.x < m.width.toNat ∧ c.y < m.height.toNat := by
  rcases List.mem_append.mp h with hClear | hPicture
  · obtain ⟨i, hi, rfl⟩ := List.mem_map.mp hClear
    have hLt : i < m.width.toNat * m.height.toNat :=
      Nat.lt_of_lt_of_le (List.mem_range.mp hi) (by rw [BitVec.toNat_mul]; exact Nat.mod_le ..)
    have hWidth : 0 < m.width.toNat := Nat.pos_of_mul_pos_right (Nat.zero_lt_of_lt hLt)
    exact ⟨Nat.mod_lt _ hWidth, Nat.div_lt_of_lt_mul hLt⟩
  · cases picture with
    | none => cases hPicture
    | some p =>
      obtain ⟨y, hy, hRow⟩ := List.mem_flatMap.mp hPicture
      obtain ⟨x, hx, rfl⟩ := List.mem_map.mp hRow
      exact ⟨by simpa using List.mem_takeWhile_imp hx, by simpa using List.mem_takeWhile_imp hy⟩

/-- The shutdown writes every pixel to its place iff rows have no gap between them, or there is
no second row. -/
theorem shutdown_at_iff {m : Mode} (hRow : 4 * m.width.toNat ≤ m.pitch.toNat)
    (hFits : m.width.toNat * m.height.toNat ≤ backBufferSize) :
    (∀ picture, ∀ c ∈ shutdownCells m picture, m.At (c.put m))
      ↔ m.pitch.toNat = 4 * m.width.toNat ∨ m.width.toNat = 0 ∨ m.height.toNat ≤ 1 := by
  have hSize : backBufferSize = 786432 := rfl
  constructor
  · intro h
    by_contra hGap
    simp only [not_or, Nat.not_le] at hGap
    obtain ⟨hPitch, hWidth, hHeight⟩ := hGap
    -- the first pixel of the second row
    have hSecond : m.width.toNat < (m.width * m.height).toNat := by
      have hTwo : m.width.toNat * 2 ≤ m.width.toNat * m.height.toNat := Nat.mul_le_mul_left _ hHeight
      rw [BitVec.toNat_mul, Nat.mod_eq_of_lt (by omega)]
      omega
    have hAt := at_word_iff.mp (h none _ (List.mem_append_left _
      (List.mem_map.mpr ⟨m.width.toNat, List.mem_range.mpr hSecond, rfl⟩)))
    have hPitchLt := m.pitch.isLt
    rw [Nat.div_self (Nat.pos_of_ne_zero hWidth), Nat.one_mul, Nat.one_mul] at hAt
    omega
  · intro h picture c hc
    obtain ⟨hx, hy⟩ := onScreen_of_mem hc
    refine at_word_iff.mpr ?_
    rcases h with hPitch | hWidth | hHeight
    · rw [hPitch, Nat.mul_left_comm]
    · omega
    · obtain hZero : c.y = 0 := by omega
      rw [hZero, Nat.zero_mul, Nat.zero_mul]

-- ---------------------------------------------------------------------------
-- All writers
-- ---------------------------------------------------------------------------

/-- Every index into the back buffer is inside it, and every writer to the framebuffer writes
pixel `(x, y)` at byte offset `y * pitch + 4 * x`. -/
structure Agree (m : Mode) : Prop where
  fill     : ∀ color, ∀ e ∈ backgroundFill m color, e.offset.toNat / 4 < backBufferSize
  source   : ∀ bb, ∀ s ∈ frameBlit m bb, s.src.toNat < backBufferSize
  blit     : ∀ bb, ∀ s ∈ frameBlit m bb, m.At s.put
  rect     : ∀ x y w h color, ∀ e ∈ idtDrawRect m x y w h color, m.At e
  boot     : ∀ font img w h, ∀ e ∈ showBootScreen font m img w h, m.At e
  shutdown : ∀ picture, ∀ c ∈ shutdownCells m picture, m.At (c.put m)

/--
**All screen writers agree.** For every mode that `kernel_main` accepts, with a pitch that is a
multiple of 4 and at least 4 times the width: the writers agree, and stay inside the back buffer,
if and only if there are at most 1024 * 768 pixels and the rows follow each other without a gap
(unless there is only one row). The blit, `idt_draw_rect` and the boot screen are right in every
mode.
-/
theorem screen_writers_agree (mbinfo : MultibootInfo) {m : Mode} (hMode : m ∈ framebufferSetup mbinfo)
    (hRow : 4 * mbinfo.framebufferWidth.toNat ≤ mbinfo.framebufferPitch.toNat)
    (hAlign : 4 ∣ mbinfo.framebufferPitch.toNat) :
    (Agree m ↔ m.width.toNat * m.height.toNat ≤ 1024 * 768
        ∧ (m.pitch.toNat = 4 * m.width.toNat ∨ m.width.toNat = 0 ∨ m.height.toNat ≤ 1))
      ∧ (∀ bb, ∀ s ∈ frameBlit m bb, m.At s.put)
      ∧ (∀ x y w h color, ∀ e ∈ idtDrawRect m x y w h color, m.At e)
      ∧ ∀ font img w h, ∀ e ∈ showBootScreen font m img w h, m.At e := by
  rw [framebufferSetup] at hMode
  split at hMode
  · cases hMode
  obtain rfl := Option.some.inj hMode
  refine ⟨⟨?_, ?_⟩, at_frameBlit _ hAlign, fun _ _ _ _ _ _ => at_idtDrawRect _, at_showBootScreen _⟩
  · intro h
    have hFits := fill_bounded_iff.mp h.fill
    exact ⟨hFits, (shutdown_at_iff hRow hFits).mp h.shutdown⟩
  · rintro ⟨hFits, hGap⟩
    exact
      { fill := fill_bounded_iff.mpr hFits
        source := source_bounded hFits
        blit := at_frameBlit _ hAlign
        rect := fun _ _ _ _ _ _ => at_idtDrawRect _
        boot := at_showBootScreen _
        shutdown := (shutdown_at_iff hRow hFits).mpr hGap }

/-- A mode as the boot loader describes it. -/
def mode (width height pitch : BitVec 32) : MultibootInfo :=
  { flags := 0x800, framebufferAddr := 0xE0000000, framebufferPitch := pitch
    framebufferWidth := width, framebufferHeight := height }

theorem screen_writers_agree_1024 :
    Agree { framebuffer := 0xE0000000, width := 1024, height := 768, pitch := 4096 } :=
  (screen_writers_agree (mode 1024 768 4096) rfl (by decide) (by decide)).1.mpr (by decide)

/-- At 1280 by 1024 the background fill goes beyond the end of the back buffer. At 800 by 600
with rows of 3328 bytes `sys_shutdown` writes pixel (0, 1) at offset 3200. -/
theorem screen_writers_disagree :
    (∃ m ∈ framebufferSetup (mode 1280 1024 5120), ∃ e ∈ backgroundFill m 0,
        ¬ e.offset.toNat / 4 < backBufferSize)
      ∧ ∃ m ∈ framebufferSetup (mode 800 600 3328), ∃ c ∈ shutdownCells m none, ¬ m.At (c.put m)
          ∧ (c.put m).x = 0 ∧ (c.put m).y = 1 ∧ (c.put m).offset = 3200 := by
  constructor
  · refine ⟨_, rfl, putpixel 512 614 0 5120, ?_, by decide⟩
    exact mem_overRows.mpr ⟨512, 614, by decide, by decide, List.mem_singleton_self _⟩
  · refine ⟨_, rfl, { x := 0, y := 1, color := 0 }, ?_, by decide⟩
    exact List.mem_append_left _ (List.mem_map.mpr ⟨800, List.mem_range.mpr (by decide), rfl⟩)

end Nao.Graphics
