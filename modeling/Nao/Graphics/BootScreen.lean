import Nao.Graphics.Geometry

/-!
# The boot screen

None of the writers of the boot screen clips. Each stays inside a rectangle that its arguments
give (`within_..`), and the rectangles are placed one below the other: the image, the bar 30 lines
below it, and the status text below the bar.

An image that is too high for the place above the bar is put at line 10. The bar and the text
below it then need another 71 lines behind its last one, so an image of more than 687 lines pushes
them off the screen (`boot_screen_on_screen_iff`).
-/

namespace Nao.Graphics

open Kernel

-- ---------------------------------------------------------------------------
-- Rectangles
-- ---------------------------------------------------------------------------

structure Rect where
  x : Int
  y : Int
  w : Int
  h : Int

/-- The pixel lies in the rectangle. -/
def Rect.Has (r : Rect) (e : Put) : Prop := r.x ≤ e.x ∧ e.x < r.x + r.w ∧ r.y ≤ e.y ∧ e.y < r.y + r.h

/-- All writes go to the rectangle. -/
def Within (r : Rect) (puts : List Put) : Prop := ∀ e ∈ puts, r.Has e

theorem Within.mono {r r' : Rect} {puts : List Put} (h : Within r puts)
    (hInside : (r'.x ≤ r.x ∧ r.x + r.w ≤ r'.x + r'.w) ∧ r'.y ≤ r.y ∧ r.y + r.h ≤ r'.y + r'.h) :
    Within r' puts := by
  intro e he
  obtain ⟨hLeft, hRight, hTop, hBottom⟩ := h e he
  exact ⟨by omega, by omega, by omega, by omega⟩

theorem within_append {r : Rect} {puts puts' : List Put} :
    Within r (puts ++ puts') ↔ Within r puts ∧ Within r puts' :=
  List.forall_mem_append

theorem within_nil (r : Rect) : Within r [] := List.forall_mem_nil _

/-- The two loops over a rectangle, with at most one write a turn. -/
theorem within_overRows {x y : Int} {w h : Nat} {body : Nat → Nat → List Put}
    (hBody : ∀ col row, ∀ e ∈ body col row, e.x = x + col ∧ e.y = y + row) :
    Within ⟨x, y, w, h⟩ (overRows w h body) := by
  intro e he
  obtain ⟨col, row, hCol, hRow, hMem⟩ := mem_overRows.mp he
  obtain ⟨hx, hy⟩ := hBody col row e hMem
  simp only [Rect.Has]
  omega

-- ---------------------------------------------------------------------------
-- The writers
-- ---------------------------------------------------------------------------

section Writers

variable {font : Font} {x y : Int} {color pitch : BitVec 32}

theorem within_bootDrawRect {w h : Int} (hw : 0 ≤ w) (hh : 0 ≤ h) :
    Within ⟨x, y, w, h⟩ (bootDrawRect x y w h color pitch) := by
  have hRect : Within ⟨x, y, w.toNat, h.toNat⟩ (bootDrawRect x y w h color pitch) := by
    refine within_overRows fun col row e he => ?_
    rw [List.mem_singleton.mp he]
    exact ⟨rfl, rfl⟩
  rwa [Int.toNat_of_nonneg hw, Int.toNat_of_nonneg hh] at hRect

theorem within_drawChar {c : UInt8} : Within ⟨x, y, 8, 8⟩ (drawChar font x y c color pitch) := by
  rw [drawChar]
  split
  · exact within_nil _
  · refine within_overRows (w := 8) (h := 8) fun col row e he => ?_
    split at he
    · rw [List.mem_singleton.mp he]
      exact ⟨rfl, rfl⟩
    · cases he

theorem within_bootDrawString (str : List UInt8) :
    Within ⟨x, y, 8 * str.length, 8⟩ (bootDrawString font x y color pitch str) := by
  induction str generalizing x with
  | nil => exact within_nil _
  | cons c str ih =>
    have hLength : ((c :: str).length : Int) = str.length + 1 := by simp
    rw [bootDrawString, within_append]
    constructor
    · refine within_drawChar.mono ?_
      dsimp only
      omega
    · refine (ih (x := x + 8)).mono ?_
      dsimp only
      omega

theorem within_bootDrawImage {pixels : Nat → BitVec 32} {imgW imgH : Nat} :
    Within ⟨x, y, imgW, imgH⟩ (bootDrawImage x y pixels imgW imgH pitch) := by
  refine within_overRows fun px py e he => ?_
  dsimp only at he
  split at he
  · cases he
  · rw [List.mem_singleton.mp he]
    exact ⟨rfl, rfl⟩

/-- The filled part is never wider than the bar. -/
theorem within_bootDrawProgressBar {width height pct : Int} (hWidth : 4 ≤ width) (hHeight : 4 ≤ height)
    (hPct : 0 ≤ pct ∧ pct ≤ 100) :
    Within ⟨x, y, width, height⟩ (bootDrawProgressBar x y width height pct pitch) := by
  have hFill : ((width - 4) * pct).tdiv 100 ≤ width - 4 := by
    have hMul : (width - 4) * pct ≤ (width - 4) * 100 := Int.mul_le_mul_of_nonneg_left hPct.2 (by omega)
    have hNonneg : 0 ≤ (width - 4) * pct := Int.mul_nonneg (by omega) hPct.1
    rw [Int.tdiv_eq_ediv_of_nonneg hNonneg]
    omega
  simp only [bootDrawProgressBar, within_append]
  refine ⟨⟨within_bootDrawRect (by omega) (by omega), ?_⟩, ?_⟩
  · refine (within_bootDrawRect (by omega) (by omega)).mono ?_
    dsimp only
    omega
  · split
    · refine (within_bootDrawRect (by omega) (by omega)).mono ?_
      dsimp only
      omega
    · exact within_nil _

-- ---------------------------------------------------------------------------
-- A turn of the animation
-- ---------------------------------------------------------------------------

theorem length_pctStr_le (pct : Nat) : (pctStr pct).length ≤ 4 := by
  rw [pctStr]
  split
  · decide
  split <;> simp

theorem length_stage_le (i : Nat) : (stages.getD i []).length ≤ 40 := by
  have hAll : ∀ s ∈ stages, s.length ≤ 40 := by decide
  rcases Nat.lt_or_ge i stages.length with hi | hi
  · rw [List.getD_eq_getElem _ _ hi]
    exact hAll _ (List.getElem_mem hi)
  · rw [List.getD_eq_default _ _ hi]
    decide

/-- The bar, the percentage to its right and the status below take 380 by 41 pixels. -/
theorem within_progressTurn {barX barY : Int} {pct : Nat} (hPct : pct ≤ 100) :
    Within ⟨barX, barY, 380, 41⟩ (progressTurn font barX barY pitch pct) := by
  have hText := length_pctStr_le pct
  have hMiddle : ((22 : Int) - 8).tdiv 2 = 7 := by decide
  simp only [progressTurn, within_append, hMiddle]
  refine ⟨⟨⟨⟨?_, ?_⟩, ?_⟩, ?_⟩, ?_⟩
  · refine (within_bootDrawProgressBar (by omega) (by omega) (by omega)).mono ?_
    dsimp only
    omega
  · refine (within_bootDrawRect (by omega) (by omega)).mono ?_
    dsimp only
    omega
  · refine (within_bootDrawString _).mono ?_
    dsimp only
    omega
  · refine (within_bootDrawRect (by omega) (by omega)).mono ?_
    dsimp only
    omega
  · generalize (if pct * stages.length / 100 ≥ stages.length then stages.length - 1
      else pct * stages.length / 100) = i
    have hStage := length_stage_le i
    rw [Int.tdiv_eq_ediv_of_nonneg (by omega)]
    refine (within_bootDrawString _).mono ?_
    dsimp only
    omega

/-- The last line of the area that is cleared for the status text. -/
theorem last_line_mem (barX barY : Int) (pct : Nat) :
    putpixel barX (barY + 40) 0x001A1A2E pitch ∈ progressTurn font barX barY pitch pct := by
  have hRect : putpixel barX (barY + 40) 0x001A1A2E pitch
      ∈ bootDrawRect barX (barY + 22 + 5) 320 14 0x001A1A2E pitch := by
    refine mem_overRows.mpr ⟨0, 13, by decide, by decide, List.mem_singleton.mpr ?_⟩
    have hx : barX + (0 : Nat) = barX := by omega
    have hy : barY + 22 + 5 + (13 : Nat) = barY + 40 := by omega
    rw [hx, hy]
  simp only [progressTurn, List.mem_append]
  exact .inl (.inr hRect)

end Writers

-- ---------------------------------------------------------------------------
-- Main result
-- ---------------------------------------------------------------------------

/-- The mode that `boot.asm` asks for. -/
def bootMode (framebuffer pitch : BitVec 32) : Mode := { framebuffer, width := 1024, height := 768, pitch }

def screen : Rect := ⟨0, 0, 1024, 768⟩

/-- `img_y`: the image is centred in what the bar leaves, at line 10 or below. -/
def imageY (h : Nat) : Int :=
  let imgY := ((768 : Int) - h - 22 - 80).tdiv 2
  if imgY < 10 then 10 else imgY

theorem imageY_eq (h : Nat) : imageY h = if h ≤ 646 then ((666 - h) / 2 : Int) else 10 := by
  simp only [imageY]
  rcases Int.le_total 0 ((768 : Int) - h - 22 - 80) with hPos | hNeg
  · rw [Int.tdiv_eq_ediv_of_nonneg hPos]
    split <;> split <;> omega
  · have hTdiv : ((768 : Int) - h - 22 - 80).tdiv 2 ≤ 0 := by
      rw [← Int.neg_neg ((768 : Int) - h - 22 - 80), Int.neg_tdiv,
        Int.tdiv_eq_ediv_of_nonneg (by omega)]
      omega
    rw [if_pos (by omega), if_neg (by omega)]

/-- The sides of the screen, and `bar_x`. -/
theorem toInt_sides : (1024 : BitVec 32).toInt = 1024 ∧ (768 : BitVec 32).toInt = 768
    ∧ ((1024 : Int) - 320).tdiv 2 = 352 := by
  decide

section Screens

variable (font : Font) (framebuffer pitch : BitVec 32)

theorem showBootScreen_image (pixels : Nat → BitVec 32) {w h : Nat} (hw : 0 < w) (hh : 0 < h) :
    showBootScreen font (bootMode framebuffer pitch) (some pixels) w h
      = bootDrawRect 0 0 1024 768 0x001A1A2E pitch
        ++ bootDrawImage (((1024 : Int) - w).tdiv 2) (imageY h) pixels w h pitch
        ++ (List.range 101).flatMap (progressTurn font 352 (imageY h + h + 30) pitch)
        ++ bootDrawRect 0 0 1024 768 0x001A1A2E pitch := by
  obtain ⟨hWidth, hHeight, hBar⟩ := toInt_sides
  simp only [showBootScreen, bootMode, hWidth, hHeight, hBar, if_pos (And.intro hw hh), imageY]

/-- The title has 35 characters and begins at column 372 of line 344. -/
theorem showBootScreen_none (w h : Nat) :
    showBootScreen font (bootMode framebuffer pitch) none w h
      = bootDrawRect 0 0 1024 768 0x001A1A2E pitch
        ++ (bootDrawString font 372 344 0x0044AAFF pitch (lit "FATAL: 0:/boot.png Corrupt  Missing")
          ++ bootDrawString font 372 364 0x00AAAAAA pitch (lit "Corrupt."))
        ++ (List.range 101).flatMap (progressTurn font 352 404 pitch)
        ++ bootDrawRect 0 0 1024 768 0x001A1A2E pitch := by
  obtain ⟨hWidth, hHeight, hBar⟩ := toInt_sides
  have hTitle : (lit "FATAL: 0:/boot.png Corrupt  Missing").length = 35 := by decide
  have hX : ((1024 : Int) - (35 : Nat) * 8).tdiv 2 = 372 := by decide
  have hY : (768 : Int).tdiv 2 - 40 = 344 := by decide
  simp only [showBootScreen, showBootScreen.noImage, bootMode, hWidth, hHeight, hBar, hTitle, hX, hY,
    Int.reduceAdd]

end Screens

theorem within_turns {font : Font} {pitch : BitVec 32} {barY : Int} (hTop : 0 ≤ barY)
    (hBottom : barY ≤ 727) :
    Within screen ((List.range 101).flatMap (progressTurn font 352 barY pitch)) := by
  intro e he
  obtain ⟨pct, hPct, hMem⟩ := List.mem_flatMap.mp he
  rw [List.mem_range] at hPct
  have hTurn : Within ⟨352, barY, 380, 41⟩ (progressTurn font 352 barY pitch pct) :=
    within_progressTurn (by omega)
  refine hTurn.mono ?_ e hMem
  simp only [screen]
  omega

theorem within_clear {pitch : BitVec 32} :
    Within screen (bootDrawRect 0 0 1024 768 0x001A1A2E pitch) :=
  within_bootDrawRect (by decide) (by decide)

/--
**When the boot screen stays on the screen.** In the mode of 1024 by 768 pixels, for every font
and pitch: without an image every pixel that `show_boot_screen` draws is on the screen. With an
image that `kernel_main` accepts, whatever its pixels are, this is so if and only if it has at
most 687 lines.
-/
theorem boot_screen_on_screen_iff (font : Font) (framebuffer pitch : BitVec 32) :
    (∀ w h, Within screen (showBootScreen font (bootMode framebuffer pitch) none w h))
      ∧ ∀ pixels w h, 1 ≤ w → w ≤ 1024 → 1 ≤ h → h ≤ 768 →
          (Within screen (showBootScreen font (bootMode framebuffer pitch) (some pixels) w h)
            ↔ h ≤ 687) := by
  constructor
  · intro w h
    rw [showBootScreen_none]
    simp only [within_append]
    refine ⟨⟨⟨within_clear, ?_, ?_⟩, within_turns (by decide) (by decide)⟩, within_clear⟩
    · exact (within_bootDrawString _).mono (by decide)
    · exact (within_bootDrawString _).mono (by decide)
  · intro pixels w h hw hw' hh hh'
    have hY := imageY_eq h
    have hX : ((1024 : Int) - w).tdiv 2 = (1024 - w) / 2 := Int.tdiv_eq_ediv_of_nonneg (by omega)
    rw [showBootScreen_image font framebuffer pitch pixels hw hh]
    simp only [within_append]
    constructor
    · rintro ⟨⟨-, hTurns⟩, -⟩
      -- the first turn already clears the line where the status text ends
      have hLast := hTurns _ (List.mem_flatMap.mpr ⟨0, by simp, last_line_mem 352 _ 0⟩)
      simp only [Rect.Has, screen, putpixel] at hLast
      split at hY <;> omega
    · intro hSmall
      refine ⟨⟨⟨within_clear, ?_⟩, within_turns ?_ ?_⟩, within_clear⟩
      · refine within_bootDrawImage.mono ?_
        simp only [screen]
        split at hY <;> omega
      · split at hY <;> omega
      · split at hY <;> omega

/-- With an image of the whole screen the status text is cleared at line 848. -/
theorem boot_screen_leaves_screen :
    ∃ e ∈ showBootScreen (fun _ _ => 0) (bootMode 0 4096) (some fun _ => 0) 1024 768,
      e.y = 848 ∧ ¬ screen.Has e := by
  rw [showBootScreen_image _ _ _ _ (by decide) (by decide)]
  refine ⟨putpixel 352 848 0x001A1A2E 4096, ?_, rfl, ?_⟩
  · refine List.mem_append_left _ (List.mem_append_right _ ?_)
    exact List.mem_flatMap.mpr ⟨0, by simp, last_line_mem 352 (imageY 768 + 768 + 30) 0⟩
  · simp [Rect.Has, screen, putpixel]

end Nao.Graphics
