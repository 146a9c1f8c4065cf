import Nao.Kernel.Format
import Nao.Lib.Bits
import Nao.Theme.Lines

/-!
# Saving and loading the theme

The file is a line for every key, with the numbers of a line separated by commas. Loading it
reads the same lines again.

* `expand_themeFormat` — the text that is saved, line by line.
* `readConfig_line` — a turn of the loop reads one line of it.
* `theme_round_trip` — what was saved is loaded, for all components that are not negative.
-/

namespace Nao.Theme

open SysLib Kernel

-- ---------------------------------------------------------------------------
-- Numbers in the file
-- ---------------------------------------------------------------------------

theorem strtol_printed {w : BitVec 32} (h : 0 ≤ w.toInt) {c : UInt8} (hEnd : c < 0x30)
    (rest : List UInt8) : strtol (decimal w.toInt ++ c :: rest) = (w, c :: rest) := by
  obtain ⟨hNat, hLt⟩ := toInt_of_nonneg h
  rw [hNat, strtol_decimal hLt hEnd, BitVec.ofNat_toNat, BitVec.setWidth_eq]

/-- The numbers of a line. -/
def Shade.text (s : Shade) : List UInt8 :=
  decimal s.r.toInt ++ 0x2C :: (decimal s.g.toInt ++ 0x2C :: (decimal s.b.toInt ++ 0x2C ::
    decimal s.a.toInt))

def Backdrop.text (s : Backdrop) : List UInt8 :=
  decimal s.r.toInt ++ 0x2C :: (decimal s.g.toInt ++ 0x2C :: decimal s.b.toInt)

structure Shade.Nonneg (s : Shade) : Prop where
  r : 0 ≤ s.r.toInt
  g : 0 ≤ s.g.toInt
  b : 0 ≤ s.b.toInt
  a : 0 ≤ s.a.toInt

structure Backdrop.Nonneg (s : Backdrop) : Prop where
  r : 0 ≤ s.r.toInt
  g : 0 ≤ s.g.toInt
  b : 0 ≤ s.b.toInt

theorem readShade_text {s : Shade} (h : s.Nonneg) (rest : List UInt8) :
    readShade (s.text ++ 0x0A :: rest) = (s, 0x0A :: rest) := by
  simp only [readShade, Shade.text, List.append_assoc, List.cons_append,
    strtol_printed h.r (c := 0x2C) (by decide), strtol_printed h.g (c := 0x2C) (by decide),
    strtol_printed h.b (c := 0x2C) (by decide), strtol_printed h.a (c := 0x0A) (by decide), skipComma]

theorem readBackdrop_text {s : Backdrop} (h : s.Nonneg) (rest : List UInt8) :
    readBackdrop (s.text ++ 0x0A :: rest) = (s, 0x0A :: rest) := by
  simp only [readBackdrop, Backdrop.text, List.append_assoc, List.cons_append,
    strtol_printed h.r (c := 0x2C) (by decide), strtol_printed h.g (c := 0x2C) (by decide),
    strtol_printed h.b (c := 0x0A) (by decide), skipComma]

-- ---------------------------------------------------------------------------
-- The keys, as bytes
-- ---------------------------------------------------------------------------

theorem lit_trans : lit "trans=" = [0x74, 0x72, 0x61, 0x6E, 0x73, 0x3D] := rfl

theorem lit_win : lit "win=" = [0x77, 0x69, 0x6E, 0x3D] := rfl

theorem lit_title : lit "title=" = [0x74, 0x69, 0x74, 0x6C, 0x65, 0x3D] := rfl

theorem lit_btn : lit "btn=" = [0x62, 0x74, 0x6E, 0x3D] := rfl

theorem lit_bg : lit "bg=" = [0x62, 0x67, 0x3D] := rfl

-- ---------------------------------------------------------------------------
-- The file
-- ---------------------------------------------------------------------------

/-- All components that are saved are between 0 and `2 ^ 31 - 1`. -/
def UiThemeConfig.Nonneg (t : UiThemeConfig) : Prop := ∀ v ∈ t.saved, 0 ≤ v.toInt

theorem UiThemeConfig.Nonneg.parts {t : UiThemeConfig} (h : t.Nonneg) :
    0 ≤ t.useTransparency.toInt ∧ t.win.Nonneg ∧ t.title.Nonneg ∧ t.btn.Nonneg ∧ t.bg.Nonneg := by
  simp only [UiThemeConfig.Nonneg, UiThemeConfig.saved, List.forall_mem_cons] at h
  obtain ⟨ht, hwr, hwg, hwb, hwa, htr, htg, htb, hta, hbr, hbg, hbb, hba, hr, hg, hb, -⟩ := h
  exact ⟨ht, ⟨hwr, hwg, hwb, hwa⟩, ⟨htr, htg, htb, hta⟩, ⟨hbr, hbg, hbb, hba⟩, ⟨hr, hg, hb⟩⟩

/-- The lines of the file. -/
def themeText (t : UiThemeConfig) : List UInt8 :=
  lit "trans=" ++ (decimal t.useTransparency.toInt ++ 0x0A ::
  (lit "win=" ++ (t.win.text ++ 0x0A ::
  (lit "title=" ++ (t.title.text ++ 0x0A ::
  (lit "btn=" ++ (t.btn.text ++ 0x0A ::
  (lit "bg=" ++ (t.bg.text ++ [0x0A])))))))))

theorem expand_number {w : BitVec 32} (h : 0 ≤ w.toInt) (format : List UInt8) (args : List Arg) :
    expand (0x25 :: 0x64 :: format) (.word w :: args) = decimal w.toInt ++ expand format args := by
  simp [expand, conversion, Int.not_lt.mpr h]

theorem expand_cons {c : UInt8} (h : c ≠ 0x25) (format : List UInt8) (args : List Arg) :
    expand (c :: format) args = c :: expand format args := by
  cases format <;> simp [expand, h]

theorem expand_append (cs : List UInt8) (h : 0x25 ∉ cs) (format : List UInt8) (args : List Arg) :
    expand (cs ++ format) args = cs ++ expand format args := by
  induction cs with
  | nil => rfl
  | cons c cs ih =>
    rw [List.mem_cons, not_or] at h
    rw [List.cons_append, expand_cons (Ne.symm h.1), ih h.2, List.cons_append]

theorem expand_shade {s : Shade} (h : s.Nonneg) (format : List UInt8) (args : List Arg) :
    expand (lit "%d,%d,%d,%d" ++ format) (.word s.r :: .word s.g :: .word s.b :: .word s.a :: args)
      = s.text ++ expand format args := by
  have hLit : lit "%d,%d,%d,%d"
      = [0x25, 0x64, 0x2C, 0x25, 0x64, 0x2C, 0x25, 0x64, 0x2C, 0x25, 0x64] := rfl
  have hComma : (0x2C : UInt8) ≠ 0x25 := by decide
  simp only [hLit, List.cons_append, List.nil_append, expand_number h.r, expand_number h.g,
    expand_number h.b, expand_number h.a, expand_cons hComma, Shade.text, List.append_assoc]

theorem expand_backdrop {s : Backdrop} (h : s.Nonneg) (format : List UInt8) (args : List Arg) :
    expand (lit "%d,%d,%d" ++ format) (.word s.r :: .word s.g :: .word s.b :: args)
      = s.text ++ expand format args := by
  have hLit : lit "%d,%d,%d" = [0x25, 0x64, 0x2C, 0x25, 0x64, 0x2C, 0x25, 0x64] := rfl
  have hComma : (0x2C : UInt8) ≠ 0x25 := by decide
  simp only [hLit, List.cons_append, List.nil_append, expand_number h.r, expand_number h.g,
    expand_number h.b, expand_cons hComma, Backdrop.text, List.append_assoc]

theorem expand_themeFormat {t : UiThemeConfig} (h : t.Nonneg) :
    expand themeFormat (t.saved.map .word) = themeText t := by
  obtain ⟨hTrans, hWin, hTitle, hBtn, hBg⟩ := h.parts
  have hFormat : themeFormat =
      lit "trans=" ++ (0x25 :: 0x64 :: 0x0A ::
      (lit "win=" ++ (lit "%d,%d,%d,%d" ++ 0x0A ::
      (lit "title=" ++ (lit "%d,%d,%d,%d" ++ 0x0A ::
      (lit "btn=" ++ (lit "%d,%d,%d,%d" ++ 0x0A ::
      (lit "bg=" ++ (lit "%d,%d,%d" ++ [0x0A]))))))))) := rfl
  have hLine : (0x0A : UInt8) ≠ 0x25 := by decide
  simp only [UiThemeConfig.saved, List.map_cons, List.map_nil]
  rw [hFormat, themeText, expand_append (lit "trans=") (by decide), expand_number hTrans,
    expand_cons hLine, expand_append (lit "win=") (by decide), expand_shade hWin,
    expand_cons hLine, expand_append (lit "title=") (by decide), expand_shade hTitle,
    expand_cons hLine, expand_append (lit "btn=") (by decide), expand_shade hBtn,
    expand_cons hLine, expand_append (lit "bg=") (by decide), expand_backdrop hBg,
    expand_cons hLine, expand]

theorem length_printed_le {w : BitVec 32} (h : 0 ≤ w.toInt) : (decimal w.toInt).length ≤ 10 := by
  rw [(toInt_of_nonneg h).1]
  exact length_decimal_le (toInt_of_nonneg h).2

theorem length_themeText_le {t : UiThemeConfig} (h : t.Nonneg) : (themeText t).length ≤ 199 := by
  obtain ⟨hTrans, hWin, hTitle, hBtn, hBg⟩ := h.parts
  have hShade : ∀ s : Shade, s.Nonneg → s.text.length ≤ 43 := by
    intro s hs
    have := length_printed_le hs.r
    have := length_printed_le hs.g
    have := length_printed_le hs.b
    have := length_printed_le hs.a
    simp only [Shade.text, List.length_append, List.length_cons]
    omega
  have hBackdrop : t.bg.text.length ≤ 32 := by
    have := length_printed_le hBg.r
    have := length_printed_le hBg.g
    have := length_printed_le hBg.b
    simp only [Backdrop.text, List.length_append, List.length_cons]
    omega
  have := length_printed_le hTrans
  have := hShade _ hWin
  have := hShade _ hTitle
  have := hShade _ hBtn
  simp only [themeText, List.length_append, List.length_cons, List.length_nil, lit_trans, lit_win,
    lit_title, lit_btn, lit_bg]
  omega

theorem zero_not_mem_printed {w : BitVec 32} (h : 0 ≤ w.toInt) : 0 ∉ decimal w.toInt := by
  rw [(toInt_of_nonneg h).1]
  exact zero_not_mem_decimal (toInt_of_nonneg h).2

theorem zero_not_mem_themeText {t : UiThemeConfig} (h : t.Nonneg) : 0 ∉ themeText t := by
  obtain ⟨hTrans, hWin, hTitle, hBtn, hBg⟩ := h.parts
  have hShade : ∀ s : Shade, s.Nonneg → 0 ∉ s.text := by
    intro s hs
    simp [Shade.text, zero_not_mem_printed hs.r, zero_not_mem_printed hs.g,
      zero_not_mem_printed hs.b, zero_not_mem_printed hs.a]
  have hBackdrop : 0 ∉ t.bg.text := by
    simp [Backdrop.text, zero_not_mem_printed hBg.r, zero_not_mem_printed hBg.g,
      zero_not_mem_printed hBg.b]
  simp [themeText, lit_trans, lit_win, lit_title, lit_btn, lit_bg, zero_not_mem_printed hTrans,
    hShade _ hWin, hShade _ hTitle, hShade _ hBtn, hBackdrop]

-- ---------------------------------------------------------------------------
-- Saving and loading
-- ---------------------------------------------------------------------------

/-- One turn of the loop, on a line that is read up to its end. -/
theorem readConfig_line (k : Key) {v : k.Value} {p rest : List UInt8} {t : UiThemeConfig}
    (h : k.read p = (v, 0x0A :: rest)) :
    readConfig (k.text ++ p) t = readConfig rest (t.setGroup k v) := by
  have hNonempty : k.text ++ p ≠ [] := by cases k <;> exact List.cons_ne_nil _ _
  rw [readConfig, if_neg hNonempty, readKey_text, h, skipLine, if_pos rfl]

theorem readConfig_themeText {t : UiThemeConfig} (h : t.Nonneg) (t₀ : UiThemeConfig) :
    readConfig (themeText t) t₀ = { t with roundCorners := t₀.roundCorners } := by
  obtain ⟨hTrans, hWin, hTitle, hBtn, hBg⟩ := h.parts
  refine (readConfig_line .trans (strtol_printed hTrans (by decide) _)).trans ?_
  refine (readConfig_line .win (readShade_text hWin _)).trans ?_
  refine (readConfig_line .title (readShade_text hTitle _)).trans ?_
  refine (readConfig_line .btn (readShade_text hBtn _)).trans ?_
  refine (readConfig_line .bg (readBackdrop_text hBg _)).trans ?_
  rw [readConfig, if_pos rfl]
  rfl

/--
**Saving and loading a theme.** For every theme whose sixteen saved components are between 0 and
`2 ^ 31 - 1`, `theme_save_to_disk` writes the whole text, which leaves room for its terminator
in the 256 bytes of the buffer. `theme_load_from_disk` on these bytes gives back all sixteen
components, and sets the desktop background to the background components; the corners keep
the value they have.
-/
theorem theme_round_trip (writeBuffer : Mem) {d : Desktop} (h : d.currentTheme.Nonneg) (d' : Desktop) :
    themeSaveToDisk writeBuffer d = expand themeFormat (d.currentTheme.saved.map .word)
      ∧ (themeSaveToDisk writeBuffer d).length < 256
      ∧ themeLoadFromDisk (some (themeSaveToDisk writeBuffer d)) d'
          = { currentTheme := { d.currentTheme with roundCorners := d'.currentTheme.roundCorners }
              bg := d.currentTheme.bg } := by
  have hLength := length_themeText_le h
  have hSaved : themeSaveToDisk writeBuffer d = themeText d.currentTheme := by
    have hExpand := expand_themeFormat h
    rw [themeSaveToDisk, miniSnprintf_eq (by rw [hExpand]; omega), hExpand]
    simp only [Mem.slice_write8_of_le _ _ (Nat.le_of_eq (Nat.zero_add _)), Mem.slice_blit]
  have hRead : Mem.cstr (Mem.blit (fun _ => 0) 0 ((themeText d.currentTheme).take 255)) 256
      = themeText d.currentTheme := by
    rw [List.take_of_length_le (by omega)]
    refine Mem.cstr_eq (Mem.slice_blit ..) ?_ (by omega) ?_
    · exact Mem.blit_of_disjoint _ _ (.inr (Nat.le_of_eq (Nat.zero_add _)))
    · intro b hb hZero
      exact zero_not_mem_themeText h (hZero ▸ hb)
  refine ⟨hSaved.trans (expand_themeFormat h).symm, by rw [hSaved]; omega, ?_⟩
  rw [hSaved, themeLoadFromDisk]
  simp only [hRead, readConfig_themeText h]
  rfl

/-- A theme with large and small components. -/
def demoTheme : Desktop :=
  { currentTheme :=
      { win := ⟨2147483647, 0, 10, 255⟩, title := ⟨1, 99, 100, 101⟩, btn := ⟨0, 0, 0, 1000000000⟩
        bg := ⟨7, 42, 2147483647⟩, useTransparency := 1, roundCorners := 1 }
    bg := ⟨0, 0, 0⟩ }

theorem nonneg_demoTheme : demoTheme.currentTheme.Nonneg := by
  simp [UiThemeConfig.Nonneg, UiThemeConfig.saved, demoTheme]

theorem theme_round_trip_demo :
    themeLoadFromDisk (some (themeSaveToDisk (fun _ => 0xFF) demoTheme)) demoTheme
      = { demoTheme with bg := ⟨7, 42, 2147483647⟩ } :=
  (theme_round_trip (fun _ => 0xFF) (d := demoTheme) nonneg_demoTheme demoTheme).2.2

end Nao.Theme
