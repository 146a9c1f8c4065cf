import Nao.Kernel.Strings

/-!
# The theme file — definitions

`theme_save_to_disk` and `theme_load_from_disk` of `kernel.c`, and the configuration they save
in `0:/color.conf`. The file system is outside: saving ends with the bytes that `f_write` is
given, loading begins with the bytes that `f_read` finds.
-/

namespace Nao.Theme

open SysLib Kernel

/-- Four `int`s such as `win_r`, `win_g`, `win_b` and `win_a`. -/
structure Shade where
  r : BitVec 32
  g : BitVec 32
  b : BitVec 32
  a : BitVec 32
  deriving DecidableEq

/-- Three `int`s without an alpha. -/
structure Backdrop where
  r : BitVec 32
  g : BitVec 32
  b : BitVec 32
  deriving DecidableEq

/-- `struct ui_theme_config`. -/
structure UiThemeConfig where
  win             : Shade
  title           : Shade
  btn             : Shade
  bg              : Backdrop
  useTransparency : BitVec 32
  roundCorners    : BitVec 32
  deriving DecidableEq

/-- `current_theme`, and the globals `bg_r`, `bg_g` and `bg_b`. -/
structure Desktop where
  currentTheme : UiThemeConfig
  bg           : Backdrop
  deriving DecidableEq

-- ---------------------------------------------------------------------------
-- theme_save_to_disk
-- ---------------------------------------------------------------------------

def themeFormat : List UInt8 :=
  lit "trans=%d\nwin=%d,%d,%d,%d\ntitle=%d,%d,%d,%d\nbtn=%d,%d,%d,%d\nbg=%d,%d,%d\n"

/-- The components in the order in which they are saved. -/
def UiThemeConfig.saved (t : UiThemeConfig) : List (BitVec 32) :=
  [t.useTransparency,
   t.win.r, t.win.g, t.win.b, t.win.a,
   t.title.r, t.title.g, t.title.b, t.title.a,
   t.btn.r, t.btn.g, t.btn.b, t.btn.a,
   t.bg.r, t.bg.g, t.bg.b]

/-- The bytes that `f_write` is given; `writeBuffer` is what the local array happens to hold. -/
def themeSaveToDisk (writeBuffer : Mem) (d : Desktop) : List UInt8 :=
  let (writeBuffer, len) := miniSnprintf writeBuffer 256 themeFormat (d.currentTheme.saved.map .word)
  writeBuffer.slice 0 len

-- ---------------------------------------------------------------------------
-- theme_load_from_disk
-- ---------------------------------------------------------------------------

/-- `Default Fallbacks`; the corners are not among them. -/
def defaultFallbacks (t : UiThemeConfig) : UiThemeConfig :=
  { t with
    useTransparency := 0
    win := ⟨45, 45, 45, 220⟩
    title := ⟨30, 30, 30, 240⟩
    btn := ⟨60, 60, 60, 255⟩
    bg := ⟨0, 42, 54⟩ }

/-- The text from `p` on, with its terminator. -/
def textAt (p : List UInt8) : Mem := fun i => p.getD i 0

/-- `if (*p == ',') p++;` -/
def skipComma : List UInt8 → List UInt8
  | 0x2C :: p => p
  | p => p

/-- Four numbers with commas between them. -/
def readShade (p : List UInt8) : Shade × List UInt8 :=
  let (r, p) := strtol p
  let (g, p) := strtol (skipComma p)
  let (b, p) := strtol (skipComma p)
  let (a, p) := strtol (skipComma p)
  (⟨r, g, b, a⟩, p)

def readBackdrop (p : List UInt8) : Backdrop × List UInt8 :=
  let (r, p) := strtol p
  let (g, p) := strtol (skipComma p)
  let (b, p) := strtol (skipComma p)
  (⟨r, g, b⟩, p)

/-- The chain of `if`s over the keys: the configuration, and where `p` is left. -/
def readKey (p : List UInt8) (t : UiThemeConfig) : UiThemeConfig × List UInt8 :=
  if strncmp (textAt p) (lit "trans=") 6 = 0 then
    let (v, p) := strtol (p.drop 6)
    ({ t with useTransparency := v }, p)
  else if strncmp (textAt p) (lit "win=") 4 = 0 then
    let (c, p) := readShade (p.drop 4)
    ({ t with win := c }, p)
  else if strncmp (textAt p) (lit "title=") 6 = 0 then
    let (c, p) := readShade (p.drop 6)
    ({ t with title := c }, p)
  else if strncmp (textAt p) (lit "btn=") 4 = 0 then
    let (c, p) := readShade (p.drop 4)
    ({ t with btn := c }, p)
  else if strncmp (textAt p) (lit "bg=") 3 = 0 then
    let (c, p) := readBackdrop (p.drop 3)
    ({ t with bg := c }, p)
  else (t, p)

/-- `while (*p != '\0' && *p != '\n') p++; if (*p == '\n') p++;` -/
def skipLine : List UInt8 → List UInt8
  | [] => []
  | c :: p => if c = 0x0A then p else skipLine p

theorem length_strtolFrom_le (result : BitVec 32) (p : List UInt8) :
    (strtolFrom result p).2.length ≤ p.length := by
  induction p generalizing result with
  | nil => exact Nat.le_refl _
  | cons c p ih =>
    rw [strtolFrom]
    split
    · exact Nat.le_succ_of_le (ih _)
    · exact Nat.le_refl _

theorem length_strtol_le (p : List UInt8) : (strtol p).2.length ≤ p.length :=
  length_strtolFrom_le 0 p

theorem length_skipComma_le (p : List UInt8) : (skipComma p).length ≤ p.length := by
  unfold skipComma
  split
  · exact Nat.le_succ _
  · exact Nat.le_refl _

theorem length_strtol_skipComma_le (p : List UInt8) :
    (strtol (skipComma p)).2.length ≤ p.length :=
  Nat.le_trans (length_strtol_le _) (length_skipComma_le p)

theorem length_readBackdrop_le (p : List UInt8) : (readBackdrop p).2.length ≤ p.length :=
  Nat.le_trans (length_strtol_skipComma_le _) <|
    Nat.le_trans (length_strtol_skipComma_le _) (length_strtol_le p)

theorem length_readShade_le (p : List UInt8) : (readShade p).2.length ≤ p.length :=
  Nat.le_trans (length_strtol_skipComma_le _) (length_readBackdrop_le p)

/-- Reading a key never goes back. -/
theorem length_readKey_le (p : List UInt8) (t : UiThemeConfig) :
    (readKey p t).2.length ≤ p.length := by
  have hDrop : ∀ n, (p.drop n).length ≤ p.length := by
    intro n
    rw [List.length_drop]
    exact Nat.sub_le ..
  unfold readKey
  split
  · exact Nat.le_trans (length_strtol_le _) (hDrop 6)
  split
  · exact Nat.le_trans (length_readShade_le _) (hDrop 4)
  split
  · exact Nat.le_trans (length_readShade_le _) (hDrop 6)
  split
  · exact Nat.le_trans (length_readShade_le _) (hDrop 4)
  split
  · exact Nat.le_trans (length_readBackdrop_le _) (hDrop 3)
  · exact Nat.le_refl _

theorem length_skipLine_le (p : List UInt8) : (skipLine p).length ≤ p.length - 1 := by
  induction p with
  | nil => exact Nat.le_refl _
  | cons c p ih =>
    rw [skipLine, List.length_cons, Nat.add_sub_cancel]
    split
    · exact Nat.le_refl _
    · exact Nat.le_trans ih (Nat.sub_le ..)

/-- `while (*p != '\0')`: every turn takes at least one character. -/
def readConfig (p : List UInt8) (t : UiThemeConfig) : UiThemeConfig :=
  if p = [] then t
  else readConfig (skipLine (readKey p t).2) (readKey p t).1
termination_by p.length
decreasing_by
  have hPos : 0 < p.length := List.length_pos_iff.mpr ‹_›
  have hKey := length_readKey_le p t
  have hLine := length_skipLine_le (readKey p t).2
  omega

/-- `theme_load_from_disk`; `file` is what the file holds, if it can be opened. -/
def themeLoadFromDisk (file : Option (List UInt8)) (d : Desktop) : Desktop :=
  let t := defaultFallbacks d.currentTheme
  let t := match file with
    | some bytes =>
      let readBuffer : Mem := Mem.blit (fun _ => 0) 0 (bytes.take 255)
      readConfig (readBuffer.cstr 256) t
    | none => t
  { currentTheme := t, bg := t.bg }

end Nao.Theme
