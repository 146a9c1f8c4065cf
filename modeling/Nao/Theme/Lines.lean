import Nao.Kernel.Format
import Nao.Lib.Lines
import Nao.Theme.Definitions

/-!
# The theme file, line by line

`theme_load_from_disk` moves one pointer through the whole file: over a key, over up to four
numbers and the commas between them, and then to the next line. Numbers, commas and newlines may
be missing. No line's parse leaks into the next, since none of the readers takes a newline
(`strtol_local`, `readShade_local`, `readBackdrop_local`) and no key contains one.

The loop is therefore a fold over the lines (`readConfig_eq`), of an update that sets the group
its key names.
-/

namespace Nao.Theme

open SysLib Kernel

-- ---------------------------------------------------------------------------
-- The groups of the configuration
-- ---------------------------------------------------------------------------

inductive Key where
  | trans
  | win
  | title
  | btn
  | bg
  deriving DecidableEq

/-- What a line of this key gives. -/
abbrev Key.Value : Key → Type
  | .trans => BitVec 32
  | .win | .title | .btn => Shade
  | .bg => Backdrop

/-- The keys in the order of the `if`s. -/
def Key.all : List Key := [.trans, .win, .title, .btn, .bg]

def Key.text : Key → List UInt8
  | .trans => lit "trans="
  | .win => lit "win="
  | .title => lit "title="
  | .btn => lit "btn="
  | .bg => lit "bg="

/-- What stands behind the key. -/
def Key.read : (k : Key) → List UInt8 → k.Value × List UInt8
  | .trans => strtol
  | .win | .title | .btn => readShade
  | .bg => readBackdrop

def UiThemeConfig.group (t : UiThemeConfig) : (k : Key) → k.Value
  | .trans => t.useTransparency
  | .win => t.win
  | .title => t.title
  | .btn => t.btn
  | .bg => t.bg

def UiThemeConfig.setGroup (t : UiThemeConfig) : (k : Key) → k.Value → UiThemeConfig
  | .trans, v => { t with useTransparency := v }
  | .win, v => { t with win := v }
  | .title, v => { t with title := v }
  | .btn, v => { t with btn := v }
  | .bg, v => { t with bg := v }

/-- The configuration as a record of its groups. -/
def groups : Fields UiThemeConfig Key Key.Value where
  get := UiThemeConfig.group
  set := UiThemeConfig.setGroup
  get_set t k v := by cases k <;> rfl
  get_set_ne t k k' v h := by cases k <;> cases k' <;> first | rfl | exact absurd rfl h
  set_comm t k k' v v' h := by cases k <;> cases k' <;> first | rfl | exact absurd rfl h

/-- The key that a line begins with. -/
def keyOf (line : List UInt8) : Option Key := Key.all.find? fun k => k.text.isPrefixOf line

/-- The value that a line gives to a group. -/
def valueOf (k : Key) (line : List UInt8) : k.Value := (k.read (line.drop k.text.length)).1

/-- What a line does to the configuration: it sets the group that its key names. -/
def readLine : UiThemeConfig → List UInt8 → UiThemeConfig := groups.update keyOf valueOf

-- ---------------------------------------------------------------------------
-- No reader takes a newline
-- ---------------------------------------------------------------------------

theorem strtolFrom_append (result : BitVec 32) (line : List UInt8) {rest : List UInt8}
    (hRest : LineEnd 0x0A rest) :
    strtolFrom result (line ++ rest)
      = ((strtolFrom result line).1, (strtolFrom result line).2 ++ rest) := by
  induction line generalizing result with
  | nil =>
    cases rest with
    | nil => rfl
    | cons c rest =>
      obtain rfl : c = 0x0A := hRest c (by simp)
      rfl
  | cons c line ih =>
    rw [List.cons_append, strtolFrom, strtolFrom]
    split
    · exact ih _
    · rfl

theorem strtolFrom_suffix (result : BitVec 32) (line : List UInt8) :
    (strtolFrom result line).2 <:+ line := by
  induction line generalizing result with
  | nil => exact List.suffix_rfl
  | cons c line ih =>
    rw [strtolFrom]
    split
    · exact (ih _).trans (List.suffix_cons ..)
    · exact List.suffix_rfl

theorem strtol_local : LineLocal 0x0A strtol where
  append line _ hRest := strtolFrom_append 0 line hRest
  suffix line := strtolFrom_suffix 0 line

theorem skipComma_append (line : List UInt8) {rest : List UInt8} (hRest : LineEnd 0x0A rest) :
    skipComma (line ++ rest) = skipComma line ++ rest := by
  cases line with
  | nil =>
    cases rest with
    | nil => rfl
    | cons c rest =>
      obtain rfl : c = 0x0A := hRest c (by simp)
      rfl
  | cons c line =>
    by_cases hc : c = 0x2C
    · rw [hc]
      rfl
    · simp [skipComma, hc]

theorem skipComma_suffix (line : List UInt8) : skipComma line <:+ line := by
  unfold skipComma
  split
  · exact List.suffix_cons ..
  · exact List.suffix_rfl

/-- `if (*p == ',') p++;` and a number. -/
theorem strtol_skipComma_local : LineLocal 0x0A fun p => strtol (skipComma p) where
  append line rest hRest := by
    simp only [skipComma_append line hRest, strtol_local.append _ hRest]
  suffix line := (strtol_local.suffix _).trans (skipComma_suffix line)

theorem readBackdrop_local : LineLocal 0x0A readBackdrop :=
  strtol_local.andThen fun r => strtol_skipComma_local.andThen fun g =>
    strtol_skipComma_local.map fun b => (⟨r, g, b⟩ : Backdrop)

theorem readShade_local : LineLocal 0x0A readShade :=
  strtol_local.andThen fun r => strtol_skipComma_local.andThen fun g =>
    strtol_skipComma_local.andThen fun b => strtol_skipComma_local.map fun a => (⟨r, g, b, a⟩ : Shade)

theorem Key.read_local (k : Key) : LineLocal 0x0A k.read := by
  cases k with
  | trans => exact strtol_local
  | win | title | btn => exact readShade_local
  | bg => exact readBackdrop_local

-- ---------------------------------------------------------------------------
-- A turn of the loop
-- ---------------------------------------------------------------------------

theorem zero_notMem_text (k : Key) : 0 ∉ k.text := by
  cases k <;> decide

theorem newline_notMem_text (k : Key) : 0x0A ∉ k.text := by
  cases k <;> decide

theorem strncmp_text (k : Key) (p : List UInt8) :
    strncmp (textAt p) k.text k.text.length = 0 ↔ k.text.isPrefixOf p = true :=
  (strncmp_eq_zero_iff (zero_notMem_text k)).trans List.isPrefixOf_iff_prefix.symm

theorem find_cons (p : List UInt8) (k : Key) (ks : List Key) :
    (k :: ks).find? (fun k => k.text.isPrefixOf p)
      = if strncmp (textAt p) k.text k.text.length = 0 then some k
        else ks.find? fun k => k.text.isPrefixOf p := by
  have hIff := strncmp_text k p
  rw [List.find?_cons]
  split
  · rw [if_pos (hIff.mpr ‹_›)]
  · rw [if_neg (by simp_all)]

theorem keyOf_eq (p : List UInt8) :
    keyOf p = if strncmp (textAt p) (lit "trans=") 6 = 0 then some .trans
      else if strncmp (textAt p) (lit "win=") 4 = 0 then some .win
      else if strncmp (textAt p) (lit "title=") 6 = 0 then some .title
      else if strncmp (textAt p) (lit "btn=") 4 = 0 then some .btn
      else if strncmp (textAt p) (lit "bg=") 3 = 0 then some .bg
      else none := by
  simp only [keyOf, Key.all, find_cons, List.find?_nil]
  rfl

/-- The chain of `if`s is a search for the key. -/
theorem readKey_eq (p : List UInt8) (t : UiThemeConfig) :
    readKey p t = match keyOf p with
      | none => (t, p)
      | some k => (t.setGroup k (valueOf k p), (k.read (p.drop k.text.length)).2) := by
  rw [keyOf_eq]
  unfold readKey
  split_ifs <;> rfl

theorem keyOf_text (k : Key) (p : List UInt8) : keyOf (k.text ++ p) = some k := by
  cases k <;> rfl

/-- A line that begins with the key is recognised. -/
theorem readKey_text (k : Key) (p : List UInt8) (t : UiThemeConfig) :
    readKey (k.text ++ p) t = (t.setGroup k (k.read p).1, (k.read p).2) := by
  rw [readKey_eq, keyOf_text]
  simp only [valueOf, List.drop_left]

theorem prefix_of_keyOf {line : List UInt8} {k : Key} (h : keyOf line = some k) : k.text <+: line :=
  List.isPrefixOf_iff_prefix.mp (List.find?_some (p := fun k : Key => k.text.isPrefixOf line) h)

theorem keyOf_append (line : List UInt8) {rest : List UInt8} (hRest : LineEnd 0x0A rest) :
    keyOf (line ++ rest) = keyOf line := by
  have hSame : ∀ k : Key, k.text.isPrefixOf (line ++ rest) = k.text.isPrefixOf line := by
    intro k
    rw [Bool.eq_iff_iff, List.isPrefixOf_iff_prefix, List.isPrefixOf_iff_prefix,
      prefix_append_iff (newline_notMem_text k) hRest]
  simp only [keyOf, hSame]

/-- A key and its numbers are read from one line. -/
theorem readKey_local (t : UiThemeConfig) : LineLocal 0x0A fun p => readKey p t where
  append line rest hRest := by
    simp only [readKey_eq, keyOf_append line hRest]
    cases hKey : keyOf line with
    | none => rfl
    | some k =>
      have hDrop : (line ++ rest).drop k.text.length = line.drop k.text.length ++ rest :=
        List.drop_append_of_le_length (prefix_of_keyOf hKey).length_le
      simp only [valueOf, hDrop, k.read_local.append _ hRest]
  suffix line := by
    simp only [readKey_eq]
    cases keyOf line with
    | none => exact List.suffix_rfl
    | some k => exact (k.read_local.suffix _).trans (List.drop_suffix ..)

theorem readKey_fst (line : List UInt8) (t : UiThemeConfig) : (readKey line t).1 = readLine t line := by
  rw [readKey_eq, readLine, Fields.update]
  cases keyOf line <;> rfl

theorem skipLine_append {line : List UInt8} (h : 0x0A ∉ line) (rest : List UInt8) :
    skipLine (line ++ 0x0A :: rest) = rest := by
  induction line with
  | nil => rfl
  | cons c line ih =>
    rw [List.mem_cons, not_or] at h
    rw [List.cons_append, skipLine, if_neg (Ne.symm h.1), ih h.2]

theorem skipLine_of_notMem {line : List UInt8} (h : 0x0A ∉ line) : skipLine line = [] := by
  induction line with
  | nil => rfl
  | cons c line ih =>
    rw [List.mem_cons, not_or] at h
    rw [skipLine, if_neg (Ne.symm h.1), ih h.2]

/-- The loop is a fold over the lines. -/
theorem readConfig_eq (p : List UInt8) (t : UiThemeConfig) :
    readConfig p t = (p.splitOn 0x0A).foldl readLine t := by
  have hTurn : ∀ p (t : UiThemeConfig), p ≠ [] →
      readConfig p t = readConfig (skipLine (readKey p t).2) (readKey p t).1 := by
    intro p t hp
    rw [readConfig, if_neg hp]
  have hEnd : ∀ t, readConfig [] t = t := by
    intro t
    rw [readConfig, if_pos rfl]
  have hScan : readConfig p t
      = (p.splitOn 0x0A).foldl (fun t line => (readKey line t).1) t :=
    scan_eq_foldl readKey_local (fun t => readKey_fst [] t)
      (fun line rest h => skipLine_append h rest) (fun line h => skipLine_of_notMem h) hEnd hTurn p t
  simpa only [readKey_fst] using hScan

-- ---------------------------------------------------------------------------
-- Main result
-- ---------------------------------------------------------------------------

/-- The text that is parsed: the file, cut at 255 bytes or the first NUL. -/
def confText (bytes : List UInt8) : List UInt8 := (bytes.take 255).takeWhile (· != 0)

theorem cstr_readBuffer (bytes : List UInt8) :
    Mem.cstr (Mem.blit (fun _ => 0) 0 (bytes.take 255)) 256 = confText bytes := by
  refine Mem.cstr_of_slice (Mem.slice_blit ..) ?_ ?_
  · exact Mem.blit_of_disjoint _ _ (.inr (Nat.le_of_eq (Nat.zero_add _)))
  · rw [List.length_take]
    omega

theorem themeLoadFromDisk_eq (bytes : List UInt8) (d : Desktop) :
    (themeLoadFromDisk (some bytes) d).currentTheme
      = ((confText bytes).splitOn 0x0A).foldl readLine (defaultFallbacks d.currentTheme) := by
  show readConfig (Mem.cstr _ 256) _ = _
  rw [cstr_readBuffer, readConfig_eq]

/-- The last line of a key decides its group. -/
theorem group_of_last {bytes : List UInt8} {before after : List (List UInt8)} {line : List UInt8}
    {k : Key} (d : Desktop) (hLines : (confText bytes).splitOn 0x0A = before ++ line :: after)
    (hLine : keyOf line = some k) (hAfter : ∀ l ∈ after, keyOf l ≠ some k) :
    (themeLoadFromDisk (some bytes) d).currentTheme.group k = valueOf k line := by
  rw [themeLoadFromDisk_eq, hLines]
  exact groups.get_foldl_update valueOf hLine hAfter _

/-- A group without a line has its default. -/
theorem group_of_absent {bytes : List UInt8} {k : Key} (d : Desktop)
    (h : ∀ line ∈ (confText bytes).splitOn 0x0A, keyOf line ≠ some k) :
    (themeLoadFromDisk (some bytes) d).currentTheme.group k
      = (defaultFallbacks d.currentTheme).group k := by
  rw [themeLoadFromDisk_eq]
  exact groups.get_foldl_of_absent valueOf h _

end Nao.Theme
