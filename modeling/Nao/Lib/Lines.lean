import Mathlib.Data.List.Basic

/-!
# Text that is read line by line

A reader takes a value from the front of a text and says what is left. It is `LineLocal` when it
never reads beyond the line it starts on: what follows the line changes neither the value nor
how much of the line is left. A loop that reads and then skips to the next line is then a fold
over the lines of the text (`scan_eq_foldl`), however much or little of a line is read.

`Fields` is a record with parts that are addressed by a key, and `update` sets the part a line
names. Lines of different keys commute (`update_comm`), and the last line of a key decides
(`get_foldl_update`).
-/

namespace SysLib

variable {α β γ σ : Type*}

-- ---------------------------------------------------------------------------
-- Readers
-- ---------------------------------------------------------------------------

/-- What can stand behind a line: nothing, or a separator and more. -/
def LineEnd (sep : α) (rest : List α) : Prop := ∀ c ∈ rest.head?, c = sep

theorem lineEnd_cons (sep : α) (rest : List α) : LineEnd sep (sep :: rest) := by
  simp [LineEnd]

structure LineLocal (sep : α) (read : List α → β × List α) : Prop where
  append : ∀ line {rest}, LineEnd sep rest →
    read (line ++ rest) = ((read line).1, (read line).2 ++ rest)
  suffix : ∀ line, (read line).2 <:+ line

/-- One reader after another. -/
theorem LineLocal.andThen {sep : α} {f : List α → β × List α} {g : β → List α → γ × List α}
    (hf : LineLocal sep f) (hg : ∀ b, LineLocal sep (g b)) :
    LineLocal sep fun p => g (f p).1 (f p).2 where
  append line rest hRest := by
    simp only [hf.append line hRest, (hg _).append _ hRest]
  suffix line := ((hg _).suffix _).trans (hf.suffix line)

theorem LineLocal.map {sep : α} {f : List α → β × List α} (hf : LineLocal sep f) (g : β → γ) :
    LineLocal sep fun p => (g (f p).1, (f p).2) where
  append line rest hRest := by
    simp only [hf.append line hRest]
  suffix line := hf.suffix line

/-- A keyword does not reach beyond a line. -/
theorem prefix_append_iff {sep : α} {key line rest : List α} (hKey : sep ∉ key)
    (hRest : LineEnd sep rest) : key <+: line ++ rest ↔ key <+: line := by
  constructor
  · intro h
    rcases Nat.le_total key.length line.length with hle | hle
    · exact List.prefix_of_prefix_length_le h (List.prefix_append line rest) hle
    · -- the part of the keyword behind the line would begin with the separator
      obtain ⟨more, rfl⟩ := List.prefix_of_prefix_length_le (List.prefix_append line rest) h hle
      rw [List.prefix_append_right_inj] at h
      cases more with
      | nil => simp
      | cons c more =>
        obtain ⟨tail, rfl⟩ := h
        have hc : c = sep := hRest c (by simp)
        exact absurd (by simp [hc]) hKey
  · intro h
    exact h.trans (List.prefix_append ..)

-- ---------------------------------------------------------------------------
-- Scanning
-- ---------------------------------------------------------------------------

section Scan

variable [BEq α] [LawfulBEq α] {sep : α}

/-- The line that a text begins with, and the lines behind it. -/
theorem splitOn_append_sep {line : List α} (h : sep ∉ line) (rest : List α) :
    (line ++ sep :: rest).splitOn sep = line :: rest.splitOn sep := by
  have hLine : ∀ c ∈ line, (c == sep) = false := by
    intro c hc
    exact beq_false_of_ne fun hEq => h (hEq ▸ hc)
  show List.splitOnP (· == sep) (line ++ sep :: rest) = line :: List.splitOnP (· == sep) rest
  rw [List.splitOnP_append_cons (p := (· == sep)) line rest (beq_self_eq_true sep),
    List.splitOnP_eq_singleton hLine, List.singleton_append]

theorem splitOn_of_notMem {line : List α} (h : sep ∉ line) : line.splitOn sep = [line] := by
  refine List.splitOnP_eq_singleton fun c hc => ?_
  exact beq_false_of_ne fun hEq => h (hEq ▸ hc)

/-- `scan` reads at the front of the text, skips to the next line, and goes on to the end. -/
theorem scan_eq_foldl {step : σ → List α → σ × List α} {skip : List α → List α}
    {scan : List α → σ → σ} (hStep : ∀ s, LineLocal sep (step s)) (hEmpty : ∀ s, (step s []).1 = s)
    (hSkip : ∀ line rest, sep ∉ line → skip (line ++ sep :: rest) = rest)
    (hSkipEnd : ∀ line, sep ∉ line → skip line = [])
    (hNil : ∀ s, scan [] s = s)
    (hScan : ∀ p s, p ≠ [] → scan p s = scan (skip (step s p).2) (step s p).1)
    (p : List α) (s : σ) :
    scan p s = (p.splitOn sep).foldl (fun s line => (step s line).1) s := by
  -- on the length of the text: a turn takes its first line
  induction hn : p.length using Nat.strongRecOn generalizing p s with
  | ind n ih =>
    have hLeft : ∀ {line}, sep ∉ line → sep ∉ (step s line).2 :=
      fun h hMem => h (((hStep s).suffix _).subset hMem)
    by_cases hSep : sep ∈ p
    · obtain ⟨line, rest, rfl, hLine⟩ := List.eq_append_cons_of_mem hSep
      rw [hScan _ _ (by simp), (hStep s).append line (lineEnd_cons sep rest),
        hSkip _ _ (hLeft hLine), splitOn_append_sep hLine, List.foldl_cons]
      refine ih rest.length ?_ rest _ rfl
      rw [← hn, List.length_append, List.length_cons]
      omega
    · rw [splitOn_of_notMem hSep, List.foldl_cons, List.foldl_nil]
      by_cases hp : p = []
      · rw [hp, hNil, hEmpty]
      · rw [hScan p s hp, hSkipEnd _ (hLeft hSep), hNil]

end Scan

-- ---------------------------------------------------------------------------
-- Lines that set a part of a record
-- ---------------------------------------------------------------------------

/-- A record with parts that can be read and set one by one. -/
structure Fields (σ κ : Type*) (V : κ → Type*) where
  get          : σ → (k : κ) → V k
  set          : σ → (k : κ) → V k → σ
  get_set      : ∀ s k v, get (set s k v) k = v
  get_set_ne   : ∀ s {k k'} v, k ≠ k' → get (set s k v) k' = get s k'
  set_comm     : ∀ s {k k'} v v', k ≠ k' → set (set s k v) k' v' = set (set s k' v') k v

namespace Fields

variable {κ ι : Type*} {V : κ → Type*} (F : Fields σ κ V) (keyOf : ι → Option κ)
  (value : (k : κ) → ι → V k)

/-- Set the part that the line names, if it names one. -/
def update (s : σ) (line : ι) : σ :=
  match keyOf line with
  | none => s
  | some k => F.set s k (value k line)

variable {keyOf}

theorem update_none {line : ι} (h : keyOf line = none) (s : σ) : F.update keyOf value s line = s := by
  rw [update, h]

theorem update_some {line : ι} {k : κ} (h : keyOf line = some k) (s : σ) :
    F.update keyOf value s line = F.set s k (value k line) := by
  rw [update, h]

theorem get_update_ne {line : ι} {k : κ} (h : keyOf line ≠ some k) (s : σ) :
    F.get (F.update keyOf value s line) k = F.get s k := by
  cases hKey : keyOf line with
  | none => rw [F.update_none value hKey]
  | some k' =>
    rw [F.update_some value hKey]
    exact F.get_set_ne s _ fun hEq => h (hEq ▸ hKey)

theorem update_comm {line line' : ι} (h : keyOf line ≠ keyOf line') (s : σ) :
    F.update keyOf value (F.update keyOf value s line) line'
      = F.update keyOf value (F.update keyOf value s line') line := by
  cases hKey : keyOf line with
  | none => rw [F.update_none value hKey, F.update_none value hKey]
  | some k =>
    cases hKey' : keyOf line' with
    | none => rw [F.update_none value hKey', F.update_none value hKey']
    | some k' =>
      have hNe : k ≠ k' := fun hEq => h (by rw [hKey, hKey', hEq])
      simp only [F.update_some value hKey, F.update_some value hKey']
      exact F.set_comm s _ _ hNe

/-- A part that no line names stays. -/
theorem get_foldl_of_absent {lines : List ι} {k : κ} (h : ∀ line ∈ lines, keyOf line ≠ some k) (s : σ) :
    F.get (lines.foldl (F.update keyOf value) s) k = F.get s k := by
  induction lines generalizing s with
  | nil => rfl
  | cons line lines ih =>
    rw [List.foldl_cons, ih fun l hl => h l (List.mem_cons_of_mem _ hl),
      F.get_update_ne value (h line List.mem_cons_self)]

/-- The last line that names a part decides it. -/
theorem get_foldl_update {before after : List ι} {line : ι} {k : κ} (hLine : keyOf line = some k)
    (hAfter : ∀ l ∈ after, keyOf l ≠ some k) (s : σ) :
    F.get ((before ++ line :: after).foldl (F.update keyOf value) s) k = value k line := by
  rw [List.foldl_append, List.foldl_cons, F.get_foldl_of_absent value hAfter,
    F.update_some value hLine, F.get_set]

variable (keyOf) in
/-- No line names the part, or there is a last one that does. -/
theorem absent_or_last (lines : List ι) (k : κ) :
    (∀ l ∈ lines, keyOf l ≠ some k)
      ∨ ∃ before line after, lines = before ++ line :: after ∧ keyOf line = some k
          ∧ ∀ l ∈ after, keyOf l ≠ some k := by
  induction lines with
  | nil => exact .inl (by simp)
  | cons first lines ih =>
    rcases ih with hAbsent | ⟨before, line, after, rfl, hLine, hAfter⟩
    · by_cases hFirst : keyOf first = some k
      · exact .inr ⟨[], first, lines, rfl, hFirst, hAbsent⟩
      · exact .inl (List.forall_mem_cons.mpr ⟨hFirst, hAbsent⟩)
    · exact .inr ⟨first :: before, line, after, rfl, hLine, hAfter⟩

/-- Two lines of different keys, one behind the other, can be exchanged. -/
theorem foldl_update_swap {line line' : ι} (h : keyOf line ≠ keyOf line') (before after : List ι)
    (s : σ) :
    (before ++ line :: line' :: after).foldl (F.update keyOf value) s
      = (before ++ line' :: line :: after).foldl (F.update keyOf value) s := by
  simp only [List.foldl_append, List.foldl_cons, F.update_comm value h]

end Fields

end SysLib
