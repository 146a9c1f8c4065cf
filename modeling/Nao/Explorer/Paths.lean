import Nao.Explorer.Definitions
import Mathlib.Algebra.Order.Ring.Nat
import Mathlib.Data.List.GetD

/-!
# File explorer — paths

The explorer keeps its place in a string. `Spells` says which strings stand for a stack of
directory names; entering a directory, `..` and `build_full_path` are then operations on the
stack (`enterDirectory_spells`, `explorerGoUp_spells`, `denotes_buildFullPath`), whatever the
history (`spells_pathOf`). The root has two spellings, `0:` and `0:/`, and they do not differ
in what they denote.

The results hold for every notion of separator that `/` belongs to, so for the `/` of the
explorer and for the `/` and `\` of FatFs alike.
-/

namespace Nao.Explorer

open SysLib FatFs

-- ---------------------------------------------------------------------------
-- Strings
-- ---------------------------------------------------------------------------

theorem charAt_append_right {xs ys : CStr} {i : Nat} (h : xs.length ≤ i) :
    charAt (xs ++ ys) i = charAt ys (i - xs.length) := by
  rw [charAt, List.getD_append_right _ _ _ _ h, charAt]

theorem charAt_mem {path : CStr} {i : Nat} (h : i < path.length) : charAt path i ∈ path := by
  rw [charAt, List.getD_eq_getElem _ _ h]
  exact List.getElem_mem h

/-- The last character of a path that ends with `name`. -/
theorem charAt_last_mem (xs : CStr) {name : CStr} (h : name ≠ []) :
    charAt (xs ++ name) ((xs ++ name).length - 1) ∈ name := by
  have hPos := List.length_pos_iff.mpr h
  rw [List.length_append, charAt_append_right (by omega)]
  exact charAt_mem (by omega)

/-- Going back over `name` ends at the separator in front of it. -/
theorem scanBack_name {xs name : CStr} (hxs : 2 ≤ xs.length) (hSlash : '/' ∉ name) {i : Nat}
    (hi : i ≤ name.length) : scanBack (xs ++ '/' :: name) (xs.length + i) = xs.length := by
  induction i with
  | zero =>
    obtain ⟨k, hk⟩ : ∃ k, xs.length = k + 1 := ⟨xs.length - 1, by omega⟩
    have hAt : charAt (xs ++ '/' :: name) (k + 1) = '/' := by
      rw [← hk, charAt_append_right (Nat.le_refl _), Nat.sub_self]
      rfl
    rw [Nat.add_zero, hk, scanBack, if_neg (fun h => h.2 hAt)]
  | succ i ih =>
    have hAt : charAt (xs ++ '/' :: name) (xs.length + i + 1) ≠ '/' := by
      rw [charAt_append_right (by omega), show xs.length + i + 1 - xs.length = i + 1 by omega]
      have hMem : charAt name i ∈ name := charAt_mem (by omega)
      exact fun h => hSlash (h ▸ hMem)
    rw [← Nat.add_assoc, scanBack, if_pos ⟨by omega, hAt⟩, ih (by omega)]

-- ---------------------------------------------------------------------------
-- Paths that stand for a stack of names
-- ---------------------------------------------------------------------------

/-- `0:/n1/../nk`; the root is `0:`. -/
def spelled (ns : List CStr) : CStr := '0' :: ':' :: ns.flatMap fun n => '/' :: n

/-- The names a path is made of, behind the volume prefix. -/
def denotes (sep : Char → Bool) : CStr → Option (List CStr)
  | '0' :: ':' :: rest => some (segments sep rest)
  | _ => none

/-- A name a directory may have. -/
structure LegalName (sep : Char → Bool) (name : CStr) : Prop where
  nonempty : name ≠ []
  noSep    : ∀ c ∈ name, sep c = false
  noColon  : ':' ∉ name

/-- The spellings of a stack that the explorer uses. -/
def Spells (path : CStr) (ns : List CStr) : Prop :=
  path = spelled ns ∨ (path = ['0', ':', '/'] ∧ ns = [])

theorem spelled_concat (ns : List CStr) (name : CStr) :
    spelled (ns ++ [name]) = spelled ns ++ '/' :: name := by
  simp [spelled]

theorem charAt_last_spelled (ns : List CStr) {name : CStr} (h : name ≠ []) :
    charAt (spelled (ns ++ [name])) ((spelled (ns ++ [name])).length - 1) ∈ name := by
  have hLast := charAt_last_mem (spelled ns ++ ['/']) h
  rwa [List.append_assoc, List.singleton_append, ← spelled_concat] at hLast

theorem length_spelled (ns : List CStr) :
    (spelled ns).length = 2 + (ns.map fun n => n.length + 1).sum := by
  rw [spelled, List.length_cons, List.length_cons, List.length_flatMap, Nat.add_comm 2]
  rfl

section Operations

variable {sep : Char → Bool} (hSlash : sep '/' = true)
variable {path : CStr} {ns : List CStr} (hns : ∀ n ∈ ns, LegalName sep n)

include hSlash in
theorem LegalName.noSlash {name : CStr} (h : LegalName sep name) : '/' ∉ name := by
  intro hMem
  have hSep := h.noSep _ hMem
  rw [hSlash] at hSep
  cases hSep

include hSlash hns in
theorem Spells.denotes_eq (h : Spells path ns) : denotes sep path = some ns := by
  rcases h with rfl | ⟨rfl, rfl⟩
  · rw [spelled, denotes, segments_flatMap hSlash fun n hn => ⟨(hns n hn).nonempty, (hns n hn).noSep⟩]
  · rw [denotes, segments_cons hSlash, segments_nil]

include hSlash hns in
/-- Entering a directory pushes its name. -/
theorem enterDirectory_spells (h : Spells path ns) (name : CStr) :
    enterDirectory path name = spelled (ns ++ [name]) := by
  rcases h with rfl | ⟨rfl, rfl⟩
  · rcases List.eq_nil_or_concat' ns with rfl | ⟨ms, n, rfl⟩
    · simp [enterDirectory, spelled, charAt]
    · have hn := hns n (by simp)
      have hLast := charAt_last_spelled ms hn.nonempty
      rw [spelled_concat _ name]
      have hLen : (spelled (ms ++ [n])).length = (spelled ms).length + 1 + n.length := by
        rw [spelled_concat, List.length_append, List.length_cons]
        omega
      have hPos := List.length_pos_iff.mpr hn.nonempty
      have hTwo : 2 ≤ (spelled ms).length := by rw [length_spelled]; omega
      rw [enterDirectory, if_neg (by omega), if_pos]
      refine ⟨by omega, ?_, ?_⟩
      · exact fun hEq => hn.noSlash hSlash (hEq ▸ hLast)
      · exact fun hEq => hn.noColon (hEq ▸ hLast)
  · simp [enterDirectory, spelled, charAt]

include hSlash hns in
/-- `..` pops a name; at the root nothing happens. -/
theorem explorerGoUp_spells (h : Spells path ns) : Spells (explorerGoUp path) ns.dropLast := by
  rcases h with rfl | ⟨rfl, rfl⟩
  · rcases List.eq_nil_or_concat' ns with rfl | ⟨ms, n, rfl⟩
    · exact .inl rfl
    · have hn := hns n (by simp)
      have hLast := charAt_last_spelled ms hn.nonempty
      rw [spelled_concat] at hLast
      have hPos := List.length_pos_iff.mpr hn.nonempty
      have hTwo : 2 ≤ (spelled ms).length := by rw [length_spelled]; omega
      have hLen : (spelled ms ++ '/' :: n).length = (spelled ms).length + 1 + n.length := by
        rw [List.length_append, List.length_cons]
        omega
      have hScan := scanBack_name (i := n.length) hTwo (hn.noSlash hSlash) (Nat.le_refl _)
      have hAt : charAt (spelled ms ++ '/' :: n) (spelled ms).length = '/' := by
        rw [charAt_append_right (Nat.le_refl _), Nat.sub_self]
        rfl
      have hNotSlash : charAt (spelled ms ++ '/' :: n) ((spelled ms ++ '/' :: n).length - 1) ≠ '/' :=
        fun hEq => hn.noSlash hSlash (hEq ▸ hLast)
      rw [List.dropLast_concat, spelled_concat, explorerGoUp,
        if_neg (by omega), if_neg hNotSlash]
      dsimp only
      rw [show (spelled ms ++ '/' :: n).length - 1 = (spelled ms).length + n.length by omega, hScan,
        if_pos hAt]
      split
      · next hRoot =>
        -- directly below the root the slash stays
        right
        rw [length_spelled] at hRoot
        have hms : ms = [] := by
          cases ms with
          | nil => rfl
          | cons m ms => simp at hRoot
        subst hms
        exact ⟨rfl, rfl⟩
      · left
        exact List.take_left' rfl
  · exact .inl rfl

include hSlash hns in
/-- The path handed to FatFs denotes what entering would denote; only the number of slashes
behind the volume prefix may differ. -/
theorem denotes_buildFullPath (h : Spells path ns) {name : CStr} (hName : LegalName sep name) :
    denotes sep (buildFullPath path name) = some (ns ++ [name]) := by
  rcases h with rfl | ⟨rfl, rfl⟩
  · rcases List.eq_nil_or_concat' ns with rfl | ⟨ms, n, rfl⟩
    · have hBuilt : buildFullPath (spelled []) name = '0' :: ':' :: name := by
        simp [buildFullPath, spelled, charAt]
      rw [hBuilt, denotes, segments_of_forall hName.nonempty hName.noSep, List.nil_append]
    · have hn := hns n (by simp)
      have hLast := charAt_last_spelled ms hn.nonempty
      have hBuilt : buildFullPath (spelled (ms ++ [n])) name = spelled (ms ++ [n] ++ [name]) := by
        have hNotColon : charAt (spelled (ms ++ [n])) ((spelled (ms ++ [n])).length - 1) ≠ ':' :=
          fun hEq => hn.noColon (hEq ▸ hLast)
        rw [buildFullPath, if_pos hNotColon, spelled_concat _ name]
      rw [hBuilt]
      refine Spells.denotes_eq hSlash ?_ (.inl rfl)
      intro m hm
      rcases List.mem_append.mp hm with hm | hm
      · exact hns m hm
      · rw [List.mem_singleton.mp hm]
        exact hName
  · have hBuilt : buildFullPath ['0', ':', '/'] name = '0' :: ':' :: '/' :: '/' :: name := by
      simp [buildFullPath, charAt]
    rw [hBuilt, denotes, segments_cons hSlash, segments_cons hSlash,
      segments_of_forall hName.nonempty hName.noSep, List.nil_append]

end Operations

-- ---------------------------------------------------------------------------
-- Whole histories
-- ---------------------------------------------------------------------------

def pathStep (path : CStr) : Event → CStr
  | .entered name => enterDirectory path name
  | .wentUp => explorerGoUp path
  | _ => path

/-- `current_path` after a history. -/
def pathOf (log : List Event) : CStr := log.foldl pathStep ['0', ':']

theorem pathOf_concat (log : List Event) (e : Event) :
    pathOf (log ++ [e]) = pathStep (pathOf log) e := by
  rw [pathOf, List.foldl_concat, pathOf]

/-- The abstract explorer: a stack of names. -/
def stackStep (stack : List CStr) : Event → List CStr
  | .entered name => stack ++ [name]
  | .wentUp => stack.dropLast
  | _ => stack

def stackOf (log : List Event) : List CStr := log.foldl stackStep []

theorem stackOf_concat (log : List Event) (e : Event) :
    stackOf (log ++ [e]) = stackStep (stackOf log) e := by
  rw [stackOf, List.foldl_concat, stackOf]

/-- Every directory entered in the history has a legal name. -/
def LegalLog (sep : Char → Bool) (log : List Event) : Prop :=
  ∀ name, .entered name ∈ log → LegalName sep name

section History

variable {sep : Char → Bool} (hSlash : sep '/' = true) {log : List Event}

theorem legal_stackOf (h : LegalLog sep log) : ∀ n ∈ stackOf log, LegalName sep n := by
  induction log using List.reverseRecOn with
  | nil => simp [stackOf]
  | append_singleton log e ih =>
    have hLog := ih fun name hName => h name (List.mem_append_left _ hName)
    rw [stackOf_concat]
    intro n hn
    cases e with
    | entered name =>
      rcases List.mem_append.mp hn with hn | hn
      · exact hLog n hn
      · rw [List.mem_singleton.mp hn]
        exact h name (by simp)
    | wentUp => exact hLog n ((List.dropLast_sublist _).subset hn)
    | _ => exact hLog n hn

include hSlash in
/-- The string follows the stack. -/
theorem spells_pathOf (h : LegalLog sep log) : Spells (pathOf log) (stackOf log) := by
  induction log using List.reverseRecOn with
  | nil => exact .inl rfl
  | append_singleton log e ih =>
    have hLog : LegalLog sep log := fun name hName => h name (List.mem_append_left _ hName)
    rw [pathOf_concat, stackOf_concat]
    cases e with
    | entered name => exact .inl (enterDirectory_spells hSlash (legal_stackOf hLog) (ih hLog) name)
    | wentUp => exact explorerGoUp_spells hSlash (legal_stackOf hLog) (ih hLog)
    | _ => exact ih hLog

end History

/--
**Navigation refines a stack of names.** For every history of the explorer, with any other
events in between, in which only directories with legal names are entered: `current_path`
denotes the stack; it is `0:`, `0:/` or `0:/n1/../nk` with no empty component; entering a
directory and going up again gives a path that denotes the same directory; and the path built
for a name denotes the object that entering the name would lead to.
-/
theorem navigation_refines_stack {sep : Char → Bool} (hSlash : sep '/' = true) {log : List Event}
    (hLog : LegalLog sep log) :
    denotes sep (pathOf log) = some (stackOf log) ∧
      (pathOf log = ['0', ':'] ∨ pathOf log = ['0', ':', '/'] ∨
        (stackOf log ≠ [] ∧ pathOf log = spelled (stackOf log))) ∧
      (∀ n ∈ stackOf log, n ≠ []) ∧
      ∀ name, LegalName sep name →
        denotes sep (explorerGoUp (enterDirectory (pathOf log) name)) = denotes sep (pathOf log) ∧
        denotes sep (buildFullPath (pathOf log) name) =
          denotes sep (enterDirectory (pathOf log) name) := by
  have hLegal := legal_stackOf hLog
  have hSpells := spells_pathOf hSlash hLog
  refine ⟨hSpells.denotes_eq hSlash hLegal, ?_, fun n hn => (hLegal n hn).nonempty, ?_⟩
  · rcases hSpells with hPath | ⟨hPath, -⟩
    · by_cases hRoot : stackOf log = []
      · rw [hPath, hRoot]
        exact .inl rfl
      · exact .inr (.inr ⟨hRoot, hPath⟩)
    · exact .inr (.inl hPath)
  · intro name hName
    -- the history continued by entering `name`, and by going up again
    have hEntered : LegalLog sep (log ++ [.entered name]) := by
      intro n hn
      rcases List.mem_append.mp hn with hn | hn
      · exact hLog n hn
      · cases List.mem_singleton.mp hn
        exact hName
    have hEnter := (spells_pathOf hSlash hEntered).denotes_eq hSlash (legal_stackOf hEntered)
    have hUp := explorerGoUp_spells hSlash (legal_stackOf hEntered) (spells_pathOf hSlash hEntered)
    rw [stackOf_concat, pathOf_concat] at hEnter hUp
    rw [stackStep, List.dropLast_concat] at hUp
    constructor
    · exact (hUp.denotes_eq hSlash hLegal).trans (hSpells.denotes_eq hSlash hLegal).symm
    · exact (denotes_buildFullPath hSlash hLegal hSpells hName).trans hEnter.symm

theorem navigation_refines_stack_demo :
    pathOf [.entered ['A'], .entered ['B'], .wentUp, .wentUp] = ['0', ':', '/'] ∧
      denotes (· == '/') (pathOf [.entered ['A'], .entered ['B'], .wentUp, .wentUp]) = some [] := by
  have hLog : LegalLog (· == '/') [.entered ['A'], .entered ['B'], .wentUp, .wentUp] := by
    intro name hName
    simp only [List.mem_cons, Event.entered.injEq, reduceCtorEq, List.not_mem_nil,
      or_false] at hName
    rcases hName with rfl | rfl <;> exact ⟨by decide, by simp, by decide⟩
  exact ⟨by decide, (navigation_refines_stack rfl hLog).1⟩

end Nao.Explorer
