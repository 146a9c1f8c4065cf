import Nao.Lib.Segments
import Mathlib.Data.List.DropRight
import Mathlib.Data.List.Nodup

/-!
# FatFs — paths, volumes and directory calls

The part of `ff.c` the programs rely on: how a path string is followed, and what
`f_opendir`, `f_readdir`, `f_closedir` and `f_unlink` do to the objects of a volume.

A volume is the list of its objects in directory order, each with the directory it lies
in; clusters, directory sectors and short names are below this level, and names are
compared as they are stored. Every call may fail instead of doing its work (`Faults`): it
then changes nothing.
-/

namespace Nao.FatFs

open SysLib

-- ---------------------------------------------------------------------------
-- Strings and names
-- ---------------------------------------------------------------------------

/-- A C string: its bytes up to the terminator, each an element of a `TCHAR` array. A byte of 80h
or more is a character of its own here, where code page 932 takes two for one. -/
abbrev CStr := List Char

/-- `FRESULT`. -/
inductive FResult where
  | ok | diskErr | intErr | notReady | noFile | noPath | invalidName | denied | exist
  | invalidObject | writeProtected | invalidDrive | notEnabled | noFilesystem | mkfsAborted
  | timeout | locked | notEnoughCore | tooManyOpenFiles | invalidParameter
  deriving DecidableEq, Repr

/-- `IsSeparator`. -/
def isSeparator (c : Char) : Bool := c == '/' || c == '\\'

/-- `IsTerminator` in the configuration with long names. -/
def isTerminator (c : Char) : Bool := c.toNat < 0x20

/-- The characters `create_name` rejects. -/
def isIllegal (c : Char) : Bool :=
  c == '*' || c == ':' || c == '<' || c == '>' || c == '|' || c == '"' || c == '?' ||
    c.toNat == 0x7F

/-- A character a long name may hold. -/
def isNameChar (c : Char) : Bool := !isTerminator c && !isSeparator c && !isIllegal c

/-- The trailing characters `create_name` snips off. -/
def isTrailing (c : Char) : Bool := c == ' ' || c == '.'

/-- A long file name (`FF_MAX_LFN` is 255). -/
structure Name where
  chars    : CStr
  nonempty : chars ≠ []
  short    : chars.length ≤ 255
  clean    : ∀ c ∈ chars, isNameChar c = true
  trimmed  : chars.rdropWhile isTrailing = chars
  deriving DecidableEq

/-- `create_name` on one segment of a path. -/
def createName (segment : CStr) : Except FResult Name :=
  let lfn := segment.rdropWhile isTrailing
  if h : segment.all isNameChar = true ∧ segment.length ≤ 255 ∧ lfn ≠ [] then
    have hPrefix := List.rdropWhile_prefix isTrailing segment
    .ok { chars := lfn
          nonempty := h.2.2
          short := Nat.le_trans hPrefix.length_le h.2.1
          clean := fun c hc => List.all_eq_true.mp h.1 c (hPrefix.subset hc)
          trimmed := List.rdropWhile_idempotent _ _ }
  else .error .invalidName

theorem chars_of_createName {segment : CStr} {n : Name} (h : createName segment = .ok n) :
    n.chars = segment.rdropWhile isTrailing := by
  unfold createName at h
  dsimp only at h
  split at h
  · cases h
    rfl
  · cases h

theorem createName_chars (n : Name) : createName n.chars = .ok n := by
  have hTrim : n.chars.rdropWhile isTrailing = n.chars := n.trimmed
  have hOk : n.chars.all isNameChar = true ∧ n.chars.length ≤ 255 ∧
      n.chars.rdropWhile isTrailing ≠ [] := by
    rw [hTrim]
    exact ⟨List.all_eq_true.mpr n.clean, n.short, n.nonempty⟩
  rw [createName, dif_pos hOk]
  cases n
  simpa using hTrim

-- ---------------------------------------------------------------------------
-- Volumes
-- ---------------------------------------------------------------------------

inductive Kind where
  | file (size : Nat)
  | dir
  deriving DecidableEq, Repr

/-- A directory entry. Directories are named by the list of names that leads to them from
the root. -/
structure Entry where
  parent : List Name
  name   : Name
  kind   : Kind
  deriving DecidableEq

def Entry.path (e : Entry) : List Name := e.parent ++ [e.name]

/-- The objects of a volume: no two have the same path, and each lies in the root or in a
directory of the volume. -/
structure Volume where
  entries  : List Entry
  distinct : (entries.map Entry.path).Nodup
  housed   : ∀ e ∈ entries, e.parent = [] ∨ ∃ d ∈ entries, d.path = e.parent ∧ d.kind = .dir

namespace Volume

variable (v : Volume)

/-- What is found at a path; the root is always there. -/
def kind? (p : List Name) : Option Kind :=
  if p = [] then some .dir else (v.entries.find? fun e => e.path = p).map Entry.kind

/-- No object lies in `p`. -/
def Childless (p : List Name) : Prop := ∀ e ∈ v.entries, e.parent ≠ p

instance (p : List Name) : Decidable (v.Childless p) :=
  inferInstanceAs (Decidable (∀ e ∈ v.entries, e.parent ≠ p))

/-- Take away an object in which nothing lies. -/
def remove (p : List Name) (h : v.Childless p) : Volume where
  entries := v.entries.filter fun e => e.path ≠ p
  distinct := v.distinct.sublist (List.filter_sublist.map _)
  housed := by
    intro e he
    have he' := List.mem_of_mem_filter he
    rcases v.housed e he' with hRoot | ⟨d, hd, hPath, hKind⟩
    · exact .inl hRoot
    · have hne : d.path ≠ p := fun hp => h e he' (hPath.symm.trans hp)
      exact .inr ⟨d, List.mem_filter.mpr ⟨hd, by simpa using hne⟩, hPath, hKind⟩

end Volume

-- ---------------------------------------------------------------------------
-- Following a path
-- ---------------------------------------------------------------------------

/-- `get_ldnumber`: the path behind the drive prefix; there is one volume, number 0. -/
def getLdnumber (path : CStr) : Option CStr :=
  match path with
  | '0' :: ':' :: rest => some rest
  | _ => if ':' ∈ path then none else some path

/-- The segments a path consists of. -/
def pathSegments (path : CStr) : Option (List CStr) :=
  (getLdnumber (path.takeWhile fun c => !isTerminator c)).map (segments isSeparator)

/-- The loop of `follow_path`, from the directory `cur` on. -/
def followSegments (v : Volume) : List Name → List CStr → Except FResult (List Name)
  | cur, [] => .ok cur
  | cur, segment :: rest =>
    match createName segment with
    | .error e => .error e
    | .ok name =>
      match v.kind? (cur ++ [name]) with
      | none => .error (if rest = [] then .noFile else .noPath)
      | some (.file _) => if rest = [] then .ok (cur ++ [name]) else .error .noPath
      | some .dir => followSegments v (cur ++ [name]) rest

/-- `mount_volume` and `follow_path`. -/
def followPath (v : Volume) (path : CStr) : Except FResult (List Name) :=
  match pathSegments path with
  | none => .error .invalidDrive
  | some segs => followSegments v [] segs

/-- The object a path string stands for, whether it is there or not. -/
def resolve (path : CStr) : Option (List Name) :=
  (pathSegments path).bind fun segs => segs.mapM fun s => (createName s).toOption

namespace Volume

variable {v : Volume}

theorem kind?_nil : v.kind? [] = some .dir := by
  rw [kind?, if_pos rfl]

theorem kind?_path {e : Entry} (he : e ∈ v.entries) : v.kind? e.path = some e.kind := by
  have hne : e.path ≠ [] := by simp [Entry.path]
  rw [kind?, if_neg hne]
  -- the paths are distinct, so the first entry with this path is `e` itself
  cases hf : v.entries.find? fun d => d.path = e.path with
  | none =>
    have := List.find?_eq_none.mp hf e he
    simp at this
  | some d =>
    have hd := List.mem_of_find?_eq_some hf
    have hPath : d.path = e.path := by simpa using List.find?_some hf
    rw [List.inj_on_of_nodup_map v.distinct hd he hPath]
    rfl

theorem exists_of_kind? {p : List Name} {k : Kind} (h : v.kind? p = some k) (hne : p ≠ []) :
    ∃ e ∈ v.entries, e.path = p ∧ e.kind = k := by
  rw [kind?, if_neg hne, Option.map_eq_some_iff] at h
  obtain ⟨e, hf, hk⟩ := h
  exact ⟨e, List.mem_of_find?_eq_some hf, by simpa using List.find?_some hf, hk⟩

/-- Only directories have something in them. -/
theorem kind?_parent {e : Entry} (he : e ∈ v.entries) : v.kind? e.parent = some .dir := by
  rcases v.housed e he with hRoot | ⟨d, hd, hPath, hKind⟩
  · rw [hRoot, kind?_nil]
  · rw [← hPath, kind?_path hd, hKind]

theorem kind?_of_append {p r : List Name} (h : (v.kind? (p ++ r)).isSome) (hr : r ≠ []) :
    v.kind? p = some .dir := by
  induction r using List.reverseRecOn with
  | nil => exact absurd rfl hr
  | append_singleton r n ih =>
    obtain ⟨k, hk⟩ := Option.isSome_iff_exists.mp h
    obtain ⟨e, he, hPath, -⟩ := exists_of_kind? hk (by simp)
    have hParent : e.parent = p ++ r := by
      rw [Entry.path, ← List.append_assoc] at hPath
      exact (List.append_inj' hPath rfl).1
    have hDir := kind?_parent he
    rw [hParent] at hDir
    by_cases hnil : r = []
    · rwa [hnil, List.append_nil] at hDir
    · exact ih (by rw [hDir]; rfl) hnil

/-- Nothing lies below what is not a directory. -/
theorem eq_nil_of_kind?_append {p r : List Name} (h : (v.kind? (p ++ r)).isSome)
    (hp : v.kind? p ≠ some .dir) : r = [] := by
  by_contra hr
  exact hp (kind?_of_append h hr)

end Volume

theorem followSegments_eq_ok_iff {v : Volume} {cur p : List Name} {segs : List CStr}
    (hCur : v.kind? cur = some .dir) :
    followSegments v cur segs = .ok p ↔
      ∃ ns, (segs.mapM fun s => (createName s).toOption) = some ns ∧ p = cur ++ ns ∧
        (v.kind? p).isSome := by
  induction segs generalizing cur with
  | nil =>
    simp only [followSegments, List.mapM_nil, Except.ok.injEq]
    constructor
    · rintro rfl
      exact ⟨[], rfl, (List.append_nil _).symm, by rw [hCur]; rfl⟩
    · rintro ⟨ns, hns, rfl, -⟩
      rw [← Option.some.inj hns, List.append_nil]
  | cons segment rest ih =>
    cases hName : createName segment with
    | error e =>
      simp [followSegments, hName, Except.toOption]
    | ok name =>
      have hMap : ((segment :: rest).mapM fun s => (createName s).toOption) =
          (rest.mapM fun s => (createName s).toOption).map (name :: ·) := by
        rw [List.mapM_cons, hName]
        cases rest.mapM fun s => (createName s).toOption <;> rfl
      rw [hMap]
      simp only [followSegments, hName, Option.map_eq_some_iff]
      cases hKind : v.kind? (cur ++ [name]) with
      | none =>
        refine iff_of_false (by simp) ?_
        rintro ⟨_, ⟨ns, -, rfl⟩, rfl, hSome⟩
        rw [List.append_cons] at hSome
        have hnil := Volume.eq_nil_of_kind?_append hSome (by simp [hKind])
        rw [hnil, List.append_nil, hKind] at hSome
        exact absurd hSome (by simp)
      | some k =>
        cases k with
        | dir =>
          rw [ih hKind]
          constructor
          · rintro ⟨ns, hns, rfl, hSome⟩
            exact ⟨_, ⟨ns, hns, rfl⟩, by simp, hSome⟩
          · rintro ⟨_, ⟨ns, hns, rfl⟩, rfl, hSome⟩
            exact ⟨ns, hns, by simp, hSome⟩
        | file size =>
          -- a file ends the path
          show (if rest = [] then Except.ok (cur ++ [name]) else .error FResult.noPath) = .ok p ↔ _
          constructor
          · intro h
            by_cases hRest : rest = []
            · rw [if_pos hRest] at h
              cases h
              exact ⟨_, ⟨[], by rw [hRest]; rfl, rfl⟩, rfl, by rw [hKind]; rfl⟩
            · rw [if_neg hRest] at h
              cases h
          · rintro ⟨_, ⟨ns, hns, rfl⟩, rfl, hSome⟩
            rw [List.append_cons] at hSome ⊢
            obtain rfl := Volume.eq_nil_of_kind?_append hSome (by simp [hKind])
            have hRest : rest = [] := by
              cases rest with
              | nil => rfl
              | cons s t => simp [Option.bind_eq_some_iff] at hns
            rw [if_pos hRest, List.append_nil]

/-- Following a path succeeds exactly when the object it stands for is there. -/
theorem followPath_eq_ok_iff {v : Volume} {path : CStr} {p : List Name} :
    followPath v path = .ok p ↔ resolve path = some p ∧ (v.kind? p).isSome := by
  rw [followPath, resolve]
  cases hSegs : pathSegments path with
  | none => simp
  | some segs =>
    simp only [Option.bind_some]
    rw [followSegments_eq_ok_iff Volume.kind?_nil]
    constructor
    · rintro ⟨ns, hns, rfl, hSome⟩
      exact ⟨hns, hSome⟩
    · rintro ⟨hns, hSome⟩
      exact ⟨p, hns, rfl, hSome⟩

-- ---------------------------------------------------------------------------
-- The calls
-- ---------------------------------------------------------------------------

/-- Which calls fail, by their number, and with which error. -/
structure Faults where
  answer : Nat → Option FResult
  real   : ∀ n, answer n ≠ some .ok

/-- No call fails for a reason outside the volume. -/
def Faults.none : Faults where
  answer := fun _ => Option.none
  real := by simp

/-- The mounted volume and the number of calls made. -/
structure Fs where
  vol   : Volume
  calls : Nat

/-- `DIR`: an open directory and the entries it has returned. -/
structure Dir where
  path : List Name
  read : List (List Name)

/-- `FILINFO`. -/
structure FilInfo where
  fname : CStr
  kind  : Kind

def Entry.info (e : Entry) : FilInfo := { fname := e.name.chars, kind := e.kind }

/-- The object an `f_opendir` finds. -/
def opendirAt (v : Volume) (path : CStr) : Except FResult Dir :=
  match followPath v path with
  | .error .noFile => .error .noPath
  | .error e => .error e
  | .ok p =>
    match v.kind? p with
    | some .dir => .ok { path := p, read := [] }
    | _ => .error .noPath

def fOpendir (F : Faults) (s : Fs) (path : CStr) : Except FResult Dir × Fs :=
  match F.answer s.calls with
  | some e => (.error e, { s with calls := s.calls + 1 })
  | none => (opendirAt s.vol path, { s with calls := s.calls + 1 })

/-- The next entry of an open directory, in the directory as it is now. -/
def nextEntry (v : Volume) (d : Dir) : Option Entry :=
  v.entries.find? fun e => e.parent = d.path ∧ e.path ∉ d.read

/-- `f_readdir`; `none` is the empty name that ends a directory. -/
def fReaddir (F : Faults) (s : Fs) (d : Dir) : Except FResult (Option FilInfo × Dir) × Fs :=
  match F.answer s.calls with
  | some e => (.error e, { s with calls := s.calls + 1 })
  | none =>
    match nextEntry s.vol d with
    | none => (.ok (none, d), { s with calls := s.calls + 1 })
    | some e =>
      (.ok (some e.info, { d with read := e.path :: d.read }), { s with calls := s.calls + 1 })

/-- `f_closedir` changes nothing that is modelled here. -/
def fClosedir (s : Fs) : Fs := { s with calls := s.calls + 1 }

/-- What `f_unlink` does to the volume. -/
def unlinkAt (v : Volume) (path : CStr) : FResult × Volume :=
  match followPath v path with
  | .error e => (e, v)
  | .ok p =>
    if p = [] then (.invalidName, v)
    else if h : v.Childless p then (.ok, v.remove p h)
    else (.denied, v)

def fUnlink (F : Faults) (s : Fs) (path : CStr) : FResult × Fs :=
  match F.answer s.calls with
  | some e => (e, { s with calls := s.calls + 1 })
  | none => ((unlinkAt s.vol path).1, { vol := (unlinkAt s.vol path).2, calls := s.calls + 1 })

end Nao.FatFs
