import Nao.Explorer.Delete

/-!
# File explorer — do the listed names identify their entries?

`populate_directory` against the volume it reads: `scan` are the answers of FatFs to
`f_opendir` and to `f_readdir` until the directory ends or a call fails. The list it leaves
shows the first entries of the directory in order (`populateDirectory_scan`), each with the
first 63 characters of its name. `listed_names_identify` says that the length decides:
an entry of at most 63 characters is named in full, and the paths built from the item lead to
it; a longer one is not, and they lead elsewhere.
-/

namespace Nao.Explorer

open SysLib FatFs

-- ---------------------------------------------------------------------------
-- Scanning a directory
-- ---------------------------------------------------------------------------

/-- What `f_readdir` answers, in at most so many calls, up to the first error or the end of the
directory. -/
def readEntries (F : Faults) : Nat → Dir → Fs → List (Except FResult FilInfo)
  | 0, _, _ => []
  | n + 1, dir, s =>
    match fReaddir F s dir with
    | (.error res, _) => [.error res]
    | (.ok (none, _), _) => []
    | (.ok (some fno, dir), s) => .ok fno :: readEntries F n dir s

/-- What FatFs answers to a scan of the directory at `path`; no directory has more entries than
the volume. -/
def scan (F : Faults) (path : CStr) (s : Fs) : Listing :=
  match fOpendir F s path with
  | (.error res, _) => .error res
  | (.ok dir, s) => .ok (readEntries F (s.vol.entries.length + 1) dir s)

/-- The entries of a directory, in order. -/
def children (v : Volume) (d : List Name) : List Entry := v.entries.filter fun e => e.parent = d

theorem children_nodup (v : Volume) (d : List Name) : ((children v d).map Entry.path).Nodup :=
  v.distinct.sublist (List.filter_sublist.map _)

/-- The next entry is the first one that has not been read. -/
theorem nextEntry_eq {v : Volume} {d : List Name} {pre rest : List Entry} {dir : Dir}
    (hSplit : children v d = pre ++ rest) (hDir : dir.path = d)
    (hRead : ∀ p, p ∈ dir.read ↔ p ∈ pre.map Entry.path) : nextEntry v dir = rest.head? := by
  have hDistinct := children_nodup v d
  rw [hSplit, List.map_append, List.nodup_append] at hDistinct
  have hFilter : nextEntry v dir = (children v d).find? fun e => e.path ∉ dir.read := by
    rw [nextEntry, children, List.find?_filter, hDir]
    congr 1
    funext e
    simp
  have hPre : pre.find? (fun e => decide (e.path ∉ dir.read)) = none := by
    refine List.find?_eq_none.mpr fun e he => ?_
    simpa using (hRead e.path).mpr (List.mem_map_of_mem he)
  rw [hFilter, hSplit, List.find?_append, hPre, Option.none_or]
  cases rest with
  | nil => rfl
  | cons e rest =>
    refine List.find?_cons_of_pos ?_
    rw [decide_eq_true_eq, hRead]
    exact fun hMem => hDistinct.2.2 _ hMem _ (by simp) rfl

theorem split_cons {all pre rest : List Entry} {e : Entry} (h : all = pre ++ e :: rest) :
    all = (pre ++ [e]) ++ rest := by
  rw [h, List.append_assoc, List.singleton_append]

theorem mem_read_cons {pre : List Entry} {read : List (List Name)}
    (hRead : ∀ p, p ∈ read ↔ p ∈ pre.map Entry.path) (e : Entry) (p : List Name) :
    p ∈ e.path :: read ↔ p ∈ (pre ++ [e]).map Entry.path := by
  rw [List.mem_cons, hRead, List.map_append, List.mem_append, or_comm]
  simp

/-- The stream shows the entries in order, until it stops or breaks. -/
inductive Shows : List Entry → List (Except FResult FilInfo) → Prop where
  | stop (es : List Entry) : Shows es []
  | broken (es : List Entry) (res : FResult) : Shows es [.error res]
  | entry {e : Entry} {es : List Entry} {stream : List (Except FResult FilInfo)}
      (h : Shows es stream) : Shows (e :: es) (.ok e.info :: stream)

section Read

variable {d : List Name} {pre rest : List Entry} {dir : Dir} {s : Fs}
  (hSplit : children s.vol d = pre ++ rest) (hDir : dir.path = d)
  (hRead : ∀ p, p ∈ dir.read ↔ p ∈ pre.map Entry.path)

include hSplit hDir hRead

theorem readEntries_shows (F : Faults) (n : Nat) : Shows rest (readEntries F n dir s) := by
  induction n generalizing pre rest dir s with
  | zero => exact .stop _
  | succ n ih =>
    have hNext := nextEntry_eq hSplit hDir hRead
    cases hFault : F.answer s.calls with
    | some e =>
      simp only [readEntries, fReaddir, hFault]
      exact .broken ..
    | none =>
      cases rest with
      | nil =>
        simp only [readEntries, fReaddir, hFault, hNext, List.head?_nil]
        exact .stop _
      | cons e rest =>
        simp only [readEntries, fReaddir, hFault, hNext, List.head?_cons]
        exact .entry (ih (split_cons hSplit) hDir (mem_read_cons hRead e))

theorem readEntries_none {n : Nat} (hn : rest.length < n) :
    readEntries .none n dir s = rest.map fun e => .ok e.info := by
  induction n generalizing pre rest dir s with
  | zero => omega
  | succ n ih =>
    have hNext := nextEntry_eq hSplit hDir hRead
    cases rest with
    | nil => simp only [readEntries, fReaddir, Faults.none, hNext, List.head?_nil, List.map_nil]
    | cons e rest =>
      simp only [readEntries, fReaddir, Faults.none, hNext, List.head?_cons, List.map_cons]
      rw [List.length_cons] at hn
      exact congrArg _ (ih (split_cons hSplit) hDir (mem_read_cons hRead e) (by omega))

end Read

-- ---------------------------------------------------------------------------
-- The list
-- ---------------------------------------------------------------------------

/-- The item that shows an entry. -/
def itemOf (e : Entry) : FileEntry := .ofInfo e.info

/-- No name is the single dot that `populate_directory` passes over. -/
theorem not_dot (n : Name) : ¬ (charAt n.chars 0 = '.' ∧ charAt n.chars 1 = '\x00') := by
  obtain ⟨chars, hne, -, hClean, hTrim⟩ := n
  rintro ⟨h0, h1⟩
  match chars with
  | [] => exact hne rfl
  | [c] =>
    have hc : c = '.' := h0
    rw [hc] at hTrim
    exact absurd hTrim (by decide)
  | _ :: c :: _ =>
    have hc : c = '\x00' := h1
    have hName := hClean c (by simp)
    rw [hc] at hName
    exact absurd hName (by decide)

theorem populateLoop_cons (e : Entry) (stream : List (Except FResult FilInfo)) (items : List FileEntry) :
    populateLoop (.ok e.info :: stream) items =
      if items.length < maxFilesPerDir then populateLoop stream (items ++ [itemOf e]) else items := by
  have hDot : ¬ (charAt e.info.fname 0 = '.' ∧ charAt e.info.fname 1 = '\x00') := not_dot e.name
  rw [populateLoop, if_neg hDot]
  rfl

theorem populateLoop_shows {es : List Entry} {stream : List (Except FResult FilInfo)}
    (h : Shows es stream) (items : List FileEntry) :
    ∃ m, m ≤ maxFilesPerDir - items.length ∧
      populateLoop stream items = items ++ (es.take m).map itemOf := by
  induction h generalizing items with
  | stop es => exact ⟨0, Nat.zero_le _, by simp [populateLoop]⟩
  | broken es res => exact ⟨0, Nat.zero_le _, by simp [populateLoop]⟩
  | @entry e es stream _ ih =>
    rw [populateLoop_cons]
    split
    · obtain ⟨m, hm, hEq⟩ := ih (items ++ [itemOf e])
      rw [List.length_append, List.length_singleton] at hm
      exact ⟨m + 1, by omega, by simp [hEq]⟩
    · exact ⟨0, Nat.zero_le _, by simp⟩

theorem populateLoop_all (es : List Entry) (items : List FileEntry) :
    populateLoop (es.map fun e => .ok e.info) items =
      items ++ (es.take (maxFilesPerDir - items.length)).map itemOf := by
  induction es generalizing items with
  | nil => simp [populateLoop]
  | cons e es ih =>
    rw [List.map_cons, populateLoop_cons]
    split
    · next hRoom =>
      obtain ⟨k, hk⟩ := Nat.exists_eq_add_of_lt hRoom
      rw [ih, show maxFilesPerDir - items.length = k + 1 by omega, List.take_succ_cons,
        List.length_append, List.length_singleton,
        show maxFilesPerDir - (items.length + 1) = k by omega]
      simp
    · next hFull => simp [Nat.sub_eq_zero_of_le (Nat.not_lt.mp hFull)]

/-- The list shows the first entries of the directory, at most 32; all 32 of them if no call
fails. -/
theorem populateDirectory_scan {path : CStr} {d : List Name} (hPath : Denotes path d) (F : Faults)
    (s : Fs) :
    ∃ m ≤ 32, populateDirectory (scan F path s) = ((children s.vol d).take m).map itemOf ∧
      (F = .none → s.vol.kind? d = some .dir → m = 32) := by
  unfold scan
  rcases hOpen : fOpendir F s path with ⟨res | dir, s'⟩
  · refine ⟨0, by omega, by simp [populateDirectory], ?_⟩
    rintro rfl hDir
    rw [fOpendir_none hPath hDir] at hOpen
    cases hOpen
  · obtain ⟨rfl, hVol, -⟩ := fOpendir_ok hPath hOpen
    have hSplit : children s'.vol d = [] ++ children s.vol d := by rw [hVol]; rfl
    by_cases hF : F = .none
    · subst hF
      refine ⟨32, le_rfl, ?_, fun _ _ => rfl⟩
      show populateLoop _ [] = _
      rw [readEntries_none hSplit rfl (by simp)
        (Nat.lt_succ_of_le (by rw [hVol]; exact List.length_filter_le ..)), populateLoop_all]
      rfl
    · have hDirPath : ({ path := d, read := [] } : Dir).path = d := rfl
      obtain ⟨m, hm, hEq⟩ := populateLoop_shows
        (readEntries_shows hSplit hDirPath (by simp) F (s'.vol.entries.length + 1)) []
      exact ⟨m, hm, hEq, fun h => absurd h hF⟩

-- ---------------------------------------------------------------------------
-- The paths built from an item
-- ---------------------------------------------------------------------------

/-- A slash at the end of a path does not count. -/
theorem denotes_of_slash {path : CStr} {d : List Name} (h : Denotes (path ++ ['/']) d) :
    Denotes path d := by
  have hClean : ∀ c ∈ path, isTerminator c = false := fun c hc => h.clean c (List.mem_append_left _ hc)
  have hTrail (rest : CStr) : segments isSeparator (rest ++ ['/']) = segments isSeparator rest := by
    rw [segments_append_cons rest [] rfl, segments_nil, List.append_nil]
  refine ⟨hClean, ?_⟩
  obtain ⟨rest, hRest, hNames⟩ := h.exists_rest
  rw [resolve_of_clean hClean]
  rcases getLdnumber_eq_some_iff.mp hRest with hPath | ⟨hColon, rfl⟩
  · -- the drive prefix is not the slash
    match path with
    | [] | [_] => cases hPath
    | _ :: _ :: tail =>
      cases hPath
      have hSame := hTrail tail
      change segmentNames (segments isSeparator (tail ++ ['/'])) = _ at hNames
      rw [getLdnumber, Option.bind_some, ← hSame, hNames]
  · rw [hTrail] at hNames
    have hLd : getLdnumber path = some path :=
      getLdnumber_eq_some_iff.mpr (.inr ⟨fun hMem => hColon (List.mem_append_left _ hMem), rfl⟩)
    rw [hLd, Option.bind_some, hNames]

/-- A click on a directory goes one level down, like `build_full_path`. -/
theorem resolve_enterDirectory {path : CStr} {d : List Name} (h : Denotes path d) {segment : CStr}
    (hne : segment ≠ []) (hChars : ∀ c ∈ segment, isNameChar c = true) :
    (∀ c ∈ enterDirectory path segment, isTerminator c = false) ∧
      resolve (enterDirectory path segment) = (createName segment).toOption.map fun n => d ++ [n] := by
  rw [enterDirectory]
  split
  · exact h.resolve_slash hne hChars
  · next hPrefix =>
    split
    · exact h.resolve_slash hne hChars
    · next hLast =>
      rcases List.eq_nil_or_concat' path with rfl | ⟨xs, c, rfl⟩
      · -- the empty path stands for the root
        have hRoot : d = [] := (Option.some.inj h.resolves).symm
        subst hRoot
        have hClean : ∀ c ∈ segment, isTerminator c = false :=
          fun c hc => (isNameChar_iff.mp (hChars c hc)).1
        refine ⟨hClean, resolve_segment hClean ?_ hne hChars⟩
        exact getLdnumber_eq_some_iff.mpr (.inr ⟨not_colon_of_isNameChar hChars, rfl⟩)
      · have hc : charAt (xs ++ [c]) ((xs ++ [c]).length - 1) = c := by simp [charAt]
        rw [hc] at hLast
        by_cases hColon : c = ':'
        · subst hColon
          obtain ⟨rfl, -⟩ := h.eq_prefix_of_colon
          exact absurd ⟨rfl, rfl⟩ hPrefix
        · have hSlash : c = '/' := by
            by_contra hSlash
            exact hLast ⟨by simp, hSlash, hColon⟩
          subst hSlash
          rw [List.append_assoc, List.singleton_append]
          exact (denotes_of_slash h).resolve_slash hne hChars

/-- Paths that lead one level down, built from a name in the list. -/
def Leads (build : CStr → CStr → CStr) : Prop :=
  ∀ {path : CStr} {d : List Name}, Denotes path d → ∀ {segment : CStr}, segment ≠ [] →
    (∀ c ∈ segment, isNameChar c = true) →
      (∀ c ∈ build path segment, isTerminator c = false) ∧
        resolve (build path segment) = (createName segment).toOption.map fun n => d ++ [n]

/-- The path built from an item denotes its entry exactly if the name was not cut off. -/
theorem denotes_item_iff {build : CStr → CStr → CStr} (hBuild : Leads build) {path : CStr} {e : Entry}
    (hPath : Denotes path e.parent) :
    Denotes (build path (itemOf e).name) e.path ↔ e.name.chars.length ≤ 63 := by
  have hShown : (itemOf e).name = e.name.chars.take 63 := rfl
  have hne : e.name.chars.take 63 ≠ [] := by
    rw [ne_eq, List.take_eq_nil_iff, not_or]
    exact ⟨by omega, e.name.nonempty⟩
  obtain ⟨hClean, hResolve⟩ := hBuild hPath hne fun c hc => e.name.clean c (List.mem_of_mem_take hc)
  rw [hShown]
  constructor
  · intro hDenotes
    by_contra hLong
    have hEntry := hResolve.symm.trans hDenotes.resolves
    cases hName : createName (e.name.chars.take 63) with
    | error err =>
      rw [hName] at hEntry
      cases hEntry
    | ok m =>
      rw [hName] at hEntry
      have hSame := (List.append_inj' (Option.some.inj hEntry) rfl).2
      exact createName_take_ne (by omega) hName (List.singleton_inj.mp hSame)
  · intro hShort
    rw [List.take_of_length_le hShort, createName_chars] at hResolve
    rw [List.take_of_length_le hShort] at hClean ⊢
    exact ⟨hClean, hResolve⟩

/-- A name is shown in full exactly if it has at most 63 characters. -/
theorem item_name_iff (e : Entry) : (itemOf e).name = e.name.chars ↔ e.name.chars.length ≤ 63 := by
  refine ⟨fun h => ?_, List.take_of_length_le⟩
  rw [← h]
  exact List.length_take_le ..

/--
**Listed names.** When `populate_directory` scans a directory of a volume, whichever calls
fail, the list shows the first entries of the directory, at most 32, and 32 if no call fails.
An item carries the full name of its entry, and the paths built from it to enter, rename or
delete it denote that entry, if and only if the name has at most 63 characters. If all the
listed names do, then no two items have the same name.
-/
theorem listed_names_identify {path : CStr} {d : List Name} (hPath : Denotes path d) (F : Faults)
    (s : Fs) :
    ∃ m ≤ 32, (F = .none → s.vol.kind? d = some .dir → m = 32) ∧
      populateDirectory (scan F path s) = ((children s.vol d).take m).map itemOf ∧
      (∀ e ∈ (children s.vol d).take m,
        ((itemOf e).name = e.name.chars ↔ e.name.chars.length ≤ 63) ∧
        (Denotes (enterDirectory path (itemOf e).name) e.path ↔ e.name.chars.length ≤ 63) ∧
        (Denotes (buildFullPath path (itemOf e).name) e.path ↔ e.name.chars.length ≤ 63)) ∧
      ((∀ e ∈ (children s.vol d).take m, e.name.chars.length ≤ 63) →
        ((populateDirectory (scan F path s)).map FileEntry.name).Nodup) := by
  obtain ⟨m, hm, hList, hAll⟩ := populateDirectory_scan hPath F s
  have hParent : ∀ e ∈ (children s.vol d).take m, e.parent = d := by
    intro e he
    have hChild := List.mem_of_mem_take he
    rw [children, List.mem_filter, decide_eq_true_eq] at hChild
    exact hChild.2
  refine ⟨m, hm, hAll, hList, ?_, ?_⟩
  · intro e he
    have hIn : Denotes path e.parent := (hParent e he).symm ▸ hPath
    exact ⟨item_name_iff e, denotes_item_iff resolve_enterDirectory hIn,
      denotes_item_iff resolve_buildFullPath hIn⟩
  · intro hShort
    have hPaths : (((children s.vol d).take m).map Entry.path).Nodup :=
      (children_nodup s.vol d).sublist ((List.take_sublist m _).map _)
    rw [hList, List.map_map]
    refine (List.nodup_map_iff_inj_on hPaths.of_map).mpr ?_
    intro e he e' he' hSame
    -- in one directory the name determines the path
    have hChars : e.name.chars = e'.name.chars := by
      rw [← (item_name_iff e).mpr (hShort e he), ← (item_name_iff e').mpr (hShort e' he')]
      exact hSame
    have hName : e.name = e'.name := by
      cases hn : e.name
      cases hn' : e'.name
      simpa [hn, hn'] using hChars
    refine List.inj_on_of_nodup_map hPaths he he' ?_
    rw [Entry.path, Entry.path, hParent e he, hParent e' he', hName]

theorem listed_names_identify_demo :
    ((populateDirectory (scan .none ['0', ':'] { vol := demoVolume, calls := 0 })).map
      FileEntry.name).Nodup := by
  have hPath : Denotes ['0', ':'] [] := ⟨by simp [isTerminator], by decide⟩
  obtain ⟨m, -, -, -, -, hDistinct⟩ := listed_names_identify hPath .none { vol := demoVolume, calls := 0 }
  refine hDistinct fun e he => ?_
  have hShort : ∀ e ∈ demoVolume.entries, e.name.chars.length ≤ 63 := by decide
  exact hShort e (List.mem_of_mem_filter (List.mem_of_mem_take he))

/-- The name of `n` letters `a`. -/
def lettersA (n : Nat) (h0 : 0 < n) (h : n ≤ 255) : Name where
  chars := List.replicate n 'a'
  nonempty := by
    rw [ne_eq, List.replicate_eq_nil_iff]
    omega
  short := by rwa [List.length_replicate]
  clean c hc := by rw [List.eq_of_mem_replicate hc]; decide
  trimmed := by
    obtain ⟨k, rfl⟩ : ∃ k, n = k + 1 := ⟨n - 1, by omega⟩
    rw [List.replicate_succ', List.rdropWhile_concat_neg _ _ _ (by decide)]

def short63 : Entry := { parent := [], name := lettersA 63 (by decide) (by decide), kind := .file 1 }

def long64 : Entry := { parent := [], name := lettersA 64 (by decide) (by decide), kind := .file 2 }

/-- Two files whose names agree in the first 63 characters. -/
def twins : Volume where
  entries := [short63, long64]
  distinct := by decide
  housed := by decide

/-- Both are listed under the same name, and the path built from the second item denotes the first
file. -/
theorem listed_names_collide :
    populateDirectory (scan .none ['0', ':'] { vol := twins, calls := 0 }) =
        [itemOf short63, itemOf long64] ∧
      (itemOf short63).name = (itemOf long64).name ∧
      Denotes (buildFullPath ['0', ':'] (itemOf long64).name) short63.path := by
  have hPath : Denotes ['0', ':'] [] := ⟨by simp [isTerminator], by decide⟩
  have hSame : (itemOf short63).name = (itemOf long64).name := by decide
  refine ⟨by rfl, hSame, ?_⟩
  rw [← hSame]
  exact (denotes_item_iff (e := short63) resolve_buildFullPath hPath).mpr (by decide)

end Nao.Explorer
