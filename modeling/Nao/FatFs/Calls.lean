import Nao.FatFs.Volume

/-!
# FatFs — what the calls promise

`Denotes` relates path strings to objects; a segment appended behind a slash leads one level
down (`Denotes.resolve_slash`). Then one lemma for each outcome of each call: what it says about the
volume, and what it leaves as it was.
-/

namespace Nao.FatFs

open SysLib

-- ---------------------------------------------------------------------------
-- Path strings
-- ---------------------------------------------------------------------------

/-- The string stands for the object at `p`, and it is read to its end: a control character
would cut it off. -/
structure Denotes (path : CStr) (p : List Name) : Prop where
  clean    : ∀ c ∈ path, isTerminator c = false
  resolves : resolve path = some p

/-- The names of the segments of a path. -/
def segmentNames (segs : List CStr) : Option (List Name) :=
  segs.mapM fun s => (createName s).toOption

theorem resolve_of_clean {path : CStr} (h : ∀ c ∈ path, isTerminator c = false) :
    resolve path = (getLdnumber path).bind fun rest => segmentNames (segments isSeparator rest) := by
  have hAll : path.takeWhile (fun c => !isTerminator c) = path :=
    List.takeWhile_eq_self_iff.mpr fun c hc => by rw [h c hc]; rfl
  rw [resolve, pathSegments, hAll, Option.bind_map]
  rfl

theorem Denotes.exists_rest {path : CStr} {p : List Name} (h : Denotes path p) :
    ∃ rest, getLdnumber path = some rest ∧ segmentNames (segments isSeparator rest) = some p :=
  Option.bind_eq_some_iff.mp ((resolve_of_clean h.clean).symm.trans h.resolves)

theorem segmentNames_concat {segs : List CStr} {p : List Name} (h : segmentNames segs = some p)
    (segment : CStr) :
    segmentNames (segs ++ [segment]) = (createName segment).toOption.map fun n => p ++ [n] := by
  unfold segmentNames at h ⊢
  rw [List.mapM_append, h]
  cases hName : createName segment <;> simp [hName, Except.toOption]

/-- A name that is cut off is another name. -/
theorem createName_take_ne {n m : Name} {k : Nat} (hLong : k < n.chars.length)
    (h : createName (n.chars.take k) = .ok m) : m ≠ n := by
  intro hEq
  have hLen := (List.rdropWhile_prefix isTrailing (n.chars.take k)).length_le
  rw [← chars_of_createName h, hEq, List.length_take] at hLen
  omega

/-- The segments of a path that stands for something hold no illegal characters. -/
theorem isNameChar_of_segmentNames {segs : List CStr} {p : List Name}
    (h : segmentNames segs = some p) {s : CStr} (hs : s ∈ segs) : ∀ c ∈ s, isNameChar c = true := by
  induction segs generalizing p with
  | nil => cases hs
  | cons t ts ih =>
    simp only [segmentNames, List.mapM_cons, Option.bind_eq_bind, Option.bind_eq_some_iff] at h
    obtain ⟨n, hn, ns, hns, -⟩ := h
    rcases List.mem_cons.mp hs with rfl | hs
    · unfold createName at hn
      dsimp only at hn
      split at hn
      · next hOk => exact List.all_eq_true.mp hOk.1
      · cases hn
    · exact ih hns hs

theorem isNameChar_iff {c : Char} :
    isNameChar c = true ↔ isTerminator c = false ∧ isSeparator c = false ∧ isIllegal c = false := by
  simp [isNameChar, and_assoc]

theorem not_colon_of_isNameChar {s : CStr} (h : ∀ c ∈ s, isNameChar c = true) : ':' ∉ s := by
  intro hc
  have hIllegal := (isNameChar_iff.mp (h _ hc)).2.2
  revert hIllegal
  decide

/-- A path either begins with the drive prefix or has no colon. -/
theorem getLdnumber_eq_some_iff {path rest : CStr} :
    getLdnumber path = some rest ↔
      path = '0' :: ':' :: rest ∨ (':' ∉ path ∧ path = rest) := by
  unfold getLdnumber
  split
  · next tail =>
    simp only [Option.some.injEq, List.cons.injEq, true_and]
    constructor
    · exact .inl
    · rintro (rfl | ⟨hColon, -⟩)
      · rfl
      · exact absurd (by simp) hColon
  · next hPrefix =>
    constructor
    · intro h
      split at h
      · cases h
      · next hColon => exact .inr ⟨hColon, Option.some.inj h⟩
    · rintro (rfl | ⟨hColon, rfl⟩)
      · exact absurd rfl (hPrefix rest)
      · rw [if_neg hColon]

namespace Denotes

variable {path : CStr} {p : List Name}

/-- One level down: a segment behind a slash. -/
theorem resolve_slash (h : Denotes path p) {segment : CStr} (hne : segment ≠ [])
    (hChars : ∀ c ∈ segment, isNameChar c = true) :
    (∀ c ∈ path ++ '/' :: segment, isTerminator c = false) ∧
      resolve (path ++ '/' :: segment) = (createName segment).toOption.map fun n => p ++ [n] := by
  have hClean : ∀ c ∈ path ++ '/' :: segment, isTerminator c = false := by
    intro c hc
    rcases List.mem_append.mp hc with hc | hc
    · exact h.clean c hc
    rcases List.mem_cons.mp hc with rfl | hc
    · rfl
    · exact (isNameChar_iff.mp (hChars c hc)).1
  obtain ⟨rest, hRest, hNames⟩ := h.exists_rest
  have hNext : getLdnumber (path ++ '/' :: segment) = some (rest ++ '/' :: segment) := by
    rcases getLdnumber_eq_some_iff.mp hRest with rfl | ⟨hColon, rfl⟩
    · rfl
    · refine getLdnumber_eq_some_iff.mpr (.inr ⟨?_, rfl⟩)
      simp [hColon, not_colon_of_isNameChar hChars]
  refine ⟨hClean, ?_⟩
  rw [resolve_of_clean hClean, hNext, Option.bind_some,
    segments_concat rest rfl hne fun c hc => (isNameChar_iff.mp (hChars c hc)).2.1]
  exact segmentNames_concat hNames segment

/-- The only path that ends with a colon is the drive prefix. -/
theorem eq_prefix_of_colon (h : Denotes (path ++ [':']) p) : path = ['0'] ∧ p = [] := by
  obtain ⟨rest, hRest, hNames⟩ := h.exists_rest
  rcases getLdnumber_eq_some_iff.mp hRest with hPath | ⟨hColon, -⟩
  · rcases List.eq_nil_or_concat' rest with rfl | ⟨xs, x, rfl⟩
    · have hSplit : path ++ [':'] = ['0'] ++ [':'] := hPath
      refine ⟨(List.append_inj' hSplit rfl).1, ?_⟩
      rw [segments_nil] at hNames
      exact (Option.some.inj hNames).symm
    · -- a colon behind the prefix is in a segment, and no name has one
      exfalso
      have hx : x = ':' := by
        have hSplit : path ++ [':'] = ('0' :: ':' :: xs) ++ [x] := hPath
        exact (List.singleton_inj.mp (List.append_inj' hSplit rfl).2).symm
      have hLast : x ∈ xs ++ [x] := by simp
      obtain ⟨s, hs, hMem⟩ := exists_mem_segments (p := isSeparator) hLast (by rw [hx]; rfl)
      have hChar := isNameChar_of_segmentNames hNames hs x hMem
      rw [hx] at hChar
      revert hChar
      decide
  · exact absurd (by simp) hColon

end Denotes

/-- A path of one segment, with or without the drive prefix. -/
theorem resolve_segment {path segment : CStr} (hClean : ∀ c ∈ path, isTerminator c = false)
    (hLd : getLdnumber path = some segment) (hne : segment ≠ [])
    (hChars : ∀ c ∈ segment, isNameChar c = true) :
    resolve path = (createName segment).toOption.map fun n => [n] := by
  rw [resolve_of_clean hClean, hLd, Option.bind_some,
    segments_of_forall hne fun c hc => (isNameChar_iff.mp (hChars c hc)).2.1]
  have hNil : segmentNames [] = some [] := rfl
  exact segmentNames_concat hNil segment

/-- A segment behind the bare drive prefix. -/
theorem resolve_prefix {segment : CStr} (hne : segment ≠ [])
    (hChars : ∀ c ∈ segment, isNameChar c = true) :
    (∀ c ∈ '0' :: ':' :: segment, isTerminator c = false) ∧
      resolve ('0' :: ':' :: segment) = (createName segment).toOption.map fun n => [n] := by
  have hClean : ∀ c ∈ '0' :: ':' :: segment, isTerminator c = false := by
    intro c hc
    rcases List.mem_cons.mp hc with rfl | hc
    · rfl
    rcases List.mem_cons.mp hc with rfl | hc
    · rfl
    · exact (isNameChar_iff.mp (hChars c hc)).1
  exact ⟨hClean, resolve_segment hClean rfl hne hChars⟩

/-- Where no object lies in `p`, none lies below it. -/
theorem Volume.path_eq_of_childless {v : Volume} {p : List Name} (h : v.Childless p) {e : Entry}
    (he : e ∈ v.entries) (hBelow : p <+: e.path) : e.path = p := by
  obtain ⟨rest, hRest⟩ := hBelow
  cases rest with
  | nil => rw [← hRest, List.append_nil]
  | cons n rest =>
    -- the object one level below `p` on the way to `e`
    have hThere : (v.kind? (p ++ [n])).isSome := by
      rw [List.append_cons] at hRest
      by_cases hnil : rest = []
      · rw [hnil, List.append_nil] at hRest
        rw [hRest, Volume.kind?_path he]
        rfl
      · rw [Volume.kind?_of_append (r := rest) (by rw [hRest, Volume.kind?_path he]; rfl) hnil]
        rfl
    obtain ⟨k, hk⟩ := Option.isSome_iff_exists.mp hThere
    obtain ⟨d, hd, hPath, -⟩ := Volume.exists_of_kind? hk (by simp)
    exact absurd (List.append_inj' hPath rfl).1 (h d hd)

-- ---------------------------------------------------------------------------
-- The calls
-- ---------------------------------------------------------------------------

theorem followSegments_error_ne_ok {v : Volume} {cur : List Name} {segs : List CStr} {e : FResult}
    (h : followSegments v cur segs = .error e) : e ≠ .ok := by
  induction segs generalizing cur with
  | nil => cases h
  | cons segment rest ih =>
    rw [followSegments] at h
    split at h
    · next hName =>
      cases h
      unfold createName at hName
      dsimp only at hName
      split at hName
      · cases hName
      · cases hName
        decide
    · split at h
      · cases h
        split <;> decide
      · split at h
        · cases h
        · cases h
          decide
      · exact ih h

theorem followPath_error_ne_ok {v : Volume} {path : CStr} {e : FResult}
    (h : followPath v path = .error e) : e ≠ .ok := by
  unfold followPath at h
  split at h
  · cases h
    decide
  · exact followSegments_error_ne_ok h

theorem opendirAt_error_ne_ok {v : Volume} {path : CStr} {e : FResult}
    (h : opendirAt v path = .error e) : e ≠ .ok := by
  unfold opendirAt at h
  split at h
  · cases h
    decide
  · next hFollow =>
    cases h
    exact followPath_error_ne_ok hFollow
  · split at h
    · cases h
    · cases h
      decide

variable {F : Faults} {s s' : Fs} {path : CStr} {p : List Name} {dir dir' : Dir} {res : FResult}

theorem fOpendir_error (h : fOpendir F s path = (.error res, s')) : res ≠ .ok ∧ s'.vol = s.vol := by
  unfold fOpendir at h
  split at h
  · next e hFault =>
    obtain ⟨hRes, rfl⟩ := Prod.mk.inj h
    cases hRes
    exact ⟨fun hOk => F.real _ (hOk ▸ hFault), rfl⟩
  · obtain ⟨hRes, rfl⟩ := Prod.mk.inj h
    exact ⟨opendirAt_error_ne_ok hRes, rfl⟩

theorem fOpendir_ok (hPath : Denotes path p) (h : fOpendir F s path = (.ok dir, s')) :
    dir = { path := p, read := [] } ∧ s'.vol = s.vol ∧ s.vol.kind? p = some .dir := by
  unfold fOpendir at h
  split at h
  · cases h
  · obtain ⟨hDir, rfl⟩ := Prod.mk.inj h
    unfold opendirAt at hDir
    split at hDir
    · cases hDir
    · cases hDir
    · next q hFollow =>
      have hq := (followPath_eq_ok_iff.mp hFollow).1
      rw [hPath.resolves, Option.some.injEq] at hq
      subst hq
      split at hDir
      · next hKind =>
        cases hDir
        exact ⟨rfl, rfl, hKind⟩
      · cases hDir

theorem fOpendir_of_unresolved (h : resolve path = none) :
    ∃ res s', fOpendir F s path = (.error res, s') := by
  unfold fOpendir
  split
  · exact ⟨_, _, rfl⟩
  · unfold opendirAt
    split
    · exact ⟨_, _, rfl⟩
    · exact ⟨_, _, rfl⟩
    · next q hFollow =>
      have hq := (followPath_eq_ok_iff.mp hFollow).1
      rw [h] at hq
      cases hq

theorem fReaddir_error (h : fReaddir F s dir = (.error res, s')) : res ≠ .ok ∧ s'.vol = s.vol := by
  unfold fReaddir at h
  split at h
  · next e hFault =>
    obtain ⟨hRes, rfl⟩ := Prod.mk.inj h
    cases hRes
    exact ⟨fun hOk => F.real _ (hOk ▸ hFault), rfl⟩
  · split at h
    · cases h
    · cases h

/-- The end of a directory: all its entries have been read. -/
theorem fReaddir_end (h : fReaddir F s dir = (.ok (none, dir'), s')) :
    s'.vol = s.vol ∧ ∀ e ∈ s.vol.entries, e.parent = dir.path → e.path ∈ dir.read := by
  unfold fReaddir at h
  split at h
  · cases h
  · split at h
    · next hNone =>
      obtain ⟨-, rfl⟩ := Prod.mk.inj h
      refine ⟨rfl, fun e he hParent => ?_⟩
      have hSeen := List.find?_eq_none.mp hNone e he
      simpa [hParent] using hSeen
    · cases h

/-- An entry is an entry of the directory that was not read before. -/
theorem fReaddir_entry {fno : FilInfo} (h : fReaddir F s dir = (.ok (some fno, dir'), s')) :
    s'.vol = s.vol ∧ ∃ e ∈ s.vol.entries, fno = e.info ∧ e.parent = dir.path ∧
      e.path ∉ dir.read ∧ dir' = { dir with read := e.path :: dir.read } := by
  unfold fReaddir at h
  split at h
  · cases h
  · split at h
    · cases h
    · next e hNext =>
      obtain ⟨hEntry, rfl⟩ := Prod.mk.inj h
      cases hEntry
      have hFound := List.find?_some hNext
      simp only [decide_eq_true_eq] at hFound
      exact ⟨rfl, e, List.mem_of_find?_eq_some hNext, rfl, hFound.1, hFound.2, rfl⟩

/-- `f_unlink` fails and changes nothing, or it takes away an object in which nothing lies. -/
theorem fUnlink_cases (hPath : Denotes path p) :
    ((fUnlink F s path).1 ≠ .ok ∧ (fUnlink F s path).2.vol = s.vol) ∨
      ((fUnlink F s path).1 = .ok ∧ p ≠ [] ∧
        ∃ h : s.vol.Childless p, (fUnlink F s path).2.vol = s.vol.remove p h) := by
  unfold fUnlink
  split
  · next e hFault => exact .inl ⟨fun hOk : e = .ok => F.real _ (hOk ▸ hFault), rfl⟩
  · unfold unlinkAt
    split
    · next e hFollow => exact .inl ⟨followPath_error_ne_ok hFollow, rfl⟩
    · next q hFollow =>
      have hq := (followPath_eq_ok_iff.mp hFollow).1
      rw [hPath.resolves, Option.some.injEq] at hq
      subst hq
      split
      · exact .inl ⟨by simp, rfl⟩
      · next hRoot =>
        split
        · next hEmpty => exact .inr ⟨rfl, hRoot, hEmpty, rfl⟩
        · exact .inl ⟨by simp, rfl⟩

-- ---------------------------------------------------------------------------
-- Without faults
-- ---------------------------------------------------------------------------

theorem followPath_of_denotes (hPath : Denotes path p) (h : (s.vol.kind? p).isSome) :
    followPath s.vol path = .ok p :=
  followPath_eq_ok_iff.mpr ⟨hPath.resolves, h⟩

theorem fOpendir_none (hPath : Denotes path p) (h : s.vol.kind? p = some .dir) :
    fOpendir .none s path = (.ok { path := p, read := [] }, { s with calls := s.calls + 1 }) := by
  have hFollow := followPath_of_denotes hPath (by rw [h]; rfl)
  simp only [fOpendir, Faults.none, opendirAt, hFollow, h]

theorem fUnlink_none (hPath : Denotes path p) (hRoot : p ≠ []) (hThere : (s.vol.kind? p).isSome)
    (hEmpty : s.vol.Childless p) : (fUnlink .none s path).1 = .ok := by
  have hFollow := followPath_of_denotes hPath hThere
  simp only [fUnlink, Faults.none, unlinkAt, hFollow, if_neg hRoot, dif_pos hEmpty]

theorem fReaddir_none (s : Fs) (dir : Dir) : (fReaddir .none s dir).1 ≠ .error res := by
  unfold fReaddir
  simp only [Faults.none]
  split <;> simp

end Nao.FatFs
