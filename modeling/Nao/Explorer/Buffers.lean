import Nao.Explorer.Delete
import Nao.Explorer.Dialogs

/-!
# File explorer — do the paths fit their buffers?

Nothing in the explorer measures a path. The lengths follow from three things: a name in the
list and the input field have at most 63 characters (`Short`), the path has the length of its
spelled stack (`spells_pathOf`), and the recursive delete adds the names below the directory
(`built_fits`). `path_buffers_fit` says what has to be true of the tree for everything to
fit; `current_path_overflows` is a run in which it is not.
-/

namespace Nao.Explorer

open SysLib FatFs

theorem length_buildFullPath_le (base name : CStr) :
    (buildFullPath base name).length ≤ base.length + (name.length + 1) := by
  rw [buildFullPath]
  split <;> simp

-- ---------------------------------------------------------------------------
-- The dialogs
-- ---------------------------------------------------------------------------

/-- The results of `build_full_path` in a call. -/
def Event.built : Event → List CStr
  | .rename old new => [old, new]
  | .delete target => [target]
  | .mkdir path => [path]
  | _ => []

/-- The names that are appended to `current_path` are short, and so is what was built. -/
structure Short (c : Core) : Prop extends Kept c where
  items      : ∀ item ∈ c.items, item.name.length ≤ 63
  target_len : c.target.length ≤ 63
  input_len  : c.input.length ≤ 63
  built      : Throughout (fun pre e => ∀ q ∈ e.built, q.length ≤ (pathOf pre).length + 64) c.log

theorem populateLoop_short {stream : List (Except FResult FilInfo)} {items : List FileEntry}
    (h : ∀ item ∈ items, item.name.length ≤ 63) :
    ∀ item ∈ populateLoop stream items, item.name.length ≤ 63 := by
  induction stream generalizing items with
  | nil => exact h
  | cons answer rest ih =>
    cases answer with
    | error e => exact h
    | ok fno =>
      rw [populateLoop]
      split
      · split
        · exact ih h
        · refine ih fun item hItem => ?_
          rcases List.mem_append.mp hItem with hItem | hItem
          · exact h item hItem
          · rw [List.mem_singleton.mp hItem]
            exact List.length_take_le ..
      · exact h

theorem populateDirectory_short (listing : Listing) :
    ∀ item ∈ populateDirectory listing, item.name.length ≤ 63 := by
  cases listing with
  | error e => simp [populateDirectory]
  | ok stream => exact populateLoop_short (by simp)

namespace Short

variable {c c' : Core}

theorem boot : Short State.boot.core where
  toKept := .boot
  items := by simp [State.core, State.boot]
  target_len := Nat.zero_le _
  input_len := Nat.zero_le _
  built := throughout_nil

theorem length_join_le (h : Short c) {name : CStr} (hName : name.length ≤ 63) :
    (buildFullPath c.path name).length ≤ (pathOf c.log).length + 64 := by
  have hLe := length_buildFullPath_le c.path name
  rw [← h.path]
  omega

/-- One call or click: what it builds, it builds from `current_path` and a short name. -/
theorem step_built (h : Short c) (hStep : Micro c c') :
    Throughout (fun pre e => ∀ q ∈ e.built, q.length ≤ (pathOf pre).length + 64) c'.log := by
  cases hStep with
  | scan listing => exact h.built
  | edit typed => exact h.built
  | rename =>
    refine throughout_concat.mpr ⟨h.built, fun q hq => ?_⟩
    rcases List.mem_pair.mp hq with rfl | rfl
    · exact h.length_join_le h.target_len
    · exact h.length_join_le h.input_len
  | delete =>
    refine throughout_concat.mpr ⟨h.built, fun q hq => ?_⟩
    obtain rfl := List.mem_singleton.mp hq
    exact h.length_join_le h.target_len
  | mkdir =>
    refine throughout_concat.mpr ⟨h.built, fun q hq => ?_⟩
    obtain rfl := List.mem_singleton.mp hq
    exact h.length_join_le h.input_len
  | _ => exact throughout_concat.mpr ⟨h.built, fun q hq => nomatch hq⟩

theorem step (h : Short c) (hStep : Micro c c') : Short c' where
  toKept := h.toKept.step hStep
  items := by
    cases hStep with
    | scan listing => exact populateDirectory_short listing
    | _ => exact h.items
  target_len := by
    cases hStep with
    | rightClick item hItem => exact h.items item hItem
    | _ => exact h.target_len
  input_len := by
    cases hStep with
    | edit typed => exact (List.length_take_le ..).trans (by decide)
    | choseRename => exact h.target_len
    | choseNewFolder => exact Nat.zero_le _
    | _ => exact h.input_len
  built := h.step_built hStep

end Short

theorem runActions_short (as : List Action) : Short (runActions as .boot).core :=
  runActions_invariant Short (fun _ _ h hStep => h.step hStep) Short.boot as

-- ---------------------------------------------------------------------------
-- The recursive delete
-- ---------------------------------------------------------------------------

/-- From `path`, the directory `d`, every object below is reached within 255 characters. -/
def DeepFits (path : CStr) (d : List Name) (v : Volume) : Prop :=
  ∀ e ∈ v.entries, ∀ rel, e.path = d ++ rel → rel ≠ [] →
    path.length + (rel.map fun n => n.chars.length + 1).sum < 256

theorem DeepFits.of_sublist {path : CStr} {d : List Name} {v v' : Volume} (h : DeepFits path d v)
    (hSub : v'.entries.Sublist v.entries) : DeepFits path d v' :=
  fun e he => h e (hSub.subset he)

theorem DeepFits.sub_lt {path : CStr} {v : Volume} {e : Entry} (h : DeepFits path e.parent v)
    (he : e ∈ v.entries) : (buildFullPath path e.name.chars).length < 256 := by
  have hLen := h e he [e.name] rfl (by simp)
  have hLe := length_buildFullPath_le path e.name.chars
  simp only [List.map_cons, List.map_nil, List.sum_cons, List.sum_nil] at hLen
  omega

theorem DeepFits.sub {path : CStr} {v : Volume} {e : Entry} (h : DeepFits path e.parent v) :
    DeepFits (buildFullPath path e.name.chars) e.path v := by
  intro x hx rel hRel _
  have hLen := h x hx (e.name :: rel) (by rw [hRel, Entry.path, List.append_assoc]; rfl) (by simp)
  have hLe := length_buildFullPath_le path e.name.chars
  rw [List.map_cons, List.sum_cons] at hLen
  omega

/-- Everything a run builds is shorter than its buffer. -/
def Fits (path : CStr) (s : Fs) (r : Deleted) : Prop :=
  ∀ d, Denotes path d → DeepFits path d s.vol → ∀ q ∈ r.built, q.length < 256

theorem Child.fits {F : Faults} {path : CStr} {s : Fs} {e : Entry} {r : Deleted}
    (h : Child F Fits (buildFullPath path e.name.chars) e.kind s r) (hPath : Denotes path e.parent)
    (hDeep : DeepFits path e.parent s.vol) : ∀ q ∈ r.built, q.length < 256 := by
  cases hKind : e.kind with
  | dir =>
    rw [hKind] at h
    exact h.2 _ (denotes_sub hPath e.name) hDeep.sub
  | file size =>
    rw [hKind] at h
    subst h
    simp [unlinked]

theorem finishDelete_built (F : Faults) (path : CStr) (r : Deleted) :
    (finishDelete F path r).built = r.built := by
  rw [finishDelete]
  split <;> rfl

theorem fits_rule (F : Faults) : DeleteRule F Fits fun path dir s r =>
    Denotes path dir.path → DeepFits path dir.path s.vol → ∀ q ∈ r.built, q.length < 256 where
  openFailed _ d _ _ q hq := by cases hq
  opened hOpen _ hLoop d hPath hDeep := by
    obtain ⟨rfl, hVol, -⟩ := fOpendir_ok hPath hOpen
    rw [finishDelete_built]
    exact hLoop hPath (by rwa [hVol])
  readFailed _ _ _ q hq := by cases hq
  ended _ _ _ q hq := by cases hq
  skipped hRead _ hLoop hPath hDeep := by
    obtain ⟨hVol, e, -, -, -, -, rfl⟩ := fReaddir_entry hRead
    exact hLoop hPath (by rwa [hVol])
  childFailed hRead _ hChild _ hPath hDeep q hq := by
    obtain ⟨hVol, e, he, rfl, hParent, -, -⟩ := fReaddir_entry hRead
    rw [← hParent] at hPath hDeep
    rcases List.mem_cons.mp hq with rfl | hq
    · exact hDeep.sub_lt he
    · exact hChild.fits hPath (by rwa [hVol]) q hq
  childRemoved hRead hDot hChild _ _ hLoop hPath hDeep q hq := by
    obtain ⟨hVol, e, he, rfl, hParent, -, rfl⟩ := fReaddir_entry hRead
    have hKept := (hChild.safe.removes hPath hDot).kept
    rcases List.mem_cons.mp hq with rfl | hq
    · rw [← hParent] at hDeep
      exact hDeep.sub_lt he
    rcases List.mem_append.mp hq with hq | hq
    · rw [← hParent] at hPath hDeep
      exact hChild.fits hPath (by rwa [hVol]) q hq
    · exact hLoop hPath (hDeep.of_sublist (by rwa [hVol] at hKept)) q hq

theorem built_fits {F : Faults} {path : CStr} {s : Fs} {r : Deleted} (h : Ran F path s r) :
    Fits path s r :=
  (fits_rule F).ran h

-- ---------------------------------------------------------------------------
-- All buffers
-- ---------------------------------------------------------------------------

/-- `current_path` fits its 128 bytes at every moment of the history. -/
def CurrentPathFits (log : List Event) : Prop := ∀ pre, pre <+: log → (pathOf pre).length < 128

/-- The directory the explorer is in has a path of at most 127 characters from the root. -/
def ShallowLog (log : List Event) : Prop := ∀ pre, pre <+: log → (spelled (stackOf pre)).length < 128

theorem currentPathFits_iff {sep : Char → Bool} (hSlash : sep '/' = true) {log : List Event}
    (hLog : LegalLog sep log) : CurrentPathFits log ↔ ShallowLog log := by
  refine forall₂_congr fun pre hPre => ?_
  have hLegal : LegalLog sep pre := fun name hName => hLog name (hPre.subset hName)
  rcases spells_pathOf hSlash hLegal with hPath | ⟨hPath, hRoot⟩
  · rw [hPath]
  · rw [hPath, hRoot]
    simp [spelled]

/--
**When the explorer's paths fit.** For every run of the explorer in which directories with
legal names are entered: `current_path` fits its 128 bytes throughout exactly if the path of
every directory that was entered, spelled from the root, has at most 127 characters; if so,
every path built for Rename, Delete and New Folder fits its 256 bytes; and, for every
deletion, on any volume and with any failing calls, so does every path built by
`empty_and_delete_dir` if from the deleted directory every object below it is reached within
255 characters.
-/
theorem path_buffers_fit (as : List Action) {sep : Char → Bool} (hSlash : sep '/' = true)
    (hLog : LegalLog sep (runActions as .boot).log) :
    (CurrentPathFits (runActions as .boot).log ↔ ShallowLog (runActions as .boot).log) ∧
      (ShallowLog (runActions as .boot).log →
        ∀ e ∈ (runActions as .boot).log, ∀ q ∈ e.built, q.length < 256) ∧
      ∀ target, .delete target ∈ (runActions as .boot).log →
        ∀ F s r d, Denotes target d → DeepFits target d s.vol → Ran F target s r →
          ∀ q ∈ r.built, q.length < 256 := by
  have hIff := currentPathFits_iff hSlash hLog
  refine ⟨hIff, ?_, fun target _ F s r d hPath hDeep hRan => built_fits hRan d hPath hDeep⟩
  intro hShallow e he q hq
  obtain ⟨pre, post, hSplit⟩ := List.append_of_mem he
  have hBuilt := (runActions_short as).built pre e post hSplit q hq
  have hPath := hIff.mpr hShallow pre (hSplit ▸ List.prefix_append ..)
  omega

/-- One frame in which the only item, a directory with 60 characters, is clicked. -/
def enterLong : Action :=
  .frame
    { listing := .ok [.ok { fname := List.replicate 60 'A', kind := .dir }]
      itemClicked := fun i => i == 0 }

theorem path_buffers_fit_demo :
    (pathOf (runActions [.window true false, enterLong] .boot).log).length < 128 := by
  have hRun : (runActions [.window true false, enterLong] .boot).log =
      [.entered (List.replicate 60 'A')] := by decide
  have hLog : LegalLog (· == '/') (runActions [.window true false, enterLong] .boot).log := by
    rw [hRun]
    intro name hName
    cases List.mem_singleton.mp hName
    exact ⟨by decide, by simp, by decide⟩
  refine (path_buffers_fit [.window true false, enterLong] rfl hLog).1.mpr ?_ _ (List.prefix_refl _)
  rw [hRun]
  intro pre hPre
  rcases List.prefix_cons_iff.mp hPre with rfl | ⟨t, rfl, ht⟩
  · decide
  · rw [List.prefix_nil.mp ht]
    decide

/-- Three such directories deep, `current_path` would need 186 bytes. -/
theorem current_path_overflows :
    (runActions [.window true false, enterLong, enterLong, enterLong] .boot).currentPath.length =
      185 := by
  decide

end Nao.Explorer
