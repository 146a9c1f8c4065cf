import Nao.Explorer.Delete
import Nao.Explorer.Frame

/-!
# File explorer — does Delete delete?

Without faults the recursive delete removes a directory completely unless an object below it
has a name that begins with a dot (`delete_ok_iff`): such entries are passed over, and the
directory that holds one cannot be unlinked. `deleteItem_log` follows an item of the list
through the right click, the menu and the dialog; `delete_deletes_iff` puts the two together.
-/

namespace Nao.Explorer

open SysLib FatFs

-- ---------------------------------------------------------------------------
-- Completeness of the recursive delete
-- ---------------------------------------------------------------------------

/-- No object below `d` is dotted. -/
def NoDots (v : Volume) (d : List Name) : Prop :=
  ∀ e ∈ v.entries, d <+: e.path → e.path ≠ d → ¬ Dotted e.name

instance (n : Name) : Decidable (Dotted n) := inferInstanceAs (Decidable (_ = _))

instance (v : Volume) (d : List Name) : Decidable (NoDots v d) :=
  inferInstanceAs (Decidable (∀ e ∈ v.entries, d <+: e.path → e.path ≠ d → ¬ Dotted e.name))

theorem NoDots.of_sublist {v v' : Volume} {d : List Name} (h : NoDots v d)
    (hSub : v'.entries.Sublist v.entries) : NoDots v' d :=
  fun e he => h e (hSub.subset he)

theorem NoDots.child {v : Volume} {e : Entry} (h : NoDots v e.parent) : NoDots v e.path := by
  intro x hx hBelow hne
  have hParent : e.parent <+: e.path := List.prefix_append ..
  refine h x hx (hParent.trans hBelow) fun hPath => ?_
  have hLen := hBelow.length_le
  rw [hPath, Entry.path, List.length_append, List.length_singleton] at hLen
  omega

/-- An object that must not be removed stays what it is. -/
theorem Removes.kind?_eq {Q : Entry → Prop} {v v' : Volume} (h : Removes Q v v') {p : List Name}
    {k : Kind} (hKind : v.kind? p = some k) (hp : p ≠ []) (hKeep : ∀ e, e.path = p → ¬ Q e) :
    v'.kind? p = some k := by
  obtain ⟨e, he, rfl, rfl⟩ := Volume.exists_of_kind? hKind hp
  have hStays : e ∈ v'.entries := by
    by_contra hGone
    exact hKeep e rfl (h.only e he hGone)
  exact Volume.kind?_path hStays

theorem childless_of_file {v : Volume} {e : Entry} (he : e ∈ v.entries) {size : Nat}
    (hKind : e.kind = .file size) : v.Childless e.path := by
  intro x hx hParent
  have hDir := Volume.kind?_parent hx
  rw [hParent, Volume.kind?_path he, hKind] at hDir
  cases hDir

/-- What a run of `empty_and_delete_dir` on a directory without dotted objects returns. -/
def Complete (path : CStr) (s : Fs) (r : Deleted) : Prop :=
  ∀ d, Denotes path d → d ≠ [] → s.vol.kind? d = some .dir → NoDots s.vol d → r.res = .ok

/-- What a run of its loop leaves of the directory: the entries read before. -/
def LoopComplete (path : CStr) (dir : Dir) (s : Fs) (r : Deleted) : Prop :=
  Denotes path dir.path → dir.path ≠ [] → s.vol.kind? dir.path = some .dir →
    NoDots s.vol dir.path →
    r.res = .ok ∧ ∀ e ∈ r.fs.vol.entries, e.parent = dir.path → e.path ∈ dir.read

theorem Child.complete {path : CStr} {s : Fs} {e : Entry} {r : Deleted} (he : e ∈ s.vol.entries)
    (h : Child .none Complete path e.kind s r) (hPath : Denotes path e.path)
    (hDots : NoDots s.vol e.parent) :
    r.res = .ok ∧ (∀ x ∈ r.fs.vol.entries, x.path ≠ e.path) := by
  have hne : e.path ≠ [] := by simp [Entry.path]
  have hThere := Volume.kind?_path he
  cases hKind : e.kind with
  | dir =>
    rw [hKind] at h hThere
    obtain ⟨hRan, hComplete⟩ := h
    have hOk := hComplete _ hPath hne hThere hDots.child
    exact ⟨hOk, fun x hx hEq => (delete_safe hRan).gone hOk _ hPath x hx (hEq ▸ List.prefix_refl _)⟩
  | file size =>
    rw [hKind] at h
    subst h
    have hOk : (unlinked .none path s []).res = .ok :=
      fUnlink_none hPath hne (by rw [hThere]; rfl) (childless_of_file he hKind)
    exact ⟨hOk, fun x hx hEq => unlinked_gone hPath hOk x hx (hEq ▸ List.prefix_refl _)⟩

theorem complete_rule : DeleteRule .none Complete LoopComplete where
  openFailed hOpen d hPath _ hDir _ := by
    rw [fOpendir_none hPath hDir] at hOpen
    cases hOpen
  opened {path s dir s' r} hOpen hRan hLoop d hPath hne hDir hDots := by
    obtain ⟨rfl, hVol, -⟩ := fOpendir_ok hPath hOpen
    rw [← hVol] at hDir hDots
    obtain ⟨hOk, hEmpty⟩ := hLoop hPath hne hDir hDots
    have hThere : r.fs.vol.kind? d = some .dir :=
      (deleteLoop_safe hRan hPath).kind?_eq hDir hne fun e hEq hInner => hInner.2.1 hEq
    rw [finishDelete, if_pos hOk]
    refine fUnlink_none (s := fClosedir r.fs) hPath hne (by rw [fClosedir, hThere]; rfl) ?_
    intro e he hParent
    cases hEmpty e he hParent
  readFailed {path dir s res s'} hRead := by
    exact absurd (congrArg Prod.fst hRead) (fReaddir_none s dir)
  ended hRead _ _ _ _ := by
    obtain ⟨hVol, hAll⟩ := fReaddir_end hRead
    rw [hVol]
    exact ⟨rfl, hAll⟩
  skipped hRead hDot _ _ _ _ hDots := by
    -- there are no dotted entries
    obtain ⟨-, e, he, rfl, hParent, -, -⟩ := fReaddir_entry hRead
    have hBelow : e.parent <+: e.path := List.prefix_append ..
    rw [hParent] at hBelow
    exact absurd hDot (hDots e he hBelow (by rw [← hParent]; simp [Entry.path]))
  childFailed hRead hDot hChild hFailed hPath _ _ hDots := by
    obtain ⟨hVol, e, he, rfl, hParent, -, -⟩ := fReaddir_entry hRead
    rw [← hVol] at he hDots
    rw [← hParent] at hPath hDots
    exact absurd (hChild.complete he (denotes_sub hPath e.name) hDots).1 hFailed
  childRemoved {path dir fno dir' s s' c r'} hRead hDot hChild _ hRan hLoop hPath hne hDir hDots := by
    obtain ⟨hVol, e, he, rfl, hParent, -, rfl⟩ := fReaddir_entry hRead
    rw [← hVol] at he hDots hDir
    have hSub := denotes_sub hPath e.name
    rw [← hParent] at hSub
    obtain ⟨-, hGone⟩ := hChild.complete he hSub (hParent ▸ hDots)
    have hRemoves : Removes (Inner dir.path) s'.vol c.fs.vol := hChild.safe.removes hPath hDot
    -- the directory is still there, without the entry just removed
    obtain ⟨hOk, hRest⟩ := hLoop hPath hne
      (hRemoves.kind?_eq hDir hne fun x hEq hInner => hInner.2.1 hEq) (hDots.of_sublist hRemoves.kept)
    refine ⟨hOk, fun x hx hxParent => ?_⟩
    have hOld := (deleteLoop_safe hRan hPath).kept.subset hx
    exact (List.mem_cons.mp (hRest x hx hxParent)).resolve_left (hGone x hOld)

theorem delete_complete {path : CStr} {s : Fs} {r : Deleted} (h : Ran .none path s r) :
    Complete path s r :=
  complete_rule.ran h

/-- Without faults, on a directory: success is the absence of dotted objects below it. -/
theorem delete_ok_iff {path : CStr} {d : List Name} {s : Fs} {r : Deleted} (h : Ran .none path s r)
    (hPath : Denotes path d) (hne : d ≠ []) (hDir : s.vol.kind? d = some .dir) :
    r.res = .ok ↔ NoDots s.vol d := by
  constructor
  · intro hOk e he hBelow hNot hDot
    -- a dotted object is never removed, so something would be left
    have hSafe := delete_safe h
    have hStays : e ∈ r.fs.vol.entries := by
      by_contra hGone
      rcases (hSafe.removes d hPath).only e he hGone with hAt | hInner
      · exact hNot hAt
      · exact hInner.2.2 hDot
    exact hSafe.gone hOk d hPath e hStays hBelow
  · exact delete_complete h d hPath hne hDir

/-- On anything else `f_opendir` fails. -/
theorem delete_not_ok_of_file {F : Faults} {path : CStr} {d : List Name} {s : Fs} {r : Deleted}
    (h : Ran F path s r) (hPath : Denotes path d) (hDir : s.vol.kind? d ≠ some .dir) :
    r.res ≠ .ok := by
  obtain ⟨fuel, hRun⟩ := h
  cases fuel with
  | zero => simp [emptyAndDeleteDir] at hRun
  | succ fuel =>
    rw [emptyAndDeleteDir] at hRun
    split at hRun
    · next res s' hOpen =>
      cases hRun
      exact (fOpendir_error hOpen).1
    · next dir s' hOpen => exact absurd (fOpendir_ok hPath hOpen).2.2 hDir

-- ---------------------------------------------------------------------------
-- From the list to the call
-- ---------------------------------------------------------------------------

/-- The explorer is on the screen with an up-to-date list and no dialog open. -/
structure Idle (s : State) : Prop where
  active    : s.fileExplorerActive = true
  shown     : s.fileExplorerMinimized = false
  fresh     : s.explorerNeedsRefresh = false
  noRename  : s.showRenameDialog = false
  noDelete  : s.showDeleteDialog = false
  noMkdir   : s.showMkdirDialog = false

/-- Right click on item `i`, Delete in the menu, OK in the dialog. -/
def deleteItem (i : Nat) : List Action :=
  [.frame { rightClicked := true, itemHovered := fun j => j == i },
    .frame { leftClicked := true, hoverMenu := true, menuDelete := true },
    .frame { leftClicked := true, deleteDialog := { ok := true } }]

/-- Without clicks the loop over the items does nothing. -/
theorem itemLoop_of_no_click {f : Frame} (hLeft : f.itemClicked = fun _ => false)
    (hRight : f.rightClicked = false) (i : Nat) (items : List FileEntry) (s : State) :
    itemLoop f i items s = s := by
  induction items generalizing i with
  | nil => rfl
  | cons item items ih => simp [itemLoop, clickItem, rightClickItem, hLeft, hRight, ih]

/-- The items before and after the one under the pointer are not touched. -/
theorem itemLoop_of_hover {f : Frame} (hLeft : f.itemClicked = fun _ => false) {i : Nat}
    (hHover : f.itemHovered = fun j => j == i) (j : Nat) (items : List FileEntry) (s : State) :
    itemLoop f j items s = match (if j ≤ i then items[i - j]? else none) with
      | some item => rightClickItem f i item s
      | none => s := by
  induction items generalizing j s with
  | nil => simp [itemLoop]
  | cons item items ih =>
    have hClick : clickItem f j item s = s := by simp [clickItem, hLeft]
    rw [itemLoop, hClick, ih]
    rcases Nat.lt_trichotomy j i with hLt | rfl | hGt
    · have hPass : rightClickItem f j item s = s := by
        simp [rightClickItem, hHover, Nat.ne_of_lt hLt]
      have hIndex : i - j = (i - (j + 1)) + 1 := by omega
      rw [hPass, if_pos (by omega), if_pos (by omega), hIndex, List.getElem?_cons_succ]
    · rw [if_neg (by omega), if_pos (Nat.le_refl j), Nat.sub_self, List.getElem?_cons_zero]
    · have hPass : rightClickItem f j item s = s := by
        simp [rightClickItem, hHover, Nat.ne_of_gt hGt]
      rw [hPass, if_neg (by omega), if_neg (by omega)]

/-- The frame of the right click. -/
theorem rightClick_frame {s : State} (hs : Idle s) {i : Nat} {item : FileEntry}
    (hItem : s.currentDirItems[i]? = some item) :
    renderFileExplorer { rightClicked := true, itemHovered := fun j => j == i } s =
      { s.record (.rightClicked s.currentPath item.name) with
        showContextMenu := true, contextTargetIdx := some i, targetItemName := item.name } := by
  have hLt : i < s.currentDirItems.length := (List.getElem?_eq_some_iff.mp hItem).1
  have hLoop := itemLoop_of_hover (f := { rightClicked := true, itemHovered := fun j => j == i })
    rfl rfl 0 s.currentDirItems s
  rw [if_pos (Nat.zero_le i), Nat.sub_zero, hItem] at hLoop
  have hHovered : (List.range s.currentDirItems.length).all (fun j => !(j == i)) = false := by
    simp [hLt]
  simp [renderFileExplorer, hs.active, hs.shown, rescan, hs.fresh, dismissMenu, mainWindow, toolbar,
    hLoop, rightClickItem, rightClickBackground, hHovered, State.record, contextMenu, itemMenu,
    dialogs, renameDialog, hs.noRename, deleteDialog, hs.noDelete, mkdirDialog, hs.noMkdir]

/-- The frame in which Delete is chosen. -/
theorem choseDelete_frame {s : State} (hs : Idle s) (hMenu : s.showContextMenu = true)
    (hTarget : s.contextTargetIdx.isSome) :
    renderFileExplorer { leftClicked := true, hoverMenu := true, menuDelete := true } s =
      { s.record .choseDelete with showDeleteDialog := true, showContextMenu := false } := by
  have hLoop := itemLoop_of_no_click
    (f := { leftClicked := true, hoverMenu := true, menuDelete := true }) rfl rfl 0
    s.currentDirItems s
  simp [renderFileExplorer, hs.active, hs.shown, rescan, hs.fresh, dismissMenu, mainWindow, toolbar,
    hLoop, rightClickBackground, State.record, contextMenu, hMenu, hTarget, itemMenu,
    dialogs, renameDialog, hs.noRename, deleteDialog, dialogWindow, mkdirDialog, hs.noMkdir]

/-- The frame in which OK is pressed. -/
theorem confirm_frame {s : State} (hs : Idle { s with showDeleteDialog := false })
    (hOpen : s.showDeleteDialog = true) (hMenu : s.showContextMenu = false) :
    renderFileExplorer { leftClicked := true, deleteDialog := { ok := true } } s =
      { s.record (.delete (buildFullPath s.currentPath s.targetItemName)) with
        explorerNeedsRefresh := true, showDeleteDialog := false } := by
  have hLoop := itemLoop_of_no_click
    (f := { leftClicked := true, deleteDialog := { ok := true } }) rfl rfl 0 s.currentDirItems s
  have hActive : s.fileExplorerActive = true := hs.active
  have hShown : s.fileExplorerMinimized = false := hs.shown
  have hFresh : s.explorerNeedsRefresh = false := hs.fresh
  have hNoRename : s.showRenameDialog = false := hs.noRename
  simp [renderFileExplorer, hActive, hShown, rescan, hFresh, dismissMenu, hMenu, mainWindow, toolbar,
    hLoop, rightClickBackground, State.record, contextMenu, dialogs, renameDialog, hNoRename,
    deleteDialog, hOpen, dialogWindow]

/-- What the three frames record. -/
theorem deleteItem_log {s : State} (hs : Idle s) {i : Nat} {item : FileEntry}
    (hItem : s.currentDirItems[i]? = some item) :
    (runActions (deleteItem i) s).log =
      s.log ++ [.rightClicked s.currentPath item.name, .choseDelete,
        .delete (buildFullPath s.currentPath item.name)] := by
  simp only [deleteItem, runActions, List.foldl_cons, List.foldl_nil, act]
  rw [rightClick_frame hs hItem, choseDelete_frame _ rfl rfl, confirm_frame _ rfl rfl]
  · simp [State.record]
  · exact ⟨hs.active, hs.shown, hs.fresh, hs.noRename, rfl, hs.noMkdir⟩
  · exact ⟨hs.active, hs.shown, hs.fresh, hs.noRename, hs.noDelete, hs.noMkdir⟩

-- ---------------------------------------------------------------------------
-- Delete on an item
-- ---------------------------------------------------------------------------

/-- A path that stands for nothing is not opened. -/
theorem delete_of_unresolved {F : Faults} {path : CStr} {s : Fs} (h : resolve path = none) :
    ∃ r, Returns (fun fuel => emptyAndDeleteDir F fuel path s) r ∧ r.res ≠ .ok := by
  obtain ⟨res, s', hOpen⟩ := fOpendir_of_unresolved (F := F) (s := s) h
  refine ⟨{ res := res, fs := s', built := [] }, ?_, (fOpendir_error hOpen).1⟩
  exact (Returns.pure _).succ fun fuel => by simp only [emptyAndDeleteDir, hOpen]

/-- The directory of an item is deleted, and the name in the list is the whole name. -/
theorem delete_whole_name {v : Volume} (calls : Nat) {e : Entry} (he : e ∈ v.entries) {path : CStr}
    (hPath : Denotes path e.parent) :
    ∃ r, Returns (fun fuel => emptyAndDeleteDir .none fuel (buildFullPath path e.name.chars)
        { vol := v, calls := calls }) r ∧
      ((r.res = .ok ∧ ∀ x ∈ r.fs.vol.entries, ¬ e.path <+: x.path) ↔
        e.kind = .dir ∧ NoDots v e.path) := by
  have hSub : Denotes (buildFullPath path e.name.chars) e.path := denotes_sub hPath e.name
  have hne : e.path ≠ [] := by simp [Entry.path]
  obtain ⟨r, n, hn⟩ := emptyAndDeleteDir_returns .none hSub { vol := v, calls := calls }
  have hRan : Ran .none (buildFullPath path e.name.chars) { vol := v, calls := calls } r :=
    ⟨n, hn n (Nat.le_refl n)⟩
  have hThere := Volume.kind?_path he
  refine ⟨r, ⟨n, hn⟩, ?_⟩
  by_cases hDir : e.kind = .dir
  · rw [hDir] at hThere
    have hOk := delete_ok_iff hRan hSub hne hThere
    constructor
    · rintro ⟨hRes, -⟩
      exact ⟨hDir, hOk.mp hRes⟩
    · rintro ⟨-, hDots⟩
      exact ⟨hOk.mpr hDots, (delete_safe hRan).gone (hOk.mpr hDots) e.path hSub⟩
  · refine iff_of_false ?_ fun h => hDir h.1
    rintro ⟨hRes, -⟩
    refine delete_not_ok_of_file hRan hSub ?_ hRes
    rw [hThere]
    exact fun h => hDir (Option.some.inj h)

/-- With a name that was cut off in the list, another path is deleted, if any. -/
theorem delete_cut_name {v : Volume} (calls : Nat) {e : Entry} (he : e ∈ v.entries) {path : CStr}
    (hPath : Denotes path e.parent) {k : Nat} (hk : 0 < k) (hLong : k < e.name.chars.length) :
    ∃ r, Returns (fun fuel => emptyAndDeleteDir .none fuel
        (buildFullPath path (e.name.chars.take k)) { vol := v, calls := calls }) r ∧
      ¬ (r.res = .ok ∧ ∀ x ∈ r.fs.vol.entries, ¬ e.path <+: x.path) := by
  have hne : e.name.chars.take k ≠ [] := by
    rw [ne_eq, List.take_eq_nil_iff, not_or]
    exact ⟨by omega, e.name.nonempty⟩
  obtain ⟨hClean, hResolve⟩ := resolve_buildFullPath hPath hne
    fun c hc => e.name.clean c (List.mem_of_mem_take hc)
  cases hName : createName (e.name.chars.take k) with
  | error err =>
    rw [hName] at hResolve
    obtain ⟨r, hr, hRes⟩ := delete_of_unresolved (F := .none) (s := { vol := v, calls := calls }) hResolve
    exact ⟨r, hr, fun h => hRes h.1⟩
  | ok m =>
    rw [hName] at hResolve
    have hSub : Denotes (buildFullPath path (e.name.chars.take k)) (e.parent ++ [m]) :=
      ⟨hClean, hResolve⟩
    have hOther : m ≠ e.name := createName_take_ne hLong hName
    obtain ⟨r, n, hn⟩ := emptyAndDeleteDir_returns .none hSub { vol := v, calls := calls }
    refine ⟨r, ⟨n, hn⟩, ?_⟩
    rintro ⟨-, hGone⟩
    refine hGone e ?_ (List.prefix_refl _)
    by_contra hRemoved
    have hBelow : e.parent ++ [m] <+: e.path := by
      rcases ((delete_safe ⟨n, hn n (Nat.le_refl n)⟩).removes _ hSub).only e he hRemoved with hAt | hIn
      · exact hAt ▸ List.prefix_refl _
      · exact hIn.1
    have hEq := hBelow.eq_of_length (by simp [Entry.path])
    exact hOther (List.singleton_inj.mp (List.append_inj' hEq rfl).2)

/--
**When Delete deletes.** For every volume without faults, every idle explorer whose path
denotes a directory of it and whose `i`-th item shows the entry `e` of that directory: the
right click on the item, Delete in the menu and OK in the dialog lead to a call of
`empty_and_delete_dir`, the call returns, and it succeeds and leaves nothing at or below `e`
exactly if `e` is a directory, its name was not cut off in the list, and no object below it
has a name that begins with a dot.
-/
theorem delete_deletes_iff {s : State} (hs : Idle s) {v : Volume} (calls : Nat) {e : Entry}
    (he : e ∈ v.entries) (hPath : Denotes s.currentPath e.parent) {i : Nat}
    (hItem : s.currentDirItems[i]? = some (.ofInfo e.info)) :
    ∃ target r,
      (runActions (deleteItem i) s).log = s.log ++
        [.rightClicked s.currentPath (FileEntry.ofInfo e.info).name, .choseDelete, .delete target] ∧
      Returns (fun fuel => emptyAndDeleteDir .none fuel target { vol := v, calls := calls }) r ∧
      ((r.res = .ok ∧ ∀ x ∈ r.fs.vol.entries, ¬ e.path <+: x.path) ↔
        e.kind = .dir ∧ e.name.chars.length ≤ 63 ∧ NoDots v e.path) := by
  have hLog := deleteItem_log hs hItem
  have hShown : (FileEntry.ofInfo e.info).name = e.name.chars.take 63 := rfl
  by_cases hShort : e.name.chars.length ≤ 63
  · obtain ⟨r, hr, hIff⟩ := delete_whole_name calls he hPath
    rw [hShown, List.take_of_length_le hShort] at hLog ⊢
    refine ⟨_, r, hLog, hr, hIff.trans ?_⟩
    simp [hShort]
  · obtain ⟨r, hr, hNot⟩ := delete_cut_name calls he hPath (k := 63) (by omega) (by omega)
    exact ⟨_, r, hLog, hr, iff_of_false hNot fun h => hShort h.2.1⟩

/-- The explorer shows the root of `demoVolume`. -/
def demoState : State :=
  { State.boot with
    fileExplorerActive := true, explorerNeedsRefresh := false
    currentDirItems := [.ofInfo { fname := ['A'], kind := .dir },
      .ofInfo { fname := ['B'], kind := .file 1 }] }

theorem demoState_idle : Idle demoState := ⟨rfl, rfl, rfl, rfl, rfl, rfl⟩

theorem demoState_root : Denotes demoState.currentPath [] :=
  ⟨by simp [demoState, State.boot, isTerminator], by decide⟩

theorem delete_deletes_demo :
    ∃ target r, Returns (fun fuel => emptyAndDeleteDir .none fuel target
        { vol := demoVolume, calls := 0 }) r ∧
      r.res = .ok ∧ ∀ x ∈ r.fs.vol.entries, ¬ [nameA] <+: x.path := by
  obtain ⟨target, r, -, hReturns, hIff⟩ := delete_deletes_iff demoState_idle 0
    (e := { parent := [], name := nameA, kind := .dir }) (v := demoVolume) (by decide)
    demoState_root (i := 0) rfl
  exact ⟨target, r, hReturns, hIff.mpr ⟨rfl, by decide, by decide⟩⟩

/-- Delete on the file `B` fails with `FR_NO_PATH` and leaves the volume as it was. -/
theorem delete_refuses_file :
    (runActions (deleteItem 1) demoState).log =
        [.rightClicked ['0', ':'] ['B'], .choseDelete, .delete ['0', ':', 'B']] ∧
      Returns (fun fuel => emptyAndDeleteDir .none fuel ['0', ':', 'B']
        { vol := demoVolume, calls := 0 })
        { res := .noPath, fs := { vol := demoVolume, calls := 1 }, built := [] } := by
  refine ⟨by decide, (Returns.pure _).succ fun fuel => ?_⟩
  have hOpen : fOpendir .none { vol := demoVolume, calls := 0 } ['0', ':', 'B'] =
      (.error .noPath, { vol := demoVolume, calls := 1 }) := by rfl
  simp only [emptyAndDeleteDir, hOpen]

end Nao.Explorer
