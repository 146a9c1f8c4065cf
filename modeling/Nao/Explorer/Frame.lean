import Nao.Explorer.Definitions
import Mathlib.Logic.Relation

/-!
# File explorer — what a frame can do

A frame consists of many optional parts. `Micro` lists, once, everything a part can do to
the variables that carry data (the listing, the path, the target, the input field) and to
the log; the flags decide which parts run and need not be followed. An invariant of the
explorer is then a property that each of these small steps keeps
(`runActions_invariant`).
-/

namespace Nao.Explorer

open FatFs Relation

/-- The variables that carry data. -/
structure Core where
  items  : List FileEntry
  path   : CStr
  target : CStr
  input  : CStr
  log    : List Event

def State.core (s : State) : Core :=
  { items := s.currentDirItems, path := s.currentPath, target := s.targetItemName
    input := s.opInputBuffer, log := s.log }

/-- One thing that happens during a frame. -/
inductive Micro : Core → Core → Prop where
  | scan (c : Core) (listing : Listing) : Micro c { c with items := populateDirectory listing }
  | up (c : Core) :
      Micro c { c with path := explorerGoUp c.path, log := c.log ++ [.wentUp] }
  | enter (c : Core) (item : FileEntry) (hItem : item ∈ c.items) :
      Micro c { c with
        path := enterDirectory c.path item.name, log := c.log ++ [.entered item.name] }
  | rightClick (c : Core) (item : FileEntry) (hItem : item ∈ c.items) :
      Micro c { c with target := item.name, log := c.log ++ [.rightClicked c.path item.name] }
  | choseRename (c : Core) :
      Micro c { c with input := c.target, log := c.log ++ [.choseRename] }
  | choseDelete (c : Core) : Micro c { c with log := c.log ++ [.choseDelete] }
  | choseNewFolder (c : Core) : Micro c { c with input := [], log := c.log ++ [.choseNewFolder] }
  | edit (c : Core) (typed : Option CStr) :
      Micro c { c with input := nkEditString 63 typed c.input }
  | rename (c : Core) :
      Micro c { c with
        log := c.log ++ [.rename (buildFullPath c.path c.target) (buildFullPath c.path c.input)] }
  | delete (c : Core) :
      Micro c { c with log := c.log ++ [.delete (buildFullPath c.path c.target)] }
  | mkdir (c : Core) :
      Micro c { c with log := c.log ++ [.mkdir (buildFullPath c.path c.input)] }

/-- A sequence of small steps. -/
abbrev Steps : Core → Core → Prop := ReflTransGen Micro

-- ---------------------------------------------------------------------------
-- The parts of a frame
-- ---------------------------------------------------------------------------

theorem rescan_steps (f : Frame) (s : State) : Steps s.core (rescan f s).core := by
  rw [rescan]
  split
  · exact .single (.scan s.core f.listing)
  · exact .refl

theorem dismissMenu_core (f : Frame) (s : State) : (dismissMenu f s).core = s.core := by
  rw [dismissMenu]
  split <;> rfl

theorem toolbar_steps (f : Frame) (s : State) : Steps s.core (toolbar f s).core := by
  have hUp : Steps s.core (if f.up then { s.record .wentUp with
      currentPath := explorerGoUp s.currentPath, explorerNeedsRefresh := true } else s).core := by
    split
    · exact .single (.up s.core)
    · exact .refl
  rw [toolbar]
  split
  · exact hUp
  · exact hUp

theorem clickItem_steps (f : Frame) (i : Nat) {item : FileEntry} {s : State}
    (hItem : item ∈ s.currentDirItems) : Steps s.core (clickItem f i item s).core := by
  rw [clickItem]
  split
  · exact .single (.enter s.core item hItem)
  · exact .refl

theorem clickItem_items (f : Frame) (i : Nat) (item : FileEntry) (s : State) :
    (clickItem f i item s).currentDirItems = s.currentDirItems := by
  rw [clickItem]
  split <;> rfl

theorem rightClickItem_steps (f : Frame) (i : Nat) {item : FileEntry} {s : State}
    (hItem : item ∈ s.currentDirItems) : Steps s.core (rightClickItem f i item s).core := by
  rw [rightClickItem]
  split
  · exact .single (.rightClick s.core item hItem)
  · exact .refl

theorem rightClickItem_items (f : Frame) (i : Nat) (item : FileEntry) (s : State) :
    (rightClickItem f i item s).currentDirItems = s.currentDirItems := by
  rw [rightClickItem]
  split <;> rfl

theorem itemLoop_steps (f : Frame) (i : Nat) {items : List FileEntry} {s : State}
    (hItems : ∀ item ∈ items, item ∈ s.currentDirItems) :
    Steps s.core (itemLoop f i items s).core := by
  induction items generalizing i s with
  | nil => exact .refl
  | cons item items ih =>
    have hItem := hItems item (List.mem_cons_self ..)
    have hClick := clickItem_steps f i hItem
    have hRight := rightClickItem_steps f i (s := clickItem f i item s)
      (by rwa [clickItem_items])
    refine hClick.trans (hRight.trans (ih (i + 1) ?_))
    intro item' hItem'
    rw [rightClickItem_items, clickItem_items]
    exact hItems item' (List.mem_cons_of_mem _ hItem')

theorem rightClickBackground_core (f : Frame) (s : State) :
    (rightClickBackground f s).core = s.core := by
  rw [rightClickBackground]
  split <;> rfl

theorem mainWindow_steps (f : Frame) (s : State) : Steps s.core (mainWindow f s).core := by
  have hShown : Steps s.core (if f.mainShown then
      if f.groupShown then
        rightClickBackground f (itemLoop f 0 (toolbar f s).currentDirItems (toolbar f s))
      else toolbar f s
    else s).core := by
    split
    · split
      · rw [rightClickBackground_core]
        exact (toolbar_steps f s).trans (itemLoop_steps f 0 fun _ h => h)
      · exact toolbar_steps f s
    · exact .refl
  rw [mainWindow]
  split
  · exact hShown
  · exact hShown

theorem itemMenu_steps (f : Frame) (s : State) : Steps s.core (itemMenu f s).core := by
  have hRename : Steps s.core (if f.menuRename then { s.record .choseRename with
      showRenameDialog := true, opInputBuffer := s.targetItemName, showContextMenu := false }
      else s).core := by
    split
    · exact .single (.choseRename s.core)
    · exact .refl
  rw [itemMenu]
  split
  · exact hRename.tail (.choseDelete _)
  · exact hRename

theorem backgroundMenu_steps (f : Frame) (s : State) :
    Steps s.core (backgroundMenu f s).core := by
  rw [backgroundMenu]
  split
  · exact .single (.choseNewFolder s.core)
  · exact .refl

theorem contextMenu_steps (f : Frame) (s : State) : Steps s.core (contextMenu f s).core := by
  rw [contextMenu]
  split
  · split
    · exact itemMenu_steps f s
    · exact backgroundMenu_steps f s
  · exact .refl

/-- A dialog does what its call does, provided that closing it only clears its flag. -/
theorem dialogWindow_steps {call : State → Event} {close : State → State} (d : Dialog)
    (edits : Bool) (s : State)
    (hCall : ∀ t : State, Micro t.core { t.core with log := t.log ++ [call t] })
    (hClose : ∀ t : State, (close t).core = t.core) :
    Steps s.core (dialogWindow d edits call close s).1.core := by
  have hEdit : Steps s.core (if d.shown && edits then
      { s with opInputBuffer := nkEditString 63 d.typed s.opInputBuffer } else s).core := by
    split
    · exact .single (.edit s.core d.typed)
    · exact .refl
  rw [dialogWindow]
  split
  · rw [hClose]
    exact hEdit.tail (hCall _)
  · split
    · rwa [hClose]
    · split
      · rwa [hClose]
      · exact hEdit

theorem renameDialog_steps (f : Frame) (s : State) : Steps s.core (renameDialog f s).1.core := by
  rw [renameDialog]
  split
  · exact dialogWindow_steps _ _ _ (fun t => .rename t.core) fun _ => rfl
  · exact .refl

theorem deleteDialog_steps (f : Frame) (s : State) : Steps s.core (deleteDialog f s).1.core := by
  rw [deleteDialog]
  split
  · exact dialogWindow_steps _ _ _ (fun t => .delete t.core) fun _ => rfl
  · exact .refl

theorem mkdirDialog_steps (f : Frame) (s : State) : Steps s.core (mkdirDialog f s).1.core := by
  rw [mkdirDialog]
  split
  · exact dialogWindow_steps _ _ _ (fun t => .mkdir t.core) fun _ => rfl
  · exact .refl

theorem dialogs_steps (f : Frame) (s : State) : Steps s.core (dialogs f s).core := by
  have hRename := renameDialog_steps f s
  have hDelete := hRename.trans (deleteDialog_steps f (renameDialog f s).1)
  simp only [dialogs]
  split
  · exact hRename
  · split
    · exact hDelete
    · exact hDelete.trans (mkdirDialog_steps f _)

theorem renderFileExplorer_steps (f : Frame) (s : State) :
    Steps s.core (renderFileExplorer f s).core := by
  rw [renderFileExplorer]
  split
  · exact .refl
  · refine (rescan_steps f s).trans ?_
    rw [← dismissMenu_core f (rescan f s)]
    exact (mainWindow_steps f _).trans ((contextMenu_steps f _).trans (dialogs_steps f _))

-- ---------------------------------------------------------------------------
-- Whole runs
-- ---------------------------------------------------------------------------

theorem act_steps (a : Action) (s : State) : Steps s.core (act a s).core := by
  cases a with
  | frame f => exact renderFileExplorer_steps f s
  | window active minimized => exact .refl
  | triggerRefresh => exact .refl

theorem runActions_steps (as : List Action) (s : State) :
    Steps s.core (runActions as s).core := by
  induction as generalizing s with
  | nil => exact .refl
  | cons a as ih => exact (act_steps a s).trans (ih (act a s))

/-- What every small step keeps, every run of the explorer keeps. -/
theorem runActions_invariant (inv : Core → Prop) (hStep : ∀ c c', inv c → Micro c c' → inv c')
    {s : State} (hs : inv s.core) (as : List Action) : inv (runActions as s).core := by
  have hSteps := runActions_steps as s
  generalize (runActions as s).core = c at hSteps ⊢
  induction hSteps with
  | refl => exact hs
  | tail _ hMicro ih => exact hStep _ _ ih hMicro

end Nao.Explorer
