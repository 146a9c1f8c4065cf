import Nao.FatFs.Volume

/-!
# File explorer — definitions

`explorer.c`: the path functions, the recursive delete, and one frame of
`render_file_explorer`.

A frame is a function of the explorer's variables and of what Nuklear reports for its
widgets (`Frame`): which windows are drawn, which buttons were pressed, where the pointer
is, what was typed. Nothing is assumed about these reports, so a sequence of frames may
press the buttons of all open windows in any order. What FatFs answers to the directory
scan is part of the frame as well.

Strings are lists of characters without their terminator, and they are not cut at the size
of the C arrays: that they fit is a result, not part of the model. The `log` records what
happened, in order.
-/

namespace Nao.Explorer

open FatFs

-- ---------------------------------------------------------------------------
-- Paths
-- ---------------------------------------------------------------------------

/-- `path[i]`; behind the last character stands the terminator. -/
def charAt (path : CStr) (i : Nat) : Char := path.getD i '\x00'

/-- `build_full_path(out_buf, base, name)`. -/
def buildFullPath (base name : CStr) : CStr :=
  if charAt base (base.length - 1) ≠ ':' then base ++ '/' :: name else base ++ name

/-- `while (i > 2 && path[i] != '/') i--;` -/
def scanBack (path : CStr) : Nat → Nat
  | 0 => 0
  | i + 1 => if i + 1 > 2 ∧ charAt path (i + 1) ≠ '/' then scanBack path i else i + 1

/-- `explorer_go_up(path)`. -/
def explorerGoUp (path : CStr) : CStr :=
  if path.length ≤ 2 then path
  else
    let path := if charAt path (path.length - 1) = '/' then path.take (path.length - 1) else path
    let i := scanBack path (path.length - 1)
    if charAt path i = '/' then
      if i = 2 then path.take 3 else path.take i
    else path

/-- `current_path` after a click on the directory `name`. -/
def enterDirectory (path name : CStr) : CStr :=
  let len := path.length
  if len = 2 ∧ charAt path 1 = ':' then path ++ '/' :: name
  else if len > 0 ∧ charAt path (len - 1) ≠ '/' ∧ charAt path (len - 1) ≠ ':' then
    path ++ '/' :: name
  else path ++ name

-- ---------------------------------------------------------------------------
-- The recursive delete
-- ---------------------------------------------------------------------------

/-- What a run of `empty_and_delete_dir` did: its result, the file system afterwards, and
every `sub_path` it built. -/
structure Deleted where
  res   : FResult
  fs    : Fs
  built : List CStr

/-- `res = f_unlink(path)`. -/
def unlinked (F : Faults) (path : CStr) (s : Fs) (built : List CStr) : Deleted :=
  { res := (fUnlink F s path).1, fs := (fUnlink F s path).2, built := built }

/-- What follows the loop: `f_closedir`, and `f_unlink` on the directory itself. -/
def finishDelete (F : Faults) (path : CStr) (r : Deleted) : Deleted :=
  if r.res = .ok then unlinked F path (fClosedir r.fs) r.built
  else { r with fs := fClosedir r.fs }

/-- `if (fno.fattrib & AM_DIR) res = empty_and_delete_dir(sub_path); else res = f_unlink(sub_path);`,
given the outcome of the recursive call. -/
def removeEntry (F : Faults) (subPath : CStr) (k : Kind) (s : Fs) (recurse : Option Deleted) :
    Option Deleted :=
  match k with
  | .dir => recurse
  | .file _ => some (unlinked F subPath s [])

/-- `if (res != FR_OK) break;`, else the loop goes on with `rest`. -/
def goOn (subPath : CStr) (rest : Fs → Option Deleted) (r : Deleted) : Option Deleted :=
  if r.res ≠ .ok then some { r with built := subPath :: r.built }
  else (rest r.fs).map fun r' => { r' with built := subPath :: (r.built ++ r'.built) }

mutual

/-- `empty_and_delete_dir(path)`. -/
def emptyAndDeleteDir (F : Faults) : Nat → CStr → Fs → Option Deleted
  | 0, _, _ => none
  | fuel + 1, path, s =>
    match fOpendir F s path with
    | (.error res, s) => some { res := res, fs := s, built := [] }
    | (.ok dir, s) => (deleteLoop F fuel path dir s).map (finishDelete F path)

/-- The `while (1)` of `empty_and_delete_dir`. -/
def deleteLoop (F : Faults) : Nat → CStr → Dir → Fs → Option Deleted
  | 0, _, _, _ => none
  | fuel + 1, path, dir, s =>
    match fReaddir F s dir with
    | (.error res, s) => some { res := res, fs := s, built := [] }
    | (.ok (none, _), s) => some { res := .ok, fs := s, built := [] }
    | (.ok (some fno, dir), s) =>
      if charAt fno.fname 0 = '.' then deleteLoop F fuel path dir s
      else
        let subPath := buildFullPath path fno.fname
        (removeEntry F subPath fno.kind s (emptyAndDeleteDir F fuel subPath s)).bind
          (goOn subPath (deleteLoop F fuel path dir))

end

-- ---------------------------------------------------------------------------
-- State
-- ---------------------------------------------------------------------------

/-- `MAX_FILES_PER_DIR`. -/
def maxFilesPerDir : Nat := 32

/-- `MAX_FILENAME_LEN`. -/
def maxFilenameLen : Nat := 64

structure FileEntry where
  name        : CStr
  size        : Nat
  isDirectory : Bool
  deriving DecidableEq, Repr

/-- What happened, for the record. -/
inductive Event where
  /-- A directory was entered, `..` was pressed. -/
  | entered (name : CStr)
  | wentUp
  /-- An item was right-clicked while `current_path` was `path`. -/
  | rightClicked (path name : CStr)
  | choseRename
  | choseDelete
  | choseNewFolder
  /-- The calls made by the OK buttons. -/
  | rename (old new : CStr)
  | delete (path : CStr)
  | mkdir (path : CStr)
  deriving DecidableEq, Repr

structure State where
  fileExplorerActive    : Bool
  fileExplorerMinimized : Bool
  /-- `current_dir_items[0 .. current_item_count)`. -/
  currentDirItems       : List FileEntry
  currentPath           : CStr
  explorerNeedsRefresh  : Bool
  showContextMenu       : Bool
  /-- `none` is -1. -/
  contextTargetIdx      : Option Nat
  targetItemName        : CStr
  showRenameDialog      : Bool
  showDeleteDialog      : Bool
  showMkdirDialog       : Bool
  opInputBuffer         : CStr
  log                   : List Event
  deriving DecidableEq, Repr

/-- The static initial values. -/
def State.boot : State :=
  { fileExplorerActive := false, fileExplorerMinimized := false, currentDirItems := []
    currentPath := ['0', ':'], explorerNeedsRefresh := true, showContextMenu := false
    contextTargetIdx := none, targetItemName := [], showRenameDialog := false
    showDeleteDialog := false, showMkdirDialog := false, opInputBuffer := [], log := [] }

def State.record (s : State) (e : Event) : State := { s with log := s.log ++ [e] }

-- ---------------------------------------------------------------------------
-- populate_directory
-- ---------------------------------------------------------------------------

/-- What FatFs answers to a scan: the result of `f_opendir`, then those of `f_readdir`. -/
abbrev Listing := Except FResult (List (Except FResult FilInfo))

def FileEntry.ofInfo (fno : FilInfo) : FileEntry :=
  { name := fno.fname.take (maxFilenameLen - 1)
    size := match fno.kind with
      | .file size => size
      | .dir => 0
    isDirectory := match fno.kind with
      | .file _ => false
      | .dir => true }

/-- The `while` of `populate_directory`, with the items found so far. -/
def populateLoop : List (Except FResult FilInfo) → List FileEntry → List FileEntry
  | [], items => items
  | .error _ :: _, items => items
  | .ok fno :: rest, items =>
    if items.length < maxFilesPerDir then
      if charAt fno.fname 0 = '.' ∧ charAt fno.fname 1 = '\x00' then populateLoop rest items
      else populateLoop rest (items ++ [.ofInfo fno])
    else items

/-- `populate_directory(path)`. -/
def populateDirectory (listing : Listing) : List FileEntry :=
  match listing with
  | .error _ => []
  | .ok stream => populateLoop stream []

-- ---------------------------------------------------------------------------
-- One frame
-- ---------------------------------------------------------------------------

/-- `nk_edit_string_zero_terminated(.., buffer, max, ..)`: the text in the field, typed anew
or left alone, cut to `max - 1` characters. -/
def nkEditString (max : Nat) (typed : Option CStr) (buffer : CStr) : CStr :=
  (typed.getD buffer).take (max - 1)

/-- What Nuklear reports for a dialog window. -/
structure Dialog where
  shown  : Bool := true
  typed  : Option CStr := none
  ok     : Bool := false
  cancel : Bool := false
  hidden : Bool := false

/-- What Nuklear reports during a frame, and what FatFs answers if the frame scans. -/
structure Frame where
  listing       : Listing := .ok []
  leftClicked   : Bool := false
  rightClicked  : Bool := false
  hoverMenu     : Bool := false
  mainShown     : Bool := true
  up            : Bool := false
  refresh       : Bool := false
  groupShown    : Bool := true
  itemClicked   : Nat → Bool := fun _ => false
  itemHovered   : Nat → Bool := fun _ => false
  groupHovered  : Bool := false
  mainHidden    : Bool := false
  menuShown     : Bool := true
  menuRename    : Bool := false
  menuDelete    : Bool := false
  menuNewFolder : Bool := false
  renameDialog  : Dialog := {}
  deleteDialog  : Dialog := {}
  mkdirDialog   : Dialog := {}

/-- The scan at the start of a frame. -/
def rescan (f : Frame) (s : State) : State :=
  if s.explorerNeedsRefresh then
    { s with currentDirItems := populateDirectory f.listing, explorerNeedsRefresh := false }
  else s

/-- A left click outside the context menu dismisses it. -/
def dismissMenu (f : Frame) (s : State) : State :=
  if s.showContextMenu && f.leftClicked && !f.hoverMenu then { s with showContextMenu := false }
  else s

/-- The `..` and Refresh buttons. -/
def toolbar (f : Frame) (s : State) : State :=
  let s := if f.up then
      { s.record .wentUp with
        currentPath := explorerGoUp s.currentPath, explorerNeedsRefresh := true }
    else s
  if f.refresh then { s with explorerNeedsRefresh := true } else s

/-- A click on item `i`. -/
def clickItem (f : Frame) (i : Nat) (item : FileEntry) (s : State) : State :=
  if f.itemClicked i && item.isDirectory then
    { s.record (.entered item.name) with
      currentPath := enterDirectory s.currentPath item.name, explorerNeedsRefresh := true }
  else s

/-- A right click on item `i`. -/
def rightClickItem (f : Frame) (i : Nat) (item : FileEntry) (s : State) : State :=
  if f.itemHovered i && f.rightClicked then
    { s.record (.rightClicked s.currentPath item.name) with
      showContextMenu := true, contextTargetIdx := some i, targetItemName := item.name }
  else s

/-- The loop over the items, from item `i` on. -/
def itemLoop (f : Frame) : Nat → List FileEntry → State → State
  | _, [], s => s
  | i, item :: items, s => itemLoop f (i + 1) items (rightClickItem f i item (clickItem f i item s))

/-- A right click on the background, `item_hovered_this_frame` being false. -/
def rightClickBackground (f : Frame) (s : State) : State :=
  if (List.range s.currentDirItems.length).all (fun i => !f.itemHovered i) && f.rightClicked &&
      f.groupHovered then
    { s with showContextMenu := true, contextTargetIdx := none }
  else s

/-- The main window. -/
def mainWindow (f : Frame) (s : State) : State :=
  let s := if f.mainShown then
      let s := toolbar f s
      if f.groupShown then rightClickBackground f (itemLoop f 0 s.currentDirItems s) else s
    else s
  if f.mainHidden then { s with fileExplorerActive := false, showContextMenu := false } else s

/-- The Rename and Delete buttons of the context menu. -/
def itemMenu (f : Frame) (s : State) : State :=
  let s := if f.menuRename then
      { s.record .choseRename with
        showRenameDialog := true, opInputBuffer := s.targetItemName, showContextMenu := false }
    else s
  if f.menuDelete then
    { s.record .choseDelete with showDeleteDialog := true, showContextMenu := false }
  else s

/-- The New Folder button of the context menu. -/
def backgroundMenu (f : Frame) (s : State) : State :=
  if f.menuNewFolder then
    { s.record .choseNewFolder with
      showMkdirDialog := true, opInputBuffer := [], showContextMenu := false }
  else s

/-- The context menu. -/
def contextMenu (f : Frame) (s : State) : State :=
  if s.showContextMenu && f.menuShown then
    if s.contextTargetIdx.isSome then itemMenu f s else backgroundMenu f s
  else s

/-- A dialog window that is open: the edit field if it has one, OK, Cancel and the close
button. The flag says that the frame ends here. -/
def dialogWindow (d : Dialog) (edits : Bool) (call : State → Event)
    (close : State → State) (s : State) : State × Bool :=
  let s := if d.shown && edits then
      { s with opInputBuffer := nkEditString 63 d.typed s.opInputBuffer }
    else s
  if d.shown && d.ok then (close { s.record (call s) with explorerNeedsRefresh := true }, true)
  else if d.shown && d.cancel then (close s, true)
  else if d.hidden then (close s, true)
  else (s, false)

def renameDialog (f : Frame) (s : State) : State × Bool :=
  if s.showRenameDialog then
    dialogWindow f.renameDialog true
      (fun s => .rename (buildFullPath s.currentPath s.targetItemName)
        (buildFullPath s.currentPath s.opInputBuffer))
      (fun s => { s with showRenameDialog := false }) s
  else (s, false)

def deleteDialog (f : Frame) (s : State) : State × Bool :=
  if s.showDeleteDialog then
    dialogWindow f.deleteDialog false
      (fun s => .delete (buildFullPath s.currentPath s.targetItemName))
      (fun s => { s with showDeleteDialog := false }) s
  else (s, false)

def mkdirDialog (f : Frame) (s : State) : State × Bool :=
  if s.showMkdirDialog then
    dialogWindow f.mkdirDialog true
      (fun s => .mkdir (buildFullPath s.currentPath s.opInputBuffer))
      (fun s => { s with showMkdirDialog := false }) s
  else (s, false)

/-- The dialogs, in the order of the source; OK, Cancel and the close button return. -/
def dialogs (f : Frame) (s : State) : State :=
  let (s, done) := renameDialog f s
  if done then s
  else
    let (s, done) := deleteDialog f s
    if done then s else (mkdirDialog f s).1

/-- `render_file_explorer`. -/
def renderFileExplorer (f : Frame) (s : State) : State :=
  if !s.fileExplorerActive || s.fileExplorerMinimized then s
  else dialogs f (contextMenu f (mainWindow f (dismissMenu f (rescan f s))))

/-- What the kernel does with the explorer: it draws frames, and the start menu and the
task bar set the two flags and ask for a refresh. -/
inductive Action where
  | frame (f : Frame)
  | window (active minimized : Bool)
  | triggerRefresh

def act : Action → State → State
  | .frame f, s => renderFileExplorer f s
  | .window active minimized, s =>
    { s with fileExplorerActive := active, fileExplorerMinimized := minimized }
  | .triggerRefresh, s => { s with explorerNeedsRefresh := true }

/-- The state after a sequence of actions. -/
def runActions (as : List Action) (s : State) : State := as.foldl (fun s a => act a s) s

end Nao.Explorer
