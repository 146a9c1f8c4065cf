import Nao.Explorer.Frame
import Nao.Explorer.Paths
import Nao.Lib.History

/-!
# File explorer — what the dialogs act on

The dialogs share `current_path` and `target_item_name` with the main window, which stays
usable while they are open. The results are about the whole history of the explorer:

* `runActions_kept` — the two variables are what the history of navigation and right
  clicks makes them, and every call is made with their values at that moment.
* `dialogs_act_on_item` — a dialog acts on the item it was opened for if `current_path` was not
  changed and no other item right-clicked since.
* `delete_hits_other_item` — otherwise it may not.
-/

namespace Nao.Explorer

open SysLib FatFs

-- ---------------------------------------------------------------------------
-- What a user who follows the log expects
-- ---------------------------------------------------------------------------

/-- The item right-clicked last, and the items for which Rename and Delete were chosen
last, each with `current_path` at the time of the right click. -/
structure Watch where
  clicked   : Option (CStr × CStr)
  renameFor : Option (CStr × CStr)
  deleteFor : Option (CStr × CStr)

def Watch.see (w : Watch) : Event → Watch
  | .rightClicked path name => { w with clicked := some (path, name) }
  | .choseRename => { w with renameFor := w.clicked }
  | .choseDelete => { w with deleteFor := w.clicked }
  | _ => w

def watch (log : List Event) : Watch :=
  log.foldl Watch.see { clicked := none, renameFor := none, deleteFor := none }

/-- The call is made for the item its dialog was opened for. -/
def Watch.Intends (w : Watch) : Event → Prop
  | .rename old _ => ∃ path name, w.renameFor = some (path, name) ∧ old = buildFullPath path name
  | .delete target =>
    ∃ path name, w.deleteFor = some (path, name) ∧ target = buildFullPath path name
  | _ => True

/-- Every call of a dialog is made for the item the dialog was opened for. -/
def ActsOnItem (log : List Event) : Prop := Throughout (fun pre e => (watch pre).Intends e) log

-- ---------------------------------------------------------------------------
-- The two variables, from the history
-- ---------------------------------------------------------------------------

def targetStep (target : CStr) : Event → CStr
  | .rightClicked _ name => name
  | _ => target

/-- `target_item_name` after a history. -/
def targetOf (log : List Event) : CStr := log.foldl targetStep []

theorem targetOf_concat (log : List Event) (e : Event) :
    targetOf (log ++ [e]) = targetStep (targetOf log) e := by
  rw [targetOf, List.foldl_concat, targetOf]

/-- The recorded data of an event are the values of the two variables. -/
def Told (pre : List Event) : Event → Prop
  | .rightClicked path _ => path = pathOf pre
  | .rename old _ => old = buildFullPath (pathOf pre) (targetOf pre)
  | .delete target => target = buildFullPath (pathOf pre) (targetOf pre)
  | _ => True

/-- The explorer's variables agree with its history. -/
structure Kept (c : Core) : Prop where
  path   : c.path = pathOf c.log
  target : c.target = targetOf c.log
  told   : Throughout Told c.log

namespace Kept

variable {c c' : Core}

theorem boot : Kept State.boot.core where
  path := rfl
  target := rfl
  told := throughout_nil

/-- A step that records the event `e`. -/
theorem event (h : Kept c) (e : Event) (hPath : c'.path = pathStep c.path e)
    (hTarget : c'.target = targetStep c.target e) (hLog : c'.log = c.log ++ [e])
    (hTold : Told c.log e) : Kept c' where
  path := by rw [hPath, hLog, pathOf_concat, h.path]
  target := by rw [hTarget, hLog, targetOf_concat, h.target]
  told := by rw [hLog]; exact throughout_concat.mpr ⟨h.told, hTold⟩

theorem step (h : Kept c) (hStep : Micro c c') : Kept c' := by
  cases hStep with
  | scan listing => exact ⟨h.path, h.target, h.told⟩
  | edit typed => exact ⟨h.path, h.target, h.told⟩
  | up => exact h.event .wentUp rfl rfl rfl trivial
  | enter item hItem => exact h.event (.entered item.name) rfl rfl rfl trivial
  | rightClick item hItem => exact h.event (.rightClicked c.path item.name) rfl rfl rfl h.path
  | choseRename => exact h.event .choseRename rfl rfl rfl trivial
  | choseDelete => exact h.event .choseDelete rfl rfl rfl trivial
  | choseNewFolder => exact h.event .choseNewFolder rfl rfl rfl trivial
  | rename => exact h.event _ rfl rfl rfl (by rw [Told, h.path, h.target])
  | delete => exact h.event _ rfl rfl rfl (by rw [Told, h.path, h.target])
  | mkdir => exact h.event _ rfl rfl rfl trivial

end Kept

theorem runActions_kept (as : List Action) : Kept (runActions as .boot).core :=
  runActions_invariant Kept (fun _ _ h hStep => h.step hStep) Kept.boot as

-- ---------------------------------------------------------------------------
-- Calls that nothing interfered with
-- ---------------------------------------------------------------------------

/-- The event leaves `current_path` and the item right-clicked there as they are. -/
def Event.Keeps (path name : CStr) : Event → Prop
  | .entered dir => enterDirectory path dir = path
  | .wentUp => explorerGoUp path = path
  | .rightClicked path' name' => path' = path ∧ name' = name
  | _ => True

/-- An item was right-clicked, `choice` was made in its menu, and since the right click the path was
not changed and no other item right-clicked. -/
def Prepared (choice : Event) (pre : List Event) : Prop :=
  ∃ before path name since, pre = before ++ .rightClicked path name :: since ∧
    choice ∈ since ∧ ∀ e ∈ since, e.Keeps path name

/-- The call follows its right click and its choice without interference. -/
def Undisturbed (pre : List Event) : Event → Prop
  | .rename _ _ => Prepared .choseRename pre
  | .delete _ => Prepared .choseDelete pre
  | _ => True

section Quiet

variable {path name : CStr} {since : List Event} (hQuiet : ∀ e ∈ since, e.Keeps path name)
include hQuiet

/-- A fold stays where every event leaves it. -/
theorem quiet_foldl {α : Type*} {step : α → Event → α} {a : α}
    (hStep : ∀ e : Event, e.Keeps path name → step a e = a) : since.foldl step a = a := by
  induction since with
  | nil => rfl
  | cons e es ih =>
    rw [List.foldl_cons, hStep e (hQuiet e (List.mem_cons_self ..))]
    exact ih fun x hx => hQuiet x (List.mem_cons_of_mem _ hx)

theorem quiet_path : since.foldl pathStep path = path := by
  refine quiet_foldl hQuiet fun e he => ?_
  cases e <;> first | rfl | exact he

theorem quiet_target : since.foldl targetStep name = name := by
  refine quiet_foldl hQuiet fun e he => ?_
  cases e <;> first | rfl | exact he.2

/-- The item a choice is made for is the one right-clicked before: `field` is set by `choice`
and by no other event. -/
theorem quiet_chosen {field : Watch → Option (CStr × CStr)} {choice : Event}
    (hSet : ∀ w : Watch, field (w.see choice) = w.clicked)
    (hKeep : ∀ (w : Watch) e, e ≠ choice → field (w.see e) = field w)
    {w : Watch} (hClicked : w.clicked = some (path, name))
    (h : field w = some (path, name) ∨ choice ∈ since) :
    field (since.foldl Watch.see w) = some (path, name) := by
  induction since generalizing w with
  | nil => exact h.resolve_right (by simp)
  | cons e es ih =>
    have he := hQuiet e (List.mem_cons_self ..)
    have hStill : (w.see e).clicked = some (path, name) := by
      cases e with
      | rightClicked path' name' =>
        obtain ⟨rfl, rfl⟩ := he
        rfl
      | _ => exact hClicked
    rw [List.foldl_cons]
    refine ih (fun x hx => hQuiet x (List.mem_cons_of_mem _ hx)) hStill ?_
    by_cases hChoice : e = choice
    · rw [hChoice, hSet, hClicked]
      exact .inl rfl
    · rw [hKeep w e hChoice]
      exact h.imp_right fun hMem => (List.mem_cons.mp hMem).resolve_left (Ne.symm hChoice)

theorem quiet_deleteFor {w : Watch} (hClicked : w.clicked = some (path, name))
    (h : .choseDelete ∈ since) : (since.foldl Watch.see w).deleteFor = some (path, name) := by
  refine quiet_chosen hQuiet (fun _ => rfl) (fun w e he => ?_) hClicked (.inr h)
  cases e <;> first | rfl | exact absurd rfl he

theorem quiet_renameFor {w : Watch} (hClicked : w.clicked = some (path, name))
    (h : .choseRename ∈ since) : (since.foldl Watch.see w).renameFor = some (path, name) := by
  refine quiet_chosen hQuiet (fun _ => rfl) (fun w e he => ?_) hClicked (.inr h)
  cases e <;> first | rfl | exact absurd rfl he

end Quiet

/--
**Dialogs act on the item they were opened for, if left undisturbed.** In every run of the
explorer, whatever windows are open and whichever of their buttons are pressed: each
f_rename and each recursive delete that follows its right click and its choice in the menu
without a change of `current_path` or a right click on another item in between is made for
that item, at the path it had when it was right-clicked.
-/
theorem dialogs_act_on_item (as : List Action) :
    Throughout (fun pre e => Undisturbed pre e → (watch pre).Intends e)
      (runActions as .boot).log := by
  intro pre e post hLog hUndisturbed
  have hTold := (runActions_kept as).told
  -- both variables are still those of the right click
  have hSame : ∀ choice, Prepared choice pre → ∃ path name before since,
      pre = before ++ .rightClicked path name :: since ∧ choice ∈ since ∧
      (∀ x ∈ since, x.Keeps path name) ∧ pathOf pre = path ∧ targetOf pre = name := by
    rintro choice ⟨before, path, name, since, rfl, hChoice, hQuiet⟩
    refine ⟨path, name, before, since, rfl, hChoice, hQuiet, ?_, ?_⟩
    · have hAt : path = pathOf before :=
        hTold before (.rightClicked path name) (since ++ e :: post)
          (by rw [← List.cons_append, ← List.append_assoc]; exact hLog)
      rw [pathOf, List.foldl_append, List.foldl_cons]
      show since.foldl pathStep (pathOf before) = path
      rw [← hAt, quiet_path hQuiet]
    · rw [targetOf, List.foldl_append, List.foldl_cons]
      exact quiet_target hQuiet
  have hCall := hTold pre e post hLog
  cases e with
  | rename old new =>
    obtain ⟨path, name, before, since, hPre, hChoice, hQuiet, hPath, hTarget⟩ :=
      hSame _ hUndisturbed
    refine ⟨path, name, ?_, by rw [← hPath, ← hTarget]; exact hCall⟩
    rw [hPre, watch, List.foldl_append, List.foldl_cons]
    exact quiet_renameFor hQuiet rfl hChoice
  | delete target =>
    obtain ⟨path, name, before, since, hPre, hChoice, hQuiet, hPath, hTarget⟩ :=
      hSame _ hUndisturbed
    refine ⟨path, name, ?_, by rw [← hPath, ← hTarget]; exact hCall⟩
    rw [hPre, watch, List.foldl_append, List.foldl_cons]
    exact quiet_deleteFor hQuiet rfl hChoice
  | _ => trivial

/-- Two files `A` and `B` in the root. -/
def demoListing : Listing :=
  .ok [.ok { fname := ['A'], kind := .file 1 }, .ok { fname := ['B'], kind := .file 1 }]

/-- The explorer is opened, `A` is right-clicked and Delete is chosen. -/
def chooseDelete : List Action :=
  [.window true false,
    .frame { listing := demoListing, rightClicked := true, itemHovered := fun i => i == 0 },
    .frame { leftClicked := true, hoverMenu := true, menuDelete := true }]

def confirm : Action := .frame { leftClicked := true, deleteDialog := { ok := true } }

/-- While the dialog for `A` is open, `A` is right-clicked again, and `..` in the root leads nowhere. -/
def fidget : List Action :=
  [.frame { rightClicked := true, itemHovered := fun i => i == 0 }, .frame { up := true }]

theorem dialogs_act_on_item_demo :
    (runActions (chooseDelete ++ fidget ++ [confirm]) .boot).log =
        [.rightClicked ['0', ':'] ['A'], .choseDelete, .rightClicked ['0', ':'] ['A'], .wentUp,
          .delete ['0', ':', 'A']] ∧
      (watch [.rightClicked ['0', ':'] ['A'], .choseDelete, .rightClicked ['0', ':'] ['A'],
        .wentUp]).Intends (.delete ['0', ':', 'A']) := by
  have hLog : (runActions (chooseDelete ++ fidget ++ [confirm]) .boot).log =
      [.rightClicked ['0', ':'] ['A'], .choseDelete, .rightClicked ['0', ':'] ['A'], .wentUp,
        .delete ['0', ':', 'A']] := by decide
  refine ⟨hLog, dialogs_act_on_item (chooseDelete ++ fidget ++ [confirm]) _ _ [] hLog ?_⟩
  refine ⟨[], ['0', ':'], ['A'], [.choseDelete, .rightClicked ['0', ':'] ['A'], .wentUp], rfl,
    by simp, ?_⟩
  simp only [List.forall_mem_cons, Event.Keeps, and_self, true_and]
  exact ⟨rfl, by simp⟩

/-- While the dialog for `A` is open, `B` is right-clicked; OK then deletes `B`. -/
theorem delete_hits_other_item :
    ¬ ActsOnItem (runActions (chooseDelete ++
      [.frame { rightClicked := true, itemHovered := fun i => i == 1 }, confirm]) .boot).log := by
  intro h
  obtain ⟨path, name, hFor, hTarget⟩ :=
    h [.rightClicked ['0', ':'] ['A'], .choseDelete, .rightClicked ['0', ':'] ['B']]
      (.delete ['0', ':', 'B']) [] (by decide)
  cases hFor
  revert hTarget
  decide

end Nao.Explorer
