import Mathlib.Data.List.Nodup
import Mathlib.Logic.Function.Basic
import Nao.Lib.Traced

/-!
# Programs that write

A buffer is a function from places to values, and what a program does to it is a list of
writes, carried out in order.

* `applyWrites_of_not_mem`, `applyWrites_of_unique` — a place that is not written keeps its value;
  one that is only ever written with one value gets it.
* `Confined` — a traced program whose events are its writes, all of one kind. Sequencing and
  counted loops keep this, and what no write of that kind touches is unchanged
  (`Confined.unchanged`).
-/

namespace SysLib

section Writes

variable {α β : Type*} [DecidableEq α]

/-- The buffer after the writes. -/
def applyWrites (f : α → β) (ws : List (α × β)) : α → β :=
  ws.foldl (fun f w => Function.update f w.1 w.2) f

@[simp] theorem applyWrites_nil (f : α → β) : applyWrites f [] = f := rfl

@[simp] theorem applyWrites_cons (f : α → β) (w : α × β) (ws : List (α × β)) :
    applyWrites f (w :: ws) = applyWrites (Function.update f w.1 w.2) ws := rfl

theorem applyWrites_append (f : α → β) (ws ws' : List (α × β)) :
    applyWrites f (ws ++ ws') = applyWrites (applyWrites f ws) ws' :=
  List.foldl_append

theorem applyWrites_of_not_mem {f : α → β} {ws : List (α × β)} {a : α}
    (h : a ∉ ws.map Prod.fst) : applyWrites f ws a = f a := by
  induction ws generalizing f with
  | nil => rfl
  | cons w ws ih =>
    rw [List.map_cons, List.mem_cons, not_or] at h
    rw [applyWrites_cons, ih h.2, Function.update_of_ne h.1]

/-- A place gets the value that all writes to it have. -/
theorem applyWrites_of_unique {f : α → β} {ws : List (α × β)} {a : α} {b : β} (h : (a, b) ∈ ws)
    (hOnly : ∀ b', (a, b') ∈ ws → b' = b) : applyWrites f ws a = b := by
  induction ws generalizing f with
  | nil => cases h
  | cons w ws ih =>
    rw [applyWrites_cons]
    by_cases hLater : a ∈ ws.map Prod.fst
    · obtain ⟨⟨a', b'⟩, hMem, rfl⟩ := List.mem_map.mp hLater
      obtain rfl : b' = b := hOnly b' (List.mem_cons_of_mem _ hMem)
      exact ih hMem fun b'' hb => hOnly b'' (List.mem_cons_of_mem _ hb)
    · rcases List.mem_cons.mp h with rfl | hTail
      · rw [applyWrites_of_not_mem hLater, Function.update_self]
      · exact absurd (List.mem_map_of_mem (f := Prod.fst) hTail) hLater

theorem applyWrites_of_mem {f : α → β} {ws : List (α × β)} {a : α} {b : β}
    (hNodup : (ws.map Prod.fst).Nodup) (h : (a, b) ∈ ws) : applyWrites f ws a = b :=
  applyWrites_of_unique h fun _ hb => congrArg Prod.snd (List.inj_on_of_nodup_map hNodup hb h rfl)

end Writes

-- ---------------------------------------------------------------------------
-- Traced programs
-- ---------------------------------------------------------------------------

open Traced

variable {α β : Type} {ε : Type*} [DecidableEq α]

/-- Run on the buffer `f`, the program does to it what its events say, and all of them satisfy `P`. -/
structure Confined (P : ε → Prop) (write : ε → α × β) (f : α → β) (t : Traced ε (α → β)) : Prop where
  all      : t.All P
  performs : t.val = applyWrites f (t.trace.map write)

namespace Confined

variable {P : ε → Prop} {write : ε → α × β} {f : α → β} {t : Traced ε (α → β)}

theorem nothing (f : α → β) : Confined P write f (pure f) := ⟨all_pure f, rfl⟩

/-- One write. -/
theorem one {e : ε} (he : P e) (f : α → β) :
    Confined P write f (do tell e; pure (Function.update f (write e).1 (write e).2)) :=
  ⟨by simpa using he, rfl⟩

theorem bind {g : (α → β) → Traced ε (α → β)} (ht : Confined P write f t)
    (hg : Confined P write t.val (g t.val)) : Confined P write f (t >>= g) := by
  refine ⟨all_bind.mpr ⟨ht.all, hg.all⟩, ?_⟩
  rw [val_bind, trace_bind, List.map_append, applyWrites_append, ← ht.performs, hg.performs]

theorem loop {body : Nat → (α → β) → Traced ε (α → β)} {n : Nat}
    (h : ∀ i, i < n → ∀ f, Confined P write f (body i f)) (f : α → β) :
    Confined P write f (forTo body n f) := by
  induction n with
  | zero => exact nothing f
  | succ n ih => exact bind (ih fun i hi => h i (by omega)) (h n (by omega) _)

theorem unchanged (h : Confined P write f t) {a : α} (ha : ∀ e, P e → (write e).1 ≠ a) :
    t.val a = f a := by
  rw [h.performs]
  refine applyWrites_of_not_mem fun hMem => ?_
  rw [List.map_map] at hMem
  obtain ⟨e, he, hPlace⟩ := List.mem_map.mp hMem
  exact ha e (h.all e he) hPlace

end Confined

end SysLib
