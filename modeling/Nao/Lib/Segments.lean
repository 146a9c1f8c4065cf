import Mathlib.Data.List.Basic

/-!
# Segments of a list

The maximal runs between separators, empty ones left out: what a path denotes when
repeated, leading and trailing separators do not count.

* `segments_append_cons` — a separator splits the segments of a list in two.
* `segments_flatMap` — segments written out, each after a separator, are read back.
-/

namespace SysLib

variable {α : Type*} {p : α → Bool}

/-- The non-empty runs of elements that are not separators. -/
def segments (sep : α → Bool) (l : List α) : List (List α) :=
  (l.splitOnP sep).filter fun s => !s.isEmpty

@[simp] theorem segments_nil : segments p [] = [] := by
  simp [segments]

theorem segments_append_cons (xs ys : List α) {c : α} (hc : p c = true) :
    segments p (xs ++ c :: ys) = segments p xs ++ segments p ys := by
  rw [segments, List.splitOnP_append_cons xs ys hc, List.filter_append, segments, segments]

theorem segments_cons {c : α} (hc : p c = true) (xs : List α) :
    segments p (c :: xs) = segments p xs := by
  have h := segments_append_cons (p := p) [] xs hc
  rwa [segments_nil, List.nil_append, List.nil_append] at h

/-- Every element that is not a separator is in a segment. -/
theorem exists_mem_segments {xs : List α} {x : α} (hx : x ∈ xs) (hp : p x = false) :
    ∃ s ∈ segments p xs, x ∈ s := by
  obtain ⟨s, hs, hMem⟩ : ∃ s ∈ xs.splitOnP p, x ∈ s := by
    induction xs with
    | nil => cases hx
    | cons y ys ih =>
      rw [List.splitOnP_cons_eq_if_modifyHead]
      split
      · next hy =>
        have hxy : x ≠ y := fun h => by rw [h, hy] at hp; cases hp
        obtain ⟨s, hs, hMem⟩ := ih ((List.mem_cons.mp hx).resolve_left hxy)
        exact ⟨s, List.mem_cons_of_mem _ hs, hMem⟩
      · obtain ⟨t, ts, hSplit⟩ := List.exists_cons_of_ne_nil (List.splitOnP_ne_nil p ys)
        rw [hSplit] at ih ⊢
        rcases List.mem_cons.mp hx with rfl | hx
        · exact ⟨_, List.mem_cons_self .., List.mem_cons_self ..⟩
        · obtain ⟨s, hs, hMem⟩ := ih hx
          rcases List.mem_cons.mp hs with rfl | hs
          · exact ⟨_, List.mem_cons_self .., List.mem_cons_of_mem _ hMem⟩
          · exact ⟨s, List.mem_cons_of_mem _ hs, hMem⟩
  exact ⟨s, List.mem_filter.mpr ⟨hs, by simpa using List.ne_nil_of_mem hMem⟩, hMem⟩

/-- A non-empty list without separators is its own only segment. -/
theorem segments_of_forall {xs : List α} (hne : xs ≠ []) (h : ∀ x ∈ xs, p x = false) :
    segments p xs = [xs] := by
  rw [segments, List.splitOnP_eq_singleton h]
  simp [hne]

/-- A last segment behind a separator. -/
theorem segments_concat (xs : List α) {c : α} (hc : p c = true) {s : List α} (hne : s ≠ [])
    (h : ∀ x ∈ s, p x = false) : segments p (xs ++ c :: s) = segments p xs ++ [s] := by
  rw [segments_append_cons xs s hc, segments_of_forall hne h]

theorem segments_flatMap {c : α} (hc : p c = true) {ss : List (List α)}
    (h : ∀ s ∈ ss, s ≠ [] ∧ ∀ x ∈ s, p x = false) :
    segments p (ss.flatMap fun s => c :: s) = ss := by
  induction ss with
  | nil => exact segments_nil
  | cons s ss ih =>
    obtain ⟨hne, hs⟩ := h s (List.mem_cons_self ..)
    have hRest := ih fun t ht => h t (List.mem_cons_of_mem _ ht)
    rw [List.flatMap_cons, List.cons_append, segments_cons hc]
    cases ss with
    | nil => rw [List.flatMap_nil, List.append_nil, segments_of_forall hne hs]
    | cons t ts =>
      rw [List.flatMap_cons, List.cons_append, segments_append_cons s _ hc,
        segments_of_forall hne hs]
      rw [List.flatMap_cons, List.cons_append, segments_cons hc] at hRest
      rw [hRest]
      rfl

end SysLib
