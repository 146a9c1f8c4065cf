import Mathlib.Data.List.Basic
import Mathlib.Data.Nat.Find

/-!
# Searching a text that is still arriving

`OccursAt pat xs i` says that `pat` stands in `xs` at position `i`, and `FirstAt pat xs start i` that
`i` is the first such position from `start` on. A text that has only arrived in part is a prefix of
the whole: the search then finds what it would find in the whole text as soon as the occurrence
has arrived (`FirstAt.of_append`), and nothing before (`FirstAt.absent_of_append`).
-/

namespace SysLib

variable {α : Type*} {pat xs ys : List α} {start i : Nat}

def OccursAt (pat xs : List α) (i : Nat) : Prop := pat <+: xs.drop i

instance [DecidableEq α] (pat xs : List α) (i : Nat) : Decidable (OccursAt pat xs i) :=
  inferInstanceAs (Decidable (_ <+: _))

theorem occursAt_iff : OccursAt pat xs i ↔ (xs.drop i).take pat.length = pat := by
  rw [OccursAt, List.prefix_iff_eq_take, eq_comm]

theorem OccursAt.le_length (h : OccursAt pat xs i) (hPat : pat ≠ []) :
    i + pat.length ≤ xs.length := by
  have hLen := h.length_le
  have hPos := List.length_pos_iff.mpr hPat
  rw [List.length_drop] at hLen
  omega

theorem OccursAt.append (h : OccursAt pat xs i) (ys : List α) : OccursAt pat (xs ++ ys) i := by
  rw [OccursAt, List.drop_append]
  exact h.trans (List.prefix_append _ _)

theorem OccursAt.of_append (h : OccursAt pat (xs ++ ys) i) (hIn : i + pat.length ≤ xs.length) :
    OccursAt pat xs i := by
  rw [occursAt_iff] at h ⊢
  rwa [List.drop_append_of_le_length (by omega), List.take_append_of_le_length] at h
  rw [List.length_drop]
  omega

theorem occursAt_append_right (xs pat ys : List α) : OccursAt pat (xs ++ (pat ++ ys)) xs.length := by
  rw [OccursAt, List.drop_left]
  exact List.prefix_append pat ys

/-- The first symbol of an occurrence. -/
theorem OccursAt.head {c : α} (h : OccursAt (c :: pat) xs i) : xs[i]? = some c := by
  obtain ⟨rest, hRest⟩ := h
  have hHead := congrArg (·[0]?) hRest
  simpa [eq_comm] using hHead

/-- The other symbols of an occurrence. -/
theorem OccursAt.tail {c : α} (h : OccursAt (c :: pat) xs i) : OccursAt pat xs (i + 1) := by
  obtain ⟨rest, hRest⟩ := h
  refine ⟨rest, ?_⟩
  rw [← List.tail_drop, ← hRest]
  rfl

structure FirstAt (pat xs : List α) (start i : Nat) : Prop where
  start_le : start ≤ i
  occurs   : OccursAt pat xs i
  first    : ∀ j, start ≤ j → j < i → ¬ OccursAt pat xs j

theorem OccursAt.exists_firstAt (h : OccursAt pat xs i) (hStart : start ≤ i) :
    ∃ j, FirstAt pat xs start j := by
  classical
  have hEx : ∃ j, start ≤ j ∧ OccursAt pat xs j := ⟨i, hStart, h⟩
  obtain ⟨hFrom, hFirst⟩ := Nat.find_spec hEx
  exact ⟨_, hFrom, hFirst, fun j hj hlt hOccurs => Nat.find_min hEx hlt ⟨hj, hOccurs⟩⟩

/-- What is found in the whole text is found in the part that has arrived, once it is there. -/
theorem FirstAt.of_append (h : FirstAt pat (xs ++ ys) start i) (hIn : i + pat.length ≤ xs.length) :
    FirstAt pat xs start i where
  start_le := h.start_le
  occurs := h.occurs.of_append hIn
  first j hStart hj hOccurs := h.first j hStart hj (hOccurs.append ys)

/-- Before it is there, nothing is found. -/
theorem FirstAt.absent_of_append (h : FirstAt pat (xs ++ ys) start i) (hPat : pat ≠ [])
    (hOut : xs.length < i + pat.length) : ∀ j, start ≤ j → ¬ OccursAt pat xs j := by
  intro j hStart hOccurs
  have hLe := hOccurs.le_length hPat
  exact h.first j hStart (by omega) (hOccurs.append ys)

/-- A pattern stands first where its first symbol stands first. -/
theorem firstAt_of_notMem {c : α} (pat pre mid : List α) (hMid : c ∉ mid) (ys : List α) :
    FirstAt (c :: pat) (pre ++ (mid ++ (c :: pat ++ ys))) pre.length (pre.length + mid.length) where
  start_le := Nat.le_add_right _ _
  occurs := by
    have h := occursAt_append_right (pre ++ mid) (c :: pat) ys
    rwa [List.length_append, List.append_assoc] at h
  first j hStart hj hOccurs := by
    have hHead := hOccurs.head
    rw [List.getElem?_append_right hStart, List.getElem?_append_left (by omega)] at hHead
    exact hMid (List.mem_of_getElem? hHead)

theorem occursAt_append_left (xs : List α) :
    OccursAt pat (xs ++ ys) (xs.length + i) ↔ OccursAt pat ys i := by
  rw [OccursAt, OccursAt, List.drop_append, List.drop_eq_nil_of_le (by omega), List.nil_append,
    Nat.add_sub_cancel_left]

/-- A line end stands first behind a text without one, even if the text ends with its first
symbol. -/
theorem firstAt_of_none {cr lf : α} (hNe : cr ≠ lf) (pre mid : List α)
    (hMid : ∀ j, ¬ OccursAt [cr, lf] mid j) (ys : List α) :
    FirstAt [cr, lf] (pre ++ (mid ++ ([cr, lf] ++ ys))) pre.length (pre.length + mid.length) where
  start_le := Nat.le_add_right _ _
  occurs := by
    have h := occursAt_append_right (pre ++ mid) [cr, lf] ys
    rwa [List.length_append, List.append_assoc] at h
  first j hStart hj hOccurs := by
    obtain ⟨k, rfl⟩ := Nat.exists_eq_add_of_le hStart
    have hHere := (occursAt_append_left pre).mp hOccurs
    rcases Nat.lt_or_ge (k + 1) mid.length with hlt | hge
    · exact hMid k (hHere.of_append hlt)
    · -- the second symbol would be the first one of the line end
      obtain hLast : k + 1 = mid.length + 0 := by omega
      have hSecond := hHere.tail.head
      rw [hLast, List.getElem?_append_right (Nat.le_add_right _ _), Nat.add_sub_cancel_left] at hSecond
      exact hNe (Option.some.inj hSecond)

/-- A first occurrence stays the first behind a text in which none begins. -/
theorem FirstAt.append_left (h : FirstAt pat ys 0 i)
    (hNone : ∀ j < xs.length, ¬ OccursAt pat (xs ++ ys) j) :
    FirstAt pat (xs ++ ys) 0 (xs.length + i) where
  start_le := Nat.zero_le _
  occurs := (occursAt_append_left xs).mpr h.occurs
  first j _ hj hOccurs := by
    rcases Nat.lt_or_ge j xs.length with hlt | hge
    · exact hNone j hlt hOccurs
    · obtain ⟨k, rfl⟩ := Nat.exists_eq_add_of_le hge
      exact h.first k (Nat.zero_le _) (by omega) ((occursAt_append_left xs).mp hOccurs)

/-- Two line ends in a row stand first behind the last of a number of lines that are not empty. -/
theorem firstAt_blank_line {cr lf : α} (hNe : cr ≠ lf) {line : List α} (hLine : cr ∉ line)
    {lines : List (List α)} (hLines : ∀ l ∈ lines, l ≠ [] ∧ cr ∉ l) (rest : List α) :
    FirstAt [cr, lf, cr, lf]
      (line ++ [cr, lf] ++ (lines.flatMap (· ++ [cr, lf]) ++ ([cr, lf] ++ rest))) 0
      (line.length + (lines.flatMap (· ++ [cr, lf])).length) := by
  induction lines generalizing line with
  | nil =>
    have h := firstAt_of_notMem [lf, cr, lf] [] line hLine rest
    simpa using h
  | cons l lines ih =>
    obtain ⟨hl, hLines⟩ := List.forall_mem_cons.mp hLines
    have h := ih hl.2 hLines
    have hShift : FirstAt [cr, lf, cr, lf] (line ++ [cr, lf] ++ _) 0
        ((line ++ [cr, lf]).length + _) := h.append_left fun j hj hOccurs => ?_
    · have hAt : line.length + ((l :: lines).flatMap (· ++ [cr, lf])).length
          = (line ++ [cr, lf]).length + (l.length + (lines.flatMap (· ++ [cr, lf])).length) := by
        simp only [List.flatMap_cons, List.length_append, List.length_cons, List.length_nil]
        omega
      rw [hAt, List.flatMap_cons, List.append_assoc (l ++ [cr, lf])]
      exact hShift
    -- an occurrence would begin in the line, at its line end, or at the second half of that
    obtain ⟨c, l, rfl⟩ := List.exists_cons_of_ne_nil hl.1
    have hHead := hOccurs.head
    have hThird : (line ++ [cr, lf] ++ (c :: l ++ [cr, lf] ++ (lines.flatMap (· ++ [cr, lf])
        ++ ([cr, lf] ++ rest))))[j + 2]? = some cr := by
      obtain ⟨more, hMore⟩ := hOccurs
      have := congrArg (·[2]?) hMore
      simpa [eq_comm] using this
    rw [List.length_append, List.length_cons, List.length_singleton] at hj
    rcases Nat.lt_or_ge j line.length with hIn | hGe
    · rw [List.append_assoc, List.getElem?_append_left hIn] at hHead
      exact hLine (List.mem_of_getElem? hHead)
    · obtain rfl | rfl : j = line.length ∨ j = line.length + 1 := by omega
      · rw [List.getElem?_append_right (by simp)] at hThird
        simp at hThird
        exact hl.2 (by simp [hThird])
      · rw [List.append_assoc, List.getElem?_append_right (by omega)] at hHead
        simp at hHead
        exact hNe hHead.symm

end SysLib
