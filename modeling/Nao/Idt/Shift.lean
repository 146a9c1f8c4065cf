import Nao.Idt.Definitions
import Mathlib.Data.List.Infix

/-!
# The shift keys

There are two shift keys and one flag. A key is held if its latest event was the make code; the
flag says which kind the latest event of either key was.

* `held_concat`, `shift_irq1` — what one interrupt does to the keys and to the flag.
* `shift_tracks_keys` — the flag follows the keys at every moment of a run exactly if neither key
  is released while the other one is held; then every character is taken from the right table.
-/

namespace Nao.Idt

open SysLib

-- ---------------------------------------------------------------------------
-- Keys that are held
-- ---------------------------------------------------------------------------

inductive ShiftKey where
  | left | right
  deriving DecidableEq, Repr

def ShiftKey.makeCode : ShiftKey → UInt8
  | .left => 0x2A
  | .right => 0x36

def ShiftKey.breakCode : ShiftKey → UInt8
  | .left => 0xAA
  | .right => 0xB6

def ShiftKey.other : ShiftKey → ShiftKey
  | .left => .right
  | .right => .left

/-- The events of the key among the scancodes. -/
def ShiftKey.events (k : ShiftKey) (codes : List UInt8) : List UInt8 :=
  codes.filter fun c => c = k.makeCode ∨ c = k.breakCode

/-- The latest event of the key was the make code. -/
def ShiftKey.Held (k : ShiftKey) (codes : List UInt8) : Prop :=
  (k.events codes).getLast? = some k.makeCode

instance (k : ShiftKey) (codes : List UInt8) : Decidable (k.Held codes) :=
  inferInstanceAs (Decidable (_ = _))

/-- At least one of the keys is held. -/
def ShiftHeld (codes : List UInt8) : Prop := ShiftKey.left.Held codes ∨ ShiftKey.right.Held codes

instance (codes : List UInt8) : Decidable (ShiftHeld codes) := inferInstanceAs (Decidable (_ ∨ _))

/-- The scancodes delivered by a sequence of interrupts and steps of the main loop. -/
def scancodes (as : List Action) : List UInt8 :=
  as.filterMap fun | .irq1 scancode => some scancode | .main => none

theorem break_ne_make (k k' : ShiftKey) : k.breakCode ≠ k'.makeCode := by
  cases k <;> cases k' <;> decide

theorem held_concat (k : ShiftKey) (codes : List UInt8) (c : UInt8) :
    k.Held (codes ++ [c]) ↔ c = k.makeCode ∨ c ≠ k.breakCode ∧ k.Held codes := by
  have hNe := break_ne_make k k
  rw [ShiftKey.Held, ShiftKey.events, List.filter_append, List.filter_singleton]
  by_cases hMake : c = k.makeCode
  · simp [hMake]
  · by_cases hBreak : c = k.breakCode
    · simp [hBreak, hNe]
    · simp [hMake, hBreak, ShiftKey.Held, ShiftKey.events]

/-- Whatever key it is, one of the two is held iff it is or the other one is. -/
theorem shiftHeld_iff_other (k : ShiftKey) (codes : List UInt8) :
    ShiftHeld codes ↔ k.Held codes ∨ k.other.Held codes := by
  cases k with
  | left => exact Iff.rfl
  | right => exact or_comm

/-- A scancode is an event of one shift key, or of none. -/
theorem scancode_cases (c : UInt8) :
    (∃ k : ShiftKey, c = k.makeCode) ∨ (∃ k : ShiftKey, c = k.breakCode)
      ∨ ∀ k : ShiftKey, c ≠ k.makeCode ∧ c ≠ k.breakCode := by
  by_cases hMake : c = 0x2A ∨ c = 0x36
  · left
    rcases hMake with rfl | rfl
    exacts [⟨.left, rfl⟩, ⟨.right, rfl⟩]
  by_cases hBreak : c = 0xAA ∨ c = 0xB6
  · right; left
    rcases hBreak with rfl | rfl
    exacts [⟨.left, rfl⟩, ⟨.right, rfl⟩]
  · right; right
    rw [not_or] at hMake hBreak
    rintro (_ | _)
    exacts [⟨hMake.1, hBreak.1⟩, ⟨hMake.2, hBreak.2⟩]

-- ---------------------------------------------------------------------------
-- The flag
-- ---------------------------------------------------------------------------

theorem keyboardPushChar_shift (c : UInt8) (k : Keyboard) :
    (keyboardPushChar c k).val.shiftPressed = k.shiftPressed := by
  unfold keyboardPushChar
  dsimp only
  split <;> rfl

theorem irq1_make (s : ShiftKey) (k : Keyboard) :
    irq1 s.makeCode k = pure { k with shiftPressed := true } := by
  cases s <;> rfl

theorem irq1_break (s : ShiftKey) (k : Keyboard) :
    irq1 s.breakCode k = pure { k with shiftPressed := false } := by
  cases s <;> rfl

/-- An ordinary key: its character is pushed, if it has one. -/
theorem irq1_ordinary {c : UInt8} (h : ∀ s : ShiftKey, c ≠ s.makeCode ∧ c ≠ s.breakCode)
    (k : Keyboard) :
    irq1 c k = pure k
      ∨ irq1 c k = keyboardPushChar
          ((if k.shiftPressed then scancodeToAsciiShift else scancodeToAsciiNormal).getD c.toNat 0) k := by
  have hMake : ¬ (c = 0x2A ∨ c = 0x36) := not_or.mpr ⟨(h .left).1, (h .right).1⟩
  have hBreak : ¬ (c = 0xAA ∨ c = 0xB6) := not_or.mpr ⟨(h .left).2, (h .right).2⟩
  rw [irq1, if_neg hMake, if_neg hBreak]
  split
  · split
    · dsimp only
      generalize List.getD _ _ _ = ascii
      split
      · exact .inr rfl
      · exact .inl rfl
    · exact .inl rfl
  · exact .inl rfl

/-- The keyboard of every moment. -/
def keyboardAfter (as : List Action) : Keyboard := (feed step Sys.boot as).val.kbd

theorem keyboardAfter_irq1 (as : List Action) (c : UInt8) :
    keyboardAfter (as ++ [.irq1 c]) = (irq1 c (keyboardAfter as)).val := by
  rw [keyboardAfter, feed_concat]
  rfl

theorem shift_main (as : List Action) :
    (keyboardAfter (as ++ [.main])).shiftPressed = (keyboardAfter as).shiftPressed := by
  rw [keyboardAfter, keyboardAfter, feed_concat]
  obtain ⟨⟨k, pc⟩, log⟩ := feed step Sys.boot as
  show (mainStep ⟨k, pc⟩).val.kbd.shiftPressed = k.shiftPressed
  unfold mainStep returned
  cases pc with
  | away => rfl
  | calling =>
    dsimp only
    split <;> rfl
  | tested => rfl
  | loaded c =>
    dsimp only
    split <;> rfl

/-- What an interrupt does to the flag. -/
theorem shift_irq1 (as : List Action) (c : UInt8) :
    ((keyboardAfter (as ++ [.irq1 c])).shiftPressed = true ↔
      (∃ k : ShiftKey, c = k.makeCode)
        ∨ (∀ k : ShiftKey, c ≠ k.breakCode) ∧ (keyboardAfter as).shiftPressed = true) := by
  rw [keyboardAfter_irq1]
  obtain ⟨k, rfl⟩ | ⟨k, rfl⟩ | hOrdinary := scancode_cases c
  · rw [irq1_make]
    exact iff_of_true rfl (.inl ⟨k, rfl⟩)
  · rw [irq1_break]
    refine iff_of_false (by simp) ?_
    rintro (⟨k', hk⟩ | ⟨hNone, -⟩)
    exacts [break_ne_make k k' hk, hNone k rfl]
  · have hSame : (irq1 c (keyboardAfter as)).val.shiftPressed = (keyboardAfter as).shiftPressed := by
      rcases irq1_ordinary hOrdinary (keyboardAfter as) with hEq | hEq
      · rw [hEq]
        rfl
      · rw [hEq, keyboardPushChar_shift]
    rw [hSame]
    constructor
    · intro hFlag
      exact .inr ⟨fun k => (hOrdinary k).2, hFlag⟩
    · rintro (⟨k, hk⟩ | ⟨-, hFlag⟩)
      exacts [absurd hk (hOrdinary k).1, hFlag]

-- ---------------------------------------------------------------------------
-- Main result
-- ---------------------------------------------------------------------------

/-- The flag agrees with the keys. -/
def Tracks (as : List Action) : Prop :=
  (keyboardAfter as).shiftPressed = true ↔ ShiftHeld (scancodes as)

/-- No shift key is released while the other one is held. -/
def OneAtATime (as : List Action) : Prop :=
  ∀ pre (k : ShiftKey), pre ++ [.irq1 k.breakCode] <+: as → ¬ k.other.Held (scancodes pre)

theorem scancodes_irq1 (as : List Action) (c : UInt8) :
    scancodes (as ++ [.irq1 c]) = scancodes as ++ [c] := by
  rw [scancodes, List.filterMap_append]
  rfl

theorem scancodes_main (as : List Action) : scancodes (as ++ [.main]) = scancodes as := by
  rw [scancodes, List.filterMap_append]
  exact List.append_nil _

/-- Releasing one key does nothing to the other. -/
theorem held_other_break (k : ShiftKey) (codes : List UInt8) :
    k.other.Held (codes ++ [k.breakCode]) ↔ k.other.Held codes := by
  have hBreak : k.breakCode ≠ k.other.breakCode := by cases k <;> decide
  rw [held_concat, or_iff_right (break_ne_make k k.other), and_iff_right hBreak]

/-- One more interrupt: the flag goes on following the keys, unless it is the release of a key
while the other one is held. -/
theorem tracks_irq1 {as : List Action} (h : Tracks as) {c : UInt8}
    (hAlone : ∀ k : ShiftKey, c = k.breakCode → ¬ k.other.Held (scancodes as)) :
    Tracks (as ++ [.irq1 c]) := by
  rw [Tracks, shift_irq1, scancodes_irq1]
  obtain ⟨k, rfl⟩ | ⟨k, rfl⟩ | hOrdinary := scancode_cases c
  · refine iff_of_true (.inl ⟨k, rfl⟩) ?_
    rw [shiftHeld_iff_other k, held_concat]
    exact .inl (.inl rfl)
  · refine iff_of_false ?_ ?_
    · rintro (⟨k', hk⟩ | ⟨hNone, -⟩)
      exacts [break_ne_make k k' hk, hNone k rfl]
    · rw [shiftHeld_iff_other k, held_other_break, held_concat]
      rintro ((hMake | ⟨hBreak, -⟩) | hOther)
      exacts [break_ne_make k k hMake, hBreak rfl, hAlone k rfl hOther]
  · have hKeep : ∀ k : ShiftKey, k.Held (scancodes as ++ [c]) ↔ k.Held (scancodes as) := by
      intro k
      rw [held_concat, or_iff_right (hOrdinary k).1, and_iff_right (hOrdinary k).2]
    rw [or_iff_right (fun ⟨k, hk⟩ => (hOrdinary k).1 hk), and_iff_right fun k => (hOrdinary k).2,
      ShiftHeld, hKeep, hKeep]
    exact h

theorem oneAtATime_concat (as : List Action) (a : Action) :
    OneAtATime (as ++ [a]) ↔ OneAtATime as
      ∧ ∀ k : ShiftKey, a = .irq1 k.breakCode → ¬ k.other.Held (scancodes as) := by
  constructor
  · intro h
    refine ⟨fun pre k hPre => h pre k (hPre.trans (List.prefix_append ..)), ?_⟩
    rintro k rfl
    exact h as k List.prefix_rfl
  · rintro ⟨hBefore, hLast⟩ pre k hPre
    rcases List.prefix_concat_iff.mp hPre with hEq | hShort
    · obtain ⟨rfl, hk⟩ := List.append_inj' hEq rfl
      exact hLast k (List.cons.inj hk).1.symm
    · exact hBefore pre k hShort

theorem tracks_of_oneAtATime {as : List Action} (h : OneAtATime as) : Tracks as := by
  induction as using List.reverseRecOn with
  | nil => exact iff_of_false (by decide) (by decide)
  | append_singleton as a ih =>
    obtain ⟨hBefore, hLast⟩ := (oneAtATime_concat as a).mp h
    cases a with
    | main =>
      rw [Tracks, shift_main, scancodes_main]
      exact ih hBefore
    | irq1 c => exact tracks_irq1 (ih hBefore) fun k hk => hLast k (congrArg Action.irq1 hk)

/--
**The shift flag and the shift keys.** For every sequence of interrupts, with steps of the main
loop in between: `shift_pressed` is set exactly while a shift key is held, at every moment of the
sequence, if and only if no shift key is released while the other one is held. Under that
condition every character that is buffered comes from the table that belongs to the keys held at
that moment.
-/
theorem shift_tracks_keys (as : List Action) :
    ((∀ pre, pre <+: as → Tracks pre) ↔ OneAtATime as)
    ∧ (OneAtATime as → ∀ pre c ch, pre ++ [.irq1 c] <+: as →
        KeyEvent.accepted ch ∈ (irq1 c (keyboardAfter pre)).trace →
        ch = (if ShiftHeld (scancodes pre) then scancodeToAsciiShift else scancodeToAsciiNormal).getD
          c.toNat 0) := by
  have hInitial : OneAtATime as → ∀ pre, pre <+: as → Tracks pre := by
    intro h pre hPre
    exact tracks_of_oneAtATime fun pre' k hPre' => h pre' k (hPre'.trans hPre)
  refine ⟨⟨?_, hInitial⟩, ?_⟩
  · intro h pre k hPre hOther
    -- right after the release the flag is down, and the other key still held
    have hTracks := h _ hPre
    rw [Tracks, keyboardAfter_irq1, irq1_break, scancodes_irq1] at hTracks
    refine absurd (hTracks.mpr ?_) (by simp)
    exact (shiftHeld_iff_other k _).mpr (.inr ((held_other_break k _).mpr hOther))
  · intro h pre c ch hPre hAccepted
    have hTracks := hInitial h pre ((List.prefix_append ..).trans hPre)
    obtain ⟨k, rfl⟩ | ⟨k, rfl⟩ | hOrdinary := scancode_cases c
    · rw [irq1_make] at hAccepted
      cases hAccepted
    · rw [irq1_break] at hAccepted
      cases hAccepted
    · have hTable : (if (keyboardAfter pre).shiftPressed then scancodeToAsciiShift
          else scancodeToAsciiNormal)
          = if ShiftHeld (scancodes pre) then scancodeToAsciiShift else scancodeToAsciiNormal :=
        if_congr hTracks rfl rfl
      rcases irq1_ordinary hOrdinary (keyboardAfter pre) with hEq | hEq
      · rw [hEq] at hAccepted
        cases hAccepted
      · rw [hEq, hTable] at hAccepted
        unfold keyboardPushChar at hAccepted
        dsimp only at hAccepted
        split at hAccepted
        · simpa using hAccepted
        · simp at hAccepted

/-- `A` with the right shift key, which is then released. -/
theorem shift_tracks_keys_demo : Tracks [.irq1 0x36, .irq1 0x1E, .irq1 0xB6] := by
  refine (shift_tracks_keys _).1.mpr ?_ _ List.prefix_rfl
  have hNil : OneAtATime [] := fun pre k hPre => absurd (List.prefix_nil.mp hPre) (by simp)
  have hMake := (oneAtATime_concat [] (.irq1 0x36)).mpr ⟨hNil, fun k _ => by cases k <;> decide⟩
  have hKey := (oneAtATime_concat [.irq1 0x36] (.irq1 0x1E)).mpr
    ⟨hMake, fun k hk => by cases k <;> exact absurd (Action.irq1.inj hk) (by decide)⟩
  refine (oneAtATime_concat [.irq1 0x36, .irq1 0x1E] (.irq1 0xB6)).mpr ⟨hKey, ?_⟩
  intro k hk
  cases k with
  | left => exact absurd (Action.irq1.inj hk) (by decide)
  | right => decide

/-- Both shift keys are pressed and the right one is released: the flag is down while the left
one is held, and `A` arrives as `a`. -/
theorem shift_released_too_early :
    let as : List Action := [.irq1 0x2A, .irq1 0x36, .irq1 0xB6]
    ShiftKey.left.Held (scancodes as) ∧ (keyboardAfter as).shiftPressed = false
      ∧ (irq1 0x1E (keyboardAfter as)).trace = [.accepted 0x61] := by
  decide

end Nao.Idt
