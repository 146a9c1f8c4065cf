import Nao.Idt.Definitions

/-!
# The keyboard ring is a bounded queue

The characters that `keyboard_push_char` stores from interrupt context and
`keyboard_pop_char` takes out in steps behave as a first-in first-out queue of at most 31
characters, whatever the interleaving. Main results:

* `keyboard_refines_queue` — the log of every run is a run of the abstract bounded queue.
* `keyboard_ring_fifo` — both indices stay in the ring; what was returned, followed by what
  is pending, is what was accepted; a character is dropped only when 31 are pending; 0 is
  never stored, so a pop returns 0, and the drain loop stops, only on an empty ring.

Producer and consumer meet in one place only: a push appends to the pending characters, so
whatever a half-finished pop has learned about the first of them stays true.
-/

namespace Nao.Idt

open SysLib

-- ---------------------------------------------------------------------------
-- The queue behind the ring
-- ---------------------------------------------------------------------------

/-- The characters in the ring, oldest first. -/
def Keyboard.pending (k : Keyboard) : List UInt8 :=
  Ring.pending keyboardSize k.buffer k.head k.tail

/-- What an event means for the queue. A pop that returns 0 has found nothing. -/
def queueEvent : KeyEvent → Option (QueueEvent UInt8)
  | .accepted c => some (.accept c)
  | .rejected c => some (.reject c)
  | .popped c => some (if c = 0 then .empty else .take c)
  | .stopped => none

def queueLog (log : List KeyEvent) : List (QueueEvent UInt8) := log.filterMap queueEvent

/-- The characters accepted by `keyboard_push_char`. -/
def acceptedChars (log : List KeyEvent) : List UInt8 := BoundedQueue.accepted (queueLog log)

/-- The characters returned by `keyboard_pop_char`. -/
def returnedChars (log : List KeyEvent) : List UInt8 := BoundedQueue.taken (queueLog log)

/-- What has to be true of an event, given the log before it. -/
def KeyEvent.Ok (pre : List KeyEvent) : KeyEvent → Prop
  | .accepted c => c ≠ 0
  | .rejected _ => (acceptedChars pre).length = (returnedChars pre).length + 31
  | .popped c => c = 0 → returnedChars pre = acceptedChars pre
  | .stopped => returnedChars pre = acceptedChars pre

/-- What the interrupted code has learned about the ring so far. -/
def Pc.Agrees (q : List UInt8) : Pc → Prop
  | .away => True
  | .calling => True
  | .tested => q ≠ []
  | .loaded c => ∃ rest, q = c :: rest

/-- A push leaves it true. -/
theorem Pc.Agrees.append {q : List UInt8} {pc : Pc} (h : pc.Agrees q) (c : UInt8) :
    pc.Agrees (q ++ [c]) := by
  cases pc with
  | away => trivial
  | calling => trivial
  | tested => exact List.append_ne_nil_of_left_ne_nil h _
  | loaded d =>
    obtain ⟨rest, rfl⟩ := h
    exact ⟨rest ++ [c], rfl⟩

structure Keyboard.Valid (k : Keyboard) : Prop where
  head_lt : k.head < keyboardSize
  tail_lt : k.tail < keyboardSize
  nonzero : ∀ c ∈ k.pending, c ≠ 0

structure KeyInv (log : List KeyEvent) (s : Sys) : Prop where
  valid  : s.kbd.Valid
  agrees : s.pc.Agrees s.kbd.pending
  queue  : Run (BoundedQueue.Step 31) [] (queueLog log) s.kbd.pending
  events : Throughout KeyEvent.Ok log

-- ---------------------------------------------------------------------------
-- Push and pop on the pending characters
-- ---------------------------------------------------------------------------

theorem Keyboard.Valid.pending_eq_nil_iff {k : Keyboard} (h : k.Valid) :
    k.pending = [] ↔ k.head = k.tail :=
  Ring.pending_eq_nil_iff h.tail_lt

theorem Keyboard.Valid.pending_eq_cons {k : Keyboard} (h : k.Valid) (hSome : k.head ≠ k.tail) :
    k.pending = k.buffer k.tail :: { k with tail := (k.tail + 1) % keyboardSize }.pending :=
  Ring.pending_pop h.head_lt h.tail_lt hSome

/-- `keyboard_push_char` appends, or finds 31 characters pending and does nothing. -/
theorem keyboardPushChar_cases {k : Keyboard} (h : k.Valid) (c : UInt8) :
    (∃ k', keyboardPushChar c k = ⟨k', [.accepted c]⟩ ∧ k.pending.length < 31
      ∧ k'.pending = k.pending ++ [c] ∧ k'.head < keyboardSize ∧ k'.tail = k.tail) ∨
    (keyboardPushChar c k = ⟨k, [.rejected c]⟩ ∧ k.pending.length = 31) := by
  have hLen : k.pending.length = Ring.count keyboardSize k.head k.tail := Ring.length_pending
  have hFull := Ring.next_eq_tail_iff h.head_lt h.tail_lt
  by_cases hNext : (k.head + 1) % keyboardSize = k.tail
  · right
    rw [keyboardPushChar, if_neg (not_not.mpr hNext), hLen, hFull.mp hNext]
    exact ⟨rfl, rfl⟩
  · left
    refine ⟨{ k with buffer := k.buffer.write8 k.head c, head := (k.head + 1) % keyboardSize },
      by rw [keyboardPushChar, if_pos hNext]; rfl, ?_,
      Ring.pending_push h.head_lt h.tail_lt hNext c, Ring.next_lt h.head_lt, rfl⟩
    have hLt := Ring.count_lt h.head_lt h.tail_lt
    have hNe : Ring.count keyboardSize k.head k.tail ≠ keyboardSize - 1 := mt hFull.mpr hNext
    rw [hLen]
    simp only [keyboardSize] at hLt hNe ⊢
    omega

/-- IRQ 1 pushes a character other than 0, or leaves the ring alone. -/
theorem irq1_cases (scancode : UInt8) (k : Keyboard) :
    (∃ shift, irq1 scancode k = pure { k with shiftPressed := shift }) ∨
    ∃ c, c ≠ 0 ∧ irq1 scancode k = keyboardPushChar c k := by
  have hSame : (∃ shift, (pure k : Traced KeyEvent Keyboard) = pure { k with shiftPressed := shift }) :=
    ⟨k.shiftPressed, rfl⟩
  unfold irq1
  split
  · exact .inl ⟨true, rfl⟩
  split
  · exact .inl ⟨false, rfl⟩
  split
  · split
    · dsimp only
      generalize List.getD _ _ _ = ascii
      split
      · exact .inr ⟨ascii, ‹_›, rfl⟩
      · exact .inl hSame
    · exact .inl hSame
  · exact .inl hSame

-- ---------------------------------------------------------------------------
-- The invariant
-- ---------------------------------------------------------------------------

theorem queueLog_concat (log : List KeyEvent) (e : KeyEvent) :
    queueLog (log ++ [e]) = queueLog log ++ (queueEvent e).toList := by
  rw [queueLog, queueLog, List.filterMap_append]
  cases h : queueEvent e <;> simp [h]

theorem KeyInv.conservation {log : List KeyEvent} {s : Sys} (h : KeyInv log s) :
    returnedChars log ++ s.kbd.pending = acceptedChars log :=
  BoundedQueue.conservation h.queue

theorem KeyInv.eq_of_empty {log : List KeyEvent} {s : Sys} (h : KeyInv log s)
    (hEmpty : s.kbd.pending = []) : returnedChars log = acceptedChars log := by
  rw [← h.conservation, hEmpty, List.append_nil]

/-- One event that is a move of the queue, to a state that agrees with it. -/
theorem KeyInv.move {log : List KeyEvent} {s s' : Sys} (h : KeyInv log s) {e : KeyEvent}
    {q : QueueEvent UInt8} (hView : queueEvent e = some q)
    (hStep : BoundedQueue.Step 31 s.kbd.pending q s'.kbd.pending) (hOk : e.Ok log)
    (hValid : s'.kbd.Valid) (hAgrees : s'.pc.Agrees s'.kbd.pending) : KeyInv (log ++ [e]) s' where
  valid := hValid
  agrees := hAgrees
  queue := by
    rw [queueLog_concat, hView]
    exact h.queue.snoc hStep
  events := throughout_concat.mpr ⟨h.events, hOk⟩

/-- No event: the pending characters are the same. -/
theorem KeyInv.still {log : List KeyEvent} {s s' : Sys} (h : KeyInv log s) (hRing : s'.kbd.Valid)
    (hSame : s'.kbd.pending = s.kbd.pending) (hAgrees : s'.pc.Agrees s.kbd.pending) :
    KeyInv log s' where
  valid := hRing
  agrees := hSame ▸ hAgrees
  queue := hSame ▸ h.queue
  events := h.events

theorem KeyInv.irq1 {log : List KeyEvent} {s : Sys} (h : KeyInv log s) (scancode : UInt8) :
    KeyInv (log ++ (step s (.irq1 scancode)).trace) (step s (.irq1 scancode)).val := by
  obtain ⟨shift, hEq⟩ | ⟨c, hc, hEq⟩ := irq1_cases scancode s.kbd
  · simp only [step, hEq, Traced.val_bind, Traced.trace_bind, Traced.val_pure, Traced.trace_pure,
      List.append_nil]
    exact h.still ⟨h.valid.head_lt, h.valid.tail_lt, h.valid.nonzero⟩ rfl h.agrees
  · obtain ⟨k', hPush, hRoom, hPending, hHead, hTail⟩ | ⟨hPush, hFull⟩ :=
      keyboardPushChar_cases h.valid c
    · simp only [step, hEq, hPush, Traced.val_bind, Traced.trace_bind, Traced.val_pure,
        Traced.trace_pure, List.append_nil]
      have hValid : k'.Valid := by
        refine ⟨hHead, hTail ▸ h.valid.tail_lt, ?_⟩
        intro d hd
        rw [hPending, List.mem_append, List.mem_singleton] at hd
        rcases hd with hd | rfl
        exacts [h.valid.nonzero d hd, hc]
      refine h.move rfl ?_ hc hValid ?_
      · rw [hPending]
        exact .accept c hRoom
      · rw [hPending]
        exact h.agrees.append c
    · simp only [step, hEq, hPush, Traced.val_bind, Traced.trace_bind, Traced.val_pure,
        Traced.trace_pure, List.append_nil]
      refine h.move rfl (.reject c hFull) ?_ h.valid h.agrees
      rw [KeyEvent.Ok, ← h.conservation, List.length_append, hFull]

theorem KeyInv.main {log : List KeyEvent} {s : Sys} (h : KeyInv log s) :
    KeyInv (log ++ (mainStep s).trace) (mainStep s).val := by
  obtain ⟨k, pc⟩ := s
  cases pc with
  | away =>
    simp only [mainStep, Traced.trace_pure, List.append_nil]
    exact h.still h.valid rfl trivial
  | calling =>
    simp only [mainStep]
    split
    · next hEmpty =>
      -- the pop returns 0 and the loop stops
      have hNil : k.pending = [] := h.valid.pending_eq_nil_iff.mpr hEmpty
      have hPopped : KeyInv (log ++ [.popped 0]) ⟨k, .away⟩ := by
        refine h.move rfl ?_ (fun _ => h.eq_of_empty hNil) h.valid trivial
        rw [hNil]
        exact .empty
      have hStopped : KeyInv (log ++ [.popped 0] ++ [.stopped]) ⟨k, .away⟩ := by
        refine ⟨h.valid, trivial, ?_, throughout_concat.mpr ⟨hPopped.events, ?_⟩⟩
        · rw [queueLog_concat]
          simpa [queueEvent] using hPopped.queue
        · exact hPopped.eq_of_empty hNil
      simpa [returned] using hStopped
    · next hSome =>
      simp only [Traced.trace_pure, List.append_nil]
      exact h.still h.valid rfl (mt h.valid.pending_eq_nil_iff.mp hSome)
  | tested =>
    simp only [mainStep, Traced.trace_pure, List.append_nil]
    have hSome : k.head ≠ k.tail := mt h.valid.pending_eq_nil_iff.mpr h.agrees
    exact h.still h.valid rfl ⟨_, h.valid.pending_eq_cons hSome⟩
  | loaded c =>
    obtain ⟨rest, hRest⟩ : ∃ rest, k.pending = c :: rest := h.agrees
    have hSome : k.head ≠ k.tail := by
      intro hEq
      rw [h.valid.pending_eq_nil_iff.mpr hEq] at hRest
      cases hRest
    have hc : c ≠ 0 := h.valid.nonzero c (by rw [hRest]; exact List.mem_cons_self ..)
    -- the slot that was read is still the first one
    have hCons := h.valid.pending_eq_cons hSome
    have hFirst : k.buffer k.tail = c := by
      rw [hRest] at hCons
      exact (List.cons.inj hCons).1.symm
    rw [hFirst] at hCons
    simp only [mainStep, returned, Traced.trace_bind, Traced.trace_tell, Traced.val_bind, if_pos hc,
      Traced.trace_pure, Traced.val_pure, List.append_nil]
    refine h.move (by rw [queueEvent, if_neg hc]) ?_ (absurd · hc) ?_ trivial
    · show BoundedQueue.Step 31 k.pending _ _
      rw [hCons]
      exact .take ..
    · refine ⟨h.valid.head_lt, Ring.next_lt h.valid.tail_lt, ?_⟩
      intro d hd
      exact h.valid.nonzero d (by rw [hCons]; exact List.mem_cons_of_mem _ hd)

theorem keyInv_feed (as : List Action) :
    KeyInv (feed step Sys.boot as).trace (feed step Sys.boot as).val := by
  refine feed_invariant (fun _ => KeyInv) ?_ ?_ as
  · refine ⟨⟨by decide, by decide, ?_⟩, trivial, .nil _, throughout_nil⟩
    intro c hc
    cases hc
  · intro _ log s a h
    cases a with
    | irq1 scancode => exact h.irq1 scancode
    | main => exact h.main

-- ---------------------------------------------------------------------------
-- Main results
-- ---------------------------------------------------------------------------

/-- **Refinement.** Every run of the ring, interrupted at any place, is a run of a bounded
queue with room for 31 characters. -/
theorem keyboard_refines_queue (as : List Action) :
    Run (BoundedQueue.Step 31) [] (queueLog (feed step Sys.boot as).trace)
      (feed step Sys.boot as).val.kbd.pending :=
  (keyInv_feed as).queue

/--
**The keyboard ring is an exact bounded FIFO.** For every sequence of interrupts and of steps
of the drain loop, and with `log` the events so far: the indices are below 32; the characters
returned, followed by those pending, are the characters accepted; and every event of the log
was right when it happened (`KeyEvent.Ok`): only characters other than 0 are stored, one is
dropped only when 31 are pending, and a pop returns 0, and the loop stops, only when none is.
-/
theorem keyboard_ring_fifo (as : List Action) :
    let log := (feed step Sys.boot as).trace
    let k := (feed step Sys.boot as).val.kbd
    k.head < 32 ∧ k.tail < 32
      ∧ returnedChars log ++ k.pending = acceptedChars log
      ∧ Throughout KeyEvent.Ok log := by
  have h := keyInv_feed as
  exact ⟨h.valid.head_lt, h.valid.tail_lt, h.conservation, h.events⟩

/-- Without interrupts the steps of a pop are `keyboard_pop_char`. -/
theorem feed_main_pop (k : Keyboard) (h : k.head ≠ k.tail) (hc : k.buffer k.tail ≠ 0) :
    feed step ⟨k, .calling⟩ [.main, .main, .main] =
      ⟨⟨(keyboardPopChar k).2, .calling⟩, [.popped (keyboardPopChar k).1]⟩ := by
  simp only [feed, List.foldl, step, mainStep, keyboardPopChar, returned, if_neg h, bind, pure,
    hc, ne_eq, not_false_iff, if_true, Traced.tell, List.nil_append, List.append_nil]

end Nao.Idt
