import Nao.NetMonitor.Definitions

/-!
# The ping batch protocol

What `update_network_monitor` does over whole runs, with the timer's ticks positive and in
order, whatever packets arrive and whichever allocations fail. The state of the protocol is
spread over the monitor's counters and ticks, where 0 stands for "not set"; `Inv` ties them to
the log: how many requests of the current batch are out, when the wait began, when the last
batch ended.

* `Reaction` — everything a call can do, guards included; `reaction` says that it does.
* `ping_batch_protocol` — at most four requests are out, numbered 1, 2, 3, 4; the status
  changes at the end of a batch only; a batch fails only after a wait of more than 100 ticks;
  batches are at least 270 ticks apart.
-/

namespace Nao.NetMonitor

open SysLib

-- ---------------------------------------------------------------------------
-- What a call can do
-- ---------------------------------------------------------------------------

/-- The bookkeeping that no later decision about a batch reads. -/
def Monitor.touched (s : Monitor) (print packet : BitVec 32) : Monitor :=
  { s with pingPcb := true, lastStatusPrintTick := print, lastPacketSentTick := packet }

@[simp] theorem touched_pingsSent (s : Monitor) (p q : BitVec 32) :
    (s.touched p q).pingsSent = s.pingsSent := rfl

@[simp] theorem touched_lastPingTick (s : Monitor) (p q : BitVec 32) :
    (s.touched p q).lastPingTick = s.lastPingTick := rfl

@[simp] theorem touched_requests (s : Monitor) (p q : BitVec 32) :
    (s.touched p q).requests = s.requests := rfl

/-- A new batch is due. -/
def Due (t : BitVec 32) (s : Monitor) : Prop :=
  msSinceLastBatch t s ≥ 15000 ∨ s.lastPingTick = 0

/-- The outcomes of `update_network_monitor` at tick `t` in state `s`. -/
inductive Reaction (t : BitVec 32) (s : Monitor) : Traced Event Monitor → Prop where
  | nothing (print packet : BitVec 32) (received : Nat)
      (hReceived : received = s.pingsReceived ∨ s.pingsSent = 0) :
      Reaction t s (pure { s.touched print packet with pingsReceived := received })
  | first (print packet : BitVec 32) (hSent : s.pingsSent = 0) (hDue : Due t s) :
      Reaction t s ⟨{ s.touched print packet with
        pingsReceived := 0, pingsSent := 1, requests := s.requests + 1 }, [.sent t.toNat 1]⟩
  | next (print packet : BitVec 32) (hSent : 0 < s.pingsSent) (hLess : s.pingsSent < 4) :
      Reaction t s ⟨{ s.touched print packet with
        pingsSent := s.pingsSent + 1, requests := s.requests + 1 },
        [.sent t.toNat (s.pingsSent + 1)]⟩
  | wait (print packet : BitVec 32) (hSent : 4 ≤ s.pingsSent) (hWait : s.waitStart = 0) :
      Reaction t s ⟨{ s.touched print packet with waitStart := t }, [.waiting t.toNat]⟩
  | finish (print packet : BitVec 32) (status : NetStatus) (hSent : 4 ≤ s.pingsSent)
      (hWait : s.waitStart ≠ 0)
      (hStatus : status = if s.pingsReceived = 4 then .connected else .disconnected)
      (hLate : status = .disconnected → t - s.waitStart > 100) :
      Reaction t s ⟨{ s.touched print packet with
        status, pingsSent := 0, waitStart := 0, lastPingTick := t }, [.ended t.toNat status]⟩

/-- `last_status_print_tick` is written by the calls that would print the status. -/
theorem statusPrint_eq (t ticks : BitVec 32) (s : Monitor) :
    ∃ print, statusPrint t ticks { s with pingPcb := true } = s.touched print s.lastPacketSentTick := by
  unfold statusPrint
  split
  · exact ⟨t, rfl⟩
  · exact ⟨s.lastStatusPrintTick, rfl⟩

theorem reaction (t : BitVec 32) (alloc : Bool) (s : Monitor) :
    Reaction t s (updateNetworkMonitor t alloc s) := by
  unfold updateNetworkMonitor
  dsimp only
  split
  · next hSent =>
    obtain ⟨print, hPrint⟩ : ∃ print,
        (if s.lastPingTick ≠ 0 then statusPrint t 18 { s with pingPcb := true }
          else { s with pingPcb := true }) = s.touched print s.lastPacketSentTick := by
      split
      · exact statusPrint_eq t 18 s
      · exact ⟨s.lastStatusPrintTick, rfl⟩
    rw [hPrint]
    split
    · next hDue =>
      cases alloc with
      | true =>
        have h := Reaction.first print s.lastPacketSentTick hSent hDue
        simpa [sendPingPacket, Monitor.touched, hSent, bind, pure, Traced.tell] using h
      | false => exact .nothing print _ 0 (.inr hSent)
    · exact .nothing print _ s.pingsReceived (.inl rfl)
  · next hSent =>
    split
    · next hLess =>
      split
      · cases alloc with
        | true => exact .next s.lastStatusPrintTick t (by omega) hLess
        | false => exact .nothing s.lastStatusPrintTick t s.pingsReceived (.inl rfl)
      · exact .nothing s.lastStatusPrintTick _ s.pingsReceived (.inl rfl)
    · next hFour =>
      have hFour : 4 ≤ s.pingsSent := by omega
      split
      · next hWait => exact .wait s.lastStatusPrintTick _ hFour hWait
      · next hWait =>
        obtain ⟨print, hPrint⟩ := statusPrint_eq t 5 s
        rw [hPrint]
        split
        · next hAll =>
          refine .finish print _ .connected hFour hWait (if_pos hAll).symm ?_
          intro hStatus
          cases hStatus
        · next hMissing =>
          split
          · next hLate =>
            exact .finish print _ .disconnected hFour hWait (if_neg hMissing).symm fun _ => hLate
          · exact .nothing print _ s.pingsReceived (.inl rfl)

-- ---------------------------------------------------------------------------
-- The log of a run
-- ---------------------------------------------------------------------------

/-- The ticks at which `update_network_monitor` is called. -/
def ticks (is : List Input) : List Nat :=
  is.filterMap fun | .update tick _ => some tick.toNat | .deliver _ => none

/-- The timer's ticks: positive and in order, so that they do not wrap. -/
structure Ordered (is : List Input) : Prop where
  positive : ∀ t ∈ ticks is, 0 < t
  sorted   : (ticks is).Pairwise (· ≤ ·)

def Event.isEnd : Event → Bool
  | .ended _ _ => true
  | _ => false

/-- The events since the last batch ended. -/
def batch (log : List Event) : List Event := since Event.isEnd log

/-- When the last batch ended. -/
def lastEnd (log : List Event) : Option Nat :=
  latest (fun | .ended t _ => some t | _ => none) log

/-- The sequence numbers of the requests. -/
def seqnos (log : List Event) : List Nat :=
  log.filterMap fun | .sent _ k => some k | _ => none

/-- The ticks at which a wait began. -/
def waits (log : List Event) : List Nat :=
  log.filterMap fun | .waiting t => some t | _ => none

/-- What the protocol demands of an event, given the log before it. -/
def Event.Ok (pre : List Event) : Event → Prop
  | .sent t k => 1 ≤ k ∧ k ≤ 4 ∧ seqnos (batch pre) = List.range' 1 (k - 1)
      ∧ (k = 1 → ∀ t₀, lastEnd pre = some t₀ → t₀ + 270 ≤ t)
  | .reply _ => True
  | .waiting _ => seqnos (batch pre) = [1, 2, 3, 4]
  | .ended t status => seqnos (batch pre) = [1, 2, 3, 4]
      ∧ (status = .disconnected → ∃ t₀, waits (batch pre) = [t₀] ∧ t₀ + 100 < t)

section Concat

variable (log : List Event) (t k : Nat) (a : Option Nat) (st : NetStatus)

@[simp] theorem batch_sent : batch (log ++ [.sent t k]) = batch log ++ [.sent t k] := since_concat ..
@[simp] theorem batch_reply : batch (log ++ [.reply a]) = batch log ++ [.reply a] := since_concat ..
@[simp] theorem batch_waiting : batch (log ++ [.waiting t]) = batch log ++ [.waiting t] :=
  since_concat ..
@[simp] theorem batch_ended : batch (log ++ [.ended t st]) = [] := since_concat ..

@[simp] theorem lastEnd_sent : lastEnd (log ++ [.sent t k]) = lastEnd log := latest_concat ..
@[simp] theorem lastEnd_reply : lastEnd (log ++ [.reply a]) = lastEnd log := latest_concat ..
@[simp] theorem lastEnd_waiting : lastEnd (log ++ [.waiting t]) = lastEnd log := latest_concat ..
@[simp] theorem lastEnd_ended : lastEnd (log ++ [.ended t st]) = some t := latest_concat ..

@[simp] theorem seqnos_sent : seqnos [.sent t k] = [k] := rfl
@[simp] theorem seqnos_reply : seqnos [.reply a] = [] := rfl
@[simp] theorem seqnos_waiting : seqnos [.waiting t] = [] := rfl

@[simp] theorem waits_sent : waits [.sent t k] = [] := rfl
@[simp] theorem waits_reply : waits [.reply a] = [] := rfl
end Concat

@[simp] theorem seqnos_append (log log' : List Event) :
    seqnos (log ++ log') = seqnos log ++ seqnos log' := List.filterMap_append

@[simp] theorem waits_append (log log' : List Event) :
    waits (log ++ log') = waits log ++ waits log' := List.filterMap_append

-- ---------------------------------------------------------------------------
-- The invariant
-- ---------------------------------------------------------------------------

/-- The monitor's counters and ticks say what the log says. -/
structure Inv (is : List Input) (log : List Event) (s : Monitor) : Prop where
  sent_le    : s.pingsSent ≤ 4
  seqnos_eq  : seqnos (batch log) = List.range' 1 s.pingsSent
  lastEnd_eq : s.lastPingTick.toNat = (lastEnd log).getD 0
  lastEnd_in : ∀ t ∈ lastEnd log, t ∈ ticks is
  waits_eq   : waits (batch log) = if s.waitStart = 0 then [] else [s.waitStart.toNat]
  waiting    : s.waitStart ≠ 0 → s.pingsSent = 4 ∧ s.waitStart.toNat ∈ ticks is
  events     : Throughout Event.Ok log

theorem inv_boot : Inv [] [] Monitor.boot where
  sent_le := by decide
  seqnos_eq := rfl
  lastEnd_eq := rfl
  lastEnd_in := by simp [lastEnd, latest]
  waits_eq := rfl
  waiting := by decide
  events := throughout_nil

theorem ticks_concat_update (is : List Input) (t : BitVec 32) (alloc : Bool) :
    ticks (is ++ [.update t alloc]) = ticks is ++ [t.toNat] := by
  simp [ticks]

theorem mem_ticks_concat {is : List Input} {t : Nat} (h : t ∈ ticks is) (i : Input) :
    t ∈ ticks (is ++ [i]) := by
  rw [ticks, List.filterMap_append]
  exact List.mem_append_left _ h

theorem Ordered.of_concat {is : List Input} {i : Input} (h : Ordered (is ++ [i])) : Ordered is := by
  obtain ⟨hPos, hSorted⟩ := h
  rw [ticks, List.filterMap_append] at hPos hSorted
  exact ⟨fun t ht => hPos t (List.mem_append_left _ ht), (List.pairwise_append.mp hSorted).1⟩

/-- A call comes after all earlier ones. -/
theorem Ordered.le {is : List Input} {t : BitVec 32} {alloc : Bool}
    (h : Ordered (is ++ [.update t alloc])) : 0 < t.toNat ∧ ∀ t₀ ∈ ticks is, t₀ ≤ t.toNat := by
  obtain ⟨hPos, hSorted⟩ := h
  rw [ticks_concat_update] at hPos hSorted
  refine ⟨hPos _ (by simp), ?_⟩
  intro t₀ ht₀
  exact (List.pairwise_append.mp hSorted).2.2 t₀ ht₀ _ (by simp)

/-- The scaled 32-bit test for a new batch, in ticks: it may wrap, but never to pass early. -/
theorem Inv.due {is : List Input} {log : List Event} {s : Monitor} {t : BitVec 32}
    (h : Inv is log s) (hPos : ∀ t₀ ∈ ticks is, 0 < t₀) (hLe : ∀ t₀ ∈ ticks is, t₀ ≤ t.toNat)
    (hDue : Due t s) : ∀ t₀, lastEnd log = some t₀ → t₀ + 270 ≤ t.toNat := by
  intro t₀ ht₀
  have hTick : s.lastPingTick.toNat = t₀ := by rw [h.lastEnd_eq, ht₀, Option.getD_some]
  have hPos₀ := hPos t₀ (h.lastEnd_in t₀ ht₀)
  have hLe₀ := hLe t₀ (h.lastEnd_in t₀ ht₀)
  have hSet : s.lastPingTick ≠ 0 := by
    intro hZero
    rw [hZero] at hTick
    exact absurd hTick (Nat.ne_of_lt hPos₀)
  have hMs : msSinceLastBatch t s ≥ 15000 := hDue.resolve_right hSet
  rw [msSinceLastBatch, if_neg hSet, ge_iff_le, BitVec.le_def, BitVec.toNat_udiv, BitVec.toNat_mul,
    BitVec.toNat_sub_of_le (BitVec.le_def.mpr (by omega)), hTick] at hMs
  change 15000 ≤ (t.toNat - t₀) * 1000 % 2 ^ 32 / 18 at hMs
  have hMod : (t.toNat - t₀) * 1000 % 2 ^ 32 ≤ (t.toNat - t₀) * 1000 := Nat.mod_le ..
  omega

section Step

variable {is : List Input} {log : List Event} {s s' : Monitor}

/-- Nothing is logged, and what the log is about stays. -/
theorem Inv.quiet (h : Inv is log s) (i : Input) (hSent : s'.pingsSent = s.pingsSent)
    (hPing : s'.lastPingTick = s.lastPingTick) (hWait : s'.waitStart = s.waitStart) :
    Inv (is ++ [i]) log s' where
  sent_le := hSent ▸ h.sent_le
  seqnos_eq := hSent ▸ h.seqnos_eq
  lastEnd_eq := hPing ▸ h.lastEnd_eq
  lastEnd_in t ht := mem_ticks_concat (h.lastEnd_in t ht) i
  waits_eq := hWait ▸ h.waits_eq
  waiting hw := by
    rw [hWait] at hw ⊢
    exact ⟨hSent ▸ (h.waiting hw).1, mem_ticks_concat (h.waiting hw).2 i⟩
  events := h.events

/-- A counted reply says nothing about the batch. -/
theorem Inv.reply (h : Inv is log s) (a : Option Nat) : Inv is (log ++ [.reply a]) s where
  sent_le := h.sent_le
  seqnos_eq := by simpa using h.seqnos_eq
  lastEnd_eq := by simpa using h.lastEnd_eq
  lastEnd_in := by simpa using h.lastEnd_in
  waits_eq := by simpa using h.waits_eq
  waiting := h.waiting
  events := throughout_concat.mpr ⟨h.events, trivial⟩

/-- The next request of the batch. -/
theorem Inv.sent (h : Inv is log s) (i : Input) (hLess : s.pingsSent < 4) {t : Nat}
    (hOk : s.pingsSent = 0 → ∀ t₀, lastEnd log = some t₀ → t₀ + 270 ≤ t)
    (hSent : s'.pingsSent = s.pingsSent + 1) (hPing : s'.lastPingTick = s.lastPingTick)
    (hWait : s'.waitStart = s.waitStart) :
    Inv (is ++ [i]) (log ++ [.sent t (s.pingsSent + 1)]) s' := by
  have hNot : s.waitStart = 0 := by
    by_contra hw
    have hFour := (h.waiting hw).1
    omega
  refine ⟨by omega, ?_, by simpa [hPing] using h.lastEnd_eq, ?_, by simpa [hWait] using h.waits_eq,
    fun hw => absurd (hWait.trans hNot) hw, throughout_concat.mpr ⟨h.events, ?_⟩⟩
  · rw [batch_sent, seqnos_append, h.seqnos_eq, hSent, List.range'_concat, seqnos_sent]
    simp [Nat.add_comm]
  · intro t₀ ht₀
    rw [lastEnd_sent] at ht₀
    exact mem_ticks_concat (h.lastEnd_in t₀ ht₀) i
  · exact ⟨by omega, by omega, h.seqnos_eq, fun hk => hOk (by omega)⟩

theorem Inv.four (h : Inv is log s) (hSent : 4 ≤ s.pingsSent) : seqnos (batch log) = [1, 2, 3, 4] := by
  rw [h.seqnos_eq, Nat.le_antisymm h.sent_le hSent]
  rfl

theorem Inv.update {t : BitVec 32} {alloc : Bool} (h : Inv is log s)
    (hOrd : Ordered (is ++ [.update t alloc])) :
    Inv (is ++ [.update t alloc]) (log ++ (updateNetworkMonitor t alloc s).trace)
      (updateNetworkMonitor t alloc s).val := by
  obtain ⟨hPos, hLe⟩ := hOrd.le
  have hNow : t.toNat ∈ ticks (is ++ [.update t alloc]) := by simp [ticks_concat_update]
  have hSet : t ≠ 0 := by
    rintro rfl
    exact absurd hPos (by decide)
  have hReaction := reaction t alloc s
  generalize updateNetworkMonitor t alloc s = r at hReaction ⊢
  cases hReaction with
  | nothing print packet received _ =>
    rw [Traced.trace_pure, List.append_nil]
    exact h.quiet _ rfl rfl rfl
  | first print packet hSent hDue =>
    have hSent' : Inv _ (log ++ [.sent t.toNat (s.pingsSent + 1)]) { s.touched print packet with
        pingsReceived := 0, pingsSent := 1, requests := s.requests + 1 } :=
      h.sent (.update t alloc) (by omega) (fun _ => h.due hOrd.of_concat.positive hLe hDue)
        (by rw [hSent]) rfl rfl
    rwa [hSent] at hSent'
  | next print packet hSent hLess =>
    exact h.sent _ hLess (fun h0 => absurd h0 (by omega)) rfl rfl rfl
  | wait print packet hSent hWait =>
    have hNone : waits (batch log) = [] := by rw [h.waits_eq, if_pos hWait]
    refine ⟨h.sent_le, by simpa using h.seqnos_eq, by simpa using h.lastEnd_eq, ?_, ?_, fun _ => ?_,
      throughout_concat.mpr ⟨h.events, h.four hSent⟩⟩
    · intro t₀ ht₀
      rw [lastEnd_waiting] at ht₀
      exact mem_ticks_concat (h.lastEnd_in t₀ ht₀) _
    · rw [batch_waiting, waits_append, hNone, if_neg hSet]
      rfl
    · exact ⟨Nat.le_antisymm h.sent_le hSent, hNow⟩
  | finish print packet status hSent hWait hStatus hLate =>
    refine ⟨Nat.zero_le _, by simp [seqnos], by simp, by simpa using hNow, by simp [waits],
      fun hw => absurd rfl hw, throughout_concat.mpr ⟨h.events, h.four hSent, ?_⟩⟩
    intro hDisconnected
    refine ⟨s.waitStart.toNat, by rw [h.waits_eq, if_neg hWait], ?_⟩
    have hWaitLe := hLe _ (h.waiting hWait).2
    have hGt : t - s.waitStart > 100 := hLate hDisconnected
    rw [gt_iff_lt, BitVec.lt_def, BitVec.toNat_sub_of_le (BitVec.le_def.mpr hWaitLe)] at hGt
    change 100 < t.toNat - s.waitStart.toNat at hGt
    omega

theorem Inv.step (h : Inv is log s) {i : Input} (hOrd : Ordered (is ++ [i])) :
    Inv (is ++ [i]) (log ++ (step s i).trace) (step s i).val := by
  cases i with
  | update t alloc => exact h.update hOrd
  | deliver p =>
    have hStill : Inv (is ++ [.deliver p]) (log ++ []) s := by
      rw [List.append_nil]
      exact h.quiet _ rfl rfl rfl
    have hCounted : Inv (is ++ [.deliver p]) log { s with pingsReceived := s.pingsReceived + 1 } :=
      h.quiet _ rfl rfl rfl
    simp only [NetMonitor.step, pingRecvCb]
    split
    · split
      · split
        · exact hCounted.reply _
        · exact hStill
      · exact hStill
    · exact hStill

end Step

theorem inv_feed {is : List Input} (h : Ordered is) :
    Inv is (feed step Monitor.boot is).trace (feed step Monitor.boot is).val := by
  refine feed_invariant (fun is log s => Ordered is → Inv is log s) (fun _ => inv_boot) ?_ is h
  intro is log s i ih hOrd
  exact (ih hOrd.of_concat).step hOrd

-- ---------------------------------------------------------------------------
-- Main result
-- ---------------------------------------------------------------------------

/-- The status changes when a batch ends, and not otherwise. -/
theorem status_changes {s : Monitor} {i : Input} (h : (step s i).val.status ≠ s.status) :
    4 ≤ s.pingsSent ∧ (∃ t, (step s i).trace = [.ended t (step s i).val.status])
      ∧ (step s i).val.pingsSent = 0 ∧ (step s i).val.waitStart = 0 := by
  cases i with
  | update t alloc =>
    have hReaction := reaction t alloc s
    simp only [step] at h ⊢
    generalize updateNetworkMonitor t alloc s = r at h hReaction ⊢
    cases hReaction with
    | finish print packet status hSent => exact ⟨hSent, ⟨t.toNat, rfl⟩, rfl, rfl⟩
    | _ => exact absurd rfl h
  | deliver p =>
    exfalso
    simp only [step, pingRecvCb] at h
    split at h
    · split at h
      · split at h <;> exact h rfl
      · exact h rfl
    · exact h rfl

/--
**The ping batch protocol.** For ticks that are positive and in order, any packets and any
allocation failures: at most four requests are out; every event of the log obeys the protocol
(`Event.Ok`): within a batch the requests are numbered 1, 2, 3, 4 in this order, a batch ends
after all four, in `DISCONNECTED` only more than 100 ticks after its wait began, and the first
request of a batch comes at least 270 ticks after the end of the one before; and whenever the
status changes a batch ends, with `pings_sent` and `wait_start` back at 0.
-/
theorem ping_batch_protocol {is : List Input} (hOrd : Ordered is) :
    let s := (feed step Monitor.boot is).val
    s.pingsSent ≤ 4
      ∧ Throughout Event.Ok (feed step Monitor.boot is).trace
      ∧ ∀ i, (step s i).val.status ≠ s.status →
          s.pingsSent = 4 ∧ (∃ t, (step s i).trace = [.ended t (step s i).val.status])
            ∧ (step s i).val.pingsSent = 0 ∧ (step s i).val.waitStart = 0 := by
  intro s
  have h := inv_feed hOrd
  refine ⟨h.sent_le, h.events, ?_⟩
  intro i hChange
  obtain ⟨hSent, hEnded, hReset⟩ := status_changes hChange
  exact ⟨Nat.le_antisymm h.sent_le hSent, hEnded, hReset⟩

/-- A batch in which nobody answers and one allocation fails, and the start of the next one. -/
def unansweredRun : List Input :=
  [.update 1 true, .update 20 false, .update 36 true, .update 52 true, .update 68 true,
    .update 69 true, .update 170 true, .update 439 true, .update 440 true]

theorem ping_batch_protocol_unanswered :
    (feed step Monitor.boot unansweredRun).trace
        = [.sent 1 1, .sent 36 2, .sent 52 3, .sent 68 4, .waiting 69, .ended 170 .disconnected,
            .sent 440 1]
      ∧ Throughout Event.Ok (feed step Monitor.boot unansweredRun).trace :=
  ⟨by decide, (ping_batch_protocol ⟨by decide, by decide⟩).2.1⟩

end Nao.NetMonitor
