import Nao.NetMonitor.Protocol
import Mathlib.Data.List.Nodup
import Mathlib.Data.List.Perm.Subperm

/-!
# The verdict of a batch

`ping_recv_cb` counts echo replies and looks at nothing else in them. So a batch ends in
`CONNECTED` when four replies have been counted since its first request, whoever sent them:

* `verdict_counts` — what the verdict of every batch of every run is, and that it is the right
  one for a batch that hears replies to its own requests only, each at most once.
* `verdict_by_duplicates` — four copies of one reply, or four strays, give `CONNECTED`;
  a duplicate beside four answers gives `DISCONNECTED`.
-/

namespace Nao.NetMonitor

open SysLib

-- ---------------------------------------------------------------------------
-- What a verdict should say
-- ---------------------------------------------------------------------------

/-- How many requests have been sent; the next one gets this number. -/
def requestCount (log : List Event) : Nat := (seqnos log).length

/-- Each of the last four requests has been answered. -/
def AllAnswered (log : List Event) : Prop :=
  ∀ n ∈ List.range' (requestCount log - 4) 4, .reply (some n) ∈ log

instance (log : List Event) : Decidable (AllAnswered log) := inferInstanceAs (Decidable (∀ _ ∈ _, _))

/-- The verdict at the end of a batch is right. -/
def Event.Right (pre : List Event) : Event → Prop
  | .ended _ status => status = if AllAnswered pre then .connected else .disconnected
  | _ => True

instance (pre : List Event) : (e : Event) → Decidable (e.Right pre)
  | .ended _ _ => inferInstanceAs (Decidable (_ = _))
  | .sent _ _ | .reply _ | .waiting _ => isTrue trivial

-- ---------------------------------------------------------------------------
-- What it does say
-- ---------------------------------------------------------------------------

def Event.isFirst : Event → Bool
  | .sent _ k => k = 1
  | _ => false

/-- The replies counted since the first request of a batch. -/
def heard (log : List Event) : List (Option Nat) :=
  (since Event.isFirst log).filterMap fun | .reply a => some a | _ => none

/-- The verdict goes by the number of replies. -/
def Event.Counts (pre : List Event) : Event → Prop
  | .ended _ status => status = if (heard pre).length = 4 then .connected else .disconnected
  | _ => True

/-- Every reply heard answers a request of the batch that no other one answers. -/
def Clean (log : List Event) : Prop :=
  (heard log).Nodup ∧ ∀ a ∈ heard log, ∃ n, a = some n ∧ requestCount log - 4 ≤ n

section Concat

variable (log : List Event) (t k : Nat) (a : Option Nat) (st : NetStatus)

@[simp] theorem heard_first : heard (log ++ [.sent t 1]) = [] := by
  rw [heard, since_concat]
  rfl

@[simp] theorem heard_next (h : k ≠ 1) : heard (log ++ [.sent t k]) = heard log := by
  simp [heard, since_concat, Event.isFirst, h]

@[simp] theorem heard_reply : heard (log ++ [.reply a]) = heard log ++ [a] := by
  simp [heard, since_concat, Event.isFirst]

@[simp] theorem heard_waiting : heard (log ++ [.waiting t]) = heard log := by
  simp [heard, since_concat, Event.isFirst]

@[simp] theorem requestCount_sent : requestCount (log ++ [.sent t k]) = requestCount log + 1 := by
  simp [requestCount]

@[simp] theorem requestCount_reply : requestCount (log ++ [.reply a]) = requestCount log := by
  simp [requestCount]

@[simp] theorem requestCount_waiting : requestCount (log ++ [.waiting t]) = requestCount log := by
  simp [requestCount]

@[simp] theorem requestCount_ended : requestCount (log ++ [.ended t st]) = requestCount log := by
  simp [requestCount, seqnos]

end Concat

theorem mem_of_mem_heard {log : List Event} {a : Option Nat} (h : a ∈ heard log) :
    .reply a ∈ log := by
  obtain ⟨e, he, hEq⟩ := List.mem_filterMap.mp h
  have hMem : e ∈ log := by
    have hRev := (List.takeWhile_prefix _).subset (List.mem_reverse.mp he)
    exact List.mem_reverse.mp hRev
  cases e <;> cases hEq
  exact hMem

/-- Distinct answers to four requests are four exactly when every request is among them. -/
theorem length_eq_four_iff {as : List (Option Nat)} (first : Nat) (hNodup : as.Nodup)
    (hAs : ∀ a ∈ as, ∃ n, a = some n ∧ first ≤ n ∧ n < first + 4) :
    as.length = 4 ↔ ∀ n ∈ List.range' first 4, some n ∈ as := by
  have hSub : as ⊆ (List.range' first 4).map some := by
    intro a ha
    obtain ⟨n, rfl, hLe, hLt⟩ := hAs a ha
    exact List.mem_map.mpr ⟨n, List.mem_range'_1.mpr ⟨hLe, hLt⟩, rfl⟩
  have hSubperm : as.Subperm ((List.range' first 4).map some) := List.subperm_of_subset hNodup hSub
  constructor
  · intro hLength n hn
    have hPerm := hSubperm.perm_of_length_le (by simp [hLength])
    exact hPerm.mem_iff.mpr (List.mem_map.mpr ⟨n, hn, rfl⟩)
  · intro hAll
    have hTargets : ((List.range' first 4).map some).Nodup :=
      List.Nodup.map (fun _ _ => Option.some.inj) (List.nodup_range' ..)
    have hSuper : (List.range' first 4).map some ⊆ as := by
      intro a ha
      obtain ⟨n, hn, rfl⟩ := List.mem_map.mp ha
      exact hAll n hn
    have hLe := (List.subperm_of_subset hTargets hSuper).length_le
    have hGe := hSubperm.length_le
    simp only [List.length_map, List.length_range'] at hLe hGe
    omega

-- ---------------------------------------------------------------------------
-- The invariant
-- ---------------------------------------------------------------------------

/-- The counters and the log. A reply to a request of the current batch can only have been
heard since the batch began. -/
structure CountInv (log : List Event) (s : Monitor) : Prop where
  four        : s.pingsSent ≤ 4
  requests_eq : s.requests = requestCount log
  sent_le     : s.pingsSent ≤ s.requests
  received_eq : 0 < s.pingsSent → s.pingsReceived = (heard log).length
  answers_lt  : ∀ n, .reply (some n) ∈ log → n < s.requests
  current     : 0 < s.pingsSent → ∀ n, .reply (some n) ∈ log → s.requests - s.pingsSent ≤ n →
    some n ∈ heard log
  counts      : Throughout (fun pre e => e.Counts pre ∧ (Clean pre → e.Right pre)) log

section Step

variable {log : List Event} {s : Monitor}

/-- When all four requests of a batch are out, a clean batch is judged rightly. -/
theorem CountInv.right (h : CountInv log s) (hSent : s.pingsSent = 4) (hClean : Clean log) :
    (heard log).length = 4 ↔ AllAnswered log := by
  have hReq : s.requests = requestCount log := h.requests_eq
  have hLe := h.sent_le
  rw [length_eq_four_iff (requestCount log - 4) hClean.1]
  · refine forall₂_congr fun n hn => ⟨mem_of_mem_heard, fun hMem => ?_⟩
    have hBatch := (List.mem_range'_1.mp hn).1
    exact h.current (by omega) n hMem (by omega)
  · intro a ha
    obtain ⟨n, rfl, hn⟩ := hClean.2 a ha
    have hLt := h.answers_lt n (mem_of_mem_heard ha)
    exact ⟨n, rfl, hn, by omega⟩

theorem CountInv.update (h : CountInv log s) (t : BitVec 32) (alloc : Bool) :
    CountInv (log ++ (updateNetworkMonitor t alloc s).trace) (updateNetworkMonitor t alloc s).val := by
  have hReaction := reaction t alloc s
  generalize updateNetworkMonitor t alloc s = r at hReaction ⊢
  cases hReaction with
  | nothing print packet received hReceived =>
    rw [Traced.trace_pure, List.append_nil]
    refine ⟨h.four, h.requests_eq, h.sent_le, ?_, h.answers_lt, h.current, h.counts⟩
    intro hSent
    rcases hReceived with rfl | hZero
    · exact h.received_eq hSent
    · exact absurd hZero (Nat.ne_of_gt hSent)
  | first print packet hSent hDue =>
    refine ⟨by simp, by simp [h.requests_eq], by simp, by simp, ?_, ?_,
      throughout_concat.mpr ⟨h.counts, trivial, fun _ => trivial⟩⟩
    · intro n hn
      have hLt := h.answers_lt n (by simpa using hn)
      exact Nat.lt_succ_of_lt hLt
    · -- a reply to a request of the new batch cannot have come yet
      intro _ n hn hLe
      have hLt := h.answers_lt n (by simpa using hn)
      exact absurd hLe (by simpa using hLt)
  | next print packet hSent hLess =>
    have hNext : s.pingsSent + 1 ≠ 1 := by omega
    refine ⟨hLess, by simp [h.requests_eq], Nat.succ_le_succ h.sent_le, ?_, ?_, ?_,
      throughout_concat.mpr ⟨h.counts, trivial, fun _ => trivial⟩⟩
    · intro _
      rw [heard_next _ _ _ hNext]
      exact h.received_eq hSent
    · intro n hn
      have hLt := h.answers_lt n (by simpa using hn)
      exact Nat.lt_succ_of_lt hLt
    · intro _ n hn hLe
      rw [heard_next _ _ _ hNext]
      exact h.current hSent n (by simpa using hn) (by simpa using hLe)
  | wait print packet hSent hWait =>
    refine ⟨h.four, by simpa using h.requests_eq, h.sent_le, ?_, ?_, ?_,
      throughout_concat.mpr ⟨h.counts, trivial, fun _ => trivial⟩⟩
    · rw [heard_waiting]
      exact h.received_eq
    · intro n hn
      exact h.answers_lt n (by simpa using hn)
    · intro hPos n hn
      rw [heard_waiting]
      exact h.current hPos n (by simpa using hn)
  | finish print packet status hSent hWait hStatus hLate =>
    have hFour : s.pingsSent = 4 := Nat.le_antisymm h.four hSent
    have hEq : s.pingsReceived = (heard log).length := h.received_eq (by omega)
    refine ⟨Nat.zero_le _, by simpa using h.requests_eq, Nat.zero_le _, fun hPos => absurd hPos (by simp), ?_,
      fun hPos => absurd hPos (by simp), throughout_concat.mpr ⟨h.counts, ?_, ?_⟩⟩
    · intro n hn
      exact h.answers_lt n (by simpa using hn)
    · rw [Event.Counts, ← hEq]
      exact hStatus
    · intro hClean
      rw [Event.Right, ← if_congr (h.right hFour hClean) rfl rfl, ← hEq]
      exact hStatus

theorem CountInv.deliver (h : CountInv log s) (p : Pbuf) :
    CountInv (log ++ (pingRecvCb p s).trace) (pingRecvCb p s).val := by
  have hStill : CountInv (log ++ []) s := by rwa [List.append_nil]
  unfold pingRecvCb
  split
  · split
    · simp only [Traced.trace_bind, Traced.trace_tell, Traced.val_bind, Traced.trace_pure,
        List.append_nil, Traced.val_pure]
      refine ⟨h.four, by simpa using h.requests_eq, h.sent_le, ?_, ?_, ?_,
        throughout_concat.mpr ⟨h.counts, trivial, fun _ => trivial⟩⟩
      · intro hPos
        rw [heard_reply, List.length_append, h.received_eq hPos]
        rfl
      · intro n hn
        rcases List.mem_append.mp hn with hn | hn
        · exact h.answers_lt n hn
        · have hFilter := Event.reply.inj (List.mem_singleton.mp hn)
          simpa using (Option.filter_eq_some_iff.mp hFilter.symm).2
      · intro hPos n hn hLe
        rw [heard_reply, List.mem_append]
        rcases List.mem_append.mp hn with hn | hn
        · exact .inl (h.current hPos n hn hLe)
        · exact .inr (List.mem_singleton.mpr (Event.reply.inj (List.mem_singleton.mp hn)))
    · exact hStill
  · exact hStill

end Step

theorem countInv_feed (is : List Input) :
    CountInv (feed step Monitor.boot is).trace (feed step Monitor.boot is).val := by
  refine feed_invariant (fun _ => CountInv) ?_ ?_ is
  · exact ⟨by decide, rfl, by decide, by decide, by simp, by simp, throughout_nil⟩
  · intro _ log s i h
    cases i with
    | update t alloc => exact h.update t alloc
    | deliver p =>
      rw [step]
      split
      · exact h.deliver p
      · rwa [Traced.trace_pure, List.append_nil]

-- ---------------------------------------------------------------------------
-- Main result
-- ---------------------------------------------------------------------------

/--
**What the verdict of a batch says.** In every run, whatever the ticks and whatever arrives, a
batch ends in `CONNECTED` when exactly four echo replies have been counted since its first
request, and in `DISCONNECTED` otherwise. If the replies heard in the batch answer its own
requests, each at most once, this is the right verdict: `CONNECTED` if and only if each of the
four requests has been answered.
-/
theorem verdict_counts (is : List Input) :
    Throughout (fun pre e => e.Counts pre ∧ (Clean pre → e.Right pre))
      (feed step Monitor.boot is).trace :=
  (countInv_feed is).counts

/-- A batch at ticks 1 to 62, or to 200 if it fails, that hears the given replies. -/
def batchRun (answers : List (Option Nat)) : List Input :=
  [.update 1 true, .update 20 true, .update 40 true, .update 60 true]
    ++ answers.map (fun a => .deliver ⟨28, 0, a⟩)
    ++ [.update 61 true, .update 62 true, .update 200 true]

theorem ordered_batchRun (answers : List (Option Nat)) : Ordered (batchRun answers) := by
  have hTicks : ticks (batchRun answers) = [1, 20, 40, 60, 61, 62, 200] := by
    simp [batchRun, ticks, List.filterMap_map]
  exact ⟨by rw [hTicks]; decide, by rw [hTicks]; decide⟩

/-- Four copies of the reply to the first request connect a batch whose other requests have no
answer, so do four replies to somebody else; and a second copy of one reply disconnects a batch
whose requests have all been answered. -/
theorem verdict_by_duplicates :
    (∀ answers, Ordered (batchRun answers))
      ∧ (feed step Monitor.boot (batchRun [some 0, some 0, some 0, some 0])).val.status = .connected
      ∧ ¬ Throughout Event.Right
          (feed step Monitor.boot (batchRun [some 0, some 0, some 0, some 0])).trace
      ∧ (feed step Monitor.boot (batchRun [none, none, none, none])).val.status = .connected
      ∧ ¬ Throughout Event.Right
          (feed step Monitor.boot (batchRun [none, none, none, none])).trace
      ∧ (feed step Monitor.boot (batchRun [some 0, some 1, some 2, some 3, some 3])).val.status
          = .disconnected
      ∧ ¬ Throughout Event.Right
          (feed step Monitor.boot (batchRun [some 0, some 1, some 2, some 3, some 3])).trace :=
  ⟨ordered_batchRun, by decide⟩

end Nao.NetMonitor
