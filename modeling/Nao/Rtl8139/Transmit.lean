import Nao.Lib.ByteRing
import Nao.Lib.Lts
import Nao.Rtl8139.Receive

/-!
# RTL8139 driver — the transmit ring

`low_level_output` flattens a pbuf chain on the stack and hands it to
`nic_transmit_packet`, which copies it into the next of four buffers and writes the
buffer's address and the length to the card. The card reads a submitted buffer at a
time of its own choosing, in the order of submission; nothing in the driver waits
for that. The four buffers are again a byte ring (`Lib/ByteRing.lean`), of 1536
bytes a record.

## Results

* `gather_eq`            — what `low_level_output` collects from a chain.
* `TxInv.step_output`, `TxInv.step_complete` — with a buffer to spare, a call
  appends to the queue of frames in flight and a completion takes the oldest off.
* `transmit_ring_exact`  — runs in which every call finds a buffer to spare put
  exactly the submitted frames on the wire; four frames in flight are one too many.
* `transmit_burst_overwrites` — five sends before the first completion.
-/

namespace Nao.Rtl8139

open SysLib SysLib.ByteRing

-- ---------------------------------------------------------------------------
-- The card's side
-- ---------------------------------------------------------------------------

/-- Transmit side of the card: the TXADDR registers, the submitted descriptors with
their sizes, oldest first, and the frames already sent. -/
structure TxNic where
  txAddr : Nat → Nat
  queue  : List (Nat × Nat)
  wire   : List (List UInt8)

/-- A 32-bit register write. A write to TXSTATUSn submits descriptor `n`. -/
def TxNic.outl (nic : TxNic) (reg val : Nat) : TxNic :=
  if regTxAddr0 ≤ reg ∧ reg < regTxAddr0 + 16 then
    { nic with txAddr := Function.update nic.txAddr ((reg - regTxAddr0) / 4) val }
  else if regTxStatus0 ≤ reg ∧ reg < regTxStatus0 + 16 then
    { nic with queue := nic.queue ++ [((reg - regTxStatus0) / 4, val % 2 ^ 13)] }
  else nic

structure Tx where
  drv : TxDriver
  nic : TxNic

def Tx.boot (mem : Mem) : Tx :=
  { drv := { mem := mem, txCounter := 0 }
    nic := { txAddr := fun _ => 0, queue := [], wire := [] } }

/-- The bytes the card finds now in the buffer of a submitted descriptor. -/
def Tx.fetch (s : Tx) (e : Nat × Nat) : List UInt8 := s.drv.mem.slice (s.nic.txAddr e.1) e.2

/-- A call of `low_level_output`, with its register writes taken in by the card. -/
def Tx.output (K : Card) (s : Tx) (chain : List (List UInt8)) : Tx :=
  let (drv, writes) := lowLevelOutput K s.drv chain
  { drv := drv, nic := writes.foldl (fun nic w => nic.outl w.1 w.2) s.nic }

inductive TxAct where
  | output (chain : List (List UInt8))
  | complete

/-- Calls with chains of 1 to 1518 bytes, and completions of the oldest submitted
descriptor, in any order. -/
inductive TxStep (K : Card) : Tx → TxAct → Tx → Prop where
  | output {s : Tx} {chain : List (List UInt8)} (hMin : 1 ≤ chain.flatten.length)
      (hMax : chain.flatten.length ≤ 1518) :
      TxStep K s (.output chain) (s.output K chain)
  | complete {s : Tx} {e : Nat × Nat} {rest : List (Nat × Nat)}
      (hQueue : s.nic.queue = e :: rest) :
      TxStep K s .complete
        { s with nic := { s.nic with queue := rest, wire := s.nic.wire ++ [s.fetch e] } }

/-- A call is made only while fewer than four frames are in flight. -/
def Spare (s : Tx) : TxAct → Prop
  | .output _ => s.nic.queue.length < 4
  | .complete => True

instance (s : Tx) : (a : TxAct) → Decidable (Spare s a)
  | .output _ => inferInstanceAs (Decidable (_ < _))
  | .complete => inferInstanceAs (Decidable True)

def SpareStep (K : Card) (s : Tx) (a : TxAct) (s' : Tx) : Prop := TxStep K s a s' ∧ Spare s a

/-- The payloads submitted, in call order. -/
def submitted : List TxAct → List (List UInt8)
  | [] => []
  | .output chain :: acts => chain.flatten :: submitted acts
  | .complete :: acts => submitted acts

theorem submitted_append (as bs : List TxAct) :
    submitted (as ++ bs) = submitted as ++ submitted bs := by
  induction as with
  | nil => rfl
  | cons a as ih => cases a <;> simp [submitted, ih]

-- ---------------------------------------------------------------------------
-- What a call does
-- ---------------------------------------------------------------------------

theorem foldl_gatherByte {acc : List UInt8} (hAcc : acc.length ≤ txStackSize)
    (payload : List UInt8) :
    payload.foldl gatherByte acc = (acc ++ payload).take txStackSize := by
  induction payload generalizing acc with
  | nil => rw [List.foldl_nil, List.append_nil, List.take_of_length_le hAcc]
  | cons b payload ih =>
    rw [List.foldl_cons, gatherByte]
    split
    · rw [ih (by simpa using by assumption), List.append_assoc, List.singleton_append]
    · -- the frame is full: this byte and all later ones are dropped
      have hFull : acc.length = txStackSize := by omega
      rw [ih hAcc, ← hFull, List.take_left, List.take_left]

/-- What was cut before an append is cut after it. -/
theorem take_take_append (n : Nat) (xs ys : List UInt8) :
    (xs.take n ++ ys).take n = (xs ++ ys).take n := by
  rw [List.take_append, List.take_append, List.take_take, Nat.min_self, List.length_take]
  congr 2
  omega

/-- The nested loops collect the payloads in chain order, cut at the stack frame. -/
theorem gather_eq (chain : List (List UInt8)) :
    gather chain = chain.flatten.take txStackSize := by
  suffices hGen : ∀ acc : List UInt8, acc.length ≤ txStackSize →
      chain.foldl (fun txBuffer payload => payload.foldl gatherByte txBuffer) acc =
        (acc ++ chain.flatten).take txStackSize by
    simpa [gather] using hGen [] (Nat.zero_le _)
  induction chain with
  | nil =>
    intro acc hAcc
    simp [List.take_of_length_le hAcc]
  | cons payload chain ih =>
    intro acc hAcc
    rw [List.foldl_cons, foldl_gatherByte hAcc, ih _ (List.length_take_le ..), take_take_append,
      List.flatten_cons, List.append_assoc]

theorem outl_txAddr {n : Nat} (hn : n < 4) (nic : TxNic) (val : Nat) :
    nic.outl (regTxAddr0 + n * 4) val = { nic with txAddr := Function.update nic.txAddr n val } := by
  have hIndex : (regTxAddr0 + n * 4 - regTxAddr0) / 4 = n := by omega
  rw [TxNic.outl, if_pos (by omega), hIndex]

theorem outl_txStatus {n : Nat} (hn : n < 4) (nic : TxNic) (val : Nat) :
    nic.outl (regTxStatus0 + n * 4) val =
      { nic with queue := nic.queue ++ [(n, val % 2 ^ 13)] } := by
  have hIndex : (regTxStatus0 + n * 4 - regTxStatus0) / 4 = n := by omega
  -- the status registers end where the address registers begin
  have hBelow : regTxStatus0 + 16 = regTxAddr0 := rfl
  rw [TxNic.outl, if_neg (by omega), if_pos (by omega), hIndex]

/-- A frame that `low_level_output` passes on whole. -/
structure TxFrame where
  bytes  : List UInt8
  minLen : 1 ≤ bytes.length
  maxLen : bytes.length ≤ 1518

theorem output_eq {K : Card} {s : Tx} {chain : List (List UInt8)} {f : TxFrame}
    (hChain : chain.flatten = f.bytes) (hCounter : s.drv.txCounter < 4) :
    s.output K chain =
      { drv := { mem := s.drv.mem.blit (K.txBuffer s.drv.txCounter) f.bytes
                 txCounter := (s.drv.txCounter + 1) % 4 }
        nic := { txAddr := Function.update s.nic.txAddr s.drv.txCounter
                   (K.txBuffer s.drv.txCounter)
                 queue := s.nic.queue ++ [(s.drv.txCounter, f.bytes.length)]
                 wire := s.nic.wire } } := by
  have hMin := f.minLen
  have hMax := f.maxLen
  have hGather : gather chain = f.bytes := by
    rw [gather_eq, hChain, List.take_of_length_le]
    exact hMax
  have hLen : (f.bytes.length &&& 0x1FFF) % 2 ^ 13 = f.bytes.length := by
    have hMask : f.bytes.length &&& 0x1FFF = f.bytes.length % 2 ^ 13 :=
      Nat.and_two_pow_sub_one_eq_mod f.bytes.length 13
    rw [hMask]
    omega
  have hPresent : ¬ (K.ioBase = 0 ∨ K.ioBase = 0xFFFC) := by
    rintro (h | h)
    · exact K.present.1 h
    · exact K.present.2 h
  rw [Tx.output, lowLevelOutput]
  simp only [hGather, nicTransmitPacket]
  rw [if_neg hPresent, if_neg (by omega)]
  simp only [List.take_length, List.foldl_cons, List.foldl_nil]
  rw [outl_txAddr hCounter, outl_txStatus hCounter, hLen]

-- ---------------------------------------------------------------------------
-- The four buffers are a ring
-- ---------------------------------------------------------------------------

/-- The queue entries of frames in flight, from descriptor `n` on. -/
def descriptors : Nat → List TxFrame → List (Nat × Nat)
  | _, [] => []
  | n, f :: fs => (n, f.bytes.length) :: descriptors ((n + 1) % 4) fs

/-- The frames `flight` are in the buffers from descriptor `first` on, submitted and
unmodified. -/
structure TxInv (K : Card) (s : Tx) (first : Nat) (flight : List TxFrame) : Prop where
  first_lt : first < 4
  counter  : s.drv.txCounter = (first + flight.length) % 4
  queue    : s.nic.queue = descriptors first flight
  addr     : ∀ e ∈ s.nic.queue, s.nic.txAddr e.1 = K.txBuffer e.1
  length   : flight.length ≤ 4
  buffers  : Queued (4 * txBufferSize) (fun _ => txBufferSize) TxFrame.bytes
    (s.drv.mem.view K.txBase) (first * txBufferSize) flight

theorem length_descriptors (n : Nat) (fs : List TxFrame) :
    (descriptors n fs).length = fs.length := by
  induction fs generalizing n with
  | nil => rfl
  | cons f fs ih => simp [descriptors, ih]

theorem descriptors_concat {n : Nat} (hn : n < 4) (fs : List TxFrame) (f : TxFrame) :
    descriptors n (fs ++ [f]) =
      descriptors n fs ++ [((n + fs.length) % 4, f.bytes.length)] := by
  induction fs generalizing n with
  | nil => simp [descriptors, Nat.mod_eq_of_lt hn]
  | cons g fs ih =>
    have hNext : ((n + 1) % 4 + fs.length) % 4 = (n + (fs.length + 1)) % 4 := by omega
    rw [List.cons_append, descriptors, ih (Nat.mod_lt _ (by decide)), hNext]
    rfl

/-- The descriptors in flight are the `flight.length` ones before `tx_counter`. -/
theorem mem_descriptors_iff {n d : Nat} (hn : n < 4) (fs : List TxFrame) :
    d ∈ (descriptors n fs).map Prod.fst ↔ ∃ i < fs.length, d = (n + i) % 4 := by
  induction fs generalizing n with
  | nil => simp [descriptors]
  | cons f fs ih =>
    rw [descriptors, List.map_cons, List.mem_cons, ih (Nat.mod_lt _ (by decide)),
      List.length_cons]
    constructor
    · rintro (rfl | ⟨i, hi, rfl⟩)
      · exact ⟨0, by omega, by omega⟩
      · exact ⟨i + 1, by omega, by omega⟩
    · rintro ⟨i, hi, rfl⟩
      cases i with
      | zero => exact .inl (by omega)
      | succ i => exact .inr ⟨i, by omega, by omega⟩

/-- Ring positions of consecutive descriptors. -/
theorem slot_pos (n k : Nat) :
    (n * txBufferSize + k * txBufferSize) % (4 * txBufferSize) = (n + k) % 4 * txBufferSize := by
  rw [← Nat.add_mul, Nat.mul_mod_mul_right]

theorem slot_pos_succ (n : Nat) :
    (n * txBufferSize + txBufferSize) % (4 * txBufferSize) = (n + 1) % 4 * txBufferSize := by
  have h := slot_pos n 1
  rwa [Nat.one_mul] at h

theorem occupied_flight (fs : List TxFrame) :
    occupied (fun _ => txBufferSize) fs = fs.length * txBufferSize := by
  simp [occupied, List.map_const', List.sum_replicate]

theorem length_bytes_le (f : TxFrame) : f.bytes.length ≤ txBufferSize :=
  Nat.le_trans f.maxLen (by decide)

/-- The card reads from the buffers exactly the frames in flight. -/
theorem TxInv.fetch_queue {K : Card} {s : Tx} {first : Nat} {flight : List TxFrame}
    (h : TxInv K s first flight) : s.nic.queue.map s.fetch = flight.map TxFrame.bytes := by
  have hAddr := h.addr
  have hBuffers := h.buffers
  have hFirst := h.first_lt
  rw [h.queue] at hAddr ⊢
  clear h
  induction flight generalizing first with
  | nil => rfl
  | cons f fs ih =>
    rw [descriptors, List.forall_mem_cons] at hAddr
    obtain ⟨hHead, hTail⟩ := hBuffers
    rw [slot_pos_succ] at hTail
    have hFetch : s.fetch (first, f.bytes.length) = f.bytes := by
      rw [Tx.fetch, hAddr.1, Card.txBuffer, ← Mem.slice_view, hHead]
    rw [descriptors, List.map_cons, List.map_cons, hFetch,
      ih hAddr.2 hTail (Nat.mod_lt _ (by decide))]

/-- A call with a buffer to spare puts its frame behind the ones in flight. -/
theorem TxInv.step_output {K : Card} {s : Tx} {first : Nat} {flight : List TxFrame}
    {chain : List (List UInt8)} {f : TxFrame} (h : TxInv K s first flight)
    (hChain : chain.flatten = f.bytes) (hSpare : flight.length < 4) :
    TxInv K (s.output K chain) first (flight ++ [f]) := by
  have hFirst := h.first_lt
  have hCounter := h.counter
  rw [output_eq hChain (by omega)]
  refine { first_lt := hFirst, counter := ?_, queue := ?_, addr := ?_, length := ?_,
           buffers := ?_ }
  · show (s.drv.txCounter + 1) % 4 = _
    rw [List.length_append, List.length_singleton]
    omega
  · show s.nic.queue ++ _ = _
    rw [descriptors_concat hFirst, h.queue, hCounter]
  · intro e he
    show Function.update s.nic.txAddr s.drv.txCounter (K.txBuffer s.drv.txCounter) e.1 = _
    by_cases hEq : e.1 = s.drv.txCounter
    · rw [hEq, Function.update_self]
    · rw [Function.update_of_ne hEq]
      rcases List.mem_append.mp he with he | he
      · exact h.addr e he
      · rw [List.mem_singleton.mp he] at hEq
        exact absurd rfl hEq
  · rw [List.length_append, List.length_singleton]
    omega
  · -- the next buffer is the ring position behind the frames in flight
    show Queued _ _ _ ((s.drv.mem.blit (K.txBuffer s.drv.txCounter) f.bytes).view K.txBase) _ _
    have hPos : s.drv.txCounter * txBufferSize =
        (first * txBufferSize + occupied (fun _ => txBufferSize) flight) %
          (4 * txBufferSize) := by
      rw [occupied_flight, slot_pos, hCounter]
    rw [Card.txBuffer, Mem.view_blit, hPos]
    refine queued_append length_bytes_le ?_ h.buffers ?_
    · exact Nat.mul_lt_mul_of_pos_right hFirst (by decide)
    · rw [occupied_flight, ← Nat.succ_mul]
      exact Nat.mul_le_mul_right _ hSpare

/-- A completion puts the oldest frame in flight on the wire. -/
theorem TxInv.step_complete {K : Card} {s : Tx} {first : Nat} {flight : List TxFrame}
    {e : Nat × Nat} {rest : List (Nat × Nat)} (h : TxInv K s first flight)
    (hQueue : s.nic.queue = e :: rest) :
    ∃ f fs, flight = f :: fs ∧ s.fetch e = f.bytes ∧
      TxInv K { s with nic := { s.nic with queue := rest, wire := s.nic.wire ++ [s.fetch e] } }
        ((first + 1) % 4) fs := by
  have hFetch := h.fetch_queue
  have hQ := h.queue
  have hAddr := h.addr
  rw [hQueue] at hFetch hQ hAddr
  have hFirst := h.first_lt
  cases flight with
  | nil => simp [descriptors] at hQ
  | cons f fs =>
    rw [descriptors] at hQ
    obtain ⟨rfl, rfl⟩ := List.cons.inj hQ
    rw [List.map_cons, List.map_cons] at hFetch
    refine ⟨f, fs, rfl, (List.cons.inj hFetch).1, ?_⟩
    refine { first_lt := Nat.mod_lt _ (by decide), counter := ?_, queue := rfl, addr := ?_,
             length := ?_, buffers := ?_ }
    · show s.drv.txCounter = _
      rw [h.counter, List.length_cons]
      omega
    · exact fun e he => hAddr e (List.mem_cons_of_mem _ he)
    · have hLen := h.length
      rw [List.length_cons] at hLen
      omega
    · have hTail := h.buffers.2
      rw [slot_pos_succ] at hTail
      exact hTail

-- ---------------------------------------------------------------------------
-- Every interleaving
-- ---------------------------------------------------------------------------

/-- The history of a run: what was submitted is on the wire or in flight. -/
def TxHistory (K : Card) (acts : List TxAct) (s : Tx) : Prop :=
  ∃ first flight, TxInv K s first flight ∧
    submitted acts = s.nic.wire ++ flight.map TxFrame.bytes

theorem TxHistory.step {K : Card} {acts : List TxAct} {s s' : Tx} {a : TxAct}
    (h : TxHistory K acts s) (hStep : SpareStep K s a s') : TxHistory K (acts ++ [a]) s' := by
  obtain ⟨first, flight, hInv, hSub⟩ := h
  obtain ⟨hStep, hSpare⟩ := hStep
  have hLength : s.nic.queue.length = flight.length := by
    rw [hInv.queue, length_descriptors]
  cases hStep with
  | @output chain hMin hMax =>
    have hRoom : flight.length < 4 := hLength ▸ hSpare
    have hCounter : s.drv.txCounter < 4 := by
      rw [hInv.counter]
      exact Nat.mod_lt _ (by decide)
    let f : TxFrame := { bytes := chain.flatten, minLen := hMin, maxLen := hMax }
    refine ⟨first, flight ++ [f], hInv.step_output rfl hRoom, ?_⟩
    rw [output_eq (f := f) rfl hCounter, submitted_append, hSub]
    simp [submitted, f]
  | @complete e rest hQueue =>
    obtain ⟨f, fs, rfl, hFetch, hInv'⟩ := hInv.step_complete hQueue
    refine ⟨_, fs, hInv', ?_⟩
    rw [submitted_append, hSub, hFetch]
    simp [submitted]

theorem txInv_boot (K : Card) (mem : Mem) : TxInv K (Tx.boot mem) 0 [] where
  first_lt := by decide
  counter  := rfl
  queue    := rfl
  addr     := by simp [Tx.boot]
  length   := by simp
  buffers  := trivial

/--
**Transmit ring.** Over every interleaving of `low_level_output` calls and completions
in which each call finds fewer than four frames in flight: the frames on the wire,
followed by what the card would now read for the frames in flight, are the submitted
payloads, in call order, each once and unmodified. And the bound is exact: the next
call copies into the buffer of a submitted, uncompleted frame if and only if four
frames are in flight.
-/
theorem transmit_ring_exact {K : Card} {mem : Mem} {acts : List TxAct} {s : Tx}
    (hRun : Run (SpareStep K) (Tx.boot mem) acts s) :
    submitted acts = s.nic.wire ++ s.nic.queue.map s.fetch ∧
      (s.drv.txCounter ∈ s.nic.queue.map Prod.fst ↔ 4 ≤ s.nic.queue.length) := by
  have hHistory : TxHistory K acts s :=
    Run.invariant_trace (TxHistory K) (fun acts s a s' h => h.step)
      ⟨0, [], txInv_boot K mem, rfl⟩ hRun
  obtain ⟨first, flight, hInv, hSub⟩ := hHistory
  refine ⟨by rw [hInv.fetch_queue, hSub], ?_⟩
  have hFirst := hInv.first_lt
  have hLen := hInv.length
  rw [hInv.queue, mem_descriptors_iff hFirst, length_descriptors, hInv.counter]
  constructor
  · rintro ⟨i, hi, hEq⟩
    omega
  · intro hFull
    exact ⟨0, by omega, by omega⟩

/-- A run of sends, none of them waiting for a completion. -/
def sendAll (K : Card) (s : Tx) (chains : List (List (List UInt8))) : Tx :=
  chains.foldl (Tx.output K) s

theorem transmit_ring_exact_demo :
    ∃ s : Tx, submitted [.output [[1], [2, 3]], .output [[4]], .complete] =
      s.nic.wire ++ s.nic.queue.map s.fetch := by
  have hFirst : SpareStep demoCard (Tx.boot fun _ => 0) (.output [[1], [2, 3]])
      (sendAll demoCard (Tx.boot fun _ => 0) [[[1], [2, 3]]]) :=
    ⟨.output (by decide) (by decide), by decide⟩
  have hSecond : SpareStep demoCard (sendAll demoCard (Tx.boot fun _ => 0) [[[1], [2, 3]]])
      (.output [[4]]) (sendAll demoCard (Tx.boot fun _ => 0) [[[1], [2, 3]], [[4]]]) :=
    ⟨.output (by decide) (by decide), by decide⟩
  exact ⟨_, (transmit_ring_exact
    (.cons hFirst (.cons hSecond (.cons ⟨.complete rfl, trivial⟩ (.nil _))))).1⟩

theorem run_sendAll {K : Card} {s : Tx} {chains : List (List (List UInt8))}
    (h : ∀ chain ∈ chains, 1 ≤ chain.flatten.length ∧ chain.flatten.length ≤ 1518) :
    Run (TxStep K) s (chains.map .output) (sendAll K s chains) := by
  induction chains generalizing s with
  | nil => exact .nil _
  | cons chain chains ih =>
    rw [List.forall_mem_cons] at h
    exact .cons (.output h.1.1 h.1.2) (ih h.2)

/--
Five one-byte frames sent before the card completes the first: the fifth is copied
over the first, still in flight, and the card sends the fifth in its place.
-/
theorem transmit_burst_overwrites :
    ∃ acts s, Run (TxStep demoCard) (Tx.boot fun _ => 0) acts s ∧
      submitted acts = [[1], [2], [3], [4], [5]] ∧ s.nic.wire = [[5]] ∧
      submitted acts ≠ s.nic.wire ++ s.nic.queue.map s.fetch := by
  have hBurst := run_sendAll (K := demoCard) (s := Tx.boot fun _ => 0)
    (show ∀ chain ∈ [[[1]], [[2]], [[3]], [[4]], [[5]]],
      1 ≤ (List.flatten chain).length ∧ (List.flatten chain).length ≤ 1518 by decide)
  exact ⟨_, _, hBurst.snoc (.complete rfl), rfl, by decide, by decide⟩

end Nao.Rtl8139
