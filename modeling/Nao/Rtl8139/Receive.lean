import Nao.Lib.ByteRing
import Nao.Lib.Loop
import Nao.Lib.Lts
import Nao.Rtl8139.Definitions

/-!
# RTL8139 driver — the receive ring

The card and the driver each keep a pointer into `rx_buffer`: the card's write
offset `w`, and `rx_offset`, which the driver tells the card through `CAPR` with a
bias of 16. Both are rounded to 4 bytes and wrapped at 8192, each by its own code.
Arrivals and `nic_poll_received_packet` calls interleave freely.

## Results

* `RxInv.step_arrive`, `RxInv.step_poll` — the ring is a FIFO queue of frames: an
  arrival appends, a poll takes the head.
* `netifDriverPoll_drains` — one `netif_driver_poll` delivers all unread frames.
* `receive_ring_fifo`   — over every interleaving, packets come out as the frames
  went in.
* `receive_ring_overrun` — a card that fills the ring to the last byte makes it
  look empty, and loses frames.
* `poll_tolerates_iff`  — which ring headers the driver survives.
-/

namespace Nao.Rtl8139

open SysLib SysLib.ByteRing

-- ---------------------------------------------------------------------------
-- The card's side
-- ---------------------------------------------------------------------------

/-- A frame as the card stores it: a 16-bit status word with ROK set, and the bytes
on the wire, the last four of which are the CRC. -/
structure Frame where
  status : Nat
  data   : List UInt8
  word   : status < 2 ^ 16
  rok    : status % 2 = 1
  minLen : 8 ≤ data.length
  maxLen : data.length ≤ 1522

/-- The record in the ring: status, length, data. -/
def Frame.record (f : Frame) : List UInt8 :=
  (Mem.le16 f.status ++ Mem.le16 f.data.length) ++ f.data

/-- Ring bytes the record takes up: 4 header bytes and the data, rounded up to 4. -/
def Frame.room (f : Frame) : Nat := (f.data.length + 7) / 4 * 4

/-- What the driver is to return: the frame without its CRC. -/
def Frame.packet (f : Frame) : List UInt8 := f.data.take (f.data.length - 4)

/-- `w := ((w + 4 + L + 3) and not 3) mod 8192`. -/
def nextWrite (w : Nat) (f : Frame) : Nat := (w + 4 + f.data.length + 3) / 4 * 4 % 8192

/-- The two parties: the card's write offset and `CAPR`, the shared `rx_buffer`, and
the driver's `rx_offset` with the buffer it copies packets into. -/
structure Rx where
  rxBuffer : Mem
  w        : Nat
  capr     : Nat
  rxOffset : Nat
  rxTemp   : Mem

/-- After `init_rtl8139`: both pointers are 0; `CAPR` comes out of reset as 0xFFF0. -/
def Rx.boot (rxBuffer rxTemp : Mem) : Rx :=
  { rxBuffer := rxBuffer, w := 0, capr := 0xFFF0, rxOffset := 0, rxTemp := rxTemp }

/-- The driver's read position as the card sees it. -/
def Rx.readPos (s : Rx) : Nat := (s.capr + 16) % 8192

/-- `REG_COMMAND`: what `init_rtl8139` left there, and BUFE exactly when the two pointers
coincide. -/
def Rx.command (s : Rx) : Nat := commandInit ||| (if s.readPos = s.w then 0x01 else 0)

/-- Ring bytes from `w` round to the read position, all of them when the two coincide. -/
def Rx.free (s : Rx) : Nat :=
  if s.readPos = s.w then 8192 else (s.readPos + 8192 - s.w) % 8192

/-- The card writes `bytes` from `w` on: with `RCR.WRAP` contiguously, past 8192 into the
slack if need be, without it round to the start of the ring. -/
def cardWrite (rcr : Nat) (rxBuffer : Mem) (w : Nat) (bytes : List UInt8) : Mem :=
  if rcr.testBit 7 then rxBuffer.blit w bytes
  else (rxBuffer.blit w (bytes.take (8192 - w))).blit 0 (bytes.drop (8192 - w))

/-- The card stores a frame. -/
def Rx.store (s : Rx) (f : Frame) : Rx :=
  { s with rxBuffer := cardWrite rcrInit s.rxBuffer s.w f.record, w := nextWrite s.w f }

/-- The frame overwrites nothing between the read position and `w`. -/
def fitsRing (s : Rx) (f : Frame) : Prop := 4 + f.data.length ≤ s.free

/-- Moreover `w` does not catch up with the read position. -/
def keepsGap (s : Rx) (f : Frame) : Prop := fitsRing s f ∧ nextWrite s.w f ≠ s.readPos

-- ---------------------------------------------------------------------------
-- The system
-- ---------------------------------------------------------------------------

/-- What a call of `nic_poll_received_packet(rx_temp_buffer)` does in state `s`. -/
def Rx.polled (K : Card) (s : Rx) : Polled :=
  nicPollReceivedPacket K.ioBase s.command s.rxBuffer s.rxOffset

/-- The packet that call returns, if any. -/
def Rx.output (K : Card) (s : Rx) : Option (List UInt8) :=
  (s.polled K).packet s.rxBuffer s.rxTemp

/-- The state after that call. -/
def Rx.poll (K : Card) (s : Rx) : Rx :=
  { s with
    rxTemp   := (s.polled K).fill s.rxBuffer s.rxTemp
    rxOffset := (s.polled K).rxOffset
    capr     := (s.polled K).capr.getD s.capr }

inductive RxAct where
  | arrive (f : Frame)
  | poll (output : Option (List UInt8))

/-- Arrivals of the frames the card accepts, and polls, in any order. -/
inductive RxStep (K : Card) (accepts : Rx → Frame → Prop) : Rx → RxAct → Rx → Prop where
  | arrive {s : Rx} {f : Frame} (hAccepts : accepts s f) :
      RxStep K accepts s (.arrive f) (s.store f)
  | poll {s : Rx} : RxStep K accepts s (.poll (s.output K)) (s.poll K)

/-- The frames that arrived, in order. -/
def arrivals : List RxAct → List Frame
  | [] => []
  | .arrive f :: acts => f :: arrivals acts
  | .poll _ :: acts => arrivals acts

/-- The packets returned, in order. -/
def returned : List RxAct → List (List UInt8)
  | [] => []
  | .arrive _ :: acts => returned acts
  | .poll output :: acts => output.toList ++ returned acts

/-- Where the card puts the frame that follows `fs`. -/
def writeOffset (fs : List Frame) : Nat := fs.foldl nextWrite 0

/-- The loop of `netif_driver_poll`: poll into `rx_temp_buffer` until a call returns
0, handing each packet on. -/
def netifPollBody (K : Card) (c : Rx × List (List UInt8)) :
    Turn (Rx × List (List UInt8)) (Rx × List (List UInt8)) :=
  match c.1.output K with
  | none => .exit (c.1.poll K, c.2)
  | some packet => .again (c.1.poll K, c.2 ++ [packet])

def netifDriverPoll (K : Card) (fuel : Nat) (s : Rx) : Option (Rx × List (List UInt8)) :=
  loop (netifPollBody K) fuel (s, [])

-- ---------------------------------------------------------------------------
-- Pointer arithmetic
-- ---------------------------------------------------------------------------

/-- Rounding up and one conditional subtraction is the wrap, as long as one
subtraction is enough. -/
theorem advance_eq {offset length : Nat} (h : offset + length + 7 < 16384) :
    advance offset length = (offset + length + 7) / 4 * 4 % 8192 := by
  have hMask : ((offset + length + 4 + 3) % 2 ^ 32) &&& (2 ^ 32 - 1 - 3) =
      (offset + length + 4 + 3) / 4 * 4 := by
    rw [Nat.mod_eq_of_lt (by omega)]
    exact and_high_mask (w := 32) (k := 2) (by omega)
  simp only [advance, hMask]
  split <;> omega

/-- The bias of 16 cancels: the card reads back the driver's `rx_offset`. -/
theorem readPos_of_capr {s : Rx} {offset : Nat} (h : s.capr = caprValue offset)
    (hlt : offset < 8192) : s.readPos = offset := by
  rw [Rx.readPos, h, caprValue, sub32]
  omega

/-- `init_rtl8139` sets WRAP, so no record is cut at the end of the ring. -/
theorem store_rxBuffer (s : Rx) (f : Frame) :
    (s.store f).rxBuffer = s.rxBuffer.blit s.w f.record := by
  have hWrap : rcrInit.testBit 7 = true := by decide
  show cardWrite rcrInit s.rxBuffer s.w f.record = _
  rw [cardWrite, if_pos hWrap]

theorem length_record (f : Frame) : f.record.length = f.data.length + 4 := by
  simp only [Frame.record, Mem.le16, List.length_append, List.length_cons, List.length_nil]
  omega

theorem length_record_le (f : Frame) : f.record.length ≤ f.room := by
  rw [length_record, Frame.room]
  omega

theorem length_packet (f : Frame) : f.packet.length = f.data.length - 4 := by
  simp [Frame.packet]

/-- From an aligned offset the card's and the driver's pointer updates agree: both
move on by the room of the frame. -/
theorem nextWrite_eq {w : Nat} (hw : w % 4 = 0) (f : Frame) :
    nextWrite w f = (w + f.room) % 8192 := by
  unfold nextWrite Frame.room
  omega

theorem advance_frame {offset : Nat} (ho : offset % 4 = 0) (hlt : offset < 8192) (f : Frame) :
    advance offset f.data.length = (offset + f.room) % 8192 := by
  have := f.maxLen
  rw [advance_eq (by omega), Frame.room]
  omega

-- ---------------------------------------------------------------------------
-- One poll
-- ---------------------------------------------------------------------------

theorem command_bufe {s : Rx} (h : s.readPos = s.w) : s.command &&& 0x01 ≠ 0 := by
  rw [Rx.command, if_pos h]
  decide

theorem command_not_bufe {s : Rx} (h : s.readPos ≠ s.w) : s.command &&& 0x01 = 0 := by
  rw [Rx.command, if_neg h]
  decide

theorem polled_empty {K : Card} {s : Rx} (h : s.readPos = s.w) :
    s.polled K = { ret := 0, copy := none, rxOffset := s.rxOffset, capr := none } := by
  rw [Rx.polled, nicPollReceivedPacket, if_neg K.present.1, if_pos (command_bufe h)]

/-- The header words of a record in the ring. -/
theorem header_of_record {m : Mem} {r : Nat} {f : Frame}
    (h : m.slice r f.record.length = f.record) :
    m.read16 r = f.status ∧ m.read16 (r + 2) = f.data.length ∧
      m.slice (r + 4) f.data.length = f.data := by
  obtain ⟨hHeader, hData⟩ := Mem.slice_eq_append_iff.mp h
  obtain ⟨hStatus, hLength⟩ := Mem.slice_eq_append_iff.mp hHeader
  have hw := f.word
  have hmax := f.maxLen
  refine ⟨?_, ?_, hData⟩
  · rw [Mem.read16_of_slice hStatus]
    omega
  · have hAt : m.read16 (r + 2) = f.data.length % 65536 := Mem.read16_of_slice hLength
    rw [hAt]
    omega

/-- A poll that finds the record of a frame copies exactly its packet and moves
`rx_offset` behind it. -/
theorem polled_frame {K : Card} {s : Rx} {f : Frame} (hBufe : s.readPos ≠ s.w)
    (hRecord : s.rxBuffer.slice s.rxOffset f.record.length = f.record)
    (ho : s.rxOffset % 4 = 0) (hlt : s.rxOffset < 8192) :
    s.polled K =
      { ret := f.data.length - 4, copy := some (s.rxOffset + 4, f.data.length - 4)
        rxOffset := (s.rxOffset + f.room) % 8192
        capr := some (caprValue ((s.rxOffset + f.room) % 8192)) } := by
  obtain ⟨hStatus, hLength, -⟩ := header_of_record hRecord
  have hmin := f.minLen
  have hmax := f.maxLen
  have hRok : f.status &&& 0x01 ≠ 0 := by
    rw [Nat.and_one_is_mod, f.rok]
    decide
  have hSub : sub32 f.data.length 4 = f.data.length - 4 := sub32_of_le (by omega) (by omega)
  have hCommand : ¬ (s.command &&& 0x01 ≠ 0) := not_not.mpr (command_not_bufe hBufe)
  rw [Rx.polled, nicPollReceivedPacket, if_neg K.present.1, if_neg hCommand]
  simp only [hStatus, hLength]
  rw [if_pos hRok, hSub, advance_frame ho hlt]

theorem output_frame {K : Card} {s : Rx} {f : Frame} (hBufe : s.readPos ≠ s.w)
    (hRecord : s.rxBuffer.slice s.rxOffset f.record.length = f.record)
    (ho : s.rxOffset % 4 = 0) (hlt : s.rxOffset < 8192) : s.output K = some f.packet := by
  have hmin := f.minLen
  obtain ⟨-, -, hData⟩ := header_of_record hRecord
  have hPacket : s.rxBuffer.slice (s.rxOffset + 4) (f.data.length - 4) = f.packet := by
    have hSplit : f.data.length = f.data.length - 4 + 4 := by omega
    rw [hSplit, Mem.slice_add] at hData
    rw [Frame.packet, ← hData]
    simp
  have hCopied : (s.rxTemp.blit 0 f.packet).slice 0 (f.data.length - 4) = f.packet := by
    rw [← length_packet]
    exact Mem.slice_blit _ _ _
  rw [Rx.output, polled_frame hBufe hRecord ho hlt]
  simp only [Polled.packet, Polled.fill]
  rw [if_neg (by omega), hPacket, hCopied]

-- ---------------------------------------------------------------------------
-- The ring is a queue
-- ---------------------------------------------------------------------------

/-- The ring holds the frames `unread`: their records follow each other from
`rx_offset` to `w`, with at least one byte of the ring left over. -/
structure RxInv (s : Rx) (unread : List Frame) : Prop where
  readPos : s.readPos = s.rxOffset
  aligned : s.rxOffset % 4 = 0
  lt      : s.rxOffset < 8192
  write   : s.w = (s.rxOffset + occupied Frame.room unread) % 8192
  gap     : occupied Frame.room unread < 8192
  queued  : Queued 8192 Frame.room Frame.record s.rxBuffer s.rxOffset unread

theorem rxInv_boot (rxBuffer rxTemp : Mem) : RxInv (Rx.boot rxBuffer rxTemp) [] where
  readPos := by simp [Rx.readPos, Rx.boot]
  aligned := rfl
  lt      := by simp [Rx.boot]
  write   := by simp [Rx.boot]
  gap     := by simp
  queued  := trivial

theorem occupied_aligned (fs : List Frame) : occupied Frame.room fs % 4 = 0 := by
  induction fs with
  | nil => rfl
  | cons f fs ih =>
    rw [occupied_cons, Frame.room]
    omega

theorem RxInv.write_aligned {s : Rx} {unread : List Frame} (h : RxInv s unread) :
    s.w % 4 = 0 := by
  have hOcc := occupied_aligned unread
  have hOff := h.aligned
  have hw := h.write
  omega

/-- BUFE says exactly that nothing is unread. -/
theorem RxInv.bufe_iff {s : Rx} {unread : List Frame} (h : RxInv s unread) :
    s.readPos = s.w ↔ unread = [] := by
  rw [h.readPos, h.write]
  have hlt := h.lt
  have hgap := h.gap
  cases unread with
  | nil =>
    rw [occupied_nil]
    simp only [iff_true]
    omega
  | cons f fs =>
    rw [occupied_cons, Frame.room] at hgap ⊢
    simp only [reduceCtorEq, iff_false]
    omega

theorem RxInv.not_bufe {s : Rx} {f : Frame} {fs : List Frame} (h : RxInv s (f :: fs)) :
    s.readPos ≠ s.w := by
  intro hEq
  have hNil := h.bufe_iff.mp hEq
  simp at hNil

/-- What a poll of a non-empty ring does. -/
theorem RxInv.polled_cons {K : Card} {s : Rx} {f : Frame} {fs : List Frame}
    (h : RxInv s (f :: fs)) :
    s.polled K =
      { ret := f.data.length - 4, copy := some (s.rxOffset + 4, f.data.length - 4)
        rxOffset := (s.rxOffset + f.room) % 8192
        capr := some (caprValue ((s.rxOffset + f.room) % 8192)) } :=
  polled_frame h.not_bufe h.queued.1 h.aligned h.lt

/-- The free bytes of the ring. -/
theorem RxInv.free_eq {s : Rx} {unread : List Frame} (h : RxInv s unread) :
    s.free = 8192 - occupied Frame.room unread := by
  have hlt := h.lt
  have hgap := h.gap
  have hw := h.write
  have hr := h.readPos
  unfold Rx.free
  split
  · rename_i hEq
    rw [h.bufe_iff.mp hEq, occupied_nil]
  · omega

/-- A frame that fits and leaves the gap has room behind the unread ones. -/
theorem RxInv.room_lt {s : Rx} {unread : List Frame} {f : Frame} (h : RxInv s unread)
    (hFits : keepsGap s f) : occupied Frame.room unread + f.room < 8192 := by
  obtain ⟨hRing, hNe⟩ := hFits
  rw [fitsRing, h.free_eq] at hRing
  rw [nextWrite_eq h.write_aligned, h.readPos, h.write] at hNe
  have hOcc := occupied_aligned unread
  have hlt := h.lt
  have hgap := h.gap
  have hRoom : f.room = (f.data.length + 7) / 4 * 4 := rfl
  -- rounding up stays within the aligned free space; equality would close the gap
  omega

/-- An arrival appends to the queue. -/
theorem RxInv.step_arrive {s : Rx} {unread : List Frame} {f : Frame} (h : RxInv s unread)
    (hFits : keepsGap s f) : RxInv (s.store f) (unread ++ [f]) := by
  have hRoom := h.room_lt hFits
  have hOcc : occupied Frame.room (unread ++ [f]) = occupied Frame.room unread + f.room := by
    simp
  refine { readPos := h.readPos, aligned := h.aligned, lt := h.lt, write := ?_, gap := ?_,
           queued := ?_ }
  · show nextWrite s.w f = (s.rxOffset + occupied Frame.room (unread ++ [f])) % 8192
    rw [nextWrite_eq h.write_aligned, h.write, hOcc]
    omega
  · rw [hOcc]
    exact hRoom
  · show Queued 8192 Frame.room Frame.record (s.store f).rxBuffer s.rxOffset _
    rw [store_rxBuffer, h.write]
    exact queued_append length_record_le h.lt h.queued (by omega)

/-- A poll of an empty ring changes nothing and returns nothing. -/
theorem RxInv.poll_nil {K : Card} {s : Rx} (h : RxInv s []) :
    s.output K = none ∧ RxInv (s.poll K) [] := by
  have hPolled := polled_empty (K := K) (h.bufe_iff.mpr rfl)
  have hPoll : s.poll K = s := by
    unfold Rx.poll
    rw [hPolled]
    rfl
  refine ⟨?_, by rw [hPoll]; exact h⟩
  rw [Rx.output, hPolled]
  rfl

/-- A poll of a non-empty ring returns the oldest frame and takes it off. -/
theorem RxInv.poll_cons {K : Card} {s : Rx} {f : Frame} {fs : List Frame}
    (h : RxInv s (f :: fs)) : s.output K = some f.packet ∧ RxInv (s.poll K) fs := by
  obtain ⟨hRecord, hRest⟩ := h.queued
  refine ⟨output_frame h.not_bufe hRecord h.aligned h.lt, ?_⟩
  have hlt := h.lt
  have hal := h.aligned
  have hgap := h.gap
  rw [occupied_cons] at hgap
  have hNext : (s.rxOffset + f.room) % 8192 < 8192 := Nat.mod_lt _ (by decide)
  have hRoom : f.room = (f.data.length + 7) / 4 * 4 := rfl
  have hPolled := h.polled_cons (K := K)
  have hOffset : (s.poll K).rxOffset = (s.rxOffset + f.room) % 8192 := by rw [Rx.poll, hPolled]
  have hCapr : (s.poll K).capr = caprValue ((s.rxOffset + f.room) % 8192) := by
    rw [Rx.poll, hPolled, Option.getD_some]
  have hWrite : (s.poll K).w = s.w := rfl
  refine { readPos := ?_, aligned := ?_, lt := ?_, write := ?_, gap := ?_, queued := ?_ }
  · rw [readPos_of_capr hCapr hNext, hOffset]
  · rw [hOffset]
    omega
  · rw [hOffset]
    exact hNext
  · rw [hWrite, hOffset, h.write, occupied_cons]
    omega
  · omega
  · rw [hOffset]
    exact hRest

/-- Both cases: what a poll returns and what it leaves. -/
theorem RxInv.step_poll {K : Card} {s : Rx} {unread : List Frame} (h : RxInv s unread) :
    s.output K = unread.head?.map Frame.packet ∧ RxInv (s.poll K) unread.tail := by
  cases unread with
  | nil => exact h.poll_nil
  | cons f fs => exact h.poll_cons

/-- Every byte a poll reads lies inside `rx_buffer`. -/
theorem RxInv.reads_inside {K : Card} {s : Rx} {unread : List Frame} (h : RxInv s unread) :
    s.rxOffset + 4 ≤ rxBufferSize ∧
      ∀ src n, (s.polled K).copy = some (src, n) → src + n ≤ rxBufferSize := by
  have hSize : rxBufferSize = 9726 := rfl
  have hlt := h.lt
  refine ⟨by omega, ?_⟩
  intro src n hCopy
  cases unread with
  | nil =>
    rw [polled_empty (h.bufe_iff.mpr rfl)] at hCopy
    simp at hCopy
  | cons f fs =>
    rw [h.polled_cons] at hCopy
    simp only [Option.some.injEq, Prod.mk.injEq] at hCopy
    have hmax := f.maxLen
    omega

/-- One `netif_driver_poll` with no arrivals in between hands on every unread frame. -/
theorem netifDriverPoll_drains {K : Card} {s : Rx} {unread : List Frame} (h : RxInv s unread) :
    ∃ s', netifDriverPoll K (unread.length + 1) s = some (s', unread.map Frame.packet) ∧
      RxInv s' [] := by
  -- the accumulator of delivered packets only ever grows at the end
  suffices hGen : ∀ done, ∃ s', loop (netifPollBody K) (unread.length + 1) (s, done) =
      some (s', done ++ unread.map Frame.packet) ∧ RxInv s' [] by
    obtain ⟨s', hLoop, hInv⟩ := hGen []
    exact ⟨s', by rw [netifDriverPoll, hLoop, List.nil_append], hInv⟩
  induction unread generalizing s with
  | nil =>
    intro done
    obtain ⟨hOut, hInv⟩ := h.poll_nil (K := K)
    have hTurn : netifPollBody K (s, done) = .exit (s.poll K, done) := by
      simp only [netifPollBody, hOut]
    exact ⟨s.poll K, by rw [loop_exit hTurn]; simp, hInv⟩
  | cons f fs ih =>
    intro done
    obtain ⟨hOut, hInv⟩ := h.poll_cons (K := K)
    have hTurn : netifPollBody K (s, done) = .again (s.poll K, done ++ [f.packet]) := by
      simp only [netifPollBody, hOut]
    obtain ⟨s', hLoop, hInv'⟩ := ih hInv (done ++ [f.packet])
    refine ⟨s', ?_, hInv'⟩
    rw [List.length_cons, loop_again hTurn, hLoop]
    simp

-- ---------------------------------------------------------------------------
-- Every interleaving
-- ---------------------------------------------------------------------------

theorem arrivals_append (as bs : List RxAct) :
    arrivals (as ++ bs) = arrivals as ++ arrivals bs := by
  induction as with
  | nil => rfl
  | cons a as ih => cases a <;> simp [arrivals, ih]

theorem returned_append (as bs : List RxAct) :
    returned (as ++ bs) = returned as ++ returned bs := by
  induction as with
  | nil => rfl
  | cons a as ih => cases a <;> simp [returned, ih]

theorem writeOffset_concat (fs : List Frame) (f : Frame) :
    writeOffset (fs ++ [f]) = nextWrite (writeOffset fs) f := by
  simp [writeOffset]

/-- What the history of a run says about its last state: the frames read so far came
out as packets, in order, and the rest is in the ring. -/
structure RxHistory (acts : List RxAct) (s : Rx) (read unread : List Frame) : Prop where
  arrived  : arrivals acts = read ++ unread
  returned : returned acts = read.map Frame.packet
  oldest   : s.rxOffset = writeOffset read
  ring     : RxInv s unread

theorem RxHistory.step {K : Card} {acts : List RxAct} {s s' : Rx} {a : RxAct}
    {read unread : List Frame} (h : RxHistory acts s read unread)
    (hStep : RxStep K keepsGap s a s') :
    ∃ read' unread', RxHistory (acts ++ [a]) s' read' unread' := by
  cases hStep with
  | @arrive f hAccepts =>
    refine ⟨read, unread ++ [f], ?_, ?_, h.oldest, h.ring.step_arrive hAccepts⟩
    · rw [arrivals_append, h.arrived]
      simp [arrivals]
    · rw [returned_append, h.returned]
      simp [Rtl8139.returned]
  | poll =>
    have hPoll := h.ring.step_poll (K := K)
    cases unread with
    | nil =>
      refine ⟨read, [], ?_, ?_, ?_, hPoll.2⟩
      · rw [arrivals_append, h.arrived]
        simp [arrivals]
      · rw [returned_append, h.returned, hPoll.1]
        simp [Rtl8139.returned]
      · rw [← h.oldest, Rx.poll, polled_empty (h.ring.bufe_iff.mpr rfl)]
    | cons f fs =>
      refine ⟨read ++ [f], fs, ?_, ?_, ?_, hPoll.2⟩
      · rw [arrivals_append, h.arrived]
        simp [arrivals]
      · rw [returned_append, h.returned, hPoll.1]
        simp [Rtl8139.returned]
      · rw [writeOffset_concat, ← h.oldest, nextWrite_eq h.ring.aligned, Rx.poll,
          h.ring.polled_cons]

theorem run_history {K : Card} {rxBuffer rxTemp : Mem} {acts : List RxAct} {s : Rx}
    (hRun : Run (RxStep K keepsGap) (Rx.boot rxBuffer rxTemp) acts s) :
    ∃ read unread, RxHistory acts s read unread := by
  refine Run.invariant_trace (fun acts s => ∃ read unread, RxHistory acts s read unread) ?_
    ⟨[], [], rfl, rfl, rfl, rxInv_boot _ _⟩ hRun
  rintro acts s a s' ⟨read, unread, h⟩ hStep
  exact h.step hStep

/--
**No loss, duplication or reordering.** With a card that never lets its write offset
catch up with the driver's read position, over every interleaving of arrivals and
polls: the packets returned are the frames read so far, in order of arrival and
without their CRC; the next poll returns the oldest unread frame; `rx_offset` is
where the card put that frame, and all reads stay inside `rx_buffer`.
-/
theorem receive_ring_fifo {K : Card} {rxBuffer rxTemp : Mem} {acts : List RxAct} {s : Rx}
    (hRun : Run (RxStep K keepsGap) (Rx.boot rxBuffer rxTemp) acts s) :
    ∃ read unread : List Frame,
      arrivals acts = read ++ unread ∧
      returned acts = read.map Frame.packet ∧
      s.output K = unread.head?.map Frame.packet ∧
      s.rxOffset = writeOffset read ∧
      (∀ f ∈ unread.head?, s.rxBuffer.slice s.rxOffset f.record.length = f.record) ∧
      s.rxOffset % 4 = 0 ∧ s.rxOffset < 8192 ∧
      s.rxOffset + 4 ≤ rxBufferSize ∧
      ∀ src n, (s.polled K).copy = some (src, n) → src + n ≤ rxBufferSize := by
  obtain ⟨read, unread, h⟩ := run_history hRun
  obtain ⟨hHeader, hCopy⟩ := h.ring.reads_inside (K := K)
  refine ⟨read, unread, h.arrived, h.returned, h.ring.step_poll.1, h.oldest, ?_,
    h.ring.aligned, h.ring.lt, hHeader, hCopy⟩
  intro f hf
  cases unread with
  | nil => simp at hf
  | cons g gs =>
    obtain rfl : g = f := by simpa using hf
    exact h.ring.queued.1

/-- A card for concrete runs. -/
def demoCard : Card :=
  { ioBase := 0xC000, txBase := 0x200000, present := by decide, fits := by decide }

/-- The least frame: four bytes and a CRC. -/
def shortFrame : Frame :=
  { status := 1, data := [1, 2, 3, 4, 0xAA, 0xBB, 0xCC, 0xDD], word := by decide, rok := rfl,
    minLen := by decide, maxLen := by decide }

def demoRx : Rx := Rx.boot (fun _ => 0) (fun _ => 0)

def demoActs : List RxAct :=
  [.arrive shortFrame, .poll ((demoRx.store shortFrame).output demoCard)]

theorem receive_ring_fifo_demo :
    ∃ read unread : List Frame, arrivals demoActs = read ++ unread ∧
      returned demoActs = read.map Frame.packet := by
  have hFits : keepsGap demoRx shortFrame := by
    refine ⟨?_, ?_⟩ <;> simp [fitsRing, nextWrite, Rx.free, Rx.readPos, demoRx, Rx.boot, shortFrame]
  obtain ⟨read, unread, hArrived, hReturned, -⟩ :=
    receive_ring_fifo (.cons (.arrive hFits) (.cons (RxStep.poll (K := demoCard)) (.nil _)))
  exact ⟨read, unread, hArrived, hReturned⟩

-- ---------------------------------------------------------------------------
-- A ring filled to the last byte
-- ---------------------------------------------------------------------------

/-- A frame that takes up 1024 bytes of the ring. -/
def longFrame : Frame :=
  { status := 1, data := List.replicate 1020 0, word := by decide, rok := rfl,
    minLen := by rw [List.length_replicate]; decide
    maxLen := by rw [List.length_replicate]; decide }

theorem length_longFrame : longFrame.data.length = 1020 := List.length_replicate ..

/-- Eight long frames fit exactly, and bring `w` back to the read position. -/
theorem ring_fills {k : Nat} (hk : k ≤ 8) :
    ∃ s, Run (RxStep demoCard fitsRing) demoRx (List.replicate k (.arrive longFrame)) s ∧
      s.w = 1024 * k % 8192 ∧ s.capr = 0xFFF0 ∧ s.rxOffset = 0 := by
  induction k with
  | zero => exact ⟨demoRx, .nil _, rfl, rfl, rfl⟩
  | succ k ih =>
    obtain ⟨s, hRun, hw, hCapr, hOffset⟩ := ih (by omega)
    have hPos : s.readPos = 0 := by rw [Rx.readPos, hCapr]
    have hFits : fitsRing s longFrame := by
      rw [fitsRing, Rx.free, length_longFrame, hPos, hw]
      split <;> omega
    refine ⟨s.store longFrame, ?_, ?_, hCapr, hOffset⟩
    · rw [List.replicate_succ']
      exact hRun.snoc (.arrive hFits)
    · show nextWrite s.w longFrame = _
      rw [nextWrite, length_longFrame, hw]
      omega

/--
The gap is needed: if the card may fill the ring completely, the pointers coincide
with eight frames unread. The ring then looks empty, the next frame lands on the
first one, and the next poll returns it ahead of the other eight.
-/
theorem receive_ring_overrun :
    ∃ acts s, Run (RxStep demoCard fitsRing) demoRx acts s ∧
      ¬ ∃ read unread : List Frame, arrivals acts = read ++ unread ∧
        returned acts = read.map Frame.packet := by
  obtain ⟨s, hRun, hw, hCapr, hOffset⟩ := ring_fills (k := 8) (by omega)
  have hPos : s.readPos = 0 := by rw [Rx.readPos, hCapr]
  have hFits : fitsRing s shortFrame := by
    rw [fitsRing, Rx.free, hPos, hw, if_pos (by decide)]
    decide
  -- the ninth frame overwrites the first, and the poll finds it there
  have hOut : (s.store shortFrame).output demoCard = some shortFrame.packet := by
    have hNext : (s.store shortFrame).w = 12 := by
      show nextWrite s.w shortFrame = 12
      rw [hw]
      decide
    refine output_frame ?_ ?_ ?_ ?_
    · rw [hNext]
      show s.readPos ≠ 12
      rw [hPos]
      decide
    · show (s.store shortFrame).rxBuffer.slice s.rxOffset _ = _
      rw [store_rxBuffer, hOffset, hw]
      exact Mem.slice_blit _ _ _
    · show s.rxOffset % 4 = 0
      rw [hOffset]
    · show s.rxOffset < 8192
      rw [hOffset]
      decide
  refine ⟨_, _, (hRun.snoc (.arrive hFits)).snoc .poll, ?_⟩
  rw [hOut]
  rintro ⟨read, unread, hArrived, hReturned⟩
  have hFirst : returned (List.replicate 8 (.arrive longFrame) ++ [.arrive shortFrame] ++
      [.poll (some shortFrame.packet)]) = [shortFrame.packet] := rfl
  rw [hFirst] at hReturned
  -- one packet was returned, so it would have to be the first long frame's
  obtain ⟨f, rfl⟩ : ∃ f, read = [f] := by
    have hLen := congrArg List.length hReturned
    simp only [List.length_map, List.length_cons, List.length_nil] at hLen
    exact List.length_eq_one_iff.mp hLen.symm
  have hf : longFrame = f := (List.cons.inj hArrived).1
  have hPacket : shortFrame.packet = longFrame.packet := by
    rw [hf]
    exact (List.cons.inj hReturned).1
  have hLength := congrArg List.length hPacket
  rw [length_packet, length_packet, length_longFrame] at hLength
  exact absurd hLength (by decide)

-- ---------------------------------------------------------------------------
-- Arbitrary ring headers
-- ---------------------------------------------------------------------------

/-- What a call of `nic_poll_received_packet` finds: any command byte and any content
of `rx_buffer`. -/
structure PollCall where
  command  : Nat
  rxBuffer : Mem

/-- One call of a run: where it read, what it found, what it did. -/
structure PollEvent where
  offset : Nat
  call   : PollCall
  polled : Polled

/-- A run of calls, `rx_offset` carried from one to the next. `netif_driver_poll` goes
on calling while packets come and starts over when it is called again, so every
list of calls is one it makes. -/
def pollRun (K : Card) : Nat → List PollCall → List PollEvent
  | _, [] => []
  | offset, c :: calls =>
    let p := nicPollReceivedPacket K.ioBase c.command c.rxBuffer offset
    { offset := offset, call := c, polled := p } :: pollRun K p.rxOffset calls

/-- The call stayed inside both buffers and left `rx_offset` well formed. The size of
the copy is a `size_t`, so a negative `length - 4` shows up as a huge one. -/
structure Tolerated (p : Polled) : Prop where
  source      : ∀ src n, p.copy = some (src, n) → src + n ≤ rxBufferSize
  destination : ∀ src n, p.copy = some (src, n) → n ≤ rxTempSize
  aligned     : p.rxOffset % 4 = 0
  lt          : p.rxOffset < 8192

/-- The header at `offset` announces a packet that the buffers can hold, or none. -/
def HeaderOk (offset : Nat) (c : PollCall) : Prop :=
  c.command % 2 = 0 → c.rxBuffer.read16 offset % 2 = 1 →
    4 ≤ c.rxBuffer.read16 (offset + 2) ∧
    c.rxBuffer.read16 (offset + 2) ≤ rxTempSize + 4 ∧
    offset + c.rxBuffer.read16 (offset + 2) ≤ rxBufferSize

/-- From any aligned offset the pointer update yields an aligned one below 8192, for
every length of at most 8184 bytes. -/
theorem advance_wellFormed {offset length : Nat} (hlt : offset < 8192) (hLen : length ≤ 8184) :
    advance offset length % 4 = 0 ∧ advance offset length < 8192 := by
  rw [advance_eq (by omega)]
  omega

theorem and_one_ne_zero_iff {x : Nat} : x &&& 0x01 ≠ 0 ↔ x % 2 = 1 := by
  rw [Nat.and_one_is_mod]
  omega

/-- A header in order is handled in order. -/
theorem tolerated_of_headerOk {K : Card} {offset : Nat} {c : PollCall}
    (ho : offset % 4 = 0) (hlt : offset < 8192) (h : HeaderOk offset c) :
    Tolerated (nicPollReceivedPacket K.ioBase c.command c.rxBuffer offset) := by
  have hTemp : rxTempSize = 2048 := rfl
  rw [nicPollReceivedPacket, if_neg K.present.1]
  by_cases hBufe : c.command &&& 0x01 ≠ 0
  · rw [if_pos hBufe]
    exact ⟨by simp, by simp, ho, hlt⟩
  · rw [if_neg hBufe]
    rw [and_one_ne_zero_iff] at hBufe
    dsimp only
    by_cases hRok : c.rxBuffer.read16 offset &&& 0x01 ≠ 0
    · -- the unsanitised branch, where the header decides
      rw [if_pos hRok]
      obtain ⟨hMin, hMax, hEnd⟩ := h (by omega) (and_one_ne_zero_iff.mp hRok)
      have hSub := sub32_of_le hMin (by omega)
      obtain ⟨hAligned, hBelow⟩ := advance_wellFormed hlt (by omega :
        c.rxBuffer.read16 (offset + 2) ≤ 8184)
      refine ⟨?_, ?_, hAligned, hBelow⟩
      · rintro src n ⟨⟩
        rw [hSub]
        omega
      · rintro src n ⟨⟩
        rw [hSub]
        omega
    · -- the error branch replaces every odd length by 64 or keeps one of at most 1536
      rw [if_neg hRok]
      obtain ⟨hAligned, hBelow⟩ := advance_wellFormed hlt (by split <;> omega :
        (if c.rxBuffer.read16 (offset + 2) = 0 ∨ 1536 < c.rxBuffer.read16 (offset + 2) then 64
          else c.rxBuffer.read16 (offset + 2)) ≤ 8184)
      exact ⟨by simp, by simp, hAligned, hBelow⟩

/-- A header out of order is not: the copy leaves one of the two buffers. -/
theorem headerOk_of_tolerated {K : Card} {offset : Nat} {c : PollCall}
    (h : Tolerated (nicPollReceivedPacket K.ioBase c.command c.rxBuffer offset)) :
    HeaderOk offset c := by
  intro hBufe hRok
  have hTemp : rxTempSize = 2048 := rfl
  have hCopy : (nicPollReceivedPacket K.ioBase c.command c.rxBuffer offset).copy =
      some (offset + 4, sub32 (c.rxBuffer.read16 (offset + 2)) 4) := by
    rw [nicPollReceivedPacket, if_neg K.present.1,
      if_neg (by rw [and_one_ne_zero_iff]; omega)]
    dsimp only
    rw [if_pos (and_one_ne_zero_iff.mpr hRok)]
  have hSource := h.source _ _ hCopy
  have hDest := h.destination _ _ hCopy
  have hWord := c.rxBuffer.read16_lt (offset + 2)
  -- below 4 the subtraction wraps to nearly 2 ^ 32
  have hMin : 4 ≤ c.rxBuffer.read16 (offset + 2) := by
    unfold sub32 at hDest
    omega
  rw [sub32_of_le hMin (by omega)] at hSource hDest
  omega

/--
**Which headers the receive path survives.** Over every run of calls, with any content
of `rx_buffer` at each: all calls stay inside `rx_buffer` and `rx_temp_buffer` and
keep `rx_offset` a multiple of 4 below 8192 exactly when each header that announces
a good packet has a length the buffers can hold.
-/
theorem poll_tolerates_iff (K : Card) (calls : List PollCall) :
    (∀ e ∈ pollRun K 0 calls, Tolerated e.polled) ↔
      ∀ e ∈ pollRun K 0 calls, HeaderOk e.offset e.call := by
  suffices hGen : ∀ offset, offset % 4 = 0 → offset < 8192 →
      ((∀ e ∈ pollRun K offset calls, Tolerated e.polled) ↔
        ∀ e ∈ pollRun K offset calls, HeaderOk e.offset e.call) from
    hGen 0 rfl (by decide)
  induction calls with
  | nil => simp [pollRun]
  | cons c calls ih =>
    intro offset ho hlt
    simp only [pollRun, List.forall_mem_cons]
    constructor
    · rintro ⟨hHead, hTail⟩
      exact ⟨headerOk_of_tolerated hHead, (ih _ hHead.aligned hHead.lt).mp hTail⟩
    · rintro ⟨hHead, hTail⟩
      have hTol := tolerated_of_headerOk (K := K) ho hlt hHead
      exact ⟨hTol, (ih _ hTol.aligned hTol.lt).mpr hTail⟩

/-- A good-packet header with length 0: the copy is of 4294967292 bytes. -/
theorem zero_length_not_tolerated :
    ¬ ∀ e ∈ pollRun demoCard 0
        [{ command := 0x0C, rxBuffer := Mem.write16 (fun _ => 0) 0 1 }], Tolerated e.polled := by
  intro h
  have hTol := h _ (List.mem_singleton_self _)
  have hSize := hTol.destination 4 4294967292 (by decide)
  exact absurd hSize (by decide)

end Nao.Rtl8139
