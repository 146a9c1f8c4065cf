import Nao.Lib.Machine
import Nao.Lib.History

/-!
# The network monitor — definitions

`ping_recv_cb`, `send_ping_packet` and `update_network_monitor` of `kernel.c`.

The main loop calls `update_network_monitor` with the timer's tick; lwIP calls `ping_recv_cb`
for every ICMP packet that arrives. A batch is four echo requests, then a wait, then a
verdict. The requests of a run are numbered in the order in which they are sent. Which of
them a packet answers, if any, is known to the network but not to the code, which looks at the
length and the type of a packet only; `requests`, the number of requests sent so far, is kept
for the same purpose and never read.
-/

namespace Nao.NetMonitor

open SysLib

/-- `net_status_t`. -/
inductive NetStatus where
  | unknown | connected | disconnected
  deriving DecidableEq, Repr

/-- `ping_pcb != NULL`, `pings_sent`, `pings_received`, `last_ping_tick`,
`last_status_print_tick`, `last_packet_sent_tick`, `wait_start` and `current_net_status`. -/
structure Monitor where
  pingPcb             : Bool
  pingsSent           : Nat
  pingsReceived       : Nat
  lastPingTick        : BitVec 32
  lastStatusPrintTick : BitVec 32
  lastPacketSentTick  : BitVec 32
  waitStart           : BitVec 32
  status              : NetStatus
  requests            : Nat
  deriving DecidableEq

def Monitor.boot : Monitor :=
  { pingPcb := false, pingsSent := 0, pingsReceived := 0, lastPingTick := 0
    lastStatusPrintTick := 0, lastPacketSentTick := 0, waitStart := 0, status := .unknown
    requests := 0 }

/-- What can be seen of the monitor: a request with its sequence number, an echo reply that is
counted (with the request it answers), the wait, and the verdict at the end of a batch. -/
inductive Event where
  | sent (tick seqno : Nat)
  | reply (answers : Option Nat)
  | waiting (tick : Nat)
  | ended (tick : Nat) (status : NetStatus)
  deriving DecidableEq

-- ---------------------------------------------------------------------------
-- ping_recv_cb
-- ---------------------------------------------------------------------------

/-- A packet handed to `ping_recv_cb`: its length, the ICMP type in it, and the number of the
request it answers (`none` for a reply to somebody else). -/
structure Pbuf where
  len     : Nat
  type    : UInt8
  answers : Option Nat

/-- `PBUF_IP_HLEN`. -/
def pbufIpHlen : Nat := 20

/-- `sizeof(struct icmp_echo_hdr)`. -/
def sizeofIcmpEchoHdr : Nat := 8

/-- `ICMP_ER`. -/
def icmpEr : UInt8 := 0

/-- A packet cannot answer a request that has not been sent yet. -/
def pingRecvCb (p : Pbuf) (s : Monitor) : Traced Event Monitor :=
  if p.len ≥ pbufIpHlen + sizeofIcmpEchoHdr then
    if p.type = icmpEr then do
      Traced.tell (.reply (p.answers.filter (· < s.requests)))
      pure { s with pingsReceived := s.pingsReceived + 1 }
    else pure s
  else pure s

-- ---------------------------------------------------------------------------
-- send_ping_packet and update_network_monitor
-- ---------------------------------------------------------------------------

/-- `alloc` is whether `pbuf_alloc` succeeds; the result of `raw_sendto` is ignored. -/
def sendPingPacket (tick : BitVec 32) (alloc : Bool) (s : Monitor) : Traced Event Monitor :=
  if alloc then do
    Traced.tell (.sent tick.toNat (s.pingsSent + 1))
    pure { s with pingsSent := s.pingsSent + 1, requests := s.requests + 1 }
  else pure s

/-- `if (current_tick - last_status_print_tick >= ticks) last_status_print_tick = current_tick;` -/
def statusPrint (currentTick ticks : BitVec 32) (s : Monitor) : Monitor :=
  if currentTick - s.lastStatusPrintTick ≥ ticks then
    { s with lastStatusPrintTick := currentTick }
  else s

/-- `ms_since_last_batch`. -/
def msSinceLastBatch (currentTick : BitVec 32) (s : Monitor) : BitVec 32 :=
  if s.lastPingTick = 0 then 999999 else (currentTick - s.lastPingTick) * 1000 / 18

/-- The four assignments that end a batch. -/
def endBatch (currentTick : BitVec 32) (status : NetStatus) (s : Monitor) : Traced Event Monitor := do
  Traced.tell (.ended currentTick.toNat status)
  pure { s with status, pingsSent := 0, waitStart := 0, lastPingTick := currentTick }

def updateNetworkMonitor (currentTick : BitVec 32) (alloc : Bool) (s : Monitor) :
    Traced Event Monitor :=
  let s := { s with pingPcb := true }
  let ms := msSinceLastBatch currentTick s
  let msThreshold : BitVec 32 := 15000
  if s.pingsSent = 0 then
    let s := if s.lastPingTick ≠ 0 then statusPrint currentTick 18 s else s
    if ms ≥ msThreshold ∨ s.lastPingTick = 0 then
      sendPingPacket currentTick alloc { s with pingsReceived := 0 }
    else pure s
  else if s.pingsSent < 4 then
    if currentTick - s.lastPacketSentTick > 15 then do
      let s ← sendPingPacket currentTick alloc s
      pure { s with lastPacketSentTick := currentTick }
    else pure s
  else if s.waitStart = 0 then do
    Traced.tell (.waiting currentTick.toNat)
    pure { s with waitStart := currentTick }
  else
    let s := statusPrint currentTick 5 s
    if s.pingsReceived = 4 then endBatch currentTick .connected s
    else if currentTick - s.waitStart > 100 then endBatch currentTick .disconnected s
    else pure s

-- ---------------------------------------------------------------------------
-- The machine
-- ---------------------------------------------------------------------------

inductive Input where
  | update (tick : BitVec 32) (alloc : Bool)
  | deliver (p : Pbuf)

/-- Packets reach `ping_recv_cb` once the raw socket exists. -/
def step (s : Monitor) : Input → Traced Event Monitor
  | .update tick alloc => updateNetworkMonitor tick alloc s
  | .deliver p => if s.pingPcb then pingRecvCb p s else pure s

end Nao.NetMonitor
