import Nao.Lib.Mem
import Nao.Lib.Bits

/-!
# RTL8139 driver — definitions

The receive and transmit paths of `rtl8139.c` with the lwIP glue of
`netif_driver.c`. A register is named by its offset from `io_base`; a port access
is a value the function takes from the card or hands to it (`Polled.capr`, the
writes of `nicTransmitPacket`), and the card itself is modelled beside the results about it
(`Rtl8139/Receive.lean`, `Rtl8139/Transmit.lean`).

`rx_buffer` is indexed from 0, so an index past `rxBufferSize` is a read outside
the array. The four `tx_buffers` are consecutive in physical memory from `txBase`
on, since the card finds them by the address the driver gives it.
-/

namespace Nao.Rtl8139

open SysLib

-- ---------------------------------------------------------------------------
-- Sizes and registers
-- ---------------------------------------------------------------------------

/-- `sizeof(rx_buffer)`. -/
def rxBufferSize : Nat := 8192 + 16 + 1518

/-- `sizeof(rx_temp_buffer)` in `netif_driver_poll`. -/
def rxTempSize : Nat := 2048

/-- `sizeof(tx_buffers[n])`. -/
def txBufferSize : Nat := 1536

/-- `sizeof(tx_buffer)`, the stack frame of `low_level_output`. -/
def txStackSize : Nat := 1518

def regTxStatus0 : Nat := 0x10
def regTxAddr0 : Nat := 0x20

/-- What `init_rtl8139` writes to `REG_RCR`: accept everything, and WRAP (bit 7). -/
def rcrInit : Nat := 0x0000000F ||| (1 <<< 7)

/-- What `init_rtl8139` writes to `REG_COMMAND`: receiver and transmitter on. -/
def commandInit : Nat := 0x0C

/-- Where `init_rtl8139` found the card. It gives up on an `io_base` of 0 or 0xFFFC,
so after a successful start neither guard of the driver fires. `txBase` is the
address of `tx_buffers`. -/
structure Card where
  ioBase  : Nat
  txBase  : Nat
  present : ioBase ≠ 0 ∧ ioBase ≠ 0xFFFC
  fits    : txBase + 4 * txBufferSize ≤ 2 ^ 32

-- ---------------------------------------------------------------------------
-- nic_poll_received_packet
-- ---------------------------------------------------------------------------

/-- What one call of `nic_poll_received_packet` does. -/
structure Polled where
  /-- The returned 32-bit length. -/
  ret      : Nat
  /-- `memcpy(buffer, &rx_buffer[src], n)`, as `(src, n)`. -/
  copy     : Option (Nat × Nat)
  /-- `rx_offset` afterwards. -/
  rxOffset : Nat
  /-- The 16-bit value written to `REG_CAPR`. -/
  capr     : Option Nat
  deriving DecidableEq, Repr

/-- `rx_offset = (offset + length + 4 + 3) & ~3; if (rx_offset >= 8192) rx_offset -= 8192;` -/
def advance (offset length : Nat) : Nat :=
  let next := ((offset + length + 4 + 3) % 2 ^ 32) &&& (2 ^ 32 - 1 - 3)
  if 8192 ≤ next then next - 8192 else next

/-- `outw(io_base + REG_CAPR, rx_offset - 0x10)`: the port takes the low 16 bits. -/
def caprValue (rxOffset : Nat) : Nat := sub32 rxOffset 0x10 % 2 ^ 16

/-- `nic_poll_received_packet(buffer)`, given the byte read from `REG_COMMAND`. -/
def nicPollReceivedPacket (ioBase command : Nat) (rxBuffer : Mem) (rxOffset : Nat) : Polled :=
  if ioBase = 0 then { ret := 0, copy := none, rxOffset := rxOffset, capr := none }
  else if command &&& 0x01 ≠ 0 then
    { ret := 0, copy := none, rxOffset := rxOffset, capr := none }
  else
    let offset := rxOffset
    let status := rxBuffer.read16 offset
    let length := rxBuffer.read16 (offset + 2)
    if status &&& 0x01 ≠ 0 then
      -- `length` is taken as it is here; `length - 4` becomes the `size_t` of a `memcpy`
      let next := advance offset length
      { ret := sub32 length 4, copy := some (offset + 4, sub32 length 4)
        rxOffset := next, capr := some (caprValue next) }
    else
      let length := if length = 0 ∨ 1536 < length then 64 else length
      let next := advance offset length
      { ret := 0, copy := none, rxOffset := next, capr := some (caprValue next) }

/-- The destination buffer after the call. -/
def Polled.fill (p : Polled) (rxBuffer buffer : Mem) : Mem :=
  match p.copy with
  | none => buffer
  | some (src, n) => buffer.blit 0 (rxBuffer.slice src n)

/-- The packet a caller finds: the first `ret` bytes of its buffer, or none. -/
def Polled.packet (p : Polled) (rxBuffer buffer : Mem) : Option (List UInt8) :=
  if p.ret = 0 then none else some ((p.fill rxBuffer buffer).slice 0 p.ret)

-- ---------------------------------------------------------------------------
-- nic_transmit_packet and low_level_output
-- ---------------------------------------------------------------------------

/-- The transmit side of the driver: physical memory, which holds `tx_buffers`, and
`tx_counter`. -/
structure TxDriver where
  mem       : Mem
  txCounter : Nat

/-- Address of `tx_buffers[n]`. -/
def Card.txBuffer (K : Card) (n : Nat) : Nat := K.txBase + n * txBufferSize

/-- `nic_transmit_packet(buffer, length)`; a NULL `buffer` is `none`. The second
component is the `outl` writes, in order, as register and value. -/
def nicTransmitPacket (K : Card) (d : TxDriver) (buffer : Option (List UInt8)) (length : Nat) :
    TxDriver × List (Nat × Nat) :=
  if K.ioBase = 0 ∨ K.ioBase = 0xFFFC then (d, [])
  else
    match buffer with
    | none => (d, [])
    | some bytes =>
      if 1536 < length ∨ length = 0 then (d, [])
      else
        let mem := d.mem.blit (K.txBuffer d.txCounter) (bytes.take length)
        let addrReg := regTxAddr0 + d.txCounter * 4
        let statusReg := regTxStatus0 + d.txCounter * 4
        ({ mem := mem, txCounter := (d.txCounter + 1) % 4 },
          [(addrReg, K.txBuffer d.txCounter), (statusReg, length &&& 0x1FFF)])

/-- One turn of the inner loop of `low_level_output`: bytes past the stack frame are
dropped. -/
def gatherByte (txBuffer : List UInt8) (b : UInt8) : List UInt8 :=
  if txBuffer.length < txStackSize then txBuffer ++ [b] else txBuffer

/-- The two nested loops of `low_level_output`. A pbuf chain is the list of its
payloads. -/
def gather (chain : List (List UInt8)) : List UInt8 :=
  chain.foldl (fun txBuffer payload => payload.foldl gatherByte txBuffer) []

/-- `low_level_output(netif, p)`. -/
def lowLevelOutput (K : Card) (d : TxDriver) (chain : List (List UInt8)) :
    TxDriver × List (Nat × Nat) :=
  let txBuffer := gather chain
  nicTransmitPacket K d (some txBuffer) txBuffer.length

end Nao.Rtl8139
