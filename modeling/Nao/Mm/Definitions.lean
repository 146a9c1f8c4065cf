import Nao.Lib.Loop
import Nao.Lib.Mem
import Nao.Lib.Bits
import Nao.Lib.Lts

/-!
# The kernel heap — `mm.c` and its users

A byte-level embedding of the memory manager for the `-m32` build. Pointers are
32-bit addresses, `NULL` is `0`, and a `struct block_header` occupies twelve
bytes of the heap array itself: `size` at offset 0, `is_free` at offset 4 (the
three bytes behind it are padding and never written), `next` at offset 8.

The `while` loops of the source are `SysLib.loop`s and carry fuel: `kmalloc`,
`kfree` and `getUsedMemory` answer `none` when the fuel runs out, so that a
statement "the loop terminates" is a statement about them and not about the
model. The out-of-memory `while(1)` of `kmalloc` is the outcome `panic`.

`Step` is the heap in use: callers may ask for any 32-bit size, free `NULL` or a
pointer they hold, and write to the bytes of the blocks they hold.
-/

namespace Nao.Mm

open SysLib

/-! ## Layout -/

/-- `sizeof(struct block_header)` under `-m32`. -/
def headerSize : Nat := 12

/-- `sizeof(kernel_heap_space)`. -/
def heapSize : Nat := 4 * 1024 * 1024

/-- `ALIGN(size)`, in 32-bit arithmetic. -/
def align (size : Nat) : Nat := (size + 7) % 2 ^ 32 &&& ((2 ^ 32 - 1) - 7)

/-- Where the linker put `kernel_heap_space`: `heap_start` is not `NULL`, and the
address one past the array is a 32-bit address too, as for every C object. -/
structure Site where
  heapStart : Nat
  pos       : 0 < heapStart
  fits      : heapStart + heapSize < 2 ^ 32

/-- The globals of `mm.c`, over the memory they live in. -/
structure State where
  mem           : Mem
  mmInitialized : Bool

/-- `h->size`. -/
def sizeAt (m : Mem) (h : Nat) : Nat := m.read32 h

/-- `h->is_free`. -/
def isFreeAt (m : Mem) (h : Nat) : UInt8 := m (h + 4)

/-- `h->next`. -/
def nextAt (m : Mem) (h : Nat) : Nat := m.read32 (h + 8)

def setSize (m : Mem) (h v : Nat) : Mem := m.write32 h v

def setIsFree (m : Mem) (h : Nat) (v : UInt8) : Mem := m.write8 (h + 4) v

def setNext (m : Mem) (h v : Nat) : Mem := m.write32 (h + 8) v

/-! ## The allocator -/

/-- `init_mm`: one free block over the whole heap. -/
def initMm (K : Site) (s : State) : State :=
  let m := setSize s.mem K.heapStart (heapSize - headerSize)
  let m := setIsFree m K.heapStart 1
  { mem := setNext m K.heapStart 0, mmInitialized := true }

/-- One turn of `kmalloc`'s search: the block found, or `none` at the end of the
chain. -/
def searchBody (m : Mem) (neededSize current : Nat) : Turn Nat (Option Nat) :=
  if current = 0 then .exit none
  else if isFreeAt m current ≠ 0 ∧ neededSize ≤ sizeAt m current then .exit (some current)
  else .again (nextAt m current)

/-- The body of the `if` in `kmalloc`: split `current` when the rest can hold a
header and eight bytes, and mark it used. -/
def takeBlock (m : Mem) (neededSize current : Nat) : Mem :=
  let m :=
    if (neededSize + headerSize + 8) % 2 ^ 32 ≤ sizeAt m current then
      let nextBlock := (current + headerSize + neededSize) % 2 ^ 32
      let m := setSize m nextBlock (sub32 (sub32 (sizeAt m current) neededSize) headerSize)
      let m := setIsFree m nextBlock 1
      let m := setNext m nextBlock (nextAt m current)
      let m := setSize m current neededSize
      setNext m current nextBlock
    else m
  setIsFree m current 0

/-- How a `kmalloc` call ends. -/
inductive Outcome where
  | ptr (p : Nat)
  | panic
  deriving DecidableEq, Repr

def kmalloc (K : Site) (fuel size : Nat) (s : State) : Option (Outcome × State) :=
  let s := if s.mmInitialized then s else initMm K s
  let neededSize := align size
  match loop (searchBody s.mem neededSize) fuel K.heapStart with
  | none => none
  | some none => some (.panic, s)
  | some (some current) =>
    some (.ptr ((current + headerSize) % 2 ^ 32),
      { s with mem := takeBlock s.mem neededSize current })

/-- One turn of `kfree`'s coalescing loop. A merge does not advance `current`. -/
def coalesceBody (c : Nat × Mem) : Turn (Nat × Mem) Mem :=
  let (current, m) := c
  if current = 0 then .exit m
  else if nextAt m current ≠ 0 ∧ isFreeAt m current ≠ 0 ∧
      isFreeAt m (nextAt m current) ≠ 0 then
    let m := setSize m current
      ((sizeAt m current + (headerSize + sizeAt m (nextAt m current))) % 2 ^ 32)
    let m := setNext m current (nextAt m (nextAt m current))
    .again (current, m)
  else .again (nextAt m current, m)

def kfree (K : Site) (fuel ptr : Nat) (s : State) : Option State :=
  if ptr = 0 then some s
  else
    let header := sub32 ptr headerSize
    (loop coalesceBody fuel (K.heapStart, setIsFree s.mem header 1)).map fun m =>
      { s with mem := m }

/-! ## Heap metrics -/

def getTotalMemory : Nat := 4 * 1024 * 1024

/-- One turn of `get_used_memory`'s walk; the second component is `used_bytes`. -/
def usedBody (m : Mem) (c : Nat × Nat) : Turn (Nat × Nat) Nat :=
  let (current, usedBytes) := c
  if current = 0 then .exit usedBytes
  else
    let usedBytes := (usedBytes + headerSize) % 2 ^ 32
    let usedBytes :=
      if isFreeAt m current = 0 then (usedBytes + sizeAt m current) % 2 ^ 32 else usedBytes
    .again (nextAt m current, usedBytes)

def getUsedMemory (K : Site) (fuel : Nat) (s : State) : Option Nat :=
  if s.mmInitialized then loop (usedBody s.mem) fuel (K.heapStart, 0) else some 0

/-- The System Monitor's `mem_percent` before the clamp (`kernel.c`). -/
def memPercentRaw (usedMem totalMem : Nat) : Nat := usedMem * 100 % 2 ^ 32 / totalMem

/-- The System Monitor's `mem_percent` (`kernel.c`). -/
def memPercent (usedMem totalMem : Nat) : Nat :=
  if 0 < totalMem then
    if 100 < memPercentRaw usedMem totalMem then 100 else memPercentRaw usedMem totalMem
  else 0

/-! ## The heap in use -/

/-- The heap together with the pointers its callers hold: returned by `kmalloc`
and not freed since. -/
structure Sys where
  st   : State
  live : List Nat

/-- Usable bytes behind a pointer, as its header says. -/
def blockSize (m : Mem) (p : Nat) : Nat := sizeAt m (p - headerSize)

/-- What a caller can do. -/
inductive Op where
  | kmalloc (size : Nat)
  | kfree (p : Nat)
  | store (a : Nat) (v : UInt8)
  deriving DecidableEq, Repr

/-- One call that returns, or one write of a caller into a block it holds. -/
inductive Step (K : Site) : Sys → Op → Sys → Prop where
  | kmalloc {s : Sys} {fuel size p : Nat} {st : State} (hSize : size < 2 ^ 32)
      (hRet : kmalloc K fuel size s.st = some (.ptr p, st)) :
      Step K s (.kmalloc size) { st := st, live := p :: s.live }
  | kfree {s : Sys} {fuel p : Nat} {st : State} (hp : p = 0 ∨ p ∈ s.live)
      (hRet : kfree K fuel p s.st = some st) :
      Step K s (.kfree p) { st := st, live := s.live.erase p }
  | store {s : Sys} {p a : Nat} {v : UInt8} (hp : p ∈ s.live)
      (ha : p ≤ a ∧ a < p + blockSize s.st.mem p) :
      Step K s (.store a v) { s with st := { s.st with mem := s.st.mem.write8 a v } }

/-- The heap right after `init_mm`, on any memory. -/
def Sys.init (K : Site) (s : State) : Sys := { st := initMm K s, live := [] }

/-- The states of the heap in use. -/
def Reachable (K : Site) (s : Sys) : Prop :=
  ∃ st ops, Run (Step K) (Sys.init K st) ops s

/-! ## The block chain in memory -/

/-- A `struct block_header` read out of memory. -/
structure Header where
  addr   : Nat
  size   : Nat
  isFree : UInt8
  next   : Nat
  deriving DecidableEq

def headerAt (m : Mem) (h : Nat) : Header :=
  { addr := h, size := sizeAt m h, isFree := isFreeAt m h, next := nextAt m h }

/-- The headers met by following `next` from `h` to `NULL`. -/
inductive ChainFrom (m : Mem) : Nat → List Header → Prop where
  | null : ChainFrom m 0 []
  | cons {h : Nat} {hs : List Header} (hh : h ≠ 0) (hRest : ChainFrom m (nextAt m h) hs) :
      ChainFrom m h (headerAt m h :: hs)

end Nao.Mm
