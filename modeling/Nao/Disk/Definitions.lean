import Nao.Lib.Loop
import Nao.Lib.Mem

/-!
# ATA disk driver — definitions

`disk_read` and `disk_write` of `diskio.c`, the IRQ 14 branch of `isr_handler` in
`idt.c`, and the drive they talk to.

The drive is given by a `Drive`: how long each command takes, which READ SECTORS
commands end with an error, and what the data port yields when there is no data. Its
time advances by one `tick` at every port access and every turn of a waiting loop, so
quantifying over all drives is quantifying over all points at which the interrupt can
arrive. A command that finishes raises IRQ 14 once, and the handler runs at that tick.

The driver's waiting loops take a fuel argument; an answer `none` means it ran out.
-/

namespace Nao.Disk

open SysLib

-- ---------------------------------------------------------------------------
-- The drive
-- ---------------------------------------------------------------------------

/-- 512 bytes. -/
structure Sector where
  bytes : List UInt8
  size  : bytes.length = 512

/-- The 256 words the data port yields for a sector. -/
def Sector.words (s : Sector) : List Nat := Mem.toWords s.bytes

/-- The sector made of 256 words. -/
def Sector.ofWords (ws : List Nat) (h : ws.length = 256) : Sector :=
  { bytes := Mem.ofWords ws, size := by rw [Mem.length_ofWords, h] }

/-- What the drive is doing. The busy phases count the ticks left; `readData` and
`writeData` hold the words still to be read and those received so far; `failed` counts
the reads of the data port since the error. -/
inductive Phase where
  | idle
  | failed (reads : Nat)
  | readBusy (delay : Nat)
  | readData (words : List Nat)
  | writeBusy (delay : Nat)
  | writeData (words : List Nat)
  | commitBusy (delay : Nat) (sector : Sector)

/-- The drive waits for a command. -/
def Phase.quiet : Phase → Bool
  | .idle | .failed _ => true
  | _ => false

/-- BSY is 0x80, DRDY 0x40, DRQ 0x08, ERR 0x01. -/
def Phase.status : Phase → Nat
  | .idle => 0x40
  | .failed _ => 0x41
  | .readBusy _ | .writeBusy _ | .commitBusy _ _ => 0x80
  | .readData _ | .writeData _ => 0x48

/-- The byte registers of a command block. -/
structure TaskFile where
  features    : Nat
  sectorCount : Nat
  lbaLow      : Nat
  lbaMid      : Nat
  lbaHigh     : Nat
  drive       : Nat

/-- The 28-bit address latched in the registers. -/
def TaskFile.lba (r : TaskFile) : Nat :=
  r.drive % 16 * 2 ^ 24 + r.lbaHigh * 2 ^ 16 + r.lbaMid * 2 ^ 8 + r.lbaLow

/-- One sector, LBA addressing, master drive. -/
def TaskFile.oneSector (r : TaskFile) : Bool := r.sectorCount == 1 && r.drive / 16 == 0xE

/-- `serial` is the number of the last command accepted. -/
structure Ata where
  disk   : Nat → Sector
  regs   : TaskFile
  phase  : Phase
  serial : Nat

/-- How the drive behaves, by command number. -/
structure Drive where
  readDelay   : Nat → Nat
  drqDelay    : Nat → Nat
  commitDelay : Nat → Nat
  /-- READ SECTORS number `k` ends with ERR and no data. -/
  fails       : Nat → Bool
  /-- What the data port yields after a failed command. -/
  floating    : Nat → Nat → Nat

-- ---------------------------------------------------------------------------
-- The machine
-- ---------------------------------------------------------------------------

/-- What happened, for the record: a command was issued, its interrupt was handled, a
waiting loop was left. -/
inductive Event where
  | issued (command : Nat)
  | irq (command : Nat)
  | woke
  deriving DecidableEq, Repr

structure Machine where
  ata               : Ata
  mem               : Mem
  ideInterruptFired : UInt8
  log               : List Event

def Machine.setPhase (m : Machine) (p : Phase) : Machine := { m with ata := { m.ata with phase := p } }

/-- `isr_handler` for IRQ 14. Reading the status register and the end-of-interrupt
writes change nothing that is modelled here. -/
def isrHandler (m : Machine) : Machine :=
  { m with ideInterruptFired := 1, log := m.log ++ [.irq m.ata.serial] }

/-- How the READ SECTORS command being executed ends. -/
def Drive.readOutcome (D : Drive) (a : Ata) : Phase :=
  if D.fails a.serial then .failed 0 else .readData (a.disk a.regs.lba).words

/-- One unit of the drive's time. -/
def tick (D : Drive) (m : Machine) : Machine :=
  match m.ata.phase with
  | .readBusy 0 => isrHandler (m.setPhase (D.readOutcome m.ata))
  | .readBusy (d + 1) => m.setPhase (.readBusy d)
  | .writeBusy 0 => m.setPhase (.writeData [])
  | .writeBusy (d + 1) => m.setPhase (.writeBusy d)
  | .commitBusy 0 sector =>
    isrHandler { m with ata :=
      { m.ata with disk := Function.update m.ata.disk m.ata.regs.lba sector, phase := .idle } }
  | .commitBusy (d + 1) sector => m.setPhase (.commitBusy d sector)
  | .idle | .failed _ | .readData _ | .writeData _ => m

/-- The byte registers the driver writes. -/
inductive Reg where
  | features | sectorCount | lbaLow | lbaMid | lbaHigh | drive | command
  deriving DecidableEq

/-- A write to the command register: the drive takes up one-sector READ SECTORS (0x20)
and WRITE SECTORS (0x30) when it waits for a command. -/
def Machine.command (D : Drive) (m : Machine) (val : Nat) : Machine :=
  if m.ata.phase.quiet && m.ata.regs.oneSector then
    let k := m.ata.serial + 1
    if val = 0x20 then
      { m with ata := { m.ata with serial := k, phase := .readBusy (D.readDelay k) }
               log := m.log ++ [.issued k] }
    else if val = 0x30 then
      { m with ata := { m.ata with serial := k, phase := .writeBusy (D.drqDelay k) }
               log := m.log ++ [.issued k] }
    else m
  else m

def Machine.setRegs (m : Machine) (r : TaskFile) : Machine := { m with ata := { m.ata with regs := r } }

def outb (D : Drive) (m : Machine) (reg : Reg) (val : Nat) : Machine :=
  let m := tick D m
  let r := m.ata.regs
  match reg with
  | .features => m.setRegs { r with features := val }
  | .sectorCount => m.setRegs { r with sectorCount := val }
  | .lbaLow => m.setRegs { r with lbaLow := val }
  | .lbaMid => m.setRegs { r with lbaMid := val }
  | .lbaHigh => m.setRegs { r with lbaHigh := val }
  | .drive => m.setRegs { r with drive := val }
  | .command => m.command D val

/-- `inb(ATA_REG_STATUS)`. -/
def inb (D : Drive) (m : Machine) : Nat × Machine :=
  let m := tick D m
  (m.ata.phase.status, m)

/-- `inw(ATA_REG_DATA)`. -/
def inw (D : Drive) (m : Machine) : Nat × Machine :=
  let m := tick D m
  match m.ata.phase with
  | .readData [w] => (w, m.setPhase .idle)
  | .readData (w :: ws) => (w, m.setPhase (.readData ws))
  | .failed n => (D.floating m.ata.serial n, m.setPhase (.failed (n + 1)))
  | _ => (D.floating m.ata.serial 0, m)

/-- `outw(ATA_REG_DATA, val)`: the 256th word starts the commit. -/
def outw (D : Drive) (m : Machine) (val : Nat) : Machine :=
  let m := tick D m
  match m.ata.phase with
  | .writeData ws =>
    if h : (ws ++ [val]).length = 256 then
      m.setPhase (.commitBusy (D.commitDelay m.ata.serial) (Sector.ofWords (ws ++ [val]) h))
    else m.setPhase (.writeData (ws ++ [val]))
  | _ => m

-- ---------------------------------------------------------------------------
-- The driver
-- ---------------------------------------------------------------------------

/-- `DRESULT`. -/
inductive DResult where
  | ok | error | wrprt | notrdy | parerr
  deriving DecidableEq, Repr

/-- Four reads of the status register, the 400 ns recovery delay. -/
def statusDelay (D : Drive) (m : Machine) : Machine :=
  (inb D (inb D (inb D (inb D m).2).2).2).2

/-- `ata_select_master` and the other registers. The idle loop of `ata_select_master` runs
while the drive waits for a command. -/
def selectSector (D : Drive) (m : Machine) (sector : Nat) : Machine :=
  let m := outb D m .drive (0xE0 ||| ((sector >>> 24) &&& 0x0F))
  let m := outb D m .features 0x00
  let m := outb D m .sectorCount 1
  let m := outb D m .lbaLow (sector % 2 ^ 8)
  let m := outb D m .lbaMid ((sector >>> 8) % 2 ^ 8)
  outb D m .lbaHigh ((sector >>> 16) % 2 ^ 8)

/-- `ide_interrupt_fired = 0`. -/
def clearFlag (m : Machine) : Machine := { m with ideInterruptFired := 0 }

/-- What `disk_read` and `disk_write` do first for each sector: the registers, the flag,
the command, the recovery delay. -/
def issue (D : Drive) (m : Machine) (sector cmd : Nat) : Machine :=
  let m := selectSector D m sector
  let m := clearFlag m
  let m := outb D m .command cmd
  statusDelay D m

/-- A turn of the loop in `ata_wait_interrupt`, with `loop_counter`. -/
def waitBody (D : Drive) (c : Machine × Nat) : Turn (Machine × Nat) Machine :=
  if c.1.ideInterruptFired ≠ 0 then
    .exit { c.1 with ideInterruptFired := 0, log := c.1.log ++ [.woke] }
  else
    let m := tick D c.1
    let loopCounter := (c.2 + 1) % 2 ^ 32
    if loopCounter % 50000000 = 0 then .again ((inb D (inb D m).2).2, loopCounter)
    else .again (m, loopCounter)

def ataWaitInterrupt (D : Drive) (fuel : Nat) (m : Machine) : Option Machine :=
  loop (waitBody D) fuel (m, 0)

/-- `while ((status = inb(ATA_REG_STATUS)) & ATA_STATUS_BSY)`. -/
def bsyBody (D : Drive) (m : Machine) : Turn Machine Machine :=
  let (status, m) := inb D m
  if status &&& 0x80 ≠ 0 then .again m else .exit m

/-- `while (!((status = inb(ATA_REG_STATUS)) & ATA_STATUS_DRQ))`. -/
def drqBody (D : Drive) (m : Machine) : Turn Machine Machine :=
  let (status, m) := inb D m
  if status &&& 0x08 = 0 then .again m else .exit m

def ataPollDrq (D : Drive) (fuel : Nat) (m : Machine) : Option Machine :=
  (loop (bsyBody D) fuel (statusDelay D m)).bind fun m => loop (drqBody D) fuel m

/-- `for (...) *ptr++ = inw(ATA_REG_DATA);` for `n` words. -/
def pumpIn (D : Drive) : Nat → Machine × Nat → Machine × Nat
  | 0, c => c
  | n + 1, (m, ptr) =>
    let (w, m) := inw D m
    pumpIn D n ({ m with mem := m.mem.write16 ptr w }, ptr + 2)

/-- `for (...) outw(ATA_REG_DATA, *ptr++);` for `n` words. -/
def pumpOut (D : Drive) : Nat → Machine × Nat → Machine × Nat
  | 0, c => c
  | n + 1, (m, ptr) => pumpOut D n (outw D m (m.mem.read16 ptr), ptr + 2)

/-- The body of the loop of `disk_read`. -/
def readSector (D : Drive) (fuel : Nat) (m : Machine) (ptr sector : Nat) :
    Option (Machine × Nat) :=
  (ataWaitInterrupt D fuel (issue D m sector 0x20)).map fun m => pumpIn D 256 (m, ptr)

/-- The second half of the body of the loop of `disk_write`: the data, the wait for the
confirmation, one more read of the status register. -/
def sendSector (D : Drive) (fuel : Nat) (m : Machine) (ptr : Nat) : Option (Machine × Nat) :=
  let (m, ptr) := pumpOut D 256 (m, ptr)
  (ataWaitInterrupt D fuel m).map fun m => ((inb D m).2, ptr)

/-- The body of the loop of `disk_write`. -/
def writeSector (D : Drive) (fuel : Nat) (m : Machine) (ptr sector : Nat) :
    Option (Machine × Nat) :=
  (ataPollDrq D fuel (issue D m sector 0x30)).bind fun m => sendSector D fuel m ptr

/-- `for (UINT i = 0; i < count; i++)` with `n` turns left, over either body. -/
def sectorLoop (body : Machine → Nat → Nat → Option (Machine × Nat)) (sector : Nat) :
    Nat → Nat → Machine × Nat → Option Machine
  | 0, _, (m, _) => some m
  | n + 1, i, (m, ptr) =>
    (body m ptr ((sector + i) % 2 ^ 32)).bind fun c => sectorLoop body sector n (i + 1) c

def diskRead (D : Drive) (fuel : Nat) (m : Machine) (pdrv buff sector count : Nat) :
    Option (Machine × DResult) :=
  if pdrv ≠ 0 then some (m, .parerr)
  else (sectorLoop (readSector D fuel) sector count 0 (m, buff)).map fun m => (m, .ok)

def diskWrite (D : Drive) (fuel : Nat) (m : Machine) (pdrv buff sector count : Nat) :
    Option (Machine × DResult) :=
  if pdrv ≠ 0 then some (m, .parerr)
  else (sectorLoop (writeSector D fuel) sector count 0 (m, buff)).map fun m => (m, .ok)

end Nao.Disk
