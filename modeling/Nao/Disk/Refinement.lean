import Nao.Disk.Commands

/-!
# ATA disk driver — the drive as an array of sectors

What `disk_read` and `disk_write` are for: an array of sectors, of which a range is
read or overwritten. The drive's registers, its timing, the interrupt and the flag are
the implementation.

## Results

* `readLoop_returns`, `writeLoop_returns` — the two sector loops, from the results
  about one command, by induction on the number of sectors left.
* `disk_refines_sector_array` — on a drive without errors both functions return and
  act as the array operations do, whenever the interrupts come.
* `disk_read_reports_iff` — errors of the drive are never reported, so the result code
  can be trusted exactly on drives that do not fail.
-/

namespace Nao.Disk

open SysLib

-- ---------------------------------------------------------------------------
-- The abstract device
-- ---------------------------------------------------------------------------

abbrev SectorArray := Nat → Sector

/-- The bytes of `count` sectors from `sector` on. -/
def SectorArray.read (A : SectorArray) : Nat → Nat → List UInt8
  | _, 0 => []
  | sector, count + 1 => (A sector).bytes ++ SectorArray.read A (sector + 1) count

/-- Overwrite `count` sectors from `sector` on, the `i`-th of them with `data i`. -/
def SectorArray.write (A : SectorArray) (sector count : Nat) (data : Nat → Sector) : SectorArray :=
  fun l => if sector ≤ l ∧ l < sector + count then data (l - sector) else A l

/-- A buffer that holds the sectors one by one holds what `read` returns. -/
theorem SectorArray.read_eq_slice {A : SectorArray} {mem : Mem} {ptr sector count : Nat}
    (h : ∀ i < count, mem.slice (ptr + 512 * i) 512 = (A (sector + i)).bytes) :
    mem.slice ptr (512 * count) = A.read sector count := by
  induction count generalizing ptr sector with
  | zero => rfl
  | succ count ih =>
    have hFirst := h 0 (by omega)
    have hRest : ∀ i < count, mem.slice (ptr + 512 + 512 * i) 512 =
        (A (sector + 1 + i)).bytes := by
      intro i hi
      have hNext := h (i + 1) (by omega)
      rwa [Nat.mul_add, Nat.mul_one, Nat.add_comm (512 * i), ← Nat.add_assoc,
        Nat.add_comm i 1, ← Nat.add_assoc] at hNext
    rw [Nat.mul_add, Nat.mul_one, Nat.add_comm (512 * count), Mem.slice_add, ih hRest,
      SectorArray.read]
    rw [Nat.mul_zero, Nat.add_zero, Nat.add_zero] at hFirst
    rw [hFirst]

theorem SectorArray.write_inside {A : SectorArray} {sector count i : Nat} {data : Nat → Sector}
    (hi : i < count) : A.write sector count data (sector + i) = data i := by
  rw [SectorArray.write, if_pos (by omega), Nat.add_sub_cancel_left]

-- ---------------------------------------------------------------------------
-- Runs of commands
-- ---------------------------------------------------------------------------

/-- The record of `n` commands after number `k`: each wait ends after the interrupt of
its own command and before the next command. -/
def commandLog : Nat → Nat → List Event
  | _, 0 => []
  | k, n + 1 => [.issued (k + 1), .irq (k + 1), .woke] ++ commandLog (k + 1) n

/-- `n` commands, one after the other, have been carried out. -/
structure ServedAll (n : Nat) (m m' : Machine) : Prop where
  quiet  : m'.ata.phase.quiet = true
  serial : m'.ata.serial = m.ata.serial + n
  flag   : 0 < n ∨ m.ideInterruptFired = 0 → m'.ideInterruptFired = 0
  log    : m'.log = m.log ++ commandLog m.ata.serial n

theorem ServedAll.zero {m : Machine} (h : m.ata.phase.quiet = true) : ServedAll 0 m m where
  quiet  := h
  serial := rfl
  flag   := fun h => h.resolve_left (by omega)
  log    := by simp [commandLog]

theorem ServedAll.succ {n : Nat} {m m₁ m' : Machine} (h : Served m m₁) (h' : ServedAll n m₁ m') :
    ServedAll (n + 1) m m' where
  quiet  := h'.quiet
  serial := by rw [h'.serial, h.serial]; omega
  flag   := fun _ => h'.flag (.inr h.flag)
  log    := by rw [h'.log, h.log, h.serial, commandLog, List.append_assoc]

/-- The sector loop of `disk_read`: every sector whose command did not fail is in its
place in the buffer. -/
theorem readLoop_returns {D : Drive} {m : Machine} (h : m.ata.phase.quiet = true)
    (sector n i ptr : Nat) :
    ∃ m', Returns (fun fuel => sectorLoop (readSector D fuel) sector n i (m, ptr)) m' ∧
      ServedAll n m m' ∧ m'.ata.disk = m.ata.disk ∧
      (∀ x, x < ptr ∨ ptr + 512 * n ≤ x → m'.mem x = m.mem x) ∧
      ∀ j < n, D.fails (m.ata.serial + 1 + j) = false →
        m'.mem.slice (ptr + 512 * j) 512 =
          (m.ata.disk ((sector + (i + j)) % 2 ^ 32 % 2 ^ 28)).bytes := by
  induction n generalizing m i ptr with
  | zero =>
    exact ⟨m, Returns.pure m, .zero h, rfl, fun _ _ => rfl, fun j hj => absurd hj (by omega)⟩
  | succ n ih =>
    obtain ⟨m₁, hBody, hServed, hDisk, hOutside, hData⟩ :=
      readSector_returns (D := D) h ptr ((sector + i) % 2 ^ 32)
    obtain ⟨m', hLoop, hServed', hDisk', hOutside', hData'⟩ :=
      ih hServed.quiet (i + 1) (ptr + 512)
    have hAll : Returns (fun fuel => sectorLoop (readSector D fuel) sector (n + 1) i (m, ptr)) m' := by
      simp only [sectorLoop]
      exact Returns.bind hBody hLoop
    have hDiskAll : m'.ata.disk = m.ata.disk := by rw [hDisk', hDisk]
    refine ⟨m', hAll, .succ hServed hServed', hDiskAll, ?_, ?_⟩
    · intro x hx
      rw [Nat.mul_succ, Nat.add_comm (512 * n), ← Nat.add_assoc] at hx
      have hFirst : x < ptr ∨ ptr + 512 ≤ x :=
        hx.imp_right fun h => Nat.le_trans (Nat.le_add_right ..) h
      have hOthers : x < ptr + 512 ∨ ptr + 512 + 512 * n ≤ x :=
        hx.imp_left fun h => Nat.lt_of_lt_of_le h (Nat.le_add_right ..)
      rw [hOutside' x hOthers, hOutside x hFirst]
    · intro j hj hOk
      cases j with
      | zero =>
        -- later sectors go behind this one
        have hKept : m'.mem.slice ptr 512 = m₁.mem.slice ptr 512 :=
          Mem.slice_congr fun x h1 h2 => hOutside' x (by omega)
        have hLen := (m.ata.disk ((sector + i) % 2 ^ 32 % 2 ^ 28)).size
        rw [Nat.mul_zero, Nat.add_zero, Nat.add_zero, hKept, hData hOk, ← hLen]
        exact Mem.slice_blit _ _ _
      | succ j =>
        have hNext := hData' j (by omega) (by
          rw [hServed.serial, ← hOk]
          congr 1
          omega)
        have hPtr : ptr + 512 + 512 * j = ptr + 512 * (j + 1) := by omega
        have hIdx : i + 1 + j = i + (j + 1) := by omega
        rw [hPtr, hIdx, hDisk] at hNext
        exact hNext

/-- The sector loop of `disk_write`, within the 28-bit addresses. -/
theorem writeLoop_returns {D : Drive} {m : Machine} (h : m.ata.phase.quiet = true)
    {sector n i ptr : Nat} (hRange : sector + i + n ≤ 2 ^ 28) :
    ∃ m', Returns (fun fuel => sectorLoop (writeSector D fuel) sector n i (m, ptr)) m' ∧
      ServedAll n m m' ∧ m'.mem = m.mem ∧
      m'.ata.disk = SectorArray.write m.ata.disk (sector + i) n fun j =>
        sectorAt m.mem (ptr + 512 * j) := by
  induction n generalizing m i ptr with
  | zero =>
    refine ⟨m, Returns.pure m, .zero h, rfl, ?_⟩
    funext l
    rw [SectorArray.write, if_neg (by omega)]
  | succ n ih =>
    obtain ⟨m₁, hBody, hServed, hMem, hDisk⟩ :=
      writeSector_returns (D := D) h ptr ((sector + i) % 2 ^ 32)
    obtain ⟨m', hLoop, hServed', hMem', hDisk'⟩ :=
      @ih m₁ hServed.quiet (i + 1) (ptr + 512) (by omega)
    have hAll : Returns (fun fuel => sectorLoop (writeSector D fuel) sector (n + 1) i (m, ptr)) m' := by
      simp only [sectorLoop]
      exact Returns.bind hBody hLoop
    refine ⟨m', hAll, .succ hServed hServed', hMem'.trans hMem, ?_⟩
    have hLba : (sector + i) % 2 ^ 32 % 2 ^ 28 = sector + i := by omega
    rw [hLba] at hDisk
    funext l
    rw [hDisk', hDisk, hMem]
    simp only [SectorArray.write]
    -- the first sector, one of the others, or none
    rcases Nat.lt_trichotomy l (sector + i) with hlt | rfl | hgt
    · rw [if_neg (by omega), if_neg (by omega), Function.update_of_ne (by omega)]
    · rw [if_neg (by omega), if_pos (by omega), Function.update_self, Nat.sub_self]
      rfl
    · rw [Function.update_of_ne (by omega)]
      by_cases hIn : l < sector + i + (n + 1)
      · rw [if_pos (by omega), if_pos (by omega)]
        congr 1
        omega
      · rw [if_neg (by omega), if_neg (by omega)]

-- ---------------------------------------------------------------------------
-- disk_read and disk_write
-- ---------------------------------------------------------------------------

theorem diskRead_returns {D : Drive} {m : Machine} (h : m.ata.phase.quiet = true)
    (buff sector count : Nat) :
    ∃ m', Returns (fun fuel => diskRead D fuel m 0 buff sector count) (m', .ok) ∧
      ServedAll count m m' ∧ m'.ata.disk = m.ata.disk ∧
      (∀ x, x < buff ∨ buff + 512 * count ≤ x → m'.mem x = m.mem x) ∧
      ∀ i < count, D.fails (m.ata.serial + 1 + i) = false → sector + i < 2 ^ 28 →
        m'.mem.slice (buff + 512 * i) 512 = (m.ata.disk (sector + i)).bytes := by
  obtain ⟨m', hLoop, hServed, hDisk, hOutside, hData⟩ :=
    readLoop_returns (D := D) h sector count 0 buff
  refine ⟨m', hLoop.map fun m => (m, DResult.ok), hServed, hDisk, hOutside, ?_⟩
  intro i hi hOk hRange
  have hLba : (sector + (0 + i)) % 2 ^ 32 % 2 ^ 28 = sector + i := by omega
  rw [hData i hi hOk, hLba]

theorem diskWrite_returns {D : Drive} {m : Machine} (h : m.ata.phase.quiet = true)
    {buff sector count : Nat} (hRange : sector + count ≤ 2 ^ 28) :
    ∃ m', Returns (fun fuel => diskWrite D fuel m 0 buff sector count) (m', .ok) ∧
      ServedAll count m m' ∧ m'.mem = m.mem ∧
      m'.ata.disk = SectorArray.write m.ata.disk sector count fun i =>
        sectorAt m.mem (buff + 512 * i) := by
  obtain ⟨m', hLoop, hServed, hMem, hDisk⟩ :=
    @writeLoop_returns D m h sector count 0 buff (by omega)
  exact ⟨m', hLoop.map fun m => (m, DResult.ok), hServed, hMem, hDisk⟩

/--
**The driver refines a sector array.** On a drive that reports no errors, whatever its
timing, from every state in which it waits for a command and for every range of
28-bit addresses:

* `disk_write` returns `RES_OK`, and the disk is the array with that range overwritten
  by the 512-byte slices of the buffer;
* `disk_read` returns `RES_OK`, the disk is unchanged, and the buffer holds the
  concatenation of the sectors;
* a read after a write returns what was written.

In both, each wait was ended by the interrupt of its own command (`ServedAll`), and
the flag is left clear.
-/
theorem disk_refines_sector_array {D : Drive} (hErr : ∀ k, D.fails k = false) {m : Machine}
    (hQuiet : m.ata.phase.quiet = true) {sector count : Nat} (hRange : sector + count ≤ 2 ^ 28)
    (buff buff' : Nat) :
    (∃ m₁, Returns (fun fuel => diskWrite D fuel m 0 buff sector count) (m₁, .ok) ∧
      m₁.ata.disk = SectorArray.write m.ata.disk sector count
        (fun i => sectorAt m.mem (buff + 512 * i)) ∧
      m₁.mem = m.mem ∧ ServedAll count m m₁) ∧
    (∃ m₂, Returns (fun fuel => diskRead D fuel m 0 buff' sector count) (m₂, .ok) ∧
      m₂.ata.disk = m.ata.disk ∧
      m₂.mem.slice buff' (512 * count) = SectorArray.read m.ata.disk sector count ∧
      (∀ x, x < buff' ∨ buff' + 512 * count ≤ x → m₂.mem x = m.mem x) ∧
      ServedAll count m m₂) ∧
    ∀ m₁ m₂ r₁ r₂,
      Returns (fun fuel => diskWrite D fuel m 0 buff sector count) (m₁, r₁) →
      Returns (fun fuel => diskRead D fuel m₁ 0 buff' sector count) (m₂, r₂) →
      m₂.mem.slice buff' (512 * count) = m.mem.slice buff (512 * count) := by
  obtain ⟨m₁, hWrite, hServed₁, hMem₁, hDisk₁⟩ := diskWrite_returns (D := D) hQuiet hRange
  obtain ⟨m₂, hRead, hServed₂, hDisk₂, hOutside, hData⟩ :=
    diskRead_returns (D := D) hQuiet buff' sector count
  refine ⟨⟨m₁, hWrite, hDisk₁, hMem₁, hServed₁⟩, ⟨m₂, hRead, hDisk₂, ?_, hOutside, hServed₂⟩, ?_⟩
  · exact SectorArray.read_eq_slice fun i hi => hData i hi (hErr _) (by omega)
  · intro n₁ n₂ r₁ r₂ hWrite' hRead'
    obtain ⟨rfl, -⟩ := Prod.mk.inj (hWrite.unique hWrite')
    obtain ⟨m₃, hRead₃, -, -, -, hData₃⟩ :=
      diskRead_returns (D := D) hServed₁.quiet buff' sector count
    obtain ⟨rfl, -⟩ := Prod.mk.inj (hRead₃.unique hRead')
    -- both buffers hold the sectors that were written
    have hWritten : ∀ i < count, m.mem.slice (buff + 512 * i) 512 =
        (m₁.ata.disk (sector + i)).bytes := by
      intro i hi
      rw [hDisk₁, SectorArray.write_inside hi, sectorAt_bytes]
    rw [SectorArray.read_eq_slice hWritten]
    exact SectorArray.read_eq_slice fun i hi => hData₃ i hi (hErr _) (by omega)

/-- A drive that takes a few ticks for everything and does not fail. -/
def demoDrive : Drive :=
  { readDelay := fun _ => 3, drqDelay := fun _ => 1, commitDelay := fun _ => 2,
    fails := fun _ => false, floating := fun _ _ => 0xFFFF }

/-- A blank disk and a memory full of sevens. -/
def demoMachine : Machine :=
  { ata := { disk := fun _ => { bytes := List.replicate 512 0, size := List.length_replicate .. }
             regs := taskFile 0, phase := .idle, serial := 0 }
    mem := fun _ => 7, ideInterruptFired := 1, log := [] }

theorem disk_refines_sector_array_demo :
    ∃ m₁, Returns (fun fuel => diskWrite demoDrive fuel demoMachine 0 0x1000 40 3) (m₁, .ok) ∧
      m₁.ata.disk = SectorArray.write demoMachine.ata.disk 40 3
        (fun i => sectorAt demoMachine.mem (0x1000 + 512 * i)) := by
  obtain ⟨⟨m₁, hWrite, hDisk, -⟩, -⟩ := disk_refines_sector_array (D := demoDrive)
    (fun _ => rfl) (m := demoMachine) rfl (by decide : 40 + 3 ≤ 2 ^ 28) 0x1000 0x8000
  exact ⟨m₁, hWrite, hDisk⟩

-- ---------------------------------------------------------------------------
-- Errors
-- ---------------------------------------------------------------------------

/-- What FatFs relies on: a call during which some READ SECTORS command failed does not
return `RES_OK`, and after `RES_OK` the buffer holds the requested sectors. -/
def ErrorsReported (D : Drive) (m : Machine) (pdrv buff sector count : Nat) (m' : Machine)
    (res : DResult) : Prop :=
  (pdrv = 0 ∧ (∃ i < count, D.fails (m.ata.serial + 1 + i) = true) → res ≠ .ok) ∧
  (res = .ok → ∀ i < count, sector + i < 2 ^ 28 →
    m'.mem.slice (buff + 512 * i) 512 = (m.ata.disk (sector + i)).bytes)

/--
**Errors are not reported.** `disk_read` returns on every drive, and the contract on its
result holds exactly when none of the commands it issues fails.
-/
theorem disk_read_reports_iff {D : Drive} {m : Machine} (hQuiet : m.ata.phase.quiet = true)
    (pdrv buff sector count : Nat) :
    ∃ m' res, Returns (fun fuel => diskRead D fuel m pdrv buff sector count) (m', res) ∧
      (ErrorsReported D m pdrv buff sector count m' res ↔
        (pdrv = 0 → ∀ i < count, D.fails (m.ata.serial + 1 + i) = false)) := by
  by_cases hDrv : pdrv = 0
  · subst hDrv
    obtain ⟨m', hRead, -, -, -, hData⟩ := diskRead_returns (D := D) hQuiet buff sector count
    refine ⟨m', .ok, hRead, ?_, ?_⟩
    · rintro ⟨hFail, -⟩ - i hi
      by_contra hBad
      exact hFail ⟨rfl, i, hi, by simpa using hBad⟩ rfl
    · intro hOk
      refine ⟨?_, fun _ i hi => hData i hi (hOk rfl i hi)⟩
      rintro ⟨-, i, hi, hBad⟩
      rw [hOk rfl i hi] at hBad
      exact absurd hBad (by decide)
  · -- another drive number is refused before any command
    refine ⟨m, .parerr, ⟨0, fun fuel _ => if_pos hDrv⟩, ?_⟩
    refine iff_of_true ⟨fun h => absurd h.1 hDrv, fun h => absurd h (by decide)⟩ ?_
    exact fun h => absurd h hDrv

theorem disk_read_reports_demo :
    ∃ m' res, Returns (fun fuel => diskRead demoDrive fuel demoMachine 0 0x1000 40 3) (m', res) ∧
      (ErrorsReported demoDrive demoMachine 0 0x1000 40 3 m' res ↔
        ((0 : Nat) = 0 → ∀ i < 3, demoDrive.fails (demoMachine.ata.serial + 1 + i) = false)) :=
  disk_read_reports_iff rfl 0 0x1000 40 3

/-- A drive whose first command fails. -/
def failingDrive : Drive := { demoDrive with fails := fun k => k == 1 }

/-- Reading one sector from it returns `RES_OK`, with the floating bus in the buffer where
the sector has a zero. -/
theorem disk_read_hides_error :
    failingDrive.fails (demoMachine.ata.serial + 1) = true ∧
      (diskRead failingDrive 20 demoMachine 0 0 0 1).map (fun r => (r.2, r.1.mem 0)) =
        some (.ok, 0xFF) ∧
      (demoMachine.ata.disk 0).bytes.head? = some 0 := by
  refine ⟨rfl, ?_, rfl⟩
  decide +kernel

end Nao.Disk
