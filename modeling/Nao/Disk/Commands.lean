import Nao.Lib.Settle
import Nao.Disk.Definitions

/-!
# ATA disk driver — one command

What the drive and the driver do together for one sector, for every drive, that is
for every timing of the interrupt. From the write to the command register up to the
end of the wait the driver only lets time pass, so the sector bodies reduce to where
the drive settles (`Lib/Settle.lean`).

## Results

* `taskFile_lba`     — the four byte registers hold the address, modulo `2 ^ 28`.
* `ataWaitInterrupt_returns` — the wait ends with the interrupt that ends the command,
  and clears the flag.
* `readSector_returns`, `writeSector_returns` — one turn of the loop of `disk_read`
  and of `disk_write`.
-/

namespace Nao.Disk

open SysLib

-- ---------------------------------------------------------------------------
-- Time
-- ---------------------------------------------------------------------------

@[simp] theorem setPhase_phase (m : Machine) (p : Phase) : (m.setPhase p).ata.phase = p := rfl

theorem tick_of_quiet {D : Drive} {m : Machine} (h : m.ata.phase.quiet = true) :
    tick D m = m := by
  cases hp : m.ata.phase with
  | idle => simp only [tick, hp]
  | failed n => simp only [tick, hp]
  | readBusy d => simp [hp, Phase.quiet] at h
  | readData ws => simp [hp, Phase.quiet] at h
  | writeBusy d => simp [hp, Phase.quiet] at h
  | writeData ws => simp [hp, Phase.quiet] at h
  | commitBusy d s => simp [hp, Phase.quiet] at h

theorem tick_of_readData {D : Drive} {m : Machine} {ws : List Nat}
    (h : m.ata.phase = .readData ws) : tick D m = m := by
  simp only [tick, h]

theorem tick_of_writeData {D : Drive} {m : Machine} {ws : List Nat}
    (h : m.ata.phase = .writeData ws) : tick D m = m := by
  simp only [tick, h]

/-- The driver's flag is still clear. -/
def Awaiting (m : Machine) : Prop := m.ideInterruptFired = 0

/-- The machine when READ SECTORS has ended and its interrupt has been handled. -/
def readEnd (D : Drive) (m : Machine) : Machine := isrHandler (m.setPhase (D.readOutcome m.ata))

/-- The machine when a written sector is committed and its interrupt has been handled. -/
def commitEnd (m : Machine) (sector : Sector) : Machine :=
  isrHandler { m with ata :=
    { m.ata with disk := Function.update m.ata.disk m.ata.regs.lba sector, phase := .idle } }

theorem setPhase_self {m : Machine} {p : Phase} (h : m.ata.phase = p) : m.setPhase p = m := by
  rw [← h]
  rfl

theorem tick_readEnd (D : Drive) (m : Machine) : tick D (readEnd D m) = readEnd D m := by
  by_cases hFails : D.fails m.ata.serial = true
  · refine tick_of_quiet ?_
    simp [readEnd, isrHandler, Drive.readOutcome, hFails, Phase.quiet]
  · have hData : (readEnd D m).ata.phase = .readData (m.ata.disk m.ata.regs.lba).words := by
      simp [readEnd, isrHandler, Drive.readOutcome, hFails]
    exact tick_of_readData hData

theorem settles_read {D : Drive} {m : Machine} {d : Nat} (hPhase : m.ata.phase = .readBusy d)
    (hFlag : Awaiting m) : Settles (tick D) Awaiting (d + 1) m (readEnd D m) := by
  have hBusy : ∀ d, Awaiting (m.setPhase (.readBusy d)) := fun _ => hFlag
  have hStep : ∀ d, tick D (m.setPhase (.readBusy (d + 1))) = m.setPhase (.readBusy d) :=
    fun _ => rfl
  have hEnd : tick D (m.setPhase (.readBusy 0)) = readEnd D m := rfl
  have hDone : ¬ Awaiting (readEnd D m) := by simp [Awaiting, readEnd, isrHandler]
  have h := Settles.countdown hBusy hStep hEnd (tick_readEnd D m) hDone d
  rwa [setPhase_self hPhase] at h

theorem settles_commit {D : Drive} {m : Machine} {d : Nat} {sector : Sector}
    (hPhase : m.ata.phase = .commitBusy d sector) (hFlag : Awaiting m) :
    Settles (tick D) Awaiting (d + 1) m (commitEnd m sector) := by
  have hBusy : ∀ d, Awaiting (m.setPhase (.commitBusy d sector)) := fun _ => hFlag
  have hStep : ∀ d, tick D (m.setPhase (.commitBusy (d + 1) sector)) =
      m.setPhase (.commitBusy d sector) := fun _ => rfl
  have hEnd : tick D (m.setPhase (.commitBusy 0 sector)) = commitEnd m sector := rfl
  have hDone : ¬ Awaiting (commitEnd m sector) := by simp [Awaiting, commitEnd, isrHandler]
  have h := Settles.countdown hBusy hStep hEnd (tick_of_quiet rfl) hDone d
  rwa [setPhase_self hPhase] at h

/-- BSY is set. -/
def Busy (m : Machine) : Prop := m.ata.phase.status &&& 0x80 ≠ 0

theorem settles_write {D : Drive} {m : Machine} {d : Nat} (hPhase : m.ata.phase = .writeBusy d) :
    Settles (tick D) Busy (d + 1) m (m.setPhase (.writeData [])) := by
  have hBusy : ∀ d, Busy (m.setPhase (.writeBusy d)) := fun _ => by simp [Busy, Phase.status]
  have hStep : ∀ d, tick D (m.setPhase (.writeBusy (d + 1))) = m.setPhase (.writeBusy d) :=
    fun _ => rfl
  have hEnd : tick D (m.setPhase (.writeBusy 0)) = m.setPhase (.writeData []) := rfl
  have hDone : ¬ Busy (m.setPhase (.writeData [])) := by simp [Busy, Phase.status]
  have h := Settles.countdown hBusy hStep hEnd (tick_of_writeData rfl) hDone d
  rwa [setPhase_self hPhase] at h

-- ---------------------------------------------------------------------------
-- Waiting
-- ---------------------------------------------------------------------------

theorem inb_snd (D : Drive) (m : Machine) : (inb D m).2 = tick D m := rfl

theorem statusDelay_eq (D : Drive) (m : Machine) : statusDelay D m = (tick D)^[4] m := rfl

/-- Leaving `ata_wait_interrupt`. -/
def wake (m : Machine) : Machine :=
  { m with ideInterruptFired := 0, log := m.log ++ [.woke] }

/-- Wherever the drive is on its way when the wait starts, the wait ends once it has
settled. -/
theorem ataWaitInterrupt_returns {D : Drive} {m r : Machine} {n : Nat}
    (h : Settles (tick D) Awaiting n m r) :
    Returns (fun fuel => ataWaitInterrupt D fuel m) (wake r) := by
  -- a turn that goes round saw the flag clear and let one tick pass, or three
  have hAgain : ∀ c c', waitBody D c = .again c' →
      Awaiting c.1 ∧ ∃ k, c'.1 = (tick D)^[k + 1] c.1 := by
    intro c c' hTurn
    unfold waitBody at hTurn
    split at hTurn
    · cases hTurn
    · rename_i hFlag
      refine ⟨not_not.mp hFlag, ?_⟩
      dsimp only at hTurn
      split at hTurn
      · cases hTurn
        exact ⟨2, rfl⟩
      · cases hTurn
        exact ⟨0, rfl⟩
  have hExit : ∀ c x, waitBody D c = .exit x → ¬ Awaiting c.1 ∧ x = wake c.1 := by
    intro c x hTurn
    unfold waitBody at hTurn
    split at hTurn
    · rename_i hFlag
      cases hTurn
      exact ⟨hFlag, rfl⟩
    · dsimp only at hTurn
      split at hTurn <;> cases hTurn
  have hPost : ∀ c x, waitBody D c = .exit x → c.1 = r → x = wake r := by
    intro c x hTurn hRest
    rw [(hExit c x hTurn).2, hRest]
  obtain ⟨x, hLoop, rfl⟩ :=
    Settles.await hAgain hPost (fun c x hTurn => (hExit c x hTurn).1) (c := (m, 0)) h
  exact Returns.of_loop hLoop

/-- `ata_poll_drq` leaves the drive ready for data. -/
theorem ataPollDrq_returns {D : Drive} {m r : Machine} {n : Nat}
    (h : Settles (tick D) Busy n m r) (hDrq : r.ata.phase.status &&& 0x08 ≠ 0) :
    Returns (fun fuel => ataPollDrq D fuel m) r := by
  have hBsy : loop (bsyBody D) (n - 4 + 1) (statusDelay D m) = some r := by
    rw [statusDelay_eq]
    refine Settles.poll (fun c hBusy => ?_) (fun c hDone => ?_) (h.iterate 4)
    · exact if_pos hBusy
    · exact if_neg hDone
  have hTurn : drqBody D r = .exit r := by
    have hRest := h.tick_rest.1
    simp only [drqBody, inb, hRest]
    exact if_neg hDrq
  exact (Returns.of_loop hBsy).bind (Returns.of_loop (loop_exit hTurn 0))

-- ---------------------------------------------------------------------------
-- Issuing
-- ---------------------------------------------------------------------------

/-- The registers after `issue`. -/
def taskFile (sector : Nat) : TaskFile :=
  { features := 0x00, sectorCount := 1, lbaLow := sector % 2 ^ 8,
    lbaMid := (sector >>> 8) % 2 ^ 8, lbaHigh := (sector >>> 16) % 2 ^ 8,
    drive := 0xE0 ||| ((sector >>> 24) &&& 0x0F) }

/-- The drive byte: master and LBA mode above, four address bits below. -/
theorem drive_byte (sector : Nat) :
    (taskFile sector).drive = 0xE0 + sector / 2 ^ 24 % 16 := by
  have hNibble : (sector >>> 24) &&& 0x0F = sector / 2 ^ 24 % 16 := by
    rw [Nat.shiftRight_eq_div_pow]
    exact Nat.and_two_pow_sub_one_eq_mod _ 4
  have hOr : ∀ x < 16, 0xE0 ||| x = 0xE0 + x := by decide
  show 0xE0 ||| ((sector >>> 24) &&& 0x0F) = _
  rw [hNibble, hOr _ (Nat.mod_lt _ (by decide))]

theorem taskFile_lba (sector : Nat) : (taskFile sector).lba = sector % 2 ^ 28 := by
  rw [TaskFile.lba, drive_byte]
  simp only [taskFile, Nat.shiftRight_eq_div_pow]
  omega

theorem taskFile_oneSector (sector : Nat) : (taskFile sector).oneSector = true := by
  have hHigh : (taskFile sector).drive / 16 = 0xE := by
    rw [drive_byte]
    omega
  rw [TaskFile.oneSector, hHigh]
  rfl

/-- The machine right after the write to the command register. -/
def issued (m : Machine) (sector : Nat) (phase : Phase) : Machine :=
  { ata := { m.ata with regs := taskFile sector, serial := m.ata.serial + 1, phase := phase }
    mem := m.mem
    ideInterruptFired := 0
    log := m.log ++ [.issued (m.ata.serial + 1)] }

/-- While the drive waits for a command, the register writes just go through. -/
theorem selectSector_eq {D : Drive} {m : Machine} (h : m.ata.phase.quiet = true) (sector : Nat) :
    selectSector D m sector = m.setRegs (taskFile sector) := by
  have hTick : ∀ r, tick D (m.setRegs r) = m.setRegs r := fun r => tick_of_quiet h
  have hSet : ∀ r r', (m.setRegs r).setRegs r' = m.setRegs r' := fun _ _ => rfl
  have hGet : ∀ r, (m.setRegs r).ata.regs = r := fun _ => rfl
  simp only [selectSector, outb, tick_of_quiet h, hTick, hSet, hGet, taskFile]

/-- The machine right before the command. -/
def prepared (m : Machine) (sector : Nat) : Machine := clearFlag (m.setRegs (taskFile sector))

theorem issue_eq {D : Drive} {m : Machine} (h : m.ata.phase.quiet = true) (sector cmd : Nat) :
    issue D m sector cmd = (tick D)^[4] ((prepared m sector).command D cmd) := by
  have hTick : tick D (prepared m sector) = prepared m sector := tick_of_quiet h
  have hOut : outb D (prepared m sector) .command cmd = (prepared m sector).command D cmd := by
    simp only [outb, hTick]
  rw [issue, selectSector_eq h, statusDelay_eq]
  exact congrArg (tick D)^[4] hOut

/-- The drive takes the command up. -/
theorem command_accept {m : Machine} (h : m.ata.phase.quiet = true) (sector : Nat) :
    ((prepared m sector).ata.phase.quiet && (prepared m sector).ata.regs.oneSector) = true := by
  have hOne : (prepared m sector).ata.regs.oneSector = true := taskFile_oneSector sector
  rw [hOne, Bool.and_true]
  exact h

theorem issue_read {D : Drive} {m : Machine} (h : m.ata.phase.quiet = true) (sector : Nat) :
    issue D m sector 0x20 =
      (tick D)^[4] (issued m sector (.readBusy (D.readDelay (m.ata.serial + 1)))) := by
  rw [issue_eq h, Machine.command, if_pos (command_accept h sector)]
  rfl

theorem issue_write {D : Drive} {m : Machine} (h : m.ata.phase.quiet = true) (sector : Nat) :
    issue D m sector 0x30 =
      (tick D)^[4] (issued m sector (.writeBusy (D.drqDelay (m.ata.serial + 1)))) := by
  rw [issue_eq h, Machine.command, if_pos (command_accept h sector)]
  rfl

-- ---------------------------------------------------------------------------
-- Moving the data
-- ---------------------------------------------------------------------------

/-- Reading out all the words of a sector. -/
theorem pumpIn_readData {D : Drive} {m : Machine} {ws : List Nat} (hNe : ws ≠ [])
    (hPhase : m.ata.phase = .readData ws) (ptr : Nat) :
    pumpIn D ws.length (m, ptr) =
      ({ m.setPhase .idle with mem := m.mem.blit ptr (Mem.ofWords ws) },
        ptr + 2 * ws.length) := by
  induction ws generalizing m ptr with
  | nil => exact absurd rfl hNe
  | cons w ws ih =>
    cases ws with
    | nil =>
      have hIn : inw D m = (w, m.setPhase .idle) := by
        simp only [inw, tick_of_readData hPhase, hPhase]
      simp only [List.length_singleton, pumpIn, hIn, Mem.write16_eq_blit]
      simp [Mem.ofWords]
      rfl
    | cons w' ws =>
      have hIn : inw D m = (w, m.setPhase (.readData (w' :: ws))) := by
        simp only [inw, tick_of_readData hPhase, hPhase]
      rw [List.length_cons, pumpIn]
      simp only [hIn]
      rw [ih (by simp) rfl, Mem.ofWords_cons w, Mem.blit_append, Mem.write16_eq_blit]
      refine Prod.ext rfl ?_
      simp only [List.length_cons]
      omega

/-- After a failed command 256 words are stored all the same. -/
theorem pumpIn_failed {D : Drive} {m : Machine} {k : Nat} (hPhase : m.ata.phase = .failed k)
    (n ptr : Nat) :
    ∃ mem, pumpIn D n (m, ptr) = ({ m.setPhase (.failed (k + n)) with mem := mem }, ptr + 2 * n) ∧
      ∀ x, x < ptr ∨ ptr + 2 * n ≤ x → mem x = m.mem x := by
  induction n generalizing m k ptr with
  | zero =>
    refine ⟨m.mem, ?_, fun _ _ => rfl⟩
    rw [pumpIn, Nat.add_zero, ← hPhase]
    rfl
  | succ n ih =>
    have hIn : inw D m = (D.floating m.ata.serial k, m.setPhase (.failed (k + 1))) := by
      have hTick : tick D m = m := tick_of_quiet (by rw [hPhase]; rfl)
      simp only [inw, hTick, hPhase]
    rw [pumpIn]
    simp only [hIn]
    obtain ⟨mem, hPump, hMem⟩ := ih (m := { m.setPhase (.failed (k + 1)) with
      mem := m.mem.write16 ptr (D.floating m.ata.serial k) }) (k := k + 1) rfl (ptr + 2)
    refine ⟨mem, ?_, ?_⟩
    · refine hPump.trans (Prod.ext ?_ ?_)
      · show _ = _
        rw [Nat.add_assoc, Nat.add_comm 1 n]
        rfl
      · show ptr + 2 + 2 * n = ptr + 2 * (n + 1)
        omega
    · intro x hx
      rw [hMem x (by omega)]
      exact Mem.write16_of_disjoint _ _ (by omega)

/-- The words of memory a write sends. -/
def wordsAt (mem : Mem) : Nat → Nat → List Nat
  | _, 0 => []
  | ptr, n + 1 => mem.read16 ptr :: wordsAt mem (ptr + 2) n

theorem ofWords_wordsAt (mem : Mem) (ptr n : Nat) :
    Mem.ofWords (wordsAt mem ptr n) = mem.slice ptr (2 * n) := by
  induction n generalizing ptr with
  | zero => rfl
  | succ n ih =>
    have hSplit : 2 * (n + 1) = 2 + 2 * n := by omega
    rw [wordsAt, Mem.ofWords_cons, ih, hSplit, Mem.slice_word]

/-- Sending the last `n` words of a sector starts the commit. -/
theorem pumpOut_writeData {D : Drive} {m : Machine} {ws : List Nat} {n ptr : Nat}
    (hPhase : m.ata.phase = .writeData ws) (hLen : ws.length + (n + 1) = 256) :
    ∃ h, pumpOut D (n + 1) (m, ptr) =
      (m.setPhase (.commitBusy (D.commitDelay m.ata.serial)
        (Sector.ofWords (ws ++ wordsAt m.mem ptr (n + 1)) h)), ptr + 2 * (n + 1)) := by
  induction n generalizing m ws ptr with
  | zero =>
    have hFull : (ws ++ [m.mem.read16 ptr]).length = 256 := by
      rw [List.length_append, List.length_singleton]
      omega
    refine ⟨hFull, ?_⟩
    simp only [pumpOut, outw, tick_of_writeData hPhase, hPhase]
    rw [dif_pos hFull]
    rfl
  | succ n ih =>
    have hPart : (ws ++ [m.mem.read16 ptr]).length ≠ 256 := by
      rw [List.length_append, List.length_singleton]
      omega
    have hOut : outw D m (m.mem.read16 ptr) =
        m.setPhase (.writeData (ws ++ [m.mem.read16 ptr])) := by
      simp only [outw, tick_of_writeData hPhase, hPhase]
      rw [dif_neg hPart]
    have hLeft : (ws ++ [m.mem.read16 ptr]).length + (n + 1) = 256 := by
      rw [List.length_append, List.length_singleton]
      omega
    obtain ⟨h, hPump⟩ := @ih (m.setPhase (.writeData (ws ++ [m.mem.read16 ptr]))) _ (ptr + 2) rfl hLeft
    rw [List.append_assoc] at h
    refine ⟨h, ?_⟩
    rw [pumpOut, hOut, hPump]
    refine Prod.ext ?_ ?_
    · simp only [List.append_assoc]
      rfl
    · show ptr + 2 + 2 * (n + 1) = ptr + 2 * (n + 1 + 1)
      omega

-- ---------------------------------------------------------------------------
-- One sector
-- ---------------------------------------------------------------------------

/-- What every completed command leaves behind: the drive waits again, the flag is
clear, and the record shows the command, its own interrupt and the end of the wait,
in this order and nothing else. -/
structure Served (m m' : Machine) : Prop where
  quiet  : m'.ata.phase.quiet = true
  serial : m'.ata.serial = m.ata.serial + 1
  flag   : m'.ideInterruptFired = 0
  log    : m'.log = m.log ++ [.issued (m.ata.serial + 1), .irq (m.ata.serial + 1), .woke]

theorem Sector.length_words (s : Sector) : s.words.length = 256 := by
  rw [Sector.words, Mem.length_toWords, s.size]

theorem Sector.ofWords_words (s : Sector) : Mem.ofWords s.words = s.bytes :=
  Mem.ofWords_toWords (by rw [s.size])

/-- `m₁` is `m` with the next command under way: neither memory nor disk has changed,
the flag is clear, and `events` have been recorded. -/
structure Underway (m m₁ : Machine) (events : List Event) : Prop where
  serial : m₁.ata.serial = m.ata.serial + 1
  flag   : m₁.ideInterruptFired = 0
  disk   : m₁.ata.disk = m.ata.disk
  mem    : m₁.mem = m.mem
  log    : m₁.log = m.log ++ events

/-- A READ SECTORS command up to the end of the wait. -/
theorem readWait_returns {D : Drive} {m : Machine} (h : m.ata.phase.quiet = true)
    (sector : Nat) :
    ∃ m₁, Returns (fun fuel => ataWaitInterrupt D fuel (issue D m sector 0x20)) m₁ ∧
      Underway m m₁ [.issued (m.ata.serial + 1), .irq (m.ata.serial + 1), .woke] ∧
      m₁.ata.phase = if D.fails (m.ata.serial + 1) then .failed 0
        else .readData (m.ata.disk (sector % 2 ^ 28)).words := by
  -- where the drive settles, whenever its interrupt comes
  have hSettles := settles_read (D := D)
    (m := issued m sector (.readBusy (D.readDelay (m.ata.serial + 1)))) rfl rfl
  have hWait := ataWaitInterrupt_returns (hSettles.iterate 4)
  rw [← issue_read h] at hWait
  refine ⟨_, hWait, ⟨rfl, rfl, rfl, rfl, ?_⟩, ?_⟩
  · simp [wake, readEnd, isrHandler, issued, Machine.setPhase]
  · rw [← taskFile_lba]
    rfl

/-- One turn of the loop of `disk_read`: 512 bytes are stored at `ptr`, and they are the
sector unless the command failed. Nothing else changes. -/
theorem readSector_returns {D : Drive} {m : Machine} (h : m.ata.phase.quiet = true)
    (ptr sector : Nat) :
    ∃ m', Returns (fun fuel => readSector D fuel m ptr sector) (m', ptr + 512) ∧
      Served m m' ∧ m'.ata.disk = m.ata.disk ∧
      (∀ x, x < ptr ∨ ptr + 512 ≤ x → m'.mem x = m.mem x) ∧
      (D.fails (m.ata.serial + 1) = false →
        m'.mem = m.mem.blit ptr (m.ata.disk (sector % 2 ^ 28)).bytes) := by
  obtain ⟨m₁, hWait, hUnder, hPhase⟩ := readWait_returns (D := D) h sector
  have hRead := hWait.map fun m => pumpIn D 256 (m, ptr)
  cases hFails : D.fails (m.ata.serial + 1) with
  | false =>
    rw [hFails, if_neg (by decide)] at hPhase
    have hLen := Sector.length_words (m.ata.disk (sector % 2 ^ 28))
    have hNe : (m.ata.disk (sector % 2 ^ 28)).words ≠ [] := by
      intro hNil
      rw [hNil] at hLen
      simp at hLen
    have hPump := pumpIn_readData (D := D) hNe hPhase ptr
    rw [hLen, Sector.ofWords_words, hUnder.mem] at hPump
    simp only [hPump] at hRead
    refine ⟨_, hRead, ⟨rfl, hUnder.serial, hUnder.flag, hUnder.log⟩, hUnder.disk, ?_, fun _ => rfl⟩
    intro x hx
    refine Mem.blit_of_disjoint _ _ ?_
    rw [Sector.size]
    exact hx
  | true =>
    rw [hFails, if_pos rfl] at hPhase
    obtain ⟨mem, hPump, hOutside⟩ := pumpIn_failed (D := D) hPhase 256 ptr
    simp only [hPump] at hRead
    refine ⟨_, hRead, ⟨rfl, hUnder.serial, hUnder.flag, hUnder.log⟩, hUnder.disk, ?_,
      fun hOk => absurd hOk (by decide)⟩
    intro x hx
    rw [← hUnder.mem]
    exact hOutside x hx

/-- A WRITE SECTORS command up to the point where the drive asks for data. -/
theorem writeReady_returns {D : Drive} {m : Machine} (h : m.ata.phase.quiet = true)
    (sector : Nat) :
    ∃ m₁, Returns (fun fuel => ataPollDrq D fuel (issue D m sector 0x30)) m₁ ∧
      Underway m m₁ [.issued (m.ata.serial + 1)] ∧ m₁.ata.phase = .writeData [] ∧
      m₁.ata.regs.lba = sector % 2 ^ 28 := by
  have hReady := settles_write (D := D)
    (m := issued m sector (.writeBusy (D.drqDelay (m.ata.serial + 1)))) rfl
  have hPoll := ataPollDrq_returns (hReady.iterate 4) (by simp [Phase.status])
  rw [← issue_write h] at hPoll
  exact ⟨_, hPoll, ⟨rfl, rfl, rfl, rfl, rfl⟩, rfl, taskFile_lba sector⟩

/-- The 512 bytes of memory at `ptr` as a sector. -/
def sectorAt (mem : Mem) (ptr : Nat) : Sector :=
  { bytes := mem.slice ptr 512, size := Mem.length_slice .. }

theorem sectorAt_bytes (mem : Mem) (ptr : Nat) : (sectorAt mem ptr).bytes = mem.slice ptr 512 := by
  simp only [sectorAt]

/-- The data of a sector and the end of its command. -/
theorem sendSector_returns {D : Drive} {m₁ : Machine} (hPhase : m₁.ata.phase = .writeData [])
    (hFlag : m₁.ideInterruptFired = 0) (ptr : Nat) :
    Returns (fun fuel => sendSector D fuel m₁ ptr)
      (wake (commitEnd m₁ (sectorAt m₁.mem ptr)), ptr + 512) := by
  -- the 256 words make up the sector and start the commit
  obtain ⟨hLen, hPump⟩ := @pumpOut_writeData D m₁ [] 255 ptr hPhase rfl
  have hSector : Sector.ofWords ([] ++ wordsAt m₁.mem ptr 256) hLen = sectorAt m₁.mem ptr := by
    simp only [Sector.ofWords, sectorAt, List.nil_append, ofWords_wordsAt]
  rw [hSector] at hPump
  -- the interrupt of the commit ends the wait
  have hSettles := settles_commit (D := D) (m := m₁.setPhase (.commitBusy
    (D.commitDelay m₁.ata.serial) (sectorAt m₁.mem ptr))) rfl hFlag
  have hWait := (ataWaitInterrupt_returns hSettles).map fun m => ((inb D m).2, ptr + 512)
  rw [inb_snd, tick_of_quiet rfl] at hWait
  simp only [sendSector, hPump]
  exact hWait

/-- One turn of the loop of `disk_write`: the addressed sector becomes the 512 bytes at
`ptr`. Nothing else changes. -/
theorem writeSector_returns {D : Drive} {m : Machine} (h : m.ata.phase.quiet = true)
    (ptr sector : Nat) :
    ∃ m', Returns (fun fuel => writeSector D fuel m ptr sector) (m', ptr + 512) ∧
      Served m m' ∧ m'.mem = m.mem ∧
      m'.ata.disk = Function.update m.ata.disk (sector % 2 ^ 28) (sectorAt m.mem ptr) := by
  obtain ⟨m₁, hReady, hUnder, hPhase, hLba⟩ := writeReady_returns (D := D) h sector
  have hSend := sendSector_returns (D := D) hPhase hUnder.flag ptr
  refine ⟨_, hReady.bind hSend, ⟨rfl, hUnder.serial, rfl, ?_⟩, hUnder.mem, ?_⟩
  · simp [wake, commitEnd, isrHandler, hUnder.log, hUnder.serial]
  · rw [← hLba, ← hUnder.disk, ← hUnder.mem]
    rfl

end Nao.Disk
