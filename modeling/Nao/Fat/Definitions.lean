import Nao.Disk.Refinement
import Nao.FatFs.Volume
import Nao.Lib.Bits

/-!
# FAT volumes — definitions

The lower half of `ff.c`: the sector window of a mounted volume (`sync_window`,
`move_window`), the file allocation table behind it (`get_fat`, `put_fat`) and the cluster
chains in the table (`clst2sect`, `create_chain`, `remove_chain`), for FAT12, FAT16 and FAT32
and sectors of 512 bytes.

The disk below is an array of sectors whose accesses may fail: a `Device` says which of them
do, and what a failed transfer leaves behind. `FATFS` is split in two: a `Geometry` has the
fields that stay as `mount_volume` set them, together with what its checks establish, so that
sector numbers do not wrap, and a `Fatfs` has the fields that change, and the disk.

`get_fat` answers with a cluster number or with one of the codes 1 (internal error) and
0xFFFFFFFF (disk error), as in the source.
-/

namespace Nao.Fat

open SysLib FatFs Disk

-- ---------------------------------------------------------------------------
-- Bytes of a sector
-- ---------------------------------------------------------------------------

/-- `sector[i]`, as a number. -/
def byteAt (x : Sector) (i : Nat) : Nat := (x.bytes.getD i 0).toNat

/-- `sector[i] = (BYTE)v`. -/
def putByte (x : Sector) (i v : Nat) : Sector :=
  { bytes := x.bytes.set i (UInt8.ofNat v), size := by rw [List.length_set, x.size] }

def ldWord (x : Sector) (o : Nat) : Nat := byteAt x o + 2 ^ 8 * byteAt x (o + 1)

def ldDword (x : Sector) (o : Nat) : Nat := ldWord x o + 2 ^ 16 * ldWord x (o + 2)

def stWord (x : Sector) (o v : Nat) : Sector := putByte (putByte x o v) (o + 1) (v >>> 8)

def stDword (x : Sector) (o v : Nat) : Sector := stWord (stWord x o v) (o + 2) (v >>> 16)

-- ---------------------------------------------------------------------------
-- The volume
-- ---------------------------------------------------------------------------

/-- `fs_type` of a mounted volume. -/
inductive FsType where
  | fat12 | fat16 | fat32
  deriving DecidableEq, Repr

/-- The fields of `FATFS` that `mount_volume` sets. -/
structure Layout where
  fsType   : FsType
  nFats    : Nat
  csize    : Nat
  nRootdir : Nat
  nFatent  : Nat
  fsize    : Nat
  volbase  : Nat
  fatbase  : Nat
  dirbase  : Nat
  database : Nat
  deriving DecidableEq, Repr

/-- `MAX_FAT12`, `MAX_FAT16`, `MAX_FAT32`. -/
def FsType.maxClusters : FsType → Nat
  | .fat12 => 0xFF5
  | .fat16 => 0xFFF5
  | .fat32 => 0x0FFFFFF5

/-- `szbfat`: the bytes a table of that many entries takes. -/
def FsType.tableBytes : FsType → Nat → Nat
  | .fat12, n => n * 3 / 2 + n % 2
  | .fat16, n => n * 2
  | .fat32, n => n * 4

/-- A layout whose areas do not overlap. `mount_volume` computes its fields in 32 bits and does
not exclude that they wrap around for a crafted boot sector. -/
structure Geometry extends Layout where
  fats          : nFats = 1 ∨ nFats = 2
  clusterSize   : ∃ k ≤ 7, csize = 2 ^ k
  someCluster   : 2 < nFatent
  fewClusters   : nFatent ≤ fsType.maxClusters + 2
  tableFits     : fsType.tableBytes nFatent ≤ fsize * 512
  bootFirst     : volbase < fatbase
  tablesFirst   : fatbase + nFats * fsize ≤ database
  dataEnds      : database + csize * (nFatent - 2) < 2 ^ 32

/-- Which accesses fail, by their number, and what is left in the buffer, or on the disk,
when one does. -/
structure Device where
  fails : Nat → Bool
  junk  : Nat → Nat → Sector

/-- The fields of `FATFS` that change, with the disk and the number of accesses so far. -/
structure Fatfs where
  disk     : Nat → Sector
  accesses : Nat
  win      : Sector
  winsect  : Nat
  wflag    : Bool
  fsiFlag  : Nat
  lastClst : Nat
  freeClst : Nat

/-- `disk_read`: the sectors in the buffer afterwards. -/
def diskRead (D : Device) (s : Fatfs) (sect : Nat) : DResult × (Nat → Sector) × Fatfs :=
  let s' := { s with accesses := s.accesses + 1 }
  if D.fails s.accesses then (.error, D.junk s.accesses, s')
  else (.ok, fun i => s.disk (sect + i), s')

/-- `disk_write` of `count` sectors. -/
def diskWrite (D : Device) (s : Fatfs) (sect count : Nat) (data : Nat → Sector) :
    DResult × Fatfs :=
  let s' := { s with accesses := s.accesses + 1 }
  if D.fails s.accesses then
    (.error, { s' with disk := SectorArray.write s.disk sect count (D.junk s.accesses) })
  else (.ok, { s' with disk := SectorArray.write s.disk sect count data })

-- ---------------------------------------------------------------------------
-- The window
-- ---------------------------------------------------------------------------

/-- `(LBA_t)0 - 1`, the sector number of a window without valid data. -/
def noSector : Nat := 2 ^ 32 - 1

def syncWindow (D : Device) (g : Geometry) (s : Fatfs) : FResult × Fatfs :=
  if s.wflag then
    let r := diskWrite D s s.winsect 1 fun _ => s.win
    if r.1 = .ok then
      let s := { r.2 with wflag := false }
      -- the result of the write to the second table is not looked at
      if sub32 s.winsect g.fatbase < g.fsize ∧ g.nFats = 2 then
        (.ok, (diskWrite D s (s.winsect + g.fsize) 1 fun _ => s.win).2)
      else (.ok, s)
    else (.diskErr, r.2)
  else (.ok, s)

def moveWindow (D : Device) (g : Geometry) (s : Fatfs) (sect : Nat) : FResult × Fatfs :=
  if sect ≠ s.winsect then
    let r := syncWindow D g s
    if r.1 = .ok then
      let (res, data, s) := diskRead D r.2 sect
      if res ≠ .ok then (.diskErr, { s with win := data 0, winsect := noSector })
      else (.ok, { s with win := data 0, winsect := sect })
    else r
  else (.ok, s)

/-- A change of the window: `fs->win` is written and `fs->wflag` set. -/
def Fatfs.edit (s : Fatfs) (f : Sector → Sector) : Fatfs := { s with win := f s.win, wflag := true }

-- ---------------------------------------------------------------------------
-- The table
-- ---------------------------------------------------------------------------

/-- The answer for an internal error, and for a disk error. -/
def intError : Nat := 1

def diskError : Nat := 0xFFFFFFFF

/-- `clst2sect`; the answer 0 means that there is no such cluster. -/
def clst2sect (g : Geometry) (clst : Nat) : Nat :=
  let clst := sub32 clst 2
  if clst ≥ g.nFatent - 2 then 0 else g.database + g.csize * clst

def getFat (D : Device) (g : Geometry) (s : Fatfs) (clst : Nat) : Nat × Fatfs :=
  if clst < 2 ∨ clst ≥ g.nFatent then (intError, s)
  else
    match g.fsType with
    | .fat12 =>
      let bc := clst + clst / 2
      let r := moveWindow D g s (g.fatbase + bc / 512)
      if r.1 ≠ .ok then (diskError, r.2)
      else
        let wc := byteAt r.2.win (bc % 512)
        let bc := bc + 1
        let r := moveWindow D g r.2 (g.fatbase + bc / 512)
        if r.1 ≠ .ok then (diskError, r.2)
        else
          let wc := wc ||| byteAt r.2.win (bc % 512) <<< 8
          (if clst &&& 1 ≠ 0 then wc >>> 4 else wc &&& 0xFFF, r.2)
    | .fat16 =>
      let r := moveWindow D g s (g.fatbase + clst / 256)
      if r.1 ≠ .ok then (diskError, r.2) else (ldWord r.2.win (clst * 2 % 512), r.2)
    | .fat32 =>
      let r := moveWindow D g s (g.fatbase + clst / 128)
      if r.1 ≠ .ok then (diskError, r.2)
      else (ldDword r.2.win (clst * 4 % 512) &&& 0x0FFFFFFF, r.2)

def putFat (D : Device) (g : Geometry) (s : Fatfs) (clst val : Nat) : FResult × Fatfs :=
  if 2 ≤ clst ∧ clst < g.nFatent then
    match g.fsType with
    | .fat12 =>
      let bc := clst + clst / 2
      let r := moveWindow D g s (g.fatbase + bc / 512)
      if r.1 ≠ .ok then r
      else
        let p := byteAt r.2.win (bc % 512)
        let s := r.2.edit fun win => putByte win (bc % 512)
          (if clst &&& 1 ≠ 0 then (p &&& 0x0F) ||| (val % 2 ^ 8) <<< 4 else val)
        let bc := bc + 1
        let r := moveWindow D g s (g.fatbase + bc / 512)
        if r.1 ≠ .ok then r
        else
          let p := byteAt r.2.win (bc % 512)
          (.ok, r.2.edit fun win => putByte win (bc % 512)
            (if clst &&& 1 ≠ 0 then val >>> 4 else (p &&& 0xF0) ||| ((val >>> 8) % 2 ^ 8 &&& 0x0F)))
    | .fat16 =>
      let r := moveWindow D g s (g.fatbase + clst / 256)
      if r.1 ≠ .ok then r else (.ok, r.2.edit fun win => stWord win (clst * 2 % 512) val)
    | .fat32 =>
      let r := moveWindow D g s (g.fatbase + clst / 128)
      if r.1 ≠ .ok then r
      else
        (.ok, r.2.edit fun win => stDword win (clst * 4 % 512)
          ((val &&& 0x0FFFFFFF) ||| (ldDword win (clst * 4 % 512) &&& 0xF0000000)))
  else (.intErr, s)

-- ---------------------------------------------------------------------------
-- Chains
-- ---------------------------------------------------------------------------

/-- `fs->free_clst++; fs->fsi_flag |= 1`, if the count is known. -/
def oneMoreFree (g : Geometry) (s : Fatfs) : Fatfs :=
  if s.freeClst < g.nFatent - 2 then
    { s with freeClst := s.freeClst + 1, fsiFlag := s.fsiFlag ||| 1 }
  else s

/-- The loop of `remove_chain`, with a bound on its turns (`removeLoop_turns`). -/
def removeLoop (D : Device) (g : Geometry) : Nat → Fatfs → Nat → FResult × Fatfs
  | 0, s, _ => (.ok, s)
  | turns + 1, s, clst =>
    let (nxt, s) := getFat D g s clst
    if nxt = 0 then (.ok, s)
    else if nxt = intError then (.intErr, s)
    else if nxt = diskError then (.diskErr, s)
    else
      let r := putFat D g s clst 0
      if r.1 ≠ .ok then r
      else
        let s := oneMoreFree g r.2
        if nxt < g.nFatent then removeLoop D g turns s nxt else (.ok, s)

def removeChain (D : Device) (g : Geometry) (s : Fatfs) (clst pclst : Nat) : FResult × Fatfs :=
  if clst < 2 ∨ clst ≥ g.nFatent then (.intErr, s)
  else if pclst ≠ 0 then
    let r := putFat D g s pclst 0xFFFFFFFF
    if r.1 ≠ .ok then r else removeLoop D g g.nFatent r.2 clst
  else removeLoop D g g.nFatent s clst

/-- The `for (;;)` of `create_chain`, with a bound on its turns (`searchFree_turns`): the
cluster found, or one of the answers 0 (none is free), 1 and 0xFFFFFFFF. -/
def searchFree (D : Device) (g : Geometry) (scl : Nat) : Nat → Fatfs → Nat → Nat × Fatfs
  | 0, s, _ => (0, s)
  | turns + 1, s, ncl =>
    let ncl := ncl + 1
    if ncl ≥ g.nFatent ∧ 2 > scl then (0, s)
    else
      let ncl := if ncl ≥ g.nFatent then 2 else ncl
      let (cs, s) := getFat D g s ncl
      if cs = 0 then (ncl, s)
      else if cs = intError ∨ cs = diskError then (cs, s)
      else if ncl = scl then (0, s)
      else searchFree D g scl turns s ncl

/-- The choice of the new cluster in `create_chain`; `scl` is where the search starts. -/
def findCluster (D : Device) (g : Geometry) (s : Fatfs) (clst scl : Nat) : Nat × Fatfs :=
  if scl = clst then
    let ncl := if scl + 1 ≥ g.nFatent then 2 else scl + 1
    let (cs, s) := getFat D g s ncl
    if cs = intError ∨ cs = diskError then (cs, s)
    else if cs ≠ 0 then
      let scl := if 2 ≤ s.lastClst ∧ s.lastClst < g.nFatent then s.lastClst else scl
      searchFree D g scl g.nFatent s scl
    else (ncl, s)
  else searchFree D g scl g.nFatent s scl

/-- The last part of `create_chain`: mark the new cluster, link it, update the counts. -/
def linkCluster (D : Device) (g : Geometry) (s : Fatfs) (clst ncl : Nat) : Nat × Fatfs :=
  let r := putFat D g s ncl 0xFFFFFFFF
  let r := if r.1 = .ok ∧ clst ≠ 0 then putFat D g r.2 clst ncl else r
  if r.1 = .ok then
    let s : Fatfs := { r.2 with lastClst := ncl }
    if 0 < s.freeClst ∧ s.freeClst ≤ g.nFatent - 2 then
      (ncl, { s with freeClst := s.freeClst - 1, fsiFlag := s.fsiFlag ||| 1 })
    else (ncl, s)
  else (if r.1 = .diskErr then diskError else intError, r.2)

/-- From where the search starts on: nothing to do if no cluster is free. -/
def allocCluster (D : Device) (g : Geometry) (s : Fatfs) (clst scl : Nat) : Nat × Fatfs :=
  if s.freeClst = 0 then (0, s)
  else
    let (ncl, s) := findCluster D g s clst scl
    if ncl = 0 ∨ ncl = intError ∨ ncl = diskError then (ncl, s) else linkCluster D g s clst ncl

def createChain (D : Device) (g : Geometry) (s : Fatfs) (clst : Nat) : Nat × Fatfs :=
  if clst = 0 then
    let scl := if s.lastClst = 0 ∨ s.lastClst ≥ g.nFatent then 1 else s.lastClst
    allocCluster D g s clst scl
  else
    let (cs, s) := getFat D g s clst
    if cs < 2 then (intError, s)
    else if cs = diskError then (cs, s)
    -- the chain already goes on
    else if cs < g.nFatent then (cs, s)
    else allocCluster D g s clst clst

end Nao.Fat
