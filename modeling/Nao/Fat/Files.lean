import Nao.Fat.Definitions
import Nao.Lib.Mem

/-!
# FAT volumes — files

The calls of `ff.c` on an open file: `f_read`, `f_write`, `f_lseek`, `f_sync` and `f_close`, and
the end of `f_open`, which fills in the file object from its directory entry.

A `FIL` has a sector buffer of its own, which is written back when another sector is needed;
whole sectors go to and from the caller's memory directly. The window of the volume is used
for the table and for the directory entry only.

`ABORT` keeps the error in the file object, and every later call but `f_sync` and `f_close`
answers with it at once.
-/

namespace Nao.Fat

open SysLib FatFs Disk

/-- A byte of a sector. -/
def octet (x : Sector) (i : Nat) : UInt8 := x.bytes.getD i 0

/-- `FIL`: an open file. -/
structure Fil where
  /-- `obj.fs` is set, and the volume is still the one it was opened on -/
  valid    : Bool
  sclust   : Nat
  objsize  : Nat
  faRead   : Bool
  faWrite  : Bool
  dirty    : Bool
  modified : Bool
  err      : FResult
  fptr     : Nat
  clust    : Nat
  sect     : Nat
  buf      : Sector
  dirSect  : Nat
  dirPtr   : Nat

def validate (f : Fil) : FResult := if f.valid then .ok else .invalidObject

/-- `bcs`: the bytes of a cluster. -/
def Geometry.bcs (g : Geometry) : Nat := g.csize * 512

-- ---------------------------------------------------------------------------
-- The sector buffer
-- ---------------------------------------------------------------------------

/-- Write back the sector buffer, if it is dirty. -/
def writeBack (D : Device) (f : Fil) (s : Fatfs) : FResult × Fil × Fatfs :=
  if f.dirty then
    let r := diskWrite D s f.sect 1 fun _ => f.buf
    if r.1 ≠ .ok then (.diskErr, f, r.2) else (.ok, { f with dirty := false }, r.2)
  else (.ok, f, s)

/-- `disk_read` of one sector into the buffer. -/
def fillBuffer (D : Device) (f : Fil) (s : Fatfs) (sect : Nat) : FResult × Fil × Fatfs :=
  let (res, data, s) := diskRead D s sect
  if res ≠ .ok then (.diskErr, { f with buf := data 0 }, s) else (.ok, { f with buf := data 0 }, s)

/-- Load a sector into the buffer if it is not there, and make it the current one. -/
def loadSector (D : Device) (f : Fil) (s : Fatfs) (sect : Nat) : FResult × Fil × Fatfs :=
  if f.sect ≠ sect then
    let r := writeBack D f s
    if r.1 ≠ .ok then r
    else
      let r := fillBuffer D r.2.1 r.2.2 sect
      if r.1 ≠ .ok then r else (.ok, { r.2.1 with sect := sect }, r.2.2)
  else (.ok, f, s)

-- ---------------------------------------------------------------------------
-- f_read
-- ---------------------------------------------------------------------------

/-- On a cluster boundary: the first cluster, or the next one of the chain. -/
def followChain (D : Device) (g : Geometry) (f : Fil) (s : Fatfs) : FResult × Fil × Fatfs :=
  let (clst, s) := if f.fptr = 0 then (f.sclust, s) else getFat D g s f.clust
  if clst < 2 then (.intErr, f, s)
  else if clst = diskError then (.diskErr, f, s)
  else (.ok, { f with clust := clst }, s)

/-- `cc` sectors straight into the caller's memory, one of them from a dirty buffer. -/
def readDirect (D : Device) (f : Fil) (s : Fatfs) (sect cc : Nat) : FResult × List UInt8 × Fatfs :=
  let (res, data, s) := diskRead D s sect
  if res ≠ .ok then (.diskErr, [], s)
  else
    let k := sub32 f.sect sect
    let data := if f.dirty = true ∧ k < cc then Function.update data k f.buf else data
    (.ok, (List.range cc).flatMap fun i => (data i).bytes, s)

/-- The rest of the sector in the buffer, or less of it. -/
def readPart (f : Fil) (btr : Nat) : List UInt8 :=
  let rcnt := min (512 - f.fptr % 512) btr
  (f.buf.bytes.drop (f.fptr % 512)).take rcnt

/-- Read at a sector boundary: whole sectors of the cluster, or the beginning of one. -/
def readSectors (D : Device) (g : Geometry) (f : Fil) (s : Fatfs) (sect csect btr : Nat) :
    FResult × List UInt8 × Fil × Fatfs :=
  let cc := btr / 512
  if cc > 0 then
    let cc := if csect + cc > g.csize then g.csize - csect else cc
    let (res, data, s) := readDirect D f s sect cc
    (res, data, f, s)
  else
    let (res, f, s) := loadSector D f s sect
    if res ≠ .ok then (res, [], f, s) else (.ok, readPart f btr, f, s)

/-- One turn of the loop of `f_read`: the bytes it copies. -/
def readTurn (D : Device) (g : Geometry) (f : Fil) (s : Fatfs) (btr : Nat) :
    FResult × List UInt8 × Fil × Fatfs :=
  if f.fptr % 512 = 0 then
    let csect := f.fptr / 512 &&& (g.csize - 1)
    let (res, f, s) := if csect = 0 then followChain D g f s else (.ok, f, s)
    if res ≠ .ok then (res, [], f, s)
    else
      let sect := clst2sect g f.clust
      if sect = 0 then (.intErr, [], f, s) else readSectors D g f s (sect + csect) csect btr
  else (.ok, readPart f btr, f, s)

/-- The loop of `f_read`; every turn copies a byte at least, so `btr` turns are enough. -/
def readLoop (D : Device) (g : Geometry) :
    Nat → Fil → Fatfs → Nat → List UInt8 → FResult × List UInt8 × Fil × Fatfs
  | 0, f, s, _, got => (.ok, got, f, s)
  | turns + 1, f, s, btr, got =>
    if btr = 0 then (.ok, got, f, s)
    else
      let (res, data, f, s) := readTurn D g f s btr
      if res ≠ .ok then (res, got, { f with err := res }, s)
      else
        readLoop D g turns { f with fptr := f.fptr + data.length } s (btr - data.length) (got ++ data)

/-- `f_read`: the result and the bytes in the caller's buffer, `*br` of them. -/
def fRead (D : Device) (g : Geometry) (f : Fil) (s : Fatfs) (btr : Nat) :
    FResult × List UInt8 × Fil × Fatfs :=
  if validate f ≠ .ok then (validate f, [], f, s)
  else if f.err ≠ .ok then (f.err, [], f, s)
  else if !f.faRead then (.denied, [], f, s)
  else
    let remain := sub32 f.objsize f.fptr
    let btr := if btr > remain then remain else btr
    readLoop D g btr f s btr []

-- ---------------------------------------------------------------------------
-- f_write
-- ---------------------------------------------------------------------------

/-- `memcpy(buf + o, wbuff, n)`, from the memory at `ptr`. -/
def patch (x : Sector) (o n : Nat) (mem : Mem) (ptr : Nat) : Sector :=
  { bytes := (List.range 512).map fun i => if o ≤ i ∧ i < o + n then mem (ptr + (i - o)) else octet x i
    size := by rw [List.length_map, List.length_range] }

/-- On a cluster boundary: follow the chain or stretch it. The flag says whether there is a
cluster; without one the volume is full and the loop is left. -/
def stretchChain (D : Device) (g : Geometry) (f : Fil) (s : Fatfs) : FResult × Bool × Fil × Fatfs :=
  let (clst, s) :=
    if f.fptr = 0 then if f.sclust = 0 then createChain D g s 0 else (f.sclust, s)
    else createChain D g s f.clust
  if clst = 0 then (.ok, false, f, s)
  else if clst = intError then (.intErr, true, f, s)
  else if clst = diskError then (.diskErr, true, f, s)
  else (.ok, true, { f with clust := clst, sclust := if f.sclust = 0 then clst else f.sclust }, s)

/-- `cc` sectors straight from the caller's memory; a buffer among them is filled again. -/
def writeDirect (D : Device) (f : Fil) (s : Fatfs) (sect cc : Nat) (mem : Mem) (ptr : Nat) :
    FResult × Fil × Fatfs :=
  let r := diskWrite D s sect cc fun i => sectorAt mem (ptr + 512 * i)
  if r.1 ≠ .ok then (.diskErr, f, r.2)
  else
    let k := sub32 f.sect sect
    if k < cc then (.ok, { f with buf := sectorAt mem (ptr + 512 * k), dirty := false }, r.2)
    else (.ok, f, r.2)

/-- Make a sector the current one; at the growing edge its old contents are not read. -/
def edgeSector (D : Device) (f : Fil) (s : Fatfs) (sect : Nat) : FResult × Fil × Fatfs :=
  let (res, f, s) :=
    if f.sect ≠ sect ∧ f.fptr < f.objsize then fillBuffer D f s sect else (.ok, f, s)
  if res ≠ .ok then (res, f, s) else (.ok, { f with sect := sect }, s)

/-- Fill the rest of the sector in the buffer, or less of it. -/
def writePart (f : Fil) (btw : Nat) (mem : Mem) (ptr : Nat) : Nat × Fil :=
  let wcnt := min (512 - f.fptr % 512) btw
  (wcnt, { f with buf := patch f.buf (f.fptr % 512) wcnt mem ptr, dirty := true })

/-- Write at a sector boundary: whole sectors of the cluster, or the beginning of one. -/
def writeSectors (D : Device) (g : Geometry) (f : Fil) (s : Fatfs) (sect csect btw : Nat) (mem : Mem)
    (ptr : Nat) : FResult × Option Nat × Fil × Fatfs :=
  let cc := btw / 512
  if cc > 0 then
    let cc := if csect + cc > g.csize then g.csize - csect else cc
    let (res, f, s) := writeDirect D f s sect cc mem ptr
    (res, some (512 * cc), f, s)
  else
    let (res, f, s) := edgeSector D f s sect
    if res ≠ .ok then (res, none, f, s)
    else
      let (wcnt, f) := writePart f btw mem ptr
      (.ok, some wcnt, f, s)

/-- One turn of the loop of `f_write`: the bytes it takes, or nothing if the volume is full. -/
def writeTurn (D : Device) (g : Geometry) (f : Fil) (s : Fatfs) (btw : Nat) (mem : Mem) (ptr : Nat) :
    FResult × Option Nat × Fil × Fatfs :=
  if f.fptr % 512 = 0 then
    let csect := f.fptr / 512 &&& (g.csize - 1)
    let (res, more, f, s) := if csect = 0 then stretchChain D g f s else (.ok, true, f, s)
    if res ≠ .ok ∨ more = false then (res, none, f, s)
    else
      let (res, f, s) := writeBack D f s
      if res ≠ .ok then (res, none, f, s)
      else
        let sect := clst2sect g f.clust
        if sect = 0 then (.intErr, none, f, s)
        else writeSectors D g f s (sect + csect) csect btw mem ptr
  else
    let (wcnt, f) := writePart f btw mem ptr
    (.ok, some wcnt, f, s)

/-- The loop of `f_write`; `bw` is the number of bytes written so far. -/
def writeLoop (D : Device) (g : Geometry) (mem : Mem) (ptr : Nat) :
    Nat → Fil → Fatfs → Nat → Nat → FResult × Nat × Fil × Fatfs
  | 0, f, s, _, bw => (.ok, bw, { f with modified := true }, s)
  | turns + 1, f, s, btw, bw =>
    if btw = 0 then (.ok, bw, { f with modified := true }, s)
    else
      let (res, wcnt, f, s) := writeTurn D g f s btw mem (ptr + bw)
      if res ≠ .ok then (res, bw, { f with err := res }, s)
      else
        match wcnt with
        | none => (.ok, bw, { f with modified := true }, s)
        | some wcnt =>
          let fptr := f.fptr + wcnt
          writeLoop D g mem ptr turns
            { f with fptr := fptr, objsize := if fptr > f.objsize then fptr else f.objsize } s
            (btw - wcnt) (bw + wcnt)

/-- `f_write` of the bytes at `ptr`: the result and `*bw`. -/
def fWrite (D : Device) (g : Geometry) (f : Fil) (s : Fatfs) (mem : Mem) (ptr btw : Nat) :
    FResult × Nat × Fil × Fatfs :=
  if validate f ≠ .ok then (validate f, 0, f, s)
  else if f.err ≠ .ok then (f.err, 0, f, s)
  else if !f.faWrite then (.denied, 0, f, s)
  else
    let btw := if (f.fptr + btw) % 2 ^ 32 < f.fptr then 0xFFFFFFFF - f.fptr else btw
    writeLoop D g mem ptr btw f s btw 0

-- ---------------------------------------------------------------------------
-- f_lseek
-- ---------------------------------------------------------------------------

/-- Where the search for the cluster starts: at the current one, or at the first one. The
cluster, and the offset from there. -/
def seekStart (D : Device) (g : Geometry) (f : Fil) (s : Fatfs) (ifptr ofs : Nat) :
    FResult × Nat × Nat × Fil × Fatfs :=
  if ifptr > 0 ∧ (ofs - 1) / g.bcs ≥ (ifptr - 1) / g.bcs then
    let fptr := (ifptr - 1) &&& ((2 ^ 32 - 1) - (g.bcs - 1))
    (.ok, f.clust, ofs - fptr, { f with fptr := fptr }, s)
  else if f.sclust = 0 then
    let (clst, s) := createChain D g s 0
    if clst = intError then (.intErr, clst, ofs, f, s)
    else if clst = diskError then (.diskErr, clst, ofs, f, s)
    else (.ok, clst, ofs, { f with sclust := clst, clust := clst }, s)
  else (.ok, f.sclust, ofs, { f with clust := f.sclust }, s)

/-- The cluster following loop, with a bound on its turns. -/
def seekLoop (D : Device) (g : Geometry) :
    Nat → Fil → Fatfs → Nat → Nat → FResult × Nat × Nat × Fil × Fatfs
  | 0, f, s, clst, ofs => (.ok, clst, ofs, f, s)
  | turns + 1, f, s, clst, ofs =>
    if ofs > g.bcs then
      let ofs := ofs - g.bcs
      let f := { f with fptr := f.fptr + g.bcs }
      let (clst, s) := if f.faWrite then createChain D g s clst else getFat D g s clst
      -- the volume is full: the file ends here
      if f.faWrite = true ∧ clst = 0 then (.ok, clst, 0, f, s)
      else if clst = diskError then (.diskErr, clst, ofs, f, s)
      else if clst ≤ 1 ∨ clst ≥ g.nFatent then (.intErr, clst, ofs, f, s)
      else seekLoop D g turns { f with clust := clst } s clst ofs
    else (.ok, clst, ofs, f, s)

/-- The position within the cluster, and `nsect`, the sector that has to be in the buffer. -/
def seekSector (g : Geometry) (f : Fil) (s : Fatfs) (clst ofs : Nat) : FResult × Nat × Fil × Fatfs :=
  let f := { f with fptr := f.fptr + ofs }
  if ofs % 512 ≠ 0 then
    let nsect := clst2sect g clst
    if nsect = 0 then (.intErr, 0, f, s) else (.ok, nsect + ofs / 512, f, s)
  else (.ok, 0, f, s)

/-- From `fp->fptr = nsect = 0` to the new position. -/
def seekCluster (D : Device) (g : Geometry) (f : Fil) (s : Fatfs) (ifptr ofs : Nat) :
    FResult × Nat × Fil × Fatfs :=
  if ofs > 0 then
    let (res, clst, ofs, f, s) := seekStart D g f s ifptr ofs
    if res ≠ .ok then (res, 0, f, s)
    else if clst ≠ 0 then
      let (res, clst, ofs, f, s) := seekLoop D g ofs f s clst ofs
      if res ≠ .ok then (res, 0, f, s) else seekSector g f s clst ofs
    else (.ok, 0, f, s)
  else (.ok, 0, f, s)

def fLseek (D : Device) (g : Geometry) (f : Fil) (s : Fatfs) (ofs : Nat) : FResult × Fil × Fatfs :=
  if validate f ≠ .ok then (validate f, f, s)
  else if f.err ≠ .ok then (f.err, f, s)
  else
    let ofs := if ofs > f.objsize ∧ f.faWrite = false then f.objsize else ofs
    let (res, nsect, f, s) := seekCluster D g { f with fptr := 0 } s f.fptr ofs
    if res ≠ .ok then (res, { f with err := res }, s)
    else
      let f := if f.fptr > f.objsize then { f with objsize := f.fptr, modified := true } else f
      if f.fptr % 512 ≠ 0 then
        let (res, f, s) := loadSector D f s nsect
        if res ≠ .ok then (res, { f with err := res }, s) else (.ok, f, s)
      else (.ok, f, s)

-- ---------------------------------------------------------------------------
-- f_sync, f_close, and the end of f_open
-- ---------------------------------------------------------------------------

/-- The allocation information, as `sync_fs` puts it together in the window. -/
def fsInfo (s : Fatfs) : Sector :=
  let win := patch s.win 0 512 (fun _ => 0) 0
  let win := stDword win 0 0x41615252
  let win := stDword win 484 0x61417272
  let win := stDword win 488 s.freeClst
  let win := stDword win 492 s.lastClst
  stDword win 498 0xAA550000

/-- `sync_fs`: flush the window and, on FAT32, write the allocation information; the result of
that write is not looked at. `CTRL_SYNC` always succeeds. -/
def syncFs (D : Device) (g : Geometry) (s : Fatfs) : FResult × Fatfs :=
  let r := syncWindow D g s
  if r.1 = .ok then
    let s := r.2
    if s.fsiFlag = 1 then
      let s := { s with fsiFlag := 0 }
      if g.fsType = .fat32 then
        let s := { s with win := fsInfo s, winsect := g.volbase + 1 }
        (.ok, (diskWrite D s s.winsect 1 fun _ => s.win).2)
      else (.ok, s)
    else (.ok, s)
  else r

def ldClust (g : Geometry) (x : Sector) (dir : Nat) : Nat :=
  let cl := ldWord x (dir + 26)
  if g.fsType = .fat32 then cl ||| ldWord x (dir + 20) <<< 16 else cl

def stClust (g : Geometry) (x : Sector) (dir cl : Nat) : Sector :=
  let x := stWord x (dir + 26) cl
  if g.fsType = .fat32 then stWord x (dir + 20) (cl >>> 16) else x

/-- `get_fattime`: there is no clock. -/
def getFattime : Nat := (2026 - 1980) <<< 25 ||| 6 <<< 21 ||| 28 <<< 16

/-- The directory entry of a changed file. -/
def updateEntry (g : Geometry) (f : Fil) (x : Sector) : Sector :=
  let dir := f.dirPtr
  let x := putByte x (dir + 11) (byteAt x (dir + 11) ||| 0x20)
  let x := stClust g x dir f.sclust
  let x := stDword x (dir + 28) f.objsize
  let x := stDword x (dir + 22) getFattime
  stWord x (dir + 18) 0

def fSync (D : Device) (g : Geometry) (f : Fil) (s : Fatfs) : FResult × Fil × Fatfs :=
  if validate f ≠ .ok then (validate f, f, s)
  else if f.modified then
    let (res, f, s) := writeBack D f s
    if res ≠ .ok then (res, f, s)
    else
      let r := moveWindow D g s f.dirSect
      if r.1 = .ok then
        let r := syncFs D g (r.2.edit (updateEntry g f))
        (r.1, { f with modified := false }, r.2)
      else (r.1, f, r.2)
  else (.ok, f, s)

def fClose (D : Device) (g : Geometry) (f : Fil) (s : Fatfs) : FResult × Fil × Fatfs :=
  let (res, f, s) := fSync D g f s
  if res = .ok then (.ok, { f with valid := false }, s) else (res, f, s)

/-- The end of `f_open` without `FA_CREATE_ALWAYS` and `FA_OPEN_APPEND`: the directory entry is
at `dir` in the window, and the clusters of the file object are those the entry names. -/
def openEntry (g : Geometry) (f : Fil) (s : Fatfs) (dir : Nat) (faRead faWrite : Bool) : Fil :=
  { valid := true
    sclust := ldClust g s.win dir
    objsize := ldDword s.win (dir + 28)
    faRead := faRead
    faWrite := faWrite
    dirty := false
    modified := false
    err := .ok
    fptr := 0
    clust := f.clust
    sect := 0
    buf := patch f.buf 0 512 (fun _ => 0) 0
    dirSect := s.winsect
    dirPtr := dir }

end Nao.Fat
