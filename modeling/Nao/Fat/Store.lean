import Nao.Fat.Sync
import Nao.Lib.ByteFile

/-!
# FAT volumes — calls on open files

Any number of files is open on a volume, and calls are made on them in any order. What the
callers are to see of each is a byte sequence with a position (`OpenFile`), and `Allowed` says what
a call may answer and do to it. The files share one window, one table and one search for free
clusters, and each has a buffer of its own.

## Results

* `call_correct` — a call on one file is allowed; it keeps the volume in order, leaves the other
  files alone, and what was on the disk of them is still there.
-/

namespace Nao.Fat

open SysLib FatFs Disk

variable {D : Device} {g : Geometry} {s s' : Fatfs} {f f' : Fil} {l l' : List Nat} {n : Nat}
  {ι : Type*} {U : Nat → Prop} {e : Nat → Nat} {chains chains' : ι → List Nat} {i j : ι}

-- ---------------------------------------------------------------------------
-- Calls
-- ---------------------------------------------------------------------------

inductive Call where
  | read (btr : Nat)
  | write (mem : Mem) (ptr btw : Nat)
  | lseek (ofs : Nat)
  | sync
  | close

/-- The result code of a call, the bytes it read and the number of bytes it wrote. -/
structure Reply where
  res  : FResult
  data : List UInt8
  bw   : Nat
  deriving DecidableEq

def Call.run (D : Device) (g : Geometry) (f : Fil) (s : Fatfs) : Call → Reply × Fil × Fatfs
  | .read btr =>
    let (res, data, f, s) := fRead D g f s btr
    (⟨res, data, 0⟩, f, s)
  | .write mem ptr btw =>
    let (res, bw, f, s) := fWrite D g f s mem ptr btw
    (⟨res, [], bw⟩, f, s)
  | .lseek ofs =>
    let (res, f, s) := fLseek D g f s ofs
    (⟨res, [], 0⟩, f, s)
  | .sync =>
    let (res, f, s) := fSync D g f s
    (⟨res, [], 0⟩, f, s)
  | .close =>
    let (res, f, s) := fClose D g f s
    (⟨res, [], 0⟩, f, s)

/-- The arguments are 32-bit words. -/
def Call.Proper : Call → Prop
  | .read _ | .sync | .close => True
  | .write _ _ btw => btw < 2 ^ 32
  | .lseek ofs => ofs < 2 ^ 32

/-- A mounted volume and the file objects on it. -/
structure Session (ι : Type*) where
  vol   : Fatfs
  files : ι → Fil

section
variable [DecidableEq ι]

def Session.call (D : Device) (g : Geometry) (t : Session ι) (i : ι) (q : Call) : Reply × Session ι :=
  let (r, f, s) := q.run D g (t.files i) t.vol
  (r, { vol := s, files := Function.update t.files i f })

/-- The session after a list of calls. -/
def Session.calls (D : Device) (g : Geometry) (t : Session ι) (qs : List (ι × Call)) : Session ι :=
  qs.foldl (fun t q => (t.call D g q.1 q.2).2) t

end

-- ---------------------------------------------------------------------------
-- Byte sequences
-- ---------------------------------------------------------------------------

/-- No cluster is free. -/
def Geometry.Full (g : Geometry) (v : Nat → Sector) : Prop := ∀ c, g.Cluster c → g.fat v c ≠ 0

/-- A file as its users see it: a byte sequence with a position, whether it is still open, and
for what. -/
@[ext] structure OpenFile extends ByteFile where
  valid   : Bool
  faRead  : Bool
  faWrite : Bool

/-- What a call may answer and do to a file. A call stops short only on a volume that is
`full`. -/
inductive Allowed (full : Prop) (F : OpenFile) : Call → Reply → OpenFile → Prop where
  | read {btr : Nat} (hOpen : F.valid = true) (hMode : F.faRead = true) :
    Allowed full F (.read btr) ⟨.ok, (F.bytes.drop F.pos).take btr, 0⟩
      { F with pos := F.pos + min btr (F.bytes.length - F.pos) }
  | write {mem : Mem} {ptr btw w : Nat} (hOpen : F.valid = true) (hMode : F.faWrite = true)
      (hLe : w ≤ min btw (2 ^ 32 - 1 - F.pos)) (hFull : w < min btw (2 ^ 32 - 1 - F.pos) → full) :
    Allowed full F (.write mem ptr btw) ⟨.ok, [], w⟩
      { F with bytes := overwrite F.bytes F.pos (mem.slice ptr w), pos := F.pos + w }
  /-- past the end the file is lengthened by bytes of any value -/
  | lseek {ofs pos : Nat} (tail : List UInt8) (hOpen : F.valid = true)
      (hTarget : pos = (if F.faWrite then ofs else min ofs F.bytes.length) ∨
        F.faWrite = true ∧ F.bytes.length ≤ pos ∧ pos < ofs ∧ full)
      (hTail : tail.length = pos - F.bytes.length) :
    Allowed full F (.lseek ofs) ⟨.ok, [], 0⟩ { F with bytes := F.bytes ++ tail, pos := pos }
  | sync (hOpen : F.valid = true) : Allowed full F .sync ⟨.ok, [], 0⟩ F
  | close (hOpen : F.valid = true) : Allowed full F .close ⟨.ok, [], 0⟩ { F with valid := false }
  | readDenied {btr : Nat} (hOpen : F.valid = true) (hMode : F.faRead = false) :
    Allowed full F (.read btr) ⟨.denied, [], 0⟩ F
  | writeDenied {mem : Mem} {ptr btw : Nat} (hOpen : F.valid = true) (hMode : F.faWrite = false) :
    Allowed full F (.write mem ptr btw) ⟨.denied, [], 0⟩ F
  /-- after `f_close` -/
  | invalid {q : Call} (hClosed : F.valid = false) : Allowed full F q ⟨.invalidObject, [], 0⟩ F

/-- The file of a file object with the clusters `l`. -/
def Fil.contents (g : Geometry) (v : Nat → Sector) (f : Fil) (l : List Nat) : OpenFile where
  bytes := (g.octetAt (f.view v) l).slice 0 f.objsize
  pos := f.fptr
  valid := f.valid
  faRead := f.faRead
  faWrite := f.faWrite

@[simp] theorem Fil.length_contents (g : Geometry) (v : Nat → Sector) (f : Fil) (l : List Nat) :
    (f.contents g v l).bytes.length = f.objsize := Mem.length_slice ..

theorem mode_eq (h : f'.identity = f.identity) :
    f'.valid = f.valid ∧ f'.faRead = f.faRead ∧ f'.faWrite = f.faWrite := by
  simp only [Fil.identity, Prod.mk.injEq] at h
  exact ⟨h.1, h.2.1, h.2.2.1⟩

/-- The byte sequence depends on the sectors of the file only. -/
theorem Backed.contents_congr (hb : Backed g s f l) {v v' : Nat → Sector}
    (h : ∀ n, g.Owns l n → v' n = v n) : f.contents g v' l = f.contents g v l := by
  have hSize := hb.size
  refine OpenFile.ext (Mem.slice_congr fun p _ hp => ?_) rfl rfl rfl rfl
  refine octetAt_congr (by omega) fun n hn => ?_
  unfold Fil.view
  rw [h n hn]

theorem Carried.contents (h : Carried g l f s f' s') (hb : Backed g s f l) :
    f'.contents g s'.view l = { f.contents g s.view l with pos := f'.fptr } := by
  have hSize := hb.size
  obtain ⟨hValid, hRead, hWrite⟩ := mode_eq h.identity
  refine OpenFile.ext ?_ rfl hValid hRead hWrite
  show (g.octetAt (f'.view s'.view) l).slice 0 f'.objsize = (g.octetAt (f.view s.view) l).slice 0 f.objsize
  rw [h.objsize]
  exact Mem.slice_congr fun p _ hp => octetAt_congr (by omega) h.bytes

-- ---------------------------------------------------------------------------
-- One call
-- ---------------------------------------------------------------------------

/-- A file object on the chain `l`. -/
structure Ready (g : Geometry) (U : Nat → Prop) (s : Fatfs) (f : Fil) (l : List Nat) : Prop where
  backed : Backed g s f l
  placed : Placed g f l
  noErr  : f.err = .ok
  entry  : EntryPlace g U f.dirSect f.dirPtr

/-- A volume in order, with file objects on its chains. -/
structure Open (g : Geometry) (U : Nat → Prop) (e : Nat → Nat) (chains : ι → List Nat)
    (t : Session ι) : Prop where
  stored : Stored g t.vol U e chains
  ready  : ∀ i, Ready g U t.vol (t.files i) (chains i)

/-- Two directory entries at different places. -/
def EntryApart (f f' : Fil) : Prop :=
  f.dirSect ≠ f'.dirSect ∨ f.dirPtr + 32 ≤ f'.dirPtr ∨ f'.dirPtr + 32 ≤ f.dirPtr

/-- The file is on the disk: nothing of it is in the buffer, its chain is in the table on the
disk, and its directory entry is up to date. -/
structure Saved (g : Geometry) (s : Fatfs) (f : Fil) (l : List Nat) : Prop where
  dirty : f.dirty = false
  neat  : Neat g (· ∈ l) s
  clust : ldClust g (s.view f.dirSect) f.dirPtr = f.sclust
  size  : ldDword (s.view f.dirSect) (f.dirPtr + 28) = f.objsize

/-- Files that have not been changed since they were opened, or last synced, are on the disk. -/
structure Secure (g : Geometry) (chains : ι → List Nat) (t : Session ι) : Prop where
  neat  : Neat g (fun _ => False) t.vol
  saved : ∀ i, (t.files i).modified = false → Saved g t.vol (t.files i) (chains i)
  apart : ∀ i j, i ≠ j → EntryApart (t.files i) (t.files j)

/-- The files of a session. -/
def Session.file (g : Geometry) (chains : ι → List Nat) (t : Session ι) (i : ι) : OpenFile :=
  (t.files i).contents g t.vol.view (chains i)

variable [DecidableEq ι]

/-- What a call on the file `i` does to the volume and to its file object. -/
structure Moved (g : Geometry) (U : Nat → Prop) (e : Nat → Nat) (chains : ι → List Nat) (i : ι)
    (f : Fil) (s : Fatfs) (l' : List Nat) (f' : Fil) (s' : Fatfs) : Prop where
  stored   : Stored g s' U e (Function.update chains i l')
  backed   : Backed g s' f' l'
  placed   : Placed g f' l'
  others   : ∀ j, j ≠ i → ∀ n, g.Owns (chains j) n → s'.view n = s.view n
  identity : f'.identity.2 = f.identity.2
  entries  : ∀ fj : Fil, EntryPlace g U fj.dirSect fj.dirPtr → EntryApart fj f →
    ∀ k, fj.dirPtr ≤ k → k < fj.dirPtr + 32 →
      byteAt (s'.view fj.dirSect) k = byteAt (s.view fj.dirSect) k
  neat     : ∀ L : Nat → Prop, (∀ c, L c → Elsewhere g chains i (chains i) l' c) →
    Neat g L s → Neat g L s'
  saved    : (f.modified = false → Saved g s f (chains i)) → f'.modified = false → Saved g s' f' l'

/-- A change within the tables and the sectors of the file is none to the other files. -/
theorem Stored.others (h : Stored g s' U e (Function.update chains i l'))
    (hRest : ∀ n, ¬ g.Mirror n → ¬ g.InTable n → ¬ g.Owns l' n → s'.view n = s.view n) :
    ∀ j, j ≠ i → ∀ n, g.Owns (chains j) n → s'.view n = s.view n := by
  intro j hj n hn
  refine hRest n hn.not_mirror hn.not_table fun hOwn => hj ?_
  refine (h.owns_apart (i := i) (j := j) (n := n) ?_ ?_).symm
  · rwa [Function.update_self]
  · rwa [Function.update_of_ne hj]

/-- A directory entry is outside the tables and the files. -/
theorem EntryPlace.view_eq {dirSect dirPtr : Nat} (hPlace : EntryPlace g U dirSect dirPtr)
    (h : Stored g s' U e (Function.update chains i l'))
    (hRest : ∀ n, ¬ g.Mirror n → ¬ g.InTable n → ¬ g.Owns l' n → s'.view n = s.view n) :
    s'.view dirSect = s.view dirSect :=
  hRest _ hPlace.not_mirror hPlace.not_table fun hOwn =>
    hPlace.not_owned h (i := i) (by rwa [Function.update_self]) rfl

omit [DecidableEq ι] in
/-- The sectors of the files are as seen through the buffer of the file that was synced. -/
theorem Synced.owned (h' : Synced g U e chains f s s') (hPlace : EntryPlace g U f.dirSect f.dirPtr)
    (h : Stored g s U e chains) (hn : g.Owns (chains j) n) : s'.view n = f.view s.view n := by
  refine h'.rest n hn.not_mirror ?_ (hPlace.not_owned h hn)
  obtain ⟨c, -, hIn⟩ := hn
  have := hIn.database_le
  have := g.tablesFirst
  omega

omit [DecidableEq ι] in
/-- A step that changes neither the file nor its entry. -/
theorem Saved.carry (h : Saved g s f l) (hNeat : Neat g (· ∈ l) s')
    (hView : s'.view f.dirSect = s.view f.dirSect) (hDirty : f'.dirty = true → f.dirty = true)
    (hId : f'.identity.2 = f.identity.2) (hSclust : f'.sclust = f.sclust)
    (hSize : f'.objsize = f.objsize) : Saved g s' f' l := by
  simp only [Fil.identity, Prod.mk.injEq] at hId
  obtain ⟨-, -, -, hSect, hPtr⟩ := hId
  refine ⟨?_, hNeat, ?_, ?_⟩
  · by_contra hFlag
    exact absurd (hDirty (by simpa using hFlag)) (by simp [h.dirty])
  · rw [hSect, hPtr, hView, hSclust]
    exact h.clust
  · rw [hSect, hPtr, hView, hSize]
    exact h.size

theorem Moved.refl (h : Stored g s U e chains) (hb : Backed g s f (chains i))
    (hp : Placed g f (chains i)) :
    Moved g U e chains i f s (chains i) f s where
  stored := by rwa [Function.update_eq_self]
  backed := hb
  placed := hp
  others _ _ _ _ := rfl
  identity := rfl
  entries _ _ _ _ _ _ := rfl
  neat _ _ hNeat := hNeat
  saved h hMod := h hMod

theorem Handed.moved {data : List UInt8} (h : Stored g s U e chains)
    (hPlace : EntryPlace g U f.dirSect f.dirPtr)
    (h' : Handed g (chains i) f s data f' s') : Moved g U e chains i f s (chains i) f' s' := by
  have hStored : Stored g s' U e (Function.update chains i (chains i)) := by
    rw [Function.update_eq_self]
    exact h.tend h'.carried.rest h'.backed.coherent
  have hRest : ∀ n, ¬ g.Mirror n → ¬ g.InTable n → ¬ g.Owns (chains i) n → s'.view n = s.view n :=
    fun n hMirror _ hn => h'.carried.rest.view n hMirror hn
  have hNeat : ∀ L : Nat → Prop, (∀ c, L c → g.Cluster c) → Neat g L s → Neat g L s' :=
    h'.carried.rest.neat
  refine ⟨hStored, h'.backed, h'.placed, hStored.others hRest,
    congrArg Prod.snd h'.carried.identity,
    fun fj hj _ k _ _ => by rw [hj.view_eq hStored hRest], fun L hL => hNeat L fun c hc => (hL c hc).1,
    fun hSaved hMod => ?_⟩
  have hOld := hSaved (h'.carried.modified.symm.trans hMod)
  exact hOld.carry (hNeat _ (fun c hc => h.cluster_of_mem hc) hOld.neat) (hPlace.view_eq hStored hRest)
    h'.carried.dirty (congrArg Prod.snd h'.carried.identity) h'.carried.sclust h'.carried.objsize

theorem Written.moved {mem : Mem} {ptr w : Nat}
    (h : Written g U e chains i mem ptr (chains i) f s w l' f' s') (hp : Placed g f' l')
    (hMod : f'.modified = true) : Moved g U e chains i f s l' f' s' where
  stored := h.stored
  backed := h.backed
  placed := hp
  others := h.stored.others h.rest
  identity := congrArg Prod.snd h.identity
  entries fj hj _ k _ _ := by rw [hj.view_eq h.stored h.rest]
  neat := h.neat
  saved _ hSame := absurd (hSame.symm.trans hMod) (by simp)

theorem Sought.moved {ofs : Nat} (hStored : Stored g s U e chains)
    (hPlace : EntryPlace g U f.dirSect f.dirPtr)
    (h : Sought g U e chains i (chains i) f s ofs l' f' s') : Moved g U e chains i f s l' f' s' where
  stored := h.stored
  backed := h.backed
  placed := h.placed
  others := h.stored.others h.rest
  identity := congrArg Prod.snd h.identity
  entries fj hj _ k _ _ := by rw [hj.view_eq h.stored h.rest]
  neat := h.neat
  saved hSaved hSame := by
    rcases h.modified with hMod | ⟨hMod, hSize, hSclust, rfl⟩
    · exact absurd (hSame.symm.trans hMod) (by simp)
    · have hOld := hSaved (hMod.symm.trans hSame)
      exact hOld.carry (h.neat _ (fun c hc => ⟨hStored.cluster_of_mem hc, .inl rfl⟩) hOld.neat)
        (hPlace.view_eq h.stored h.rest) h.dirty (congrArg Prod.snd h.identity) hSclust hSize

/-- What `f_sync` leaves behind: the file is on the disk. -/
theorem Synced.moved (h : Stored g s U e chains) (hReady : Ready g U s f (chains i))
    (h' : Synced g U e chains f s s')
    (hb : Backed g s' { f with dirty := false, modified := false } (chains i)) :
    Moved g U e chains i f s (chains i) { f with dirty := false, modified := false } s' := by
  have hBuf : ∀ n, ¬ g.Owns (chains i) n → f.view s.view n = s.view n := by
    intro n hn
    rw [Fil.view, if_neg]
    rintro ⟨hDirty, rfl⟩
    exact hn (hReady.backed.own (hReady.backed.dirty hDirty))
  refine ⟨?_, hb, ⟨hReady.placed.pos, hReady.placed.clust, hReady.placed.sect⟩, ?_, rfl, ?_,
    fun L _ _ => neat_of_clean g L h'.clean, fun _ _ => ⟨rfl, neat_of_clean g _ h'.clean, ?_, ?_⟩⟩
  · rw [Function.update_eq_self]
    exact h'.stored
  · intro j hj n hn
    rw [h'.owned hReady.entry h hn, hBuf n fun hOwn => hj (h.owns_apart hn hOwn)]
  · intro fj hPlace hApart k hLo hHi
    by_cases hSect : fj.dirSect = f.dirSect
    · rw [hSect, h'.entry, byteAt_updateEntry g f _ hReady.entry.inside]
      rcases hApart with hNe | hBelow | hAbove
      · exact absurd hSect hNe
      · exact .inl (by omega)
      · exact .inr (by omega)
    · have hBehind := hPlace.behind
      rw [h'.rest _ hPlace.not_mirror (by omega) hSect,
        hBuf _ fun hOwn => hPlace.not_owned h hOwn rfl]
  · show ldClust g (s'.view f.dirSect) f.dirPtr = f.sclust
    rw [h'.entry]
    refine ldClust_updateEntry f _ hReady.entry.inside ?_
    rcases hReady.backed.head with ⟨-, hNone⟩ | hHead
    · exact .inl hNone
    · exact .inr (hReady.backed.cluster_of_mem (List.mem_of_getElem? hHead))
  · show ldDword (s'.view f.dirSect) (f.dirPtr + 28) = f.objsize
    rw [h'.entry]
    exact ldDword_updateEntry g f _ hReady.entry.inside hReady.backed.small

/-- The file object is given up; the file stays what it is. -/
theorem Moved.give_up (h : Moved g U e chains i f s l' f' s') :
    Moved g U e chains i f s l' { f' with valid := false } s' where
  stored := h.stored
  backed := ⟨h.backed.coherent, h.backed.chain, h.backed.size, h.backed.small, h.backed.own,
    h.backed.dirty, h.backed.clean, h.backed.away⟩
  placed := ⟨h.placed.pos, h.placed.clust, h.placed.sect⟩
  others := h.others
  identity := h.identity
  entries := h.entries
  neat := h.neat
  saved hSaved hMod := by
    have hNew := h.saved hSaved hMod
    exact ⟨hNew.dirty, hNew.neat, hNew.clust, hNew.size⟩

theorem Moved.ready (h : Moved g U e chains i f s l' f' s') (hReady : Ready g U s f l) :
    Ready g U s' f' l' := by
  have hId := h.identity
  simp only [Fil.identity, Prod.mk.injEq] at hId
  obtain ⟨-, -, hErr, hSect, hPtr⟩ := hId
  exact ⟨h.backed, h.placed, hErr.trans hReady.noErr, by
    rw [hSect, hPtr]
    exact hReady.entry⟩

theorem Moved.other_ready (h : Moved g U e chains i f s l' f' s') (hj : j ≠ i) {fj : Fil}
    (hReady : Ready g U s fj (chains j)) : Ready g U s' fj (chains j) := by
  have hb := hReady.backed
  refine ⟨h.stored.backed (Function.update_of_ne hj l' chains) hb.head hb.size hb.small hb.own
    hb.dirty ?_, hReady.placed, hReady.noErr, hReady.entry⟩
  intro hDirty hSect
  rw [h.others j hj _ (hb.own hSect)]
  exact hb.clean hDirty hSect

/-- The session after a call is in order again, and the other files are as they were. -/
theorem Moved.open {t : Session ι} (hOpen : Open g U e chains t)
    (h : Moved g U e chains i (t.files i) t.vol l' f' s') :
    Open g U e (Function.update chains i l') ⟨s', Function.update t.files i f'⟩ := by
  refine ⟨h.stored, fun j => ?_⟩
  by_cases hj : j = i
  · subst hj
    simpa using h.ready (hOpen.ready j)
  · simpa [Function.update_of_ne hj] using h.other_ready hj (hOpen.ready j)

omit [DecidableEq ι] in
/-- What an entry says depends on its 32 bytes only. -/
theorem entry_congr (g : Geometry) {x y : Sector} {dir : Nat}
    (h : ∀ k, dir ≤ k → k < dir + 32 → byteAt x k = byteAt y k) :
    ldClust g x dir = ldClust g y dir ∧ ldDword x (dir + 28) = ldDword y (dir + 28) := by
  have hWord : ∀ o, o + 2 ≤ 32 → ldWord x (dir + o) = ldWord y (dir + o) := by
    intro o ho
    rw [ldWord, ldWord, h _ (by omega) (by omega), h _ (by omega) (by omega)]
  refine ⟨?_, ?_⟩
  · rw [ldClust, ldClust, hWord 20 (by omega), hWord 26 (by omega)]
  · rw [ldDword, ldDword, hWord 28 (by omega), Nat.add_assoc, hWord 30 (by omega)]

theorem Moved.other_saved (h : Moved g U e chains i f s l' f' s') (hStored : Stored g s U e chains)
    (hj : j ≠ i) {fj : Fil} (hPlace : EntryPlace g U fj.dirSect fj.dirPtr) (hApart : EntryApart fj f)
    (hSaved : Saved g s fj (chains j)) : Saved g s' fj (chains j) := by
  obtain ⟨hClust, hSize⟩ := entry_congr g (h.entries fj hPlace hApart)
  refine ⟨hSaved.dirty, h.neat _ (fun c hc => ⟨hStored.cluster_of_mem hc, .inr ⟨j, hj, hc⟩⟩) hSaved.neat,
    hClust.trans hSaved.clust, hSize.trans hSaved.size⟩

/-- The files that were on the disk still are, and so is this one if it has not been changed. -/
theorem Moved.secure {t : Session ι} (hOpen : Open g U e chains t) (hSecure : Secure g chains t)
    (h : Moved g U e chains i (t.files i) t.vol l' f' s') :
    Secure g (Function.update chains i l') ⟨s', Function.update t.files i f'⟩ := by
  have hId := h.identity
  simp only [Fil.identity, Prod.mk.injEq] at hId
  obtain ⟨-, -, -, hSect, hPtr⟩ := hId
  refine ⟨h.neat _ (fun c hc => absurd hc id) hSecure.neat, fun j hMod => ?_, fun j k hjk => ?_⟩
  · by_cases hj : j = i
    · subst hj
      simp only [Function.update_self] at hMod ⊢
      exact h.saved (hSecure.saved j) hMod
    · simp only [Function.update_of_ne hj] at hMod ⊢
      exact h.other_saved hOpen.stored hj (hOpen.ready j).entry (hSecure.apart j i hj)
        (hSecure.saved j hMod)
  · -- the places of the entries never change
    have hEntry : ∀ m, (Function.update t.files i f' m).dirSect = (t.files m).dirSect ∧
        (Function.update t.files i f' m).dirPtr = (t.files m).dirPtr := by
      intro m
      by_cases hm : m = i
      · subst hm
        rw [Function.update_self]
        exact ⟨hSect, hPtr⟩
      · rw [Function.update_of_ne hm]
        exact ⟨rfl, rfl⟩
    unfold EntryApart
    dsimp only
    rw [(hEntry j).1, (hEntry j).2, (hEntry k).1, (hEntry k).2]
    exact hSecure.apart j k hjk

theorem Moved.file {t : Session ι} (hOpen : Open g U e chains t)
    (h : Moved g U e chains i (t.files i) t.vol l' f' s') :
    (Session.mk s' (Function.update t.files i f')).file g (Function.update chains i l') =
      Function.update (t.file g chains) i (f'.contents g s'.view l') := by
  funext j
  unfold Session.file
  by_cases hj : j = i
  · subst hj
    simp
  · simp only [Function.update_of_ne hj]
    exact (hOpen.ready j).backed.contents_congr (h.others j hj)

-- ---------------------------------------------------------------------------
-- Each call on its byte sequence
-- ---------------------------------------------------------------------------

/-- What becomes of the mark of a changed file. -/
def Call.Leaves (r : Reply) (m m' : Bool) : Call → Prop
  | .read _ => m' = m
  | .sync | .close => m' = if r.res = .ok then false else m
  | .write .. | .lseek _ => True

/-- A call is allowed, and keeps the volume in order. -/
def Call.Correct (D : Device) (g : Geometry) (U : Nat → Prop) (e : Nat → Nat) (chains : ι → List Nat)
    (i : ι) (f : Fil) (s : Fatfs) (q : Call) : Prop :=
  ∃ r f' s' l', q.run D g f s = (r, f', s') ∧ Moved g U e chains i f s l' f' s' ∧
    q.Leaves r f.modified f'.modified ∧
    Allowed (g.Full s'.view) (f.contents g s.view (chains i)) q r (f'.contents g s'.view l')

section
variable (h : Stored g s U e chains) (hReady : Ready g U s f (chains i))
include h hReady

/-- Every call on a closed file is turned away. -/
theorem closed_correct (hClosed : f.valid = false) (q : Call) : q.Correct D g U e chains i f s := by
  have hBad : validate f = .invalidObject := by rw [validate, if_neg (by simp [hClosed])]
  refine ⟨⟨.invalidObject, [], 0⟩, f, s, chains i, ?_, Moved.refl h hReady.backed hReady.placed, ?_,
    .invalid hClosed⟩
  · cases q <;> simp [Call.run, fRead, fWrite, fLseek, fClose, fSync, hBad]
  · cases q <;> simp [Call.Leaves]

variable (hD : D.Reliable) (hValid : f.valid = true)
include hD hValid

theorem read_correct (btr : Nat) : (Call.read btr).Correct D g U e chains i f s := by
  by_cases hMode : f.faRead = true
  · obtain ⟨data, f', s', hEq, hLen, hHanded⟩ := fRead_eq hD hReady.backed hReady.placed hValid
      hReady.noErr hMode btr
    refine ⟨⟨.ok, data, 0⟩, f', s', chains i, by simp only [Call.run, hEq],
      hHanded.moved h hReady.entry, hHanded.carried.modified, ?_⟩
    have hPos := hReady.placed.pos
    have hData : data = ((f.contents g s.view (chains i)).bytes.drop f.fptr).take btr := by
      rw [hHanded.bytes, hLen, Fil.contents, Mem.drop_slice, Mem.take_slice, Nat.zero_add]
    have hPosition : f'.fptr =
        f.fptr + min btr ((f.contents g s.view (chains i)).bytes.length - f.fptr) := by
      rw [hHanded.fptr, hLen, Fil.length_contents]
    rw [hHanded.carried.contents hReady.backed, hPosition, hData]
    exact .read hValid hMode
  · have hDenied : f.faRead = false := by simpa using hMode
    refine ⟨⟨.denied, [], 0⟩, f, s, chains i, ?_, Moved.refl h hReady.backed hReady.placed, rfl,
      .readDenied hValid hDenied⟩
    have hOk : validate f = .ok := by rw [validate, if_pos hValid]
    rw [Call.run, fRead, if_neg (not_not.mpr hOk), if_neg (not_not.mpr hReady.noErr), hDenied]
    rfl

theorem write_correct (mem : Mem) (ptr : Nat) {btw : Nat} (hBtw : btw < 2 ^ 32) :
    (Call.write mem ptr btw).Correct D g U e chains i f s := by
  by_cases hMode : f.faWrite = true
  · obtain ⟨w, f', s', l', hEq, hLe, hWritten, hPlaced, hMod, hFull⟩ := fWrite_eq hD h rfl hReady.backed
      hReady.placed hValid hReady.noErr hMode hBtw mem ptr
    refine ⟨⟨.ok, [], w⟩, f', s', l', by simp only [Call.run, hEq], hWritten.moved hPlaced hMod, trivial, ?_⟩
    have hContents : f'.contents g s'.view l' =
        { f.contents g s.view (chains i) with
          bytes := overwrite (f.contents g s.view (chains i)).bytes f.fptr (mem.slice ptr w)
          pos := f.fptr + w } := by
      obtain ⟨hValid', hRead', hWrite'⟩ := mode_eq hWritten.identity
      refine OpenFile.ext ?_ hWritten.fptr hValid' hRead' hWrite'
      show (g.octetAt (f'.view s'.view) l').slice 0 f'.objsize = _
      rw [hWritten.objsize]
      refine Mem.slice_overwrite hReady.placed.pos fun p hp => hWritten.bytes p ?_
      rwa [hWritten.objsize]
    rw [hContents]
    exact .write hValid hMode hLe hFull
  · have hDenied : f.faWrite = false := by simpa using hMode
    refine ⟨⟨.denied, [], 0⟩, f, s, chains i, ?_, Moved.refl h hReady.backed hReady.placed, trivial,
      .writeDenied hValid hDenied⟩
    have hOk : validate f = .ok := by rw [validate, if_pos hValid]
    rw [Call.run, fWrite, if_neg (not_not.mpr hOk), if_neg (not_not.mpr hReady.noErr), hDenied]
    rfl

theorem lseek_correct {ofs : Nat} (hOfs : ofs < 2 ^ 32) :
    (Call.lseek ofs).Correct D g U e chains i f s := by
  obtain ⟨f', s', l', hEq, hSought⟩ := fLseek_eq hD h rfl hReady.backed hReady.placed hValid
    hReady.noErr hOfs
  refine ⟨⟨.ok, [], 0⟩, f', s', l', by simp only [Call.run, hEq], hSought.moved h hReady.entry, trivial, ?_⟩
  have hContents : f'.contents g s'.view l' =
      { f.contents g s.view (chains i) with
        bytes := (f.contents g s.view (chains i)).bytes ++
          (g.octetAt (f'.view s'.view) l').slice f.objsize (f'.fptr - f.objsize)
        pos := f'.fptr } := by
    obtain ⟨hValid', hRead', hWrite'⟩ := mode_eq hSought.identity
    refine OpenFile.ext ?_ rfl hValid' hRead' hWrite'
    show (g.octetAt (f'.view s'.view) l').slice 0 f'.objsize = _
    have hSplit : f'.objsize = f.objsize + (f'.fptr - f.objsize) := by
      rw [hSought.objsize]
      omega
    rw [hSplit, Mem.slice_add, Nat.zero_add]
    congr 1
    exact Mem.slice_congr fun p _ hp => hSought.bytes p (by omega)
  rw [hContents]
  refine .lseek _ hValid ?_ (by simp)
  rw [Fil.length_contents]
  exact hSought.target

/-- `f_sync` itself, before the file object is given up or not. -/
theorem fSync_moved (hInfo : g.InfoApart) :
    ∃ f' s', fSync D g f s = (.ok, f', s') ∧ Moved g U e chains i f s (chains i) f' s' ∧
      f'.modified = false ∧ f'.contents g s'.view (chains i) = f.contents g s.view (chains i) := by
  by_cases hMod : f.modified = true
  · obtain ⟨s', hEq, hSynced, hb⟩ := fSync_eq hD h rfl hReady.backed hValid hMod hReady.entry hInfo
    refine ⟨_, s', hEq, hSynced.moved h hReady hb, rfl, ?_⟩
    have hSize := hReady.backed.size
    refine OpenFile.ext (Mem.slice_congr fun p _ hp => ?_) rfl rfl rfl rfl
    have hIn : p < 0 + f.objsize := hp
    refine octetAt_congr (by omega) fun n hn => ?_
    rw [Fil.view_of_clean _ rfl, hSynced.owned hReady.entry h hn]
  · refine ⟨f, s, ?_, Moved.refl h hReady.backed hReady.placed, by simpa using hMod, rfl⟩
    have hOk : validate f = .ok := by rw [validate, if_pos hValid]
    rw [fSync, if_neg (not_not.mpr hOk), if_neg hMod]

theorem sync_correct (hInfo : g.InfoApart) : Call.sync.Correct D g U e chains i f s := by
  obtain ⟨f', s', hEq, hMoved, hMod, hContents⟩ := fSync_moved h hReady hD hValid hInfo
  refine ⟨⟨.ok, [], 0⟩, f', s', chains i, by simp only [Call.run, hEq], hMoved, hMod, ?_⟩
  rw [hContents]
  exact .sync hValid

theorem close_correct (hInfo : g.InfoApart) : Call.close.Correct D g U e chains i f s := by
  obtain ⟨f', s', hEq, hMoved, hMod, hContents⟩ := fSync_moved h hReady hD hValid hInfo
  refine ⟨⟨.ok, [], 0⟩, { f' with valid := false }, s', chains i, ?_, hMoved.give_up, hMod, ?_⟩
  · simp only [Call.run, fClose, hEq, if_true]
  · show Allowed _ _ _ _ { f'.contents g s'.view (chains i) with valid := false }
    rw [hContents]
    exact .close hValid

end

theorem call_correct (h : Stored g s U e chains) (hReady : Ready g U s f (chains i)) (hD : D.Reliable)
    (hInfo : g.InfoApart) {q : Call} (hq : q.Proper) : q.Correct D g U e chains i f s := by
  by_cases hValid : f.valid = true
  · cases q with
    | read btr => exact read_correct h hReady hD hValid btr
    | write mem ptr btw => exact write_correct h hReady hD hValid mem ptr hq
    | lseek ofs => exact lseek_correct h hReady hD hValid hq
    | sync => exact sync_correct h hReady hD hValid hInfo
    | close => exact close_correct h hReady hD hValid hInfo
  · exact closed_correct h hReady (by simpa using hValid) q

end Nao.Fat
