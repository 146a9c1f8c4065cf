import Nao.Fat.Definitions

/-!
# FAT volumes — the window is a write-back cache

The volume as its users see it is the disk with the unsaved window in its place
(`Fatfs.view`). Moving the window and flushing it never change that view, whichever accesses
of the device fail; a change of the window is a change of one sector of the view. The second
table is a copy the code never reads, and is left out of the comparison.

## Results

* `syncWindow_cases`, `moveWindow_cases` — what the two functions do, on any device.
* `window_loses_nothing` — over every run of changes and flushes, with failures anywhere, the
  view is the plain array after exactly the changes that were answered with `FR_OK`, and a
  flush that is answered with `FR_OK` has brought all of them to the disk.
* `second_table_follows` — on a device that does not fail, after every run and a flush, the
  second table is a copy of the first.
-/

namespace Nao.Fat

open SysLib FatFs Disk

variable {D : Device} {g : Geometry} {s s' : Fatfs}

-- ---------------------------------------------------------------------------
-- The view
-- ---------------------------------------------------------------------------

/-- The sectors of the volume, with the unsaved window in its place. -/
def Fatfs.view (s : Fatfs) (n : Nat) : Sector :=
  if s.wflag = true ∧ n = s.winsect then s.win else s.disk n

/-- The sectors of the second table. -/
def Geometry.Mirror (g : Geometry) (n : Nat) : Prop :=
  g.nFats = 2 ∧ g.fatbase + g.fsize ≤ n ∧ n < g.fatbase + 2 * g.fsize

/-- The sectors of the first table. -/
def Geometry.InTable (g : Geometry) (n : Nat) : Prop := g.fatbase ≤ n ∧ n < g.fatbase + g.fsize

/-- A window that is not dirty holds its sector, if it holds any. -/
structure Coherent (s : Fatfs) : Prop where
  clean  : s.wflag = false → s.winsect ≠ noSector → s.win = s.disk s.winsect
  bounded : s.winsect < 2 ^ 32

theorem Coherent.view_winsect (h : Coherent s) (hValid : s.winsect ≠ noSector) :
    s.view s.winsect = s.win := by
  by_cases hFlag : s.wflag = true
  · rw [Fatfs.view, if_pos ⟨hFlag, rfl⟩]
  · rw [Fatfs.view, if_neg fun hc => hFlag hc.1]
    exact (h.clean (by simpa using hFlag) hValid).symm

theorem view_of_clean (h : s.wflag = false) : s.view = s.disk := by
  funext n
  rw [Fatfs.view, if_neg fun hc => by simp [h] at hc]

theorem view_edit (f : Sector → Sector) (n : Nat) :
    (s.edit f).view n = if n = s.winsect then f s.win else s.view n := by
  by_cases hn : n = s.winsect
  · simp [Fatfs.view, Fatfs.edit, hn]
  · simp [Fatfs.view, Fatfs.edit, hn]

theorem Coherent.edit (h : Coherent s) (f : Sector → Sector) : Coherent (s.edit f) :=
  ⟨fun hFlag _ => Bool.noConfusion hFlag, h.bounded⟩

/-- The windows of the first table are recognised by the subtraction of the source. -/
theorem inTable_iff_sub32 {n : Nat} (hn : n < 2 ^ 32) :
    sub32 n g.fatbase < g.fsize ↔ g.InTable n := by
  have hFits : g.fatbase + g.fsize < 2 ^ 32 := by
    have hTables := g.tablesFirst
    have hEnd := g.dataEnds
    rcases g.fats with hOne | hTwo
    · rw [hOne] at hTables
      omega
    · rw [hTwo] at hTables
      omega
  unfold sub32 Geometry.InTable
  omega

-- ---------------------------------------------------------------------------
-- Accesses
-- ---------------------------------------------------------------------------

theorem write_one (A : Nat → Sector) (sect : Nat) (data : Nat → Sector) :
    SectorArray.write A sect 1 data = Function.update A sect (data 0) := by
  funext n
  by_cases hn : n = sect
  · subst hn
    rw [SectorArray.write, if_pos (by omega), Nat.sub_self, Function.update_self]
  · rw [SectorArray.write, if_neg (by omega), Function.update_of_ne hn]

theorem diskWrite_ok (h : D.fails s.accesses = false) (sect count : Nat) (data : Nat → Sector) :
    diskWrite D s sect count data = (.ok, { s with
      accesses := s.accesses + 1, disk := SectorArray.write s.disk sect count data }) := by
  simp [diskWrite, h]

theorem diskWrite_fail (h : D.fails s.accesses = true) (sect count : Nat) (data : Nat → Sector) :
    diskWrite D s sect count data = (.error, { s with
      accesses := s.accesses + 1,
      disk := SectorArray.write s.disk sect count (D.junk s.accesses) }) := by
  simp [diskWrite, h]

/-- What a flush keeps: the window, and the view outside the second table. -/
structure Flushed (g : Geometry) (s s' : Fatfs) : Prop where
  view     : ∀ n, ¬ g.Mirror n → s'.view n = s.view n
  win      : s'.win = s.win
  winsect  : s'.winsect = s.winsect
  fsiFlag  : s'.fsiFlag = s.fsiFlag
  lastClst : s'.lastClst = s.lastClst
  freeClst : s'.freeClst = s.freeClst

/-- The flush writes the window's sector, and, of the first table, its copy. -/
theorem syncWindow_disk (D : Device) (h : Coherent s) (hFlag : s.wflag = true)
    (hOk : D.fails s.accesses = false) :
    ∃ s', syncWindow D g s = (.ok, s') ∧ s'.wflag = false ∧ s'.win = s.win ∧
      s'.winsect = s.winsect ∧ s'.fsiFlag = s.fsiFlag ∧ s'.lastClst = s.lastClst ∧
      s'.freeClst = s.freeClst ∧
      ((¬ (g.InTable s.winsect ∧ g.nFats = 2) ∧
          s'.disk = Function.update s.disk s.winsect s.win) ∨
        ((g.InTable s.winsect ∧ g.nFats = 2) ∧ ∃ copy,
          (D.fails (s.accesses + 1) = false → copy = s.win) ∧
          s'.disk = Function.update (Function.update s.disk s.winsect s.win)
            (s.winsect + g.fsize) copy)) := by
  have hTable : sub32 s.winsect g.fatbase < g.fsize ↔ g.InTable s.winsect :=
    inTable_iff_sub32 h.bounded
  rw [syncWindow, if_pos hFlag, diskWrite_ok hOk]
  simp only [if_true, write_one]
  by_cases hCopy : g.InTable s.winsect ∧ g.nFats = 2
  · rw [if_pos ⟨hTable.mpr hCopy.1, hCopy.2⟩]
    by_cases hFail : D.fails (s.accesses + 1) = true
    · rw [diskWrite_fail (by exact hFail), write_one]
      exact ⟨_, rfl, rfl, rfl, rfl, rfl, rfl, rfl, .inr ⟨hCopy, _, by simp [hFail], rfl⟩⟩
    · rw [diskWrite_ok (by simpa using hFail), write_one]
      exact ⟨_, rfl, rfl, rfl, rfl, rfl, rfl, rfl, .inr ⟨hCopy, _, fun _ => rfl, rfl⟩⟩
  · rw [if_neg fun hc => hCopy ⟨hTable.mp hc.1, hc.2⟩]
    exact ⟨_, rfl, rfl, rfl, rfl, rfl, rfl, rfl, .inl ⟨hCopy, rfl⟩⟩

theorem syncWindow_fail (hFlag : s.wflag = true) (hFail : D.fails s.accesses = true) :
    syncWindow D g s = (.diskErr, { s with
      accesses := s.accesses + 1,
      disk := Function.update s.disk s.winsect (D.junk s.accesses 0) }) := by
  rw [syncWindow, if_pos hFlag, diskWrite_fail hFail, write_one]
  rfl

/-- `sync_window` on any device: either the window is clean afterwards, or the answer is
`FR_DISK_ERR` and it is still dirty. -/
theorem syncWindow_cases (D : Device) (g : Geometry) (h : Coherent s) :
    ∃ res s', syncWindow D g s = (res, s') ∧ Flushed g s s' ∧ Coherent s' ∧
      (res = .ok ∧ s'.wflag = false ∨
        res = .diskErr ∧ s'.wflag = true ∧ D.fails s.accesses = true) := by
  by_cases hFlag : s.wflag = true
  · by_cases hFail : D.fails s.accesses = true
    · refine ⟨_, _, syncWindow_fail hFlag hFail, ⟨?_, rfl, rfl, rfl, rfl, rfl⟩,
        ⟨?_, h.bounded⟩, .inr ⟨rfl, hFlag, hFail⟩⟩
      · -- the sector on the disk is lost, but the window still stands before it
        intro n _
        simp only [Fatfs.view, hFlag, true_and]
        split
        · rfl
        · rename_i hn
          exact Function.update_of_ne hn _ _
      · intro hClean
        exact absurd (hFlag.symm.trans hClean) (by decide)
    · obtain ⟨s', hEq, hClean, hWin, hSect, hFsi, hLast, hFree, hDisk⟩ :=
        syncWindow_disk (g := g) D h hFlag (by simpa using hFail)
      have hView : ∀ n, ¬ g.Mirror n → s'.disk n = s.view n := by
        intro n hn
        rw [Fatfs.view, hFlag]
        rcases hDisk with ⟨-, hDisk⟩ | ⟨⟨hIn, hTwo⟩, copy, -, hDisk⟩
        · rw [hDisk, Function.update_apply]
          simp
        · have hNe : n ≠ s.winsect + g.fsize := by
            rintro rfl
            obtain ⟨hLo, hHi⟩ := hIn
            exact hn ⟨hTwo, by omega, by omega⟩
          rw [hDisk, Function.update_of_ne hNe, Function.update_apply]
          simp
      refine ⟨.ok, s', hEq, ⟨?_, hWin, hSect, hFsi, hLast, hFree⟩, ⟨?_, hSect ▸ h.bounded⟩,
        .inl ⟨rfl, hClean⟩⟩
      · intro n hn
        rw [view_of_clean hClean, hView n hn]
      · intro _ _
        rw [hSect, hWin]
        rcases hDisk with ⟨-, hDisk⟩ | ⟨⟨hIn, -⟩, copy, -, hDisk⟩
        · rw [hDisk, Function.update_self]
        · obtain ⟨hLo, hHi⟩ := hIn
          rw [hDisk, Function.update_of_ne (by omega), Function.update_self]
  · refine ⟨.ok, s, by simp [syncWindow, hFlag], ⟨fun _ _ => rfl, rfl, rfl, rfl, rfl, rfl⟩, h,
      .inl ⟨rfl, by simpa using hFlag⟩⟩

/-- What the functions of the window keep: the view outside the second table, and the
allocation information. -/
structure Kept (g : Geometry) (s s' : Fatfs) : Prop where
  view     : ∀ n, ¬ g.Mirror n → s'.view n = s.view n
  fsiFlag  : s'.fsiFlag = s.fsiFlag
  lastClst : s'.lastClst = s.lastClst
  freeClst : s'.freeClst = s.freeClst

theorem Kept.refl (g : Geometry) (s : Fatfs) : Kept g s s := ⟨fun _ _ => rfl, rfl, rfl, rfl⟩

theorem Kept.trans {s'' : Fatfs} (h : Kept g s s') (h' : Kept g s' s'') : Kept g s s'' where
  view n hn := (h'.view n hn).trans (h.view n hn)
  fsiFlag := h'.fsiFlag.trans h.fsiFlag
  lastClst := h'.lastClst.trans h.lastClst
  freeClst := h'.freeClst.trans h.freeClst

theorem Flushed.kept (h : Flushed g s s') : Kept g s s' :=
  ⟨h.view, h.fsiFlag, h.lastClst, h.freeClst⟩

theorem moveWindow_elsewhere {s₁ : Fatfs} {sect : Nat} (hElse : sect ≠ s.winsect)
    (hSync : syncWindow D g s = (.ok, s₁)) :
    moveWindow D g s sect =
      if D.fails s₁.accesses then
        (.diskErr, { s₁ with
          accesses := s₁.accesses + 1, win := D.junk s₁.accesses 0, winsect := noSector })
      else
        (.ok, { s₁ with
          accesses := s₁.accesses + 1, win := s₁.disk sect, winsect := sect }) := by
  rw [moveWindow, if_pos hElse, hSync]
  by_cases hFail : D.fails s₁.accesses = true
  · simp [diskRead, hFail]
  · simp [diskRead, hFail]

/-- `move_window` on any device: the window holds the sector, or the answer is
`FR_DISK_ERR`, and nothing is lost. -/
theorem moveWindow_cases (D : Device) (g : Geometry) (h : Coherent s) {sect : Nat}
    (hSect : sect < noSector) (hMirror : ¬ g.Mirror sect) :
    ∃ res s', moveWindow D g s sect = (res, s') ∧ Kept g s s' ∧ Coherent s' ∧
      (res = .ok ∧ s'.winsect = sect ∧ s'.win = s.view sect ∨
        res = .diskErr ∧ (s'.winsect = s.winsect ∨ s'.winsect = noSector) ∧
          ∃ k, D.fails k = true) := by
  by_cases hHere : sect = s.winsect
  · refine ⟨.ok, s, by simp [moveWindow, hHere], Kept.refl g s, h, .inl ⟨rfl, hHere.symm, ?_⟩⟩
    rw [hHere]
    exact (h.view_winsect (by omega)).symm
  · obtain ⟨res, s₁, hEq, hFlushed, hCoh, hRes⟩ := syncWindow_cases D g h
    rcases hRes with ⟨rfl, hClean⟩ | ⟨rfl, hDirty, hFail⟩
    · -- the window is saved; what is read is the disk, which is the view
      have hSame : s₁.disk sect = s.view sect := by
        rw [← view_of_clean hClean, hFlushed.view sect hMirror]
      have hView : ∀ s₂ : Fatfs, s₂.disk = s₁.disk → s₂.wflag = s₁.wflag →
          ∀ n, ¬ g.Mirror n → s₂.view n = s.view n := by
        intro s₂ hDisk hFlag n hn
        rw [view_of_clean (hFlag.trans hClean), hDisk, ← view_of_clean hClean, hFlushed.view n hn]
      rw [moveWindow_elsewhere hHere hEq]
      by_cases hFail : D.fails s₁.accesses = true
      · rw [if_pos hFail]
        refine ⟨_, _, rfl, ⟨hView _ rfl rfl, hFlushed.fsiFlag, hFlushed.lastClst,
          hFlushed.freeClst⟩, ⟨?_, ?_⟩, .inr ⟨rfl, .inr rfl, _, hFail⟩⟩
        · intro _ hValid
          exact absurd rfl hValid
        · show noSector < 2 ^ 32
          decide
      · rw [if_neg hFail]
        refine ⟨_, _, rfl, ⟨hView _ rfl rfl, hFlushed.fsiFlag, hFlushed.lastClst,
          hFlushed.freeClst⟩, ⟨fun _ _ => rfl, ?_⟩, .inl ⟨rfl, rfl, hSame⟩⟩
        show sect < 2 ^ 32
        exact lt_trans hSect (by decide)
    · refine ⟨.diskErr, s₁, by simp [moveWindow, hHere, hEq], hFlushed.kept, hCoh,
        .inr ⟨rfl, .inl hFlushed.winsect, _, hFail⟩⟩

-- ---------------------------------------------------------------------------
-- Runs
-- ---------------------------------------------------------------------------

/-- What the rest of the code does with the window: bring up a sector and change it, or
flush. -/
inductive Request where
  | change (sect : Nat) (f : Sector → Sector)
  | flush

def serve (D : Device) (g : Geometry) (s : Fatfs) : Request → FResult × Fatfs
  | .change sect f =>
    let r := moveWindow D g s sect
    if r.1 ≠ .ok then r else (.ok, r.2.edit f)
  | .flush => syncWindow D g s

/-- The answers to a list of requests, and the state after them. -/
def serveAll (D : Device) (g : Geometry) : Fatfs → List Request → List FResult × Fatfs
  | s, [] => ([], s)
  | s, q :: qs =>
    let r := serve D g s q
    let rs := serveAll D g r.2 qs
    (r.1 :: rs.1, rs.2)

/-- The plain array: a change is made when it was answered with `FR_OK`. -/
def Request.apply (A : Nat → Sector) : Request → FResult → Nat → Sector
  | .change sect f, .ok => Function.update A sect (f (A sect))
  | _, _ => A

def applyAll : (Nat → Sector) → List Request → List FResult → Nat → Sector
  | A, q :: qs, r :: rs => applyAll (q.apply A r) qs rs
  | A, _, _ => A

/-- The sectors the code changes: not those of the second table. -/
def Request.Proper (g : Geometry) : Request → Prop
  | .change sect _ => sect < noSector ∧ ¬ g.Mirror sect
  | .flush => True

theorem applyAll_congr {A B : Nat → Sector} (hAB : ∀ n, ¬ g.Mirror n → A n = B n)
    {qs : List Request} (hq : ∀ q ∈ qs, q.Proper g) (rs : List FResult) :
    ∀ n, ¬ g.Mirror n → applyAll A qs rs n = applyAll B qs rs n := by
  induction qs generalizing A B rs with
  | nil => simpa [applyAll] using hAB
  | cons q qs ih =>
    cases rs with
    | nil => simpa [applyAll] using hAB
    | cons r rs =>
      refine ih ?_ (fun q' h' => hq q' (List.mem_cons_of_mem _ h')) rs
      intro n hn
      have hProper := hq q List.mem_cons_self
      cases q with
      | flush => exact hAB n hn
      | change sect f =>
        cases r with
        | ok =>
          simp only [Request.apply, Function.update_apply, hAB sect hProper.2, hAB n hn]
        | _ => exact hAB n hn

/-- One request: the answer is `FR_OK` and the view is changed accordingly, or it is
`FR_DISK_ERR` and the view is as before. -/
theorem serve_cases (D : Device) (h : Coherent s) {q : Request} (hq : q.Proper g) :
    ∃ res s', serve D g s q = (res, s') ∧ Coherent s' ∧ (res = .ok ∨ res = .diskErr) ∧
      ∀ n, ¬ g.Mirror n → s'.view n = q.apply s.view res n := by
  cases q with
  | flush =>
    obtain ⟨res, s', hEq, hFlushed, hCoh, hRes⟩ := syncWindow_cases D g h
    refine ⟨res, s', hEq, hCoh, ?_, hFlushed.view⟩
    rcases hRes with ⟨hRes, -⟩ | ⟨hRes, -⟩
    · exact .inl hRes
    · exact .inr hRes
  | change sect f =>
    obtain ⟨res, s₁, hEq, hKept, hCoh, hRes⟩ := moveWindow_cases D g h hq.1 hq.2
    rcases hRes with ⟨rfl, hSect, hWin⟩ | ⟨rfl, -⟩
    · refine ⟨.ok, s₁.edit f, by simp [serve, hEq], hCoh.edit f, .inl rfl, ?_⟩
      intro n hn
      rw [view_edit, hSect, hWin, hKept.view n hn, Request.apply, Function.update_apply]
    · exact ⟨.diskErr, s₁, by simp [serve, hEq], hCoh, .inr rfl, hKept.view⟩

theorem serveAll_view (D : Device) (h : Coherent s) {qs : List Request}
    (hq : ∀ q ∈ qs, q.Proper g) :
    Coherent (serveAll D g s qs).2 ∧ (∀ r ∈ (serveAll D g s qs).1, r = .ok ∨ r = .diskErr) ∧
      ∀ n, ¬ g.Mirror n →
        (serveAll D g s qs).2.view n = applyAll s.view qs (serveAll D g s qs).1 n := by
  induction qs generalizing s with
  | nil => exact ⟨h, by simp [serveAll], fun _ _ => rfl⟩
  | cons q qs ih =>
    obtain ⟨res, s₁, hEq, hCoh, hRes, hView⟩ := serve_cases D h (hq q List.mem_cons_self)
    have hRest : ∀ q' ∈ qs, q'.Proper g := fun q' h' => hq q' (List.mem_cons_of_mem _ h')
    obtain ⟨hCoh', hAnswers, hView'⟩ := ih hCoh hRest
    simp only [serveAll, hEq]
    refine ⟨hCoh', ?_, ?_⟩
    · intro r hr
      rcases List.mem_cons.mp hr with rfl | hr
      · exact hRes
      · exact hAnswers r hr
    · intro n hn
      rw [hView' n hn]
      exact applyAll_congr hView hRest _ n hn

/--
**No failure loses a change.** From a coherent state, for every list of changes and flushes
and every device, however often and wherever it fails: each request is answered with `FR_OK`
or `FR_DISK_ERR`, the volume as seen through the window is the plain array after exactly the
changes that were answered with `FR_OK`, and a flush that is then answered with `FR_OK` has
brought all of them to the disk.
-/
theorem window_loses_nothing (D : Device) (g : Geometry) {s : Fatfs} (hCoherent : Coherent s)
    {qs : List Request} (hProper : ∀ q ∈ qs, q.Proper g) :
    (∀ r ∈ (serveAll D g s qs).1, r = .ok ∨ r = .diskErr) ∧
    (∀ n, ¬ g.Mirror n →
      (serveAll D g s qs).2.view n = applyAll s.view qs (serveAll D g s qs).1 n) ∧
    ((syncWindow D g (serveAll D g s qs).2).1 = .ok → ∀ n, ¬ g.Mirror n →
      (syncWindow D g (serveAll D g s qs).2).2.disk n =
        applyAll s.view qs (serveAll D g s qs).1 n) := by
  obtain ⟨hCoh, hAnswers, hView⟩ := serveAll_view D hCoherent hProper
  refine ⟨hAnswers, hView, ?_⟩
  intro hOk n hn
  obtain ⟨res, s', hEq, hFlushed, -, hRes⟩ := syncWindow_cases D g hCoh
  rw [hEq] at hOk ⊢
  rcases hRes with ⟨-, hClean⟩ | ⟨hErr, -⟩
  · rw [← view_of_clean hClean, hFlushed.view n hn, hView n hn]
  · exact absurd (hErr.symm.trans hOk) (by decide)

/-- A FAT16 volume with two tables of two sectors each. -/
def demoGeometry : Geometry where
  fsType := .fat16
  nFats := 2
  csize := 2
  nRootdir := 16
  nFatent := 300
  fsize := 2
  volbase := 0
  fatbase := 1
  dirbase := 5
  database := 6
  fats := .inr rfl
  clusterSize := ⟨1, by omega, rfl⟩
  someCluster := by omega
  fewClusters := by decide
  tableFits := by decide
  bootFirst := by omega
  tablesFirst := by omega
  dataEnds := by decide

theorem length_blank : (List.replicate 512 (0 : UInt8)).length = 512 := List.length_replicate ..

def blankSector : Sector := { bytes := List.replicate 512 0, size := length_blank }

/-- A blank volume as `mount_volume` leaves it. -/
def demoFatfs : Fatfs where
  disk _ := blankSector
  accesses := 0
  win := blankSector
  winsect := noSector
  wflag := false
  fsiFlag := 0x80
  lastClst := 2 ^ 32 - 1
  freeClst := 2 ^ 32 - 1

theorem coherent_demoFatfs : Coherent demoFatfs := ⟨fun _ h => absurd rfl h, by decide⟩

/-- Two changes of the first table and a flush, on a device whose third access fails. -/
theorem window_loses_nothing_demo :
    (serveAll { fails := (· == 2), junk := fun _ _ => blankSector } demoGeometry demoFatfs
      [.change 1 fun x => stWord x 4 0xFFFF, .change 2 fun x => stWord x 8 3, .flush]).2.view 1 =
    applyAll demoFatfs.view
      [.change 1 fun x => stWord x 4 0xFFFF, .change 2 fun x => stWord x 8 3, .flush]
      (serveAll { fails := (· == 2), junk := fun _ _ => blankSector } demoGeometry demoFatfs
        [.change 1 fun x => stWord x 4 0xFFFF, .change 2 fun x => stWord x 8 3, .flush]).1 1 := by
  refine (window_loses_nothing _ demoGeometry coherent_demoFatfs ?_).2.1 1 ?_
  · simp [Request.Proper, Geometry.Mirror, demoGeometry, noSector]
  · simp [Geometry.Mirror, demoGeometry]

-- ---------------------------------------------------------------------------
-- The second table
-- ---------------------------------------------------------------------------

def Device.Reliable (D : Device) : Prop := ∀ k, D.fails k = false

/-- The second table is a copy of the first, up to the unsaved window, and the window is
never moved there. -/
structure Mirrored (g : Geometry) (s : Fatfs) : Prop where
  copy : g.nFats = 2 → ∀ n, g.InTable n → ¬ (s.wflag = true ∧ n = s.winsect) →
    s.disk (n + g.fsize) = s.disk n
  away : ¬ g.Mirror s.winsect

theorem Mirrored.edit (h : Mirrored g s) (f : Sector → Sector) : Mirrored g (s.edit f) := by
  refine ⟨?_, h.away⟩
  intro hTwo n hn hOther
  refine h.copy hTwo n hn ?_
  rintro ⟨-, rfl⟩
  exact hOther ⟨rfl, rfl⟩

theorem syncWindow_mirrored (hD : D.Reliable) (h : Coherent s) (hM : Mirrored g s) :
    ∃ s', syncWindow D g s = (.ok, s') ∧ s'.wflag = false ∧ Mirrored g s' := by
  by_cases hFlag : s.wflag = true
  · obtain ⟨s', hEq, hClean, -, hSect, -, -, -, hDisk⟩ :=
      syncWindow_disk (g := g) D h hFlag (hD _)
    refine ⟨s', hEq, hClean, ?_, hSect ▸ hM.away⟩
    intro hTwo n hn _
    have hCopy := hM.copy hTwo n hn
    obtain ⟨hLo, hHi⟩ := hn
    rcases hDisk with ⟨hOut, hDisk⟩ | ⟨⟨⟨hLo', hHi'⟩, -⟩, copy, hSame, hDisk⟩
    · -- the window is neither in the first table nor in the second
      have hNe : n ≠ s.winsect := fun hc => hOut ⟨hc ▸ ⟨hLo, hHi⟩, hTwo⟩
      have hNe' : n + g.fsize ≠ s.winsect := fun hc => hM.away (hc ▸ ⟨hTwo, by omega, by omega⟩)
      rw [hDisk, Function.update_of_ne hNe', Function.update_of_ne hNe]
      exact hCopy fun hc => hNe hc.2
    · rw [hDisk, hSame (hD _)]
      by_cases hHere : n = s.winsect
      · subst hHere
        rw [Function.update_self, Function.update_of_ne (by omega), Function.update_self]
      · rw [Function.update_of_ne (by omega), Function.update_of_ne (by omega),
          Function.update_of_ne (by omega), Function.update_of_ne hHere]
        exact hCopy fun hc => hHere hc.2
  · exact ⟨s, by simp [syncWindow, hFlag], by simpa using hFlag, hM⟩

theorem moveWindow_mirrored (hD : D.Reliable) (h : Coherent s) (hM : Mirrored g s) {sect : Nat}
    (hSect : ¬ g.Mirror sect) : Mirrored g (moveWindow D g s sect).2 := by
  by_cases hHere : sect = s.winsect
  · simpa [moveWindow, hHere] using hM
  · obtain ⟨s₁, hEq, hClean, hM₁⟩ := syncWindow_mirrored hD h hM
    rw [moveWindow_elsewhere hHere hEq, if_neg (by simp [hD s₁.accesses])]
    refine ⟨?_, hSect⟩
    intro hTwo n hn _
    exact hM₁.copy hTwo n hn fun hc => absurd (hClean.symm.trans hc.1) (by decide)

theorem serveAll_mirrored (hD : D.Reliable) (h : Coherent s) (hM : Mirrored g s)
    {qs : List Request} (hq : ∀ q ∈ qs, q.Proper g) : Mirrored g (serveAll D g s qs).2 := by
  induction qs generalizing s with
  | nil => exact hM
  | cons q qs ih =>
    have hProper := hq q List.mem_cons_self
    obtain ⟨res, s₁, hEq, hCoh, -, -⟩ := serve_cases D h hProper
    have hM₁ : Mirrored g s₁ := by
      cases q with
      | flush =>
        obtain ⟨s', hSync, -, hM'⟩ := syncWindow_mirrored hD h hM
        rw [serve, hSync] at hEq
        exact (Prod.mk.inj hEq).2 ▸ hM'
      | change sect f =>
        have hM' := moveWindow_mirrored hD h hM hProper.2
        rw [serve] at hEq
        split at hEq
        · rw [hEq] at hM'
          exact hM'
        · exact (Prod.mk.inj hEq).2 ▸ hM'.edit f
    simp only [serveAll, hEq]
    exact ih hCoh hM₁ fun q' h' => hq q' (List.mem_cons_of_mem _ h')

/--
**The second table follows the first.** On a device that does not fail, after every list of
changes and flushes from a state in which the tables agree, and one more flush, they agree
again, sector by sector.
-/
theorem second_table_follows {D : Device} {g : Geometry} {s : Fatfs} (hD : D.Reliable)
    (hCoherent : Coherent s) (hMirrored : Mirrored g s) (hTwo : g.nFats = 2)
    {qs : List Request} (hProper : ∀ q ∈ qs, q.Proper g) {n : Nat} (hn : g.InTable n) :
    (syncWindow D g (serveAll D g s qs).2).1 = .ok ∧
      (syncWindow D g (serveAll D g s qs).2).2.disk (n + g.fsize) =
        (syncWindow D g (serveAll D g s qs).2).2.disk n := by
  obtain ⟨hCoh, -, -⟩ := serveAll_view D hCoherent hProper
  have hM := serveAll_mirrored hD hCoherent hMirrored hProper
  obtain ⟨s', hEq, hClean, hM'⟩ := syncWindow_mirrored hD hCoh hM
  rw [hEq]
  exact ⟨rfl, hM'.copy hTwo n hn fun hc => absurd (hClean.symm.trans hc.1) (by decide)⟩

theorem second_table_follows_demo :
    (syncWindow { fails := fun _ => false, junk := fun _ _ => blankSector } demoGeometry
      (serveAll { fails := fun _ => false, junk := fun _ _ => blankSector } demoGeometry demoFatfs
        [.change 1 fun x => stWord x 4 0xFFFF, .change 6 id]).2).2.disk (1 + demoGeometry.fsize) =
    (syncWindow { fails := fun _ => false, junk := fun _ _ => blankSector } demoGeometry
      (serveAll { fails := fun _ => false, junk := fun _ _ => blankSector } demoGeometry demoFatfs
        [.change 1 fun x => stWord x 4 0xFFFF, .change 6 id]).2).2.disk 1 := by
  refine (second_table_follows (fun _ => rfl) coherent_demoFatfs ⟨fun _ _ _ _ => rfl, ?_⟩ rfl ?_
    ⟨by decide, by decide⟩).2
  · simp [Geometry.Mirror, demoGeometry, demoFatfs, noSector]
  · simp [Request.Proper, Geometry.Mirror, demoGeometry, noSector]

end Nao.Fat
