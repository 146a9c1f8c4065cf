import Nao.Fat.Files
import Nao.Fat.Settled

/-!
# FAT volumes — the contents of a file

The clusters of a file, in the order of its chain, hold its bytes. A byte is found in a sector
of a cluster of the chain, or in the sector buffer of the file object if that is where the
sector is and it has been changed (`Fil.view`). So there are two write-back caches, one above
the other: the buffer of each file, and the window of the volume. They do not meet, since the
window is never at a sector of a file.

## Results

* `sectorNo_inj` — different positions of a file are in different places.
* `writeBack_eq`, `loadSector_eq` — the buffer can be written back and filled again without any
  change of the contents.
-/

namespace Nao.Fat

open SysLib FatFs Disk

variable {D : Device} {g : Geometry} {s s' : Fatfs} {f : Fil} {l : List Nat}
  {c c' n k k' sect : Nat}

-- ---------------------------------------------------------------------------
-- Sectors of clusters
-- ---------------------------------------------------------------------------

theorem csize_pos (g : Geometry) : 0 < g.csize := by
  obtain ⟨k, -, hk⟩ := g.clusterSize
  rw [hk]
  exact Nat.two_pow_pos k

theorem bcs_pos (g : Geometry) : 0 < g.bcs := Nat.mul_pos (csize_pos g) (by omega)

/-- The sector offset in the cluster. -/
theorem and_csize (g : Geometry) (x : Nat) : x &&& (g.csize - 1) = x % g.csize := by
  obtain ⟨k, -, hk⟩ := g.clusterSize
  rw [hk, Nat.and_two_pow_sub_one_eq_mod]

/-- The first sector of a cluster. -/
def Geometry.firstSector (g : Geometry) (c : Nat) : Nat := g.database + g.csize * (c - 2)

/-- The sectors of a cluster. -/
def Geometry.InCluster (g : Geometry) (c n : Nat) : Prop :=
  g.firstSector c ≤ n ∧ n < g.firstSector c + g.csize

theorem Geometry.Cluster.lt (hc : g.Cluster c) : c < 2 ^ 28 := by
  have hEoc := nFatent_le_eoc g
  have hWidth := width_le g.fsType
  have hMod := Nat.mod_lt 0xFFFFFFFF (Nat.two_pow_pos g.fsType.width)
  have hHi := hc.2
  omega

theorem clst2sect_eq (hc : g.Cluster c) : clst2sect g c = g.firstSector c := by
  have hLt := hc.lt
  obtain ⟨hLo, hHi⟩ := hc
  rw [clst2sect, sub32_of_le hLo (by omega), if_neg (by omega)]
  rfl

theorem firstSector_pos (g : Geometry) (c : Nat) : 0 < g.firstSector c := by
  have hBoot := g.bootFirst
  have hTables := g.tablesFirst
  unfold Geometry.firstSector
  omega

/-- The sectors of clusters lie behind the tables. -/
theorem Geometry.InCluster.database_le (h : g.InCluster c n) : g.database ≤ n :=
  le_trans (Nat.le_add_right _ _) h.1

theorem Geometry.InCluster.pos (h : g.InCluster c n) : 0 < n :=
  lt_of_lt_of_le (firstSector_pos g c) h.1

theorem Geometry.InCluster.not_table (h : g.InCluster c n) : ¬ g.InTable n := by
  intro hIn
  have := inTable_lt_database hIn
  have := h.database_le
  omega

theorem Geometry.InCluster.not_mirror (h : g.InCluster c n) : ¬ g.Mirror n := by
  rintro ⟨hTwo, -, hHi⟩
  have hTables := g.tablesFirst
  have hLe := h.database_le
  rw [hTwo] at hTables
  omega

/-- The sectors of a cluster end before the last sector number. -/
theorem firstSector_add_le (hc : g.Cluster c) : g.firstSector c + g.csize ≤ noSector := by
  have hEnd := g.dataEnds
  obtain ⟨hLo, hHi⟩ := hc
  have hMul : g.csize * (c - 2 + 1) ≤ g.csize * (g.nFatent - 2) :=
    Nat.mul_le_mul_left _ (by omega)
  unfold Geometry.firstSector noSector
  rw [Nat.mul_succ] at hMul
  omega

theorem Geometry.InCluster.lt_noSector (h : g.InCluster c n) (hc : g.Cluster c) : n < noSector :=
  lt_of_lt_of_le h.2 (firstSector_add_le hc)

/-- A sector is in one cluster only. -/
theorem Geometry.InCluster.unique (h : g.InCluster c n) (h' : g.InCluster c' n) (hc : g.Cluster c)
    (hc' : g.Cluster c') : c = c' := by
  have hIndex : ∀ x, g.InCluster x n → (n - g.database) / g.csize = x - 2 := by
    intro x hx
    obtain ⟨hLo, hHi⟩ := hx
    unfold Geometry.firstSector at hLo hHi
    refine Nat.div_eq_of_lt_le ?_ ?_
    · rw [Nat.mul_comm]
      omega
    · rw [Nat.succ_mul, Nat.mul_comm]
      omega
  have hSame := (hIndex c h).symm.trans (hIndex c' h')
  have hLo := hc.1
  have hLo' := hc'.1
  omega

-- ---------------------------------------------------------------------------
-- Positions of a file
-- ---------------------------------------------------------------------------

/-- The `k`-th sector of the clusters `l`. -/
def Geometry.sectorNo (g : Geometry) (l : List Nat) (k : Nat) : Nat :=
  g.firstSector (l.getD (k / g.csize) 0) + k % g.csize

/-- The sectors of the clusters `l`. -/
def Geometry.Owns (g : Geometry) (l : List Nat) (n : Nat) : Prop := ∃ c ∈ l, g.InCluster c n

theorem getD_mem (h : k < l.length) : l.getD k 0 ∈ l := by
  rw [List.getD_eq_getElem _ _ h]
  exact List.getElem_mem h

theorem sectorNo_inCluster (g : Geometry) (l : List Nat) (k : Nat) :
    g.InCluster (l.getD (k / g.csize) 0) (g.sectorNo l k) :=
  ⟨Nat.le_add_right _ _, Nat.add_lt_add_left (Nat.mod_lt _ (csize_pos g)) _⟩

theorem sectorNo_owned (hk : k < l.length * g.csize) : g.Owns l (g.sectorNo l k) :=
  ⟨_, getD_mem ((Nat.div_lt_iff_lt_mul (csize_pos g)).mpr hk), sectorNo_inCluster g l k⟩

/-- Different sectors of a file are different sectors of the volume. -/
theorem sectorNo_inj (hNodup : l.Nodup) (hl : ∀ c ∈ l, g.Cluster c) (hk : k < l.length * g.csize)
    (hk' : k' < l.length * g.csize) (h : g.sectorNo l k = g.sectorNo l k') : k = k' := by
  have hi := (Nat.div_lt_iff_lt_mul (csize_pos g)).mpr hk
  have hi' := (Nat.div_lt_iff_lt_mul (csize_pos g)).mpr hk'
  -- the clusters are the same, so the places in the chain are
  have hSame : l.getD (k / g.csize) 0 = l.getD (k' / g.csize) 0 :=
    (sectorNo_inCluster g l k).unique (h ▸ sectorNo_inCluster g l k') (hl _ (getD_mem hi))
      (hl _ (getD_mem hi'))
  have hIndex : k / g.csize = k' / g.csize := by
    rw [List.getD_eq_getElem _ _ hi, List.getD_eq_getElem _ _ hi'] at hSame
    exact (hNodup.getElem_inj_iff).mp hSame
  have hOffset : k % g.csize = k' % g.csize := by
    unfold Geometry.sectorNo at h
    rw [hSame] at h
    omega
  rw [← Nat.div_add_mod k g.csize, ← Nat.div_add_mod k' g.csize, hIndex, hOffset]

/-- Longer chains have the same sectors at the front. -/
theorem sectorNo_append (l' : List Nat) (hk : k < l.length * g.csize) :
    g.sectorNo (l ++ l') k = g.sectorNo l k := by
  unfold Geometry.sectorNo
  rw [List.getD_append _ _ _ _ ((Nat.div_lt_iff_lt_mul (csize_pos g)).mpr hk)]

theorem Geometry.Owns.append (h : g.Owns l n) (l' : List Nat) : g.Owns (l ++ l') n := by
  obtain ⟨c, hc, hIn⟩ := h
  exact ⟨c, List.mem_append_left _ hc, hIn⟩

/-- The position of a byte, as a sector of the file. -/
theorem pos_div_lt {p : Nat} (hp : p < l.length * g.bcs) : p / 512 < l.length * g.csize := by
  rw [Nat.div_lt_iff_lt_mul (by omega), Nat.mul_assoc]
  exact hp

/-- The byte at a position of the clusters `l`, in the sectors `v`. -/
def Geometry.octetAt (g : Geometry) (v : Nat → Sector) (l : List Nat) : Mem :=
  fun p => octet (v (g.sectorNo l (p / 512))) (p % 512)

theorem octetAt_congr {v v' : Nat → Sector} {p : Nat} (hp : p < l.length * g.bcs)
    (h : ∀ n, g.Owns l n → v n = v' n) : g.octetAt v l p = g.octetAt v' l p := by
  unfold Geometry.octetAt
  rw [h _ (sectorNo_owned (pos_div_lt hp))]

theorem octetAt_append (v : Nat → Sector) (l' : List Nat) {p : Nat} (hp : p < l.length * g.bcs) :
    g.octetAt v (l ++ l') p = g.octetAt v l p := by
  unfold Geometry.octetAt
  rw [sectorNo_append l' (pos_div_lt hp)]

-- ---------------------------------------------------------------------------
-- Bytes of sectors
-- ---------------------------------------------------------------------------

theorem octet_eq_getElem (x : Sector) {i : Nat} (hi : i < x.bytes.length) : octet x i = x.bytes[i] := by
  rw [octet, List.getD_eq_getElem _ _ hi]

theorem bytes_eq_slice (x : Sector) : x.bytes = Mem.slice (octet x) 0 512 := by
  refine List.ext_getElem (by rw [x.size, Mem.length_slice]) fun i hi hi' => ?_
  simp [Mem.slice, octet_eq_getElem x hi]

theorem drop_take_bytes (x : Sector) {o r : Nat} (h : o + r ≤ 512) :
    (x.bytes.drop o).take r = Mem.slice (octet x) o r := by
  have hSize := x.size
  refine List.ext_getElem (by simp; omega) fun i hi hi' => ?_
  have hLt : o + i < x.bytes.length := by
    rw [Mem.length_slice] at hi'
    omega
  simp [Mem.slice, octet_eq_getElem x hLt]

theorem octet_patch (x : Sector) {o r i : Nat} (mem : Mem) (ptr : Nat) (hi : i < 512) :
    octet (patch x o r mem ptr) i =
      if o ≤ i ∧ i < o + r then mem (ptr + (i - o)) else octet x i := by
  show List.getD _ i 0 = _
  rw [List.getD_eq_getElem _ _ (by simpa [patch] using hi)]
  simp [patch]

theorem octet_sectorAt (mem : Mem) (ptr : Nat) {i : Nat} (hi : i < 512) :
    octet (sectorAt mem ptr) i = mem (ptr + i) := by
  show List.getD _ i 0 = _
  rw [List.getD_eq_getElem _ _ (by simpa [sectorAt] using hi)]
  simp [sectorAt, Mem.slice]

/-- Whole sectors one after the other. -/
theorem flatMap_bytes (h : Nat → Sector) (cc : Nat) :
    ((List.range cc).flatMap fun i => (h i).bytes) =
      Mem.slice (fun i => octet (h (i / 512)) (i % 512)) 0 (512 * cc) := by
  induction cc with
  | zero => rfl
  | succ cc ih =>
    have hLast : (h cc).bytes =
        Mem.slice (fun i => octet (h (i / 512)) (i % 512)) (0 + 512 * cc) 512 := by
      rw [bytes_eq_slice]
      refine List.map_congr_left fun i hi => ?_
      have hLt := List.mem_range.mp hi
      have hDiv : (0 + 512 * cc + i) / 512 = cc := by omega
      have hMod : (0 + 512 * cc + i) % 512 = i := by omega
      dsimp only
      rw [hDiv, hMod, Nat.zero_add]
    rw [List.range_succ, List.flatMap_append, ih, List.flatMap_singleton, hLast, ← Mem.slice_add,
      Nat.mul_succ]

-- ---------------------------------------------------------------------------
-- Accesses that do not fail
-- ---------------------------------------------------------------------------

/-- What the accesses of data sectors leave alone: the window, the sector under it, and the
counts. -/
structure SameWindow (s s' : Fatfs) : Prop where
  winsect  : s'.winsect = s.winsect
  wflag    : s'.wflag = s.wflag
  under    : s'.disk s.winsect = s.disk s.winsect
  fsiFlag  : s'.fsiFlag = s.fsiFlag
  lastClst : s'.lastClst = s.lastClst
  freeClst : s'.freeClst = s.freeClst

theorem SameWindow.refl (s : Fatfs) : SameWindow s s := ⟨rfl, rfl, rfl, rfl, rfl, rfl⟩

theorem SameWindow.trans {s'' : Fatfs} (h : SameWindow s s') (h' : SameWindow s' s'') :
    SameWindow s s'' :=
  ⟨h'.winsect.trans h.winsect, h'.wflag.trans h.wflag, (h.winsect ▸ h'.under).trans h.under,
    h'.fsiFlag.trans h.fsiFlag, h'.lastClst.trans h.lastClst, h'.freeClst.trans h.freeClst⟩

/-- A write past the window changes the view as it changes the disk. -/
theorem diskWrite_eq (hD : D.Reliable) (h : Coherent s) (sect count : Nat) (data : Nat → Sector)
    (hAway : ∀ n, sect ≤ n → n < sect + count → n ≠ s.winsect) :
    ∃ s', diskWrite D s sect count data = (.ok, s') ∧
      s'.view = SectorArray.write s.view sect count data ∧ Coherent s' ∧ SameWindow s s' := by
  have hUnder : SectorArray.write s.disk sect count data s.winsect = s.disk s.winsect := by
    rw [SectorArray.write, if_neg fun hc => hAway _ hc.1 hc.2 rfl]
  refine ⟨_, diskWrite_ok (hD _) sect count data, ?_, ⟨?_, h.bounded⟩,
    ⟨rfl, rfl, hUnder, rfl, rfl, rfl⟩⟩
  · funext n
    simp only [Fatfs.view, SectorArray.write]
    by_cases hRange : sect ≤ n ∧ n < sect + count
    · rw [if_pos hRange, if_neg fun hc => hAway n hRange.1 hRange.2 hc.2, if_pos hRange]
    · rw [if_neg hRange, if_neg hRange]
  · intro hClean hValid
    exact (h.clean hClean hValid).trans hUnder.symm

/-- A read past the window is a read of the view. -/
theorem diskRead_eq (hD : D.Reliable) (h : Coherent s) (sect : Nat) :
    ∃ s', diskRead D s sect = (.ok, fun i => s.disk (sect + i), s') ∧ s'.view = s.view ∧
      Coherent s' ∧ SameWindow s s' := by
  refine ⟨{ s with accesses := s.accesses + 1 }, ?_, rfl, ⟨h.clean, h.bounded⟩,
    ⟨rfl, rfl, rfl, rfl, rfl, rfl⟩⟩
  simp [diskRead, hD s.accesses]

theorem disk_eq_view (h : n ≠ s.winsect) : s.disk n = s.view n := by
  rw [Fatfs.view, if_neg fun hc => h hc.2]

/-- Accesses of data sectors leave the table on the disk as it is. -/
theorem SameWindow.neat (h : SameWindow s s') (hView : ∀ n, g.InTable n → s'.view n = s.view n)
    {L : Nat → Prop} (hL : ∀ c, L c → g.Cluster c) (hNeat : Neat g L s) : Neat g L s' := by
  have hDisk : ∀ n, g.InTable n → s'.disk n = s.disk n := by
    intro n hn
    by_cases hWin : n = s.winsect
    · rw [hWin]
      exact h.under
    · rw [disk_eq_view hWin, disk_eq_view (h.winsect.symm ▸ hWin), hView n hn]
  refine ⟨fun hFlag => ?_, fun c hc => ?_⟩
  · rw [h.winsect]
    exact hNeat.flag (h.wflag ▸ hFlag)
  · rw [(hL c hc).fat_congr hDisk, (hL c hc).fat_congr hView]
    exact hNeat.settled c hc

-- ---------------------------------------------------------------------------
-- The sector buffer
-- ---------------------------------------------------------------------------

/-- The sectors `v` with the unsaved buffer of the file in its place. -/
def Fil.view (f : Fil) (v : Nat → Sector) (n : Nat) : Sector :=
  if f.dirty = true ∧ n = f.sect then f.buf else v n

theorem Fil.view_of_ne (v : Nat → Sector) (h : n ≠ f.sect) : f.view v n = v n := by
  rw [Fil.view, if_neg fun hc => h hc.2]

theorem Fil.view_of_clean (v : Nat → Sector) (h : f.dirty = false) : f.view v = v := by
  funext n
  rw [Fil.view, if_neg fun hc => by simp [h] at hc]

/-- The buffer is written back: what was seen through it is now on the volume. -/
theorem writeBack_eq (hD : D.Reliable) (h : Coherent s) (hAway : f.dirty = true → f.sect ≠ s.winsect) :
    ∃ s', writeBack D f s = (.ok, { f with dirty := false }, s') ∧ s'.view = f.view s.view ∧
      Coherent s' ∧ SameWindow s s' := by
  by_cases hDirty : f.dirty = true
  · obtain ⟨s', hEq, hView, hCoh, hSame⟩ := diskWrite_eq hD h f.sect 1 (fun _ => f.buf)
      (fun n hLo hHi => by
        have hn : n = f.sect := by omega
        rw [hn]
        exact hAway hDirty)
    refine ⟨s', ?_, ?_, hCoh, hSame⟩
    · simp only [writeBack, hDirty, if_true, hEq]
      rfl
    · rw [hView, write_one]
      funext n
      by_cases hn : n = f.sect
      · rw [hn, Function.update_self, Fil.view, if_pos ⟨hDirty, rfl⟩]
      · rw [Function.update_of_ne hn, Fil.view_of_ne _ hn]
  · have hClean : f.dirty = false := by simpa using hDirty
    refine ⟨s, ?_, (Fil.view_of_clean _ hClean).symm, h, SameWindow.refl s⟩
    rw [writeBack, if_neg hDirty, ← hClean]

theorem fillBuffer_eq (hD : D.Reliable) (h : Coherent s) (f : Fil) (hAway : sect ≠ s.winsect) :
    ∃ s', fillBuffer D f s sect = (.ok, { f with buf := s.view sect }, s') ∧ s'.view = s.view ∧
      Coherent s' ∧ SameWindow s s' := by
  obtain ⟨s', hEq, hView, hCoh, hSame⟩ := diskRead_eq hD h sect
  refine ⟨s', ?_, hView, hCoh, hSame⟩
  simp only [fillBuffer, hEq, Nat.add_zero, disk_eq_view hAway]
  rfl

/-- A clean buffer holds its sector, if it holds any. -/
def Fil.Clean (f : Fil) (v : Nat → Sector) : Prop :=
  f.dirty = false → f.sect ≠ 0 → f.buf = v f.sect

theorem Fil.Clean.buf_eq {v : Nat → Sector} (h : f.Clean v) (hSect : f.sect ≠ 0) :
    f.buf = f.view v f.sect := by
  by_cases hDirty : f.dirty = true
  · rw [Fil.view, if_pos ⟨hDirty, rfl⟩]
  · rw [Fil.view, if_neg fun hc => hDirty hc.1]
    exact h (by simpa using hDirty) hSect

/-- Another sector is brought into the buffer: what is seen through it stays the same. -/
theorem loadSector_eq (hD : D.Reliable) (h : Coherent s) (hClean : f.Clean s.view)
    (hAway : f.dirty = true → f.sect ≠ s.winsect) (hSect : sect ≠ s.winsect) (hPos : sect ≠ 0) :
    ∃ b s', loadSector D f s sect =
        (.ok, { f with buf := f.view s.view sect, sect := sect, dirty := b }, s') ∧
      ({ f with buf := f.view s.view sect, sect := sect, dirty := b } : Fil).view s'.view =
        f.view s.view ∧
      ({ f with buf := f.view s.view sect, sect := sect, dirty := b } : Fil).Clean s'.view ∧
      (∀ n, (f.dirty = true → n ≠ f.sect) → s'.view n = s.view n) ∧ Coherent s' ∧ SameWindow s s' ∧
      (b = true → f.dirty = true) := by
  by_cases hHere : f.sect = sect
  · subst hHere
    rw [← hClean.buf_eq hPos]
    exact ⟨f.dirty, s, by rw [loadSector, if_neg (not_not.mpr rfl)], rfl, hClean,
      fun _ _ => rfl, h, SameWindow.refl s, id⟩
  · obtain ⟨s₁, hEq₁, hView₁, hCoh₁, hSame₁⟩ := writeBack_eq hD h hAway
    obtain ⟨s₂, hEq₂, hView₂, hCoh₂, hSame₂⟩ :=
      fillBuffer_eq hD hCoh₁ { f with dirty := false } (hSame₁.winsect ▸ hSect)
    have hView : s₂.view = f.view s.view := hView₂.trans hView₁
    refine ⟨false, s₂, ?_, ?_, ?_, ?_, hCoh₂, hSame₁.trans hSame₂, fun hc => Bool.noConfusion hc⟩
    · rw [loadSector, if_pos hHere]
      simp only [hEq₁, hEq₂, hView₁, ne_eq, not_true_eq_false, if_false]
    · rw [Fil.view_of_clean _ rfl, hView]
    · intro _ _
      rw [hView]
    · intro n hn
      rw [hView, Fil.view, if_neg fun hc => hn hc.1 hc.2]

end Nao.Fat
