import Nao.Fat.Seeking

/-!
# FAT volumes — what is on the disk

`f_sync` writes back the buffer of a changed file, brings its directory entry up to date in the
window and flushes the window. After that the disk alone, without buffer and window, has the file:
the entry names its first cluster and its size, the table has the chain, and the clusters have the
bytes.

On FAT32 the allocation information is written as well, to the sector after the boot sector.
That must not be the first sector of the table, which is so on volumes with more than one
reserved sector.

## Results

* `ldClust_updateEntry`, `ldDword_updateEntry` — what the entry then says.
* `fSync_eq` — what `f_sync` does to a changed file.
-/

namespace Nao.Fat

open SysLib FatFs Disk

variable {D : Device} {g : Geometry} {s s' s'' : Fatfs} {f f' f'' : Fil} {l l' : List Nat}
  {c n k p : Nat} {ι : Type*} {U : Nat → Prop} {e : Nat → Nat} {chains : ι → List Nat} {i : ι}

-- ---------------------------------------------------------------------------
-- The directory entry
-- ---------------------------------------------------------------------------

theorem byteAt_stClust (g : Geometry) (x : Sector) {dir : Nat} (hDir : dir + 32 ≤ 512) (cl k : Nat)
    (hk : k < dir ∨ dir + 28 ≤ k) : byteAt (stClust g x dir cl) k = byteAt x k := by
  have hLow : byteAt (stWord x (dir + 26) cl) k = byteAt x k := by
    rw [byteAt_stWord _ (by omega), if_neg (by omega), if_neg (by omega)]
  unfold stClust
  split
  · rw [byteAt_stWord _ (by omega), if_neg (by omega), if_neg (by omega), hLow]
  · exact hLow

/-- Other entries of the sector are left alone. -/
theorem byteAt_updateEntry (g : Geometry) (f : Fil) (x : Sector) (hDir : f.dirPtr + 32 ≤ 512)
    (hk : k < f.dirPtr ∨ f.dirPtr + 32 ≤ k) : byteAt (updateEntry g f x) k = byteAt x k := by
  unfold updateEntry
  dsimp only
  rw [byteAt_stWord _ (by omega), if_neg (by omega), if_neg (by omega),
    byteAt_stDword _ (by omega), if_neg (by omega), if_neg (by omega), if_neg (by omega),
    if_neg (by omega), byteAt_stDword _ (by omega), if_neg (by omega), if_neg (by omega),
    if_neg (by omega), if_neg (by omega), byteAt_stClust _ _ hDir _ _ (by omega),
    byteAt_putByte _ (by omega), if_neg (by omega)]

theorem ldDword_updateEntry (g : Geometry) (f : Fil) (x : Sector) (hDir : f.dirPtr + 32 ≤ 512)
    (hSmall : f.objsize < 2 ^ 32) : ldDword (updateEntry g f x) (f.dirPtr + 28) = f.objsize := by
  have hByte : ∀ j < 4, byteAt (updateEntry g f x) (f.dirPtr + 28 + j) =
      f.objsize / 2 ^ (8 * j) % 2 ^ 8 := by
    intro j hj
    unfold updateEntry
    dsimp only
    rw [byteAt_stWord _ (by omega), if_neg (by omega), if_neg (by omega),
      byteAt_stDword _ (by omega), if_neg (by omega), if_neg (by omega), if_neg (by omega),
      if_neg (by omega), byteAt_stDword _ (by omega)]
    obtain rfl | rfl | rfl | rfl : j = 0 ∨ j = 1 ∨ j = 2 ∨ j = 3 := by omega
    all_goals simp
  have h0 := hByte 0 (by omega)
  have h1 := hByte 1 (by omega)
  have h2 := hByte 2 (by omega)
  have h3 := hByte 3 (by omega)
  rw [Nat.add_zero] at h0
  unfold ldDword ldWord
  rw [h0, h1, h2, Nat.add_assoc _ 2 1, h3]
  omega

/-- The words of the first cluster, under what is written after them. -/
theorem ldWord_updateEntry (g : Geometry) (f : Fil) (x : Sector) (hDir : f.dirPtr + 32 ≤ 512)
    {o : Nat} (ho : o = 20 ∨ o = 26) :
    ldWord (updateEntry g f x) (f.dirPtr + o) =
      ldWord (stClust g (putByte x (f.dirPtr + 11) (byteAt x (f.dirPtr + 11) ||| 0x20)) f.dirPtr f.sclust)
        (f.dirPtr + o) := by
  have hByte : ∀ j < 2, byteAt (updateEntry g f x) (f.dirPtr + o + j) =
      byteAt (stClust g (putByte x (f.dirPtr + 11) (byteAt x (f.dirPtr + 11) ||| 0x20)) f.dirPtr f.sclust)
        (f.dirPtr + o + j) := by
    intro j hj
    unfold updateEntry
    dsimp only
    rw [byteAt_stWord _ (by omega), if_neg (by omega), if_neg (by omega),
      byteAt_stDword _ (by omega), if_neg (by omega), if_neg (by omega), if_neg (by omega),
      if_neg (by omega), byteAt_stDword _ (by omega), if_neg (by omega), if_neg (by omega),
      if_neg (by omega), if_neg (by omega)]
  have h0 := hByte 0 (by omega)
  rw [Nat.add_zero] at h0
  unfold ldWord
  rw [h0, hByte 1 (by omega)]

theorem ldWord_stWord (x : Sector) {o : Nat} (ho : o + 1 < 512) (v : Nat) :
    ldWord (stWord x o v) o = v % 2 ^ 16 := by
  unfold ldWord
  rw [byteAt_stWord _ ho, byteAt_stWord _ ho, if_pos rfl, if_neg (by omega), if_pos rfl]
  omega

theorem ldWord_stWord_of_ne (x : Sector) {o o' : Nat} (ho : o + 1 < 512) (v : Nat)
    (hNe : o' + 1 < o ∨ o + 1 < o') : ldWord (stWord x o v) o' = ldWord x o' := by
  unfold ldWord
  rw [byteAt_stWord _ ho, byteAt_stWord _ ho, if_neg (by omega), if_neg (by omega),
    if_neg (by omega), if_neg (by omega)]

/-- What `st_clust` stores, `ld_clust` loads. -/
theorem ldClust_updateEntry (f : Fil) (x : Sector) (hDir : f.dirPtr + 32 ≤ 512)
    (hc : f.sclust = 0 ∨ g.Cluster f.sclust) : ldClust g (updateEntry g f x) f.dirPtr = f.sclust := by
  have hFew := g.fewClusters
  have hLt : f.sclust < g.nFatent := by
    have := g.someCluster
    rcases hc with hZero | hc
    · omega
    · exact hc.2
  unfold ldClust
  rw [ldWord_updateEntry g f x hDir (.inr rfl), ldWord_updateEntry g f x hDir (.inl rfl)]
  unfold stClust
  by_cases hType : g.fsType = .fat32
  · rw [if_pos hType, if_pos hType, ldWord_stWord_of_ne _ (by omega) _ (by omega),
      ldWord_stWord _ (by omega), ldWord_stWord _ (by omega), Nat.shiftRight_eq_div_pow, Nat.or_comm,
      ← Nat.shiftLeft_add_eq_or_of_lt (Nat.mod_lt _ (by omega)), Nat.shiftLeft_eq]
    rw [hType] at hFew
    simp only [FsType.maxClusters] at hFew
    omega
  · rw [if_neg hType, if_neg hType, ldWord_stWord _ (by omega)]
    cases hFat : g.fsType with
    | fat32 => exact absurd hFat hType
    | fat12 | fat16 =>
      rw [hFat] at hFew
      simp only [FsType.maxClusters] at hFew
      omega

-- ---------------------------------------------------------------------------
-- sync_fs
-- ---------------------------------------------------------------------------

/-- The sector of the allocation information is a reserved one. -/
def Geometry.InfoApart (g : Geometry) : Prop := g.fsType = .fat32 → g.volbase + 1 < g.fatbase

/-- Everything is on the disk; only the allocation information has been added. -/
theorem syncFs_eq (hD : D.Reliable) (h : Coherent s) (hInfo : g.InfoApart) :
    ∃ s', syncFs D g s = (.ok, s') ∧ s'.wflag = false ∧ Coherent s' ∧
      (∀ n, ¬ g.Mirror n → g.fatbase ≤ n → s'.view n = s.view n) ∧
      (s'.winsect = s.winsect ∨ s'.winsect < g.fatbase) ∧
      s'.lastClst = s.lastClst ∧ s'.freeClst = s.freeClst := by
  obtain ⟨res, s₁, hEq, hFlushed, hCoh, ⟨rfl, hClean⟩ | ⟨-, -, hFail⟩⟩ := syncWindow_cases D g h
  · rw [syncFs, hEq]
    simp only [if_true]
    by_cases hFlag : s₁.fsiFlag = 1
    · rw [if_pos hFlag]
      by_cases hType : g.fsType = .fat32
      · rw [if_pos hType]
        simp only [diskWrite_ok (hD _), write_one]
        have hBoot := hInfo hType
        refine ⟨_, rfl, hClean, ⟨fun _ _ => ?_, ?_⟩, ?_, .inr hBoot, hFlushed.lastClst,
          hFlushed.freeClst⟩
        · exact (Function.update_self (g.volbase + 1) (fsInfo _) s₁.disk).symm
        · have hTables := g.tablesFirst
          have hData := database_lt_noSector g
          show g.volbase + 1 < 2 ^ 32
          unfold noSector at hData
          omega
        · intro n hMirror hn
          rw [view_of_clean (by exact hClean), ← hFlushed.view n hMirror, view_of_clean hClean]
          exact Function.update_of_ne (by omega) _ _
      · rw [if_neg hType]
        exact ⟨_, rfl, hClean, ⟨hCoh.clean, hCoh.bounded⟩, fun n hMirror _ => hFlushed.view n hMirror,
          .inl hFlushed.winsect, hFlushed.lastClst, hFlushed.freeClst⟩
    · rw [if_neg hFlag]
      exact ⟨s₁, rfl, hClean, hCoh, fun n hMirror _ => hFlushed.view n hMirror, .inl hFlushed.winsect,
        hFlushed.lastClst, hFlushed.freeClst⟩
  · exact absurd hFail (by simp [hD _])

-- ---------------------------------------------------------------------------
-- f_sync
-- ---------------------------------------------------------------------------

/-- Where the directory entry of a file is: behind the tables, and not in a cluster of a file
nor in a free one. -/
structure EntryPlace (g : Geometry) (U : Nat → Prop) (dirSect dirPtr : Nat) : Prop where
  behind  : g.fatbase + g.nFats * g.fsize ≤ dirSect
  below   : dirSect < noSector
  foreign : ∀ c, g.Cluster c → g.InCluster c dirSect → U c
  inside  : dirPtr + 32 ≤ 512

theorem EntryPlace.not_mirror {dirSect dirPtr : Nat} (h : EntryPlace g U dirSect dirPtr) :
    ¬ g.Mirror dirSect := by
  rintro ⟨hTwo, -, hHi⟩
  have hBehind := h.behind
  rw [hTwo] at hBehind
  omega

theorem EntryPlace.not_table {dirSect dirPtr : Nat} (h : EntryPlace g U dirSect dirPtr) :
    ¬ g.InTable dirSect := by
  rintro ⟨-, hHi⟩
  have hBehind := h.behind
  rcases g.fats with hOne | hTwo
  · rw [hOne] at hBehind
    omega
  · rw [hTwo] at hBehind
    omega

theorem EntryPlace.not_owned {dirSect dirPtr : Nat} (h : EntryPlace g U dirSect dirPtr)
    (hStored : Stored g s U e chains) (hn : g.Owns (chains i) n) : n ≠ dirSect := by
  rintro rfl
  obtain ⟨c, hc, hIn⟩ := hn
  exact hStored.not_foreign hc (h.foreign c (hStored.cluster_of_mem hc) hIn)

/-- What `f_sync` makes of the sectors of the volume: the file as seen through its buffer, its
directory entry, and the allocation information. -/
structure Synced (g : Geometry) (U : Nat → Prop) (e : Nat → Nat) (chains : ι → List Nat) (f : Fil)
    (s s' : Fatfs) : Prop where
  stored : Stored g s' U e chains
  clean  : s'.wflag = false
  entry  : s'.view f.dirSect = updateEntry g f (s.view f.dirSect)
  rest   : ∀ n, ¬ g.Mirror n → g.fatbase ≤ n → n ≠ f.dirSect → s'.view n = f.view s.view n

theorem fSync_eq (hD : D.Reliable) (h : Stored g s U e chains) (hi : chains i = l)
    (hb : Backed g s f l) (hValid : f.valid = true) (hMod : f.modified = true)
    (hPlace : EntryPlace g U f.dirSect f.dirPtr) (hInfo : g.InfoApart) :
    ∃ s', fSync D g f s = (.ok, { f with dirty := false, modified := false }, s') ∧
      Synced g U e chains f s s' ∧ Backed g s' { f with dirty := false, modified := false } l := by
  obtain ⟨s₁, hSave, hCarried, hb₁⟩ := hb.save hD
  obtain ⟨s₁', hSave', hView₁, -, -⟩ := writeBack_eq hD hb.coherent hb.dirty_away
  obtain rfl : s₁ = s₁' := (Prod.mk.inj (Prod.mk.inj (hSave.symm.trans hSave')).2).2
  have hStored₁ := h.tend hCarried.rest hb₁.coherent
  obtain ⟨res, s₂, hMove, hKept, hCoh₂, ⟨rfl, hSect₂, hWin₂⟩ | ⟨-, -, k, hFail⟩⟩ :=
    moveWindow_cases D g hb₁.coherent hPlace.below hPlace.not_mirror
  · obtain ⟨s₃, hSync, hClean, hCoh₃, hView₃, hPlace₃, hLast, hFree⟩ :=
      syncFs_eq hD (hCoh₂.edit (updateEntry g { f with dirty := false })) hInfo
    have hBehind := hPlace.behind
    have hTables := g.tablesFirst
    -- sector by sector, first through the edit and then before it
    have hEdit : ∀ n, ¬ g.Mirror n → g.fatbase ≤ n → s₃.view n =
        if n = f.dirSect then updateEntry g f (s.view f.dirSect) else f.view s.view n := by
      intro n hMirror hn
      rw [hView₃ n hMirror hn, view_edit, hSect₂]
      by_cases hn : n = f.dirSect
      · rw [if_pos hn, if_pos hn, hWin₂, hView₁]
        have hBuf : f.view s.view f.dirSect = s.view f.dirSect := by
          rw [Fil.view, if_neg fun hc => hPlace.not_owned h (i := i)
            (hi.symm ▸ hb.own (hb.dirty hc.1)) hc.2.symm]
        show updateEntry g f _ = _
        rw [hBuf]
      · rw [if_neg hn, if_neg hn, hKept.view n hMirror, hView₁]
    have hOwned : ∀ n, g.Owns l n → s₃.view n = f.view s.view n := by
      intro n hn
      have hDir : n ≠ f.dirSect := hPlace.not_owned h (i := i) (hi.symm ▸ hn)
      rw [hEdit n hn.not_mirror (by
        obtain ⟨c, -, hIn⟩ := hn
        have := hIn.database_le
        omega), if_neg hDir]
    have hFat : ∀ c, g.Cluster c → g.fat s₃.view c = g.fat s.view c := by
      intro c hc
      refine hc.entry_congr fun k hk => ?_
      have hIn : g.InTable (g.fatbase + k / 512) := ⟨by omega, by omega⟩
      unfold Geometry.fatByte
      have hDir : g.fatbase + k / 512 ≠ f.dirSect := fun hc => hPlace.not_table (hc ▸ hIn)
      have hBuf : ¬ (f.dirty = true ∧ g.fatbase + k / 512 = f.sect) := fun hc =>
        (hb.own (hb.dirty hc.1)).not_table (hc.2 ▸ hIn)
      rw [hEdit _ (not_mirror_of_inTable hIn) hIn.1, if_neg hDir, Fil.view, if_neg hBuf]
    have hStored : Stored g s₃ U e chains := by
      refine ⟨h.same_table hCoh₃ hFat ?_, ?_⟩
      · rw [hFree]
        show s₂.freeClst = s.freeClst
        rw [hKept.freeClst, hCarried.rest.freeClst]
      · intro c n hc hU hIn hEq
        rcases hPlace₃ with hSame | hLow
        · have hDir : n = f.dirSect := hEq.trans (hSame.trans hSect₂)
          exact hU (hPlace.foreign c hc (hDir ▸ hIn))
        · have := hIn.database_le
          omega
    refine ⟨s₃, ?_, ⟨hStored, hClean, ?_, fun n hMirror hn hDir => ?_⟩, ?_⟩
    · have hOk : validate f = .ok := by rw [validate, if_pos hValid]
      rw [fSync, if_neg (not_not.mpr hOk), if_pos hMod]
      simp only [hSave, hMove, hSync, ne_eq, not_true_eq_false, if_false, if_true]
    · rw [hEdit _ hPlace.not_mirror (by omega), if_pos rfl]
    · rw [hEdit n hMirror hn, if_neg hDir]
    · refine hStored.backed hi hb.head hb.size hb.small hb.own (fun hc => Bool.noConfusion hc) ?_
      intro _ hSect
      show f.buf = s₃.view f.sect
      rw [hOwned _ (hb.own hSect)]
      exact hb.clean.buf_eq hSect
  · exact absurd hFail (by simp [hD k])

end Nao.Fat
