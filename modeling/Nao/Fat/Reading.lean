import Nao.Fat.Contents

/-!
# FAT volumes — reading a file

`f_read` goes through a file sector by sector and cluster by cluster: part of a sector comes
out of the buffer, whole sectors come from the disk directly, up to the end of the cluster, and
at the end of a cluster the table names the next one. What the caller gets is the bytes at the
file's position, as many as it asked for or as there are.

## Results

* `readTurn_eq` — one turn of the loop hands over the next bytes of the file.
* `fRead_eq` — `f_read` does, and changes neither this file nor anything else on the volume.
-/

namespace Nao.Fat

open SysLib FatFs Disk

variable {D : Device} {g : Geometry} {s s' s'' : Fatfs} {f f' f'' : Fil} {l : List Nat}
  {c n k j p r btr : Nat}

-- ---------------------------------------------------------------------------
-- Sectors, clusters and positions
-- ---------------------------------------------------------------------------

theorem div_bcs (g : Geometry) (p : Nat) : p / g.bcs = p / 512 / g.csize := by
  rw [Geometry.bcs, Nat.mul_comm, Nat.div_div_eq_div_mul]

/-- Sectors up to the end of a cluster. -/
theorem same_cluster (hj : j < g.csize - k % g.csize) :
    (k + j) / g.csize = k / g.csize ∧ (k + j) % g.csize = k % g.csize + j := by
  have hPos := csize_pos g
  have hSplit : k + j = k % g.csize + j + g.csize * (k / g.csize) := by
    have := Nat.div_add_mod k g.csize
    omega
  have hLt : k % g.csize + j < g.csize := by omega
  constructor
  · rw [hSplit, Nat.add_mul_div_left _ _ hPos, Nat.div_eq_of_lt hLt, Nat.zero_add]
  · rw [hSplit, Nat.add_mul_mod_self_left, Nat.mod_eq_of_lt hLt]

theorem sectorNo_add (l : List Nat) (hj : j < g.csize - k % g.csize) :
    g.sectorNo l (k + j) = g.sectorNo l k + j := by
  unfold Geometry.sectorNo
  rw [(same_cluster hj).1, (same_cluster hj).2, Nat.add_assoc]

/-- Bytes up to the end of a cluster. -/
theorem last_same_cluster (hPos : 0 < r) (hr : r + p % 512 ≤ 512 * (g.csize - p / 512 % g.csize)) :
    (p + r - 1) / g.bcs = p / g.bcs := by
  have hStep : (p + r - 1) / 512 = p / 512 + (p % 512 + r - 1) / 512 := by omega
  have hLt : (p % 512 + r - 1) / 512 < g.csize - p / 512 % g.csize := by
    rw [Nat.div_lt_iff_lt_mul (by omega)]
    omega
  rw [div_bcs, div_bcs, hStep, (same_cluster hLt).1]

/-- On a cluster boundary the byte before is in the cluster before. -/
theorem pred_div_bcs (hPos : 0 < p) (hSector : p % 512 = 0) (hCluster : p / 512 % g.csize = 0) :
    (p - 1) / g.bcs + 1 = p / g.bcs := by
  have hBcs := bcs_pos g
  have hMod : p % g.bcs = 0 := by
    rw [Geometry.bcs, Nat.mul_comm, Nat.mod_mul, hSector, hCluster]
  obtain ⟨q, rfl⟩ := Nat.dvd_of_mod_eq_zero hMod
  rw [Nat.mul_div_cancel_left _ hBcs]
  have hq : q ≠ 0 := by
    rintro rfl
    omega
  obtain ⟨m, rfl⟩ := Nat.exists_eq_succ_of_ne_zero hq
  have hDiv : (g.bcs * (m + 1) - 1) / g.bcs = m := by
    have hSucc : g.bcs * (m + 1) = g.bcs * m + g.bcs := Nat.mul_succ _ _
    refine Nat.div_eq_of_lt_le ?_ ?_
    · rw [Nat.mul_comm m]
      omega
    · rw [Nat.mul_comm (m + 1)]
      omega
  rw [hDiv]

/-- Elsewhere it is in the same one. -/
theorem pred_div_bcs_same (h : p % 512 ≠ 0 ∨ p / 512 % g.csize ≠ 0) : (p - 1) / g.bcs = p / g.bcs := by
  have hPos := csize_pos g
  rw [div_bcs, div_bcs]
  by_cases hSector : p % 512 = 0
  · have hCluster : p / 512 % g.csize ≠ 0 := h.resolve_left fun hc => hc hSector
    have hk : p / 512 ≠ 0 := by
      intro hZero
      rw [hZero, Nat.zero_mod] at hCluster
      exact hCluster rfl
    have hPrev : (p - 1) / 512 = p / 512 - 1 := by omega
    have hSplit := Nat.div_add_mod (p / 512) g.csize
    have hLt := Nat.mod_lt (p / 512) hPos
    rw [hPrev]
    refine Nat.div_eq_of_lt_le ?_ ?_
    · rw [Nat.mul_comm]
      omega
    · rw [Nat.succ_mul, Nat.mul_comm]
      omega
  · have hSame : (p - 1) / 512 = p / 512 := by omega
    rw [hSame]

-- ---------------------------------------------------------------------------
-- The invariant
-- ---------------------------------------------------------------------------

/-- The clusters of an open file, and its buffer. -/
structure Backed (g : Geometry) (s : Fatfs) (f : Fil) (l : List Nat) : Prop where
  coherent : Coherent s
  chain    : l = [] ∧ f.sclust = 0 ∨ g.Chain s.view f.sclust l
  size     : f.objsize ≤ l.length * g.bcs
  small    : f.objsize < 2 ^ 32
  own      : f.sect ≠ 0 → g.Owns l f.sect
  dirty    : f.dirty = true → f.sect ≠ 0
  clean    : f.Clean s.view
  away     : ∀ n, g.Owns l n → n ≠ s.winsect

/-- The position of an open file: the cluster and the sector of the byte before it. -/
structure Placed (g : Geometry) (f : Fil) (l : List Nat) : Prop where
  pos   : f.fptr ≤ f.objsize
  clust : 0 < f.fptr → l[(f.fptr - 1) / g.bcs]? = some f.clust
  sect  : f.fptr % 512 ≠ 0 → f.sect = g.sectorNo l (f.fptr / 512)

theorem Backed.cluster_of_mem (h : Backed g s f l) (hc : c ∈ l) : g.Cluster c := by
  rcases h.chain with ⟨rfl, -⟩ | hChain
  · exact absurd hc (by simp)
  · exact hChain.node_of_mem hc

theorem Backed.nodup (h : Backed g s f l) : l.Nodup := by
  rcases h.chain with ⟨rfl, -⟩ | hChain
  · exact List.nodup_nil
  · exact hChain.nodup

theorem Backed.owns_lt (h : Backed g s f l) (hn : g.Owns l n) : n < noSector := by
  obtain ⟨c, hc, hIn⟩ := hn
  exact hIn.lt_noSector (h.cluster_of_mem hc)

theorem Geometry.Owns.pos (h : g.Owns l n) : n ≠ 0 := by
  obtain ⟨c, -, hIn⟩ := h
  have := hIn.pos
  omega

theorem Geometry.Owns.not_mirror (h : g.Owns l n) : ¬ g.Mirror n := by
  obtain ⟨c, -, hIn⟩ := h
  exact hIn.not_mirror

theorem Geometry.Owns.not_table (h : g.Owns l n) : ¬ g.InTable n := by
  obtain ⟨c, -, hIn⟩ := h
  exact hIn.not_table

theorem Backed.dirty_away (h : Backed g s f l) (hDirty : f.dirty = true) : f.sect ≠ s.winsect :=
  h.away _ (h.own (h.dirty hDirty))

/-- The position and the current cluster are no matter of the buffer. -/
theorem Backed.move (h : Backed g s f l) (fptr clust : Nat) :
    Backed g s { f with fptr := fptr, clust := clust } l :=
  ⟨h.coherent, h.chain, h.size, h.small, h.own, h.dirty, h.clean, h.away⟩

/-- A position after bytes of the cluster. -/
theorem Placed.advance (hCluster : l[f.fptr / g.bcs]? = some f.clust) (hPos : 0 < r)
    (hEnd : f.fptr + r ≤ f.objsize)
    (hr : r + f.fptr % 512 ≤ 512 * (g.csize - f.fptr / 512 % g.csize))
    (hSect : (f.fptr + r) % 512 ≠ 0 → f.sect = g.sectorNo l ((f.fptr + r) / 512)) :
    Placed g { f with fptr := f.fptr + r } l where
  pos := hEnd
  clust _ := by
    show l[(f.fptr + r - 1) / g.bcs]? = some f.clust
    rw [last_same_cluster hPos hr]
    exact hCluster
  sect := hSect

-- ---------------------------------------------------------------------------
-- What a call leaves alone
-- ---------------------------------------------------------------------------

/-- The fields of a file object that no call but `f_open` and `f_close` changes. -/
def Fil.identity (f : Fil) : Bool × Bool × Bool × FResult × Nat × Nat :=
  (f.valid, f.faRead, f.faWrite, f.err, f.dirSect, f.dirPtr)

/-- What a call on the file with the clusters `l` leaves alone if it allocates nothing: every
sector but those of `l`, and the allocation information. -/
structure Tended (g : Geometry) (l : List Nat) (s s' : Fatfs) : Prop where
  view     : ∀ n, ¬ g.Mirror n → ¬ g.Owns l n → s'.view n = s.view n
  place    : s'.winsect = s.winsect ∨ g.InTable s'.winsect ∨ s'.winsect = noSector
  fsiFlag  : s'.fsiFlag = s.fsiFlag
  lastClst : s'.lastClst = s.lastClst
  freeClst : s'.freeClst = s.freeClst
  neat     : ∀ L : Nat → Prop, (∀ c, L c → g.Cluster c) → Neat g L s → Neat g L s'

theorem Scanned.tended (h : Scanned g s s') (l : List Nat) : Tended g l s s' :=
  ⟨fun n hn _ => h.view n hn, h.place, h.fsiFlag, h.lastClst, h.freeClst, h.neat⟩

theorem SameWindow.tended (h : SameWindow s s') (hView : ∀ n, ¬ g.Owns l n → s'.view n = s.view n) :
    Tended g l s s' :=
  ⟨fun n _ hn => hView n hn, .inl h.winsect, h.fsiFlag, h.lastClst, h.freeClst, fun _ hL =>
    h.neat (fun n hn => hView n fun hOwn => hOwn.not_table hn) hL⟩

theorem Tended.trans (h : Tended g l s s') (h' : Tended g l s' s'') : Tended g l s s'' where
  view n hn hn' := (h'.view n hn hn').trans (h.view n hn hn')
  place := by
    rcases h'.place with hSame | hElse
    · rw [hSame]
      exact h.place
    · exact .inr hElse
  fsiFlag := h'.fsiFlag.trans h.fsiFlag
  lastClst := h'.lastClst.trans h.lastClst
  freeClst := h'.freeClst.trans h.freeClst
  neat L hL hNeat := h'.neat L hL (h.neat L hL hNeat)

/-- The entries of the table are as before. -/
theorem Tended.fat (h : Tended g l s s') (hc : g.Cluster c) : g.fat s'.view c = g.fat s.view c :=
  hc.fat_congr fun n hn => h.view n (not_mirror_of_inTable hn) fun hOwn => hOwn.not_table hn

/-- The window is not at a sector of a file, wherever a look at the table has moved it. -/
theorem away_of_place (hAway : ∀ n, g.Owns l n → n ≠ s.winsect)
    (hl : ∀ c ∈ l, g.Cluster c)
    (hPlace : s'.winsect = s.winsect ∨ g.InTable s'.winsect ∨ s'.winsect = noSector) :
    ∀ n, g.Owns l n → n ≠ s'.winsect := by
  intro n hn hEq
  rcases hPlace with hSame | hTable | hNone
  · exact hAway n hn (hEq.trans hSame)
  · exact hn.not_table (hEq ▸ hTable)
  · obtain ⟨c, hc, hIn⟩ := hn
    have := hIn.lt_noSector (hl c hc)
    omega

/-- A call that only reads: the bytes of the file are as before, and so is everything else. -/
structure Carried (g : Geometry) (l : List Nat) (f : Fil) (s : Fatfs) (f' : Fil) (s' : Fatfs) :
    Prop where
  bytes    : ∀ n, g.Owns l n → f'.view s'.view n = f.view s.view n
  rest     : Tended g l s s'
  identity : f'.identity = f.identity
  sclust   : f'.sclust = f.sclust
  objsize  : f'.objsize = f.objsize
  modified : f'.modified = f.modified
  dirty    : f'.dirty = true → f.dirty = true

theorem Carried.refl (g : Geometry) (l : List Nat) (f : Fil) (s : Fatfs) : Carried g l f s f s :=
  ⟨fun _ _ => rfl, (SameWindow.refl s).tended fun _ _ => rfl, rfl, rfl, rfl, rfl, id⟩

theorem Carried.trans (h : Carried g l f s f' s') (h' : Carried g l f' s' f'' s'') :
    Carried g l f s f'' s'' where
  bytes n hn := (h'.bytes n hn).trans (h.bytes n hn)
  rest := h.rest.trans h'.rest
  identity := h'.identity.trans h.identity
  sclust := h'.sclust.trans h.sclust
  objsize := h'.objsize.trans h.objsize
  modified := h'.modified.trans h.modified
  dirty hDirty := h.dirty (h'.dirty hDirty)

theorem Carried.move (h : Carried g l f s f' s') (fptr clust : Nat) :
    Carried g l f s { f' with fptr := fptr, clust := clust } s' :=
  ⟨h.bytes, h.rest, h.identity, h.sclust, h.objsize, h.modified, h.dirty⟩

/-- What is left of the invariant once the bytes are carried over and the buffer is in order. -/
theorem Carried.backed (h : Carried g l f s f' s') (hBacked : Backed g s f l) (hCoh : Coherent s')
    (hOwn : f'.sect ≠ 0 → g.Owns l f'.sect) (hDirty : f'.dirty = true → f'.sect ≠ 0)
    (hClean : f'.Clean s'.view) : Backed g s' f' l where
  coherent := hCoh
  chain := by
    rw [h.sclust]
    exact hBacked.chain.imp_right fun hChain =>
      hChain.congr fun x hx => h.rest.fat (hChain.node_of_mem hx)
  size := h.objsize ▸ hBacked.size
  small := h.objsize ▸ hBacked.small
  own := hOwn
  dirty := hDirty
  clean := hClean
  away := away_of_place hBacked.away (fun _ hc => hBacked.cluster_of_mem hc) h.rest.place

/-- A look at the table. -/
theorem Backed.look (h : Backed g s f l) (hLook : Scanned g s s') (hCoh : Coherent s') :
    Carried g l f s f s' ∧ Backed g s' f l := by
  have hView : ∀ n, g.Owns l n → s'.view n = s.view n := fun n hn => hLook.view n hn.not_mirror
  have hCarried : Carried g l f s f s' := by
    refine ⟨fun n hn => ?_, hLook.tended l, rfl, rfl, rfl, rfl, id⟩
    unfold Fil.view
    rw [hView n hn]
  refine ⟨hCarried, hCarried.backed h hCoh h.own h.dirty ?_⟩
  intro hFlag hSect
  rw [hView _ (h.own hSect)]
  exact h.clean hFlag hSect

-- ---------------------------------------------------------------------------
-- A turn of the loop
-- ---------------------------------------------------------------------------

/-- The cluster of a position, from the first one on. -/
theorem chain_head (h : Backed g s f l) (hl : l ≠ []) : l[0]? = some f.sclust := by
  rcases h.chain with ⟨hNil, -⟩ | hChain
  · exact absurd hNil hl
  · obtain ⟨t, rfl⟩ := hChain.exists_cons
    rfl

theorem chain_next (h : Backed g s f l) {i x y : Nat} (hx : l[i]? = some x)
    (hy : l[i + 1]? = some y) : g.fat s.view x = y := by
  rcases h.chain with ⟨rfl, -⟩ | hChain
  · exact absurd hx (by simp)
  · exact Linked.next_getElem? hChain hx hy

theorem position_lt (h : Backed g s f l) (hp : p < f.objsize) : p / g.bcs < l.length := by
  have hSize := h.size
  exact (Nat.div_lt_iff_lt_mul (bcs_pos g)).mpr (by omega)

theorem followChain_eq (hD : D.Reliable) (h : Backed g s f l) (hp : Placed g f l)
    (hMore : f.fptr < f.objsize) (hSector : f.fptr % 512 = 0) (hCluster : f.fptr / 512 % g.csize = 0) :
    ∃ c s', followChain D g f s = (.ok, { f with clust := c }, s') ∧
      l[f.fptr / g.bcs]? = some c ∧ Scanned g s s' ∧ Coherent s' := by
  have hIndex := position_lt h hMore
  obtain ⟨c, hc⟩ : ∃ c, l[f.fptr / g.bcs]? = some c := ⟨_, List.getElem?_eq_getElem hIndex⟩
  have hCl : g.Cluster c := h.cluster_of_mem (List.mem_of_getElem? hc)
  have hValid : ¬ c < 2 ∧ c ≠ diskError := by
    have hLo := hCl.1
    have hLt := hCl.lt
    unfold diskError
    omega
  by_cases hZero : f.fptr = 0
  · -- the file starts with the first cluster of the chain
    have hHead : f.sclust = c := by
      rw [hZero, Nat.zero_div] at hc hIndex
      exact Option.some.inj ((chain_head h (List.length_pos_iff.mp hIndex)).symm.trans hc)
    refine ⟨c, s, ?_, hc, Scanned.refl g s, h.coherent⟩
    simp only [followChain, hZero, if_true, hHead, if_neg hValid.1, if_neg hValid.2]
  · -- the byte before is in the cluster before
    have hPrev := pred_div_bcs (g := g) (Nat.pos_of_ne_zero hZero) hSector hCluster
    have hClust := hp.clust (Nat.pos_of_ne_zero hZero)
    have hNext : g.fat s.view f.clust = c := chain_next h hClust (hPrev ▸ hc)
    obtain ⟨s', hEq, hLook, hCoh⟩ :=
      getFat_scanned hD h.coherent (h.cluster_of_mem (List.mem_of_getElem? hClust))
    refine ⟨c, s', ?_, hc, hLook, hCoh⟩
    simp only [followChain, if_neg hZero, hEq, hNext, if_neg hValid.1, if_neg hValid.2]

/-- The cluster of the position, whether on a cluster boundary or not. -/
theorem enterCluster_eq (hD : D.Reliable) (h : Backed g s f l) (hp : Placed g f l)
    (hMore : f.fptr < f.objsize) (hSector : f.fptr % 512 = 0) :
    ∃ c s', (if f.fptr / 512 &&& (g.csize - 1) = 0 then followChain D g f s else (.ok, f, s)) =
        (.ok, { f with clust := c }, s') ∧
      l[f.fptr / g.bcs]? = some c ∧ Scanned g s s' ∧ Coherent s' := by
  rw [and_csize]
  by_cases hCluster : f.fptr / 512 % g.csize = 0
  · rw [if_pos hCluster]
    exact followChain_eq hD h hp hMore hSector hCluster
  · rw [if_neg hCluster]
    refine ⟨f.clust, s, rfl, ?_, Scanned.refl g s, h.coherent⟩
    have hPos : 0 < f.fptr := by
      refine Nat.pos_of_ne_zero fun hZero => hCluster ?_
      rw [hZero, Nat.zero_div, Nat.zero_mod]
    rw [← pred_div_bcs_same (.inr hCluster)]
    exact hp.clust hPos

/-- The sector of a position, as `clst2sect` and the sector offset give it. -/
theorem sector_eq (h : Backed g s f l) (hc : l[p / g.bcs]? = some c) :
    clst2sect g c + p / 512 % g.csize = g.sectorNo l (p / 512) ∧ clst2sect g c ≠ 0 := by
  have hCl := clst2sect_eq (h.cluster_of_mem (List.mem_of_getElem? hc))
  refine ⟨?_, ?_⟩
  · unfold Geometry.sectorNo
    rw [← div_bcs, List.getD_eq_getElem?_getD, hc, hCl]
    rfl
  · have := firstSector_pos g c
    omega

/-- The buffer holds the sector: what is copied out of it is the next bytes. -/
theorem readPart_eq (hSect : f.buf = f.view s.view (g.sectorNo l (f.fptr / 512))) (btr : Nat) :
    readPart f btr = (g.octetAt (f.view s.view) l).slice f.fptr (min (512 - f.fptr % 512) btr) := by
  rw [readPart, drop_take_bytes _ (by omega)]
  refine List.map_congr_left fun i hi => ?_
  have hLt := List.mem_range.mp hi
  have hDiv : (f.fptr + i) / 512 = f.fptr / 512 := by omega
  have hMod : (f.fptr + i) % 512 = f.fptr % 512 + i := by omega
  unfold Geometry.octetAt
  rw [hDiv, hMod, hSect]

/-- The sectors of a run that includes the buffered one are recognised by the subtraction of
the source. -/
theorem sub32_lt_iff {a b cc : Nat} (ha : a < 2 ^ 32) (hEnd : b + cc ≤ 2 ^ 32) :
    sub32 a b < cc ↔ b ≤ a ∧ a < b + cc := by
  unfold sub32
  omega

theorem sub32_eq {a b j : Nat} (ha : a < 2 ^ 32) (hb : b ≤ a) : j = sub32 a b ↔ b + j = a := by
  rw [sub32_of_le hb ha]
  omega

/-- Whole sectors are read as they are seen through the buffer. -/
theorem readDirect_eq (hD : D.Reliable) (h : Backed g s f l) {sect cc : Nat}
    (hOwn : ∀ j < cc, g.Owns l (sect + j)) (hEnd : sect + cc ≤ 2 ^ 32) :
    ∃ s', readDirect D f s sect cc =
        (.ok, Mem.slice (fun i => octet (f.view s.view (sect + i / 512)) (i % 512)) 0 (512 * cc), s') ∧
      s'.view = s.view ∧ Coherent s' ∧ SameWindow s s' := by
  obtain ⟨s', hEq, hView, hCoh, hSame⟩ := diskRead_eq hD h.coherent sect
  refine ⟨s', ?_, hView, hCoh, hSame⟩
  have hData : ∀ j < cc, (if f.dirty = true ∧ sub32 f.sect sect < cc then
      Function.update (fun i => s.disk (sect + i)) (sub32 f.sect sect) f.buf
      else fun i => s.disk (sect + i)) j = f.view s.view (sect + j) := by
    intro j hj
    have hDisk : s.disk (sect + j) = s.view (sect + j) := disk_eq_view (h.away _ (hOwn j hj))
    by_cases hDirty : f.dirty = true
    · have hSect : f.sect < 2 ^ 32 := by
        have := h.owns_lt (h.own (h.dirty hDirty))
        unfold noSector at this
        omega
      by_cases hIn : sub32 f.sect sect < cc
      · rw [if_pos ⟨hDirty, hIn⟩]
        have hRange := (sub32_lt_iff hSect hEnd).mp hIn
        by_cases hj' : j = sub32 f.sect sect
        · rw [hj', Function.update_self, (sub32_eq hSect hRange.1).mp rfl, Fil.view,
            if_pos ⟨hDirty, rfl⟩]
        · rw [Function.update_of_ne hj', hDisk,
            Fil.view_of_ne _ fun hc => hj' ((sub32_eq hSect hRange.1).mpr hc)]
      · rw [if_neg fun hc => hIn hc.2, hDisk]
        refine (Fil.view_of_ne _ fun hc => hIn ?_).symm
        exact (sub32_lt_iff hSect hEnd).mpr ⟨by omega, by omega⟩
    · rw [if_neg fun hc => hDirty hc.1, hDisk, Fil.view, if_neg fun hc => hDirty hc.1]
  have hFlat : ∀ data : Nat → Sector, (∀ j < cc, data j = f.view s.view (sect + j)) →
      ((List.range cc).flatMap fun i => (data i).bytes) =
        Mem.slice (fun i => octet (f.view s.view (sect + i / 512)) (i % 512)) 0 (512 * cc) := by
    intro data hSame
    rw [← flatMap_bytes fun j => f.view s.view (sect + j)]
    refine List.flatMap_congr fun i hi => ?_
    rw [hSame i (List.mem_range.mp hi)]
  simp only [readDirect, hEq, ne_eq, not_true_eq_false, if_false]
  rw [hFlat _ hData]

/-- Some bytes are handed over: the file is as before, but for its position. -/
structure Handed (g : Geometry) (l : List Nat) (f : Fil) (s : Fatfs) (data : List UInt8) (f' : Fil)
    (s' : Fatfs) : Prop where
  bytes   : data = (g.octetAt (f.view s.view) l).slice f.fptr data.length
  fptr    : f'.fptr = f.fptr + data.length
  carried : Carried g l f s f' s'
  backed  : Backed g s' f' l
  placed  : Placed g f' l

/-- The bytes are those the file had before a step that carried them over. -/
theorem Carried.handed {data : List UInt8} (h : Carried g l f s f' s') (hFptr : f'.fptr = f.fptr)
    (h' : Handed g l f' s' data f'' s'') : Handed g l f s data f'' s'' where
  bytes := by
    have hEnd := h'.placed.pos
    have hSize := h'.backed.size
    rw [h'.fptr] at hEnd
    refine h'.bytes.trans ?_
    rw [hFptr]
    refine Mem.slice_congr fun x hLo hHi => octetAt_congr (by omega) h.bytes
  fptr := hFptr ▸ h'.fptr
  carried := h.trans h'.carried
  backed := h'.backed
  placed := h'.placed

/-- Part of a sector, from the buffer. -/
theorem handed_part (h : Backed g s f l) (hc : l[f.fptr / g.bcs]? = some f.clust)
    (hSect : f.sect = g.sectorNo l (f.fptr / 512)) (hPos : 0 < btr)
    (hEnd : f.fptr + btr ≤ f.objsize) :
    Handed g l f s (readPart f btr) { f with fptr := f.fptr + (readPart f btr).length } s ∧
      0 < (readPart f btr).length ∧ (readPart f btr).length ≤ btr := by
  have hPosition : f.fptr < f.objsize := by omega
  have hSize := h.size
  have hOwn : g.Owns l f.sect := by
    rw [hSect]
    exact sectorNo_owned (pos_div_lt (by omega))
  have hBuf : f.buf = f.view s.view (g.sectorNo l (f.fptr / 512)) := by
    rw [← hSect]
    exact h.clean.buf_eq hOwn.pos
  have hData := readPart_eq hBuf btr
  have hLength : (readPart f btr).length = min (512 - f.fptr % 512) btr := by
    rw [hData, Mem.length_slice]
  have hLo := Nat.mod_lt (f.fptr / 512) (csize_pos g)
  refine ⟨⟨?_, rfl, (Carried.refl g l f s).move _ _, h.move _ _, ?_⟩, by omega, by omega⟩
  · rw [hLength]
    exact hData
  · refine Placed.advance hc (by omega) (by omega) ?_ ?_
    · have : 1 ≤ g.csize - f.fptr / 512 % g.csize := by omega
      omega
    · intro hMid
      have hSame : (f.fptr + (readPart f btr).length) / 512 = f.fptr / 512 := by omega
      rw [hSame]
      exact hSect

/-- Whole sectors, from the disk. -/
theorem handed_direct (hD : D.Reliable) (h : Backed g s f l) (hc : l[f.fptr / g.bcs]? = some f.clust)
    (hSector : f.fptr % 512 = 0) {cc : Nat} (hPos : 0 < cc)
    (hcc : cc ≤ g.csize - f.fptr / 512 % g.csize) (hEnd : f.fptr + 512 * cc ≤ f.objsize) :
    ∃ data s', readDirect D f s (g.sectorNo l (f.fptr / 512)) cc = (.ok, data, s') ∧
      data.length = 512 * cc ∧
      Handed g l f s data { f with fptr := f.fptr + data.length } s' := by
  have hSize := h.size
  have hIn : ∀ j < cc, g.sectorNo l (f.fptr / 512) + j = g.sectorNo l (f.fptr / 512 + j) :=
    fun j hj => (sectorNo_add l (by omega)).symm
  have hOwn : ∀ j < cc, g.Owns l (g.sectorNo l (f.fptr / 512) + j) := by
    intro j hj
    rw [hIn j hj]
    refine sectorNo_owned ?_
    have : (f.fptr + 512 * j) / 512 < l.length * g.csize := pos_div_lt (by omega)
    omega
  have hLast := h.owns_lt (hOwn (cc - 1) (by omega))
  unfold noSector at hLast
  obtain ⟨s', hEq, hView, hCoh, hSame⟩ := readDirect_eq hD h hOwn (by omega)
  refine ⟨_, s', hEq, Mem.length_slice .., ⟨?_, rfl, ?_, ?_, ?_⟩⟩
  · -- byte by byte, the sectors are those of the file
    rw [Mem.length_slice]
    refine List.map_congr_left fun i hi => ?_
    have hLt := List.mem_range.mp hi
    have hDiv : (f.fptr + i) / 512 = f.fptr / 512 + i / 512 := by omega
    have hMod : (f.fptr + i) % 512 = i % 512 := by omega
    unfold Geometry.octetAt
    rw [hDiv, hMod, ← hIn _ (by omega), Nat.zero_add]
  · have hCarried : Carried g l f s f s' :=
      ⟨fun n _ => by rw [hView], hSame.tended fun n _ => by rw [hView], rfl, rfl, rfl, rfl, id⟩
    exact hCarried.move _ _
  · exact ⟨hCoh, hView ▸ h.chain, h.size, h.small, h.own, h.dirty, hView ▸ h.clean,
      hSame.winsect ▸ h.away⟩
  · rw [Mem.length_slice]
    refine Placed.advance hc (by omega) hEnd (by omega) fun hMid => absurd ?_ hMid
    omega

/-- The buffer holds another sector of the file. -/
theorem Backed.load (hD : D.Reliable) (h : Backed g s f l) {sect : Nat} (hOwn : g.Owns l sect) :
    ∃ b s', loadSector D f s sect =
        (.ok, { f with buf := f.view s.view sect, sect := sect, dirty := b }, s') ∧
      Carried g l f s { f with buf := f.view s.view sect, sect := sect, dirty := b } s' ∧
      Backed g s' { f with buf := f.view s.view sect, sect := sect, dirty := b } l := by
  obtain ⟨b, s', hEq, hView, hClean, hElse, hCoh, hSame, hDirty⟩ :=
    loadSector_eq hD h.coherent h.clean h.dirty_away (h.away _ hOwn) hOwn.pos
  have hCarried : Carried g l f s { f with buf := f.view s.view sect, sect := sect, dirty := b } s' := by
    refine ⟨fun n _ => by rw [hView], hSame.tended fun n hn => hElse n ?_, rfl, rfl, rfl, rfl, hDirty⟩
    rintro hFlag rfl
    exact hn (h.own (h.dirty hFlag))
  exact ⟨b, s', hEq, hCarried, hCarried.backed h hCoh (fun _ => hOwn) (fun _ => hOwn.pos) hClean⟩

/-- At a sector boundary, in a known cluster. -/
theorem readSectors_eq (hD : D.Reliable) (h : Backed g s f l) (hc : l[f.fptr / g.bcs]? = some f.clust)
    (hSector : f.fptr % 512 = 0) (hPos : 0 < btr) (hEnd : f.fptr + btr ≤ f.objsize) :
    ∃ data f' s', readSectors D g f s (g.sectorNo l (f.fptr / 512)) (f.fptr / 512 % g.csize) btr =
        (.ok, data, f', s') ∧ 0 < data.length ∧ data.length ≤ btr ∧
      Handed g l f s data { f' with fptr := f'.fptr + data.length } s' := by
  have hSize := h.size
  unfold readSectors
  dsimp only
  by_cases hWhole : btr / 512 > 0
  · -- whole sectors, up to the end of the cluster
    rw [if_pos hWhole]
    have hMod := Nat.mod_lt (f.fptr / 512) (csize_pos g)
    generalize hcc : (if f.fptr / 512 % g.csize + btr / 512 > g.csize then
      g.csize - f.fptr / 512 % g.csize else btr / 512) = cc
    have hBounds : 0 < cc ∧ cc ≤ g.csize - f.fptr / 512 % g.csize ∧ cc ≤ btr / 512 := by
      split at hcc <;> omega
    obtain ⟨data, s', hEq, hLength, hHanded⟩ := handed_direct hD h hc hSector hBounds.1
      hBounds.2.1 (by omega)
    exact ⟨data, f, s', by rw [hEq], by omega, by omega, hHanded⟩
  · -- less than a sector: through the buffer
    rw [if_neg hWhole]
    have hOwn : g.Owns l (g.sectorNo l (f.fptr / 512)) := sectorNo_owned (pos_div_lt (by omega))
    obtain ⟨b, s', hEq, hCarried, hBacked⟩ := h.load hD hOwn
    obtain ⟨hHanded, hSome, hFew⟩ := handed_part hBacked hc rfl hPos hEnd
    exact ⟨_, _, s', by rw [hEq]; rfl, hSome, hFew, hCarried.handed rfl hHanded⟩

/-- **A turn of the loop of `f_read`.** It hands over at least one byte, and no more than are
still wanted. -/
theorem readTurn_eq (hD : D.Reliable) (h : Backed g s f l) (hp : Placed g f l) (hPos : 0 < btr)
    (hEnd : f.fptr + btr ≤ f.objsize) :
    ∃ data f' s', readTurn D g f s btr = (.ok, data, f', s') ∧ 0 < data.length ∧
      data.length ≤ btr ∧ Handed g l f s data { f' with fptr := f'.fptr + data.length } s' := by
  have hMore : f.fptr < f.objsize := by omega
  by_cases hSector : f.fptr % 512 = 0
  · obtain ⟨c, s₁, hEnter, hc, hLook, hCoh⟩ := enterCluster_eq hD h hp hMore hSector
    obtain ⟨hCarried, hBacked⟩ := h.look hLook hCoh
    obtain ⟨hSect, hFirst⟩ := sector_eq h hc
    obtain ⟨data, f', s₂, hEq, hSome, hFew, hHanded⟩ :=
      readSectors_eq hD (hBacked.move f.fptr c) hc hSector hPos hEnd
    refine ⟨data, f', s₂, ?_, hSome, hFew, (hCarried.move f.fptr c).handed rfl hHanded⟩
    rw [readTurn, if_pos hSector]
    simp only [hEnter, ne_eq, not_true_eq_false, if_false, if_neg hFirst]
    rw [and_csize, hSect]
    exact hEq
  · -- within a sector, which is in the buffer
    rw [readTurn, if_neg hSector]
    have hFptr : 0 < f.fptr := Nat.pos_of_ne_zero fun hZero => hSector (by rw [hZero])
    have hc : l[f.fptr / g.bcs]? = some f.clust := by
      rw [← pred_div_bcs_same (.inl hSector)]
      exact hp.clust hFptr
    obtain ⟨hHanded, hSome, hFew⟩ := handed_part h hc (hp.sect hSector) hPos hEnd
    exact ⟨_, f, s, rfl, hSome, hFew, hHanded⟩

-- ---------------------------------------------------------------------------
-- f_read
-- ---------------------------------------------------------------------------

theorem Handed.append {d d' : List UInt8} (h : Handed g l f s d f' s')
    (h' : Handed g l f' s' d' f'' s'') : Handed g l f s (d ++ d') f'' s'' where
  bytes := by
    have hEnd := h'.placed.pos
    have hSize := h'.backed.size
    rw [h'.fptr, h.fptr] at hEnd
    rw [List.length_append, Mem.slice_add, ← h.bytes]
    congr 1
    refine h'.bytes.trans ?_
    rw [h.fptr]
    exact Mem.slice_congr fun x hLo hHi => octetAt_congr (by omega) h.carried.bytes
  fptr := by rw [h'.fptr, h.fptr, List.length_append, Nat.add_assoc]
  carried := h.carried.trans h'.carried
  backed := h'.backed
  placed := h'.placed

theorem Handed.nil (h : Backed g s f l) (hp : Placed g f l) : Handed g l f s [] f s :=
  ⟨rfl, rfl, Carried.refl g l f s, h, hp⟩

theorem readLoop_eq (hD : D.Reliable) {turns : Nat} (h : Backed g s f l) (hp : Placed g f l)
    (hEnd : f.fptr + btr ≤ f.objsize) (hTurns : btr ≤ turns) (got : List UInt8) :
    ∃ data f' s', readLoop D g turns f s btr got = (.ok, got ++ data, f', s') ∧
      data.length = btr ∧ Handed g l f s data f' s' := by
  induction turns generalizing f s btr got with
  | zero =>
    exact ⟨[], f, s, by rw [readLoop, List.append_nil], by simp; omega, .nil h hp⟩
  | succ turns ih =>
    rw [readLoop]
    by_cases hZero : btr = 0
    · rw [if_pos hZero]
      exact ⟨[], f, s, by rw [List.append_nil], by simp [hZero], .nil h hp⟩
    · rw [if_neg hZero]
      obtain ⟨d, f₁, s₁, hEq, hSome, hFew, hHanded⟩ :=
        readTurn_eq hD h hp (Nat.pos_of_ne_zero hZero) hEnd
      simp only [hEq, ne_eq, not_true_eq_false, if_false]
      obtain ⟨d', f₂, s₂, hEq₂, hLength, hHanded₂⟩ := ih hHanded.backed hHanded.placed
        (show f₁.fptr + d.length + (btr - d.length) ≤ f₁.objsize by
          have hPos : f₁.fptr + d.length = f.fptr + d.length := hHanded.fptr
          have hSize : f₁.objsize = f.objsize := hHanded.carried.objsize
          omega)
        (by omega) (got ++ d)
      refine ⟨d ++ d', f₂, s₂, ?_, ?_, hHanded.append hHanded₂⟩
      · rw [hEq₂, List.append_assoc]
      · rw [List.length_append]
        omega

/-- **`f_read`** on an open file: the bytes from the position on, as many as asked for or as
there are. -/
theorem fRead_eq (hD : D.Reliable) (h : Backed g s f l) (hp : Placed g f l) (hValid : f.valid = true)
    (hErr : f.err = .ok) (hMode : f.faRead = true) (btr : Nat) :
    ∃ data f' s', fRead D g f s btr = (.ok, data, f', s') ∧
      data.length = min btr (f.objsize - f.fptr) ∧ Handed g l f s data f' s' := by
  have hRemain : sub32 f.objsize f.fptr = f.objsize - f.fptr := sub32_of_le hp.pos h.small
  have hClip : (if btr > f.objsize - f.fptr then f.objsize - f.fptr else btr) =
      min btr (f.objsize - f.fptr) := by
    split <;> omega
  have hPos := hp.pos
  obtain ⟨data, f', s', hEq, hLength, hHanded⟩ := readLoop_eq hD h hp
    (show f.fptr + min btr (f.objsize - f.fptr) ≤ f.objsize by omega) (le_refl _) []
  refine ⟨data, f', s', ?_, hLength, hHanded⟩
  rw [List.nil_append] at hEq
  simp only [fRead, validate, hValid, hErr, hMode, hRemain, hClip, hEq, if_true, ne_eq,
    not_true_eq_false, if_false, Bool.not_true, Bool.false_eq_true]

end Nao.Fat
