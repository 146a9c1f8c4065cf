import Nao.Fat.Writing

/-!
# FAT volumes — the position of a file

`f_lseek` looks for the cluster of the new position from the current cluster on, or, if that is
too far, from the first one. A file that may be written is lengthened on the way: there the
clusters are taken as needed, and the size grows to the new position. If no cluster is free the
position is the end of the clusters.

## Results

* `seekLoop_eq` — the loop ends in the cluster of the position, or at the end of the clusters of
  a full volume.
* `fLseek_eq` — the bytes of the file stay what they are, whatever the direction.
-/

namespace Nao.Fat

open SysLib FatFs Disk

variable {D : Device} {g : Geometry} {s s' s'' : Fatfs} {f f' f'' : Fil} {l l' l'' : List Nat}
  {c n k p ofs : Nat} {ι : Type*} {U : Nat → Prop} {e : Nat → Nat} {chains : ι → List Nat} {i : ι}

/-- The start of the cluster of a position. -/
theorem mask_bcs {x : Nat} (hx : x < 2 ^ 32) :
    x &&& ((2 ^ 32 - 1) - (g.bcs - 1)) = x / g.bcs * g.bcs := by
  obtain ⟨k, -, hk⟩ := g.clusterSize
  have hBcs : g.bcs = 2 ^ (k + 9) := by
    rw [Geometry.bcs, hk, Nat.pow_add]
  rw [hBcs]
  exact and_high_mask hx

-- ---------------------------------------------------------------------------
-- Steps that keep the bytes
-- ---------------------------------------------------------------------------

section Steps

variable [DecidableEq ι]

theorem Stretched.refl (h : Stored g s U e chains) (hi : chains i = l) (hb : Backed g s f l) :
    Stretched g U e chains i l f s l f s where
  stored := by
    rw [← hi, Function.update_eq_self]
    exact h
  backed := hb
  longer := ⟨[], (List.append_nil l).symm⟩
  objsize := rfl
  bytes _ _ := rfl
  rest _ _ _ _ := rfl
  identity := rfl
  dirty := id
  neat _ _ hNeat := hNeat

theorem Stretched.trans (h : Stretched g U e chains i l f s l' f' s')
    (h' : Stretched g U e (Function.update chains i l') i l' f' s' l'' f'' s'') :
    Stretched g U e chains i l f s l'' f'' s'' where
  stored := by
    have hStored := h'.stored
    rwa [Function.update_idem] at hStored
  backed := h'.backed
  longer := by
    obtain ⟨t, rfl⟩ := h.longer
    obtain ⟨t', rfl⟩ := h'.longer
    exact ⟨t ++ t', List.append_assoc ..⟩
  objsize := h'.objsize.trans h.objsize
  bytes p hp := (h'.bytes p (h.objsize ▸ hp)).trans (h.bytes p hp)
  rest n hMirror hTable hn := by
    obtain ⟨t', hLonger⟩ := h'.longer
    rw [h'.rest n hMirror hTable hn]
    exact h.rest n hMirror hTable fun hOwn => hn (hLonger ▸ hOwn.append t')
  identity := h'.identity.trans h.identity
  dirty hDirty := h.dirty (h'.dirty hDirty)
  neat L hL hNeat :=
    h'.neat L (fun c hc => ((hL c hc).split h.longer h'.longer).2)
      (h.neat L (fun c hc => ((hL c hc).split h.longer h'.longer).1) hNeat)

/-- The position and the current cluster are no matter of the bytes. -/
theorem Stretched.move (h : Stretched g U e chains i l f s l' f' s') (fptr clust : Nat) :
    Stretched g U e chains i l f s l' { f' with fptr := fptr, clust := clust } s' :=
  ⟨h.stored, h.backed.move fptr clust, h.longer, h.objsize, h.bytes, h.rest, h.identity, h.dirty,
    h.neat⟩

theorem Carried.stretched (h : Carried g l f s f' s') (hb : Backed g s f l) (hb' : Backed g s' f' l)
    (hStored : Stored g s U e chains) (hi : chains i = l) :
    Stretched g U e chains i l f s l f' s' where
  stored := by
    rw [← hi, Function.update_eq_self]
    exact hStored.tend h.rest hb'.coherent
  backed := hb'
  longer := ⟨[], (List.append_nil l).symm⟩
  objsize := h.objsize
  bytes p hp := by
    have hSize := hb.size
    exact octetAt_congr (by omega) h.bytes
  rest n hMirror _ hn := h.rest.view n hMirror hn
  identity := h.identity
  dirty := h.dirty
  neat L hL hNeat := h.rest.neat L (fun c hc => (hL c hc).1) hNeat

-- ---------------------------------------------------------------------------
-- The cluster following loop
-- ---------------------------------------------------------------------------

/-- The cluster after the `k`-th, for a file that may be written: it is followed, or taken, or
none is free. -/
theorem seekNext_eq (hD : D.Reliable) (h : Stored g s U e chains) (hi : chains i = l)
    (hb : Backed g s f l) (hc : l[k]? = some c) :
    (∃ s', createChain D g s c = (0, s') ∧ Scanned g s s' ∧ Coherent s' ∧
      (∀ c, g.Cluster c → g.fat s.view c ≠ 0) ∧ k + 1 = l.length) ∨
    ∃ c' s' l', createChain D g s c = (c', s') ∧ g.Cluster c' ∧ l'[k + 1]? = some c' ∧
      Stretched g U e chains i l f s l' f s' ∧ (l' = l ∨ l'.length = k + 2) := by
  have hk := (List.getElem?_eq_some_iff.mp hc).1
  by_cases hLast : k + 1 = l.length
  · have hTail : tailOf l = c := tailOf_eq (by rw [← hLast]; exact hc)
    have hExtend := createChain_tail hD h hi hb
    rw [hTail] at hExtend
    rcases hExtend with ⟨s', hEq, hLook, hCoh, hFull⟩ | ⟨ncl, s', hEq, hNcl, hStretched⟩
    · exact .inl ⟨s', hEq, hLook, hCoh, hFull, hLast⟩
    · refine .inr ⟨ncl, s', l ++ [ncl], hEq, hNcl, by rw [hLast, List.getElem?_concat_length], ?_⟩
      have hMoved := hStretched.move f.fptr f.clust
      rw [if_neg (hb.sclust_ne (List.length_pos_iff.mp (by omega)))] at hMoved
      refine ⟨hMoved, .inr ?_⟩
      rw [List.length_append, ← hLast]
      rfl
  · obtain ⟨c', hc'⟩ : ∃ c', l[k + 1]? = some c' :=
      ⟨_, List.getElem?_eq_getElem (show k + 1 < l.length by omega)⟩
    have hNext := chain_next hb hc hc'
    have hCl := hb.cluster_of_mem (List.mem_of_getElem? hc')
    obtain ⟨s', hEq, hLook, hCoh⟩ := createChain_next hD hb.coherent
      (hb.cluster_of_mem (List.mem_of_getElem? hc)) (hNext ▸ hCl)
    obtain ⟨hCarried, hb'⟩ := hb.look hLook hCoh
    exact .inr ⟨c', s', l, by rw [hEq, hNext], hCl, hc', hCarried.stretched hb hb' h hi, .inl rfl⟩

/-- Where the loop ends: in the cluster of the position, or at the end of the clusters of a full
volume. -/
inductive Landed (g : Geometry) (f : Fil) (ofs : Nat) (l' : List Nat) (s' : Fatfs) :
    Nat → Nat → Fil → Prop where
  | inside {k ofs' : Nat} {f' : Fil} (hFptr : f'.fptr = k * g.bcs) (hc : l'[k]? = some f'.clust)
      (hPos : 0 < ofs') (hLe : ofs' ≤ g.bcs) (hSum : f'.fptr + ofs' = f.fptr + ofs) :
      Landed g f ofs l' s' f'.clust ofs' f'
  | full {f' : Fil} (hMode : f.faWrite = true) (hFptr : f'.fptr = l'.length * g.bcs)
      (hLast : l'[l'.length - 1]? = some f'.clust) (hShort : f'.fptr < f.fptr + ofs)
      (hFull : ∀ c, g.Cluster c → g.fat s'.view c ≠ 0) : Landed g f ofs l' s' 0 0 f'

omit [DecidableEq ι] in
/-- The loop ends past the first `k` clusters if the position is past them and they are all but
one. -/
theorem Landed.past {clst ofs' : Nat} (h : Landed g f ofs l' s' clst ofs' f')
    (hFar : k * g.bcs < f.fptr + ofs) (hLength : l'.length = k + 1) :
    (l'.length - 1) * g.bcs < f'.fptr + ofs' := by
  rw [hLength, Nat.add_sub_cancel]
  cases h with
  | inside _ _ _ _ hSum => omega
  | full _ hFptr =>
    have hBcs := bcs_pos g
    rw [hFptr, hLength, Nat.add_mul]
    omega

theorem seekLoop_eq (hD : D.Reliable) {turns : Nat} (h : Stored g s U e chains) (hi : chains i = l)
    (hb : Backed g s f l) (hFptr : f.fptr = k * g.bcs) (hc : l[k]? = some f.clust) (hPos : 0 < ofs)
    (hRead : f.faWrite = false → f.fptr + ofs ≤ f.objsize) (hTurns : ofs ≤ turns) :
    ∃ clst ofs' fptr clust s' l',
      seekLoop D g turns f s f.clust ofs =
        (.ok, clst, ofs', { f with fptr := fptr, clust := clust }, s') ∧
      Stretched g U e chains i l f s l' { f with fptr := fptr, clust := clust } s' ∧
      Landed g f ofs l' s' clst ofs' { f with fptr := fptr, clust := clust } ∧
      (l' = l ∨ (l'.length - 1) * g.bcs < fptr + ofs') := by
  induction turns generalizing f s l chains k ofs with
  | zero => omega
  | succ turns ih =>
    rw [seekLoop]
    have hBcs := bcs_pos g
    by_cases hFar : ofs > g.bcs
    · rw [if_pos hFar]
      -- the next cluster: by `create_chain`, or by the table
      have hNext : (∃ s', createChain D g s f.clust = (0, s') ∧ Scanned g s s' ∧ Coherent s' ∧
            (∀ c, g.Cluster c → g.fat s.view c ≠ 0) ∧ k + 1 = l.length ∧ f.faWrite = true) ∨
          ∃ c' s' l', (if f.faWrite = true then createChain D g s f.clust else getFat D g s f.clust) =
            (c', s') ∧ g.Cluster c' ∧ l'[k + 1]? = some c' ∧ Stretched g U e chains i l f s l' f s' ∧
            (l' = l ∨ l'.length = k + 2) := by
        by_cases hMode : f.faWrite = true
        · rw [if_pos hMode]
          rcases seekNext_eq hD h hi hb hc with ⟨s', hEq, hLook, hCoh, hFull, hLast⟩ | hOn
          · exact .inl ⟨s', hEq, hLook, hCoh, hFull, hLast, hMode⟩
          · exact .inr hOn
        · rw [if_neg hMode]
          have hEnd := hRead (by simpa using hMode)
          have hSize := hb.size
          have hIn : k + 1 < l.length := by
            have hLt : (k + 1) * g.bcs < l.length * g.bcs := by
              rw [Nat.add_mul]
              omega
            exact Nat.lt_of_mul_lt_mul_right hLt
          obtain ⟨c', hc'⟩ : ∃ c', l[k + 1]? = some c' := ⟨_, List.getElem?_eq_getElem hIn⟩
          obtain ⟨s', hEq, hLook, hCoh⟩ :=
            getFat_scanned hD hb.coherent (hb.cluster_of_mem (List.mem_of_getElem? hc))
          obtain ⟨hCarried, hb'⟩ := hb.look hLook hCoh
          exact .inr ⟨c', s', l, by rw [hEq, chain_next hb hc hc'],
            hb.cluster_of_mem (List.mem_of_getElem? hc'), hc', hCarried.stretched hb hb' h hi, .inl rfl⟩
      rcases hNext with ⟨s', hEq, hLook, hCoh, hFull, hLast, hMode⟩ |
        ⟨c', s', l', hEq, hCl, hc', hStretched, hNeed⟩
      · obtain ⟨hCarried, hb'⟩ := hb.look hLook hCoh
        refine ⟨0, 0, f.fptr + g.bcs, f.clust, s', l, ?_, ?_, .full hMode ?_ ?_ ?_ ?_, .inl rfl⟩
        · simp only [hMode, if_true, hEq, true_and]
        · exact (hCarried.stretched hb hb' h hi).move _ _
        · show f.fptr + g.bcs = l.length * g.bcs
          rw [hFptr, ← hLast, Nat.add_mul, Nat.one_mul]
        · rw [← hLast]
          exact hc
        · show f.fptr + g.bcs < f.fptr + ofs
          omega
        · intro c hCluster
          rw [hLook.fat hCluster]
          exact hFull c hCluster
      · obtain ⟨hZero, hInt, hDisk⟩ := not_or.mp hCl.not_code |>.imp_right not_or.mp
        have hMoved := hStretched.move (f.fptr + g.bcs) c'
        obtain ⟨clst, ofs', fptr, clust, s₂, l₂, hEq₂, hStretched₂, hLanded, hNeed₂⟩ :=
          ih hMoved.stored (Function.update_self ..) hMoved.backed
            (show f.fptr + g.bcs = (k + 1) * g.bcs by rw [hFptr, Nat.add_mul, Nat.one_mul]) hc'
            (show 0 < ofs - g.bcs by omega)
            (fun hMode => by
              have := hRead hMode
              show f.fptr + g.bcs + (ofs - g.bcs) ≤ f.objsize
              omega) (by omega)
        have hSum : f.fptr + g.bcs + (ofs - g.bcs) = f.fptr + ofs := by omega
        refine ⟨clst, ofs', fptr, clust, s₂, l₂, ?_, hMoved.trans hStretched₂, ?_, ?_⟩
        · simp only [hEq]
          rw [if_neg fun hCode => hZero hCode.2, if_neg hDisk, if_neg (by
            obtain ⟨hLo, hHi⟩ := hCl
            omega)]
          exact hEq₂
        · cases hLanded with
          | inside hFptr' hCl' hPos' hLe' hSum' => exact .inside hFptr' hCl' hPos' hLe' (hSum'.trans hSum)
          | full hMode hFptr' hLast hShort hFull => exact .full hMode hFptr' hLast (hSum ▸ hShort) hFull
        · rcases hNeed₂ with rfl | hPast
          · refine hNeed.imp_right fun hLength => hLanded.past ?_ hLength
            show (k + 1) * g.bcs < f.fptr + g.bcs + (ofs - g.bcs)
            rw [Nat.add_mul]
            omega
          · exact .inr hPast
    · rw [if_neg hFar]
      exact ⟨f.clust, ofs, f.fptr, f.clust, s, l, rfl, .refl h hi hb,
        .inside hFptr hc hPos (by omega) rfl, .inl rfl⟩

-- ---------------------------------------------------------------------------
-- The start of the loop
-- ---------------------------------------------------------------------------

omit [DecidableEq ι] in
theorem Backed.sclust_of_nil (h : Backed g s f []) : f.sclust = 0 := by
  rcases h.chain with ⟨-, hNone⟩ | hChain
  · exact hNone
  · exact absurd rfl hChain.ne_nil

/-- The search starts at the current cluster, or at the first one, which is taken if there is
none yet. -/
theorem seekStart_eq (hD : D.Reliable) (h : Stored g s U e chains) (hi : chains i = l)
    (hb : Backed g s f l) (hp : Placed g f l) (hPos : 0 < ofs) :
    (∃ s', seekStart D g { f with fptr := 0 } s f.fptr ofs =
        (.ok, 0, ofs, { f with fptr := 0, clust := 0 }, s') ∧
      Scanned g s s' ∧ Coherent s' ∧ (∀ c, g.Cluster c → g.fat s.view c ≠ 0) ∧ l = []) ∨
    ∃ k f' s' l', seekStart D g { f with fptr := 0 } s f.fptr ofs =
        (.ok, f'.clust, ofs - k * g.bcs, f', s') ∧
      Stretched g U e chains i l f s l' f' s' ∧ f'.fptr = k * g.bcs ∧ l'[k]? = some f'.clust ∧
      k * g.bcs < ofs ∧ f'.modified = f.modified ∧ (l' = l ∨ l'.length = k + 1) := by
  have hBcs := bcs_pos g
  rw [seekStart]
  by_cases hNear : f.fptr > 0 ∧ (ofs - 1) / g.bcs ≥ (f.fptr - 1) / g.bcs
  · -- from the current cluster on
    rw [if_pos hNear]
    have hMask := mask_bcs (g := g) (x := f.fptr - 1) (by
      have := hp.pos
      have := hb.small
      omega)
    have hLe : (f.fptr - 1) / g.bcs * g.bcs ≤ ofs - 1 :=
      le_trans (Nat.mul_le_mul_right _ hNear.2) (Nat.div_mul_le_self _ _)
    refine .inr ⟨(f.fptr - 1) / g.bcs, { f with fptr := (f.fptr - 1) / g.bcs * g.bcs }, s, l, ?_,
      (Stretched.refl h hi hb).move _ f.clust, rfl, hp.clust hNear.1, by omega, rfl, .inl rfl⟩
    rw [hMask]
  · rw [if_neg hNear]
    by_cases hNone : f.sclust = 0
    · -- no clusters yet
      rw [if_pos (show ({ f with fptr := 0 } : Fil).sclust = 0 from hNone)]
      have hNil : l = [] := by
        by_contra hl
        exact hb.sclust_ne hl hNone
      subst hNil
      rcases createChain_tail hD h hi hb with ⟨s', hEq, hLook, hCoh, hFull⟩ |
        ⟨ncl, s', hEq, hNcl, hStretched⟩
      · refine .inl ⟨s', ?_, hLook, hCoh, hFull, rfl⟩
        have hEq' : createChain D g s 0 = (0, s') := hEq
        simp only [hEq']
        rw [if_neg (by unfold intError; omega), if_neg (by unfold diskError; omega), ← hNone]
      · obtain ⟨hZero, hInt, hDisk⟩ := not_or.mp hNcl.not_code |>.imp_right not_or.mp
        have hEq' : createChain D g s 0 = (ncl, s') := hEq
        have hMoved := hStretched.move 0 ncl
        rw [if_pos hNone] at hMoved
        refine .inr ⟨0, { f with fptr := 0, clust := ncl, sclust := ncl }, s', [ncl], ?_, hMoved,
          (Nat.zero_mul _).symm, rfl, by omega, rfl, .inr rfl⟩
        simp only [hEq', if_neg hInt, if_neg hDisk, Nat.zero_mul, Nat.sub_zero]
    · -- from the first cluster on
      rw [if_neg (show ({ f with fptr := 0 } : Fil).sclust ≠ 0 from hNone)]
      have hl : l ≠ [] := by
        rintro rfl
        exact hNone hb.sclust_of_nil
      refine .inr ⟨0, { f with fptr := 0, clust := f.sclust }, s, l, ?_,
        (Stretched.refl h hi hb).move 0 f.sclust, (Nat.zero_mul _).symm, chain_head hb hl, by omega, rfl,
        .inl rfl⟩
      simp only [Nat.zero_mul, Nat.sub_zero]

-- ---------------------------------------------------------------------------
-- The new position
-- ---------------------------------------------------------------------------

/-- The position that was asked for, or the end of the clusters of a full volume; the cluster
and the sector of the byte before it. -/
structure Reached (g : Geometry) (f : Fil) (ofs : Nat) (l' : List Nat) (nsect : Nat) (f' : Fil)
    (s' : Fatfs) : Prop where
  target : f'.fptr = ofs ∨ f.faWrite = true ∧ f'.fptr < ofs ∧ f'.fptr = l'.length * g.bcs ∧
    ∀ c, g.Cluster c → g.fat s'.view c ≠ 0
  within : f'.fptr ≤ l'.length * g.bcs
  clust  : 0 < f'.fptr → l'[(f'.fptr - 1) / g.bcs]? = some f'.clust
  sect   : f'.fptr % 512 ≠ 0 → nsect = g.sectorNo l' (f'.fptr / 512)

omit [DecidableEq ι] in
theorem pred_div_cluster {r : Nat} (hPos : 0 < r) (hLe : r ≤ g.bcs) : (k * g.bcs + r - 1) / g.bcs = k := by
  refine Nat.div_eq_of_lt_le ?_ ?_
  · omega
  · rw [Nat.add_mul, Nat.one_mul]
    omega

omit [DecidableEq ι] in
/-- What is left to do after the loop: the sector within the cluster. -/
theorem Landed.reached {f₁ f₂ : Fil} {ofs₁ clst ofs' : Nat} (h : Landed g f₁ ofs₁ l' s' clst ofs' f₂)
    (hb : Backed g s' f₂ l') (hMode : f₁.faWrite = f.faWrite) (hOfs : f₁.fptr + ofs₁ = ofs) :
    ∃ nsect, seekSector g f₂ s' clst ofs' = (.ok, nsect, { f₂ with fptr := f₂.fptr + ofs' }, s') ∧
      Reached g f ofs l' nsect { f₂ with fptr := f₂.fptr + ofs' } s' := by
  unfold seekSector
  dsimp only
  cases h with
  | @inside k _ _ hFptr hc hPos hLe hSum =>
    have hk := (List.getElem?_eq_some_iff.mp hc).1
    have hWithin : (k + 1) * g.bcs ≤ l'.length * g.bcs := Nat.mul_le_mul_right _ hk
    rw [Nat.add_mul, Nat.one_mul] at hWithin
    have hLast : (f₂.fptr + ofs' - 1) / g.bcs = k := by
      rw [hFptr]
      exact pred_div_cluster hPos hLe
    have hClust : l'[(f₂.fptr + ofs' - 1) / g.bcs]? = some f₂.clust := by
      rw [hLast]
      exact hc
    have hSectors : f₂.fptr + ofs' = 512 * (k * g.csize) + ofs' := by
      rw [hFptr, Geometry.bcs, ← Nat.mul_assoc, Nat.mul_comm _ 512]
    by_cases hMid : ofs' % 512 = 0
    · rw [if_neg (not_not.mpr hMid)]
      refine ⟨0, rfl, .inl (hSum.trans hOfs), ?_, fun _ => hClust, fun hc => absurd ?_ hc⟩
      · show f₂.fptr + ofs' ≤ _
        omega
      · show (f₂.fptr + ofs') % 512 = 0
        omega
    · -- within a sector: it is in the cluster
      have hLt : ofs' / 512 < g.csize := by
        unfold Geometry.bcs at hLe
        omega
      have hIndex : (f₂.fptr + ofs') / 512 = k * g.csize + ofs' / 512 := by omega
      have hCluster : (f₂.fptr + ofs') / g.bcs = k := by
        rw [div_bcs, hIndex, Nat.add_comm, Nat.add_mul_div_right _ _ (csize_pos g),
          Nat.div_eq_of_lt hLt, Nat.zero_add]
      have hOffset : (f₂.fptr + ofs') / 512 % g.csize = ofs' / 512 := by
        rw [hIndex, Nat.add_comm, Nat.add_mul_mod_self_right, Nat.mod_eq_of_lt hLt]
      obtain ⟨hSect, hFirst⟩ := sector_eq (p := f₂.fptr + ofs') hb (by rw [hCluster]; exact hc)
      rw [hOffset] at hSect
      rw [if_pos hMid, if_neg hFirst]
      refine ⟨_, rfl, .inl (hSum.trans hOfs), ?_, fun _ => hClust, fun _ => hSect⟩
      show f₂.fptr + ofs' ≤ _
      omega
  | full hWrite hFptr hLast hShort hFull =>
    rw [if_neg (not_not.mpr (Nat.zero_mod _))]
    have hLength := (List.getElem?_eq_some_iff.mp hLast).1
    refine ⟨0, rfl, .inr ⟨hMode ▸ hWrite, hOfs ▸ hShort, hFptr, hFull⟩, hFptr.le, fun _ => ?_,
      fun hc => absurd ?_ hc⟩
    · have hLengthEq : l'.length * g.bcs = (l'.length - 1) * g.bcs + g.bcs := by
        rw [← Nat.succ_mul, Nat.succ_eq_add_one, Nat.sub_add_cancel (by omega)]
      show l'[(f₂.fptr - 1) / g.bcs]? = some f₂.clust
      rw [hFptr, hLengthEq, pred_div_cluster (bcs_pos g) (le_refl _)]
      exact hLast
    · show f₂.fptr % 512 = 0
      rw [hFptr, Geometry.bcs, ← Nat.mul_assoc, Nat.mul_mod_left]

theorem seekCluster_eq (hD : D.Reliable) (h : Stored g s U e chains) (hi : chains i = l)
    (hb : Backed g s f l) (hp : Placed g f l) (hRead : f.faWrite = false → ofs ≤ f.objsize) :
    ∃ nsect f' s' l', seekCluster D g { f with fptr := 0 } s f.fptr ofs = (.ok, nsect, f', s') ∧
      Stretched g U e chains i l f s l' f' s' ∧ Reached g f ofs l' nsect f' s' ∧
      f'.modified = f.modified ∧ (l' = l ∨ (l'.length - 1) * g.bcs < f'.fptr) := by
  have hBcs := bcs_pos g
  have hSize := hb.size
  rw [seekCluster]
  by_cases hPos : ofs > 0
  · rw [if_pos hPos]
    rcases seekStart_eq hD h hi hb hp hPos with ⟨s₁, hStart, hLook, hCoh, hFull, rfl⟩ |
      ⟨k, f₁, s₁, l₁, hStart, hStretched, hFptr, hc, hLt, hMod, hNeed⟩
    · -- a full volume, and not even a first cluster
      obtain ⟨hCarried, hb₁⟩ := hb.look hLook hCoh
      have hMode : f.faWrite = true := by
        by_contra hMode
        have := hRead (by simpa using hMode)
        simp only [List.length_nil, Nat.zero_mul] at hSize
        omega
      refine ⟨0, { f with fptr := 0, clust := 0 }, s₁, [], ?_,
        (hCarried.stretched hb hb₁ h hi).move 0 0, ⟨.inr ⟨hMode, hPos, ?_, ?_⟩, Nat.zero_le _,
          fun hc => absurd hc (lt_irrefl 0), fun hc => absurd rfl hc⟩, rfl, .inl rfl⟩
      · simp only [hStart, ne_eq, not_true_eq_false, if_false]
      · exact (Nat.zero_mul _).symm
      · intro c hCluster
        rw [hLook.fat hCluster]
        exact hFull c hCluster
    · have hMode₁ : f₁.faWrite = f.faWrite := congrArg (fun x => x.2.2.1) hStretched.identity
      have hCl := hStretched.backed.cluster_of_mem (List.mem_of_getElem? hc)
      obtain ⟨clst, ofs', fptr, clust, s₂, l₂, hLoop, hStretched₂, hLanded, hNeed₂⟩ :=
        seekLoop_eq hD hStretched.stored (Function.update_self ..) hStretched.backed hFptr hc
          (show 0 < ofs - k * g.bcs by omega) (fun hMode => by
            have := hRead (hMode₁ ▸ hMode)
            rw [hFptr, hStretched.objsize]
            omega) (le_refl _)
      have hBoth := hStretched.trans hStretched₂
      have hClst : f₁.clust ≠ 0 := by
        have := hCl.1
        omega
      simp only [hStart, hLoop, ne_eq, not_true_eq_false, if_false, if_pos hClst]
      obtain ⟨nsect, hEq, hReached⟩ := hLanded.reached hBoth.backed hMode₁
        (show f₁.fptr + (ofs - k * g.bcs) = ofs by omega)
      refine ⟨nsect, _, s₂, l₂, hEq, hBoth.move _ _, hReached, hMod, ?_⟩
      rcases hNeed₂ with rfl | hPast
      · exact hNeed.imp_right fun hLength => hLanded.past (by omega) hLength
      · exact .inr hPast
  · rw [if_neg hPos]
    refine ⟨0, { f with fptr := 0 }, s, l, rfl, (Stretched.refl h hi hb).move 0 f.clust,
      ⟨.inl (show 0 = ofs by omega), Nat.zero_le _, fun hc => absurd hc (lt_irrefl 0),
        fun hc => absurd rfl hc⟩, rfl, .inl rfl⟩

-- ---------------------------------------------------------------------------
-- f_lseek
-- ---------------------------------------------------------------------------

/-- The position of the file is changed, and the file is as before up to its old size. -/
structure Sought (g : Geometry) (U : Nat → Prop) (e : Nat → Nat) (chains : ι → List Nat) (i : ι)
    (l : List Nat) (f : Fil) (s : Fatfs) (ofs : Nat) (l' : List Nat) (f' : Fil) (s' : Fatfs) :
    Prop where
  stored   : Stored g s' U e (Function.update chains i l')
  backed   : Backed g s' f' l'
  placed   : Placed g f' l'
  longer   : ∃ t, l' = l ++ t
  target   : f'.fptr = (if f.faWrite then ofs else min ofs f.objsize) ∨
    f.faWrite = true ∧ f.objsize ≤ f'.fptr ∧ f'.fptr < ofs ∧ ∀ c, g.Cluster c → g.fat s'.view c ≠ 0
  objsize  : f'.objsize = max f.objsize f'.fptr
  bytes    : ∀ p < f.objsize, g.octetAt (f'.view s'.view) l' p = g.octetAt (f.view s.view) l p
  rest     : ∀ n, ¬ g.Mirror n → ¬ g.InTable n → ¬ g.Owns l' n → s'.view n = s.view n
  identity : f'.identity = f.identity
  modified : f'.modified = true ∨
    f'.modified = f.modified ∧ f'.objsize = f.objsize ∧ f'.sclust = f.sclust ∧ l' = l
  dirty    : f'.dirty = true → f.dirty = true
  neat     : ∀ L : Nat → Prop, (∀ c, L c → Elsewhere g chains i l l' c) → Neat g L s → Neat g L s'

omit [DecidableEq ι] in
/-- The clusters determine the first of them. -/
theorem sclust_eq (hb : Backed g s f l) (hb' : Backed g s' f' l) : f'.sclust = f.sclust := by
  by_cases hl : l = []
  · subst hl
    rw [hb.sclust_of_nil, hb'.sclust_of_nil]
  · exact Option.some.inj ((chain_head hb' hl).symm.trans (chain_head hb hl))

omit [DecidableEq ι] in
/-- No cluster has been taken that the position does not need. -/
theorem same_clusters (hLonger : ∃ t, l' = l ++ t) (hNeed : l' = l ∨ (l'.length - 1) * g.bcs < p)
    (hp : p ≤ l.length * g.bcs) : l' = l := by
  rcases hNeed with hSame | hPast
  · exact hSame
  · obtain ⟨t, rfl⟩ := hLonger
    have hFew := Nat.lt_of_mul_lt_mul_right (lt_of_lt_of_le hPast hp)
    rw [List.length_append] at hFew
    have hNil : t = [] := List.length_eq_zero_iff.mp (by omega)
    rw [hNil, List.append_nil]

/-- The size grows to the position, if that is past the end. -/
def Fil.reach (f : Fil) : Fil :=
  if f.fptr > f.objsize then { f with objsize := f.fptr, modified := true } else f

omit [DecidableEq ι] in
theorem Backed.reach (h : Backed g s f l) (hIn : f.fptr ≤ l.length * g.bcs) (hTop : f.fptr < 2 ^ 32) :
    Backed g s f.reach l ∧ f.reach.objsize = max f.objsize f.fptr ∧ f.reach.view s.view = f.view s.view ∧
      f.reach.fptr = f.fptr ∧ f.reach.clust = f.clust ∧ f.reach.sclust = f.sclust ∧
      f.reach.identity = f.identity ∧ f.reach.dirty = f.dirty ∧
      (f.reach.modified = true ∨ f.reach.modified = f.modified ∧ f.fptr ≤ f.objsize) := by
  unfold Fil.reach
  by_cases hPast : f.fptr > f.objsize
  · rw [if_pos hPast]
    exact ⟨⟨h.coherent, h.chain, hIn, hTop, h.own, h.dirty, h.clean, h.away⟩,
      (max_eq_right hPast.le).symm, rfl, rfl, rfl, rfl, rfl, rfl, .inl rfl⟩
  · rw [if_neg hPast]
    exact ⟨h, (max_eq_left (by omega)).symm, rfl, rfl, rfl, rfl, rfl, rfl, .inr ⟨rfl, by omega⟩⟩

/-- The end of `f_lseek`: the sector of the new position is brought into the buffer. -/
theorem Reached.sought {nsect target : Nat} {f₁ : Fil} {s₁ : Fatfs}
    (hStretched : Stretched g U e chains i l f s l' f₁ s₁) (h : Reached g f target l' nsect f₁ s₁)
    (hb : Backed g s f l) (hMod : f₁.modified = f.modified) (hNeed : l' = l ∨ (l'.length - 1) * g.bcs < f₁.fptr)
    (hTarget : target = if f.faWrite then ofs else min ofs f.objsize) (hTop : f₁.fptr < 2 ^ 32)
    (hCarried : Carried g l' f₁.reach s₁ f' s') (hb' : Backed g s' f' l') (hFptr : f'.fptr = f₁.fptr)
    (hClust : f'.clust = f₁.clust) (hSect : f₁.fptr % 512 ≠ 0 → f'.sect = nsect) :
    Sought g U e chains i l f s ofs l' f' s' := by
  obtain ⟨hb₂, hSize₂, hView₂, -, -, -, hId₂, hDirty₂, hMod₂⟩ := hStretched.backed.reach h.within hTop
  have hSize : f'.objsize = max f.objsize f'.fptr := by
    rw [hCarried.objsize, hSize₂, hStretched.objsize, hFptr]
  have hIn := hStretched.backed.size
  rw [hStretched.objsize] at hIn
  refine ⟨?_, hb', ⟨by omega, ?_, ?_⟩, hStretched.longer, ?_, hSize, ?_, ?_, ?_, ?_,
    fun hDirty => hStretched.dirty (hDirty₂ ▸ hCarried.dirty hDirty), fun L hL hNeat =>
      hCarried.rest.neat L (fun c hc => (hL c hc).1) (hStretched.neat L hL hNeat)⟩
  · exact hStretched.stored.tend hCarried.rest hb'.coherent
  · rw [hFptr, hClust]
    exact h.clust
  · rw [hFptr]
    intro hMid
    rw [hSect hMid]
    exact h.sect hMid
  · rw [hFptr]
    rcases h.target with hAt | ⟨hMode, hShort, hEnd, hFull⟩
    · exact .inl (hAt.trans hTarget)
    · rw [hMode, if_pos rfl] at hTarget
      refine .inr ⟨hMode, by omega, by omega, fun c hc => ?_⟩
      rw [hCarried.rest.fat hc]
      exact hFull c hc
  · intro p hp
    rw [← hStretched.bytes p hp, ← hView₂]
    exact octetAt_congr (by omega) hCarried.bytes
  · intro n hMirror hTable hn
    rw [hCarried.rest.view n hMirror hn]
    exact hStretched.rest n hMirror hTable hn
  · rw [hCarried.identity, hId₂, hStretched.identity]
  · rw [hCarried.modified]
    refine hMod₂.imp_right fun ⟨hSame, hLe⟩ => ?_
    obtain rfl := same_clusters hStretched.longer hNeed (by
      have := hb.size
      rw [hStretched.objsize] at hLe
      omega)
    refine ⟨hSame.trans hMod, ?_, sclust_eq hb hb', rfl⟩
    rw [hSize, hFptr, ← hStretched.objsize]
    exact max_eq_left hLe

/-- **`f_lseek`** on an open file. -/
theorem fLseek_eq (hD : D.Reliable) (h : Stored g s U e chains) (hi : chains i = l)
    (hb : Backed g s f l) (hp : Placed g f l) (hValid : f.valid = true) (hErr : f.err = .ok)
    (hOfs : ofs < 2 ^ 32) :
    ∃ f' s' l', fLseek D g f s ofs = (.ok, f', s') ∧ Sought g U e chains i l f s ofs l' f' s' := by
  -- without the right to write, the position stays within the file
  generalize hClip : (if ofs > f.objsize ∧ f.faWrite = false then f.objsize else ofs) = target
  have hTarget : target = if f.faWrite then ofs else min ofs f.objsize := by
    rw [← hClip]
    cases f.faWrite
    · simp only [and_true, Bool.false_eq_true, if_false]
      split <;> omega
    · simp
  have hLe : target ≤ ofs := by
    rw [hTarget]
    split
    · exact le_refl _
    · exact min_le_left _ _
  obtain ⟨nsect, f₁, s₁, l₁, hEq, hStretched, hReached, hMod, hNeed⟩ :=
    seekCluster_eq hD h hi hb hp (show f.faWrite = false → target ≤ f.objsize from fun hMode => by
      rw [hTarget, hMode]
      exact min_le_right _ _)
  have hTop : f₁.fptr < 2 ^ 32 := by
    rcases hReached.target with hAt | ⟨-, hShort, -⟩ <;> omega
  obtain ⟨hb₂, -, -, hFptr₂, hClust₂, -⟩ := hStretched.backed.reach hReached.within hTop
  have hOk : validate f = .ok := by rw [validate, if_pos hValid]
  have hReach : (if f₁.fptr > f₁.objsize then { f₁ with objsize := f₁.fptr, modified := true }
      else f₁) = f₁.reach := rfl
  by_cases hMid : f₁.fptr % 512 ≠ 0
  · have hOwn : g.Owns l₁ nsect := by
      rw [hReached.sect hMid]
      refine sectorNo_owned (pos_div_lt (lt_of_le_of_ne hReached.within fun hEnd => hMid ?_))
      rw [hEnd, Geometry.bcs, ← Nat.mul_assoc, Nat.mul_mod_left]
    obtain ⟨b, s₂, hLoad, hCarried, hb₃⟩ := hb₂.load hD hOwn
    refine ⟨{ f₁.reach with buf := f₁.reach.view s₁.view nsect, sect := nsect, dirty := b }, s₂, l₁, ?_,
      hReached.sought hStretched hb hMod hNeed hTarget hTop hCarried hb₃ hFptr₂ hClust₂ fun _ => rfl⟩
    rw [fLseek, if_neg (not_not.mpr hOk), if_neg (not_not.mpr hErr)]
    simp only [hClip, hEq, ne_eq, not_true_eq_false, if_false, hReach, hLoad]
    rw [if_pos (by rw [hFptr₂]; exact hMid)]
  · refine ⟨f₁.reach, s₁, l₁, ?_, hReached.sought hStretched hb hMod hNeed hTarget hTop
      (Carried.refl ..) hb₂ hFptr₂ hClust₂ fun hc => absurd hc hMid⟩
    rw [fLseek, if_neg (not_not.mpr hOk), if_neg (not_not.mpr hErr)]
    simp only [hClip, hEq, ne_eq, not_true_eq_false, if_false, hReach]
    rw [if_neg (by rw [hFptr₂]; exact hMid)]

end Steps

end Nao.Fat
