import Nao.Fat.Reading

/-!
# FAT volumes — writing a file

`f_write` overwrites a file from its position on and lengthens it at its end, with clusters that
`create_chain` takes from the free ones. A sector that is written in part goes through the
buffer; at the end of the file the buffer still has the bytes of another sector, which then lie
past the end of the file. Whole sectors go to the disk directly, and the buffer is filled again
if it holds one of them.

## Results

* `stretchChain_eq` — the next cluster of a file is there, or is taken, or no cluster is free.
* `writeTurn_eq` — one turn of the loop overwrites the next bytes.
* `fWrite_eq` — `f_write` overwrites as many bytes as it says, nothing else of the volume
  changes, and it writes less than it was asked to only if no cluster is free.
-/

namespace Nao.Fat

open SysLib FatFs Disk

variable {D : Device} {g : Geometry} {s s' s'' : Fatfs} {f f' f'' : Fil} {l l' l'' : List Nat}
  {c n k p r w w' btw ptr : Nat} {mem : Mem}
  {ι : Type*} {U : Nat → Prop} {e : Nat → Nat} {chains : ι → List Nat} {i : ι}

-- ---------------------------------------------------------------------------
-- The volume
-- ---------------------------------------------------------------------------

/-- A volume whose chains are accounted for and whose window is at no sector of theirs, nor of
a free cluster. -/
structure Stored (g : Geometry) (s : Fatfs) (U : Nat → Prop) (e : Nat → Nat) (chains : ι → List Nat) :
    Prop extends Accounted g s U e chains where
  away : ∀ c n, g.Cluster c → ¬ U c → g.InCluster c n → n ≠ s.winsect

theorem Stored.not_foreign (h : Stored g s U e chains) (hc : c ∈ chains i) : ¬ U c := by
  intro hU
  exact (h.foreign c (h.cluster_of_mem hc) hU).2 i hc

theorem Stored.owns_away (h : Stored g s U e chains) (hn : g.Owns (chains i) n) : n ≠ s.winsect := by
  obtain ⟨c, hc, hIn⟩ := hn
  exact h.away c n (h.cluster_of_mem hc) (h.not_foreign hc) hIn

/-- The window is still away from the data after a look at the table or a change of it. -/
theorem Stored.of_place (h : Stored g s U e chains) {chains' : ι → List Nat}
    (hAcc : Accounted g s' U e chains')
    (hPlace : s'.winsect = s.winsect ∨ g.InTable s'.winsect ∨ s'.winsect = noSector) :
    Stored g s' U e chains' where
  toAccounted := hAcc
  away c n hc hU hIn hEq := by
    rcases hPlace with hSame | hTable | hNone
    · exact h.away c n hc hU hIn (hEq.trans hSame)
    · exact hIn.not_table (hEq ▸ hTable)
    · have := hIn.lt_noSector hc
      omega

theorem Stored.look (h : Stored g s U e chains) (hLook : Scanned g s s') (hCoh : Coherent s') :
    Stored g s' U e chains := h.of_place (h.toAccounted.look hLook.toLooked hCoh) hLook.place

/-- A call that allocates nothing. -/
theorem Stored.tend (h : Stored g s U e chains) (hTended : Tended g l s s') (hCoh : Coherent s') :
    Stored g s' U e chains :=
  h.of_place (h.same_table hCoh (fun _ hc => hTended.fat hc) hTended.freeClst) hTended.place

/-- Two chains have no sector in common. -/
theorem Stored.owns_apart (h : Stored g s U e chains) {j : ι} (hn : g.Owns (chains i) n)
    (hn' : g.Owns (chains j) n) : i = j := by
  obtain ⟨c, hc, hIn⟩ := hn
  obtain ⟨c', hc', hIn'⟩ := hn'
  obtain rfl := hIn.unique hIn' (h.cluster_of_mem hc) (h.cluster_of_mem hc')
  exact h.apart i j c hc hc'

/-- A file object with the clusters of a chain. -/
theorem Stored.backed (h : Stored g s U e chains) (hi : chains i = l)
    (hHead : l = [] ∧ f.sclust = 0 ∨ l[0]? = some f.sclust) (hSize : f.objsize ≤ l.length * g.bcs)
    (hSmall : f.objsize < 2 ^ 32) (hOwn : f.sect ≠ 0 → g.Owns l f.sect)
    (hDirty : f.dirty = true → f.sect ≠ 0) (hClean : f.Clean s.view) : Backed g s f l where
  coherent := h.coherent
  chain := by
    refine hHead.imp_right fun hFirst => ?_
    have hNe : chains i ≠ [] := by
      rintro hNil
      rw [← hi, hNil] at hFirst
      exact absurd hFirst (by simp)
    obtain ⟨c, hChain⟩ := h.chain_of_ne hNe
    rw [hi] at hChain
    obtain ⟨t, rfl⟩ := hChain.exists_cons
    obtain rfl : c = f.sclust := Option.some.inj hFirst
    exact hChain
  size := hSize
  small := hSmall
  own := hOwn
  dirty := hDirty
  clean := hClean
  away n hn := h.owns_away (hi ▸ hn)

theorem Backed.head (h : Backed g s f l) : l = [] ∧ f.sclust = 0 ∨ l[0]? = some f.sclust := by
  rcases h.chain with hNil | hChain
  · exact .inl hNil
  · exact .inr (chain_head h hChain.ne_nil)

-- ---------------------------------------------------------------------------
-- What a write does
-- ---------------------------------------------------------------------------

variable [DecidableEq ι]

/-- A cluster whose entry a call on the file `i` does not change: one of another file, or any if
the call takes no new cluster. -/
def Elsewhere (g : Geometry) (chains : ι → List Nat) (i : ι) (l l' : List Nat) (c : Nat) : Prop :=
  g.Cluster c ∧ (l' = l ∨ ∃ j, j ≠ i ∧ c ∈ chains j)

theorem Elsewhere.split (h : Elsewhere g chains i l l'' c) (hLonger : ∃ t, l' = l ++ t)
    (hLonger' : ∃ t, l'' = l' ++ t) : Elsewhere g chains i l l' c ∧
      Elsewhere g (Function.update chains i l') i l' l'' c := by
  obtain ⟨t, rfl⟩ := hLonger
  obtain ⟨t', rfl⟩ := hLonger'
  obtain ⟨hc, hSame | ⟨j, hj, hMem⟩⟩ := h
  · rw [List.append_assoc, List.append_right_eq_self, List.append_eq_nil_iff] at hSame
    obtain ⟨rfl, rfl⟩ := hSame
    simp only [List.append_nil]
    exact ⟨⟨hc, .inl rfl⟩, hc, .inl rfl⟩
  · exact ⟨⟨hc, .inr ⟨j, hj, hMem⟩⟩, hc, .inr ⟨j, hj, by rwa [Function.update_of_ne hj]⟩⟩

/-- The file may have more clusters than before; its bytes are the same. -/
structure Stretched (g : Geometry) (U : Nat → Prop) (e : Nat → Nat) (chains : ι → List Nat) (i : ι)
    (l : List Nat) (f : Fil) (s : Fatfs) (l' : List Nat) (f' : Fil) (s' : Fatfs) : Prop where
  stored   : Stored g s' U e (Function.update chains i l')
  backed   : Backed g s' f' l'
  longer   : ∃ t, l' = l ++ t
  objsize  : f'.objsize = f.objsize
  bytes    : ∀ p < f.objsize, g.octetAt (f'.view s'.view) l' p = g.octetAt (f.view s.view) l p
  rest     : ∀ n, ¬ g.Mirror n → ¬ g.InTable n → ¬ g.Owns l' n → s'.view n = s.view n
  identity : f'.identity = f.identity
  dirty    : f'.dirty = true → f.dirty = true
  neat     : ∀ L : Nat → Prop, (∀ c, L c → Elsewhere g chains i l l' c) → Neat g L s → Neat g L s'

/-- `w` bytes of the memory at `ptr` are written at the position of the file, whose clusters were
`l` and are now `l'`. -/
structure Written (g : Geometry) (U : Nat → Prop) (e : Nat → Nat) (chains : ι → List Nat) (i : ι)
    (mem : Mem) (ptr : Nat) (l : List Nat) (f : Fil) (s : Fatfs) (w : Nat) (l' : List Nat) (f' : Fil)
    (s' : Fatfs) : Prop where
  stored   : Stored g s' U e (Function.update chains i l')
  backed   : Backed g s' f' l'
  longer   : ∃ t, l' = l ++ t
  fptr     : f'.fptr = f.fptr + w
  objsize  : f'.objsize = max f.objsize (f.fptr + w)
  bytes    : ∀ p < f'.objsize, g.octetAt (f'.view s'.view) l' p =
    if f.fptr ≤ p ∧ p < f.fptr + w then mem (ptr + (p - f.fptr)) else g.octetAt (f.view s.view) l p
  rest     : ∀ n, ¬ g.Mirror n → ¬ g.InTable n → ¬ g.Owns l' n → s'.view n = s.view n
  identity : f'.identity = f.identity
  neat     : ∀ L : Nat → Prop, (∀ c, L c → Elsewhere g chains i l l' c) → Neat g L s → Neat g L s'

theorem Stretched.written (h : Stretched g U e chains i l f s l' f' s') (hFptr : f'.fptr = f.fptr)
    (hPos : f.fptr ≤ f.objsize) (mem : Mem) (ptr : Nat) :
    Written g U e chains i mem ptr l f s 0 l' f' s' where
  stored := h.stored
  backed := h.backed
  longer := h.longer
  fptr := hFptr
  objsize := by
    rw [h.objsize]
    omega
  bytes p hp := by
    rw [if_neg (by omega)]
    exact h.bytes p (h.objsize ▸ hp)
  rest := h.rest
  identity := h.identity
  neat := h.neat

theorem Written.refl (h : Stored g s U e chains) (hi : chains i = l) (hb : Backed g s f l)
    (hPos : f.fptr ≤ f.objsize) (mem : Mem) (ptr : Nat) :
    Written g U e chains i mem ptr l f s 0 l f s where
  stored := by
    rw [← hi, Function.update_eq_self]
    exact h
  backed := hb
  longer := ⟨[], (List.append_nil l).symm⟩
  fptr := rfl
  objsize := by omega
  bytes p _ := by rw [if_neg (by omega)]
  rest _ _ _ _ := rfl
  identity := rfl
  neat _ _ hNeat := hNeat

theorem Written.trans (h : Written g U e chains i mem ptr l f s w l' f' s')
    (h' : Written g U e (Function.update chains i l') i mem (ptr + w) l' f' s' w' l'' f'' s'') :
    Written g U e chains i mem ptr l f s (w + w') l'' f'' s'' where
  stored := by
    have hStored := h'.stored
    rwa [Function.update_idem] at hStored
  backed := h'.backed
  longer := by
    obtain ⟨t, rfl⟩ := h.longer
    obtain ⟨t', rfl⟩ := h'.longer
    exact ⟨t ++ t', List.append_assoc ..⟩
  fptr := by rw [h'.fptr, h.fptr, Nat.add_assoc]
  objsize := by
    rw [h'.objsize, h.objsize, h.fptr]
    omega
  bytes p hp := by
    have hSize' := h'.objsize
    have hSize := h.objsize
    have hFptr := h.fptr
    rw [h'.bytes p hp]
    by_cases hSecond : f'.fptr ≤ p ∧ p < f'.fptr + w'
    · rw [if_pos hSecond, if_pos (by omega)]
      congr 1
      omega
    · rw [if_neg hSecond, h.bytes p (by omega)]
      by_cases hFirst : f.fptr ≤ p ∧ p < f.fptr + w
      · rw [if_pos hFirst, if_pos (by omega)]
      · rw [if_neg hFirst, if_neg (by omega)]
  rest n hMirror hTable hn := by
    obtain ⟨t', hLonger⟩ := h'.longer
    rw [h'.rest n hMirror hTable hn]
    exact h.rest n hMirror hTable fun hOwn => hn (hLonger ▸ hOwn.append t')
  identity := h'.identity.trans h.identity
  neat L hL hNeat :=
    h'.neat L (fun c hc => ((hL c hc).split h.longer h'.longer).2)
      (h.neat L (fun c hc => ((hL c hc).split h.longer h'.longer).1) hNeat)

/-- A write after a step that carries the bytes over. -/
theorem Carried.then_written (h : Carried g l f s f' s') (hFptr : f'.fptr = f.fptr)
    (hPos : f.fptr ≤ f.objsize) (hb : Backed g s f l)
    (h' : Written g U e chains i mem ptr l f' s' w l' f'' s'') :
    Written g U e chains i mem ptr l f s w l' f'' s'' where
  stored := h'.stored
  backed := h'.backed
  longer := h'.longer
  fptr := by rw [h'.fptr, hFptr]
  objsize := by rw [h'.objsize, h.objsize, hFptr]
  bytes p hp := by
    have hNew := h'.objsize
    have hSame := h.objsize
    have hSize := hb.size
    rw [h'.bytes p hp, hFptr]
    by_cases hRange : f.fptr ≤ p ∧ p < f.fptr + w
    · rw [if_pos hRange, if_pos hRange]
    · rw [if_neg hRange, if_neg hRange]
      exact octetAt_congr (by omega) h.bytes
  rest n hMirror hTable hn := by
    obtain ⟨t, hLonger⟩ := h'.longer
    rw [h'.rest n hMirror hTable hn]
    exact h.rest.view n hMirror fun hOwn => hn (hLonger ▸ hOwn.append t)
  identity := h'.identity.trans h.identity
  neat L hL hNeat := h'.neat L hL (h.rest.neat L (fun c hc => (hL c hc).1) hNeat)

-- ---------------------------------------------------------------------------
-- The next cluster
-- ---------------------------------------------------------------------------

omit [DecidableEq ι] in
/-- `create_chain` in the middle of a chain follows it. -/
theorem createChain_next (hD : D.Reliable) (h : Coherent s) (hc : g.Cluster c)
    (hNext : g.Cluster (g.fat s.view c)) :
    ∃ s', createChain D g s c = (g.fat s.view c, s') ∧ Scanned g s s' ∧ Coherent s' := by
  obtain ⟨s', hEq, hLook, hCoh⟩ := getFat_scanned hD h hc
  refine ⟨s', ?_, hLook, hCoh⟩
  have hLo := hc.1
  have hLo' := hNext.1
  rw [createChain, if_neg (by omega)]
  simp only [hEq]
  rw [if_neg (by omega), if_neg (fat_ne_diskError g _ _), if_pos hNext.2]

omit [DecidableEq ι] in
/-- The position is in one of the clusters, or at their end. -/
theorem Backed.position_le (h : Backed g s f l) (hPos : f.fptr ≤ f.objsize) :
    f.fptr / g.bcs ≤ l.length := by
  have hSize := h.size
  rw [Nat.div_le_iff_le_mul_add_pred (bcs_pos g), Nat.mul_comm]
  omega

omit [DecidableEq ι] in
theorem Backed.sclust_ne (h : Backed g s f l) (hl : l ≠ []) : f.sclust ≠ 0 := by
  have hFirst := h.cluster_of_mem (List.mem_of_getElem? (chain_head h hl))
  have := hFirst.1
  omega

/-- On a cluster boundary within the clusters of the file: the next of them. -/
theorem stretchChain_within (hD : D.Reliable) (h : Stored g s U e chains) (hi : chains i = l)
    (hb : Backed g s f l) (hp : Placed g f l) (hSector : f.fptr % 512 = 0)
    (hCluster : f.fptr / 512 % g.csize = 0) (hIn : f.fptr / g.bcs < l.length) (mem : Mem) (ptr : Nat) :
    ∃ f' s', stretchChain D g f s = (.ok, true, f', s') ∧
      Written g U e chains i mem ptr l f s 0 l f' s' ∧ l[f.fptr / g.bcs]? = some f'.clust := by
  obtain ⟨c, hc⟩ : ∃ c, l[f.fptr / g.bcs]? = some c := ⟨_, List.getElem?_eq_getElem hIn⟩
  have hCl : g.Cluster c := hb.cluster_of_mem (List.mem_of_getElem? hc)
  have hl : l ≠ [] := List.length_pos_iff.mp (Nat.zero_lt_of_lt hIn)
  have hFirst := hb.sclust_ne hl
  -- the chain is followed, whichever way
  have hFollow : ∃ s', (if f.fptr = 0 then if f.sclust = 0 then createChain D g s 0 else (f.sclust, s)
      else createChain D g s f.clust) = (c, s') ∧ Scanned g s s' ∧ Coherent s' := by
    by_cases hZero : f.fptr = 0
    · refine ⟨s, ?_, Scanned.refl g s, hb.coherent⟩
      rw [hZero, Nat.zero_div] at hc
      rw [if_pos hZero, if_neg hFirst, Option.some.inj ((chain_head hb hl).symm.trans hc)]
    · have hPrev := pred_div_bcs (g := g) (Nat.pos_of_ne_zero hZero) hSector hCluster
      have hClust := hp.clust (Nat.pos_of_ne_zero hZero)
      have hNext : g.fat s.view f.clust = c := chain_next hb hClust (hPrev ▸ hc)
      obtain ⟨s', hEq, hLook, hCoh⟩ := createChain_next hD hb.coherent
        (hb.cluster_of_mem (List.mem_of_getElem? hClust)) (hNext ▸ hCl)
      exact ⟨s', by rw [if_neg hZero, hEq, hNext], hLook, hCoh⟩
  obtain ⟨s', hEq, hLook, hCoh⟩ := hFollow
  obtain ⟨hZero, hInt, hDisk⟩ := not_or.mp hCl.not_code |>.imp_right not_or.mp
  obtain ⟨hCarried, hBacked⟩ := hb.look hLook hCoh
  refine ⟨{ f with clust := c }, s', ?_, ?_, hc⟩
  · rw [stretchChain, hEq]
    simp only [if_neg hZero, if_neg hInt, if_neg hDisk, if_neg hFirst]
  · exact (hCarried.move f.fptr c).then_written rfl hp.pos hb
      (.refl (h.look hLook hCoh) hi (hBacked.move f.fptr c) hp.pos mem ptr)

/-- `create_chain` at the end of a file: one more cluster, or none is free. -/
theorem createChain_tail (hD : D.Reliable) (h : Stored g s U e chains) (hi : chains i = l)
    (hb : Backed g s f l) :
    (∃ s', createChain D g s (tailOf l) = (0, s') ∧ Scanned g s s' ∧ Coherent s' ∧
      ∀ c, g.Cluster c → g.fat s.view c ≠ 0) ∨
    ∃ ncl s', createChain D g s (tailOf l) = (ncl, s') ∧ g.Cluster ncl ∧
      Stretched g U e chains i l f s (l ++ [ncl])
        { f with clust := ncl, sclust := if f.sclust = 0 then ncl else f.sclust } s' := by
  have hExtend := h.toAccounted.extend hD i
  rw [hi] at hExtend
  have hTail : tailOf l = 0 ∨ g.Cluster (tailOf l) := by
    by_cases hl : l = []
    · exact .inl (by rw [hl]; rfl)
    · exact .inr (hb.cluster_of_mem (tailOf_mem hl))
  rcases hExtend with ⟨s', hEq, hLook, hAcc, hFull⟩ | ⟨ncl, s', hEq, hNcl, hFree, hGrown, hAcc⟩
  · refine .inl ⟨s', hEq, ⟨hLook, fun L hL hNeat => ?_⟩, hAcc.coherent, hFull⟩
    exact createChain_neat hD h.coherent hNeat hL hTail hEq (.inl rfl)
  · have hStored : Stored g s' U e (Function.update chains i (l ++ [ncl])) :=
      h.of_place hAcc hGrown.place
    have hView : ∀ n, g.Owns l n → s'.view n = s.view n := fun n hn =>
      hGrown.view n hn.not_table hn.not_mirror
    have hSize := hb.size
    refine .inr ⟨ncl, s', hEq, hNcl, ⟨hStored, ?_, ⟨[ncl], rfl⟩, rfl, ?_, ?_, rfl, id, ?_⟩⟩
    · refine hStored.backed (Function.update_self ..) (.inr ?_) ?_ hb.small
        (fun hSect => (hb.own hSect).append _) hb.dirty ?_
      · -- the first cluster is the old one, if there was one
        rcases hb.head with ⟨rfl, hNone⟩ | hHead
        · show some ncl = some _
          rw [if_pos hNone]
        · have hl : l ≠ [] := by
            rintro rfl
            exact absurd hHead (by simp)
          show (l ++ [ncl])[0]? = some _
          rw [if_neg (hb.sclust_ne hl), List.getElem?_append_left (List.length_pos_iff.mpr hl), hHead]
      · show f.objsize ≤ _
        rw [List.length_append, Nat.add_mul]
        omega
      · intro hFlag hSect
        show f.buf = _
        rw [hView _ (hb.own hSect)]
        exact hb.clean hFlag hSect
    · intro p hLt
      have hIn : p < l.length * g.bcs := lt_of_lt_of_le hLt hSize
      rw [octetAt_append _ _ hIn]
      refine octetAt_congr hIn fun n hn => ?_
      show (if f.dirty = true ∧ n = f.sect then f.buf else s'.view n) = _
      rw [hView n hn]
      rfl
    · intro n hMirror hTable _
      exact hGrown.view n hTable hMirror
    · intro L hL hNeat
      refine createChain_neat hD h.coherent hNeat (fun c hc => (hL c hc).1) hTail hEq (.inr fun c hc => ?_)
      -- the clusters of other files are in use, and the tail is not one of them
      obtain ⟨hCl, hSame | ⟨j, hj, hMem⟩⟩ := hL c hc
      · exact absurd hSame (by simp)
      · refine ⟨?_, (h.used c hCl).mpr (.inl ⟨j, hMem⟩)⟩
        rintro rfl
        have hl : l ≠ [] := by
          rintro rfl
          exact absurd hCl.1 (by decide)
        exact hj (h.apart j i _ hMem (hi.symm ▸ tailOf_mem hl))

omit [DecidableEq ι] in
theorem tailOf_eq (hc : l[l.length - 1]? = some c) : tailOf l = c := by
  rw [← List.getLast?_eq_getElem?] at hc
  rw [tailOf, List.getLastD_eq_getLast?, hc]
  rfl

/-- At the end of the clusters: one more, or none is free. -/
theorem stretchChain_end (hD : D.Reliable) (h : Stored g s U e chains) (hi : chains i = l)
    (hb : Backed g s f l) (hp : Placed g f l) (hSector : f.fptr % 512 = 0)
    (hCluster : f.fptr / 512 % g.csize = 0) (hEnd : f.fptr / g.bcs = l.length) (mem : Mem) (ptr : Nat) :
    (∃ s', stretchChain D g f s = (.ok, false, f, s') ∧ Scanned g s s' ∧ Coherent s' ∧
      ∀ c, g.Cluster c → g.fat s.view c ≠ 0) ∨
    ∃ f' s' l', stretchChain D g f s = (.ok, true, f', s') ∧
      Written g U e chains i mem ptr l f s 0 l' f' s' ∧ l'[f.fptr / g.bcs]? = some f'.clust := by
  -- the chain is stretched at its last cluster, or started
  have hTail : (if f.fptr = 0 then if f.sclust = 0 then createChain D g s 0 else (f.sclust, s)
      else createChain D g s f.clust) = createChain D g s (tailOf l) := by
    by_cases hZero : f.fptr = 0
    · rw [hZero, Nat.zero_div] at hEnd
      obtain rfl := List.length_eq_zero_iff.mp hEnd.symm
      have hNone : f.sclust = 0 := by
        rcases hb.chain with ⟨-, hNone⟩ | hChain
        · exact hNone
        · exact absurd rfl hChain.ne_nil
      rw [if_pos hZero, if_pos hNone]
      rfl
    · have hPrev := pred_div_bcs (g := g) (Nat.pos_of_ne_zero hZero) hSector hCluster
      have hClust := hp.clust (Nat.pos_of_ne_zero hZero)
      rw [Nat.eq_sub_of_add_eq (hPrev.trans hEnd)] at hClust
      rw [if_neg hZero, tailOf_eq hClust]
  rw [stretchChain, hTail]
  rcases createChain_tail hD h hi hb with ⟨s', hEq, hLook, hCoh, hFull⟩ |
    ⟨ncl, s', hEq, hNcl, hStretched⟩
  · refine .inl ⟨s', ?_, hLook, hCoh, hFull⟩
    simp only [hEq, if_true]
  · obtain ⟨hZero, hInt, hDisk⟩ := not_or.mp hNcl.not_code |>.imp_right not_or.mp
    refine .inr ⟨_, s', l ++ [ncl], ?_, hStretched.written rfl hp.pos mem ptr, ?_⟩
    · simp only [hEq, if_neg hZero, if_neg hInt, if_neg hDisk]
    · show (l ++ [ncl])[f.fptr / g.bcs]? = some ncl
      rw [hEnd, List.getElem?_concat_length]

-- ---------------------------------------------------------------------------
-- Whole sectors
-- ---------------------------------------------------------------------------

omit [DecidableEq ι] in
/-- Bytes up to the end of a cluster of the file are bytes of its clusters. -/
theorem end_le (hc : l[p / g.bcs]? = some c) (hPos : 0 < r)
    (hr : r + p % 512 ≤ 512 * (g.csize - p / 512 % g.csize)) : p + r ≤ l.length * g.bcs := by
  have hIndex : (p + r - 1) / g.bcs < l.length := by
    rw [last_same_cluster hPos hr]
    exact (List.getElem?_eq_some_iff.mp hc).1
  have hLt := (Nat.div_lt_iff_lt_mul (bcs_pos g)).mp hIndex
  omega

omit [DecidableEq ι] in
/-- The sectors of a run within a cluster, among those of the file. -/
theorem sectorNo_mem_run (h : Backed g s f l) {k₀ cc : Nat} (hk : k < l.length * g.csize)
    (hRun : k₀ + cc ≤ l.length * g.csize) (hcc : cc ≤ g.csize - k₀ % g.csize) :
    g.sectorNo l k₀ ≤ g.sectorNo l k ∧ g.sectorNo l k < g.sectorNo l k₀ + cc ↔
      k₀ ≤ k ∧ k < k₀ + cc := by
  constructor
  · rintro ⟨hLo, hHi⟩
    have hj : g.sectorNo l k - g.sectorNo l k₀ < cc := by omega
    have hAdd := sectorNo_add (g := g) (k := k₀) l
      (j := g.sectorNo l k - g.sectorNo l k₀) (by omega)
    have hEq := sectorNo_inj h.nodup (fun _ hc => h.cluster_of_mem hc) hk
      (show k₀ + (g.sectorNo l k - g.sectorNo l k₀) < l.length * g.csize by omega) (by omega)
    omega
  · rintro ⟨hLo, hHi⟩
    have hAdd := sectorNo_add (g := g) (k := k₀) l (j := k - k₀) (by omega)
    have hk' : k₀ + (k - k₀) = k := by omega
    rw [hk'] at hAdd
    omega

omit [DecidableEq ι] in
/-- Whole sectors to the disk: the buffer is filled again if it holds one of them. -/
theorem writeDirect_eq (hD : D.Reliable) (hb : Backed g s f l) (hFlag : f.dirty = false)
    {sect cc : Nat} (hOwn : ∀ n, sect ≤ n → n < sect + cc → g.Owns l n) (hEnd : sect + cc ≤ 2 ^ 32)
    (mem : Mem) (ptr : Nat) :
    ∃ buf s', writeDirect D f s sect cc mem ptr = (.ok, { f with buf := buf, dirty := false }, s') ∧
      s'.view = SectorArray.write s.view sect cc (fun i => sectorAt mem (ptr + 512 * i)) ∧
      (f.sect ≠ 0 → buf = s'.view f.sect) ∧ Coherent s' ∧ Tended g l s s' := by
  obtain ⟨s', hEq, hView, hCoh, hSame⟩ := diskWrite_eq hD hb.coherent sect cc
    (fun i => sectorAt mem (ptr + 512 * i)) fun n hLo hHi => hb.away n (hOwn n hLo hHi)
  have hTended : Tended g l s s' := by
    refine hSame.tended fun n hn => ?_
    rw [hView, SectorArray.write, if_neg fun hc => hn (hOwn n hc.1 hc.2)]
  have hSect : f.sect < 2 ^ 32 := by
    by_cases hZero : f.sect = 0
    · omega
    · have := hb.owns_lt (hb.own hZero)
      unfold noSector at this
      omega
  simp only [writeDirect, hEq, ne_eq, not_true_eq_false, if_false]
  by_cases hIn : sub32 f.sect sect < cc
  · have hRange := (sub32_lt_iff hSect hEnd).mp hIn
    rw [if_pos hIn]
    refine ⟨_, s', rfl, hView, fun _ => ?_, hCoh, hTended⟩
    rw [hView, SectorArray.write, if_pos hRange, sub32_of_le hRange.1 hSect]
  · rw [if_neg hIn]
    refine ⟨f.buf, s', by rw [← hFlag], hView, fun hZero => ?_, hCoh, hTended⟩
    rw [hView, SectorArray.write, if_neg fun hc => hIn ((sub32_lt_iff hSect hEnd).mpr hc)]
    exact hb.clean hFlag hZero

/-- The position and the size after `w` bytes. -/
def Fil.grow (f : Fil) (w : Nat) : Fil :=
  { f with fptr := f.fptr + w, objsize := if f.fptr + w > f.objsize then f.fptr + w else f.objsize }

omit [DecidableEq ι] in
theorem Fil.grow_objsize (f : Fil) (w : Nat) : (f.grow w).objsize = max f.objsize (f.fptr + w) := by
  show (if f.fptr + w > f.objsize then f.fptr + w else f.objsize) = _
  split <;> omega

omit [DecidableEq ι] in
/-- A position after bytes written in a cluster of the file. -/
theorem Placed.grow (hc : l[f.fptr / g.bcs]? = some f.clust) (hPos : 0 < w)
    (hw : w + f.fptr % 512 ≤ 512 * (g.csize - f.fptr / 512 % g.csize))
    (hSect : (f.fptr + w) % 512 ≠ 0 → f.sect = g.sectorNo l ((f.fptr + w) / 512)) :
    Placed g (f.grow w) l where
  pos := by
    rw [Fil.grow_objsize]
    exact le_max_right _ _
  clust _ := by
    show l[(f.fptr + w - 1) / g.bcs]? = some f.clust
    rw [last_same_cluster hPos hw]
    exact hc
  sect := hSect

theorem written_direct (hD : D.Reliable) (h : Stored g s U e chains) (hi : chains i = l)
    (hb : Backed g s f l) (hFlag : f.dirty = false) (hc : l[f.fptr / g.bcs]? = some f.clust)
    (hSector : f.fptr % 512 = 0) {cc : Nat} (hPos : 0 < cc)
    (hcc : cc ≤ g.csize - f.fptr / 512 % g.csize) (hSmall : f.fptr + 512 * cc < 2 ^ 32)
    (mem : Mem) (ptr : Nat) :
    ∃ f' s', writeDirect D f s (g.sectorNo l (f.fptr / 512)) cc mem ptr = (.ok, f', s') ∧
      Written g U e chains i mem ptr l f s (512 * cc) l (f'.grow (512 * cc)) s' ∧
      Placed g (f'.grow (512 * cc)) l := by
  have hEnd := end_le hc (show 0 < 512 * cc by omega) (by omega)
  have hSize := hb.size
  have hRun : f.fptr / 512 + cc ≤ l.length * g.csize := by
    have : (f.fptr + 512 * cc - 1) / 512 < l.length * g.csize := pos_div_lt (by omega)
    omega
  have hAdd : ∀ j < cc, g.sectorNo l (f.fptr / 512 + j) = g.sectorNo l (f.fptr / 512) + j :=
    fun j hj => sectorNo_add l (by omega)
  have hOwn : ∀ n, g.sectorNo l (f.fptr / 512) ≤ n → n < g.sectorNo l (f.fptr / 512) + cc →
      g.Owns l n := by
    intro n hLo hHi
    have hn : n = g.sectorNo l (f.fptr / 512 + (n - g.sectorNo l (f.fptr / 512))) := by
      rw [hAdd _ (by omega)]
      omega
    rw [hn]
    exact sectorNo_owned (by omega)
  have hLast := hb.owns_lt (hOwn _ (Nat.le_add_right _ (cc - 1)) (by omega))
  unfold noSector at hLast
  obtain ⟨buf, s', hEq, hView, hBuf, hCoh, hTended⟩ :=
    writeDirect_eq hD hb hFlag hOwn (by omega) mem ptr
  refine ⟨_, s', hEq, ⟨?_, ?_, ⟨[], (List.append_nil l).symm⟩, rfl, Fil.grow_objsize .., ?_, ?_, rfl,
    fun L hL => hTended.neat L fun c hc => (hL c hc).1⟩, ?_⟩
  · rw [← hi, Function.update_eq_self]
    exact h.tend hTended hCoh
  · refine (h.tend hTended hCoh).backed hi hb.head ?_ ?_ hb.own (fun hc => Bool.noConfusion hc)
      fun _ hSect => hBuf hSect
    · rw [Fil.grow_objsize]
      exact max_le hSize hEnd
    · rw [Fil.grow_objsize]
      exact max_lt hb.small hSmall
  · -- byte by byte: a position is in the run exactly if its sector is
    intro p hp
    rw [Fil.grow_objsize] at hp
    have hIn : p < l.length * g.bcs := lt_of_lt_of_le hp (max_le hSize hEnd)
    have hMem := sectorNo_mem_run hb (pos_div_lt hIn) hRun hcc
    rw [Fil.view_of_clean _ rfl, Fil.view_of_clean _ hFlag]
    unfold Geometry.octetAt
    rw [hView, SectorArray.write]
    by_cases hRange : f.fptr ≤ p ∧ p < f.fptr + 512 * cc
    · have hk : f.fptr / 512 ≤ p / 512 ∧ p / 512 < f.fptr / 512 + cc := by omega
      have hNo : g.sectorNo l (p / 512) - g.sectorNo l (f.fptr / 512) = p / 512 - f.fptr / 512 := by
        have := hAdd (p / 512 - f.fptr / 512) (by omega)
        rw [Nat.add_sub_cancel' hk.1] at this
        omega
      rw [if_pos (hMem.mpr hk), if_pos hRange, hNo, octet_sectorAt _ _ (Nat.mod_lt _ (by omega))]
      congr 1
      omega
    · rw [if_neg fun hc => hRange (by have := hMem.mp hc; omega), if_neg hRange]
  · intro n hMirror _ hn
    exact hTended.view n hMirror hn
  · refine Placed.grow hc (by omega)
      (show 512 * cc + f.fptr % 512 ≤ 512 * (g.csize - f.fptr / 512 % g.csize) by omega)
      fun hMid => absurd ?_ hMid
    show (f.fptr + 512 * cc) % 512 = 0
    omega

-- ---------------------------------------------------------------------------
-- Part of a sector
-- ---------------------------------------------------------------------------

/-- The bytes go into the buffer, which has the sector of the position, or is to have it: at the
end of the file it may hold anything. -/
theorem written_part (h : Stored g s U e chains) (hi : chains i = l) (hb : Backed g s f l)
    (hc : l[f.fptr / g.bcs]? = some f.clust) (hFptr : f.fptr ≤ f.objsize)
    (hOther : ∀ n, n ≠ g.sectorNo l (f.fptr / 512) → f.view s.view n = s.view n) (buf : Sector)
    (hBuf : ∀ p < f.objsize, p / 512 = f.fptr / 512 →
      octet buf (p % 512) = g.octetAt (f.view s.view) l p)
    (hPos : 0 < btw) (hSmall : f.fptr + btw < 2 ^ 32) (mem : Mem) (ptr : Nat) :
    ∃ w f', writePart { f with sect := g.sectorNo l (f.fptr / 512), buf := buf } btw mem ptr = (w, f') ∧
      0 < w ∧ w ≤ btw ∧ Written g U e chains i mem ptr l f s w l (f'.grow w) s ∧
      Placed g (f'.grow w) l := by
  have hMod := Nat.mod_lt (f.fptr / 512) (csize_pos g)
  have hSize := hb.size
  generalize hw : min (512 - f.fptr % 512) btw = w
  have hOne : 1 ≤ g.csize - f.fptr / 512 % g.csize := by omega
  have hEnd := end_le hc (show 0 < w by omega) (by omega)
  have hk : f.fptr / 512 < l.length * g.csize := by
    have : (f.fptr + w - 1) / 512 < l.length * g.csize := pos_div_lt (by omega)
    omega
  have hOwn : g.Owns l (g.sectorNo l (f.fptr / 512)) := sectorNo_owned hk
  refine ⟨w, { f with
      sect := g.sectorNo l (f.fptr / 512), buf := patch buf (f.fptr % 512) w mem ptr, dirty := true },
    by simp only [writePart, hw], by omega, by omega, ⟨?_, ?_, ⟨[], (List.append_nil l).symm⟩,
    rfl, Fil.grow_objsize .., ?_, fun _ _ _ _ => rfl, rfl, fun _ _ hNeat => hNeat⟩, ?_⟩
  · rw [← hi, Function.update_eq_self]
    exact h
  · refine h.backed hi hb.head ?_ ?_ (fun _ => hOwn) (fun _ => hOwn.pos)
      fun hClean => Bool.noConfusion hClean
    · rw [Fil.grow_objsize]
      exact max_le hSize hEnd
    · rw [Fil.grow_objsize]
      refine max_lt hb.small ?_
      show f.fptr + w < 2 ^ 32
      omega
  · intro p hp
    rw [Fil.grow_objsize] at hp
    have hp' : p < max f.objsize (f.fptr + w) := hp
    have hIn : p < l.length * g.bcs := by omega
    show octet (if true = true ∧ g.sectorNo l (p / 512) = g.sectorNo l (f.fptr / 512) then
      patch buf (f.fptr % 512) w mem ptr else s.view (g.sectorNo l (p / 512))) (p % 512) = _
    by_cases hSame : p / 512 = f.fptr / 512
    · -- in the sector of the position
      rw [if_pos ⟨rfl, by rw [hSame]⟩, octet_patch _ _ _ (Nat.mod_lt _ (by omega))]
      by_cases hRange : f.fptr ≤ p ∧ p < f.fptr + w
      · rw [if_pos (by omega), if_pos hRange]
        congr 1
        omega
      · rw [if_neg (by omega), if_neg hRange]
        exact hBuf p (by omega) hSame
    · have hNe : g.sectorNo l (p / 512) ≠ g.sectorNo l (f.fptr / 512) := fun hc => hSame
        (sectorNo_inj hb.nodup (fun _ hc => hb.cluster_of_mem hc) (pos_div_lt hIn) hk hc)
      rw [if_neg fun hc => hNe hc.2, if_neg (by omega), Geometry.octetAt, hOther _ hNe]
  · refine Placed.grow hc (by omega) ?_ fun hMid => ?_
    · show w + f.fptr % 512 ≤ 512 * (g.csize - f.fptr / 512 % g.csize)
      omega
    · have hMid' : (f.fptr + w) % 512 ≠ 0 := hMid
      have hSame : (f.fptr + w) / 512 = f.fptr / 512 := by omega
      show g.sectorNo l (f.fptr / 512) = g.sectorNo l ((f.fptr + w) / 512)
      rw [hSame]

-- ---------------------------------------------------------------------------
-- A turn of the loop
-- ---------------------------------------------------------------------------

omit [DecidableEq ι] in
/-- The buffer is written back. -/
theorem Backed.save (hD : D.Reliable) (h : Backed g s f l) :
    ∃ s', writeBack D f s = (.ok, { f with dirty := false }, s') ∧
      Carried g l f s { f with dirty := false } s' ∧ Backed g s' { f with dirty := false } l := by
  obtain ⟨s', hEq, hView, hCoh, hSame⟩ := writeBack_eq hD h.coherent h.dirty_away
  have hCarried : Carried g l f s { f with dirty := false } s' := by
    refine ⟨fun n _ => ?_, hSame.tended fun n hn => ?_, rfl, rfl, rfl, rfl,
      fun hc => Bool.noConfusion hc⟩
    · rw [Fil.view_of_clean _ rfl, hView]
    · rw [hView, Fil.view, if_neg fun hc : f.dirty = true ∧ n = f.sect =>
        hn (hc.2.symm ▸ h.own (h.dirty hc.1))]
  refine ⟨s', hEq, hCarried, hCarried.backed h hCoh h.own (fun hc => Bool.noConfusion hc) ?_⟩
  intro _ hSect
  show f.buf = s'.view f.sect
  rw [hView]
  exact h.clean.buf_eq hSect

omit [DecidableEq ι] in
/-- The buffer is to have the sector of the position: it holds it, or reads it, or the position
is at the end of the file. -/
theorem edgeSector_eq (hD : D.Reliable) (h : Backed g s f l) (hFlag : f.dirty = false)
    (hFptr : f.fptr ≤ f.objsize) (hSector : f.fptr % 512 = 0)
    (hOwn : g.Owns l (g.sectorNo l (f.fptr / 512))) :
    ∃ buf s', edgeSector D f s (g.sectorNo l (f.fptr / 512)) =
        (.ok, { f with sect := g.sectorNo l (f.fptr / 512), buf := buf }, s') ∧
      s'.view = s.view ∧ Coherent s' ∧ SameWindow s s' ∧
      ∀ p < f.objsize, p / 512 = f.fptr / 512 → octet buf (p % 512) = g.octetAt (f.view s.view) l p := by
  have hLoaded : ∀ buf, buf = s.view (g.sectorNo l (f.fptr / 512)) → ∀ p < f.objsize,
      p / 512 = f.fptr / 512 → octet buf (p % 512) = g.octetAt (f.view s.view) l p := by
    intro buf hBuf p _ hSame
    rw [Geometry.octetAt, Fil.view_of_clean _ hFlag, hSame, hBuf]
  by_cases hHere : f.sect = g.sectorNo l (f.fptr / 512)
  · refine ⟨f.buf, s, ?_, rfl, h.coherent, SameWindow.refl s, hLoaded _ ?_⟩
    · rw [edgeSector, if_neg fun hc => hc.1 hHere]
      rfl
    · rw [← hHere]
      exact h.clean hFlag (hHere ▸ hOwn.pos)
  · by_cases hMore : f.fptr < f.objsize
    · obtain ⟨s', hEq, hView, hCoh, hSame⟩ := fillBuffer_eq hD h.coherent f (h.away _ hOwn)
      refine ⟨_, s', ?_, hView, hCoh, hSame, hLoaded _ rfl⟩
      rw [edgeSector, if_pos ⟨hHere, hMore⟩, hEq]
      rfl
    · -- past the end of the file nothing is asked of the buffer
      refine ⟨f.buf, s, ?_, rfl, h.coherent, SameWindow.refl s, fun p hp hSame => ?_⟩
      · rw [edgeSector, if_neg fun hc => hMore hc.2]
        rfl
      · omega

/-- The cluster of the position on a sector boundary: there already, or by `stretchChain`. -/
theorem enterWrite_eq (hD : D.Reliable) (h : Stored g s U e chains) (hi : chains i = l)
    (hb : Backed g s f l) (hp : Placed g f l) (hSector : f.fptr % 512 = 0) (mem : Mem) (ptr : Nat) :
    (∃ s', (if f.fptr / 512 &&& (g.csize - 1) = 0 then stretchChain D g f s else (.ok, true, f, s)) =
        (.ok, false, f, s') ∧ Scanned g s s' ∧ Coherent s' ∧ ∀ c, g.Cluster c → g.fat s.view c ≠ 0) ∨
    ∃ f' s' l', (if f.fptr / 512 &&& (g.csize - 1) = 0 then stretchChain D g f s
        else (.ok, true, f, s)) = (.ok, true, f', s') ∧
      Written g U e chains i mem ptr l f s 0 l' f' s' ∧ l'[f.fptr / g.bcs]? = some f'.clust := by
  rw [and_csize]
  by_cases hCluster : f.fptr / 512 % g.csize = 0
  · rw [if_pos hCluster]
    rcases Nat.lt_or_eq_of_le (hb.position_le hp.pos) with hIn | hEnd
    · obtain ⟨f', s', hEq, hWritten, hc⟩ :=
        stretchChain_within hD h hi hb hp hSector hCluster hIn mem ptr
      exact .inr ⟨f', s', l, hEq, hWritten, hc⟩
    · exact stretchChain_end hD h hi hb hp hSector hCluster hEnd mem ptr
  · rw [if_neg hCluster]
    refine .inr ⟨f, s, l, rfl, Written.refl h hi hb hp.pos mem ptr, ?_⟩
    have hPos : 0 < f.fptr := by
      refine Nat.pos_of_ne_zero fun hZero => hCluster ?_
      rw [hZero, Nat.zero_div, Nat.zero_mod]
    rw [← pred_div_bcs_same (.inr hCluster)]
    exact hp.clust hPos

/-- At a sector boundary, in a known cluster, with a clean buffer. -/
theorem writeSectors_eq (hD : D.Reliable) (h : Stored g s U e chains) (hi : chains i = l)
    (hb : Backed g s f l) (hFlag : f.dirty = false) (hc : l[f.fptr / g.bcs]? = some f.clust)
    (hFptr : f.fptr ≤ f.objsize) (hSector : f.fptr % 512 = 0) (hPos : 0 < btw)
    (hSmall : f.fptr + btw < 2 ^ 32) (mem : Mem) (ptr : Nat) :
    ∃ w f' s', writeSectors D g f s (g.sectorNo l (f.fptr / 512)) (f.fptr / 512 % g.csize) btw mem ptr =
        (.ok, some w, f', s') ∧ 0 < w ∧ w ≤ btw ∧
      Written g U e chains i mem ptr l f s w l (f'.grow w) s' ∧ Placed g (f'.grow w) l := by
  have hMod := Nat.mod_lt (f.fptr / 512) (csize_pos g)
  unfold writeSectors
  dsimp only
  by_cases hWhole : btw / 512 > 0
  · -- whole sectors, up to the end of the cluster
    rw [if_pos hWhole]
    generalize hcc : (if f.fptr / 512 % g.csize + btw / 512 > g.csize then
      g.csize - f.fptr / 512 % g.csize else btw / 512) = cc
    have hBounds : 0 < cc ∧ cc ≤ g.csize - f.fptr / 512 % g.csize ∧ cc ≤ btw / 512 := by
      split at hcc <;> omega
    obtain ⟨f', s', hEq, hWritten, hPlaced⟩ := written_direct hD h hi hb hFlag hc hSector hBounds.1
      hBounds.2.1 (by omega) mem ptr
    exact ⟨512 * cc, f', s', by rw [hEq], by omega, by omega, hWritten, hPlaced⟩
  · -- less than a sector: into the buffer
    rw [if_neg hWhole]
    have hIn : f.fptr / 512 < l.length * g.csize := by
      have hEnd := end_le hc (show 0 < 1 by omega) (by omega)
      exact pos_div_lt (by omega)
    obtain ⟨buf, s₁, hEq, hView, hCoh, hSame, hBuf⟩ :=
      edgeSector_eq hD hb hFlag hFptr hSector (sectorNo_owned hIn)
    have hTended : Tended g l s s₁ := hSame.tended fun n _ => by rw [hView]
    have hCarried : Carried g l f s f s₁ := ⟨fun n _ => by rw [hView], hTended, rfl, rfl, rfl, rfl, id⟩
    have hb₁ : Backed g s₁ f l := hCarried.backed hb hCoh hb.own hb.dirty (hView ▸ hb.clean)
    obtain ⟨w, f', hPart, hSome, hFew, hWritten, hPlaced⟩ := written_part (h.tend hTended hCoh) hi hb₁ hc
      hFptr (fun n _ => by rw [Fil.view_of_clean _ hFlag]) buf (hView.symm ▸ hBuf) hPos hSmall mem ptr
    refine ⟨w, f', s₁, ?_, hSome, hFew, hCarried.then_written rfl hFptr hb hWritten, hPlaced⟩
    simp only [hEq, hPart, ne_eq, not_true_eq_false, if_false]

/-- **A turn of the loop of `f_write`.** It writes at least one byte, and no more than are left
to write, or there is no free cluster for them. -/
theorem writeTurn_eq (hD : D.Reliable) (h : Stored g s U e chains) (hi : chains i = l)
    (hb : Backed g s f l) (hp : Placed g f l) (hPos : 0 < btw) (hSmall : f.fptr + btw < 2 ^ 32)
    (mem : Mem) (ptr : Nat) :
    (∃ s', writeTurn D g f s btw mem ptr = (.ok, none, f, s') ∧ Scanned g s s' ∧ Coherent s' ∧
      ∀ c, g.Cluster c → g.fat s.view c ≠ 0) ∨
    ∃ w f' s' l', writeTurn D g f s btw mem ptr = (.ok, some w, f', s') ∧ 0 < w ∧ w ≤ btw ∧
      Written g U e chains i mem ptr l f s w l' (f'.grow w) s' ∧ Placed g (f'.grow w) l' := by
  by_cases hSector : f.fptr % 512 = 0
  · rw [writeTurn, if_pos hSector]
    rcases enterWrite_eq hD h hi hb hp hSector mem ptr with ⟨s₁, hEnter, hLook, hCoh, hFull⟩ |
      ⟨f₁, s₁, l₁, hEnter, hWritten₁, hc⟩
    · refine .inl ⟨s₁, ?_, hLook, hCoh, hFull⟩
      simp only [hEnter]
      rw [if_pos (.inr trivial)]
    · -- the buffer is written back before another sector is written
      have hFptr : f₁.fptr = f.fptr := hWritten₁.fptr
      have hSize : f₁.objsize = max f.objsize (f.fptr + 0) := hWritten₁.objsize
      have hLe : f₁.fptr ≤ f₁.objsize := by omega
      have hb₁ := hWritten₁.backed
      obtain ⟨s₂, hSave, hCarried, hb₂⟩ := hb₁.save hD
      have hStored₂ := hWritten₁.stored.tend hCarried.rest hb₂.coherent
      rw [← hFptr] at hc hSector hSmall
      obtain ⟨hSect, hFirst⟩ := sector_eq hb₁ hc
      obtain ⟨w, f', s₃, hEq, hSome, hFew, hWritten₂, hPlaced⟩ := writeSectors_eq hD hStored₂
        (Function.update_self ..) hb₂ rfl hc hLe hSector hPos hSmall mem ptr
      refine .inr ⟨w, f', s₃, l₁, ?_, hSome, hFew, ?_, hPlaced⟩
      · simp only [hEnter, hSave, ne_eq, not_true_eq_false, false_or, Bool.true_eq_false, if_false,
          if_neg hFirst]
        rw [← hFptr, and_csize, hSect]
        exact hEq
      · have hBoth := hWritten₁.trans (hCarried.then_written rfl hLe hb₁ hWritten₂)
        rwa [Nat.zero_add] at hBoth
  · -- within a sector, which is in the buffer
    have hFptr : 0 < f.fptr := Nat.pos_of_ne_zero fun hZero => hSector (by rw [hZero])
    have hc : l[f.fptr / g.bcs]? = some f.clust := by
      rw [← pred_div_bcs_same (.inl hSector)]
      exact hp.clust hFptr
    have hHere := hp.sect hSector
    obtain ⟨w, f', hPart, hSome, hFew, hWritten, hPlaced⟩ := written_part h hi hb hc
      hp.pos (fun n hn => Fil.view_of_ne _ (hHere ▸ hn)) f.buf (fun p hIn hSame => by
        have hSize := hb.size
        have hOwn : g.Owns l f.sect := by
          rw [hHere, ← hSame]
          exact sectorNo_owned (pos_div_lt (by omega))
        rw [Geometry.octetAt, hSame, ← hHere, ← hb.clean.buf_eq hOwn.pos]) hPos hSmall mem ptr
    refine .inr ⟨w, f', s, l, ?_, hSome, hFew, hWritten, hPlaced⟩
    rw [← hHere] at hPart
    rw [writeTurn, if_neg hSector]
    simp only [hPart]

-- ---------------------------------------------------------------------------
-- f_write
-- ---------------------------------------------------------------------------

/-- The file has been changed. -/
theorem Written.modify (h : Written g U e chains i mem ptr l f s w l' f' s') :
    Written g U e chains i mem ptr l f s w l' { f' with modified := true } s' :=
  ⟨h.stored, ⟨h.backed.coherent, h.backed.chain, h.backed.size, h.backed.small, h.backed.own,
    h.backed.dirty, h.backed.clean, h.backed.away⟩, h.longer, h.fptr, h.objsize, h.bytes, h.rest,
    h.identity, h.neat⟩

omit [DecidableEq ι] in
theorem Placed.modify (h : Placed g f l) : Placed g { f with modified := true } l :=
  ⟨h.pos, h.clust, h.sect⟩

theorem writeLoop_eq (hD : D.Reliable) {turns : Nat} (h : Stored g s U e chains) (hi : chains i = l)
    (hb : Backed g s f l) (hp : Placed g f l) (hSmall : f.fptr + btw < 2 ^ 32) (hTurns : btw ≤ turns)
    (mem : Mem) (ptr bw : Nat) :
    ∃ w f' s' l', writeLoop D g mem ptr turns f s btw bw = (.ok, bw + w, f', s') ∧ w ≤ btw ∧
      Written g U e chains i mem (ptr + bw) l f s w l' f' s' ∧ Placed g f' l' ∧
      f'.modified = true ∧ (w < btw → ∀ c, g.Cluster c → g.fat s'.view c ≠ 0) := by
  induction turns generalizing f s l chains btw bw with
  | zero =>
    refine ⟨0, _, s, l, by rw [writeLoop, Nat.add_zero], by omega,
      (Written.refl h hi hb hp.pos mem _).modify, hp.modify, rfl, by omega⟩
  | succ turns ih =>
    rw [writeLoop]
    by_cases hZero : btw = 0
    · rw [if_pos hZero]
      exact ⟨0, _, s, l, by rw [Nat.add_zero], by omega,
        (Written.refl h hi hb hp.pos mem _).modify, hp.modify, rfl, by omega⟩
    · rw [if_neg hZero]
      rcases writeTurn_eq hD h hi hb hp (Nat.pos_of_ne_zero hZero) hSmall mem (ptr + bw) with
        ⟨s₁, hEq, hLook, hCoh, hFull⟩ | ⟨w, f₁, s₁, l₁, hEq, hSome, hFew, hWritten, hPlaced⟩
      · -- the volume is full
        obtain ⟨hCarried, hb₁⟩ := hb.look hLook hCoh
        refine ⟨0, { f with modified := true }, s₁, l, ?_, by omega, ?_, hp.modify, rfl, ?_⟩
        · simp only [hEq, ne_eq, not_true_eq_false, if_false, Nat.add_zero]
        · exact (hCarried.then_written rfl hp.pos hb
            (.refl (h.look hLook hCoh) hi hb₁ hp.pos mem _)).modify
        · intro _ c hc
          rw [hLook.fat hc]
          exact hFull c hc
      · have hPos : (f₁.grow w).fptr = f.fptr + w := hWritten.fptr
        obtain ⟨w', f₂, s₂, l₂, hEq₂, hFew₂, hWritten₂, hPlaced₂, hMod, hFull⟩ :=
          ih hWritten.stored (Function.update_self ..) hWritten.backed hPlaced
            (show (f₁.grow w).fptr + (btw - w) < 2 ^ 32 by omega) (by omega) (bw + w)
        refine ⟨w + w', f₂, s₂, l₂, ?_, by omega, ?_, hPlaced₂, hMod, fun hLess => hFull (by omega)⟩
        · simp only [hEq, ne_eq, not_true_eq_false, if_false]
          rw [← Nat.add_assoc]
          exact hEq₂
        · rw [← Nat.add_assoc] at hWritten₂
          exact hWritten.trans hWritten₂

/-- **`f_write`** on an open file: the bytes at `ptr`, up to a size of 4 GiB less one byte, take
the place of those from the position on. If they are fewer than asked for, the volume is full. -/
theorem fWrite_eq (hD : D.Reliable) (h : Stored g s U e chains) (hi : chains i = l)
    (hb : Backed g s f l) (hp : Placed g f l) (hValid : f.valid = true) (hErr : f.err = .ok)
    (hMode : f.faWrite = true) (hBtw : btw < 2 ^ 32) (mem : Mem) (ptr : Nat) :
    ∃ w f' s' l', fWrite D g f s mem ptr btw = (.ok, w, f', s') ∧
      w ≤ min btw (2 ^ 32 - 1 - f.fptr) ∧
      Written g U e chains i mem ptr l f s w l' f' s' ∧ Placed g f' l' ∧ f'.modified = true ∧
      (w < min btw (2 ^ 32 - 1 - f.fptr) → ∀ c, g.Cluster c → g.fat s'.view c ≠ 0) := by
  have hPos := hp.pos
  have hSize := hb.small
  have hClip : (if (f.fptr + btw) % 2 ^ 32 < f.fptr then 0xFFFFFFFF - f.fptr else btw) =
      min btw (2 ^ 32 - 1 - f.fptr) := by
    split <;> omega
  obtain ⟨w, f', s', l', hEq, hFew, hWritten, hPlaced, hMod, hFull⟩ := writeLoop_eq hD h hi hb hp
    (show f.fptr + min btw (2 ^ 32 - 1 - f.fptr) < 2 ^ 32 by omega) (le_refl _) mem ptr 0
  rw [Nat.zero_add] at hEq
  refine ⟨w, f', s', l', ?_, hFew, hWritten, hPlaced, hMod, hFull⟩
  simp only [fWrite, validate, hValid, hErr, hMode, hClip, hEq, if_true, ne_eq, not_true_eq_false,
    if_false, Bool.not_true, Bool.false_eq_true]

end Nao.Fat
