import Nao.Fat.Chains

/-!
# FAT volumes — what of the table is on the disk

The table on the disk lags behind the table as it is seen through the window, by the changes made
since the window came to its sector. An entry that has not been changed since is on the disk, also
if it shares a sector, or a byte, with entries that have.

## Results

* `getFat_neat`, `putFat_neat`, `createChain_neat` — entries that are on the disk stay there when
  other entries are read and written.
-/

namespace Nao.Fat

open SysLib FatFs Disk

variable {D : Device} {g : Geometry} {s s' : Fatfs} {c c' clst scl ncl turns k : Nat}
  {L : Nat → Prop}

/-- An entry depends on the sectors of the table only. -/
theorem Geometry.Cluster.fat_congr (hc : g.Cluster c) {v v' : Nat → Sector}
    (h : ∀ n, g.InTable n → v' n = v n) : g.fat v' c = g.fat v c := by
  refine hc.entry_congr fun k hk => ?_
  rw [Geometry.fatByte, h _ ⟨by omega, by omega⟩, Geometry.fatByte]

-- ---------------------------------------------------------------------------
-- The window
-- ---------------------------------------------------------------------------

/-- The entries of the clusters `L` are on the disk, and nothing but the table waits to be
written. -/
structure Neat (g : Geometry) (L : Nat → Prop) (s : Fatfs) : Prop where
  flag    : s.wflag = true → g.InTable s.winsect
  settled : ∀ c, L c → g.fat s.disk c = g.fat s.view c

/-- With a clean window everything is on the disk. -/
theorem neat_of_clean (g : Geometry) (L : Nat → Prop) (h : s.wflag = false) : Neat g L s :=
  ⟨fun hc => absurd (h.symm.trans hc) (by simp), fun _ _ => by rw [view_of_clean h]⟩

theorem Neat.disk_eq (h : Neat g L s) {n : Nat} (hn : ¬ g.InTable n) : s.disk n = s.view n := by
  rw [Fatfs.view, if_neg]
  rintro ⟨hFlag, rfl⟩
  exact hn (h.flag hFlag)

/-- Only the counts of the volume are different. -/
theorem Neat.counts (h : Neat g L s) (last free fsi : Nat) :
    Neat g L { s with lastClst := last, freeClst := free, fsiFlag := fsi } := ⟨h.flag, h.settled⟩

/-- A change of the window in the table, which the entries `L` do not feel. -/
theorem Neat.edit (h : Neat g L s) (f : Sector → Sector) (hPlace : g.InTable s.winsect)
    (hSame : ∀ c, L c → g.fat (s.edit f).view c = g.fat s.view c) : Neat g L (s.edit f) :=
  ⟨fun _ => hPlace, fun c hc => (h.settled c hc).trans (hSame c hc).symm⟩

/-- The window goes to another sector, and is flushed before. -/
theorem moveWindow_neat (hD : D.Reliable) (h : Coherent s) (hNeat : Neat g L s) (sect : Nat) :
    Neat g L (moveWindow D g s sect).2 := by
  by_cases hHere : sect = s.winsect
  · rw [moveWindow, if_neg (not_not.mpr hHere)]
    exact hNeat
  · obtain ⟨res, s₁, hSync, -, -, ⟨rfl, hClean⟩ | ⟨-, -, hFail⟩⟩ := syncWindow_cases D g h
    · rw [moveWindow_elsewhere hHere hSync, if_neg (by simp [hD _])]
      exact neat_of_clean g L hClean
    · exact absurd hFail (by simp [hD _])

-- ---------------------------------------------------------------------------
-- Entries
-- ---------------------------------------------------------------------------

theorem getFat_neat (hD : D.Reliable) (h : Coherent s) (hNeat : Neat g L s) (hc : g.Cluster c) :
    Neat g L (getFat D g s c).2 := by
  have hRange : ¬ (c < 2 ∨ c ≥ g.nFatent) := by
    obtain ⟨hLo, hHi⟩ := hc
    omega
  have hByte := hc.byte_lt
  rw [getFat, if_neg hRange]
  cases hType : g.fsType with
  | fat12 =>
    rw [hType] at hByte
    obtain ⟨res₁, s₁, hEq₁, -, hCoh₁, ⟨rfl, -⟩ | ⟨-, k, hFail⟩⟩ := moveWindow_table D h hByte.1
    · have hNeat₁ := moveWindow_neat hD h hNeat (g.fatbase + (c + c / 2) / 512)
      rw [hEq₁] at hNeat₁
      have hNeat₂ := moveWindow_neat hD hCoh₁ hNeat₁ (g.fatbase + (c + c / 2 + 1) / 512)
      simp only [hEq₁, ne_eq, not_true_eq_false, if_false]
      split
      · exact hNeat₂
      · exact hNeat₂
    · exact absurd hFail (by simp [hD k])
  | fat16 =>
    have hNeat₁ := moveWindow_neat hD h hNeat (g.fatbase + c / 256)
    dsimp only
    split
    · exact hNeat₁
    · exact hNeat₁
  | fat32 =>
    have hNeat₁ := moveWindow_neat hD h hNeat (g.fatbase + c / 128)
    dsimp only
    split
    · exact hNeat₁
    · exact hNeat₁

/-- A sector of the table is brought up and changed, so that the entries `L` do not feel it. -/
theorem changeTable_neat (hD : D.Reliable) (h : Coherent s) (hNeat : Neat g L s)
    (hL : ∀ c, L c → g.Cluster c) (hk : k < g.fsize) (f : Sector → Sector)
    (hMove : moveWindow D g s (g.fatbase + k) = (.ok, s'))
    (hSame : ∀ c, L c → g.fat (s'.edit f).view c = g.fat s.view c) : Neat g L (s'.edit f) := by
  obtain ⟨res, s₁, hEq, hLook, -, hRes⟩ := moveWindow_table (g := g) D h hk
  obtain ⟨rfl, rfl⟩ := Prod.mk.inj (hMove.symm.trans hEq)
  rcases hRes with ⟨-, hSect, -⟩ | ⟨-, k, hFail⟩
  · have hNeat₁ := moveWindow_neat hD h hNeat (g.fatbase + k)
    rw [hMove] at hNeat₁
    refine hNeat₁.edit f (hSect ▸ ⟨by omega, by omega⟩) fun c hc => ?_
    rw [hSame c hc, hLook.fat (hL c hc)]
  · exact absurd hFail (by simp [hD k])

theorem putFat_neat (hD : D.Reliable) (h : Coherent s) (hNeat : Neat g L s)
    (hL : ∀ c, L c → g.Cluster c) (hc : g.Cluster c) (hNot : ¬ L c) (v : Nat) :
    Neat g L (putFat D g s c v).2 := by
  obtain ⟨s', hEq, -, -, -, hOther⟩ := putFat_eq hD h hc v
  have hKeep : ∀ x, L x → g.fat s'.view x = g.fat s.view x := by
    intro x hx
    refine hOther x (hL x hx) ?_
    rintro rfl
    exact hNot hx
  have hRange : 2 ≤ c ∧ c < g.nFatent := hc
  have hByte := hc.byte_lt
  rw [hEq]
  rw [putFat, if_pos hRange] at hEq
  cases hType : g.fsType with
  | fat12 =>
    rw [hType] at hByte
    simp only [hType] at hEq
    obtain ⟨res₁, s₁, hMove₁, ⟨rfl, hOld₁, e₁, hEdit₁, -, hCoh₁, hBytes₁⟩ | ⟨-, -, -, k, hFail⟩⟩ :=
      changeByte (g := g) D h hByte.1 fun p =>
        if c &&& 1 ≠ 0 then (p &&& 0x0F) ||| (v % 2 ^ 8) <<< 4 else v
    · -- the first byte: the entries `L` do not feel it
      have hValue : (if c &&& 1 ≠ 0 then (g.fatByte s.view (c + c / 2) &&& 0x0F) ||| (v % 2 ^ 8) <<< 4
          else v) % 2 ^ 8 = if c % 2 = 1 then
            g.fatByte s.view (c + c / 2) % 2 ^ 4 + 2 ^ 4 * (v % 2 ^ 4) else v % 2 ^ 8 := by
        simp only [and_one_ne_zero]
        split
        · exact lowNibble_or _ _
        · rfl
      rw [hValue] at hBytes₁
      have hFirst : ∀ x, L x → g.fat e₁.view x = g.fat s.view x := by
        intro x hx
        rw [Geometry.fat, (hL x hx).entry_congr hBytes₁, Geometry.fat, hType]
        refine entry_fat12_first (fatByte_lt g s.view) ?_
        rintro rfl
        exact hNot hx
      have hNeat₁ : Neat g L e₁ := by
        rw [← hEdit₁]
        exact changeTable_neat hD h hNeat hL hByte.1 _ hMove₁ (hEdit₁.symm ▸ hFirst)
      obtain ⟨res₂, s₂, hMove₂, -, -, ⟨rfl, -⟩ | ⟨-, k, hFail⟩⟩ := moveWindow_table D hCoh₁ hByte.2
      · simp only [hMove₁, ne_eq, not_true_eq_false, if_false, hOld₁] at hEq
        simp only [ne_eq] at hEdit₁
        simp only [hEdit₁, hMove₂, not_true_eq_false, if_false] at hEq
        obtain rfl := (Prod.mk.inj hEq).2
        exact changeTable_neat hD hCoh₁ hNeat₁ hL hByte.2 _ hMove₂ fun x hx =>
          (hKeep x hx).trans (hFirst x hx).symm
      · exact absurd hFail (by simp [hD k])
    · exact absurd hFail (by simp [hD k])
  | fat16 =>
    rw [hType] at hByte
    simp only [hType] at hEq
    obtain ⟨res, s₁, hMove, -, -, ⟨rfl, -⟩ | ⟨-, k, hFail⟩⟩ := moveWindow_table D h hByte
    · simp only [hMove, ne_eq, not_true_eq_false, if_false] at hEq
      obtain rfl := (Prod.mk.inj hEq).2
      exact changeTable_neat hD h hNeat hL hByte _ hMove hKeep
    · exact absurd hFail (by simp [hD k])
  | fat32 =>
    rw [hType] at hByte
    simp only [hType] at hEq
    obtain ⟨res, s₁, hMove, -, -, ⟨rfl, -⟩ | ⟨-, k, hFail⟩⟩ := moveWindow_table D h hByte
    · simp only [hMove, ne_eq, not_true_eq_false, if_false] at hEq
      obtain rfl := (Prod.mk.inj hEq).2
      exact changeTable_neat hD h hNeat hL hByte _ hMove hKeep
    · exact absurd hFail (by simp [hD k])

-- ---------------------------------------------------------------------------
-- Chains
-- ---------------------------------------------------------------------------

theorem searchFree_neat (hD : D.Reliable) (h : Coherent s) (hNeat : Neat g L s) (hPos : 1 ≤ ncl) :
    Neat g L (searchFree D g scl turns s ncl).2 := by
  induction turns generalizing s ncl with
  | zero => exact hNeat
  | succ turns ih =>
    rw [searchFree_succ]
    split
    · exact hNeat
    · have hNext := after_cluster (g := g) hPos
      obtain ⟨s₁, hEq, -, hCoh⟩ := getFat_eq hD h hNext
      have hNeat₁ := getFat_neat hD h hNeat hNext
      rw [hEq] at hNeat₁
      simp only [hEq]
      split
      · exact hNeat₁
      · split
        · exact hNeat₁
        · split
          · exact hNeat₁
          · exact ih hCoh hNeat₁ (le_trans (by decide) hNext.1)

theorem findCluster_neat (hD : D.Reliable) (h : Coherent s) (hNeat : Neat g L s) (hPos : 1 ≤ scl)
    (clst : Nat) : Neat g L (findCluster D g s clst scl).2 := by
  rw [findCluster]
  split
  · have hNext := after_cluster (g := g) hPos
    obtain ⟨s₁, hEq, -, hCoh⟩ := getFat_eq hD h hNext
    have hNeat₁ := getFat_neat hD h hNeat hNext
    rw [hEq] at hNeat₁
    rw [after] at hEq
    generalize (if scl + 1 ≥ g.nFatent then 2 else scl + 1) = x at hEq
    simp only [hEq]
    split
    · exact hNeat₁
    · split
      · refine searchFree_neat hD hCoh hNeat₁ ?_
        split <;> omega
      · exact hNeat₁
  · exact searchFree_neat hD h hNeat hPos

theorem linkCluster_neat (hD : D.Reliable) (h : Coherent s) (hNeat : Neat g L s)
    (hL : ∀ c, L c → g.Cluster c) (hNcl : g.Cluster ncl) (hNew : ¬ L ncl)
    (hClst : clst ≠ 0 → g.Cluster clst ∧ ¬ L clst) :
    ∃ s', linkCluster D g s clst ncl = (ncl, s') ∧ Neat g L s' := by
  obtain ⟨s₁, hEq₁, -, hCoh₁, -⟩ := putFat_eq hD h hNcl 0xFFFFFFFF
  have hNeat₁ := putFat_neat hD h hNeat hL hNcl hNew 0xFFFFFFFF
  rw [hEq₁] at hNeat₁
  rw [linkCluster, hEq₁]
  have hCounts : ∀ s₂, Neat g L s₂ → ∃ s',
      (if 0 < s₂.freeClst ∧ s₂.freeClst ≤ g.nFatent - 2 then
        (ncl, { s₂ with lastClst := ncl, freeClst := s₂.freeClst - 1, fsiFlag := s₂.fsiFlag ||| 1 })
      else (ncl, { s₂ with lastClst := ncl })) = (ncl, s') ∧ Neat g L s' := by
    intro s₂ hNeat₂
    split
    · exact ⟨_, rfl, hNeat₂.counts ..⟩
    · exact ⟨_, rfl, hNeat₂.counts ..⟩
  by_cases hZero : clst = 0
  · simp only [hZero, ne_eq, not_true_eq_false, and_false, if_false, if_true]
    exact hCounts s₁ hNeat₁
  · obtain ⟨hCluster, hNot⟩ := hClst hZero
    obtain ⟨s₂, hEq₂, -⟩ := putFat_eq hD hCoh₁ hCluster ncl
    have hNeat₂ := putFat_neat hD hCoh₁ hNeat₁ hL hCluster hNot ncl
    rw [hEq₂] at hNeat₂
    simp only [hZero, ne_eq, not_false_eq_true, and_self, if_true, hEq₂]
    exact hCounts s₂ hNeat₂

/-- A new cluster is found and linked to `clst`: that leaves alone the entries `L`, which are in
use and not that of `clst`. If none is found, all entries are left alone. -/
theorem allocCluster_neat (hD : D.Reliable) (h : Coherent s) (hNeat : Neat g L s)
    (hL : ∀ c, L c → g.Cluster c) (hScl : scl < g.nFatent) (hPos : 1 ≤ scl)
    (hClst : clst ≠ 0 → g.Cluster clst) {r : Nat} (hAlloc : allocCluster D g s clst scl = (r, s'))
    (hSpare : r = 0 ∨ ∀ c, L c → c ≠ clst ∧ g.fat s.view c ≠ 0) : Neat g L s' := by
  rw [allocCluster] at hAlloc
  by_cases hNone : s.freeClst = 0
  · rw [if_pos hNone] at hAlloc
    obtain rfl := (Prod.mk.inj hAlloc).2
    exact hNeat
  · rw [if_neg hNone] at hAlloc
    obtain ⟨ncl, s₁, hEq, hLook, hCoh, hFound⟩ := findCluster_cases clst D h hScl hPos
    have hNeat₁ := findCluster_neat hD h hNeat hPos clst
    rw [hEq] at hNeat₁
    simp only [hEq] at hAlloc
    by_cases hCode : ncl = 0 ∨ ncl = intError ∨ ncl = diskError
    · rw [if_pos hCode] at hAlloc
      obtain rfl := (Prod.mk.inj hAlloc).2
      exact hNeat₁
    · rw [if_neg hCode] at hAlloc
      cases hFound with
      | none => exact absurd (.inl rfl) hCode
      | intError => exact absurd (.inr (.inl rfl)) hCode
      | diskError => exact absurd (.inr (.inr rfl)) hCode
      | free hx hZero =>
        have hLink : ∀ L' : Nat → Prop, Neat g L' s₁ → (∀ c, L' c → g.Cluster c) →
            (∀ c, L' c → c ≠ clst ∧ g.fat s.view c ≠ 0) → r = ncl ∧ Neat g L' s' := by
          intro L' hNeat' hL' hAvoid
          obtain ⟨s₂, hEq₂, hNeat₂⟩ := linkCluster_neat hD hCoh hNeat' hL' hx
            (fun hc => (hAvoid ncl hc).2 hZero) fun hc => ⟨hClst hc, fun hc' => (hAvoid clst hc').1 rfl⟩
          obtain ⟨rfl, rfl⟩ := Prod.mk.inj (hEq₂.symm.trans hAlloc)
          exact ⟨rfl, hNeat₂⟩
        rcases hSpare with hNo | hAvoid
        · -- the linked cluster is not 0
          have hNcl := (hLink (fun _ => False) ⟨hNeat₁.flag, by simp⟩ (by simp) (by simp)).1
          exact absurd (.inl (hNcl.symm.trans hNo)) hCode
        · exact (hLink L hNeat₁ hL hAvoid).2

theorem createChain_neat (hD : D.Reliable) (h : Coherent s) (hNeat : Neat g L s)
    (hL : ∀ c, L c → g.Cluster c) (hClst : clst = 0 ∨ g.Cluster clst) {r : Nat}
    (hCreate : createChain D g s clst = (r, s'))
    (hSpare : r = 0 ∨ ∀ c, L c → c ≠ clst ∧ g.fat s.view c ≠ 0) : Neat g L s' := by
  have hSome := g.someCluster
  rw [createChain] at hCreate
  by_cases hZero : clst = 0
  · rw [if_pos hZero] at hCreate
    refine allocCluster_neat hD h hNeat hL ?_ ?_ (fun hc => absurd hZero hc) hCreate hSpare
    · split <;> omega
    · split <;> omega
  · rw [if_neg hZero] at hCreate
    have hCluster := hClst.resolve_left hZero
    obtain ⟨s₁, hEq, hLook, hCoh⟩ := getFat_eq hD h hCluster
    have hNeat₁ := getFat_neat hD h hNeat hCluster
    rw [hEq] at hNeat₁
    simp only [hEq] at hCreate
    split at hCreate
    · obtain rfl := (Prod.mk.inj hCreate).2
      exact hNeat₁
    · split at hCreate
      · obtain rfl := (Prod.mk.inj hCreate).2
        exact hNeat₁
      · split at hCreate
        · obtain rfl := (Prod.mk.inj hCreate).2
          exact hNeat₁
        · refine allocCluster_neat hD hCoh hNeat₁ hL hCluster.2 (le_trans (by decide) hCluster.1)
            (fun _ => hCluster) hCreate (hSpare.imp_right fun hAvoid c hc => ?_)
          rw [hLook.fat (hL c hc)]
          exact hAvoid c hc

/-- A look at the table on a device that does not fail: what is on the disk stays there. -/
structure Scanned (g : Geometry) (s s' : Fatfs) : Prop extends Looked g s s' where
  neat : ∀ L : Nat → Prop, (∀ c, L c → g.Cluster c) → Neat g L s → Neat g L s'

theorem Scanned.refl (g : Geometry) (s : Fatfs) : Scanned g s s := ⟨Looked.refl g s, fun _ _ h => h⟩

theorem getFat_scanned (hD : D.Reliable) (h : Coherent s) (hc : g.Cluster c) :
    ∃ s', getFat D g s c = (g.fat s.view c, s') ∧ Scanned g s s' ∧ Coherent s' := by
  obtain ⟨s', hEq, hLook, hCoh⟩ := getFat_eq hD h hc
  refine ⟨s', hEq, ⟨hLook, fun L _ hNeat => ?_⟩, hCoh⟩
  have hNeat' := getFat_neat hD h hNeat hc
  rwa [hEq] at hNeat'

end Nao.Fat
