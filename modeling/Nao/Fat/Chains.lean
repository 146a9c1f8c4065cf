import Nao.Fat.Entries
import Nao.Lib.Linked
import Mathlib.Data.Finset.Card
import Mathlib.Order.Interval.Finset.Nat

/-!
# FAT volumes — cluster chains

A chain is a linked list in the table: from its first cluster on, each entry names the next
cluster, and the last has a value past every cluster. `create_chain` lengthens a chain by a
cluster that was free, `remove_chain` frees the clusters of a chain.

## Results

* `searchFree_cases`, `findCluster_cases` — the search finds a free cluster if there is one,
  wherever it starts.
* `createChain_cases` — everything `create_chain` can answer and do, on any device.
* `removeChain_spec` — `remove_chain` frees the chain and nothing else; `removeLoop_turns` says
  that it returns on every table, also where chains run into each other or in circles.
* `chains_stay_apart` — over every run of the two functions the chains of a volume are what
  the calls make of them as lists, no cluster is in two of them, and the free clusters are all
  the others.
-/

namespace Nao.Fat

open SysLib FatFs Disk

variable {D : Device} {g : Geometry} {s s' : Fatfs} {c clst scl ncl turns : Nat}

/-- The chain that starts at `c` has the clusters `l`. -/
abbrev Geometry.Chain (g : Geometry) (v : Nat → Sector) (c : Nat) (l : List Nat) : Prop :=
  Linked (g.fat v) g.Cluster (g.nFatent ≤ ·) c l

theorem Geometry.Cluster.not_stop (h : g.Cluster c) : ¬ g.nFatent ≤ c := by
  obtain ⟨-, hHi⟩ := h
  omega

theorem fat_lt (g : Geometry) (v : Nat → Sector) (c : Nat) : g.fat v c < 2 ^ g.fsType.width := by
  have hb := fatByte_lt g v
  have h₀ := hb (c + c / 2)
  have h₁ := hb (c + c / 2 + 1)
  have h₂ := hb (2 * c)
  have h₃ := hb (2 * c + 1)
  unfold Geometry.fat
  cases g.fsType <;> simp only [FsType.entry, FsType.width]
  · split <;> omega
  · omega
  · omega

theorem width_le (t : FsType) : 2 ^ t.width ≤ 2 ^ 28 := by
  cases t <;> decide

theorem fat_ne_diskError (g : Geometry) (v : Nat → Sector) (c : Nat) : g.fat v c ≠ diskError := by
  have hLt := fat_lt g v c
  have hLe := width_le g.fsType
  unfold diskError
  omega

/-- The value that `put_fat` leaves for 0xFFFFFFFF ends a chain. -/
theorem nFatent_le_eoc (g : Geometry) : g.nFatent ≤ 0xFFFFFFFF % 2 ^ g.fsType.width := by
  have hFew := g.fewClusters
  cases hType : g.fsType <;> rw [hType] at hFew <;>
    simp only [FsType.maxClusters, FsType.width] at hFew ⊢ <;> omega

/-- A cluster number fits into an entry. -/
theorem Geometry.Cluster.mod_width (h : g.Cluster c) : c % 2 ^ g.fsType.width = c := by
  obtain ⟨-, hHi⟩ := h
  have hFew := g.fewClusters
  refine Nat.mod_eq_of_lt (lt_of_lt_of_le hHi ?_)
  cases hType : g.fsType <;> rw [hType] at hFew <;>
    simp only [FsType.maxClusters, FsType.width] at hFew ⊢ <;> omega

theorem Geometry.Chain.ne_zero {v : Nat → Sector} {l : List Nat} (h : g.Chain v c l) {x : Nat}
    (hx : x ∈ l) : g.fat v x ≠ 0 := by
  have hSome := g.someCluster
  rcases h.next_of_mem hx with ⟨hLo, -⟩ | hStop
  · omega
  · omega

theorem Geometry.Chain.nodup {v : Nat → Sector} {l : List Nat} (h : g.Chain v c l) : l.Nodup :=
  Linked.nodup (fun _ hx => hx.not_stop) h

-- ---------------------------------------------------------------------------
-- The search for a free cluster
-- ---------------------------------------------------------------------------

/-- The clusters the search has still to look at when it has looked at `ncl`. -/
def Ahead (n scl ncl c : Nat) : Prop :=
  if scl ≤ ncl then ncl < c ∧ c < n ∨ 2 ≤ c ∧ c ≤ scl else ncl < c ∧ c ≤ scl

/-- How many they are. -/
def ahead (n scl ncl : Nat) : Nat := if scl ≤ ncl then n - 1 - ncl + (scl - 1) else scl - ncl

/-- The cluster after `ncl`, round the end of the table. -/
def after (n ncl : Nat) : Nat := if ncl + 1 ≥ n then 2 else ncl + 1

theorem ahead_after (hScl : scl < g.nFatent) (hNcl : ncl < g.nFatent)
    (hWrap : ¬ (ncl + 1 ≥ g.nFatent ∧ 2 > scl)) (hMore : after g.nFatent ncl ≠ scl) :
    ahead g.nFatent scl (after g.nFatent ncl) < ahead g.nFatent scl ncl := by
  have hSome := g.someCluster
  unfold ahead after at *
  split_ifs at * <;> omega

theorem Ahead.after_or (hScl : scl < g.nFatent) (hNcl : ncl < g.nFatent) {x : Nat}
    (hx : Ahead g.nFatent scl ncl x) :
    x = after g.nFatent ncl ∨ after g.nFatent ncl ≠ scl ∧ Ahead g.nFatent scl (after g.nFatent ncl) x := by
  have hSome := g.someCluster
  unfold Ahead after at *
  split_ifs at * <;> omega

theorem after_cluster (hNcl : 1 ≤ ncl) : g.Cluster (after g.nFatent ncl) := by
  have hSome := g.someCluster
  unfold after Geometry.Cluster
  split <;> omega

/-- What a search among the clusters `P` can answer. -/
inductive Found (D : Device) (g : Geometry) (v : Nat → Sector) (P : Nat → Prop) : Nat → Prop where
  | none (h : ∀ x, P x → g.fat v x ≠ 0) : Found D g v P 0
  | free {x : Nat} (hx : g.Cluster x) (h : g.fat v x = 0) : Found D g v P x
  | intError {x : Nat} (hx : g.Cluster x) (h : g.fat v x = 1) : Found D g v P intError
  | diskError {k : Nat} (h : D.fails k = true) : Found D g v P diskError

theorem searchFree_succ (D : Device) (g : Geometry) (scl turns : Nat) (s : Fatfs) (ncl : Nat) :
    searchFree D g scl (turns + 1) s ncl =
      if ncl + 1 ≥ g.nFatent ∧ 2 > scl then (0, s)
      else
        let r := getFat D g s (after g.nFatent ncl)
        if r.1 = 0 then (after g.nFatent ncl, r.2)
        else if r.1 = intError ∨ r.1 = diskError then (r.1, r.2)
        else if after g.nFatent ncl = scl then (0, r.2)
        else searchFree D g scl turns r.2 (after g.nFatent ncl) := rfl

/-- The bound on the turns is never reached. -/
theorem searchFree_turns (D : Device) (hScl : scl < g.nFatent) (hNcl : ncl < g.nFatent)
    (hPos : 1 ≤ ncl) (ht : ahead g.nFatent scl ncl < turns) :
    searchFree D g scl (turns + 1) s ncl = searchFree D g scl turns s ncl := by
  induction turns generalizing s ncl with
  | zero => omega
  | succ turns ih =>
    rw [searchFree_succ, searchFree_succ]
    by_cases hWrap : ncl + 1 ≥ g.nFatent ∧ 2 > scl
    · rw [if_pos hWrap, if_pos hWrap]
    · rw [if_neg hWrap, if_neg hWrap]
      have hNext := after_cluster (g := g) hPos
      by_cases hMore : after g.nFatent ncl = scl
      · simp only [hMore, if_true]
      · have hLess := ahead_after hScl hNcl hWrap hMore
        simp only [hMore, if_false]
        rw [ih hNext.2 (by have := hNext.1; omega) (by omega)]

theorem searchFree_cases (D : Device) (h : Coherent s) (hScl : scl < g.nFatent)
    (hNcl : ncl < g.nFatent) (hPos : 1 ≤ ncl) (ht : ahead g.nFatent scl ncl < turns) :
    ∃ r s', searchFree D g scl turns s ncl = (r, s') ∧ Looked g s s' ∧ Coherent s' ∧
      Found D g s.view (Ahead g.nFatent scl ncl) r := by
  induction turns generalizing s ncl with
  | zero => omega
  | succ turns ih =>
    rw [searchFree_succ]
    by_cases hWrap : ncl + 1 ≥ g.nFatent ∧ 2 > scl
    · rw [if_pos hWrap]
      refine ⟨0, s, rfl, Looked.refl g s, h, .none ?_⟩
      intro x hx
      unfold Ahead at hx
      split at hx <;> omega
    · rw [if_neg hWrap]
      have hNext := after_cluster (g := g) hPos
      obtain ⟨cs, s₁, hEq, hLook, hCoh, hVal⟩ := getFat_cases D h hNext
      simp only [hEq]
      rcases hVal with rfl | ⟨rfl, k, hFail⟩
      · by_cases hFree : g.fat s.view (after g.nFatent ncl) = 0
        · rw [if_pos hFree]
          exact ⟨_, s₁, rfl, hLook, hCoh, .free hNext hFree⟩
        · rw [if_neg hFree]
          by_cases hInt : g.fat s.view (after g.nFatent ncl) = 1
          · rw [if_pos (.inl hInt), hInt]
            exact ⟨_, s₁, rfl, hLook, hCoh, .intError hNext hInt⟩
          · rw [if_neg (by rintro (hc | hc); exacts [hInt hc, fat_ne_diskError g _ _ hc])]
            by_cases hMore : after g.nFatent ncl = scl
            · rw [if_pos hMore]
              refine ⟨0, s₁, rfl, hLook, hCoh, .none ?_⟩
              intro x hx
              rcases hx.after_or hScl hNcl with rfl | ⟨hc, -⟩
              · exact hFree
              · exact absurd hMore hc
            · rw [if_neg hMore]
              have hLess := ahead_after hScl hNcl hWrap hMore
              obtain ⟨r, s₂, hEq₂, hLook₂, hCoh₂, hFound⟩ :=
                ih hCoh hNext.2 (by have := hNext.1; omega) (by omega)
              refine ⟨r, s₂, hEq₂, hLook.trans hLook₂, hCoh₂, ?_⟩
              -- the looks so far have not changed the table
              cases hFound with
              | none hNone =>
                refine .none ?_
                intro x hx
                rcases hx.after_or hScl hNcl with rfl | ⟨-, hx⟩
                · exact hFree
                · have hCluster : g.Cluster x := by
                    have hNextLo := hNext.1
                    unfold Ahead Geometry.Cluster at *
                    split at hx <;> omega
                  rw [← hLook.fat hCluster]
                  exact hNone x hx
              | free hx hZero => exact .free hx ((hLook.fat hx).symm.trans hZero)
              | intError hx hOne => exact .intError hx ((hLook.fat hx).symm.trans hOne)
              | diskError hFail => exact .diskError hFail
      · rw [if_neg (by decide), if_pos (.inr rfl)]
        exact ⟨_, s₁, rfl, hLook, hCoh, .diskError hFail⟩

/-- A search that starts at `scl` looks at every cluster. -/
theorem ahead_all (scl : Nat) {x : Nat} (hx : g.Cluster x) : Ahead g.nFatent scl scl x := by
  obtain ⟨hLo, hHi⟩ := hx
  unfold Ahead
  rw [if_pos (le_refl scl)]
  omega

theorem search_cases (D : Device) (h : Coherent s) (hScl : scl < g.nFatent) (hPos : 1 ≤ scl) :
    ∃ r s', searchFree D g scl g.nFatent s scl = (r, s') ∧ Looked g s s' ∧ Coherent s' ∧
      Found D g s.view g.Cluster r := by
  have hTurns : ahead g.nFatent scl scl < g.nFatent := by
    unfold ahead
    rw [if_pos (le_refl scl)]
    omega
  obtain ⟨r, s', hEq, hLook, hCoh, hFound⟩ := searchFree_cases D h hScl hScl hPos hTurns
  refine ⟨r, s', hEq, hLook, hCoh, ?_⟩
  cases hFound with
  | none hNone => exact .none fun x hx => hNone x (ahead_all scl hx)
  | free hx hZero => exact .free hx hZero
  | intError hx hOne => exact .intError hx hOne
  | diskError hFail => exact .diskError hFail

theorem findCluster_cases (clst : Nat) (D : Device) (h : Coherent s) (hScl : scl < g.nFatent) (hPos : 1 ≤ scl) :
    ∃ r s', findCluster D g s clst scl = (r, s') ∧ Looked g s s' ∧ Coherent s' ∧
      Found D g s.view g.Cluster r := by
  rw [findCluster]
  by_cases hStretch : scl = clst
  · rw [if_pos hStretch]
    have hNext := after_cluster (g := g) hPos
    obtain ⟨cs, s₁, hEq, hLook, hCoh, hVal⟩ := getFat_cases D h hNext
    rw [after] at hEq hVal hNext
    simp only [hEq]
    rcases hVal with rfl | ⟨rfl, k, hFail⟩
    · by_cases hInt : g.fat s.view (if scl + 1 ≥ g.nFatent then 2 else scl + 1) = 1
      · rw [if_pos (.inl hInt), hInt]
        exact ⟨_, s₁, rfl, hLook, hCoh, .intError hNext hInt⟩
      · rw [if_neg (by rintro (hc | hc); exacts [hInt hc, fat_ne_diskError g _ _ hc])]
        by_cases hFree : g.fat s.view (if scl + 1 ≥ g.nFatent then 2 else scl + 1) = 0
        · rw [if_neg (not_not.mpr hFree)]
          exact ⟨_, s₁, rfl, hLook, hCoh, .free hNext hFree⟩
        · -- not free: search from the suggested cluster, or from here
          rw [if_pos hFree]
          have hStart : ∀ scl', (scl' = if 2 ≤ s₁.lastClst ∧ s₁.lastClst < g.nFatent then s₁.lastClst
              else scl) → scl' < g.nFatent ∧ 1 ≤ scl' := by
            rintro _ rfl
            constructor <;> split <;> omega
          obtain ⟨r, s₂, hEq₂, hLook₂, hCoh₂, hFound⟩ := search_cases (g := g) D hCoh
            (hStart _ rfl).1 (hStart _ rfl).2
          refine ⟨r, s₂, hEq₂, hLook.trans hLook₂, hCoh₂, ?_⟩
          cases hFound with
          | none hNone => exact .none fun x hx => hLook.fat hx ▸ hNone x hx
          | free hx hZero => exact .free hx ((hLook.fat hx).symm.trans hZero)
          | intError hx hOne => exact .intError hx ((hLook.fat hx).symm.trans hOne)
          | diskError hFail => exact .diskError hFail
    · rw [if_pos (.inr rfl)]
      exact ⟨_, s₁, rfl, hLook, hCoh, .diskError hFail⟩
  · rw [if_neg hStretch]
    exact search_cases D h hScl hPos

-- ---------------------------------------------------------------------------
-- `create_chain`
-- ---------------------------------------------------------------------------

/-- The new cluster `ncl` ends a chain, is linked from `clst` if there is one, and is taken
from the free clusters. -/
structure Grown (g : Geometry) (s s' : Fatfs) (clst ncl : Nat) : Prop extends Outside g s s' where
  new      : g.nFatent ≤ g.fat s'.view ncl
  link     : clst ≠ 0 → g.fat s'.view clst = ncl
  others   : ∀ c, g.Cluster c → c ≠ ncl → c ≠ clst → g.fat s'.view c = g.fat s.view c
  freeClst : s'.freeClst =
    if 0 < s.freeClst ∧ s.freeClst ≤ g.nFatent - 2 then s.freeClst - 1 else s.freeClst

/-- What a failure in the middle leaves alone: the entries of the clusters in use, but for
`clst`. -/
structure Spared (g : Geometry) (s s' : Fatfs) (clst : Nat) : Prop extends Outside g s s' where
  used : ∀ c, g.Cluster c → g.fat s.view c ≠ 0 → c ≠ clst → g.fat s'.view c = g.fat s.view c

theorem linkCluster_cases (D : Device) (h : Coherent s) (hNcl : g.Cluster ncl)
    (hFree : g.fat s.view ncl = 0) (hClst : clst ≠ 0 → g.Cluster clst ∧ clst ≠ ncl) :
    ∃ r s', linkCluster D g s clst ncl = (r, s') ∧ Coherent s' ∧
      (r = ncl ∧ Grown g s s' clst ncl ∨
        r = diskError ∧ Spared g s s' clst ∧ ∃ k, D.fails k = true) := by
  obtain ⟨res₁, s₁, hEq₁, hTouch₁, hCoh₁, hOther₁, hRes₁⟩ := putFat_cases D h hNcl 0xFFFFFFFF
  have hSpared : ∀ s₂, Outside g s s₂ →
      (∀ c, g.Cluster c → c ≠ ncl → c ≠ clst → g.fat s₂.view c = g.fat s.view c) →
      Spared g s s₂ clst := by
    intro s₂ hOut hSame
    refine ⟨hOut, fun c hc hUsed hne => hSame c hc ?_ hne⟩
    rintro rfl
    exact hUsed hFree
  rw [linkCluster, hEq₁]
  rcases hRes₁ with ⟨rfl, hNew⟩ | ⟨rfl, hFail⟩
  · -- the state in which only the counts are still to be updated
    have hFinish : ∀ s₂, Coherent s₂ → Touched g s s₂ → g.fat s₂.view ncl = 0xFFFFFFFF % 2 ^ g.fsType.width →
        (clst ≠ 0 → g.fat s₂.view clst = ncl) →
        (∀ c, g.Cluster c → c ≠ ncl → c ≠ clst → g.fat s₂.view c = g.fat s.view c) →
        ∃ r s', (if 0 < s₂.freeClst ∧ s₂.freeClst ≤ g.nFatent - 2 then
            (ncl, { s₂ with lastClst := ncl, freeClst := s₂.freeClst - 1, fsiFlag := s₂.fsiFlag ||| 1 })
          else (ncl, { s₂ with lastClst := ncl })) = (r, s') ∧ Coherent s' ∧
          (r = ncl ∧ Grown g s s' clst ncl ∨
            r = diskError ∧ Spared g s s' clst ∧ ∃ k, D.fails k = true) := by
      intro s₂ hCoh₂ hTouch₂ hNew₂ hLink₂ hOther₂
      have hFreeClst := hTouch₂.freeClst
      split
      · rename_i hKnown
        refine ⟨_, _, rfl, ⟨hCoh₂.clean, hCoh₂.bounded⟩, .inl ⟨rfl, ⟨hTouch₂.view, hTouch₂.place⟩,
          ?_, hLink₂, hOther₂, ?_⟩⟩
        · exact le_of_le_of_eq (nFatent_le_eoc g) hNew₂.symm
        · rw [hFreeClst] at hKnown
          rw [if_pos hKnown, ← hFreeClst]
      · rename_i hUnknown
        refine ⟨_, _, rfl, ⟨hCoh₂.clean, hCoh₂.bounded⟩, .inl ⟨rfl, ⟨hTouch₂.view, hTouch₂.place⟩,
          ?_, hLink₂, hOther₂, ?_⟩⟩
        · exact le_of_le_of_eq (nFatent_le_eoc g) hNew₂.symm
        · rw [hFreeClst] at hUnknown
          rw [if_neg hUnknown, ← hFreeClst]
    by_cases hZero : clst = 0
    · simp only [hZero, ne_eq, not_true_eq_false, and_false, if_false, if_true]
      rw [hZero] at hFinish
      exact hFinish s₁ hCoh₁ hTouch₁ hNew (fun hc => absurd rfl hc) fun c hc hne _ =>
        hOther₁ c hc hne
    · obtain ⟨hCluster, hNe⟩ := hClst hZero
      obtain ⟨res₂, s₂, hEq₂, hTouch₂, hCoh₂, hOther₂, hRes₂⟩ := putFat_cases D hCoh₁ hCluster ncl
      simp only [hZero, ne_eq, not_false_eq_true, and_self, if_true, hEq₂]
      rcases hRes₂ with ⟨rfl, hLink⟩ | ⟨rfl, hFail⟩
      · simp only [if_true]
        refine hFinish s₂ hCoh₂ (hTouch₁.trans hTouch₂) ?_ ?_ ?_
        · rw [hOther₂ ncl hNcl (Ne.symm hNe), hNew]
        · exact fun _ => hLink.trans hNcl.mod_width
        · intro c hc hne hne'
          rw [hOther₂ c hc hne', hOther₁ c hc hne]
      · refine ⟨diskError, s₂, rfl, hCoh₂, .inr ⟨rfl, ?_, hFail⟩⟩
        refine hSpared s₂ (hTouch₁.trans hTouch₂).toOutside ?_
        intro c hc hne hne'
        rw [hOther₂ c hc hne', hOther₁ c hc hne]
  · refine ⟨diskError, s₁, by simp, hCoh₁, .inr ⟨rfl, ?_, hFail⟩⟩
    exact hSpared s₁ hTouch₁.toOutside fun c hc hne _ => hOther₁ c hc hne

/-- Everything `create_chain` can answer, and what it has then done. -/
inductive Created (D : Device) (g : Geometry) (s : Fatfs) (clst : Nat) : Nat → Fatfs → Prop where
  /-- the chain goes on after `clst` -/
  | existing {s' : Fatfs} (hClst : clst ≠ 0) (hNext : g.Cluster (g.fat s.view clst))
      (h : Looked g s s') : Created D g s clst (g.fat s.view clst) s'
  /-- no free cluster, or none known -/
  | full {s' : Fatfs} (hFull : s.freeClst = 0 ∨ ∀ c, g.Cluster c → g.fat s.view c ≠ 0)
      (h : Looked g s s') : Created D g s clst 0 s'
  | grown {s' : Fatfs} {ncl : Nat} (hNcl : g.Cluster ncl) (hFree : g.fat s.view ncl = 0)
      (h : Grown g s s' clst ncl) : Created D g s clst ncl s'
  /-- the table is damaged -/
  | intError {s' : Fatfs} (hBad : (∃ c, g.Cluster c ∧ g.fat s.view c = 1) ∨
      clst ≠ 0 ∧ g.fat s.view clst = 0) (h : Looked g s s') : Created D g s clst intError s'
  | diskError {s' : Fatfs} {k : Nat} (hFail : D.fails k = true) (h : Spared g s s' clst) :
      Created D g s clst diskError s'

theorem Looked.spared (h : Looked g s s') (clst : Nat) : Spared g s s' clst :=
  ⟨h.touched.toOutside, fun _ hc _ _ => h.fat hc⟩

theorem allocCluster_cases (D : Device) (h : Coherent s) (hScl : scl < g.nFatent) (hPos : 1 ≤ scl)
    (hClst : clst ≠ 0 → g.Cluster clst ∧ g.fat s.view clst ≠ 0) :
    ∃ r s', allocCluster D g s clst scl = (r, s') ∧ Coherent s' ∧ Created D g s clst r s' := by
  rw [allocCluster]
  by_cases hNone : s.freeClst = 0
  · rw [if_pos hNone]
    exact ⟨0, s, rfl, h, .full (.inl hNone) (Looked.refl g s)⟩
  · rw [if_neg hNone]
    obtain ⟨r, s₁, hEq, hLook, hCoh, hFound⟩ := findCluster_cases clst D h hScl hPos
    simp only [hEq]
    cases hFound with
    | none hFull =>
      rw [if_pos (.inl rfl)]
      exact ⟨0, s₁, rfl, hCoh, .full (.inr hFull) hLook⟩
    | free hx hZero =>
      have hSmall : ¬ (r = 0 ∨ r = intError ∨ r = diskError) := by
        obtain ⟨hLo, hHi⟩ := hx
        have hLe := nFatent_le_eoc g
        have hWidth := width_le g.fsType
        have hMod := Nat.mod_lt 0xFFFFFFFF (Nat.two_pow_pos g.fsType.width)
        unfold intError diskError
        omega
      rw [if_neg hSmall]
      have hZero₁ : g.fat s₁.view r = 0 := (hLook.fat hx).trans hZero
      obtain ⟨r', s₂, hEq₂, hCoh₂, hRes⟩ := linkCluster_cases D hCoh hx hZero₁ (by
        show clst ≠ 0 → _
        intro hc
        refine ⟨(hClst hc).1, ?_⟩
        rintro rfl
        exact (hClst hc).2 hZero)
      refine ⟨r', s₂, hEq₂, hCoh₂, ?_⟩
      rcases hRes with ⟨rfl, hGrown⟩ | ⟨rfl, hSpared, k, hFail⟩
      · refine .grown hx hZero ⟨hLook.touched.toOutside.trans hGrown.toOutside, hGrown.new,
          hGrown.link, ?_, ?_⟩
        · intro c hc hne hne'
          rw [hGrown.others c hc hne hne', hLook.fat hc]
        · rw [hGrown.freeClst, hLook.freeClst]
      · refine .diskError hFail ⟨hLook.touched.toOutside.trans hSpared.toOutside, ?_⟩
        intro c hc hUsed hne
        rw [hSpared.used c hc ((hLook.fat hc).symm ▸ hUsed) hne, hLook.fat hc]
    | intError hx hOne =>
      rw [if_pos (.inr (.inl rfl))]
      exact ⟨_, s₁, rfl, hCoh, .intError (.inl ⟨_, hx, hOne⟩) hLook⟩
    | diskError hFail =>
      rw [if_pos (.inr (.inr rfl))]
      exact ⟨_, s₁, rfl, hCoh, .diskError hFail (hLook.spared clst)⟩

theorem Created.after_look (h : Looked g s s') {s'' : Fatfs} {r : Nat}
    (hClst : clst = 0 ∨ g.Cluster clst) (h' : Created D g s' clst r s'') :
    Created D g s clst r s'' := by
  have hFat : clst ≠ 0 → g.fat s'.view clst = g.fat s.view clst := fun hc =>
    h.fat (hClst.resolve_left hc)
  cases h' with
  | existing hc hNext hLook =>
    rw [hFat hc] at hNext ⊢
    exact .existing hc hNext (h.trans hLook)
  | full hFull hLook =>
    refine .full ?_ (h.trans hLook)
    rw [h.freeClst] at hFull
    exact hFull.imp_right fun hAll c hc => h.fat hc ▸ hAll c hc
  | grown hNcl hFree hGrown =>
    refine .grown hNcl (h.fat hNcl ▸ hFree) ⟨h.touched.toOutside.trans hGrown.toOutside,
      hGrown.new, hGrown.link, fun c hc hne hne' => ?_, h.freeClst ▸ hGrown.freeClst⟩
    rw [hGrown.others c hc hne hne', h.fat hc]
  | intError hBad hLook =>
    refine .intError ?_ (h.trans hLook)
    rcases hBad with ⟨c, hc, hOne⟩ | ⟨hc, hZero⟩
    · exact .inl ⟨c, hc, (h.fat hc).symm.trans hOne⟩
    · exact .inr ⟨hc, (hFat hc).symm.trans hZero⟩
  | diskError hFail hSpared =>
    refine .diskError hFail ⟨h.touched.toOutside.trans hSpared.toOutside, fun c hc hUsed hne => ?_⟩
    rw [hSpared.used c hc ((h.fat hc).symm ▸ hUsed) hne, h.fat hc]

/-- `create_chain` on any device and any table. -/
theorem createChain_cases (D : Device) (h : Coherent s) (hClst : clst = 0 ∨ g.Cluster clst) :
    ∃ r s', createChain D g s clst = (r, s') ∧ Coherent s' ∧ Created D g s clst r s' := by
  have hSome := g.someCluster
  rw [createChain]
  by_cases hZero : clst = 0
  · rw [if_pos hZero]
    refine allocCluster_cases D h ?_ ?_ fun hc => absurd hZero hc
    · split <;> omega
    · split <;> omega
  · rw [if_neg hZero]
    have hCluster := hClst.resolve_left hZero
    obtain ⟨cs, s₁, hEq, hLook, hCoh, hVal⟩ := getFat_cases D h hCluster
    simp only [hEq]
    rcases hVal with rfl | ⟨rfl, k, hFail⟩
    · by_cases hLow : g.fat s.view clst < 2
      · rw [if_pos hLow]
        refine ⟨_, s₁, rfl, hCoh, .intError ?_ hLook⟩
        rcases Nat.lt_or_ge (g.fat s.view clst) 1 with hLt | hGe
        · exact .inr ⟨hZero, by omega⟩
        · exact .inl ⟨clst, hCluster, by omega⟩
      · rw [if_neg hLow, if_neg (fat_ne_diskError g _ _)]
        by_cases hNext : g.fat s.view clst < g.nFatent
        · rw [if_pos hNext]
          exact ⟨_, s₁, rfl, hCoh, .existing hZero ⟨by omega, hNext⟩ hLook⟩
        · rw [if_neg hNext]
          obtain ⟨r, s₂, hEq₂, hCoh₂, hCreated⟩ := allocCluster_cases D hCoh
            hCluster.2 (by have := hCluster.1; omega) fun _ : clst ≠ 0 => ⟨hCluster, by
              rw [hLook.fat hCluster]
              omega⟩
          exact ⟨r, s₂, hEq₂, hCoh₂, hCreated.after_look hLook hClst⟩
    · rw [if_neg (by decide), if_pos rfl]
      exact ⟨_, s₁, rfl, hCoh, .diskError hFail (hLook.spared clst)⟩

-- ---------------------------------------------------------------------------
-- The number of free clusters
-- ---------------------------------------------------------------------------

/-- The free clusters. -/
def freeCount (g : Geometry) (v : Nat → Sector) : Nat :=
  ((Finset.Ico 2 g.nFatent).filter fun c => g.fat v c = 0).card

/-- `free_clst` is the number of free clusters, or it is out of range, which means unknown. -/
def Accurate (g : Geometry) (s : Fatfs) : Prop :=
  s.freeClst ≤ g.nFatent - 2 → s.freeClst = freeCount g s.view

theorem freeCount_congr {v v' : Nat → Sector}
    (h : ∀ c, g.Cluster c → (g.fat v' c = 0 ↔ g.fat v c = 0)) :
    freeCount g v' = freeCount g v := by
  unfold freeCount
  congr 1
  exact Finset.filter_congr fun c hc => h c (Finset.mem_Ico.mp hc)

/-- One cluster that was free is not any more. -/
theorem freeCount_take {v v' : Nat → Sector} (hc : g.Cluster c) (hBefore : g.fat v c = 0)
    (hAfter : g.fat v' c ≠ 0)
    (hSame : ∀ x, g.Cluster x → x ≠ c → (g.fat v' x = 0 ↔ g.fat v x = 0)) :
    freeCount g v' + 1 = freeCount g v := by
  have hMem : c ∈ (Finset.Ico 2 g.nFatent).filter fun x => g.fat v x = 0 :=
    Finset.mem_filter.mpr ⟨Finset.mem_Ico.mpr hc, hBefore⟩
  have hErase : (Finset.Ico 2 g.nFatent).filter (fun x => g.fat v' x = 0) =
      ((Finset.Ico 2 g.nFatent).filter fun x => g.fat v x = 0).erase c := by
    ext x
    rw [Finset.mem_erase, Finset.mem_filter, Finset.mem_filter]
    constructor
    · rintro ⟨hx, hZero⟩
      have hNe : x ≠ c := by
        rintro rfl
        exact hAfter hZero
      exact ⟨hNe, hx, (hSame x (Finset.mem_Ico.mp hx) hNe).mp hZero⟩
    · rintro ⟨hNe, hx, hZero⟩
      exact ⟨hx, (hSame x (Finset.mem_Ico.mp hx) hNe).mpr hZero⟩
  rw [freeCount, hErase, freeCount]
  exact Finset.card_erase_add_one hMem

theorem freeCount_le (g : Geometry) (v : Nat → Sector) : freeCount g v ≤ g.nFatent - 2 := by
  have hLe := Finset.card_filter_le (Finset.Ico 2 g.nFatent) fun c => g.fat v c = 0
  rwa [Nat.card_Ico] at hLe

theorem freeCount_eq_zero {v : Nat → Sector} (h : freeCount g v = 0) (hc : g.Cluster c) :
    g.fat v c ≠ 0 := by
  intro hZero
  have hMem : c ∈ (Finset.Ico 2 g.nFatent).filter fun x => g.fat v x = 0 :=
    Finset.mem_filter.mpr ⟨Finset.mem_Ico.mpr hc, hZero⟩
  rw [Finset.card_eq_zero.mp h] at hMem
  exact absurd hMem (Finset.notMem_empty c)

-- ---------------------------------------------------------------------------
-- `remove_chain`
-- ---------------------------------------------------------------------------

/-- `oneMoreFree` changes the counts only. -/
theorem oneMoreFree_view (g : Geometry) (s : Fatfs) : (oneMoreFree g s).view = s.view := by
  unfold oneMoreFree
  split <;> rfl

theorem oneMoreFree_winsect (g : Geometry) (s : Fatfs) :
    (oneMoreFree g s).winsect = s.winsect := by
  unfold oneMoreFree
  split <;> rfl

theorem Coherent.oneMoreFree (h : Coherent s) (g : Geometry) : Coherent (oneMoreFree g s) := by
  unfold Fat.oneMoreFree
  split
  · exact ⟨h.clean, h.bounded⟩
  · exact h

/-- One turn of the loop: the entry of `clst` is set to 0. -/
structure Freed (g : Geometry) (s s' : Fatfs) (clst : Nat) : Prop extends Outside g s s' where
  zero   : g.fat s'.view clst = 0
  others : ∀ c, g.Cluster c → c ≠ clst → g.fat s'.view c = g.fat s.view c

theorem Freed.freeCount (h : Freed g s s' clst) (hClst : g.Cluster clst)
    (hUsed : g.fat s.view clst ≠ 0) : freeCount g s'.view = freeCount g s.view + 1 :=
  (freeCount_take hClst h.zero hUsed fun x hx hne => by rw [h.others x hx hne]).symm

/-- A turn of the loop of `remove_chain` on any device. -/
theorem removeLoop_succ (D : Device) (h : Coherent s) (hClst : g.Cluster clst) :
    (∃ res s', (∀ t, removeLoop D g (t + 1) s clst = (res, s')) ∧ Coherent s' ∧
      (res = .ok ∧ g.fat s.view clst = 0 ∨ res = .intErr ∧ g.fat s.view clst = 1 ∨
        res = .diskErr ∧ ∃ k, D.fails k = true)) ∨
    ∃ s', Freed g s s' clst ∧ Coherent s' ∧ (Accurate g s → Accurate g s') ∧
      g.fat s.view clst ≠ 0 ∧ 2 ≤ g.fat s.view clst ∧
      ∀ t, removeLoop D g (t + 1) s clst =
        if g.fat s.view clst < g.nFatent then removeLoop D g t s' (g.fat s.view clst) else (.ok, s') := by
  obtain ⟨nxt, s₁, hEq₁, hLook, hCoh₁, hVal⟩ := getFat_cases D h hClst
  rcases hVal with rfl | ⟨rfl, hFail⟩
  · by_cases hZero : g.fat s.view clst = 0
    · refine .inl ⟨.ok, s₁, fun t => ?_, hCoh₁, .inl ⟨rfl, hZero⟩⟩
      simp only [removeLoop, hEq₁, hZero, if_true]
    · by_cases hOne : g.fat s.view clst = intError
      · refine .inl ⟨.intErr, s₁, fun t => ?_, hCoh₁, .inr (.inl ⟨rfl, hOne⟩)⟩
        rw [removeLoop, hEq₁]
        dsimp only
        rw [if_neg hZero, if_pos hOne]
      · have hTwo : 2 ≤ g.fat s.view clst := by
          unfold intError at hOne
          omega
        obtain ⟨res, s₂, hEq₂, hTouch, hCoh₂, hOther, hRes⟩ := putFat_cases D hCoh₁ hClst 0
        have hTurn : ∀ t, removeLoop D g (t + 1) s clst =
            if res ≠ .ok then (res, s₂)
            else if g.fat s.view clst < g.nFatent then
              removeLoop D g t (oneMoreFree g s₂) (g.fat s.view clst)
            else (.ok, oneMoreFree g s₂) := by
          intro t
          rw [removeLoop, hEq₁]
          dsimp only
          rw [if_neg hZero, if_neg hOne, if_neg (fat_ne_diskError g _ _), hEq₂]
        rcases hRes with ⟨rfl, hNow⟩ | ⟨rfl, hFail⟩
        · have hNow' : g.fat s₂.view clst = 0 := by rw [hNow, Nat.zero_mod]
          have hFreed : Freed g s (oneMoreFree g s₂) clst := by
            refine ⟨⟨?_, ?_⟩, ?_, ?_⟩
            · rw [oneMoreFree_view]
              exact (hLook.touched.toOutside.trans hTouch.toOutside).view
            · rw [oneMoreFree_winsect]
              exact (hLook.touched.toOutside.trans hTouch.toOutside).place
            · rw [oneMoreFree_view, hNow']
            · intro c hc hne
              rw [oneMoreFree_view, hOther c hc hne, hLook.fat hc]
          refine .inr ⟨oneMoreFree g s₂, hFreed, hCoh₂.oneMoreFree g, ?_, hZero, hTwo, ?_⟩
          · intro hAcc hKnown
            have hCount := hFreed.freeCount hClst hZero
            have hLe := freeCount_le g (oneMoreFree g s₂).view
            have hFree : s₂.freeClst = s.freeClst := hTouch.freeClst.trans hLook.freeClst
            have hSame : s.freeClst ≤ g.nFatent - 2 → s.freeClst = freeCount g s.view := hAcc
            rw [hCount]
            rw [hCount] at hLe
            unfold oneMoreFree at hKnown ⊢
            split at hKnown
            · rename_i hLess
              rw [if_pos hLess]
              show s₂.freeClst + 1 = _
              omega
            · rename_i hMany
              rw [if_neg hMany]
              omega
          · intro t
            rw [hTurn t, if_neg (not_not.mpr rfl)]
        · refine .inl ⟨.diskErr, s₂, fun t => ?_, hCoh₂, .inr (.inr ⟨rfl, hFail⟩)⟩
          rw [hTurn t, if_pos (by decide)]
  · refine .inl ⟨.diskErr, s₁, fun t => ?_, hCoh₁, .inr (.inr ⟨rfl, hFail⟩)⟩
    rw [removeLoop, hEq₁]
    rfl

/-- The bound on the turns is never reached, whatever the table looks like: each turn that
goes on has freed a cluster that was in use. -/
theorem removeLoop_turns (D : Device) (h : Coherent s) (hClst : g.Cluster clst)
    (ht : g.nFatent - 2 - freeCount g s.view < turns) :
    removeLoop D g (turns + 1) s clst = removeLoop D g turns s clst := by
  induction turns generalizing s clst with
  | zero => omega
  | succ turns ih =>
    rcases removeLoop_succ D h hClst with ⟨res, s', hAll, -, -⟩ |
      ⟨s', hFreed, hCoh, -, hUsed, hLow, hAll⟩
    · rw [hAll, hAll]
    · rw [hAll, hAll]
      by_cases hNext : g.fat s.view clst < g.nFatent
      · rw [if_pos hNext, if_pos hNext]
        have hCount := hFreed.freeCount hClst hUsed
        have hLe := freeCount_le g s'.view
        exact ih hCoh ⟨hLow, hNext⟩ (by omega)
      · rw [if_neg hNext, if_neg hNext]

/-- What freeing the clusters `l` leaves. -/
structure FreedAll (g : Geometry) (s s' : Fatfs) (l : List Nat) : Prop extends Outside g s s' where
  zero   : ∀ c ∈ l, g.fat s'.view c = 0
  others : ∀ c, g.Cluster c → c ∉ l → g.fat s'.view c = g.fat s.view c

/-- The loop frees the clusters of a chain and no others. -/
theorem removeLoop_chain (hD : D.Reliable) (h : Coherent s) {l : List Nat}
    (hChain : g.Chain s.view clst l) (ht : l.length ≤ turns) :
    ∃ s', removeLoop D g turns s clst = (.ok, s') ∧ FreedAll g s s' l ∧ Coherent s' ∧
      (Accurate g s → Accurate g s') := by
  induction turns generalizing s clst l with
  | zero => exact absurd (List.length_eq_zero_iff.mp (by omega)) hChain.ne_nil
  | succ turns ih =>
    have hClst : g.Cluster clst := hChain.node_head
    have hMem : clst ∈ l := by
      obtain ⟨t, rfl⟩ := hChain.exists_cons
      exact List.mem_cons_self
    rcases removeLoop_succ D h hClst with ⟨res, s', -, -, hEnd⟩ |
      ⟨s₁, hFreed, hCoh, hAcc, -, -, hTurn⟩
    · rcases hEnd with ⟨-, hZero⟩ | ⟨-, hOne⟩ | ⟨-, k, hFail⟩
      · exact absurd hZero (hChain.ne_zero hMem)
      · have hSome := g.someCluster
        rcases hChain.next_of_mem hMem with ⟨hLo, -⟩ | hStop <;> omega
      · exact absurd hFail (by simp [hD k])
    · rw [hTurn]
      have hNodup := hChain.nodup
      cases hChain with
      | last _ hStop =>
        rw [if_neg (by omega)]
        refine ⟨s₁, rfl, ⟨hFreed.toOutside, ?_, ?_⟩, hCoh, hAcc⟩
        · intro c hc
          rw [List.mem_singleton.mp hc, hFreed.zero]
        · intro c hc hNot
          exact hFreed.others c hc fun hEq => hNot (hEq ▸ List.mem_singleton_self _)
      | @cons _ t _ hRest =>
        rw [if_pos hRest.node_head.2]
        obtain ⟨hNotMem, -⟩ := List.nodup_cons.mp hNodup
        -- the rest of the chain is as it was
        have hRest₁ : g.Chain s₁.view (g.fat s.view clst) t := by
          refine hRest.congr fun x hx => hFreed.others x (hRest.node_of_mem hx) ?_
          rintro rfl
          exact hNotMem hx
        obtain ⟨s₂, hEq, hAll, hCoh₂, hAcc₂⟩ := ih hCoh hRest₁ (by
          rw [List.length_cons] at ht
          omega)
        refine ⟨s₂, hEq, ⟨hFreed.toOutside.trans hAll.toOutside, ?_, ?_⟩, hCoh₂, hAcc₂ ∘ hAcc⟩
        · intro c hc
          rcases List.mem_cons.mp hc with rfl | hc
          · rw [hAll.others c hClst hNotMem, hFreed.zero]
          · exact hAll.zero c hc
        · intro c hc hNot
          rw [hAll.others c hc fun hx => hNot (List.mem_cons_of_mem _ hx),
            hFreed.others c hc fun hEq' => hNot (hEq' ▸ List.mem_cons_self)]

/-- A chain is shorter than the table. -/
theorem Geometry.Chain.length_le {v : Nat → Sector} {l : List Nat} (h : g.Chain v c l) :
    l.length ≤ g.nFatent - 2 := by
  have hSub : l.toFinset ⊆ Finset.Ico 2 g.nFatent := by
    intro x hx
    exact Finset.mem_Ico.mpr (h.node_of_mem (List.mem_toFinset.mp hx))
  have hCard := Finset.card_le_card hSub
  rwa [List.toFinset_card_of_nodup h.nodup, Nat.card_Ico] at hCard

theorem removeChain_spec (hD : D.Reliable) (h : Coherent s) {l : List Nat}
    (hChain : g.Chain s.view clst l) :
    ∃ s', removeChain D g s clst 0 = (.ok, s') ∧ FreedAll g s s' l ∧ Coherent s' ∧
      (Accurate g s → Accurate g s') := by
  have hClst : g.Cluster clst := hChain.node_head
  have hLength := hChain.length_le
  rw [removeChain, if_neg (by obtain ⟨hLo, hHi⟩ := hClst; omega), if_neg (not_not.mpr rfl)]
  exact removeLoop_chain hD h hChain (by omega)

/-- `remove_chain` from the cluster after `pclst` on: the chain ends with `pclst`. -/
theorem removeChain_tail (hD : D.Reliable) (h : Coherent s) {pre post : List Nat} {pclst : Nat}
    (hChain : g.Chain s.view c (pre ++ pclst :: clst :: post)) :
    ∃ s', removeChain D g s clst pclst = (.ok, s') ∧ Outside g s s' ∧
      g.Chain s'.view c (pre ++ [pclst]) ∧ (∀ x ∈ clst :: post, g.fat s'.view x = 0) ∧
      (∀ x, g.Cluster x → x ∉ pclst :: clst :: post → g.fat s'.view x = g.fat s.view x) ∧
      Coherent s' ∧ (Accurate g s → Accurate g s') := by
  have hPclst : g.Cluster pclst := hChain.node_of_mem (by simp)
  have hNodup := hChain.nodup
  have hTail : g.Chain s.view clst (clst :: post) := by
    have hSplit : pre ++ pclst :: clst :: post = (pre ++ [pclst]) ++ clst :: post := by simp
    rw [hSplit] at hChain
    exact hChain.suffix
  have hClst : g.Cluster clst := hTail.node_head
  obtain ⟨s₁, hEq₁, hTouch, hCoh₁, hEoc, hOther⟩ := putFat_eq hD h hPclst 0xFFFFFFFF
  have hApart : ∀ x ∈ pre ++ clst :: post, x ≠ pclst := by
    rintro x hx rfl
    rw [List.nodup_middle] at hNodup
    exact (List.nodup_cons.mp hNodup).1 hx
  -- the rest is still a chain, and its clusters are others than those before
  have hTail₁ : g.Chain s₁.view clst (clst :: post) :=
    hTail.congr fun x hx => hOther x (hTail.node_of_mem hx) (hApart x (by simp_all))
  have hLength := hTail₁.length_le
  obtain ⟨s₂, hEq₂, hAll, hCoh₂, hAcc⟩ := removeLoop_chain hD hCoh₁ hTail₁
    (show (clst :: post).length ≤ g.nFatent by omega)
  have hDisjoint : ∀ x ∈ pre, x ∉ clst :: post := by
    intro x hx hx'
    exact (List.disjoint_of_nodup_append hNodup) hx (List.mem_cons_of_mem _ hx')
  refine ⟨s₂, ?_, hTouch.toOutside.trans hAll.toOutside, ?_, hAll.zero, ?_, hCoh₂, ?_⟩
  · rw [removeChain, if_neg (by obtain ⟨hLo, hHi⟩ := hClst; omega),
      if_pos (by obtain ⟨hLo, -⟩ := hPclst; omega), hEq₁]
    exact hEq₂
  · refine Linked.cut hChain ?_ ?_
    · intro x hx
      have hx' : g.Cluster x := hChain.node_of_mem (by simp [hx])
      rw [hAll.others x hx' (hDisjoint x hx), hOther x hx' (hApart x (by simp [hx]))]
    · have hNot : pclst ∉ clst :: post := fun hc => hApart pclst (by simp_all) rfl
      show g.nFatent ≤ g.fat s₂.view pclst
      rw [hAll.others pclst hPclst hNot, hEoc]
      exact nFatent_le_eoc g
  · intro x hx hNot
    rw [hAll.others x hx fun hc => hNot (List.mem_cons_of_mem _ hc),
      hOther x hx fun hc => hNot (hc ▸ List.mem_cons_self)]
  · intro hKnown
    refine hAcc fun hLe => ?_
    rw [hTouch.freeClst] at hLe ⊢
    rw [hKnown hLe]
    refine (freeCount_congr fun x hx => ?_).symm
    by_cases hHere : x = pclst
    · -- neither value of the entry means a free cluster
      subst hHere
      have hEnd := nFatent_le_eoc g
      have hSome := g.someCluster
      rw [hEoc]
      exact iff_of_false (by omega) (hChain.ne_zero (by simp))
    · rw [hOther x hx hHere]

-- ---------------------------------------------------------------------------
-- The chains of a volume
-- ---------------------------------------------------------------------------

/-- `create_chain` on a table without damage: the end of a chain, or nothing, is given a
cluster that was free, unless none is. -/
theorem createChain_spec (hD : D.Reliable) (h : Coherent s) (hAcc : Accurate g s)
    (hSane : ∀ c, g.Cluster c → g.fat s.view c ≠ 1)
    (hClst : clst = 0 ∨ g.Cluster clst ∧ g.nFatent ≤ g.fat s.view clst) :
    (∃ s', createChain D g s clst = (0, s') ∧ Looked g s s' ∧ Coherent s' ∧
      ∀ c, g.Cluster c → g.fat s.view c ≠ 0) ∨
    ∃ ncl s', createChain D g s clst = (ncl, s') ∧ g.Cluster ncl ∧ g.fat s.view ncl = 0 ∧
      Grown g s s' clst ncl ∧ Coherent s' := by
  have hSome := g.someCluster
  obtain ⟨r, s', hEq, hCoh, hCreated⟩ := createChain_cases D h (hClst.imp_right And.left)
  cases hCreated with
  | existing hc hNext _ =>
    obtain ⟨-, hEnd⟩ := hClst.resolve_left hc
    exact absurd hEnd hNext.not_stop
  | full hFull hLook =>
    refine .inl ⟨s', hEq, hLook, hCoh, ?_⟩
    rcases hFull with hZero | hAll
    · intro c hc
      exact freeCount_eq_zero ((hAcc (by omega)).symm.trans hZero) hc
    · exact hAll
  | grown hNcl hFree hGrown => exact .inr ⟨r, s', hEq, hNcl, hFree, hGrown, hCoh⟩
  | intError hBad _ =>
    rcases hBad with ⟨c, hc, hOne⟩ | ⟨hc, hZero⟩
    · exact absurd hOne (hSane c hc)
    · obtain ⟨-, hEnd⟩ := hClst.resolve_left hc
      omega
  | @diskError _ k hFail _ => exact absurd hFail (by simp [hD k])

/-- What is known of a volume on which `chains` are the chains in use, besides the clusters
`U` of other objects, with the entries `f`. -/
structure Accounted {ι : Type*} (g : Geometry) (s : Fatfs) (U : Nat → Prop) (f : Nat → Nat)
    (chains : ι → List Nat) : Prop where
  coherent : Coherent s
  accurate : Accurate g s
  sound    : ∀ i, chains i = [] ∨ ∃ c, g.Chain s.view c (chains i)
  apart    : ∀ i j c, c ∈ chains i → c ∈ chains j → i = j
  used     : ∀ c, g.Cluster c → (g.fat s.view c ≠ 0 ↔ (∃ i, c ∈ chains i) ∨ U c)
  foreign  : ∀ c, g.Cluster c → U c → g.fat s.view c = f c ∧ ∀ i, c ∉ chains i
  sane     : ∀ c, g.Cluster c → g.fat s.view c ≠ 1

section Volume

variable {ι : Type*} {U : Nat → Prop} {f : Nat → Nat} {chains : ι → List Nat}

theorem Accounted.chain_of_ne (h : Accounted g s U f chains) {i : ι} (hi : chains i ≠ []) :
    ∃ c, g.Chain s.view c (chains i) := (h.sound i).resolve_left hi

theorem Accounted.cluster_of_mem (h : Accounted g s U f chains) {i : ι} (hc : c ∈ chains i) :
    g.Cluster c := by
  obtain ⟨x, hChain⟩ := h.chain_of_ne (List.ne_nil_of_mem hc)
  exact hChain.node_of_mem hc

/-- The table is as before, and so is the count of free clusters. -/
theorem Accounted.same_table (h : Accounted g s U f chains) (hCoh : Coherent s')
    (hFat : ∀ c, g.Cluster c → g.fat s'.view c = g.fat s.view c) (hFree : s'.freeClst = s.freeClst) :
    Accounted g s' U f chains where
  coherent := hCoh
  accurate hLe := by
    rw [hFree] at hLe ⊢
    rw [h.accurate hLe]
    exact (freeCount_congr fun c hc => by rw [hFat c hc]).symm
  sound i := (h.sound i).imp_right fun ⟨c, hChain⟩ =>
    ⟨c, hChain.congr fun _ hx => hFat _ (hChain.node_of_mem hx)⟩
  apart := h.apart
  used c hc := by rw [hFat c hc, h.used c hc]
  foreign c hc hU := by
    rw [hFat c hc]
    exact h.foreign c hc hU
  sane c hc := by
    rw [hFat c hc]
    exact h.sane c hc

/-- A look at the table changes nothing of it. -/
theorem Accounted.look (h : Accounted g s U f chains) (hLook : Looked g s s')
    (hCoh : Coherent s') : Accounted g s' U f chains :=
  h.same_table hCoh (fun _ hc => hLook.fat hc) hLook.freeClst

variable [DecidableEq ι]

/-- One chain changes: it may take clusters that were free, and gives up others. -/
theorem Accounted.replace (h : Accounted g s U f chains) (i : ι) {l : List Nat}
    (hCoherent : Coherent s') (hAccurate : Accurate g s')
    (hSound : l = [] ∨ ∃ c, g.Chain s'.view c l)
    (hFrame : ∀ c, g.Cluster c → c ∉ chains i → c ∉ l → g.fat s'.view c = g.fat s.view c)
    (hNew : ∀ c ∈ l, c ∈ chains i ∨ g.fat s.view c = 0)
    (hGone : ∀ c ∈ chains i, c ∉ l → g.fat s'.view c = 0) :
    Accounted g s' U f (Function.update chains i l) := by
  have hSome := g.someCluster
  have hIn : ∀ c ∈ l, g.Cluster c ∧ g.fat s'.view c ≠ 0 ∧ g.fat s'.view c ≠ 1 := by
    intro c hc
    obtain ⟨x, hChain⟩ := hSound.resolve_left (List.ne_nil_of_mem hc)
    refine ⟨hChain.node_of_mem hc, hChain.ne_zero hc, ?_⟩
    rcases hChain.next_of_mem hc with ⟨hLo, -⟩ | hStop <;> omega
  -- a cluster of another chain, or of another object, is in neither list
  have hOther : ∀ j c, j ≠ i → c ∈ chains j → c ∉ chains i ∧ c ∉ l := by
    intro j c hj hc
    have hNot : c ∉ chains i := fun hc' => hj (h.apart j i c hc hc')
    refine ⟨hNot, fun hl => ?_⟩
    rcases hNew c hl with hc' | hZero
    · exact hNot hc'
    · exact (h.used c (h.cluster_of_mem hc)).mpr (.inl ⟨j, hc⟩) hZero
  have hForeign : ∀ c, g.Cluster c → U c → c ∉ chains i ∧ c ∉ l := by
    intro c hCluster hU
    have hNot := (h.foreign c hCluster hU).2 i
    refine ⟨hNot, fun hl => ?_⟩
    rcases hNew c hl with hc' | hZero
    · exact hNot hc'
    · exact (h.used c hCluster).mpr (.inr hU) hZero
  refine ⟨hCoherent, hAccurate, ?_, ?_, ?_, ?_, ?_⟩
  · intro j
    by_cases hj : j = i
    · rw [hj, Function.update_self]
      exact hSound
    · rw [Function.update_of_ne hj]
      refine (h.sound j).imp_right ?_
      rintro ⟨c, hChain⟩
      refine ⟨c, hChain.congr fun x hx => ?_⟩
      obtain ⟨hNot, hNot'⟩ := hOther j x hj hx
      exact hFrame x (hChain.node_of_mem hx) hNot hNot'
  · intro j k c hj hk
    by_cases hji : j = i <;> by_cases hki : k = i
    · rw [hji, hki]
    · rw [hji, Function.update_self] at hj
      rw [Function.update_of_ne hki] at hk
      exact absurd hj (hOther k c hki hk).2
    · rw [hki, Function.update_self] at hk
      rw [Function.update_of_ne hji] at hj
      exact absurd hk (hOther j c hji hj).2
    · rw [Function.update_of_ne hji] at hj
      rw [Function.update_of_ne hki] at hk
      exact h.apart j k c hj hk
  · intro c hc
    by_cases hl : c ∈ l
    · exact iff_of_true (hIn c hl).2.1 (.inl ⟨i, by rwa [Function.update_self]⟩)
    · by_cases hi : c ∈ chains i
      · rw [hGone c hi hl]
        refine iff_of_false (not_not.mpr rfl) ?_
        rintro (⟨j, hj⟩ | hU)
        · by_cases hji : j = i
          · rw [hji, Function.update_self] at hj
            exact hl hj
          · rw [Function.update_of_ne hji] at hj
            exact (hOther j c hji hj).1 hi
        · exact (hForeign c hc hU).1 hi
      · rw [hFrame c hc hi hl, h.used c hc]
        refine or_congr_left ⟨?_, ?_⟩
        · rintro ⟨j, hj⟩
          refine ⟨j, ?_⟩
          rw [Function.update_of_ne]
          · exact hj
          · rintro rfl
            exact hi hj
        · rintro ⟨j, hj⟩
          by_cases hji : j = i
          · rw [hji, Function.update_self] at hj
            exact absurd hj hl
          · rw [Function.update_of_ne hji] at hj
            exact ⟨j, hj⟩
  · intro c hc hU
    obtain ⟨hNot, hNot'⟩ := hForeign c hc hU
    refine ⟨(hFrame c hc hNot hNot').trans (h.foreign c hc hU).1, fun j hj => ?_⟩
    by_cases hji : j = i
    · rw [hji, Function.update_self] at hj
      exact hNot' hj
    · rw [Function.update_of_ne hji] at hj
      exact (h.foreign c hc hU).2 j hj
  · intro c hc
    by_cases hl : c ∈ l
    · exact (hIn c hl).2.2
    · by_cases hi : c ∈ chains i
      · rw [hGone c hi hl]
        exact Nat.zero_ne_one
      · rw [hFrame c hc hi hl]
        exact h.sane c hc

/-- The cluster after which a chain is lengthened: its last, or 0 for a new chain. -/
def tailOf (l : List Nat) : Nat := l.getLastD 0

theorem dropLast_tailOf {l : List Nat} (h : l ≠ []) : l.dropLast ++ [tailOf l] = l := by
  rw [tailOf, List.getLastD_eq_getLast?, List.getLast?_eq_some_getLast h]
  exact List.dropLast_append_getLast h

theorem tailOf_mem {l : List Nat} (h : l ≠ []) : tailOf l ∈ l := by
  rw [tailOf, List.getLastD_eq_getLast?, List.getLast?_eq_some_getLast h]
  exact List.getLast_mem h

/-- `create_chain` lengthens a chain by one cluster, or there is no free one. -/
theorem Accounted.extend (hD : D.Reliable) (h : Accounted g s U f chains) (i : ι) :
    (∃ s', createChain D g s (tailOf (chains i)) = (0, s') ∧ Looked g s s' ∧
      Accounted g s' U f chains ∧ ∀ c, g.Cluster c → g.fat s.view c ≠ 0) ∨
    ∃ ncl s', createChain D g s (tailOf (chains i)) = (ncl, s') ∧ g.Cluster ncl ∧
      g.fat s.view ncl = 0 ∧ Grown g s s' (tailOf (chains i)) ncl ∧
      Accounted g s' U f (Function.update chains i (chains i ++ [ncl])) := by
  have hTail : chains i = [] ∧ tailOf (chains i) = 0 ∨ chains i ≠ [] ∧
      ∃ c, g.Chain s.view c ((chains i).dropLast ++ [tailOf (chains i)]) := by
    rcases h.sound i with hNil | ⟨c, hChain⟩
    · exact .inl ⟨hNil, by rw [hNil]; rfl⟩
    · refine .inr ⟨hChain.ne_nil, c, ?_⟩
      rw [dropLast_tailOf hChain.ne_nil]
      exact hChain
  have hClst : tailOf (chains i) = 0 ∨
      g.Cluster (tailOf (chains i)) ∧ g.nFatent ≤ g.fat s.view (tailOf (chains i)) := by
    rcases hTail with ⟨-, hZero⟩ | ⟨-, c, hChain⟩
    · exact .inl hZero
    · exact .inr ⟨hChain.node_of_mem (by simp), hChain.stop_last⟩
  rcases createChain_spec hD h.coherent h.accurate h.sane hClst with
    ⟨s', hEq, hLook, hCoh, hFull⟩ | ⟨ncl, s', hEq, hNcl, hFree, hGrown, hCoh⟩
  · exact .inl ⟨s', hEq, hLook, h.look hLook hCoh, hFull⟩
  · refine .inr ⟨ncl, s', hEq, hNcl, hFree, hGrown, ?_⟩
    have hNe : ∀ x ∈ chains i, x ≠ ncl := by
      rintro x hx rfl
      exact (h.used x hNcl).mpr (.inl ⟨i, hx⟩) hFree
    refine h.replace i hCoh ?_ (.inr ?_) ?_ ?_ ?_
    · -- one free cluster less
      intro hLe
      have hNotFree : ∀ x, g.Cluster x → x ≠ ncl → (g.fat s'.view x = 0 ↔ g.fat s.view x = 0) := by
        intro x hx hne
        by_cases hHere : x = tailOf (chains i)
        · subst hHere
          have hNcl' := hNcl.1
          rcases hClst with hZero | ⟨-, hEnd⟩
          · rw [hZero] at hx
            exact absurd hx.1 (by decide)
          · have hSome := g.someCluster
            rw [hGrown.link (by have := hx.1; omega)]
            omega
        · rw [hGrown.others x hx hne hHere]
      have hCount := freeCount_take hNcl hFree (by
        have hEnd := hGrown.new
        have hSome := g.someCluster
        omega) hNotFree
      have hBefore : s.freeClst ≤ g.nFatent - 2 → s.freeClst = freeCount g s.view := h.accurate
      rw [hGrown.freeClst] at hLe ⊢
      split at hLe
      · rename_i hKnown
        rw [if_pos hKnown]
        omega
      · rename_i hUnknown
        rw [if_neg hUnknown]
        omega
    · rcases hTail with ⟨hNil, -⟩ | ⟨hNe', c, hChain⟩
      · exact ⟨ncl, by rw [hNil]; exact .last hNcl hGrown.new⟩
      · refine ⟨c, ?_⟩
        have hTailCluster := h.cluster_of_mem (tailOf_mem hNe')
        have hNodup := hChain.nodup
        have hLonger : chains i ++ [ncl] = (chains i).dropLast ++ [tailOf (chains i), ncl] := by
          conv_lhs => rw [← dropLast_tailOf hNe']
          simp
        rw [hLonger]
        refine Linked.extend hChain ?_ (hGrown.link (by have := hTailCluster.1; omega)) hNcl
          hGrown.new
        intro z hz
        have hzMem : z ∈ chains i := List.mem_of_mem_dropLast hz
        refine hGrown.others z (h.cluster_of_mem hzMem) (hNe z hzMem) ?_
        rintro rfl
        exact (List.disjoint_of_nodup_append hNodup) hz (List.mem_singleton_self _)
    · intro x hx hNot hNot'
      refine hGrown.others x hx (by rintro rfl; exact hNot' (by simp)) ?_
      rintro rfl
      rcases hTail with ⟨-, hZero⟩ | ⟨hNe', -⟩
      · rw [hZero] at hx
        exact absurd hx.1 (by decide)
      · exact hNot (tailOf_mem hNe')
    · intro x hx
      rcases List.mem_append.mp hx with hx | hx
      · exact .inl hx
      · exact .inr (List.mem_singleton.mp hx ▸ hFree)
    · intro x hx hNot
      exact absurd (List.mem_append_left _ hx) hNot

/-- `remove_chain` of a whole chain. -/
theorem Accounted.remove (hD : D.Reliable) (h : Accounted g s U f chains) {i : ι}
    (hi : chains i ≠ []) :
    ∃ s', removeChain D g s ((chains i).headD 0) 0 = (.ok, s') ∧
      Accounted g s' U f (Function.update chains i []) := by
  obtain ⟨c, hChain⟩ := h.chain_of_ne hi
  obtain ⟨t, hCons⟩ := hChain.exists_cons
  obtain ⟨s', hEq, hFreed, hCoh, hAcc⟩ := removeChain_spec hD h.coherent hChain
  have hHead : (chains i).headD 0 = c := by rw [hCons]; rfl
  rw [hHead]
  refine ⟨s', hEq, h.replace i hCoh (hAcc h.accurate) (.inl rfl) ?_ (by simp) ?_⟩
  · exact fun x hx hNot _ => hFreed.others x hx hNot
  · exact fun x hx _ => hFreed.zero x hx

/-- `remove_chain` from the cluster with number `k` on. -/
theorem Accounted.truncate (hD : D.Reliable) (h : Accounted g s U f chains) {i : ι} {k : Nat}
    (hk : k + 1 < (chains i).length) :
    ∃ s', removeChain D g s ((chains i).getD (k + 1) 0) ((chains i).getD k 0) = (.ok, s') ∧
      Accounted g s' U f (Function.update chains i ((chains i).take (k + 1))) := by
  obtain ⟨c, hChain⟩ := h.chain_of_ne (i := i) (by
    intro hNil
    rw [hNil] at hk
    exact absurd hk (by simp))
  have hSplit : chains i = (chains i).take k ++ (chains i).getD k 0 ::
      (chains i).getD (k + 1) 0 :: (chains i).drop (k + 2) := by
    rw [List.getD_eq_getElem _ _ (by omega), List.getD_eq_getElem _ _ hk,
      ← List.drop_eq_getElem_cons hk, ← List.drop_eq_getElem_cons (by omega), List.take_append_drop]
  have hTake : (chains i).take (k + 1) = (chains i).take k ++ [(chains i).getD k 0] := by
    rw [List.take_add_one, List.getD_eq_getElem?_getD, List.getElem?_eq_getElem (by omega)]
    rfl
  have hNodup := hChain.nodup
  have hChain' := hChain
  rw [hSplit] at hChain'
  obtain ⟨s', hEq, -, hShort, hZero, hOther, hCoh, hAcc⟩ := removeChain_tail hD h.coherent hChain'
  refine ⟨s', hEq, ?_⟩
  rw [hTake]
  refine h.replace i hCoh (hAcc h.accurate) (.inr ⟨c, hShort⟩) ?_ ?_ ?_
  · intro x hx hNot _
    refine hOther x hx fun hc => hNot ?_
    rw [hSplit]
    exact List.mem_append_right _ hc
  · intro x hx
    refine .inl ?_
    rw [← hTake] at hx
    exact List.mem_of_mem_take hx
  · intro x hx hNot
    refine hZero x ?_
    rw [hSplit] at hx
    simp only [List.mem_append, List.mem_cons, List.not_mem_nil, or_false] at hx hNot ⊢
    tauto

/-- The calls that change chains: lengthen chain `i`, keep its first `k + 1` clusters, remove it. -/
inductive ChainOp (ι : Type*) where
  | extend (i : ι)
  | truncate (i : ι) (k : Nat)
  | remove (i : ι)

/-- A call, and what its answer makes of the chains as lists. -/
def chainStep (D : Device) (g : Geometry) (st : Fatfs × (ι → List Nat)) :
    ChainOp ι → Fatfs × (ι → List Nat)
  | .extend i =>
    let r := createChain D g st.1 (tailOf (st.2 i))
    if r.1 = 0 ∨ r.1 = intError ∨ r.1 = diskError then (r.2, st.2)
    else (r.2, Function.update st.2 i (st.2 i ++ [r.1]))
  | .truncate i k =>
    if k + 1 < (st.2 i).length then
      ((removeChain D g st.1 ((st.2 i).getD (k + 1) 0) ((st.2 i).getD k 0)).2,
        Function.update st.2 i ((st.2 i).take (k + 1)))
    else st
  | .remove i =>
    if st.2 i = [] then st
    else ((removeChain D g st.1 ((st.2 i).headD 0) 0).2, Function.update st.2 i [])

/-- The number of a cluster is none of the other answers. -/
theorem Geometry.Cluster.not_code (h : g.Cluster c) : ¬ (c = 0 ∨ c = intError ∨ c = diskError) := by
  obtain ⟨hLo, hHi⟩ := h
  have hLe := nFatent_le_eoc g
  have hWidth := width_le g.fsType
  have hMod := Nat.mod_lt 0xFFFFFFFF (Nat.two_pow_pos g.fsType.width)
  unfold intError diskError
  omega

theorem chainStep_accounted (hD : D.Reliable) (h : Accounted g s U f chains) (op : ChainOp ι) :
    Accounted g (chainStep D g (s, chains) op).1 U f (chainStep D g (s, chains) op).2 := by
  cases op with
  | extend i =>
    rw [chainStep]
    rcases h.extend hD i with ⟨s', hEq, -, hAcc, -⟩ | ⟨ncl, s', hEq, hNcl, -, -, hAcc⟩
    · rw [hEq, if_pos (.inl rfl)]
      exact hAcc
    · rw [hEq, if_neg hNcl.not_code]
      exact hAcc
  | truncate i k =>
    rw [chainStep]
    split
    · rename_i hk
      obtain ⟨s', hEq, hAcc⟩ := h.truncate hD hk
      rw [hEq]
      exact hAcc
    · exact h
  | remove i =>
    rw [chainStep]
    split
    · exact h
    · rename_i hi
      obtain ⟨s', hEq, hAcc⟩ := h.remove hD hi
      rw [hEq]
      exact hAcc

theorem chainSteps_accounted (hD : D.Reliable) (h : Accounted g s U f chains)
    (ops : List (ChainOp ι)) :
    Accounted g (ops.foldl (chainStep D g) (s, chains)).1 U f
      (ops.foldl (chainStep D g) (s, chains)).2 := by
  induction ops generalizing s chains with
  | nil => exact h
  | cons op ops ih => exact ih (chainStep_accounted hD h op)

/--
**Chains stay apart.** On a device that does not fail, from a volume whose clusters are
accounted for, over every run of calls that lengthen, shorten and remove chains, in any order:
the chains in the table are the lists that the answers of the calls make of them, no cluster is
in two of them, every other cluster is free or belongs to one of the other objects, whose
entries are as before, and `create_chain` answers that none is free exactly when that is so.
-/
theorem chains_stay_apart {D : Device} {g : Geometry} {s : Fatfs} {U : Nat → Prop}
    {f : Nat → Nat} {chains : ι → List Nat} (hD : D.Reliable) (h : Accounted g s U f chains)
    (ops : List (ChainOp ι)) {s' : Fatfs} {chains' : ι → List Nat}
    (hRun : ops.foldl (chainStep D g) (s, chains) = (s', chains')) :
    (∀ i, chains' i ≠ [] → g.Chain s'.view ((chains' i).headD 0) (chains' i)) ∧
    (∀ i j c, c ∈ chains' i → c ∈ chains' j → i = j) ∧
    (∀ c, g.Cluster c → (g.fat s'.view c = 0 ↔ (∀ i, c ∉ chains' i) ∧ ¬ U c)) ∧
    (∀ c, g.Cluster c → U c → g.fat s'.view c = f c) ∧
    ∀ i, (createChain D g s' (tailOf (chains' i))).1 = 0 ↔
      ∀ c, g.Cluster c → (∃ i, c ∈ chains' i) ∨ U c := by
  have hAcc : Accounted g s' U f chains' := by
    have hAll := chainSteps_accounted hD h ops
    rwa [hRun] at hAll
  refine ⟨?_, hAcc.apart, ?_, fun c hc hU => (hAcc.foreign c hc hU).1, ?_⟩
  · intro i hi
    obtain ⟨c, hChain⟩ := hAcc.chain_of_ne hi
    obtain ⟨t, hCons⟩ := hChain.exists_cons
    have hHead : (chains' i).headD 0 = c := by rw [hCons]; rfl
    rw [hHead]
    exact hChain
  · intro c hc
    have hUsed := (hAcc.used c hc).not
    rw [not_not, not_or, not_exists] at hUsed
    exact hUsed
  · intro i
    rcases hAcc.extend hD i with ⟨s₂, hEq, -, -, hFull⟩ | ⟨ncl, s₂, hEq, hNcl, hFree, -, -⟩
    · rw [hEq]
      exact iff_of_true rfl fun c hc => (hAcc.used c hc).mp (hFull c hc)
    · rw [hEq]
      refine iff_of_false (by have := hNcl.1; show ncl ≠ 0; omega) fun hAll => ?_
      exact (hAcc.used ncl hNcl).mpr (hAll ncl hNcl) hFree

end Volume

theorem byteAt_blankSector (i : Nat) : byteAt blankSector i = 0 := by
  have hByte : (List.replicate 512 (0 : UInt8)).getD i 0 = 0 := by
    rw [List.getD_eq_getElem?_getD, List.getElem?_replicate]
    split <;> rfl
  exact congrArg UInt8.toNat hByte

/-- On the blank volume every cluster is free. -/
theorem accounted_demoFatfs {ι : Type*} :
    Accounted demoGeometry demoFatfs (fun _ => False) (fun _ => 0) fun _ : ι => [] := by
  have hFat : ∀ c, demoGeometry.fat demoFatfs.view c = 0 := by
    intro c
    show byteAt blankSector _ + 2 ^ 8 * byteAt blankSector _ = 0
    rw [byteAt_blankSector, byteAt_blankSector, Nat.mul_zero]
  refine ⟨coherent_demoFatfs, ?_, fun _ => .inl rfl, by simp, ?_, by simp, ?_⟩
  · exact fun hLe => absurd hLe (by decide)
  · exact fun c _ => by simp [hFat c]
  · exact fun c _ => by simp [hFat c]

/-- Two chains lengthened in turn, one of them shortened and the other removed. -/
theorem chains_stay_apart_demo :
    demoGeometry.fat (List.foldl (chainStep { fails := fun _ => false, junk := fun _ _ => blankSector }
        demoGeometry) (demoFatfs, fun _ : Fin 2 => []) [.extend 0, .extend 1, .extend 0, .extend 1,
          .truncate 0 0, .remove 1, .extend 0]).1.view 3 = 0 ↔
      (∀ i, 3 ∉ (List.foldl (chainStep { fails := fun _ => false, junk := fun _ _ => blankSector }
        demoGeometry) (demoFatfs, fun _ : Fin 2 => []) [.extend 0, .extend 1, .extend 0, .extend 1,
          .truncate 0 0, .remove 1, .extend 0]).2 i) ∧ ¬ False :=
  (chains_stay_apart (fun _ => rfl) accounted_demoFatfs _ rfl).2.2.1 3 ⟨by decide, by decide⟩

end Nao.Fat
