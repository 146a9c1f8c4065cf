import Nao.Fat.Window

/-!
# FAT volumes — the table is an array of entries

An entry takes 12, 16 or 28 bits of the bytes of the table. Two neighbouring entries of FAT12
share a byte, and an entry may lie across two sectors; FAT32 keeps the upper four bits of
what was there. `FsType.entry` and `FsType.store` say this for the plain sequence of bytes,
and `entry_store` that one entry changes and every other stays.

## Results

* `getFat_cases`, `putFat_cases` — `get_fat` and `put_fat` read and write that array, on any
  device; an error is an error of the device.
* `fat_entries_independent` — what is read after any sequence of writes, for all three kinds of
  table.
-/

namespace Nao.Fat

open SysLib FatFs Disk

-- ---------------------------------------------------------------------------
-- Entries in a sequence of bytes
-- ---------------------------------------------------------------------------

/-- The bits of an entry. -/
def FsType.width : FsType → Nat
  | .fat12 => 12
  | .fat16 => 16
  | .fat32 => 28

/-- The entry of cluster `c` in the table with the bytes `b`. -/
def FsType.entry : FsType → (Nat → Nat) → Nat → Nat
  | .fat12, b, c =>
    let w := b (c + c / 2) + 2 ^ 8 * b (c + c / 2 + 1)
    if c % 2 = 1 then w / 2 ^ 4 else w % 2 ^ 12
  | .fat16, b, c => b (2 * c) + 2 ^ 8 * b (2 * c + 1)
  | .fat32, b, c =>
    (b (4 * c) + 2 ^ 8 * b (4 * c + 1) + 2 ^ 16 * b (4 * c + 2) + 2 ^ 24 * b (4 * c + 3)) % 2 ^ 28

/-- The bytes after the entry of cluster `c` was set to `v`. -/
def FsType.store : FsType → (Nat → Nat) → Nat → Nat → Nat → Nat
  | .fat12, b, c, v, k =>
    if c % 2 = 1 then
      if k = c + c / 2 then b k % 2 ^ 4 + 2 ^ 4 * (v % 2 ^ 4)
      else if k = c + c / 2 + 1 then v / 2 ^ 4 % 2 ^ 8
      else b k
    else
      if k = c + c / 2 then v % 2 ^ 8
      else if k = c + c / 2 + 1 then b k / 2 ^ 4 * 2 ^ 4 + v / 2 ^ 8 % 2 ^ 4
      else b k
  | .fat16, b, c, v, k =>
    if k = 2 * c then v % 2 ^ 8 else if k = 2 * c + 1 then v / 2 ^ 8 % 2 ^ 8 else b k
  | .fat32, b, c, v, k =>
    if k = 4 * c then v % 2 ^ 8
    else if k = 4 * c + 1 then v / 2 ^ 8 % 2 ^ 8
    else if k = 4 * c + 2 then v / 2 ^ 16 % 2 ^ 8
    else if k = 4 * c + 3 then v / 2 ^ 24 % 2 ^ 4 + b k / 2 ^ 4 * 2 ^ 4
    else b k

/-- **The codec.** Setting an entry changes that entry and no other. -/
theorem FsType.entry_store (t : FsType) {b : Nat → Nat} (hb : ∀ k, b k < 2 ^ 8) (c v c' : Nat) :
    t.entry (t.store b c v) c' = if c' = c then v % 2 ^ t.width else t.entry b c' := by
  cases t with
  | fat12 =>
    have hb₀ := hb (c' + c' / 2)
    have hb₁ := hb (c' + c' / 2 + 1)
    simp only [FsType.entry, FsType.store, FsType.width]
    by_cases hc : c' = c
    · subst hc
      have hNe : c' + c' / 2 + 1 ≠ c' + c' / 2 := by omega
      rw [if_pos rfl]
      by_cases hOdd : c' % 2 = 1
      · simp only [hOdd, if_true, hNe, if_false]
        omega
      · simp only [hOdd, if_true, hNe, if_false]
        omega
    · rw [if_neg hc]
      -- the bytes of the other entry that are touched keep its four bits
      by_cases hOdd : c % 2 = 1 <;> by_cases hOdd' : c' % 2 = 1 <;>
        simp only [hOdd, hOdd', if_true, if_false] <;> split_ifs <;> omega
  | fat16 =>
    simp only [FsType.entry, FsType.store, FsType.width]
    split_ifs <;> omega
  | fat32 =>
    by_cases hc : c' = c
    · subst hc
      have hb₃ := hb (4 * c' + 3)
      have h₀ : FsType.fat32.store b c' v (4 * c') = v % 2 ^ 8 := by simp [FsType.store]
      have h₁ : FsType.fat32.store b c' v (4 * c' + 1) = v / 2 ^ 8 % 2 ^ 8 := by simp [FsType.store]
      have h₂ : FsType.fat32.store b c' v (4 * c' + 2) = v / 2 ^ 16 % 2 ^ 8 := by simp [FsType.store]
      have h₃ : FsType.fat32.store b c' v (4 * c' + 3) =
          v / 2 ^ 24 % 2 ^ 4 + b (4 * c' + 3) / 2 ^ 4 * 2 ^ 4 := by simp [FsType.store]
      rw [if_pos rfl, FsType.entry, h₀, h₁, h₂, h₃, FsType.width]
      omega
    · have hSame : ∀ i < 4, FsType.fat32.store b c v (4 * c' + i) = b (4 * c' + i) := by
        intro i hi
        rw [FsType.store, if_neg (by omega), if_neg (by omega), if_neg (by omega),
          if_neg (by omega)]
      rw [if_neg hc, FsType.entry, FsType.entry, hSame 1 (by omega), hSame 2 (by omega),
        hSame 3 (by omega), ← Nat.add_zero (4 * c'), hSame 0 (by omega)]

-- ---------------------------------------------------------------------------
-- Bytes of a sector
-- ---------------------------------------------------------------------------

theorem byteAt_lt (x : Sector) (i : Nat) : byteAt x i < 2 ^ 8 := UInt8.toNat_lt _

theorem byteAt_putByte (x : Sector) {i : Nat} (hi : i < 512) (v k : Nat) :
    byteAt (putByte x i v) k = if k = i then v % 2 ^ 8 else byteAt x k := by
  unfold byteAt putByte
  by_cases hk : k = i
  · subst hk
    simp [List.getD_eq_getElem?_getD, x.size, hi]
  · simp [List.getD_eq_getElem?_getD, hk, List.getElem?_set_ne (Ne.symm hk)]

theorem byteAt_stWord (x : Sector) {o : Nat} (ho : o + 1 < 512) (v k : Nat) :
    byteAt (stWord x o v) k =
      if k = o then v % 2 ^ 8 else if k = o + 1 then v / 2 ^ 8 % 2 ^ 8 else byteAt x k := by
  rw [stWord, byteAt_putByte _ ho, byteAt_putByte _ (by omega), Nat.shiftRight_eq_div_pow]
  split_ifs <;> omega

theorem byteAt_stDword (x : Sector) {o : Nat} (ho : o + 3 < 512) (v k : Nat) :
    byteAt (stDword x o v) k =
      if k = o then v % 2 ^ 8 else if k = o + 1 then v / 2 ^ 8 % 2 ^ 8
      else if k = o + 2 then v / 2 ^ 16 % 2 ^ 8 else if k = o + 3 then v / 2 ^ 24 % 2 ^ 8
      else byteAt x k := by
  rw [stDword, byteAt_stWord _ (by omega), byteAt_stWord _ (by omega), Nat.shiftRight_eq_div_pow]
  split_ifs <;> omega

/-- Two bytes put together as the source does it. -/
theorem or_shiftLeft_eight {a b : Nat} (ha : a < 2 ^ 8) : a ||| b <<< 8 = a + 2 ^ 8 * b := by
  rw [Nat.or_comm, ← Nat.shiftLeft_add_eq_or_of_lt ha, Nat.shiftLeft_eq]
  omega

theorem and_one_ne_zero {c : Nat} : c &&& 1 ≠ 0 ↔ c % 2 = 1 := by
  rw [Nat.and_one_is_mod]
  omega

-- ---------------------------------------------------------------------------
-- The table of a volume
-- ---------------------------------------------------------------------------

variable {D : Device} {g : Geometry} {s s' : Fatfs} {c c' : Nat}

/-- Byte `k` of the first table. -/
def Geometry.fatByte (g : Geometry) (v : Nat → Sector) (k : Nat) : Nat :=
  byteAt (v (g.fatbase + k / 512)) (k % 512)

/-- The entry of cluster `c` in the first table. -/
def Geometry.fat (g : Geometry) (v : Nat → Sector) (c : Nat) : Nat :=
  g.fsType.entry (g.fatByte v) c

/-- The clusters of the volume. -/
def Geometry.Cluster (g : Geometry) (c : Nat) : Prop := 2 ≤ c ∧ c < g.nFatent

theorem not_mirror_of_inTable {n : Nat} (h : g.InTable n) : ¬ g.Mirror n := by
  rintro ⟨-, hLo, -⟩
  exact absurd h.2 (by omega)

theorem inTable_lt_database {n : Nat} (h : g.InTable n) : n < g.database := by
  obtain ⟨-, hHi⟩ := h
  have hTables := g.tablesFirst
  rcases g.fats with hFats | hFats <;> rw [hFats] at hTables <;> omega

theorem database_lt_noSector (g : Geometry) : g.database < noSector := by
  have hEnd := g.dataEnds
  have hSome := g.someCluster
  obtain ⟨k, -, hSize⟩ := g.clusterSize
  have hPos : 0 < g.csize * (g.nFatent - 2) :=
    Nat.mul_pos (hSize ▸ Nat.two_pow_pos k) (by omega)
  unfold noSector
  omega

/-- What a look at the table may change: the window, which is then in the table. -/
structure Looked (g : Geometry) (s s' : Fatfs) : Prop extends Kept g s s' where
  place : s'.winsect = s.winsect ∨ g.InTable s'.winsect ∨ s'.winsect = noSector

theorem Looked.refl (g : Geometry) (s : Fatfs) : Looked g s s := ⟨Kept.refl g s, .inl rfl⟩

theorem Looked.trans {s'' : Fatfs} (h : Looked g s s') (h' : Looked g s' s'') :
    Looked g s s'' := by
  refine ⟨h.toKept.trans h'.toKept, ?_⟩
  rcases h'.place with hSame | hElse
  · rw [hSame]
    exact h.place
  · exact .inr hElse

theorem moveWindow_table (D : Device) (h : Coherent s) {k : Nat} (hk : k < g.fsize) :
    ∃ res s', moveWindow D g s (g.fatbase + k) = (res, s') ∧ Looked g s s' ∧ Coherent s' ∧
      (res = .ok ∧ s'.winsect = g.fatbase + k ∧ s'.win = s.view (g.fatbase + k) ∨
        res = .diskErr ∧ ∃ k, D.fails k = true) := by
  have hIn : g.InTable (g.fatbase + k) := ⟨by omega, by omega⟩
  have hLt : g.fatbase + k < noSector :=
    lt_trans (inTable_lt_database hIn) (database_lt_noSector g)
  obtain ⟨res, s', hEq, hKept, hCoh, hRes⟩ :=
    moveWindow_cases D g h hLt (not_mirror_of_inTable hIn)
  refine ⟨res, s', hEq, ⟨hKept, ?_⟩, hCoh, ?_⟩
  · rcases hRes with ⟨-, hSect, -⟩ | ⟨-, hSame | hNone, -⟩
    · exact .inr (.inl (hSect ▸ hIn))
    · exact .inl hSame
    · exact .inr (.inr hNone)
  · rcases hRes with hOk | ⟨hErr, -, hFail⟩
    · exact .inl hOk
    · exact .inr ⟨hErr, hFail⟩

/-- The bytes of an entry are bytes of the table. -/
theorem Geometry.Cluster.byte_lt (hc : g.Cluster c) :
    match g.fsType with
    | .fat12 => (c + c / 2) / 512 < g.fsize ∧ (c + c / 2 + 1) / 512 < g.fsize
    | .fat16 => c / 256 < g.fsize
    | .fat32 => c / 128 < g.fsize := by
  obtain ⟨-, hHi⟩ := hc
  have hFits := g.tableFits
  cases hType : g.fsType <;> rw [hType] at hFits <;> simp only [FsType.tableBytes] at hFits ⊢ <;>
    omega

/-- **`get_fat` reads the array.** On any device the answer is the entry, or a disk error. -/
theorem getFat_cases (D : Device) (h : Coherent s) (hc : g.Cluster c) :
    ∃ val s', getFat D g s c = (val, s') ∧ Looked g s s' ∧ Coherent s' ∧
      (val = g.fat s.view c ∨ val = diskError ∧ ∃ k, D.fails k = true) := by
  have hRange : ¬ (c < 2 ∨ c ≥ g.nFatent) := by
    obtain ⟨hLo, hHi⟩ := hc
    omega
  have hByte := hc.byte_lt
  rw [getFat, if_neg hRange]
  cases hType : g.fsType with
  | fat12 =>
    rw [hType] at hByte
    obtain ⟨res₁, s₁, hEq₁, hLook₁, hCoh₁, hRes₁⟩ := moveWindow_table D h hByte.1
    obtain ⟨res₂, s₂, hEq₂, hLook₂, hCoh₂, hRes₂⟩ := moveWindow_table D hCoh₁ hByte.2
    rcases hRes₁ with ⟨rfl, -, hWin₁⟩ | ⟨rfl, hFail⟩
    · rcases hRes₂ with ⟨rfl, -, hWin₂⟩ | ⟨rfl, hFail⟩
      · refine ⟨_, s₂, ?_, hLook₁.trans hLook₂, hCoh₂, .inl rfl⟩
        have hSame : s₁.view (g.fatbase + (c + c / 2 + 1) / 512) =
            s.view (g.fatbase + (c + c / 2 + 1) / 512) :=
          hLook₁.view _ (not_mirror_of_inTable ⟨by omega, by have := hByte.2; omega⟩)
        have hW : byteAt s₁.win ((c + c / 2) % 512) ||| byteAt s₂.win ((c + c / 2 + 1) % 512) <<< 8 =
            g.fatByte s.view (c + c / 2) + 2 ^ 8 * g.fatByte s.view (c + c / 2 + 1) := by
          rw [or_shiftLeft_eight (byteAt_lt _ _), hWin₁, hWin₂, hSame]
          rfl
        simp only [hEq₁, hEq₂, ne_eq, not_true_eq_false, if_false, hW, Geometry.fat, hType,
          FsType.entry, ← and_one_ne_zero, Nat.shiftRight_eq_div_pow]
        congr 1
        by_cases hOdd : c &&& 1 = 0
        · simp only [hOdd, not_true_eq_false, if_false]
          exact Nat.and_two_pow_sub_one_eq_mod _ 12
        · simp only [hOdd, not_false_eq_true, if_true]
      · refine ⟨diskError, s₂, ?_, hLook₁.trans hLook₂, hCoh₂, .inr ⟨rfl, hFail⟩⟩
        simp [hEq₁, hEq₂]
    · exact ⟨diskError, s₁, by simp [hEq₁], hLook₁, hCoh₁, .inr ⟨rfl, hFail⟩⟩
  | fat16 =>
    rw [hType] at hByte
    obtain ⟨res₁, s₁, hEq₁, hLook₁, hCoh₁, hRes₁⟩ := moveWindow_table D h hByte
    rcases hRes₁ with ⟨rfl, -, hWin₁⟩ | ⟨rfl, hFail⟩
    · refine ⟨_, s₁, ?_, hLook₁, hCoh₁, .inl rfl⟩
      have h₀ : 2 * c / 512 = c / 256 := by omega
      have h₁ : (2 * c + 1) / 512 = c / 256 := by omega
      have h₂ : (2 * c + 1) % 512 = c * 2 % 512 + 1 := by omega
      have h₃ : 2 * c % 512 = c * 2 % 512 := by omega
      simp only [hEq₁, ne_eq, not_true_eq_false, if_false, ldWord, hWin₁, Geometry.fat, hType,
        FsType.entry, Geometry.fatByte, h₀, h₁, h₂, h₃]
    · exact ⟨diskError, s₁, by simp [hEq₁], hLook₁, hCoh₁, .inr ⟨rfl, hFail⟩⟩
  | fat32 =>
    rw [hType] at hByte
    obtain ⟨res₁, s₁, hEq₁, hLook₁, hCoh₁, hRes₁⟩ := moveWindow_table D h hByte
    rcases hRes₁ with ⟨rfl, -, hWin₁⟩ | ⟨rfl, hFail⟩
    · refine ⟨_, s₁, ?_, hLook₁, hCoh₁, .inl rfl⟩
      have hByteAt : ∀ i < 4, byteAt s₁.win (c * 4 % 512 + i) = g.fatByte s.view (4 * c + i) := by
        intro i hi
        have h₀ : (4 * c + i) / 512 = c / 128 := by omega
        have h₁ : (4 * c + i) % 512 = c * 4 % 512 + i := by omega
        rw [hWin₁, Geometry.fatByte, h₀, h₁]
      have hLd : ldDword s₁.win (c * 4 % 512) =
          g.fatByte s.view (4 * c) + 2 ^ 8 * g.fatByte s.view (4 * c + 1) +
            2 ^ 16 * g.fatByte s.view (4 * c + 2) + 2 ^ 24 * g.fatByte s.view (4 * c + 3) := by
        have h₀ : byteAt s₁.win (c * 4 % 512) = g.fatByte s.view (4 * c) := hByteAt 0 (by omega)
        rw [ldDword, ldWord, ldWord, h₀, hByteAt 1 (by omega), hByteAt 2 (by omega),
          hByteAt 3 (by omega)]
        omega
      have hMask : ldDword s₁.win (c * 4 % 512) &&& 0x0FFFFFFF =
          ldDword s₁.win (c * 4 % 512) % 2 ^ 28 := Nat.and_two_pow_sub_one_eq_mod _ 28
      simp only [hEq₁, ne_eq, not_true_eq_false, if_false]
      rw [hMask, hLd, Geometry.fat, hType, FsType.entry]
    · exact ⟨diskError, s₁, by simp [hEq₁], hLook₁, hCoh₁, .inr ⟨rfl, hFail⟩⟩

-- ---------------------------------------------------------------------------
-- Writing
-- ---------------------------------------------------------------------------

/-- What a change of the table leaves alone: every sector outside the tables. The window is
then in the table. -/
structure Outside (g : Geometry) (s s' : Fatfs) : Prop where
  view  : ∀ n, ¬ g.InTable n → ¬ g.Mirror n → s'.view n = s.view n
  place : s'.winsect = s.winsect ∨ g.InTable s'.winsect ∨ s'.winsect = noSector

theorem Outside.trans {s'' : Fatfs} (h : Outside g s s') (h' : Outside g s' s'') :
    Outside g s s'' where
  view n hn hn' := (h'.view n hn hn').trans (h.view n hn hn')
  place := by
    rcases h'.place with hSame | hElse
    · rw [hSame]
      exact h.place
    · exact .inr hElse

/-- A change of the table and not of the allocation information. -/
structure Touched (g : Geometry) (s s' : Fatfs) : Prop extends Outside g s s' where
  fsiFlag  : s'.fsiFlag = s.fsiFlag
  lastClst : s'.lastClst = s.lastClst
  freeClst : s'.freeClst = s.freeClst

theorem Looked.touched (h : Looked g s s') : Touched g s s' :=
  ⟨⟨fun n _ hn => h.view n hn, h.place⟩, h.fsiFlag, h.lastClst, h.freeClst⟩

theorem Touched.trans {s'' : Fatfs} (h : Touched g s s') (h' : Touched g s' s'') :
    Touched g s s'' where
  toOutside := h.toOutside.trans h'.toOutside
  fsiFlag := h'.fsiFlag.trans h.fsiFlag
  lastClst := h'.lastClst.trans h.lastClst
  freeClst := h'.freeClst.trans h.freeClst

/-- The bytes of the table, as far as it goes. -/
def SameBytes (g : Geometry) (b b' : Nat → Nat) : Prop := ∀ k, k / 512 < g.fsize → b k = b' k

theorem fatByte_lt (g : Geometry) (v : Nat → Sector) (k : Nat) : g.fatByte v k < 2 ^ 8 :=
  byteAt_lt _ _

theorem Looked.sameBytes (h : Looked g s s') :
    SameBytes g (g.fatByte s'.view) (g.fatByte s.view) := by
  intro k hk
  rw [Geometry.fatByte, h.view _ (not_mirror_of_inTable ⟨by omega, by omega⟩), Geometry.fatByte]

theorem Geometry.Cluster.entry_congr (hc : g.Cluster c) {b b' : Nat → Nat}
    (h : SameBytes g b b') : g.fsType.entry b c = g.fsType.entry b' c := by
  have hByte := hc.byte_lt
  cases hType : g.fsType <;> rw [hType] at hByte <;> simp only [FsType.entry]
  · rw [h _ hByte.1, h _ hByte.2]
  · rw [h _ (by omega), h _ (by omega)]
  · rw [h _ (by omega), h _ (by omega), h _ (by omega), h _ (by omega)]

theorem Looked.fat (h : Looked g s s') (hc : g.Cluster c) : g.fat s'.view c = g.fat s.view c :=
  hc.entry_congr h.sameBytes

/-- Bring up a sector of the table and change it. -/
theorem changeTable (D : Device) (h : Coherent s) {k : Nat} (hk : k < g.fsize)
    (f : Sector → Sector) :
    ∃ res s', moveWindow D g s (g.fatbase + k) = (res, s') ∧
      (res = .ok ∧ s'.win = s.view (g.fatbase + k) ∧ Touched g s (s'.edit f) ∧
          Coherent (s'.edit f) ∧
          SameBytes g (g.fatByte (s'.edit f).view) (fun i =>
            if i / 512 = k then byteAt (f (s.view (g.fatbase + k))) (i % 512)
            else g.fatByte s.view i) ∨
        res = .diskErr ∧ Looked g s s' ∧ Coherent s' ∧ ∃ k, D.fails k = true) := by
  obtain ⟨res, s', hEq, hLook, hCoh, hRes⟩ := moveWindow_table D h hk
  refine ⟨res, s', hEq, ?_⟩
  rcases hRes with ⟨hOk, hSect, hWin⟩ | ⟨hErr, hFail⟩
  · refine .inl ⟨hOk, hWin, ⟨⟨?_, hLook.place⟩, hLook.fsiFlag, hLook.lastClst, hLook.freeClst⟩,
      hCoh.edit f, ?_⟩
    · intro n hn hn'
      rw [view_edit, if_neg (by rintro rfl; exact hn (hSect ▸ ⟨by omega, by omega⟩)),
        hLook.view n hn']
    · intro i hi
      have hIff : g.fatbase + i / 512 = s'.winsect ↔ i / 512 = k := by omega
      simp only [Geometry.fatByte, view_edit, hIff]
      split
      · rw [hWin]
      · exact congrArg (byteAt · _)
          (hLook.view _ (not_mirror_of_inTable ⟨by omega, by omega⟩))
  · exact .inr ⟨hErr, hLook, hCoh, hFail⟩

/-- The two halves of a FAT12 entry, as arithmetic. -/
theorem lowNibble_or (p v : Nat) :
    ((p &&& 0x0F) ||| (v % 2 ^ 8) <<< 4) % 2 ^ 8 = p % 2 ^ 4 + 2 ^ 4 * (v % 2 ^ 4) := by
  have hLow : p &&& 0x0F = p % 2 ^ 4 := Nat.and_two_pow_sub_one_eq_mod p 4
  have hOr : p % 2 ^ 4 ||| (v % 2 ^ 8) <<< 4 = 2 ^ 4 * (v % 2 ^ 8) + p % 2 ^ 4 := by
    rw [Nat.or_comm, ← Nat.shiftLeft_add_eq_or_of_lt (Nat.mod_lt p (by decide)),
      Nat.shiftLeft_eq, Nat.mul_comm]
  rw [hLow, hOr]
  omega

theorem highNibble_or {p v : Nat} (hp : p < 2 ^ 8) :
    ((p &&& 0xF0) ||| ((v >>> 8) % 2 ^ 8 &&& 0x0F)) % 2 ^ 8 =
      p / 2 ^ 4 * 2 ^ 4 + v / 2 ^ 8 % 2 ^ 4 := by
  have hHigh : p &&& 0xF0 = p / 2 ^ 4 * 2 ^ 4 := @and_high_mask p 8 4 hp
  have hLow : (v >>> 8) % 2 ^ 8 &&& 0x0F = v / 2 ^ 8 % 2 ^ 4 := by
    have hMask : (v >>> 8) % 2 ^ 8 &&& 0x0F = (v >>> 8) % 2 ^ 8 % 2 ^ 4 :=
      Nat.and_two_pow_sub_one_eq_mod _ 4
    rw [hMask, Nat.shiftRight_eq_div_pow]
    omega
  have hOr : p / 2 ^ 4 * 2 ^ 4 ||| v / 2 ^ 8 % 2 ^ 4 = p / 2 ^ 4 * 2 ^ 4 + v / 2 ^ 8 % 2 ^ 4 := by
    rw [← Nat.shiftLeft_eq, ← Nat.shiftLeft_add_eq_or_of_lt (Nat.mod_lt _ (by decide))]
  rw [hHigh, hLow, hOr]
  omega

/-- The 28 bits of the new value under the upper four of the old one. -/
theorem keepUpperBits {old v : Nat} (hOld : old < 2 ^ 32) :
    (v &&& 0x0FFFFFFF) ||| (old &&& 0xF0000000) = v % 2 ^ 28 + old / 2 ^ 28 * 2 ^ 28 := by
  have hLow : v &&& 0x0FFFFFFF = v % 2 ^ 28 := Nat.and_two_pow_sub_one_eq_mod v 28
  have hHigh : old &&& 0xF0000000 = old / 2 ^ 28 * 2 ^ 28 := @and_high_mask old 32 28 hOld
  rw [hLow, hHigh, Nat.or_comm, ← Nat.shiftLeft_eq,
    ← Nat.shiftLeft_add_eq_or_of_lt (Nat.mod_lt v (by decide)), Nat.add_comm]

/-- Bring up the sector with byte `k` of the table and change that byte. -/
theorem changeByte (D : Device) (h : Coherent s) {k : Nat} (hk : k / 512 < g.fsize)
    (w : Nat → Nat) :
    ∃ res s', moveWindow D g s (g.fatbase + k / 512) = (res, s') ∧
      (res = .ok ∧ byteAt s'.win (k % 512) = g.fatByte s.view k ∧
          (∃ e, s'.edit (fun win => putByte win (k % 512) (w (g.fatByte s.view k))) = e ∧
            Touched g s e ∧ Coherent e ∧
            SameBytes g (g.fatByte e.view)
              (Function.update (g.fatByte s.view) k (w (g.fatByte s.view k) % 2 ^ 8))) ∨
        res = .diskErr ∧ Looked g s s' ∧ Coherent s' ∧ ∃ k, D.fails k = true) := by
  obtain ⟨res, s', hEq, hRes⟩ := changeTable (g := g) D h hk fun win =>
    putByte win (k % 512) (w (g.fatByte s.view k))
  refine ⟨res, s', hEq, ?_⟩
  rcases hRes with ⟨hOk, hWin, hTouch, hCoh, hBytes⟩ | hErr
  · refine .inl ⟨hOk, by rw [hWin, Geometry.fatByte], _, rfl, hTouch, hCoh, ?_⟩
    intro i hi
    rw [hBytes i hi, Function.update_apply]
    dsimp only
    rw [byteAt_putByte _ (Nat.mod_lt _ (by decide))]
    by_cases hHere : i = k
    · rw [hHere, if_pos rfl, if_pos rfl, if_pos rfl]
    · rw [if_neg hHere]
      split
      · rename_i hSec
        rw [if_neg (by omega), Geometry.fatByte, hSec]
      · rfl
  · exact .inr hErr

theorem SameBytes.update {b b' : Nat → Nat} (h : SameBytes g b b') (k v : Nat) :
    SameBytes g (Function.update b k v) (Function.update b' k v) := by
  intro i hi
  rw [Function.update_apply, Function.update_apply, h i hi]

/-- The first byte of a FAT12 entry alone: no other entry changes. -/
theorem entry_fat12_first {b : Nat → Nat} {v : Nat} (hb : ∀ k, b k < 2 ^ 8) (hc : c' ≠ c) :
    FsType.fat12.entry (Function.update b (c + c / 2)
      (if c % 2 = 1 then b (c + c / 2) % 2 ^ 4 + 2 ^ 4 * (v % 2 ^ 4) else v % 2 ^ 8)) c' =
    FsType.fat12.entry b c' := by
  have hb₀ := hb (c' + c' / 2)
  have hb₁ := hb (c' + c' / 2 + 1)
  have hShared : c' + c' / 2 + 1 = c + c / 2 → b (c' + c' / 2 + 1) = b (c + c / 2) := congrArg b
  simp only [FsType.entry, Function.update_apply]
  by_cases hOdd : c % 2 = 1 <;> by_cases hOdd' : c' % 2 = 1 <;>
    simp only [hOdd, hOdd', if_true, if_false] <;> split_ifs <;> omega

/-- The two bytes of a FAT12 entry. -/
theorem store_fat12 (b : Nat → Nat) (c v : Nat) :
    FsType.fat12.store b c v = Function.update (Function.update b (c + c / 2)
      (if c % 2 = 1 then b (c + c / 2) % 2 ^ 4 + 2 ^ 4 * (v % 2 ^ 4) else v % 2 ^ 8))
      (c + c / 2 + 1)
      (if c % 2 = 1 then v / 2 ^ 4 % 2 ^ 8
        else b (c + c / 2 + 1) / 2 ^ 4 * 2 ^ 4 + v / 2 ^ 8 % 2 ^ 4) := by
  funext k
  simp only [FsType.store, Function.update_apply]
  by_cases hSecond : k = c + c / 2 + 1
  · subst hSecond
    simp
  · by_cases hFirst : k = c + c / 2
    · subst hFirst
      simp
    · simp [hSecond, hFirst]

/-- What `put_fat` makes of the table. -/
def Put (g : Geometry) (s s' : Fatfs) (c v : Nat) (res : FResult) (D : Device) : Prop :=
  res = .ok ∧ SameBytes g (g.fatByte s'.view) (g.fsType.store (g.fatByte s.view) c v) ∨
    res = .diskErr ∧ (∀ c', g.Cluster c' → c' ≠ c → g.fat s'.view c' = g.fat s.view c') ∧
      ∃ k, D.fails k = true

theorem putFat_fat12 (D : Device) (h : Coherent s) (hc : g.Cluster c) (v : Nat)
    (hType : g.fsType = .fat12) :
    ∃ res s', putFat D g s c v = (res, s') ∧ Touched g s s' ∧ Coherent s' ∧
      Put g s s' c v res D := by
  have hByte := hc.byte_lt
  rw [hType] at hByte
  have hRange : 2 ≤ c ∧ c < g.nFatent := hc
  rw [putFat, if_pos hRange]
  simp only [hType]
  obtain ⟨res₁, s₁, hEq₁, hRes₁⟩ := changeByte (g := g) D h hByte.1 fun p =>
    if c &&& 1 ≠ 0 then (p &&& 0x0F) ||| (v % 2 ^ 8) <<< 4 else v
  rcases hRes₁ with ⟨rfl, hOld₁, e₁, hEdit₁, hTouch₁, hCoh₁, hBytes₁⟩ | ⟨rfl, hLook, hCoh, hFail⟩
  · have hValue₁ : (if c &&& 1 ≠ 0 then (g.fatByte s.view (c + c / 2) &&& 0x0F) ||| (v % 2 ^ 8) <<< 4
        else v) % 2 ^ 8 = if c % 2 = 1 then
          g.fatByte s.view (c + c / 2) % 2 ^ 4 + 2 ^ 4 * (v % 2 ^ 4) else v % 2 ^ 8 := by
      simp only [and_one_ne_zero]
      split
      · exact lowNibble_or _ _
      · rfl
    rw [hValue₁] at hBytes₁
    -- the second byte is still the old one
    have hSecond : g.fatByte e₁.view (c + c / 2 + 1) = g.fatByte s.view (c + c / 2 + 1) := by
      rw [hBytes₁ _ hByte.2, Function.update_of_ne (by omega)]
    obtain ⟨res₂, s₂, hEq₂, hRes₂⟩ := changeByte (g := g) D hCoh₁ hByte.2 fun p =>
      if c &&& 1 ≠ 0 then v >>> 4 else (p &&& 0xF0) ||| ((v >>> 8) % 2 ^ 8 &&& 0x0F)
    rcases hRes₂ with ⟨rfl, hOld₂, e₂, hEdit₂, hTouch₂, hCoh₂, hBytes₂⟩ | ⟨rfl, hLook₂, hCoh₂, hFail⟩
    · refine ⟨.ok, e₂, ?_, hTouch₁.trans hTouch₂, hCoh₂, .inl ⟨rfl, ?_⟩⟩
      · simp only [hEq₁, ne_eq, not_true_eq_false, if_false, hOld₁]
        simp only [ne_eq] at hEdit₁ hEdit₂
        simp only [hEdit₁, hEq₂, not_true_eq_false, if_false, hOld₂, hEdit₂]
      · have hValue₂ : (if c &&& 1 ≠ 0 then v >>> 4 else
            (g.fatByte e₁.view (c + c / 2 + 1) &&& 0xF0) ||| ((v >>> 8) % 2 ^ 8 &&& 0x0F)) % 2 ^ 8 =
            if c % 2 = 1 then v / 2 ^ 4 % 2 ^ 8
            else g.fatByte s.view (c + c / 2 + 1) / 2 ^ 4 * 2 ^ 4 + v / 2 ^ 8 % 2 ^ 4 := by
          simp only [and_one_ne_zero, hSecond]
          split
          · rw [Nat.shiftRight_eq_div_pow]
          · exact highNibble_or (fatByte_lt g _ _)
        rw [hValue₂] at hBytes₂
        rw [hType, store_fat12]
        exact fun k hk => (hBytes₂ k hk).trans (hBytes₁.update _ _ k hk)
    · refine ⟨.diskErr, s₂, ?_, hTouch₁.trans hLook₂.touched, hCoh₂, .inr ⟨rfl, ?_, hFail⟩⟩
      · simp only [hEq₁, ne_eq, not_true_eq_false, if_false, hOld₁]
        simp only [ne_eq] at hEdit₁
        simp only [hEdit₁, hEq₂, reduceCtorEq, not_false_eq_true, if_true]
      · intro c' hc' hne
        have hTorn := fun k hk => (hLook₂.sameBytes k hk).trans (hBytes₁ k hk)
        rw [Geometry.fat, hc'.entry_congr hTorn, Geometry.fat, hType]
        exact entry_fat12_first (fatByte_lt g s.view) hne
  · refine ⟨.diskErr, s₁, by simp [hEq₁], hLook.touched, hCoh, .inr ⟨rfl, ?_, hFail⟩⟩
    exact fun c' hc' _ => hLook.fat hc'

theorem putFat_fat16 (D : Device) (h : Coherent s) (hc : g.Cluster c) (v : Nat)
    (hType : g.fsType = .fat16) :
    ∃ res s', putFat D g s c v = (res, s') ∧ Touched g s s' ∧ Coherent s' ∧
      Put g s s' c v res D := by
  have hByte := hc.byte_lt
  rw [hType] at hByte
  have hRange : 2 ≤ c ∧ c < g.nFatent := hc
  rw [putFat, if_pos hRange]
  simp only [hType]
  obtain ⟨res, s₁, hEq, hRes⟩ := changeTable (g := g) D h hByte fun win =>
    stWord win (c * 2 % 512) v
  rcases hRes with ⟨rfl, -, hTouch, hCoh, hBytes⟩ | ⟨rfl, hLook, hCoh, hFail⟩
  · refine ⟨.ok, _, by simp only [hEq, ne_eq, not_true_eq_false, if_false], hTouch, hCoh,
      .inl ⟨rfl, ?_⟩⟩
    intro k hk
    rw [hBytes k hk, hType, FsType.store]
    dsimp only
    rw [byteAt_stWord _ (by omega), Geometry.fatByte]
    by_cases hSec : k / 512 = c / 256
    · rw [if_pos hSec, hSec]
      split_ifs <;> first | rfl | omega
    · rw [if_neg hSec, if_neg (by omega), if_neg (by omega)]
  · refine ⟨.diskErr, s₁, by simp [hEq], hLook.touched, hCoh, .inr ⟨rfl, ?_, hFail⟩⟩
    exact fun c' hc' _ => hLook.fat hc'

theorem putFat_fat32 (D : Device) (h : Coherent s) (hc : g.Cluster c) (v : Nat)
    (hType : g.fsType = .fat32) :
    ∃ res s', putFat D g s c v = (res, s') ∧ Touched g s s' ∧ Coherent s' ∧
      Put g s s' c v res D := by
  have hByte := hc.byte_lt
  rw [hType] at hByte
  have hRange : 2 ≤ c ∧ c < g.nFatent := hc
  rw [putFat, if_pos hRange]
  simp only [hType]
  obtain ⟨res, s₁, hEq, hRes⟩ := changeTable (g := g) D h hByte fun win =>
    stDword win (c * 4 % 512)
      ((v &&& 0x0FFFFFFF) ||| (ldDword win (c * 4 % 512) &&& 0xF0000000))
  rcases hRes with ⟨rfl, -, hTouch, hCoh, hBytes⟩ | ⟨rfl, hLook, hCoh, hFail⟩
  · refine ⟨.ok, _, by simp only [hEq, ne_eq, not_true_eq_false, if_false], hTouch, hCoh,
      .inl ⟨rfl, ?_⟩⟩
    intro k hk
    -- the old value, of which four bits are kept
    have hOld : ∀ x : Sector, ldDword x (c * 4 % 512) = byteAt x (c * 4 % 512) +
        2 ^ 8 * byteAt x (c * 4 % 512 + 1) + 2 ^ 16 * byteAt x (c * 4 % 512 + 2) +
        2 ^ 24 * byteAt x (c * 4 % 512 + 3) := by
      intro x
      rw [ldDword, ldWord, ldWord, Nat.add_assoc (c * 4 % 512) 2 1]
      omega
    have hLt : ∀ x : Sector, ∀ i, byteAt x i < 2 ^ 8 := byteAt_lt
    rw [hBytes k hk, hType, FsType.store]
    dsimp only
    rw [byteAt_stDword _ (by omega), Geometry.fatByte]
    by_cases hSec : k / 512 = c / 128
    · have h₀ := hLt (s.view (g.fatbase + c / 128)) (c * 4 % 512)
      have h₁ := hLt (s.view (g.fatbase + c / 128)) (c * 4 % 512 + 1)
      have h₂ := hLt (s.view (g.fatbase + c / 128)) (c * 4 % 512 + 2)
      have h₃ := hLt (s.view (g.fatbase + c / 128)) (c * 4 % 512 + 3)
      have hSum := hOld (s.view (g.fatbase + c / 128))
      rw [if_pos hSec, hSec, keepUpperBits (by omega)]
      by_cases hLast : k = 4 * c + 3
      · have hOfs : k % 512 = c * 4 % 512 + 3 := by omega
        rw [hOfs] at *
        simp only [hLast, hSum, show ¬ (c * 4 % 512 + 3 = c * 4 % 512) by omega,
          show ¬ (4 * c + 3 = 4 * c) by omega, if_false, if_true,
          show ¬ (c * 4 % 512 + 3 = c * 4 % 512 + 1) by omega,
          show ¬ (c * 4 % 512 + 3 = c * 4 % 512 + 2) by omega,
          show ¬ (4 * c + 3 = 4 * c + 1) by omega, show ¬ (4 * c + 3 = 4 * c + 2) by omega]
        omega
      · split_ifs <;> first | rfl | omega
    · rw [if_neg hSec, if_neg (by omega), if_neg (by omega), if_neg (by omega),
        if_neg (by omega)]
  · refine ⟨.diskErr, s₁, by simp [hEq], hLook.touched, hCoh, .inr ⟨rfl, ?_, hFail⟩⟩
    exact fun c' hc' _ => hLook.fat hc'

/-- **`put_fat` writes the array.** On any device the entry is changed and no other, or the
answer is a disk error; then at most the entry itself is damaged. -/
theorem putFat_cases (D : Device) (h : Coherent s) (hc : g.Cluster c) (v : Nat) :
    ∃ res s', putFat D g s c v = (res, s') ∧ Touched g s s' ∧ Coherent s' ∧
      (∀ c', g.Cluster c' → c' ≠ c → g.fat s'.view c' = g.fat s.view c') ∧
      (res = .ok ∧ g.fat s'.view c = v % 2 ^ g.fsType.width ∨
        res = .diskErr ∧ ∃ k, D.fails k = true) := by
  have hPut : ∃ res s', putFat D g s c v = (res, s') ∧ Touched g s s' ∧ Coherent s' ∧
      Put g s s' c v res D := by
    cases hType : g.fsType with
    | fat12 => exact putFat_fat12 D h hc v hType
    | fat16 => exact putFat_fat16 D h hc v hType
    | fat32 => exact putFat_fat32 D h hc v hType
  obtain ⟨res, s', hEq, hTouch, hCoh, hRes⟩ := hPut
  refine ⟨res, s', hEq, hTouch, hCoh, ?_⟩
  rcases hRes with ⟨hOk, hBytes⟩ | ⟨hErr, hOther, hFail⟩
  · have hEntry : ∀ c', g.Cluster c' → g.fat s'.view c' =
        if c' = c then v % 2 ^ g.fsType.width else g.fat s.view c' := by
      intro c' hc'
      rw [Geometry.fat, hc'.entry_congr hBytes, FsType.entry_store _ (fatByte_lt g s.view),
        Geometry.fat]
    refine ⟨fun c' hc' hne => by rw [hEntry c' hc', if_neg hne], .inl ⟨hOk, ?_⟩⟩
    rw [hEntry c hc, if_pos rfl]
  · exact ⟨hOther, .inr ⟨hErr, hFail⟩⟩

-- ---------------------------------------------------------------------------
-- Devices that do not fail
-- ---------------------------------------------------------------------------

theorem getFat_eq (hD : D.Reliable) (h : Coherent s) (hc : g.Cluster c) :
    ∃ s', getFat D g s c = (g.fat s.view c, s') ∧ Looked g s s' ∧ Coherent s' := by
  obtain ⟨val, s', hEq, hLook, hCoh, hVal | ⟨-, k, hFail⟩⟩ := getFat_cases D h hc
  · exact ⟨s', hVal ▸ hEq, hLook, hCoh⟩
  · exact absurd hFail (by simp [hD k])

theorem putFat_eq (hD : D.Reliable) (h : Coherent s) (hc : g.Cluster c) (v : Nat) :
    ∃ s', putFat D g s c v = (.ok, s') ∧ Touched g s s' ∧ Coherent s' ∧
      g.fat s'.view c = v % 2 ^ g.fsType.width ∧
      ∀ c', g.Cluster c' → c' ≠ c → g.fat s'.view c' = g.fat s.view c' := by
  obtain ⟨res, s', hEq, hTouch, hCoh, hOther, ⟨hOk, hEntry⟩ | ⟨-, k, hFail⟩⟩ :=
    putFat_cases D h hc v
  · exact ⟨s', hOk ▸ hEq, hTouch, hCoh, hEntry, hOther⟩
  · exact absurd hFail (by simp [hD k])

/-- A list of `put_fat` calls. -/
def putAll (D : Device) (g : Geometry) : Fatfs → List (Nat × Nat) → Fatfs
  | s, [] => s
  | s, (c, v) :: writes => putAll D g (putFat D g s c v).2 writes

/-- The last value written to a cluster's entry. -/
def lastWritten (c : Nat) (writes : List (Nat × Nat)) : Option Nat :=
  (writes.reverse.find? fun w => w.1 = c).map Prod.snd

theorem putAll_spec (hD : D.Reliable) (h : Coherent s) {writes : List (Nat × Nat)}
    (hw : ∀ w ∈ writes, g.Cluster w.1) :
    Coherent (putAll D g s writes) ∧ Touched g s (putAll D g s writes) ∧
      ∀ c, g.Cluster c → g.fat (putAll D g s writes).view c =
        ((lastWritten c writes).map (· % 2 ^ g.fsType.width)).getD (g.fat s.view c) := by
  induction writes generalizing s with
  | nil => exact ⟨h, (Looked.refl g s).touched, fun _ _ => rfl⟩
  | cons w writes ih =>
    obtain ⟨c₀, v⟩ := w
    have hc₀ : g.Cluster c₀ := hw _ List.mem_cons_self
    obtain ⟨s₁, hEq, hTouch, hCoh, hEntry, hOther⟩ := putFat_eq hD h hc₀ v
    have hRest : ∀ w ∈ writes, g.Cluster w.1 := fun w hw' => hw w (List.mem_cons_of_mem _ hw')
    obtain ⟨hCoh', hTouch', hFat⟩ := ih hCoh hRest
    rw [putAll, hEq]
    refine ⟨hCoh', hTouch.trans hTouch', ?_⟩
    intro c hc
    rw [hFat c hc, lastWritten, lastWritten, List.reverse_cons, List.find?_append]
    cases hFind : writes.reverse.find? fun w => w.1 = c with
    | some w => rfl
    | none =>
      by_cases hHere : c = c₀
      · subst hHere
        simp [hEntry]
      · simp [Ne.symm hHere, hOther c hc hHere]

/--
**The entries are independent.** On a device that does not fail, after every sequence of
`put_fat` calls, `get_fat` of any cluster answers with the low bits (12, 16 or 28) of the value
last written there, or, if none was, with what it answered before. This includes FAT12, where
neighbours share a byte and an entry may lie across two sectors.
-/
theorem fat_entries_independent {D : Device} {g : Geometry} {s : Fatfs} (hD : D.Reliable)
    (hCoherent : Coherent s) {writes : List (Nat × Nat)} (hw : ∀ w ∈ writes, g.Cluster w.1)
    {c : Nat} (hc : g.Cluster c) :
    (getFat D g (putAll D g s writes) c).1 =
      ((lastWritten c writes).map (· % 2 ^ g.fsType.width)).getD (getFat D g s c).1 := by
  obtain ⟨hCoh, -, hFat⟩ := putAll_spec hD hCoherent hw
  obtain ⟨s₁, hEq, -, -⟩ := getFat_eq hD hCoherent hc
  obtain ⟨s₂, hEq', -, -⟩ := getFat_eq hD hCoh hc
  rw [hEq', hEq]
  exact hFat c hc

/-- A FAT12 volume; the entry of cluster 341 lies across the first two sectors of its table. -/
def demoGeometry12 : Geometry :=
  { demoGeometry with
    fsType := .fat12
    nFatent := 600
    fewClusters := by decide
    tableFits := by decide
    someCluster := by decide
    dataEnds := by decide }

theorem fat_entries_independent_demo :
    (getFat { fails := fun _ => false, junk := fun _ _ => blankSector } demoGeometry12
      (putAll { fails := fun _ => false, junk := fun _ _ => blankSector } demoGeometry12 demoFatfs
        [(341, 0xFFFFFFFF), (340, 0xABC), (342, 0x123)]) 341).1 = 0xFFF := by
  rw [fat_entries_independent (fun _ => rfl) coherent_demoFatfs (by simp [Geometry.Cluster,
    demoGeometry12]) (⟨by decide, by decide⟩ : demoGeometry12.Cluster 341)]
  rfl

end Nao.Fat
