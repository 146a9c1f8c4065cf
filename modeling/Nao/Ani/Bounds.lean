import Nao.Ani.Events

/-!
# The ANI loader — array bounds

Writes never leave their arrays, for any file. Reads stay inside the file exactly if the sizes
that are declared on the three levels are nested (`Event.Nested`); nothing in the loader
checks that they are, and `seq_read_outside` is a file of 20 bytes for which it reads four
bytes behind the end.
-/

namespace Nao.Ani

open SysLib Traced

/-- Writes to `seq_buffer`, `ani_frames` and `pixels` are inside the array. -/
def Event.WriteInside : Event → Prop
  | .seqWrite i => i < 256
  | .frameWrite i => i < 16
  | .pixelWrite i => i < 4096
  | _ => True

/-- Reads are inside a file of `n` bytes. -/
def Event.ReadInside (n : Nat) : Event → Prop
  | .read i => i < n
  | _ => True

/-- The `n` bytes at index `i` are in the file. -/
def File.Holds (f : File) (i n : Nat) : Prop := i % 2 ^ 32 + n ≤ f.size

instance (f : File) (i n : Nat) : Decidable (f.Holds i n) := inferInstanceAs (Decidable (_ ≤ _))

/-- What `parse_cur_frame` looks at is in the file: of an icon of 22 bytes or more its type, of a
cursor its header, and so on; the rows of pixels only if the icon is accepted. -/
def IconInside (f : File) (cur size : Nat) : Prop :=
  (22 ≤ size → f.Holds (cur + 2) 2)
  ∧ (HasHeader f cur size → f.Holds (cur + 6) 16)
  ∧ (HasBitmap f cur size → f.Holds (cur + dataOffset f cur) 4)
  ∧ (HasDepth f cur size → f.Holds (cur + dataOffset f cur + 14) 2)
  ∧ (IconAccepted f cur size →
      f.Holds (cur + pixelStart f cur)
        ((iconHeight f cur - 1) * iconStride f cur + iconWidth f cur * (iconDepth f cur / 8)))

/-- The sizes declared in the file are nested: the entries of a sequence that are copied, the
headers in a LIST and the icons are in the file. -/
def Event.Nested (f : File) : Event → Prop
  | .chunk id offset size =>
    id = fourcc 's' 'e' 'q' ' ' → f.Holds (offset + 8) (min (size / 4) 256 * 4)
  | .sub _ offset _ _ _ => f.Holds offset 8
  | .icon cur size => IconInside f cur size
  | _ => True

variable {a : LoadAnswers} {f : File} {seqBuffer : Mem} {ani : State}

-- ---------------------------------------------------------------------------
-- Icons
-- ---------------------------------------------------------------------------

/-- An index that starts in a small file cannot wrap around within it. -/
theorem holds_iff {i n : Nat} (hSmall : f.size ≤ 65536) (hPos : 0 < n) (hn : n ≤ 2 ^ 31) :
    (∀ k, k < n → (i + k) % 2 ^ 32 < f.size) ↔ f.Holds i n := by
  unfold File.Holds
  constructor
  · intro h
    have hFirst := h 0 hPos
    have hLast := h (n - 1) (by omega)
    omega
  · intro h k hk
    omega

theorem holds_headerCells {cur : Nat} (hSmall : f.size ≤ 65536) :
    (∀ k ∈ headerCells, (cur + k) % 2 ^ 32 < f.size) ↔ f.Holds (cur + 6) 16 := by
  unfold File.Holds
  constructor
  · intro h
    have hFirst := h 6 (by decide)
    have hLast := h 21 (by decide)
    omega
  · intro h k hk
    have hRange : ∀ k ∈ headerCells, 6 ≤ k ∧ k ≤ 21 := by decide
    have := hRange k hk
    omega

/-- The first byte that is read of the pixels is the first there is, and the last one that of the
last pixel in the last row. -/
theorem holds_pixels {start stride width cw ch : Nat} (hSmall : f.size ≤ 65536) (hcw : 0 < cw)
    (hch : 0 < ch) (hWidth : 0 < width) (hSize : (ch - 1) * stride + cw * width ≤ 2 ^ 31) :
    PixelReads (Event.ReadInside f.size) start stride width cw ch ↔
      f.Holds start ((ch - 1) * stride + cw * width) := by
  unfold File.Holds
  constructor
  · intro h
    have hFirst : (start + (ch - 1 - (ch - 1)) * stride + 0 * width + 0) % 2 ^ 32 < f.size :=
      h (ch - 1) (by omega) 0 hcw 0 hWidth
    have hLast : (start + (ch - 1) * stride + (cw - 1) * width + (width - 1)) % 2 ^ 32 < f.size :=
      h 0 hch (cw - 1) (by omega) (width - 1) (by omega)
    have hLastPixel : (cw - 1) * width + width = cw * width := by
      rw [← Nat.succ_mul, Nat.succ_eq_add_one, Nat.sub_add_cancel hcw]
    rw [Nat.sub_self, Nat.zero_mul, Nat.zero_mul] at hFirst
    omega
  · intro h y _ x hx k hk
    have hRow : (ch - 1 - y) * stride ≤ (ch - 1) * stride := Nat.mul_le_mul_right _ (Nat.sub_le ..)
    have hPixel : x * width + width ≤ cw * width := by
      rw [← Nat.succ_mul]
      exact Nat.mul_le_mul_right _ hx
    show _ % 2 ^ 32 < f.size
    omega

theorem iconWidth_bounds (f : File) (cur : Nat) : 0 < iconWidth f cur ∧ iconWidth f cur ≤ 32 :=
  ⟨Nat.lt_min.mpr ⟨(side_bounds _).1, by decide⟩, Nat.min_le_right ..⟩

theorem iconHeight_bounds (f : File) (cur : Nat) : 0 < iconHeight f cur ∧ iconHeight f cur ≤ 32 :=
  ⟨Nat.lt_min.mpr ⟨(side_bounds _).1, by decide⟩, Nat.min_le_right ..⟩

/-- The pixels of an accepted icon take few bytes. -/
theorem iconPixels_le {cur size : Nat} (h : IconAccepted f cur size) :
    0 < iconDepth f cur / 8
      ∧ (iconHeight f cur - 1) * iconStride f cur + iconWidth f cur * (iconDepth f cur / 8)
        ≤ 2 ^ 31 := by
  have hDepth : (iconDepth f cur + 7) / 8 = iconDepth f cur / 8
      ∧ 0 < iconDepth f cur / 8 ∧ iconDepth f cur / 8 ≤ 4 := by
    rcases h.2 with h32 | h24 <;> omega
  have hRow : iconWidth f cur * (iconDepth f cur / 8) ≤ 32 * 4 :=
    Nat.mul_le_mul (iconWidth_bounds f cur).2 hDepth.2.2
  have hStride : iconStride f cur ≤ 132 := by
    rw [iconStride, rowStride, hDepth.1]
    omega
  have hRows : (iconHeight f cur - 1) * iconStride f cur ≤ 32 * 132 :=
    Nat.mul_le_mul ((Nat.sub_le ..).trans (iconHeight_bounds f cur).2) hStride
  exact ⟨hDepth.2.1, by omega⟩

theorem parseCurFrame_reads {cur size : Nat} (hSmall : f.size ≤ 65536) {frame : Frame} :
    (parseCurFrame f cur size frame).All (Event.ReadInside f.size) ↔ IconInside f cur size := by
  rw [all_parseCurFrame]
  refine and_congr (forall_congr' fun _ => holds_iff hSmall (by omega) (by omega)) ?_
  refine and_congr (forall_congr' fun _ => holds_headerCells hSmall) ?_
  refine and_congr (forall_congr' fun _ => holds_iff hSmall (by omega) (by omega)) ?_
  refine and_congr (forall_congr' fun _ => holds_iff hSmall (by omega) (by omega)) ?_
  refine (and_iff_right fun _ _ _ => trivial).trans (forall_congr' fun hAccepted => ?_)
  obtain ⟨hWidth, hSize⟩ := iconPixels_le hAccepted
  exact holds_pixels hSmall (iconWidth_bounds f cur).1 (iconHeight_bounds f cur).1 hWidth hSize

theorem loadFrame_reads {cur size rate : Nat} (hSmall : f.size ≤ 65536) :
    (loadFrame f cur size rate ani).All (Event.Nested f) ↔
      (loadFrame f cur size rate ani).All (Event.ReadInside f.size) := by
  rw [all_loadFrame, all_loadFrame, parseCurFrame_reads hSmall]
  constructor
  · rintro ⟨-, hInside, -⟩
    exact ⟨trivial, trivial, hInside⟩
  · rintro ⟨-, -, hInside⟩
    exact ⟨trivial, hInside, all_parseCurFrame_of (fun _ => trivial) fun _ _ => trivial⟩

-- ---------------------------------------------------------------------------
-- The loops
-- ---------------------------------------------------------------------------

theorem listLoop_reads {listEnd rate fuel : Nat} (hSmall : f.size ≤ 65536) {s : Nat × State} :
    (listLoop f listEnd rate fuel s).All (Event.Nested f) ↔
      (listLoop f listEnd rate fuel s).All (Event.ReadInside f.size) := by
  refine all_whileLoop_iff (fun _ => True) ?_ (fun _ _ _ _ _ => trivial) trivial
  intro _ s _
  rw [all_map, all_map]
  by_cases hGuard : ListGuard listEnd s
  · simp only [all_listTurn hGuard, all_header, all_subBody, loadFrame_reads hSmall]
    constructor
    · rintro ⟨-, hIcon, hHeader⟩
      exact ⟨(holds_iff hSmall (by omega) (by omega)).mpr hHeader, hIcon, trivial⟩
    · rintro ⟨hHeader, hIcon, -⟩
      exact ⟨fun _ _ => trivial, hIcon, (holds_iff hSmall (by omega) (by omega)).mp hHeader⟩
  · rw [listTurn_of_end hGuard]
    exact iff_of_true (all_pure _) (all_pure _)

theorem seqChunk_reads {size : Nat} {s : Load} (hSmall : f.size ≤ 65536)
    (hOffset : s.offset + 8 ≤ f.size) :
    (seqChunk f size s).All (Event.ReadInside f.size) ↔
      f.Holds (s.offset + 8) (min (size / 4) 256 * 4) := by
  rw [all_seqChunk]
  rcases Nat.eq_zero_or_pos (min (size / 4) 256) with hNone | hSome
  · rw [hNone]
    refine iff_of_true (fun i hi => absurd hi (Nat.not_lt_zero i)) ?_
    unfold File.Holds
    omega
  · rw [← holds_iff hSmall (by omega) (by omega)]
    constructor
    · intro h k hk
      have hByte : (s.offset + 8 + k / 4 * 4 + k % 4) % 2 ^ 32 < f.size :=
        (h (k / 4) (by omega)).1 (k % 4) (by omega)
      rwa [Nat.add_assoc, Nat.div_add_mod'] at hByte
    · intro h i hi
      refine ⟨fun k hk => ?_, trivial⟩
      show (_ + i * 4 + k) % 2 ^ 32 < f.size
      rw [Nat.add_assoc]
      exact h _ (by omega)

theorem chunkBody_reads {fuel size : Nat} {id : List UInt8} {s : Load} (hSmall : f.size ≤ 65536)
    (hOffset : s.offset + 8 ≤ f.size) :
    (Event.chunk id s.offset size).Nested f ∧ (chunkBody f fuel id size s).All (Event.Nested f) ↔
      (chunkBody f fuel id size s).All (Event.ReadInside f.size) := by
  have hOther (h : id ≠ fourcc 's' 'e' 'q' ' ') : (Event.chunk id s.offset size).Nested f :=
    fun hIs => absurd hIs h
  unfold chunkBody
  split
  · next hIs =>
    exact iff_of_true
      ⟨hOther (by rw [hIs]; decide), all_map.mpr (all_anihChunk (by omega) fun _ _ => trivial)⟩
      (all_map.mpr (all_anihChunk (by omega) fun _ hi => hi))
  split
  · next hIs =>
    rw [all_map, all_map, seqChunk_reads hSmall hOffset]
    refine (and_iff_left ?_).trans (imp_iff_right hIs)
    exact all_seqChunk.mpr fun _ _ => ⟨fun _ _ => trivial, trivial⟩
  · next hSeq =>
    rw [and_iff_right (hOther hSeq)]
    split
    · rw [all_listChunk, all_listChunk, listLoop_reads hSmall]
    split
    · rw [all_map, all_map, all_iconChunk, all_iconChunk, loadFrame_reads hSmall]
    · exact iff_of_true (all_pure _) (all_pure _)

theorem aniLoad_reads {fuel : Nat} :
    (aniLoad a f seqBuffer ani fuel).All (Event.Nested f) ↔
      (aniLoad a f seqBuffer ani fuel).All (Event.ReadInside f.size) := by
  have hNestedHeader : (accepts a f).All (Event.Nested f) := all_accepts a fun _ _ => trivial
  have hReadHeader : (accepts a f).All (Event.ReadInside f.size) := all_accepts a fun _ hi => hi
  cases hAccepts : (accepts a f).val with
  | false =>
    rw [all_aniLoad_of_refused hAccepts, all_aniLoad_of_refused hAccepts]
    exact iff_of_true hNestedHeader hReadHeader
  | true =>
    obtain ⟨hLong, hSmall⟩ := size_of_accepts hAccepts
    rw [all_aniLoad hAccepts, all_aniLoad hAccepts, and_iff_right hNestedHeader,
      and_iff_right hReadHeader]
    refine all_whileLoop_iff (fun s => s.offset < f.size ∨ s.offset = 12) ?_
      (fun _ _ _ _ hAgain => .inl (chunkTurn_again hAgain).2) (.inr rfl)
    intro fuel s hs
    by_cases hGuard : (s.offset + 8) % 2 ^ 32 ≤ f.size
    · have hOffset : s.offset + 8 ≤ f.size := by omega
      have hHeader (k : Nat) (hk : k < 8) : (s.offset + k) % 2 ^ 32 < f.size :=
        (Nat.mod_le ..).trans_lt (by omega)
      rw [all_chunkTurn hGuard, all_chunkTurn hGuard, chunkBody_reads hSmall hOffset]
      constructor
      · rintro ⟨-, hBody⟩
        exact ⟨all_header.mpr hHeader, trivial, hBody⟩
      · rintro ⟨-, -, hBody⟩
        exact ⟨all_header.mpr fun _ _ => trivial, hBody⟩
    · rw [chunkTurn_of_end hGuard]
      exact iff_of_true (all_pure _) (all_pure _)

-- ---------------------------------------------------------------------------
-- Main result
-- ---------------------------------------------------------------------------

theorem Event.Sound.writeInside {e : Event} (h : e.Sound f) : e.WriteInside := by
  cases e <;> first | exact h | exact trivial

/--
**What the loader touches.** For every file, with whatever lies outside it in memory, and at
every moment of a run of `ani_load` (any fuel, so also of a run that does not end): every
write to `seq_buffer`, `ani_frames` and `frame->pixels` is inside its array; and every read
through `file_data` or `cur_data` has an index inside the file if and only if the sizes declared
by the headers met so far are nested.
-/
theorem ani_load_stays_inside (a : LoadAnswers) (f : File) (seqBuffer : Mem) (ani : State)
    (fuel : Nat) :
    (∀ e ∈ (aniLoad a f seqBuffer ani fuel).trace, e.WriteInside) ∧
      ((∀ e ∈ (aniLoad a f seqBuffer ani fuel).trace, e.Nested f) ↔
        ∀ e ∈ (aniLoad a f seqBuffer ani fuel).trace, e.ReadInside f.size) :=
  ⟨fun e he => (aniLoad_sound fuel e he).writeInside, aniLoad_reads⟩

instance (f : File) (cur size : Nat) : Decidable (IconInside f cur size) :=
  inferInstanceAs (Decidable ((_ → _) ∧ (_ → _) ∧ (_ → _) ∧ (_ → _) ∧ (_ → _)))

instance (f : File) : DecidablePred (Event.Nested f)
  | .chunk .. => inferInstanceAs (Decidable (_ → _))
  | .sub .. => inferInstanceAs (Decidable (File.Holds ..))
  | .icon .. => inferInstanceAs (Decidable (IconInside ..))
  | .read _ | .seqWrite _ | .frameWrite _ | .pixelWrite _ => inferInstanceAs (Decidable True)

/-- A header and a sequence chunk that declares one entry, with `rest` behind it. -/
def sequenceFile (rest : List UInt8) : File :=
  { bytes := fourcc 'R' 'I' 'F' 'F' ++ [12, 0, 0, 0] ++ fourcc 'A' 'C' 'O' 'N' ++
      fourcc 's' 'e' 'q' ' ' ++ [4, 0, 0, 0] ++ rest
    outside := fun _ => 0 }

/-- The entry, and a LIST whose second sub-chunk declares 100 bytes that are not there: the
loader does not look for them. -/
def listBehindSequence : File :=
  sequenceFile ([7, 0, 0, 0] ++ fourcc 'L' 'I' 'S' 'T' ++ [28, 0, 0, 0] ++ fourcc 'f' 'r' 'a' 'm' ++
    fourcc 'i' 'c' 'o' 'n' ++ [8, 0, 0, 0, 0, 0, 2, 0, 1, 0, 1, 1] ++
    fourcc 'j' 'u' 'n' 'k' ++ [100, 0, 0, 0])

theorem ani_load_stays_inside_demo :
    listBehindSequence.size = 60 ∧
    ∀ e ∈ (aniLoad { fOpen := .ok, fRead := .ok, br := 60 } listBehindSequence
      (fun _ => 0) State.boot 4).trace, e.ReadInside 60 :=
  ⟨by decide, (ani_load_stays_inside _ listBehindSequence _ _ 4).2.mp (by decide)⟩

/-- Without its entry the file has 20 bytes, and the loader reads index 20. -/
theorem seq_read_outside :
    (sequenceFile []).size = 20 ∧
      .read 20 ∈ (aniLoad { fOpen := .ok, fRead := .ok, br := 20 } (sequenceFile [])
        (fun _ => 0) State.boot 1).trace := by
  decide

end Nao.Ani
