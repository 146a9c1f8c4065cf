import Nao.Ani.Definitions
import Nao.Lib.Rows

/-!
# The ANI loader — what its parts touch

One lemma for each part of the loader: its events satisfy a property if and only if the cells
named there do. `parse_cur_frame` works in stages, and each has its own condition on the bytes
of the icon (`HasHeader` to `IconAccepted`); `all_parseCurFrame` lists the cells that each stage
touches, and `ok_parseCurFrame` says that it returns 1 for an icon that passes all of them.
-/

namespace Nao.Ani

open SysLib Traced

variable {P : Event → Prop} {f : File}

-- ---------------------------------------------------------------------------
-- Pixels
-- ---------------------------------------------------------------------------

theorem all_setPixel {px : Mem} {i : Nat} {v : UInt8} :
    (setPixel px i v).All P ↔ P (.pixelWrite i) := by
  simp [setPixel]

theorem all_clearPixels {px : Mem} :
    (clearPixels px).All P ↔ ∀ i, i < 4096 → P (.pixelWrite i) := by
  have hCells : aniMaxCursorW * aniMaxCursorH * 4 = 4096 := rfl
  have hTurn (i : Nat) (px : Mem) : (setPixel px i 0).All P ↔ P (.pixelWrite i) := all_setPixel
  rw [clearPixels, hCells, all_forTo_iff hTurn]

theorem all_copyPixels {start stride cw ch width : Nat} {alpha : Nat → Traced Event UInt8}
    (hWidth : 3 ≤ width)
    (hAlpha : ∀ src, (alpha src).All P ↔
      ∀ k, 3 ≤ k → k < width → P (.read ((src + k) % 2 ^ 32))) {px : Mem} :
    (copyPixels f start stride cw ch width alpha px).All P ↔
      ∀ y, y < ch → ∀ x, x < cw →
        (∀ k, k < width → P (.read ((start + (ch - 1 - y) * stride + x * width + k) % 2 ^ 32)))
        ∧ ∀ k, k < 4 → P (.pixelWrite ((y * cw + x) * 4 + k)) := by
  refine all_forTo_iff fun y _ => all_forTo_iff fun x _ => ?_
  simp only [all_bind, all_fileData, all_setPixel, hAlpha]
  constructor
  · rintro ⟨hRead0, hWrite0, hRead1, hWrite1, hRead2, hWrite2, hRest, hWrite3⟩
    refine ⟨fun k hk => ?_, fun k hk => ?_⟩
    · obtain rfl | rfl | rfl | hLate : k = 0 ∨ k = 1 ∨ k = 2 ∨ 3 ≤ k := by omega
      · exact hRead0
      · exact hRead1
      · exact hRead2
      · exact hRest k hLate hk
    · obtain rfl | rfl | rfl | rfl : k = 0 ∨ k = 1 ∨ k = 2 ∨ k = 3 := by omega
      · exact hWrite0
      · exact hWrite1
      · exact hWrite2
      · exact hWrite3
  · rintro ⟨hRead, hWrite⟩
    exact ⟨hRead 0 (by omega), hWrite 0 (by omega), hRead 1 (by omega), hWrite 1 (by omega),
      hRead 2 (by omega), hWrite 2 (by omega), fun k _ hk => hRead k hk, hWrite 3 (by omega)⟩

/-- A pixel of the destination lies in the array. -/
theorem dst_lt {cw ch x y k : Nat} (hcw : cw ≤ aniMaxCursorW) (hch : ch ≤ aniMaxCursorH)
    (hx : x < cw) (hy : y < ch) (hk : k < 4) : (y * cw + x) * 4 + k < 4096 := by
  have hIndex : y * cw + x < cw * ch := index_lt hx hy
  have hAll : cw * ch ≤ 32 * 32 := Nat.mul_le_mul hcw hch
  omega

/-- The reads of the pixels, `width` bytes for each, if they are at `start` in the file. -/
def PixelReads (P : Event → Prop) (start stride width cw ch : Nat) : Prop :=
  ∀ y, y < ch → ∀ x, x < cw → ∀ k, k < width →
    P (.read ((start + (ch - 1 - y) * stride + x * width + k) % 2 ^ 32))

theorem all_decodePixels {start stride bpp : Nat} {frame : Frame}
    (hcw : frame.width ≤ aniMaxCursorW) (hch : frame.height ≤ aniMaxCursorH) :
    (decodePixels f start stride bpp frame).All P ↔
      (∀ i, i < 4096 → P (.pixelWrite i))
      ∧ (bpp = 32 ∨ bpp = 24 → PixelReads P start stride (bpp / 8) frame.width frame.height) := by
  rw [decodePixels, all_bind, all_clearPixels]
  refine and_congr_right fun hWrite => ?_
  -- the writes are among those that clear the array
  have hDrop {y x : Nat} (hy : y < frame.height) (hx : x < frame.width) (Q : Prop) :
      (Q ∧ ∀ k, k < 4 → P (.pixelWrite ((y * frame.width + x) * 4 + k))) ↔ Q :=
    and_iff_left fun k hk => hWrite _ (dst_lt hcw hch hx hy hk)
  by_cases h32 : bpp = 32
  · subst h32
    rw [if_pos rfl, all_bind, and_iff_left (all_pure _), all_copyPixels (by omega) fun src => ?alpha]
    case alpha =>
      rw [all_fileData]
      exact ⟨fun h k hLow hHigh => by rwa [show k = 3 by omega], fun h => h 3 (by omega) (by omega)⟩
    rw [imp_iff_right (.inl rfl)]
    exact forall₂_congr fun y hy => forall₂_congr fun x hx => hDrop hy hx _
  · rw [if_neg h32]
    by_cases h24 : bpp = 24
    · subst h24
      rw [if_pos rfl, all_bind, and_iff_left (all_pure _), all_copyPixels (by omega) fun src => ?alpha]
      case alpha => exact iff_of_true (all_pure _) fun k hLow hHigh => by omega
      rw [imp_iff_right (.inr rfl)]
      exact forall₂_congr fun y hy => forall₂_congr fun x hx => hDrop hy hx _
    · rw [if_neg h24]
      exact iff_of_true (all_pure _) fun hDepth => absurd hDepth (not_or.mpr ⟨h32, h24⟩)

-- ---------------------------------------------------------------------------
-- parse_cur_frame
-- ---------------------------------------------------------------------------

section Icon

variable (f : File) (cur size : Nat)

/-- `cw`. -/
def iconWidth : Nat := min (side (fileData f (cur + 6)).val) aniMaxCursorW

/-- `ch`. -/
def iconHeight : Nat := min (side (fileData f (cur + 7)).val) aniMaxCursorH

/-- `data_offset`. -/
def dataOffset : Nat := (readLe32 f (cur + 18)).val

/-- `dib_header_size`. -/
def dibHeaderSize : Nat := (readLe32 f (cur + dataOffset f cur)).val

/-- `bpp`. -/
def iconDepth : Nat := (readLe16 f (cur + dataOffset f cur + 14)).val

/-- `pixel_start`. -/
def pixelStart : Nat := (dataOffset f cur + dibHeaderSize f cur) % 2 ^ 32

/-- `row_stride`. -/
def iconStride : Nat := rowStride (iconWidth f cur) (iconDepth f cur)

/-- The icon has a cursor's header. -/
def HasHeader : Prop := 22 ≤ size ∧ (readLe16 f (cur + 2)).val = 2

/-- The header leads to a bitmap that is, modulo `2 ^ 32`, in the icon. -/
def HasBitmap : Prop := HasHeader f cur size ∧ (dataOffset f cur + 40) % 2 ^ 32 ≤ size

/-- The bitmap's header is of a known kind. -/
def HasDepth : Prop := HasBitmap f cur size ∧ 40 ≤ dibHeaderSize f cur

/-- There is room for the pixels, again modulo `2 ^ 32`. -/
def HasPixels : Prop :=
  HasDepth f cur size ∧ pixelStart f cur ≤ size
    ∧ (pixelStart f cur + iconStride f cur * iconHeight f cur) % 2 ^ 32 ≤ size

/-- `parse_cur_frame` returns 1. -/
def IconAccepted : Prop := HasPixels f cur size ∧ (iconDepth f cur = 32 ∨ iconDepth f cur = 24)

instance : Decidable (HasHeader f cur size) := inferInstanceAs (Decidable (_ ∧ _))

instance : Decidable (HasBitmap f cur size) := inferInstanceAs (Decidable (_ ∧ _))

instance : Decidable (HasDepth f cur size) := inferInstanceAs (Decidable (_ ∧ _))

instance : Decidable (HasPixels f cur size) := inferInstanceAs (Decidable (_ ∧ _))

instance : Decidable (IconAccepted f cur size) := inferInstanceAs (Decidable (_ ∧ _))

end Icon

section Icon

variable {cur size : Nat}

/-- The cells of the cursor's header that are read after its type. -/
def headerCells : List Nat := [6, 7, 10, 11, 12, 13, 18, 19, 20, 21]

theorem all_parseCurFrame {frame : Frame} :
    (parseCurFrame f cur size frame).All P ↔
      (22 ≤ size → ∀ k, k < 2 → P (.read ((cur + 2 + k) % 2 ^ 32)))
      ∧ (HasHeader f cur size → ∀ k ∈ headerCells, P (.read ((cur + k) % 2 ^ 32)))
      ∧ (HasBitmap f cur size → ∀ k, k < 4 → P (.read ((cur + dataOffset f cur + k) % 2 ^ 32)))
      ∧ (HasDepth f cur size →
          ∀ k, k < 2 → P (.read ((cur + dataOffset f cur + 14 + k) % 2 ^ 32)))
      ∧ (HasPixels f cur size → ∀ i, i < 4096 → P (.pixelWrite i))
      ∧ (IconAccepted f cur size →
          PixelReads P (cur + pixelStart f cur) (iconStride f cur) (iconDepth f cur / 8)
            (iconWidth f cur) (iconHeight f cur)) := by
  simp only [parseCurFrame, parseDib, all_ite_pure, all_bind, Nat.not_lt, not_not, all_fileData,
    all_readLe16, all_readLe32]
  rw [← dataOffset, ← dibHeaderSize, ← iconDepth, ← pixelStart, ← iconWidth, ← iconHeight,
    ← iconStride, all_decodePixels (Nat.min_le_right ..) (Nat.min_le_right ..)]
  have hCells : (∀ k ∈ headerCells, P (.read ((cur + k) % 2 ^ 32))) ↔
      P (.read ((cur + 6) % 2 ^ 32)) ∧ P (.read ((cur + 7) % 2 ^ 32))
      ∧ (∀ k, k < 2 → P (.read ((cur + 10 + k) % 2 ^ 32)))
      ∧ (∀ k, k < 2 → P (.read ((cur + 12 + k) % 2 ^ 32)))
      ∧ ∀ k, k < 4 → P (.read ((cur + 18 + k) % 2 ^ 32)) := by
    rw [forall_lt_two, forall_lt_two, forall_lt_four]
    simp [headerCells, Nat.add_assoc, and_assoc]
  -- both sides are now lists of stages, each under the conditions before it
  simp only [hCells, IconAccepted, HasPixels, HasDepth, HasBitmap, HasHeader, imp_and, and_imp,
    and_assoc]

/-- It reads the file and writes the 4096 bytes of `pixels`. -/
theorem all_parseCurFrame_of {frame : Frame} (hRead : ∀ i, P (.read i))
    (hWrite : ∀ i, i < 4096 → P (.pixelWrite i)) : (parseCurFrame f cur size frame).All P :=
  all_parseCurFrame.mpr ⟨fun _ _ _ => hRead _, fun _ _ _ => hRead _, fun _ _ _ => hRead _,
    fun _ _ _ => hRead _, fun _ => hWrite, fun _ _ _ _ _ _ _ => hRead _⟩

/-- A stage that may refuse the icon. -/
theorem ok_ite {c : Prop} [Decidable c] {frame : Frame} {t : Traced Event (Bool × Frame)} :
    (if c then pure (false, frame) else t).val.1 = true ↔ ¬ c ∧ t.val.1 = true := by
  split
  · next h => exact iff_of_false Bool.false_ne_true fun hNot => hNot.1 h
  · next h => exact (and_iff_right h).symm

theorem ok_decodePixels {start stride bpp : Nat} {frame : Frame} :
    (decodePixels f start stride bpp frame).val.1 = true ↔ bpp = 32 ∨ bpp = 24 := by
  rw [decodePixels, val_bind]
  split
  · next h32 => exact iff_of_true rfl (.inl h32)
  split
  · next h24 => exact iff_of_true rfl (.inr h24)
  · next h32 h24 => exact iff_of_false Bool.false_ne_true (not_or.mpr ⟨h32, h24⟩)

theorem ok_parseCurFrame {frame : Frame} :
    (parseCurFrame f cur size frame).val.1 = true ↔ IconAccepted f cur size := by
  simp only [parseCurFrame, parseDib, ok_ite, val_bind, Nat.not_lt, not_not, ok_decodePixels]
  rw [← dataOffset, ← dibHeaderSize, ← iconDepth, ← pixelStart, ← iconWidth, ← iconHeight,
    ← iconStride]
  simp only [IconAccepted, HasPixels, HasDepth, HasBitmap, HasHeader, and_assoc]

end Icon

theorem all_loadFrame {cur size rate : Nat} {ani : State} :
    (loadFrame f cur size rate ani).All P ↔
      P (.frameWrite ani.frameCount) ∧ P (.icon cur size)
      ∧ (parseCurFrame f cur size (ani.frames ani.frameCount)).All P := by
  simp only [loadFrame, all_bind, all_tell]
  refine and_congr_right fun _ => and_congr_right fun _ => and_iff_left ?_
  split <;> exact all_pure _

theorem frameCount_loadFrame (cur size rate : Nat) (ani : State) :
    (loadFrame f cur size rate ani).val.frameCount
      = ani.frameCount + if IconAccepted f cur size then 1 else 0 := by
  simp only [loadFrame, val_bind]
  split
  · next hOk => rw [if_pos (ok_parseCurFrame.mp hOk)]; rfl
  · next hOk => rw [if_neg (mt ok_parseCurFrame.mpr hOk)]; rfl

-- ---------------------------------------------------------------------------
-- The loops
-- ---------------------------------------------------------------------------

/-- The reads of a chunk or sub-chunk header. -/
theorem all_header {i : Nat} :
    (readId f i).All P ∧ (readLe32 f (i + 4)).All P ↔
      ∀ k, k < 8 → P (.read ((i + k) % 2 ^ 32)) := by
  rw [all_readId, all_readLe32]
  constructor
  · rintro ⟨hId, hSize⟩ k hk
    rcases Nat.lt_or_ge k 4 with hLow | hHigh
    · exact hId k hLow
    · have hLate := hSize (k - 4) (by omega)
      rwa [Nat.add_assoc, Nat.add_sub_cancel' hHigh] at hLate
  · intro h
    refine ⟨fun k hk => h k (by omega), fun k hk => ?_⟩
    rw [Nat.add_assoc]
    exact h _ (by omega)

theorem all_subBody {id : List UInt8} {cur size rate : Nat} {ani : State} :
    (subBody f id cur size rate ani).All P ↔
      (id = fourcc 'i' 'c' 'o' 'n' → (loadFrame f cur size rate ani).All P) := by
  unfold subBody
  split
  · next hIs => exact (imp_iff_right hIs).symm
  · next hIs => exact iff_of_true (all_pure _) fun h => absurd h hIs

/-- The sub-chunks that count are the icons that `parse_cur_frame` accepts. -/
theorem frameCount_subBody (id : List UInt8) (cur size rate : Nat) (ani : State) :
    (subBody f id cur size rate ani).val.frameCount
      = ani.frameCount + if id = fourcc 'i' 'c' 'o' 'n' ∧ IconAccepted f cur size then 1 else 0 := by
  unfold subBody
  split
  · next hIs => simp only [frameCount_loadFrame, hIs, true_and]
  · next hIs => simp only [hIs, false_and, if_false, val_pure, Nat.add_zero]

section ListTurn

variable {listEnd rate : Nat} {s s' : Nat × State}

/-- The loop over a LIST goes on. -/
abbrev ListGuard (listEnd : Nat) (s : Nat × State) : Prop :=
  (s.1 + 8) % 2 ^ 32 ≤ listEnd ∧ s.2.frameCount < aniMaxFrames

theorem val_listTurn (hGuard : ListGuard listEnd s) :
    (listTurn f listEnd rate s).val = .again (chunkEnd s.1 (readLe32 f (s.1 + 4)).val,
      (subBody f (readId f s.1).val (s.1 + 8) (readLe32 f (s.1 + 4)).val rate s.2).val) := by
  rw [listTurn, if_pos hGuard]
  rfl

theorem all_listTurn (hGuard : ListGuard listEnd s) :
    (listTurn f listEnd rate s).All P ↔
      ((readId f s.1).All P ∧ (readLe32 f (s.1 + 4)).All P) ∧
        (subBody f (readId f s.1).val (s.1 + 8) (readLe32 f (s.1 + 4)).val rate s.2).All P ∧
        P (.sub (readId f s.1).val s.1 (readLe32 f (s.1 + 4)).val s.2.frameCount
          (subBody f (readId f s.1).val (s.1 + 8) (readLe32 f (s.1 + 4)).val rate
            s.2).val.frameCount) := by
  rw [listTurn, if_pos hGuard]
  simp only [all_bind, all_tell, all_pure, and_true, and_assoc]

theorem listTurn_of_end (hGuard : ¬ ListGuard listEnd s) :
    listTurn f listEnd rate s = pure (.exit s.2) := by
  rw [listTurn, if_neg hGuard]

theorem listTurn_again (h : (listTurn f listEnd rate s).val = .again s') :
    ListGuard listEnd s ∧ s' = (chunkEnd s.1 (readLe32 f (s.1 + 4)).val,
      (subBody f (readId f s.1).val (s.1 + 8) (readLe32 f (s.1 + 4)).val rate s.2).val) := by
  by_cases hGuard : ListGuard listEnd s
  · rw [val_listTurn hGuard, Turn.again.injEq] at h
    exact ⟨hGuard, h.symm⟩
  · rw [listTurn_of_end hGuard] at h
    cases h

end ListTurn

theorem all_anihChunk {chunkSize : Nat} {s : Load} (hOffset : s.offset + 44 < 2 ^ 32)
    (hRead : ∀ i, i < f.size → P (.read i)) : (anihChunk f chunkSize s).All P := by
  unfold anihChunk
  split
  · next hGuard =>
    have hWord (j : Nat) (hj : j + 4 ≤ 36) (k : Nat) (hk : k < 4) :
        P (.read ((s.offset + 8 + j + k) % 2 ^ 32)) := hRead _ (by omega)
    simp only [all_bind]
    exact ⟨all_readLe32.mpr (hWord 4 (by omega)), all_readLe32.mpr (hWord 8 (by omega)),
      all_readLe32.mpr (hWord 20 (by omega)), all_pure _⟩
  · exact all_pure _

theorem all_seqChunk {chunkSize : Nat} {s : Load} :
    (seqChunk f chunkSize s).All P ↔
      ∀ i, i < min (chunkSize / 4) 256 →
        (∀ k, k < 4 → P (.read ((s.offset + 8 + i * 4 + k) % 2 ^ 32))) ∧ P (.seqWrite i) := by
  rw [seqChunk, all_bind, and_iff_left (all_pure _)]
  refine all_forTo_iff fun i buffer => ?_
  rw [all_bind, all_bind, all_tell, and_iff_left (all_pure _), all_readLe32]

theorem all_listChunk {fuel chunkSize : Nat} {s : Load} :
    (listChunk f fuel chunkSize s).All P ↔
      (listLoop f (chunkEnd s.offset chunkSize) s.anihRate fuel
        (((s.offset + 8) % 2 ^ 32 + 4) % 2 ^ 32, s.ani)).All P := by
  simp only [listChunk, all_bind, all_pure, and_true]

theorem all_iconChunk {chunkSize : Nat} {s : Load} :
    (iconChunk f chunkSize s).All P ↔
      (s.ani.frameCount < aniMaxFrames →
        (loadFrame f (s.offset + 8) chunkSize s.anihRate s.ani).All P) := by
  unfold iconChunk
  split
  · next hRoom => rw [imp_iff_right hRoom, all_bind, and_iff_left (all_pure _)]
  · next hRoom => exact iff_of_true (all_pure _) fun h => absurd h hRoom

theorem val_chunkTurn {fuel : Nat} {s : Load} (hGuard : (s.offset + 8) % 2 ^ 32 ≤ f.size) :
    (chunkTurn f fuel s).val =
      (chunkBody f fuel (readId f s.offset).val (readLe32 f (s.offset + 4)).val s).val.map
        (nextChunk f (chunkEnd s.offset (readLe32 f (s.offset + 4)).val)) := by
  simp only [chunkTurn, if_pos hGuard, val_bind, val_pure]

theorem chunkTurn_of_end {fuel : Nat} {s : Load} (hGuard : ¬ (s.offset + 8) % 2 ^ 32 ≤ f.size) :
    chunkTurn f fuel s = pure (some (.exit s)) := by
  rw [chunkTurn, if_neg hGuard]

theorem nextChunk_again {e : Nat} {s s' : Load} (h : nextChunk f e s = .again s') :
    s'.offset = e ∧ s'.offset < f.size := by
  unfold nextChunk at h
  split at h
  · cases h
  · next hInside =>
    rw [Turn.again.injEq] at h
    subst h
    exact ⟨rfl, Nat.lt_of_not_le hInside⟩

theorem chunkTurn_again {fuel : Nat} {s s' : Load}
    (h : (chunkTurn f fuel s).val = some (.again s')) :
    s'.offset = chunkEnd s.offset (readLe32 f (s.offset + 4)).val ∧ s'.offset < f.size := by
  by_cases hGuard : (s.offset + 8) % 2 ^ 32 ≤ f.size
  · rw [val_chunkTurn hGuard, Option.map_eq_some_iff] at h
    obtain ⟨t, -, hTurn⟩ := h
    exact nextChunk_again hTurn
  · rw [chunkTurn_of_end hGuard] at h
    cases h

theorem all_chunkTurn {fuel : Nat} {s : Load} (hGuard : (s.offset + 8) % 2 ^ 32 ≤ f.size) :
    (chunkTurn f fuel s).All P ↔
      ((readId f s.offset).All P ∧ (readLe32 f (s.offset + 4)).All P) ∧
        P (.chunk (readId f s.offset).val s.offset (readLe32 f (s.offset + 4)).val) ∧
        (chunkBody f fuel (readId f s.offset).val (readLe32 f (s.offset + 4)).val s).All P := by
  rw [chunkTurn, if_pos hGuard]
  simp only [all_bind, all_tell, all_pure, and_true, and_assoc]

theorem all_hasId {i : Nat} {id : List UInt8} (hRead : ∀ k, k < f.size → P (.read k))
    (h : i + id.length ≤ f.size) : (hasId f i id).All P := by
  induction id generalizing i with
  | nil => exact all_pure _
  | cons b bs ih =>
    rw [List.length_cons] at h
    rw [hasId, all_bind, all_fileData]
    refine ⟨hRead _ (by omega), ?_⟩
    split
    · exact ih (by omega)
    · exact all_pure _

theorem all_accepts (a : LoadAnswers) (hRead : ∀ k, k < f.size → P (.read k)) :
    (accepts a f).All P := by
  unfold accepts
  split
  · exact all_pure _
  split
  · exact all_pure _
  next hSmall =>
  split
  · exact all_pure _
  split
  · exact all_pure _
  next hHeader =>
  rw [all_bind]
  have hLong : 12 ≤ f.size := Nat.le_of_not_lt hHeader
  refine ⟨all_hasId hRead ((by decide : 4 ≤ 12).trans hLong), ?_⟩
  split
  · exact all_pure _
  rw [all_bind]
  exact ⟨all_readLe32.mpr fun k hk => hRead _ (by omega), all_hasId hRead hLong⟩

/-- A file that passes the checks has a header and fits the buffer. -/
theorem size_of_accepts {a : LoadAnswers} (h : (accepts a f).val = true) :
    12 ≤ f.size ∧ f.size ≤ 65536 := by
  unfold accepts at h
  split at h
  · cases h
  split at h
  · cases h
  next hSmall =>
  split at h
  · cases h
  split at h
  · cases h
  next hHeader =>
  exact ⟨Nat.le_of_not_lt hHeader, Nat.le_of_not_lt hSmall⟩

variable {a : LoadAnswers} {seqBuffer : Mem} {ani : State}

theorem all_aniLoad {fuel : Nat} (h : (accepts a f).val = true) :
    (aniLoad a f seqBuffer ani fuel).All P ↔ (accepts a f).All P ∧
      (whileLoop (chunkTurn f) fuel (Load.start seqBuffer (aniInit ani))).All P := by
  simp [aniLoad, h]

theorem all_aniLoad_of_refused {fuel : Nat} (h : (accepts a f).val = false) :
    (aniLoad a f seqBuffer ani fuel).All P ↔ (accepts a f).All P := by
  simp [aniLoad, h]

/-- A whole load is the test of the header and, for an accepted file, the loop. -/
theorem all_aniLoad_of_loop {fuel : Nat} (hHeader : (accepts a f).All P)
    (hLoop : (accepts a f).val = true →
      (whileLoop (chunkTurn f) fuel (Load.start seqBuffer (aniInit ani))).All P) :
    (aniLoad a f seqBuffer ani fuel).All P := by
  cases hAccepts : (accepts a f).val with
  | false => exact (all_aniLoad_of_refused hAccepts).mpr hHeader
  | true => exact (all_aniLoad hAccepts).mpr ⟨hHeader, hLoop hAccepts⟩

-- ---------------------------------------------------------------------------
-- What holds of every event
-- ---------------------------------------------------------------------------

/-- Writes stay in their arrays, the loops stand at even offsets, and a sub-chunk adds a frame if
and only if it is an icon that is accepted. -/
def Event.Sound (f : File) : Event → Prop
  | .read _ => True
  | .icon .. => True
  | .seqWrite i => i < 256
  | .frameWrite i => i < 16
  | .pixelWrite i => i < 4096
  | .chunk _ offset size => offset % 2 = 0 ∧ offset < 2 ^ 32 ∧ size < 2 ^ 32
  | .sub id offset size frames frames' =>
    offset % 2 = 0 ∧ offset < 2 ^ 32 ∧ size < 2 ^ 32
      ∧ (frames < frames' ↔ id = fourcc 'i' 'c' 'o' 'n' ∧ IconAccepted f (offset + 8) size)

theorem chunkEnd_even (offset size : Nat) : chunkEnd offset size % 2 = 0 := by
  unfold chunkEnd
  dsimp only
  split <;> omega

theorem chunkEnd_lt (offset size : Nat) : chunkEnd offset size < 2 ^ 32 := by
  unfold chunkEnd
  dsimp only
  split <;> omega

theorem loadFrame_sound {cur size rate : Nat} {ani : State} (h : ani.frameCount < aniMaxFrames) :
    (loadFrame f cur size rate ani).All (Event.Sound f) :=
  all_loadFrame.mpr ⟨h, trivial, all_parseCurFrame_of (fun _ => trivial) fun _ hi => hi⟩

theorem listLoop_sound (listEnd rate fuel : Nat) {s : Nat × State} (hEven : s.1 % 2 = 0)
    (hLt : s.1 < 2 ^ 32) : (listLoop f listEnd rate fuel s).All (Event.Sound f) := by
  refine all_whileLoop (P := fun _ => True) (fun s => s.1 % 2 = 0 ∧ s.1 < 2 ^ 32) ?_ ⟨hEven, hLt⟩
    (fun _ _ => trivial)
  rintro - s ⟨hEven, hLt⟩ -
  rw [all_map]
  constructor
  · by_cases hGuard : ListGuard listEnd s
    · refine (all_listTurn hGuard).mpr ⟨all_header.mpr fun _ _ => trivial,
        all_subBody.mpr fun _ => loadFrame_sound hGuard.2, hEven, hLt, readLe32_lt f _, ?_⟩
      rw [frameCount_subBody]
      split
      · next hIcon => exact iff_of_true (Nat.lt_succ_self _) hIcon
      · next hIcon => exact iff_of_false (Nat.lt_irrefl _) hIcon
    · rw [listTurn_of_end hGuard]
      exact all_pure _
  · intro s' hAgain
    rw [val_map, Option.some.injEq] at hAgain
    rw [(listTurn_again hAgain).2]
    exact ⟨chunkEnd_even .., chunkEnd_lt ..⟩

theorem chunkBody_sound {fuel size : Nat} {id : List UInt8} {s : Load} (hEven : s.offset % 2 = 0)
    (hInside : s.offset < f.size) (hSize : f.size ≤ 65536) :
    (chunkBody f fuel id size s).All (Event.Sound f) := by
  unfold chunkBody
  split
  · exact all_map.mpr (all_anihChunk (by omega) fun _ _ => trivial)
  split
  · exact all_map.mpr (all_seqChunk.mpr fun i hi => ⟨fun _ _ => trivial, (by omega : i < 256)⟩)
  split
  · exact all_listChunk.mpr (listLoop_sound _ _ _ (by omega) (by omega))
  split
  · exact all_map.mpr (all_iconChunk.mpr loadFrame_sound)
  · exact all_pure _

theorem aniLoad_sound (fuel : Nat) : (aniLoad a f seqBuffer ani fuel).All (Event.Sound f) := by
  refine all_aniLoad_of_loop (all_accepts a fun _ _ => trivial) fun hAccepts => ?_
  obtain ⟨hLong, hSmall⟩ := size_of_accepts hAccepts
  refine all_whileLoop (P := fun _ => True)
    (fun s => s.offset % 2 = 0 ∧ (s.offset < f.size ∨ s.offset = 12)) ?_ ⟨by simp [Load.start], .inr rfl⟩
    (fun _ _ => trivial)
  rintro fuel s ⟨hEven, hOffset⟩ -
  constructor
  · by_cases hGuard : (s.offset + 8) % 2 ^ 32 ≤ f.size
    · refine (all_chunkTurn hGuard).mpr ⟨all_header.mpr fun _ _ => trivial, ⟨hEven, by omega, readLe32_lt f _⟩,
        chunkBody_sound hEven (by omega) hSmall⟩
    · rw [chunkTurn_of_end hGuard]
      exact all_pure _
  · intro s' hAgain
    obtain ⟨hEnd, hInside⟩ := chunkTurn_again hAgain
    exact ⟨by rw [hEnd]; exact chunkEnd_even .., .inl hInside⟩

end Nao.Ani
