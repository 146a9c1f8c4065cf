import Mathlib.Algebra.Group.Action.Defs
import Mathlib.Algebra.Order.BigOperators.Group.List
import Nao.Images.Orientation
import Nao.Lib.Rows
import Nao.Lib.Writes

/-!
# What the image loaders store

The decoder is asked for the rows bottom-up, and every loader reverses them again while it
copies: index `y * width + x` of the buffer gets the pixel `(x, y)` of the picture as it is
seen, top row first.

* `Stored` — what a loader is to do: a picture stored with one write to each of its indices.
* `stored_copyPicture` — the writes of the copy loop do this.
* `stored_forceAlpha` — the alpha pass goes over the buffer once more.
* `image_loaders_agree` — the writes of the three loaders; `load_image_via_stb` makes the
  picture opaque if its average alpha is below 5.
-/

namespace Nao.Images

open SysLib NaoView

/-- The writes turn `out` into `out'`, which holds the picture `p`; every index below
`width * height` is written once, and no other. -/
structure Stored (p : Picture) (out out' : Pixels) (writes : List Write) : Prop where
  performs : out' = applyWrites out writes
  once     : (writes.map Prod.fst).Perm (List.range (p.width * p.height))
  pixels   : ∀ x y, x < p.width → y < p.height → out' (y * p.width + x) = argb (p.pixel y x)

/-- Only the writes have to be looked at: each index has one. -/
theorem Stored.of_mem {p : Picture} {out : Pixels} {t : Traced Write Pixels}
    (hPerforms : t.val = applyWrites out t.trace)
    (hOnce : (t.trace.map Prod.fst).Perm (List.range (p.width * p.height)))
    (hPixels : ∀ x y, x < p.width → y < p.height →
      (y * p.width + x, argb (p.pixel y x)) ∈ t.trace) : Stored p out t.val t.trace where
  performs := hPerforms
  once := hOnce
  pixels := by
    intro x y hx hy
    rw [hPerforms]
    exact applyWrites_of_mem (hOnce.nodup_iff.mpr List.nodup_range) (hPixels x y hx hy)

theorem confined_store (out : Pixels) (i : Nat) (v : BitVec 32) :
    Confined (fun _ => True) id out (store out i v) :=
  Confined.one (e := (i, v)) trivial out

-- ---------------------------------------------------------------------------
-- The copy loop
-- ---------------------------------------------------------------------------

theorem copyPicture_performs (p : Picture) (out : Pixels) :
    (copyPicture p out).val = applyWrites out (copyPicture p out).trace := by
  have hConfined : Confined (fun _ => True) id out (copyPicture p out) :=
    Confined.loop (fun _ _ => Confined.loop fun _ _ out => confined_store out _ _) out
  simpa using hConfined.performs

theorem copyRow_places (p : Picture) (y : Nat) (out : Pixels) :
    (copyRow p y out).trace.map Prod.fst
      = (List.range p.width).map ((p.height - 1 - y) * p.width + ·) := by
  have hStore : ∀ x out, (store out ((p.height - 1 - y) * p.width + x) (argb (p.pixel y x))).trace.map
      Prod.fst = [(p.height - 1 - y) * p.width + x] := fun _ _ => rfl
  exact (Traced.map_trace_forTo hStore _ _).trans List.map_eq_flatMap.symm

theorem copyPicture_places (p : Picture) (out : Pixels) :
    ((copyPicture p out).trace.map Prod.fst).Perm (List.range (p.width * p.height)) := by
  have hRows : (copyPicture p out).trace.map Prod.fst
      = ((List.range p.height).map (p.height - 1 - ·)).flatMap
          fun y => (List.range p.width).map (y * p.width + ·) := by
    rw [copyPicture, Traced.map_trace_forTo (copyRow_places p), List.flatMap_map]
  rw [hRows, ← flatMap_rows]
  exact (perm_reversed _).flatMap_right _

/-- The rows that the decoder delivers bottom-up are stored top-down. -/
theorem stored_copyPicture (p : Picture) (out : Pixels) :
    Stored p out (copyPicture p.flipped out).val (copyPicture p.flipped out).trace := by
  refine Stored.of_mem (copyPicture_performs _ _) (copyPicture_places p.flipped out) ?_
  intro x y hx hy
  -- Pixel (x, y) is copied in the turn `height - 1 - y`.
  have hBack : p.height - 1 - (p.height - 1 - y) = y := by omega
  refine Traced.mem_trace_forTo (i := p.height - 1 - y) ?_ (Traced.mem_trace_forTo hx ?_)
  · show _ < p.height
    omega
  · refine List.mem_singleton.mpr ?_
    simp only [Picture.flipped, hBack]

-- ---------------------------------------------------------------------------
-- Opaque pictures
-- ---------------------------------------------------------------------------

/-- The sum of the alphas. -/
def alphaSum (p : Picture) : Nat :=
  ((List.range p.height).flatMap fun y =>
    (List.range p.width).map fun x => (p.pixel y x).a.toNat).sum

theorem alphaSum_flipped (p : Picture) : alphaSum p.flipped = alphaSum p := by
  have hRows : alphaSum p.flipped
      = (((List.range p.height).map (p.height - 1 - ·)).flatMap fun y =>
          (List.range p.width).map fun x => (p.pixel y x).a.toNat).sum := by
    rw [List.flatMap_map]
    rfl
  rw [hRows]
  exact ((perm_reversed _).flatMap_right _).sum_eq

theorem alphaSum_le (p : Picture) : alphaSum p ≤ p.width * p.height * 255 := by
  have hLength : ((List.range p.height).flatMap fun y =>
      (List.range p.width).map fun x => (p.pixel y x).a.toNat).length = p.width * p.height := by
    rw [← List.length_range (n := p.width * p.height), ← flatMap_rows]
    simp only [List.length_flatMap, List.length_map]
  rw [alphaSum, ← hLength, ← smul_eq_mul]
  refine List.sum_le_card_nsmul _ _ fun alpha hAlpha => ?_
  obtain ⟨y, -, hRow⟩ := List.mem_flatMap.mp hAlpha
  obtain ⟨x, -, rfl⟩ := List.mem_map.mp hRow
  have := (p.pixel y x).a.isLt
  omega

/-- In a picture that fits into the arena `total_alpha` does not wrap. -/
theorem totalAlpha_flipped {p : Picture} (hFits : p.width * p.height * 4 ≤ arenaSize) :
    totalAlpha p.flipped = alphaSum p := by
  have hLe := alphaSum_le p
  have hSize : arenaSize = 4194304 := rfl
  rw [totalAlpha, ← alphaSum, alphaSum_flipped, Nat.mod_eq_of_lt (by omega)]

theorem argb_or (c : Rgba) : argb c ||| 0xFF000000 = argb { c with a := 255 } := by
  show c.a ++ c.r ++ c.g ++ c.b ||| (255#8 ++ 0#8 ++ 0#8 ++ 0#8) = 255#8 ++ c.r ++ c.g ++ c.b
  have hOpaque : c.a ||| 255#8 = 255#8 := BitVec.or_allOnes
  rw [BitVec.or_append, BitVec.or_append, BitVec.or_append, hOpaque, BitVec.or_zero, BitVec.or_zero,
    BitVec.or_zero]

/-- The picture with every alpha at 255. -/
def Picture.solid (p : Picture) : Picture :=
  { p with pixel := fun y x => { p.pixel y x with a := 255 } }

theorem forceAlpha_performs (n : Nat) (out : Pixels) :
    (forceAlpha n out).val = applyWrites out (forceAlpha n out).trace := by
  have hConfined : Confined (fun _ => True) id out (forceAlpha n out) :=
    Confined.loop (fun _ _ out => confined_store out _ _) out
  simpa using hConfined.performs

theorem forceAlpha_places (n : Nat) (out : Pixels) :
    (forceAlpha n out).trace.map Prod.fst = List.range n := by
  have hStore : ∀ i out, (store out i (out i ||| 0xFF000000)).trace.map Prod.fst = [i] :=
    fun _ _ => rfl
  exact (Traced.map_trace_forTo hStore _ _).trans (List.flatMap_singleton' _)

/-- No turn before turn `i` touches index `i`. -/
theorem forceAlpha_mem {n i : Nat} (hi : i < n) (out : Pixels) :
    (i, out i ||| 0xFF000000) ∈ (forceAlpha n out).trace := by
  refine Traced.mem_trace_forTo hi (List.mem_singleton.mpr ?_)
  have hUntouched : (forceAlpha i out).val i = out i := by
    rw [forceAlpha_performs]
    refine applyWrites_of_not_mem ?_
    rw [forceAlpha_places]
    exact List.not_mem_range_self
  exact congrArg (fun v => (i, v ||| 0xFF000000)) hUntouched.symm

theorem stored_forceAlpha {p : Picture} {out : Pixels}
    (h : ∀ x y, x < p.width → y < p.height → out (y * p.width + x) = argb (p.pixel y x)) :
    Stored p.solid out (forceAlpha (p.width * p.height) out).val
      (forceAlpha (p.width * p.height) out).trace := by
  refine Stored.of_mem (forceAlpha_performs _ _) (.of_eq (forceAlpha_places _ _)) ?_
  intro x y hx hy
  have hSolid : argb (p.solid.pixel y x) = out (y * p.width + x) ||| 0xFF000000 := by
    rw [h x y hx hy, argb_or]
    rfl
  rw [hSolid]
  exact forceAlpha_mem (index_lt hx hy) out

theorem fixAlpha_flipped {p : Picture} (hFits : p.width * p.height * 4 ≤ arenaSize)
    (out : Pixels) :
    fixAlpha p.flipped out
      = if alphaSum p < 5 * (p.width * p.height)
        then forceAlpha (p.width * p.height) out else pure out := by
  rw [fixAlpha, totalAlpha_flipped hFits, Picture.flipped_width, Picture.flipped_height]
  rcases Nat.eq_zero_or_pos (p.width * p.height) with hZero | hPos
  · -- In an empty picture the pass has no turn.
    rw [hZero]
    exact (ite_self _).trans (ite_self _).symm
  · exact if_congr (Nat.div_lt_iff_lt_mul hPos) rfl rfl

-- ---------------------------------------------------------------------------
-- The loaders
-- ---------------------------------------------------------------------------

section Loaders

variable {dec : Decoder} {a : FileAnswers} {p : Picture}

/-- A file that decodes to `p` is read completely. -/
theorem fetchFile_of_decodeOf (h : decodeOf dec a = some (some p)) (g : Stb) :
    ∃ content offset, fetchFile a g = (.bytes content, { flip := g.flip, arenaOffset := offset })
      ∧ dec.decode offset content = some p := by
  rw [decodeOf] at h
  rw [fetchFile_eq]
  rcases hFetch : fetchFile a Stb.boot with ⟨_ | _ | content, g₀⟩
  · rw [hFetch] at h
    cases h
  · rw [hFetch] at h
    cases h
  · rw [hFetch] at h
    exact ⟨content, g₀.arenaOffset, rfl, Option.some.inj h⟩

theorem fits_of_decodeOf (h : decodeOf dec a = some (some p)) :
    p.width * p.height * 4 ≤ arenaSize := by
  obtain ⟨content, offset, -, hDecode⟩ := fetchFile_of_decodeOf h Stb.boot
  exact dec.fits offset content p hDecode

theorem naoviewLoadImage_writes (h : decodeOf dec a = some (some p)) {answer : Option Nat}
    {w : World} (hOk : (naoviewLoadImage dec ⟨a, answer⟩ w).val.1 = true) :
    (naoviewLoadImage dec ⟨a, answer⟩ w).val.2.view.contents
        = (copyPicture p.flipped w.view.contents).val
      ∧ (naoviewLoadImage dec ⟨a, answer⟩ w).trace
        = (copyPicture p.flipped w.view.contents).trace := by
  obtain ⟨content, offset, hFetch, hDecode⟩ := fetchFile_of_decodeOf h w.stb
  revert hOk
  simp only [naoviewLoadImage, naoviewCloseImage, hFetch, stbiSetFlipVerticallyOnLoad,
    stbiLoadFromMemory, hDecode, Option.map_some, if_true]
  split
  · intro hOk
    cases hOk
  · intro _
    exact ⟨rfl, List.append_nil _⟩

theorem loadBootImage_writes (h : decodeOf dec a = some (some p)) {out : Pixels} {g : Stb}
    (hOk : (loadBootImage dec a out g).val.1 ≠ (0, 0)) :
    (loadBootImage dec a out g).val.2.1 = (copyPicture p.flipped out).val
      ∧ (loadBootImage dec a out g).trace = (copyPicture p.flipped out).trace := by
  obtain ⟨content, offset, hFetch, hDecode⟩ := fetchFile_of_decodeOf h g
  revert hOk
  simp only [loadBootImage, hFetch, stbiSetFlipVerticallyOnLoad, stbiLoadFromMemory, hDecode,
    Option.map_some, if_true]
  split
  · intro _
    exact ⟨rfl, List.append_nil _⟩
  · intro hOk
    exact absurd rfl hOk

theorem loadImageViaStb_writes (h : decodeOf dec a = some (some p)) (out : Pixels) (g : Stb) :
    (loadImageViaStb dec a p.width p.height out g).val.1.loaded = true
      ∧ (loadImageViaStb dec a p.width p.height out g).val.2.1
        = (fixAlpha p.flipped (copyPicture p.flipped out).val).val
      ∧ (loadImageViaStb dec a p.width p.height out g).trace
        = (copyPicture p.flipped out).trace
          ++ (fixAlpha p.flipped (copyPicture p.flipped out).val).trace := by
  obtain ⟨content, offset, hFetch, hDecode⟩ := fetchFile_of_decodeOf h g
  simp [loadImageViaStb, hFetch, stbiSetFlipVerticallyOnLoad, stbiLoadFromMemory, hDecode]

end Loaders

/--
**The image loaders agree.** Let a file decode to the picture `p`, top row first. NaoView and
the boot image block, whenever they succeed, and `load_image_via_stb`, asked for the size of
`p`, store `p`: the pixel `(x, y)` at `y * width + x`, with one write to every index below
`width * height` and none elsewhere. If the average alpha is below 5, `load_image_via_stb`
then stores the same picture with all alphas 255, again with one write to every index.
-/
theorem image_loaders_agree {dec : Decoder} {a : FileAnswers} {p : Picture}
    (h : decodeOf dec a = some (some p)) :
    (∀ answer w, (naoviewLoadImage dec ⟨a, answer⟩ w).val.1 = true →
      Stored p w.view.contents (naoviewLoadImage dec ⟨a, answer⟩ w).val.2.view.contents
        (naoviewLoadImage dec ⟨a, answer⟩ w).trace)
    ∧ (∀ out g, (loadBootImage dec a out g).val.1 ≠ (0, 0) →
      Stored p out (loadBootImage dec a out g).val.2.1 (loadBootImage dec a out g).trace)
    ∧ ∀ out g, (loadImageViaStb dec a p.width p.height out g).val.1.loaded = true
      ∧ if alphaSum p < 5 * (p.width * p.height) then
          ∃ copied copies alphas,
            (loadImageViaStb dec a p.width p.height out g).trace = copies ++ alphas
            ∧ Stored p out copied copies
            ∧ Stored p.solid copied (loadImageViaStb dec a p.width p.height out g).val.2.1 alphas
        else
          Stored p out (loadImageViaStb dec a p.width p.height out g).val.2.1
            (loadImageViaStb dec a p.width p.height out g).trace := by
  refine ⟨?_, ?_, ?_⟩
  · intro answer w hOk
    obtain ⟨hContents, hTrace⟩ := naoviewLoadImage_writes h hOk
    rw [hContents, hTrace]
    exact stored_copyPicture p _
  · intro out g hOk
    obtain ⟨hPixels, hTrace⟩ := loadBootImage_writes h hOk
    rw [hPixels, hTrace]
    exact stored_copyPicture p _
  · intro out g
    have hCopied := stored_copyPicture p out
    obtain ⟨hLoaded, hPixels, hTrace⟩ := loadImageViaStb_writes h out g
    rw [hPixels, hTrace, fixAlpha_flipped (fits_of_decodeOf h)]
    refine ⟨hLoaded, ?_⟩
    split
    · exact ⟨_, _, _, rfl, hCopied, stored_forceAlpha hCopied.pixels⟩
    · rw [Traced.trace_pure, List.append_nil]
      exact hCopied

/-- Two by two pixels: red and green above blue and white, all of one alpha. -/
def fourColours (alpha : BitVec 8) : Picture where
  width := 2
  height := 2
  pixel := fun y x =>
    match y, x with
    | 0, 0 => ⟨255, 0, 0, alpha⟩
    | 0, _ => ⟨0, 255, 0, alpha⟩
    | _, 0 => ⟨0, 0, 255, alpha⟩
    | _, _ => ⟨255, 255, 255, alpha⟩

/-- A decoder that has no other picture. -/
def fourColoursDecoder (alpha : BitVec 8) : Decoder where
  decode _ _ := some (fourColours alpha)
  offsetAfter offset _ := offset
  fits := by
    intro _ _ p hp
    cases hp
    show 2 * 2 * 4 ≤ arenaSize
    decide

/-- All three loaders store the four pixels, with four writes; for a faint picture
`load_image_via_stb` makes eight. -/
theorem image_loaders_agree_fourColours :
    Stored (fourColours 255) (fun _ => 0)
        (naoviewLoadImage (fourColoursDecoder 255) ⟨⟨some [0], true⟩, some 4096⟩
          World.boot).val.2.view.contents
        (naoviewLoadImage (fourColoursDecoder 255) ⟨⟨some [0], true⟩, some 4096⟩ World.boot).trace
      ∧ Stored (fourColours 255) (fun _ => 7)
        (loadBootImage (fourColoursDecoder 255) ⟨some [0], true⟩ (fun _ => 7) Stb.boot).val.2.1
        (loadBootImage (fourColoursDecoder 255) ⟨some [0], true⟩ (fun _ => 7) Stb.boot).trace
      ∧ Stored (fourColours 255) (fun _ => 7)
        (loadImageViaStb (fourColoursDecoder 255) ⟨some [0], true⟩ 2 2 (fun _ => 7)
          Stb.boot).val.2.1
        (loadImageViaStb (fourColoursDecoder 255) ⟨some [0], true⟩ 2 2 (fun _ => 7) Stb.boot).trace
      ∧ ∃ copied copies alphas,
        (loadImageViaStb (fourColoursDecoder 4) ⟨some [0], true⟩ 2 2 (fun _ => 7) Stb.boot).trace
          = copies ++ alphas
        ∧ Stored (fourColours 4) (fun _ => 7) copied copies
        ∧ Stored (fourColours 4).solid copied
          (loadImageViaStb (fourColoursDecoder 4) ⟨some [0], true⟩ 2 2 (fun _ => 7)
            Stb.boot).val.2.1 alphas := by
  obtain ⟨hNaoview, hBoot, hViaStb⟩ :=
    @image_loaders_agree (fourColoursDecoder 255) ⟨some [0], true⟩ (fourColours 255) rfl
  obtain ⟨-, -, hFaint⟩ :=
    @image_loaders_agree (fourColoursDecoder 4) ⟨some [0], true⟩ (fourColours 4) rfl
  exact ⟨hNaoview (some 4096) World.boot (by decide), hBoot _ Stb.boot (by decide),
    (hViaStb (fun _ => 7) Stb.boot).2, (hFaint (fun _ => 7) Stb.boot).2⟩

end Nao.Images
