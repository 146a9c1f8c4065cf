import Nao.Images.Orientation

/-!
# Image commands and their pixels

The command that `nk_image` queues holds a copy of the pixel pointer, and it is executed at the
end of the frame. NaoView owns at most one block of the heap, the pixels of the image it shows
(`ViewInv`), so the command is safe exactly when the image is still the same one at the end of
the frame, or another one at the same place that is no smaller.

* `image_command_live` — that is so in every frame in which `Load` is not clicked, and in a frame
  in which it is clicked only if the new pixels happen to be put in the old place.
* `image_command_dangling` — a reload that fails.
-/

namespace Nao.NaoView

open SysLib Images

variable {dec : Decoder} {w w' : World}

-- ---------------------------------------------------------------------------
-- What has to hold
-- ---------------------------------------------------------------------------

/-- The pointer of an executed command is a live block with room for its pixels. -/
def Executed.Safe (e : Executed) : Prop :=
  match e.heap e.cmd.ptr with
  | some size => e.cmd.w * e.cmd.h * 4 ≤ size
  | none => False

instance (e : Executed) : Decidable e.Safe := by
  unfold Executed.Safe
  split <;> infer_instance

/-- NaoView's part of the heap is the block of the image it shows. -/
structure ViewInv (w : World) : Prop where
  img_eq  : w.view.img = w.view.pixels
  heap_eq : ∀ p, w.heap p
    = if w.view.pixels = some p then some (w.view.width * w.view.height * 4) else none
  nonzero : ∀ p, w.view.pixels = some p → p ≠ 0

/-- The image and its block are the same. -/
structure SameImage (w w' : World) : Prop where
  heap   : w'.heap = w.heap
  pixels : w'.view.pixels = w.view.pixels
  width  : w'.view.width = w.view.width
  height : w'.view.height = w.view.height
  img    : w'.view.img = w.view.img

theorem SameImage.refl (w : World) : SameImage w w := ⟨rfl, rfl, rfl, rfl, rfl⟩

theorem SameImage.trans {w'' : World} (h : SameImage w w') (h' : SameImage w' w'') : SameImage w w'' :=
  ⟨h'.heap.trans h.heap, h'.pixels.trans h.pixels, h'.width.trans h.width, h'.height.trans h.height,
    h'.img.trans h.img⟩

theorem ViewInv.same (h : ViewInv w) (hSame : SameImage w w') : ViewInv w' where
  img_eq := by rw [hSame.img, hSame.pixels, h.img_eq]
  heap_eq := by
    rw [hSame.heap, hSame.pixels, hSame.width, hSame.height]
    exact h.heap_eq
  nonzero := by
    rw [hSame.pixels]
    exact h.nonzero

-- ---------------------------------------------------------------------------
-- Closing and loading
-- ---------------------------------------------------------------------------

theorem viewInv_close (h : ViewInv w) : ViewInv (naoviewCloseImage w) := by
  refine ⟨rfl, ?_, fun p hNone => absurd hNone.symm (Option.some_ne_none p)⟩
  intro p
  have hp := h.heap_eq p
  simp only [naoviewCloseImage, reduceCtorEq, if_false]
  cases hPixels : w.view.pixels with
  | none =>
    rw [hPixels] at hp
    exact hp
  | some q =>
    by_cases hEq : p = q
    · rw [hEq]
      exact Function.update_self ..
    · rw [hPixels, if_neg (by simpa using Ne.symm hEq)] at hp
      exact (Function.update_of_ne hEq ..).trans hp

theorem kmalloc_none {answer : Option Nat} {size : Nat} {heap heap' : Heap}
    (h : kmalloc answer size heap = (none, heap')) : heap' = heap := by
  unfold kmalloc at h
  split at h
  · split at h
    · cases h
    · exact (Prod.mk.inj h).2.symm
  · exact (Prod.mk.inj h).2.symm

/-- The block a successful `kmalloc` adds to a heap without NaoView's blocks. -/
theorem kmalloc_some {answer : Option Nat} {address size : Nat} {heap heap' : Heap}
    (hEmpty : ∀ p, heap p = none) (h : kmalloc answer size heap = (some address, heap')) :
    address ≠ 0 ∧ ∀ p, heap' p = if some address = some p then some size else none := by
  unfold kmalloc at h
  split at h
  · split at h
    · next hFree =>
      obtain ⟨hAddress, rfl⟩ := Prod.mk.inj h
      cases hAddress
      refine ⟨hFree.1, fun p => ?_⟩
      by_cases hEq : p = address
      · rw [hEq, Function.update_self, if_pos rfl]
      · rw [Function.update_of_ne hEq, hEmpty, if_neg (by simpa using Ne.symm hEq)]
    · cases h
  · cases h

/-- A decoded picture is in the arena, whichever way its rows are. -/
theorem stbiLoadFromMemory_fits {bytes : List UInt8} {g g' : Stb} {p : Picture}
    (h : stbiLoadFromMemory dec bytes g = (some p, g')) : p.width * p.height * 4 ≤ arenaSize := by
  obtain ⟨q, hDecode, hq⟩ := Option.map_eq_some_iff.mp (Prod.mk.inj h).1
  have hFits := dec.fits _ _ q hDecode
  rw [← hq]
  split <;> exact hFits

theorem viewInv_load (h : ViewInv w) (a : LoadAnswers) : ViewInv (naoviewLoadImage dec a w).val.2 := by
  have hClose := viewInv_close h
  have hEmpty : ∀ p, (naoviewCloseImage w).heap p = none := fun p => hClose.heap_eq p
  unfold naoviewLoadImage
  dsimp only
  split
  · exact hClose.same ⟨rfl, rfl, rfl, rfl, rfl⟩
  · exact hClose.same ⟨rfl, rfl, rfl, rfl, rfl⟩
  · split
    · exact hClose.same ⟨rfl, rfl, rfl, rfl, rfl⟩
    · next p _ hDecode =>
      have hMod : p.width * p.height * 4 % 2 ^ 32 = p.width * p.height * 4 :=
        Nat.mod_eq_of_lt (Nat.lt_of_le_of_lt (stbiLoadFromMemory_fits hDecode) (by decide))
      rw [hMod]
      split
      · next hAlloc => exact hClose.same ⟨kmalloc_none hAlloc, rfl, rfl, rfl, rfl⟩
      · next hAlloc =>
        obtain ⟨hAddress, hHeap⟩ := kmalloc_some hEmpty hAlloc
        exact ⟨rfl, hHeap, fun _ hPixels => Option.some.inj hPixels ▸ hAddress⟩

/-- What a `Load` puts in the place of the image: the picture of the file, in the block that
`kmalloc` gives. -/
theorem load_replaces_iff (h : ViewInv w) (a : LoadAnswers) {ptr size : Nat} (hPtr : ptr ≠ 0) :
    (naoviewLoadImage dec a w).val.2.view.pixels = some ptr
        ∧ size ≤ (naoviewLoadImage dec a w).val.2.view.width
          * (naoviewLoadImage dec a w).val.2.view.height * 4
      ↔ a.kmalloc = some ptr
        ∧ ∃ q, decodeOf dec a.file = some (some q) ∧ size ≤ q.width * q.height * 4 := by
  have hEmpty : ∀ p, (naoviewCloseImage w).heap p = none := fun p => (viewInv_close h).heap_eq p
  simp only [naoviewLoadImage, decodeOf]
  rw [fetchFile_eq]
  rcases fetchFile a.file Stb.boot with ⟨_ | _ | content, g⟩
  · simp [naoviewCloseImage]
  · simp [naoviewCloseImage]
  · simp only [stbiLoadFromMemory, stbiSetFlipVerticallyOnLoad]
    cases hDecode : dec.decode g.arenaOffset content with
    | none => simp [naoviewCloseImage]
    | some q =>
      cases hAnswer : a.kmalloc with
      | none => simp [kmalloc, naoviewCloseImage]
      | some p =>
        rcases eq_or_ne p 0 with rfl | hp
        · simp [kmalloc, naoviewCloseImage, hPtr.symm]
        · simp [kmalloc, hp, hEmpty]

-- ---------------------------------------------------------------------------
-- The parts of a frame
-- ---------------------------------------------------------------------------

theorem viewInv_menuBar (h : ViewInv w) (b : Body) : ViewInv (menuBar b w) := by
  have hOpen : ViewInv (if b.openPng then
      { w with view := { w.view with showOpenDialog := true, alert := .ok } } else w) := by
    split
    · exact h.same ⟨rfl, rfl, rfl, rfl, rfl⟩
    · exact h
  unfold menuBar
  dsimp only
  split
  · exact (viewInv_close hOpen).same ⟨rfl, rfl, rfl, rfl, rfl⟩
  · exact hOpen

/-- The popup is open and its `Load` button is clicked. -/
def Loads (popup : Option OpenPopup) (w : World) : Prop :=
  w.view.showOpenDialog = true ∧ ∃ p ∈ popup, p.load.isSome

instance (popup : Option OpenPopup) (w : World) : Decidable (Loads popup w) :=
  inferInstanceAs (Decidable (_ ∧ _))

theorem viewInv_openDialog (h : ViewInv w) (popup : Option OpenPopup) :
    ViewInv (openDialog dec popup w) := by
  have hLoad : ∀ load, ViewInv (loadButton dec load w) := by
    intro load
    cases load with
    | none => exact h
    | some a =>
      unfold loadButton
      dsimp only
      split
      · exact (viewInv_load h a).same ⟨rfl, rfl, rfl, rfl, rfl⟩
      · exact viewInv_load h a
  unfold openDialog
  split
  · cases popup with
    | none => exact h.same ⟨rfl, rfl, rfl, rfl, rfl⟩
    | some p =>
      dsimp only
      split
      · exact (hLoad p.load).same ⟨rfl, rfl, rfl, rfl, rfl⟩
      · exact hLoad p.load
  · exact h

theorem sameImage_openDialog {popup : Option OpenPopup} (h : ¬ Loads popup w) :
    SameImage w (openDialog dec popup w) := by
  unfold openDialog
  split
  · next hShow =>
    cases popup with
    | none => exact ⟨rfl, rfl, rfl, rfl, rfl⟩
    | some p =>
      have hNone : p.load = none := by
        by_contra hSome
        exact h ⟨hShow, p, rfl, Option.isSome_iff_ne_none.mpr hSome⟩
      simp only [hNone, loadButton]
      split
      · exact ⟨rfl, rfl, rfl, rfl, rfl⟩
      · exact .refl w
  · exact .refl w

/-- After a `Load` the image is what `naoview_load_image` left. -/
theorem sameImage_load {p : OpenPopup} {a : LoadAnswers} (hShow : w.view.showOpenDialog = true)
    (hLoad : p.load = some a) :
    SameImage (naoviewLoadImage dec a w).val.2 (openDialog dec (some p) w) := by
  have hButton : SameImage (naoviewLoadImage dec a w).val.2 (loadButton dec p.load w) := by
    rw [hLoad, loadButton]
    dsimp only
    split
    · exact ⟨rfl, rfl, rfl, rfl, rfl⟩
    · exact .refl _
  rw [openDialog, if_pos hShow]
  dsimp only
  split
  · exact hButton.trans ⟨rfl, rfl, rfl, rfl, rfl⟩
  · exact hButton

theorem sameImage_alertDialog (popup : Option Bool) : SameImage w (alertDialog popup w) := by
  unfold alertDialog
  split
  · split <;> exact ⟨rfl, rfl, rfl, rfl, rfl⟩
  · exact .refl w

/-- The command of the canvas is for the image that NaoView shows at that moment. -/
theorem canvas_some {b : Body} {cmd : ImageCommand} (h : ViewInv w) (hCmd : canvas b w = some cmd) :
    w.view.pixels = some cmd.ptr ∧ cmd.w ≤ w.view.width ∧ cmd.h ≤ w.view.height := by
  unfold canvas at hCmd
  split at hCmd
  · next p ptr hPixels hImg =>
    split at hCmd
    · cases hCmd
      exact ⟨by rw [← h.img_eq, hImg], Nat.mod_le .., Nat.mod_le ..⟩
    · cases hCmd
  · cases hCmd

/-- A command is safe when its pointer is the image's and the image is large enough. -/
theorem safe_iff (h : ViewInv w) (cmd : ImageCommand) :
    Executed.Safe ⟨cmd, w.heap⟩ ↔
      w.view.pixels = some cmd.ptr ∧ cmd.w * cmd.h * 4 ≤ w.view.width * w.view.height * 4 := by
  simp only [Executed.Safe, h.heap_eq cmd.ptr]
  by_cases hPtr : w.view.pixels = some cmd.ptr
  · simp [hPtr]
  · simp [hPtr]

-- ---------------------------------------------------------------------------
-- Frames
-- ---------------------------------------------------------------------------

/-- `Load` is clicked in the frame. -/
def Frame.Loads (f : Frame) (w : World) : Prop := ∃ b ∈ f.body, NaoView.Loads b.openPopup (menuBar b w)

instance (f : Frame) (w : World) : Decidable (f.Loads w) := inferInstanceAs (Decidable (∃ b ∈ f.body, _))

/-- What the `Load` of a frame is answered. -/
def Frame.load (f : Frame) : Option LoadAnswers := (f.body.bind Body.openPopup).bind OpenPopup.load

/-- The body of a frame that is not the last one of the window. -/
def runBody (dec : Decoder) (b : Body) (w : World) : World :=
  alertDialog b.alertPopup (openDialog dec b.openPopup (menuBar b w))

theorem viewInv_runBody (h : ViewInv w) (b : Body) : ViewInv (runBody dec b w) :=
  (viewInv_openDialog (viewInv_menuBar h b) b.openPopup).same (sameImage_alertDialog _)

theorem viewInv_render (h : ViewInv w) (f : Frame) : ViewInv (renderNaoview dec f w).2 := by
  unfold renderNaoview
  split
  · exact h
  · cases f.body with
    | none =>
      dsimp only
      split
      · exact viewInv_close (h.same ⟨rfl, rfl, rfl, rfl, rfl⟩)
      · exact h
    | some b =>
      have hBody : ViewInv (runBody dec b w) := viewInv_runBody h b
      dsimp only
      split
      · exact viewInv_close (hBody.same ⟨rfl, rfl, rfl, rfl, rfl⟩)
      · exact hBody

/-- A queued command comes from the canvas, and the window is still open. -/
theorem render_some {f : Frame} {cmd : ImageCommand} (hCmd : (renderNaoview dec f w).1 = some cmd) :
    ∃ b, f.body = some b ∧ canvas b (menuBar b w) = some cmd
      ∧ (renderNaoview dec f w).2 = runBody dec b w := by
  unfold renderNaoview at hCmd ⊢
  split at hCmd
  · cases hCmd
  · next hActive =>
    rw [if_neg hActive]
    cases hBody : f.body with
    | none =>
      rw [hBody] at hCmd
      dsimp only at hCmd
      split at hCmd <;> cases hCmd
    | some b =>
      have hShown : f.hidden = false := by
        by_contra hHidden
        have hNone := f.noBody (by simpa using hHidden)
        rw [hBody] at hNone
        cases hNone
      rw [hBody] at hCmd
      simp only [hShown, Bool.false_eq_true, if_false] at hCmd ⊢
      exact ⟨b, rfl, hCmd, rfl⟩

theorem viewInv_feed (is : List Input) : ViewInv (feed (step dec) World.boot is).val := by
  have hBoot : ViewInv World.boot := ⟨rfl, fun _ => rfl, by simp [World.boot]⟩
  refine feed_invariant (fun _ _ w => ViewInv w) hBoot ?_ is
  intro _ _ w i h
  cases i with
  | frame f =>
    simp only [step]
    split <;> exact viewInv_render h f
  | launch => exact h.same ⟨rfl, rfl, rfl, rfl, rfl⟩
  | taskbar =>
    simp only [step]
    split
    · exact h.same ⟨rfl, rfl, rfl, rfl, rfl⟩
    · exact h

-- ---------------------------------------------------------------------------
-- Main result
-- ---------------------------------------------------------------------------

/--
**Image commands and their pixels.** After any inputs, the command that is executed at the end of
a frame points to a live block with room for its pixels if `Load` was not clicked in the frame. If
it was, the block the command points to has been freed, and the command is safe exactly when
`kmalloc` gave the same address again, for a file that decodes to a picture that is no smaller.
-/
theorem image_command_live (dec : Decoder) (is : List Input) (f : Frame) :
    let w := (feed (step dec) World.boot is).val
    ∀ e ∈ (step dec w (.frame f)).trace,
      (¬ f.Loads w → e.Safe)
        ∧ (f.Loads w →
          ∃ a ∈ f.load,
            (e.Safe ↔ a.kmalloc = some e.cmd.ptr
              ∧ ∃ q, decodeOf dec a.file = some (some q)
                ∧ e.cmd.w * e.cmd.h * 4 ≤ q.width * q.height * 4)) := by
  intro w e he
  have hInv : ViewInv w := viewInv_feed is
  have hEnd : ViewInv (renderNaoview dec f w).2 := viewInv_render hInv f
  simp only [step] at he ⊢
  cases hCmd : (renderNaoview dec f w).1 with
  | none =>
    simp only [hCmd] at he
    cases he
  | some cmd =>
    simp only [hCmd, Traced.trace_bind, Traced.trace_tell, Traced.trace_pure, List.append_nil,
      List.mem_singleton] at he ⊢
    subst he
    obtain ⟨b, hBody, hCanvas, hRun⟩ := render_some hCmd
    have hMenu : ViewInv (menuBar b w) := viewInv_menuBar hInv b
    obtain ⟨hPtr, hw, hh⟩ := canvas_some hMenu hCanvas
    constructor
    · intro hNo
      -- without a load the image at the end is the one the command was made for
      have hSame : SameImage (menuBar b w) (runBody dec b w) :=
        (sameImage_openDialog fun hLoads => hNo ⟨b, hBody, hLoads⟩).trans (sameImage_alertDialog _)
      rw [safe_iff hEnd, hRun, hSame.pixels, hSame.width, hSame.height]
      exact ⟨hPtr, Nat.mul_le_mul_right 4 (Nat.mul_le_mul hw hh)⟩
    · rintro ⟨b', hBody', hShow, p, hPopup, hSome⟩
      obtain rfl : b' = b := Option.some.inj (hBody'.symm.trans hBody)
      obtain ⟨a, hLoad⟩ := Option.isSome_iff_exists.mp hSome
      have hSame : SameImage (naoviewLoadImage dec a (menuBar b' w)).val.2 (runBody dec b' w) := by
        rw [runBody, hPopup]
        exact (sameImage_load hShow hLoad).trans (sameImage_alertDialog _)
      refine ⟨a, ?_, ?_⟩
      · rw [Frame.load, hBody, Option.bind_some, hPopup, Option.bind_some, hLoad]
        rfl
      · rw [safe_iff hEnd, hRun, hSame.pixels, hSame.width, hSame.height]
        exact load_replaces_iff hMenu a (hMenu.nonzero _ hPtr)

/-- A decoder that makes one white pixel of every file. -/
def whitePixel : Decoder where
  decode _ _ := some { width := 1, height := 1, pixel := fun _ _ => ⟨255, 255, 255, 255⟩ }
  offsetAfter offset _ := offset
  fits := by
    intro _ _ p hp
    cases hp
    decide

/-- A frame in which `Open PNG...` is clicked, so that the popup appears. -/
def menuFrame : Frame where
  body := some
    { openPng := true, closeImage := false, imageShown := true
      openPopup := some { load := none, cancel := false }, alertPopup := none }
  hidden := false
  noBody h := nomatch h

/-- A later frame, in which `Load` is clicked in the popup. -/
def loadFrame (a : LoadAnswers) : Frame where
  body := some
    { openPng := false, closeImage := false, imageShown := true
      openPopup := some { load := some a, cancel := false }, alertPopup := none }
  hidden := false
  noBody h := nomatch h

/-- A picture is loaded into the block at address 16. -/
def loadedRun : List Input :=
  [.launch, .frame menuFrame, .frame (loadFrame ⟨⟨some [0], true⟩, some 16⟩)]

/-- The picture is drawn while the popup is opened for another one. -/
theorem image_command_live_menu :
    let w := (feed (step whitePixel) World.boot loadedRun).val
    (step whitePixel w (.frame menuFrame)).trace.length = 1
      ∧ ∀ e ∈ (step whitePixel w (.frame menuFrame)).trace, e.Safe :=
  ⟨by decide, fun e he => (image_command_live whitePixel loadedRun menuFrame e he).1 (by decide)⟩

/-- The image is shown, the popup is open; the image is queued, then `Load` is clicked for a file
that does not exist: the pixels are freed and the command is executed all the same. -/
theorem image_command_dangling :
    let w := (feed (step whitePixel) World.boot (loadedRun ++ [.frame menuFrame])).val
    ¬ ∀ e ∈ (step whitePixel w (.frame (loadFrame ⟨⟨none, true⟩, none⟩))).trace, e.Safe := by
  decide

end Nao.NaoView
