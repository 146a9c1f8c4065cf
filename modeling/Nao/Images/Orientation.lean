import Nao.NaoView.Definitions
import Nao.Lib.History

/-!
# The flip flag and the shutdown picture

Every loader sets the flip flag of stb_image before it decodes and resets it afterwards, but
`load_image_via_stb` and the boot image block do not reset it when they give up after
decoding. `sys_shutdown` decodes with whatever the flag is.

* `flip_history` — the flag after a history of loads is what the last load that reached the
  decoder left.
* `shutdown_same_orientation` — histories that leave it at 0 make no difference to the picture
  that `sys_shutdown` draws.
* `shutdown_upside_down` — a history that leaves it at 1 does.
-/

namespace Nao.Images

open SysLib NaoView

variable (dec : Decoder)

-- ---------------------------------------------------------------------------
-- Histories of loads
-- ---------------------------------------------------------------------------

/-- An image load before the shutdown. -/
inductive Load where
  | boot (a : FileAnswers)
  | viaStb (a : FileAnswers) (expectedW expectedH : Nat)
  | naoview (a : LoadAnswers)

def Load.run (w : World) : Load → World
  | .boot a => { w with stb := (loadBootImage dec a (fun _ => 0) w.stb).val.2.2 }
  | .viaStb a expectedW expectedH =>
    { w with stb := (loadImageViaStb dec a expectedW expectedH (fun _ => 0) w.stb).val.2.2 }
  | .naoview a => (naoviewLoadImage dec a w).val.2

def runLoads (ls : List Load) : World := ls.foldl (Load.run dec) World.boot

-- ---------------------------------------------------------------------------
-- What a load leaves behind
-- ---------------------------------------------------------------------------

/-- What the decoder makes of the file, if it is reached at all. -/
def decodeOf (a : FileAnswers) : Option (Option Picture) :=
  match fetchFile a Stb.boot with
  | (.bytes content, g) => some (dec.decode g.arenaOffset content)
  | _ => none

/-- The flag that a load leaves; `none` if it returns before it sets it. -/
def Load.flagAfter : Load → Option Bool
  | .boot a => (decodeOf dec a).map fun r => !r.any fun p =>
      p.width > 0 ∧ p.height > 0 ∧ p.width ≤ bootImgMaxW ∧ p.height ≤ bootImgMaxH
  | .viaStb a expectedW expectedH =>
      (decodeOf dec a).map fun r => !r.any fun p => p.width = expectedW ∧ p.height = expectedH
  | .naoview a => (decodeOf dec a.file).map fun _ => false

/-- The last load that reached the decoder has reset the flag. -/
def LeavesReset (ls : List Load) : Prop := latest (Load.flagAfter dec) ls ≠ some true

instance (ls : List Load) : Decidable (LeavesReset dec ls) := inferInstanceAs (Decidable (_ ≠ _))

/-- Reading the file is the same whatever came before it, and leaves the flag alone. -/
theorem fetchFile_eq (a : FileAnswers) (g : Stb) :
    fetchFile a g = ((fetchFile a Stb.boot).1, { (fetchFile a Stb.boot).2 with flip := g.flip }) := by
  obtain ⟨content, readOk⟩ := a
  cases content with
  | none => rfl
  | some content =>
    simp only [fetchFile, stbiMallocArena, Stb.boot]
    by_cases hFull : (0 + (content.length + 3) % 2 ^ 32 / 4 * 4) % 2 ^ 32 > arenaSize
    · simp only [if_pos hFull]
    · simp only [if_neg hFull]
      cases readOk <;> rfl

section Flags

variable (a : FileAnswers) (g : Stb)

theorem flip_loadBootImage (out : Pixels) :
    (loadBootImage dec a out g).val.2.2.flip = ((Load.boot a).flagAfter dec).getD g.flip := by
  rw [loadBootImage, fetchFile_eq, Load.flagAfter, decodeOf]
  rcases fetchFile a Stb.boot with ⟨_ | _ | content, g₀⟩
  · rfl
  · rfl
  · simp only [stbiLoadFromMemory, stbiSetFlipVerticallyOnLoad]
    cases dec.decode g₀.arenaOffset content with
    | none => rfl
    | some p =>
      simp only [Option.map_some, if_true, Option.any_some, Option.getD_some]
      split
      · next hFit => simpa using hFit
      · next hFit =>
        have hNot : ¬ (p.width > 0 ∧ p.height > 0 ∧ p.width ≤ bootImgMaxW ∧ p.height ≤ bootImgMaxH) :=
          hFit
        rw [decide_eq_false hNot]
        rfl

theorem flip_loadImageViaStb (expectedW expectedH : Nat) (out : Pixels) :
    (loadImageViaStb dec a expectedW expectedH out g).val.2.2.flip
      = ((Load.viaStb a expectedW expectedH).flagAfter dec).getD g.flip := by
  rw [loadImageViaStb, fetchFile_eq, Load.flagAfter, decodeOf]
  rcases fetchFile a Stb.boot with ⟨_ | _ | content, g₀⟩
  · rfl
  · rfl
  · simp only [stbiLoadFromMemory, stbiSetFlipVerticallyOnLoad]
    cases dec.decode g₀.arenaOffset content with
    | none => rfl
    | some p =>
      simp only [Option.map_some, if_true, Option.any_some, Option.getD_some]
      split
      · next hSize => simpa using hSize
      · next hSize => simpa using hSize

end Flags

theorem flip_naoviewLoadImage (a : LoadAnswers) (w : World) :
    (naoviewLoadImage dec a w).val.2.stb.flip = ((Load.naoview a).flagAfter dec).getD w.stb.flip := by
  rw [naoviewLoadImage, fetchFile_eq, Load.flagAfter, decodeOf]
  rcases fetchFile a.file Stb.boot with ⟨_ | _ | content, g₀⟩
  · rfl
  · rfl
  · simp only [stbiLoadFromMemory, stbiSetFlipVerticallyOnLoad]
    cases dec.decode g₀.arenaOffset content with
    | none => rfl
    | some p =>
      simp only [Option.map_some, Option.getD_some]
      split <;> rfl

theorem flip_load (w : World) (l : Load) :
    (Load.run dec w l).stb.flip = (l.flagAfter dec).getD w.stb.flip := by
  cases l with
  | boot a => exact flip_loadBootImage dec a w.stb _
  | viaStb a expectedW expectedH => exact flip_loadImageViaStb dec a w.stb expectedW expectedH _
  | naoview a => exact flip_naoviewLoadImage dec a w

/-- The flag after a history is what the last load that reached the decoder has left. -/
theorem flip_history (ls : List Load) :
    (runLoads dec ls).stb.flip = (latest (Load.flagAfter dec) ls).getD false := by
  induction ls using List.reverseRecOn with
  | nil => rfl
  | append_singleton ls l ih =>
    rw [runLoads, List.foldl_append, ← runLoads, latest_concat]
    simp only [List.foldl_cons, List.foldl_nil, flip_load, ih]
    cases l.flagAfter dec <;> rfl

-- ---------------------------------------------------------------------------
-- The shutdown picture
-- ---------------------------------------------------------------------------

/-- `sys_shutdown` empties the arena itself, so the flag is all it takes over. -/
theorem sysShutdown_congr (scr : Screen) (a : ShutdownAnswers) {g g' : Stb} (h : g.flip = g'.flip)
    (fb : Pixels) : sysShutdown dec scr a g fb = sysShutdown dec scr a g' fb := by
  simp only [sysShutdown, stbiLoadFromMemory, h]

/-- The flag is 0 unless the last load that reached the decoder has left it at 1. -/
theorem flip_eq_false_iff (ls : List Load) :
    (runLoads dec ls).stb.flip = false ↔ LeavesReset dec ls := by
  rw [flip_history, LeavesReset]
  rcases latest (Load.flagAfter dec) ls with _ | _ | _ <;> simp

/--
**The shutdown picture.** The flip flag is at 0 after a history of image loads exactly when the
last load that reached the decoder did not give up after it, in `load_image_via_stb` or at boot;
NaoView always resets it. For any two such histories `sys_shutdown` draws the same.
-/
theorem shutdown_same_orientation :
    (∀ ls, (runLoads dec ls).stb.flip = false ↔ LeavesReset dec ls)
      ∧ ∀ ls ls', LeavesReset dec ls → LeavesReset dec ls' → ∀ scr a fb,
          sysShutdown dec scr a (runLoads dec ls).stb fb
            = sysShutdown dec scr a (runLoads dec ls').stb fb := by
  refine ⟨flip_eq_false_iff dec, ?_⟩
  intro ls ls' h h' scr a fb
  rw [← flip_eq_false_iff] at h h'
  exact sysShutdown_congr dec scr a (h.trans h'.symm) fb

/-- A decoder whose only picture is one pixel wide: red above blue. -/
def redOverBlue : Decoder where
  decode _ _ := some
    { width := 1, height := 2
      pixel := fun y _ => if y = 0 then ⟨255, 0, 0, 255⟩ else ⟨0, 0, 255, 255⟩ }
  offsetAfter offset _ := offset
  fits := by
    intro _ _ p hp
    cases hp
    decide

/-- `0:/shutdown.png` is there. -/
def shutdownFile : ShutdownAnswers := { file := { content := some [0], readOk := true }, kmalloc := true }

theorem shutdown_same_orientation_after_boot :
    sysShutdown redOverBlue ⟨1, 2⟩ shutdownFile
        (runLoads redOverBlue [.boot ⟨some [0], true⟩, .viaStb ⟨none, true⟩ 64 64]).stb (fun _ => 0)
      = sysShutdown redOverBlue ⟨1, 2⟩ shutdownFile (runLoads redOverBlue []).stb (fun _ => 0) :=
  (shutdown_same_orientation redOverBlue).2 _ _ (by decide) (by decide) _ _ _

/-- An icon of the wrong size leaves the flag at 1, and the shutdown picture is drawn the other way
up than without that load. -/
theorem shutdown_upside_down :
    (runLoads redOverBlue [.viaStb ⟨some [0], true⟩ 64 64]).stb.flip = true
      ∧ sysShutdown redOverBlue ⟨1, 2⟩ shutdownFile
          (runLoads redOverBlue [.viaStb ⟨some [0], true⟩ 64 64]).stb (fun _ => 0) 0 = 0xFF0000
      ∧ sysShutdown redOverBlue ⟨1, 2⟩ shutdownFile (runLoads redOverBlue []).stb (fun _ => 0) 0
          = 0x0000FF := by
  decide

end Nao.Images
