import Nao.Ani.Definitions
import Nao.Lib.Lts
import Nao.Lib.Timeline
import Mathlib.Algebra.Order.BigOperators.Group.List
import Mathlib.Algebra.Order.Ring.Nat

/-!
# Playing an animation

What holds of the animation over every sequence of `ani_init`, `ani_load`, `ani_play`,
`ani_stop` and `ani_update`, and which frame is shown when.

The loader gives every frame it counts a rate of at least one jiffy, so every frame lasts at
least one tick; this is why `ani_update` has something to divide by. The frames form a timeline,
and `ani_update` looks up the slot that the elapsed time, modulo the whole, falls into.

* `playable_run` — the invariant of every run.
* `animation_frame_selection` — counts and indices in their bounds, no sum wraps, and the frame
  selected is the one whose interval contains the time; in every period each frame is shown for
  its own duration.
-/

namespace Nao.Ani

open SysLib

-- ---------------------------------------------------------------------------
-- What the loader leaves
-- ---------------------------------------------------------------------------

/-- A rate the loader uses: read from 32 bits, and 60 in place of 0. -/
def RateOk (rate : Nat) : Prop := 0 < rate ∧ rate < 2 ^ 32

/-- The frames that are counted fit and have a rate. -/
structure Filled (ani : State) : Prop where
  count_le : ani.frameCount ≤ aniMaxFrames
  rates    : ∀ i, i < ani.frameCount → RateOk (ani.frames i).durationJiffies

/-- What a load changes: only the frames and their count. -/
structure Resting (ani : State) : Prop extends Filled ani where
  inactive : ani.active = false
  current  : ani.currentFrame = 0

theorem resting_aniInit (ani : State) : Resting (aniInit ani) :=
  ⟨⟨Nat.zero_le _, fun i hi => absurd hi (Nat.not_lt_zero i)⟩, rfl, rfl⟩

section Load

variable {f : File} {ani ani' : State}

theorem resting_loadFrame {cur size rate : Nat} (h : Resting ani)
    (hRoom : ani.frameCount < aniMaxFrames) (hRate : RateOk rate) :
    Resting (loadFrame f cur size rate ani).val := by
  simp only [loadFrame, Traced.val_bind]
  generalize (parseCurFrame f cur size (ani.frames ani.frameCount)).val = r
  obtain ⟨ok, frame⟩ := r
  have hOther : ∀ {i} frame', i < ani.frameCount →
      RateOk (Function.update ani.frames ani.frameCount frame' i).durationJiffies := by
    intro i frame' hi
    rw [Function.update_of_ne (by omega)]
    exact h.rates i hi
  cases ok with
  | true =>
    refine ⟨⟨hRoom, ?_⟩, h.inactive, h.current⟩
    intro i hi
    rcases Nat.lt_succ_iff_lt_or_eq.mp hi with hi | rfl
    · exact hOther _ hi
    · exact (congrArg (fun g => RateOk (Frame.durationJiffies g))
        (Function.update_self ani.frameCount _ ani.frames)).mpr hRate
  | false => exact ⟨⟨h.count_le, fun i hi => hOther _ hi⟩, h.inactive, h.current⟩

theorem resting_subBody {id : List UInt8} {cur size rate : Nat} (h : Resting ani)
    (hRoom : ani.frameCount < aniMaxFrames) (hRate : RateOk rate) :
    Resting (subBody f id cur size rate ani).val := by
  unfold subBody
  split
  · exact resting_loadFrame h hRoom hRate
  · exact h

theorem resting_listLoop {listEnd rate fuel offset : Nat} (h : Resting ani) (hRate : RateOk rate)
    (hEnd : (listLoop f listEnd rate fuel (offset, ani)).val = some ani') : Resting ani' := by
  refine Traced.whileLoop_partial (fun s => Resting s.2) ?_ ?_ h hEnd
  · intro _ s s' hs hTurn
    simp only [Traced.val_map, Option.some.injEq, listTurn] at hTurn
    split at hTurn
    · next hGo =>
      cases hTurn
      exact resting_subBody hs hGo.2 hRate
    · cases hTurn
  · intro _ s r hs hTurn
    simp only [Traced.val_map, Option.some.injEq, listTurn] at hTurn
    split at hTurn
    · cases hTurn
    · cases hTurn
      exact hs

/-- Between two chunks. -/
structure Load.Ok (s : Load) : Prop where
  resting : Resting s.ani
  rate    : RateOk s.anihRate

theorem ok_anihChunk {chunkSize : Nat} {s : Load} (h : s.Ok) : (anihChunk f chunkSize s).val.Ok := by
  unfold anihChunk
  split
  · refine ⟨h.resting, ?_⟩
    have hLt := readLe32_lt f (s.offset + 8 + 20)
    simp only [Traced.val_bind, Traced.val_pure]
    split
    · exact ⟨by decide, by decide⟩
    · exact ⟨by omega, hLt⟩
  · exact h

theorem ok_listChunk {fuel chunkSize : Nat} {s s' : Load} (h : s.Ok)
    (hEnd : (listChunk f fuel chunkSize s).val = some s') : s'.Ok := by
  obtain ⟨ani, hLoop, rfl⟩ := Option.map_eq_some_iff.mp hEnd
  exact ⟨resting_listLoop h.resting h.rate hLoop, h.rate⟩

theorem ok_iconChunk {chunkSize : Nat} {s : Load} (h : s.Ok) : (iconChunk f chunkSize s).val.Ok := by
  unfold iconChunk
  split
  · next hRoom => exact ⟨resting_loadFrame h.resting hRoom h.rate, h.rate⟩
  · exact h

theorem ok_chunkBody {fuel chunkSize : Nat} {id : List UInt8} {s s' : Load} (h : s.Ok)
    (hBody : (chunkBody f fuel id chunkSize s).val = some s') : s'.Ok := by
  unfold chunkBody at hBody
  split at hBody
  · cases hBody
    exact ok_anihChunk h
  split at hBody
  · cases hBody
    exact ⟨h.resting, h.rate⟩
  split at hBody
  · exact ok_listChunk h hBody
  split at hBody
  · cases hBody
    exact ok_iconChunk h
  · cases hBody
    exact h

theorem ok_chunkTurn {fuel : Nat} {s : Load} {turn : Turn Load Load} (h : s.Ok)
    (hTurn : (chunkTurn f fuel s).val = some turn) :
    (∀ s', turn = .again s' → s'.Ok) ∧ ∀ s', turn = .exit s' → s'.Ok := by
  unfold chunkTurn at hTurn
  split at hTurn
  · simp only [Traced.val_bind, Traced.val_pure] at hTurn
    obtain ⟨s₁, hBody, rfl⟩ := Option.map_eq_some_iff.mp hTurn
    have h₁ := ok_chunkBody h hBody
    unfold nextChunk
    split <;> refine ⟨?_, ?_⟩ <;> rintro _ ⟨⟩ <;> exact ⟨h₁.resting, h₁.rate⟩
  · cases hTurn
    refine ⟨?_, ?_⟩ <;> rintro _ ⟨⟩
    exact h

/-- A load that returns leaves an animation at rest, whether it has succeeded or not. -/
theorem resting_aniLoad {a : LoadAnswers} {seqBuffer : Mem} {fuel : Nat} {ok : Bool}
    (hReturn : (aniLoad a f seqBuffer ani fuel).val = some (ok, ani')) : Resting ani' := by
  have hInit := resting_aniInit ani
  simp only [aniLoad, Traced.val_bind] at hReturn
  split at hReturn
  · cases hReturn
    exact hInit
  · obtain ⟨s, hLoop, hEq⟩ := Option.map_eq_some_iff.mp hReturn
    have hRate : RateOk 60 := ⟨by decide, by decide⟩
    have hStart : (Load.start seqBuffer (aniInit ani)).Ok := ⟨hInit, hRate⟩
    have hOk : s.Ok := Traced.whileLoop_partial Load.Ok
      (fun _ _ s' hs hTurn => (ok_chunkTurn hs hTurn).1 s' rfl)
      (fun _ _ r hs hTurn => (ok_chunkTurn hs hTurn).2 r rfl) hStart hLoop
    cases hEq
    exact hOk.resting

end Load

-- ---------------------------------------------------------------------------
-- The invariant
-- ---------------------------------------------------------------------------

/-- A call of the animation's interface. -/
inductive Call where
  | init
  | load (a : LoadAnswers) (f : File) (seqBuffer : Mem)
  | play (timer : BitVec 32)
  | stop
  | update (tick : BitVec 32)

/-- A call that returns. `ani_load` does not return from every file. -/
inductive Step : State → Call → State → Prop where
  | init (ani : State) : Step ani .init (aniInit ani)
  | load {ani ani' : State} {a : LoadAnswers} {f : File} {seqBuffer : Mem} {ok : Bool}
      (hReturns : Returns (fun fuel => (aniLoad a f seqBuffer ani fuel).val) (ok, ani')) :
      Step ani (.load a f seqBuffer) ani'
  | play (ani : State) (timer : BitVec 32) : Step ani (.play timer) (aniPlay timer ani)
  | stop (ani : State) : Step ani .stop (aniStop ani)
  | update (ani : State) (tick : BitVec 32) : Step ani (.update tick) (aniUpdate tick ani)

structure Playable (ani : State) : Prop extends Filled ani where
  current : ani.currentFrame = 0 ∨ ani.currentFrame < ani.frameCount
  active  : ani.active = true → 1 ≤ ani.frameCount

theorem Resting.playable {ani : State} (h : Resting ani) : Playable ani where
  toFilled := h.toFilled
  current := .inl h.current
  active hActive := by
    rw [h.inactive] at hActive
    cases hActive

-- ---------------------------------------------------------------------------
-- The timeline of the frames
-- ---------------------------------------------------------------------------

/-- A rate read from the file is between 1 and 805306 ticks at the speed of 1600 percent. -/
theorem jiffiesToTicks_bounds {jiffies : Nat} (h : RateOk jiffies) :
    0 < jiffiesToTicks jiffies ∧ jiffiesToTicks jiffies ≤ 805306 := by
  obtain ⟨hPos, hLt⟩ := h
  have hAdjusted : jiffies * 100 % 2 ^ 32 / aniSpeedPercentage ≤ 2684354 := by
    have hMod : jiffies * 100 % 2 ^ 32 < 2 ^ 32 := Nat.mod_lt _ (by decide)
    unfold aniSpeedPercentage
    omega
  unfold jiffiesToTicks
  rw [if_neg (by omega)]
  dsimp only
  generalize jiffies * 100 % 2 ^ 32 / aniSpeedPercentage = q at hAdjusted ⊢
  obtain ⟨adjusted, hEq, hGe, hLe⟩ : ∃ adjusted,
      (if q = 0 then 1 else q) = adjusted ∧ 1 ≤ adjusted ∧ adjusted ≤ 2684354 := by
    refine ⟨_, rfl, ?_⟩
    split <;> omega
  rw [hEq, Nat.mod_eq_of_lt (by omega)]
  split <;> omega

namespace State

variable {ani : State}

theorem length_durations (ani : State) : ani.durations.length = ani.frameCount := by
  simp [durations]

theorem durations_bounds (h : Filled ani) : ∀ d ∈ ani.durations, 0 < d ∧ d ≤ 805306 := by
  intro d hd
  obtain ⟨i, hi, rfl⟩ := List.mem_map.mp hd
  exact jiffiesToTicks_bounds (h.rates i (List.mem_range.mp hi))

/-- No sum of durations comes near `2 ^ 32`. -/
theorem sum_durations_lt (h : Filled ani) : ani.durations.sum < 2 ^ 32 := by
  have hSum : ani.durations.sum ≤ ani.durations.length * 805306 := by
    simpa using List.sum_le_card_nsmul ani.durations 805306 fun d hd => (durations_bounds h d hd).2
  have hCount : ani.durations.length ≤ 16 := by rw [length_durations]; exact h.count_le
  omega

theorem sum_durations_pos (h : Filled ani) (hCount : 1 ≤ ani.frameCount) :
    0 < ani.durations.sum := by
  refine List.sum_pos _ (fun d hd => (durations_bounds h d hd).1) ?_
  intro hNil
  have hLength := length_durations ani
  rw [hNil, List.length_nil] at hLength
  omega

end State

/-- The loop that adds up computes the sum, as long as that fits. -/
theorem totalDuration_eq {ds : List Nat} (h : ds.sum < 2 ^ 32) : totalDuration ds = ds.sum := by
  have hGen : ∀ (ds : List Nat) (total : Nat), total + ds.sum < 2 ^ 32 →
      ds.foldl (fun total d => (total + d) % 2 ^ 32) total = total + ds.sum := by
    intro ds
    induction ds with
    | nil => simp
    | cons d ds ih =>
      intro total hLt
      rw [List.sum_cons] at hLt ⊢
      rw [List.foldl_cons, Nat.mod_eq_of_lt (by omega), ih _ (by omega), Nat.add_assoc]
  rw [totalDuration, hGen ds 0 (by omega), Nat.zero_add]

/-- The loop that looks for the frame finds the slot. -/
theorem pickFrame_eq {m : Nat} {ds : List Nat} {i accum : Nat} (hAccum : accum ≤ m)
    (h : accum + ds.sum < 2 ^ 32) : pickFrame m i accum ds = (slotAt (m - accum) ds).map (i + ·) := by
  induction ds generalizing i accum with
  | nil => rfl
  | cons d ds ih =>
    rw [List.sum_cons] at h
    rw [pickFrame, slotAt, Nat.mod_eq_of_lt (by omega)]
    by_cases hHere : m < accum + d
    · rw [if_pos hHere, if_pos (by omega)]
      rfl
    · rw [if_neg hHere, if_neg (by omega), ih (by omega) (by omega), Option.map_map, Nat.sub_sub]
      congr 1
      funext k
      simp only [Function.comp_apply]
      omega

namespace State

variable {ani : State}

/-- The frame at a time is the slot of the timeline. -/
theorem slotAt_frameAt (h : Filled ani) (hCount : 1 ≤ ani.frameCount) (elapsed : Nat) :
    slotAt (elapsed % ani.durations.sum) ani.durations = some (ani.frameAt elapsed) := by
  have hLt := sum_durations_lt h
  have hPos := sum_durations_pos h hCount
  obtain ⟨i, hi⟩ := exists_slotAt (Nat.mod_lt elapsed hPos)
  unfold frameAt
  rw [totalDuration_eq hLt]
  dsimp only
  rw [if_neg (by omega), pickFrame_eq (Nat.zero_le _) (by omega), Nat.sub_zero, hi]
  simp

end State

theorem playable_step {ani ani' : State} {c : Call} (h : Playable ani) (hStep : Step ani c ani') :
    Playable ani' := by
  cases hStep with
  | init => exact (resting_aniInit ani).playable
  | load hReturns =>
    obtain ⟨n, hn⟩ := hReturns
    exact (resting_aniLoad (hn n (Nat.le_refl n))).playable
  | play timer =>
    unfold aniPlay
    split
    · exact h
    · exact ⟨⟨h.count_le, h.rates⟩, .inl rfl, fun _ => Nat.one_le_iff_ne_zero.mpr ‹_›⟩
  | stop => exact ⟨⟨h.count_le, h.rates⟩, .inl rfl, fun hActive => nomatch hActive⟩
  | update tick =>
    unfold aniUpdate
    split
    · exact h
    · next hGo =>
      have hCount : 1 ≤ ani.frameCount := by
        by_contra hZero
        exact hGo (by simp [Nat.lt_one_iff.mp (Nat.not_le.mp hZero)])
      have hSlot := (slotAt_eq_some_iff.mp (State.slotAt_frameAt h.toFilled hCount
        (tick - BitVec.ofNat 32 ani.frameStartTick).toNat)).1
      rw [State.length_durations] at hSlot
      exact ⟨⟨h.count_le, h.rates⟩, .inr hSlot, h.active⟩

theorem playable_run {cs : List Call} {ani : State} (h : Run Step State.boot cs ani) :
    Playable ani := by
  refine h.invariant Playable (fun _ _ _ hInv hStep => playable_step hInv hStep) ?_
  exact (resting_aniInit State.boot).playable

-- ---------------------------------------------------------------------------
-- Main result
-- ---------------------------------------------------------------------------

/-- `D(i)`: when frame `i` begins, counted from the start of a period. -/
def State.frameStart (ani : State) (i : Nat) : Nat := (ani.durations.take i).sum

/--
**Animation state and frame selection.** In every state that calls of the interface lead to:
there are at most 16 frames, the current frame is 0 or one of them, and an active animation has
one. If it is active, the period is not 0 and no sum of durations wraps; `ani_update` selects the
one frame that has begun and is not over at the elapsed time, modulo the period; and in every
period each frame is shown for its own duration.
-/
theorem animation_frame_selection {cs : List Call} {ani : State} (h : Run Step State.boot cs ani) :
    ani.frameCount ≤ 16
      ∧ (ani.currentFrame = 0 ∨ ani.currentFrame < ani.frameCount)
      ∧ (ani.active = true → 1 ≤ ani.frameCount)
      ∧ (ani.active = true →
          let period := ani.frameStart ani.frameCount
          0 < period
          ∧ totalDuration ani.durations = period
          ∧ (∀ i, i ≤ ani.frameCount → ani.frameStart i < 2 ^ 32)
          ∧ (∀ t, let m := (t - BitVec.ofNat 32 ani.frameStartTick).toNat % period
              let i := (aniUpdate t ani).currentFrame
              i < ani.frameCount ∧ ani.frameStart i ≤ m ∧ m < ani.frameStart (i + 1)
              ∧ ∀ j, j < ani.frameCount → ani.frameStart j ≤ m → m < ani.frameStart (j + 1) → j = i)
          ∧ ∀ k i, i < ani.frameCount →
              ((Finset.range period).filter fun e => ani.frameAt (k * period + e) = i).card
                = jiffiesToTicks (ani.frames i).durationJiffies) := by
  have hPlayable := playable_run h
  refine ⟨hPlayable.count_le, hPlayable.current, hPlayable.active, ?_⟩
  intro hActive
  have hCount := hPlayable.active hActive
  have hFilled := hPlayable.toFilled
  have hLength := State.length_durations ani
  have hLt := State.sum_durations_lt hFilled
  have hPeriod : ani.frameStart ani.frameCount = ani.durations.sum := by
    rw [State.frameStart, ← hLength, List.take_length]
  rw [hPeriod]
  refine ⟨State.sum_durations_pos hFilled hCount, totalDuration_eq hLt, ?_, ?_, ?_⟩
  · intro i _
    exact Nat.lt_of_le_of_lt (sum_take_le ani.durations i) hLt
  · intro t m i
    have hFrame : i = ani.frameAt (t - BitVec.ofNat 32 ani.frameStartTick).toNat := by
      simp only [i, aniUpdate, hActive]
      rw [if_neg (by simp; omega)]
    have hSlot := State.slotAt_frameAt hFilled hCount (t - BitVec.ofNat 32 ani.frameStartTick).toNat
    obtain ⟨hi, hBegun, hNotOver⟩ := slotAt_eq_some_iff.mp hSlot
    rw [← hFrame] at hSlot hi hBegun hNotOver
    refine ⟨by omega, hBegun, hNotOver, ?_⟩
    intro j hj hBegun' hNotOver'
    have hSlot' : slotAt m ani.durations = some j :=
      slotAt_eq_some_iff.mpr ⟨by omega, hBegun', hNotOver'⟩
    exact Option.some.inj (hSlot'.symm.trans hSlot)
  · intro k i hi
    have hMod : ∀ e ∈ Finset.range ani.durations.sum,
        (ani.frameAt (k * ani.durations.sum + e) = i ↔ slotAt e ani.durations = some i) := by
      intro e he
      have hSlot := State.slotAt_frameAt hFilled hCount (k * ani.durations.sum + e)
      rw [Nat.mul_add_mod_self_right, Nat.mod_eq_of_lt (Finset.mem_range.mp he)] at hSlot
      rw [hSlot, Option.some.injEq]
    rw [Finset.filter_congr hMod, card_slotAt (by omega)]
    simp [State.durations]

/-- An icon chunk with one pixel. -/
def iconChunkBytes : List UInt8 :=
  fourcc 'i' 'c' 'o' 'n' ++ [66, 0, 0, 0] ++
    [0, 0, 2, 0, 1, 0, 1, 1, 0, 0, 0, 0, 0, 0, 44, 0, 0, 0, 22, 0, 0, 0] ++
    [40, 0, 0, 0, 1, 0, 0, 0, 1, 0, 0, 0, 1, 0, 32, 0] ++ List.replicate 24 0 ++ [0, 0, 0, 255]

/-- A file with two icons: one before the header, at 60 jiffies, and one after it, at 320. -/
def twoIcons : File :=
  { bytes := fourcc 'R' 'I' 'F' 'F' ++ [196, 0, 0, 0] ++ fourcc 'A' 'C' 'O' 'N' ++
      iconChunkBytes ++ fourcc 'a' 'n' 'i' 'h' ++ [36, 0, 0, 0] ++ List.replicate 20 0 ++
      [64, 1, 0, 0] ++ List.replicate 12 0 ++ iconChunkBytes
    outside := fun _ => 0 }

/-- The animation after the first of them. -/
def firstIconAni : State := (loadFrame twoIcons 20 66 60 (aniInit State.boot)).val

/-- The animation after that file has been loaded. -/
def twoIconsAni : State := (loadFrame twoIcons 138 66 320 firstIconAni).val

theorem frameCount_twoIconsAni : firstIconAni.frameCount = 1 ∧ twoIconsAni.frameCount = 2 := by
  decide +kernel

theorem durations_twoIconsAni : twoIconsAni.durations = [1, 6] := by decide +kernel

set_option maxRecDepth 4000 in
theorem twoIcons_returns :
    Returns (fun fuel => (aniLoad { fOpen := .ok, fRead := .ok, br := 204 } twoIcons (fun _ => 0)
      State.boot fuel).val) (true, twoIconsAni) := by
  refine ⟨3, ?_⟩
  intro fuel hle
  obtain ⟨fuel, rfl⟩ : ∃ n, fuel = n + 3 := ⟨fuel - 3, by omega⟩
  have hAccepts : (accepts { fOpen := .ok, fRead := .ok, br := 204 } twoIcons).val = true := by
    decide +kernel
  have hFirst : (chunkTurn twoIcons (fuel + 2) (Load.start (fun _ => 0) (aniInit State.boot))).val
      = some (.again { Load.start (fun _ => 0) firstIconAni with offset := 86 }) := rfl
  have hHeader : (chunkTurn twoIcons (fuel + 1)
        { Load.start (fun _ => 0) firstIconAni with offset := 86 }).val
      = some (.again { Load.start (fun _ => 0) firstIconAni with offset := 130, anihRate := 320 }) :=
    rfl
  have hSecond : (chunkTurn twoIcons fuel
        { Load.start (fun _ => 0) firstIconAni with offset := 130, anihRate := 320 }).val
      = some (.exit { Load.start (fun _ => 0) twoIconsAni with offset := 204, anihRate := 320 }) :=
    rfl
  have hLoop := (Traced.whileLoop_again hFirst).trans
    ((Traced.whileLoop_again hHeader).trans (Traced.whileLoop_exit hSecond))
  simp only [aniLoad, Traced.val_bind, hAccepts, hLoop, Bool.not_true, Bool.false_eq_true, if_false]
  simp [Load.start, frameCount_twoIconsAni.2]

/-- Played from tick 5 on, the second frame is shown at tick 8 and for six of seven ticks. -/
theorem animation_frame_selection_two_icons :
    ∃ ani, Run Step State.boot
        [.load { fOpen := .ok, fRead := .ok, br := 204 } twoIcons (fun _ => 0), .play 5] ani
      ∧ ani.active = true ∧ ani.frameStart 2 = 7
      ∧ (aniUpdate 5 ani).currentFrame = 0 ∧ (aniUpdate 8 ani).currentFrame = 1
      ∧ ∀ k, ((Finset.range 7).filter fun e => ani.frameAt (k * 7 + e) = 1).card = 6 := by
  have hRun : Run Step State.boot _ (aniPlay 5 twoIconsAni) :=
    .cons (.load twoIcons_returns) (.cons (.play _ 5) (.nil _))
  have hPlay : aniPlay 5 twoIconsAni
      = { twoIconsAni with active := true, currentFrame := 0, frameStartTick := 5 } := by
    rw [aniPlay, if_neg (by rw [frameCount_twoIconsAni.2]; decide)]
    rfl
  have hActive : (aniPlay 5 twoIconsAni).active = true := by rw [hPlay]
  have hCount : (aniPlay 5 twoIconsAni).frameCount = 2 := by rw [hPlay, frameCount_twoIconsAni.2]
  have hTick : (aniPlay 5 twoIconsAni).frameStartTick = 5 := by rw [hPlay]
  have hDurations : (aniPlay 5 twoIconsAni).durations = [1, 6] := by
    rw [hPlay]
    exact durations_twoIconsAni
  have hStart (i : Nat) : (aniPlay 5 twoIconsAni).frameStart i = (([1, 6] : List Nat).take i).sum := by
    rw [State.frameStart, hDurations]
  obtain ⟨-, -, -, hFrame, hShown⟩ := (animation_frame_selection hRun).2.2.2 hActive
  simp only [hCount, hStart, hTick] at hFrame hShown
  refine ⟨_, hRun, hActive, hStart 2, ?_, ?_, ?_⟩
  · exact ((hFrame 5).2.2.2 0 (by decide) (by decide) (by decide)).symm
  · exact ((hFrame 8).2.2.2 1 (by decide) (by decide) (by decide)).symm
  · intro k
    have hSix : jiffiesToTicks ((aniPlay 5 twoIconsAni).frames 1).durationJiffies = 6 := by
      rw [hPlay]
      exact (by decide +kernel : jiffiesToTicks (twoIconsAni.frames 1).durationJiffies = 6)
    exact (hShown k 1 (by decide)).trans hSix

end Nao.Ani
