import Nao.Ani.Events

/-!
# The ANI loader — progress

The end of a chunk is a 32-bit sum, so a size near `2 ^ 32` puts it at or before the chunk's
own beginning. `Advancing` says for which sizes it does not; `ani_load_advances_iff` says
that those are exactly the files on which every turn of the two loops makes progress, and
that `ani_load` returns on them. `ani_load_hangs` is a file of 20 bytes on which it does not.
-/

namespace Nao.Ani

open SysLib Traced

/-- The size of a chunk at `offset` leads past `offset`: either the end is not cut off, or it
is so little of it that the end lies a few bytes behind the header's beginning. -/
def Advancing (offset size : Nat) : Prop :=
  offset + 8 + size < 2 ^ 32 - 1 ∨ (2 ^ 32 < size + 8 ∧ offset + 8 + size < 2 ^ 33 - 1)

theorem lt_chunkEnd_iff {offset size : Nat} (hEven : offset % 2 = 0) (hOffset : offset < 2 ^ 32)
    (hSize : size < 2 ^ 32) : offset < chunkEnd offset size ↔ Advancing offset size := by
  unfold chunkEnd Advancing
  dsimp only
  split <;> omega

/-- A turn of the chunk loop increases `offset`; a turn of the LIST loop increases
`sub_offset` or `ani_frame_count`. -/
def Event.Advances : Event → Prop
  | .chunk _ offset size => offset < chunkEnd offset size
  | .sub _ offset size frames frames' => offset < chunkEnd offset size ∨ frames < frames'
  | _ => True

/-- The size in the header allows it; in a LIST, an icon that `parse_cur_frame` accepts makes up
for its size. -/
def Event.SizeOk (f : File) : Event → Prop
  | .chunk _ offset size => Advancing offset size
  | .sub id offset size _ _ =>
    Advancing offset size ∨ id = fourcc 'i' 'c' 'o' 'n' ∧ IconAccepted f (offset + 8) size
  | _ => True

variable {a : LoadAnswers} {f : File} {seqBuffer : Mem} {ani : State}

theorem Event.Sound.advances_iff {e : Event} (h : e.Sound f) : e.Advances ↔ e.SizeOk f := by
  cases e with
  | chunk id offset size => exact lt_chunkEnd_iff h.1 h.2.1 h.2.2
  | sub id offset size frames frames' =>
    exact or_congr (lt_chunkEnd_iff h.1 h.2.1 h.2.2.1) h.2.2.2
  | _ => exact Iff.rfl

-- ---------------------------------------------------------------------------
-- Termination
-- ---------------------------------------------------------------------------

/-- The turns left in a LIST: the frames that may still be loaded count most. -/
def listRank (s : Nat × State) : Nat :=
  (aniMaxFrames - s.2.frameCount) * 2 ^ 33 + (2 ^ 32 - s.1)

theorem listRank_lt {listEnd rate : Nat} {s s' : Nat × State}
    (h : (listTurn f listEnd rate s).val = .again s')
    (hAll : (listTurn f listEnd rate s).All Event.Advances) : listRank s' < listRank s := by
  obtain ⟨hGuard, rfl⟩ := listTurn_again h
  have hRoom := hGuard.2
  have hAdvance := ((all_listTurn hGuard).mp hAll).2.2
  have hCount := frameCount_subBody (f := f) (readId f s.1).val (s.1 + 8)
    (readLe32 f (s.1 + 4)).val rate s.2
  have hLt := chunkEnd_lt s.1 (readLe32 f (s.1 + 4)).val
  unfold Event.Advances at hAdvance
  unfold listRank
  unfold aniMaxFrames at hRoom ⊢
  dsimp only at hAdvance ⊢
  omega

theorem listLoop_returns {listEnd rate : Nat} (s : Nat × State)
    (hAll : Eventually Event.Advances (listLoop f listEnd rate · s)) :
    ∃ ani, Returns (fun fuel => (listLoop f listEnd rate fuel s).val) ani := by
  refine whileLoop_total (fun n s => n = listRank s) ?_ rfl hAll
  rintro n s rfl ⟨N, hN⟩
  have hTurn : (listTurn f listEnd rate s).All Event.Advances := all_map.mp (hN N (Nat.le_refl N))
  refine ⟨(listTurn f listEnd rate s).val, Returns.pure _, ?_⟩
  intro s' hAgain
  exact ⟨_, listRank_lt hAgain hTurn, rfl⟩

theorem chunkBody_returns {id : List UInt8} {size : Nat} (s : Load)
    (hAll : Eventually Event.Advances (chunkBody f · id size s)) :
    ∃ s', Returns (fun fuel => (chunkBody f fuel id size s).val) s' := by
  unfold chunkBody at hAll ⊢
  split
  · exact ⟨_, Returns.pure _⟩
  split
  · exact ⟨_, Returns.pure _⟩
  split
  · next hAnih hSeq hList =>
    simp only [if_neg hAnih, if_neg hSeq, if_pos hList] at hAll
    obtain ⟨N, hN⟩ := hAll
    obtain ⟨ani, hAni⟩ := listLoop_returns _
      ⟨N, fun fuel hle => all_listChunk.mp (hN fuel hle)⟩
    refine ⟨{ s with ani := ani }, ?_⟩
    simp only [listChunk, val_bind, val_pure]
    exact hAni.map fun ani => { s with ani := ani }
  split
  · exact ⟨_, Returns.pure _⟩
  · exact ⟨_, Returns.pure _⟩

theorem chunkLoop_returns (s : Load)
    (hAll : Eventually Event.Advances (whileLoop (chunkTurn f) · s)) :
    ∃ s', Returns (fun fuel => (whileLoop (chunkTurn f) fuel s).val) s' := by
  refine whileLoop_total (fun n s => n = f.size - s.offset) ?_ rfl hAll
  rintro n s rfl ⟨N, hN⟩
  by_cases hGuard : (s.offset + 8) % 2 ^ 32 ≤ f.size
  · have hBody (fuel : Nat) (hle : N ≤ fuel) := (all_chunkTurn hGuard).mp (hN fuel hle)
    have hAdvance := (hBody N (Nat.le_refl N)).2.1
    obtain ⟨s', hReturns⟩ := chunkBody_returns s ⟨N, fun fuel hle => (hBody fuel hle).2.2⟩
    refine ⟨nextChunk f (chunkEnd s.offset (readLe32 f (s.offset + 4)).val) s', ?_, ?_⟩
    · simp only [val_chunkTurn hGuard]
      exact hReturns.map _
    · intro s'' hAgain
      obtain ⟨hEnd, hInside⟩ := nextChunk_again hAgain
      rw [Event.Advances, ← hEnd] at hAdvance
      exact ⟨_, by omega, rfl⟩
  · refine ⟨.exit s, ?_, fun s' hAgain => by cases hAgain⟩
    simp only [chunkTurn_of_end hGuard, val_pure]
    exact Returns.pure _

theorem aniLoad_returns (hAll : ∀ fuel, (aniLoad a f seqBuffer ani fuel).All Event.Advances) :
    ∃ r, Returns (fun fuel => (aniLoad a f seqBuffer ani fuel).val) r := by
  cases hAccepts : (accepts a f).val with
  | false =>
    refine ⟨(false, aniInit ani), 0, fun fuel _ => ?_⟩
    simp [aniLoad, hAccepts]
  | true =>
    obtain ⟨s, hLoop⟩ := chunkLoop_returns (Load.start seqBuffer (aniInit ani))
      ⟨0, fun fuel _ => ((all_aniLoad hAccepts).mp (hAll fuel)).2⟩
    refine ⟨(s.ani.frameCount ≠ 0, s.ani), ?_⟩
    simp only [aniLoad, val_bind, hAccepts]
    exact hLoop.map _

/--
**When loading makes progress.** For every file (of any size, with whatever lies outside it in
memory), every answer of FatFs and every animation before: every turn of the chunk loop
increases `offset`, every turn of the loop over a LIST increases `sub_offset` or
`ani_frame_count`, and `ani_load` returns, exactly if no header that it comes to declares a
size whose 32-bit end falls back to or before the header (accepted icons in a LIST apart).
-/
theorem ani_load_advances_iff (a : LoadAnswers) (f : File) (seqBuffer : Mem) (ani : State) :
    ((∃ r, Returns (fun fuel => (aniLoad a f seqBuffer ani fuel).val) r) ∧
        ∀ fuel, ∀ e ∈ (aniLoad a f seqBuffer ani fuel).trace, e.Advances) ↔
      ∀ fuel, ∀ e ∈ (aniLoad a f seqBuffer ani fuel).trace, e.SizeOk f := by
  constructor
  · rintro ⟨-, hAdvances⟩ fuel e he
    exact (aniLoad_sound fuel e he).advances_iff.mp (hAdvances fuel e he)
  · intro hSize
    have hAdvances (fuel : Nat) : (aniLoad a f seqBuffer ani fuel).All Event.Advances :=
      fun e he => (aniLoad_sound fuel e he).advances_iff.mpr (hSize fuel e he)
    exact ⟨aniLoad_returns hAdvances, hAdvances⟩

/-- A header of 12 bytes and one chunk header, with the size `2 ^ 32 - 8`. -/
def hangingFile : File :=
  { bytes := fourcc 'R' 'I' 'F' 'F' ++ [12, 0, 0, 0] ++ fourcc 'A' 'C' 'O' 'N' ++
      fourcc 'j' 'u' 'n' 'k' ++ [0xF8, 0xFF, 0xFF, 0xFF]
    outside := fun _ => 0 }

/-- On that file the chunk loop stands still. -/
theorem ani_load_hangs :
    ¬ ∃ r, Returns (fun fuel => (aniLoad { fOpen := .ok, fRead := .ok, br := 20 } hangingFile
      (fun _ => 0) State.boot fuel).val) r := by
  have hStay (fuel : Nat) :
      (chunkTurn hangingFile fuel (Load.start (fun _ => 0) (aniInit State.boot))).val =
        some (.again (Load.start (fun _ => 0) (aniInit State.boot))) := rfl
  have hLoop (fuel : Nat) :
      (whileLoop (chunkTurn hangingFile) fuel (Load.start (fun _ => 0) (aniInit State.boot))).val =
        none := by
    induction fuel with
    | zero => rfl
    | succ fuel ih => rw [whileLoop_again (hStay fuel), ih]
  have hAccepts : (accepts { fOpen := .ok, fRead := .ok, br := 20 } hangingFile).val = true := rfl
  rintro ⟨r, n, hn⟩
  have hSome := hn n (Nat.le_refl n)
  simp [aniLoad, hAccepts, hLoop n] at hSome

end Nao.Ani
