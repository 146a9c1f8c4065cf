import Nao.NaoEdit.Definitions

/-!
# NaoEdit — what saving and opening do to files

* `save_truthful_iff` — when the success notice can be believed, over everything FatFs may
  answer.
* `open_failure_intact_iff` — when a failed open leaves the document alone.
* `openThenSave_content` — what a file holds after it has been opened and saved again, for
  every content; `open_save_lossless_iff` says when that is what it held before.
-/

namespace Nao.NaoEdit

open SysLib FatFs

-- ---------------------------------------------------------------------------
-- Saving
-- ---------------------------------------------------------------------------

section Save

variable (a : SaveAnswers) (path : CStr) (vol : Files) (e : Editor)

/-- The success notice appears whenever the file could be opened and `f_write` did not report
an error. -/
theorem save_alert_iff :
    (executeActualSave a path vol e).1.alertState = .success ↔
      a.fOpen = .ok ∧ a.fWrite = .ok := by
  rw [executeActualSave]
  by_cases hOpen : a.fOpen = .ok
  · by_cases hWrite : a.fWrite = .ok
    · simp [hOpen, hWrite]
    · simp [hOpen, hWrite]
  · simp [hOpen]

variable {a}

theorem save_content (hOpen : a.fOpen = .ok) (hWrite : a.fWrite = .ok) :
    (executeActualSave a path vol e).2 path =
      some (if a.fClose = .ok then (e.textBuffer.slice 0 e.textLen).take a.room
        else a.residue) := by
  rw [executeActualSave, if_pos hOpen]
  simp only [fWrite, if_pos hWrite, fClose, fOpenCreate, Option.map_some, List.nil_append,
    Option.getD_some]
  split <;> exact Function.update_self ..

end Save

/-- If the editor says that the file was written, the file holds the text. -/
def Truthful (a : SaveAnswers) (path : CStr) (vol : Files) (e : Editor) : Prop :=
  (executeActualSave a path vol e).1.alertState = .success →
    (executeActualSave a path vol e).2 path = some (e.textBuffer.slice 0 e.textLen)

/--
**When the success notice is true.** For every text, path, volume and answers of FatFs: the
notice can be believed, whatever a file holds whose `f_close` failed, exactly if a save
that FatFs did not refuse was complete — the whole text fitted on the volume and `f_close`
succeeded. The code tests neither.
-/
theorem save_truthful_iff (a : SaveAnswers) (path : CStr) (vol : Files) (e : Editor) :
    (∀ residue, Truthful { a with residue := residue } path vol e) ↔
      (a.fOpen = .ok → a.fWrite = .ok → a.fClose = .ok ∧ e.textLen ≤ a.room) := by
  constructor
  · intro hTrue hOpen hWrite
    -- a residue that is not the text
    have hFile := hTrue (e.textBuffer.slice 0 e.textLen ++ [0])
      ((save_alert_iff _ path vol e).mpr ⟨hOpen, hWrite⟩)
    have hContent := save_content (a := { a with residue := e.textBuffer.slice 0 e.textLen ++ [0] })
      path vol e hOpen hWrite
    rw [hContent, Option.some.injEq] at hFile
    by_cases hClose : a.fClose = .ok
    · refine ⟨hClose, ?_⟩
      rw [if_pos hClose] at hFile
      have hLen := congrArg List.length hFile
      rw [List.length_take, Mem.length_slice] at hLen
      exact min_eq_right_iff.mp hLen
    · rw [if_neg hClose] at hFile
      have hLen := congrArg List.length hFile
      simp at hLen
  · intro hComplete residue hAlert
    obtain ⟨hOpen, hWrite⟩ := (save_alert_iff _ path vol e).mp hAlert
    obtain ⟨hClose, hRoom⟩ := hComplete hOpen hWrite
    have hTake : (e.textBuffer.slice 0 e.textLen).take a.room = e.textBuffer.slice 0 e.textLen :=
      List.take_of_length_le (by rwa [Mem.length_slice])
    have hContent := save_content (a := { a with residue := residue }) path vol e hOpen hWrite
    rw [hContent, if_pos hClose, hTake]

/-- An editor that holds the one letter `a`. -/
def oneLetter : Editor :=
  { textBuffer := Mem.blit (fun _ => 0) 0 [97], textLen := 1, alertState := .none
    alertMessage := "" }

/-- On a full volume without the file the editor reports success and leaves an empty file. -/
theorem save_reports_lost_text :
    (executeActualSave { fOpen := .ok, fWrite := .ok, room := 0, fClose := .ok, residue := [] }
        ['0', ':', '/', 'N'] (fun _ => none) oneLetter).1.alertState = .success ∧
      (executeActualSave { fOpen := .ok, fWrite := .ok, room := 0, fClose := .ok, residue := [] }
        ['0', ':', '/', 'N'] (fun _ => none) oneLetter).2 ['0', ':', '/', 'N'] = some [] ∧
      oneLetter.textBuffer.slice 0 oneLetter.textLen = [97] := by
  refine ⟨rfl, rfl, rfl⟩

-- ---------------------------------------------------------------------------
-- Opening
-- ---------------------------------------------------------------------------

/-- What an open may do: refuse, fail while reading, or succeed. -/
theorem open_cases (a : OpenAnswers) (path : CStr) (vol : Files) (e : Editor) :
    (∃ res, fOpenRead a path vol = .error res
      ∧ executeActualOpen a path vol e
          = { e with alertState := .error, alertMessage := "File not found / Invalid path." })
    ∨ ∃ content, fOpenRead a path vol = .ok content
      ∧ (a.fRead ≠ .ok
          ∧ executeActualOpen a path vol e
              = { e with
                  textBuffer := e.textBuffer.blit 0 (fRead a content (maxTextLen - 1))
                  alertState := .error, alertMessage := "Failed to read file data." }
        ∨ a.fRead = .ok ∧ (executeActualOpen a path vol e).alertState = .none) := by
  unfold executeActualOpen
  cases hOpen : fOpenRead a path vol with
  | error res => exact .inl ⟨res, rfl, rfl⟩
  | ok content =>
    refine .inr ⟨content, rfl, ?_⟩
    by_cases hRead : a.fRead = .ok
    · exact .inr ⟨hRead, by simp only [if_pos hRead]⟩
    · exact .inl ⟨hRead, by simp only [if_neg hRead]⟩

/--
**What a failed open leaves of the document.** For every editor state, path, volume and answers of
FatFs after which `alert_state` is 2: `text_len` is what it was before, and `text_buffer` is
exactly if each byte that `f_read` stored before it failed is one that stood there already. So a
refused `f_open` and an `f_read` that fails at once are harmless, for every document.
-/
theorem open_failure_intact_iff {a : OpenAnswers} {path : CStr} {vol : Files} {e : Editor}
    (h : (executeActualOpen a path vol e).alertState = .error) :
    (executeActualOpen a path vol e).textLen = e.textLen
      ∧ ((executeActualOpen a path vol e).textBuffer = e.textBuffer ↔
          ∀ content, fOpenRead a path vol = .ok content →
            e.textBuffer.slice 0 (fRead a content (maxTextLen - 1)).length
              = fRead a content (maxTextLen - 1)) := by
  obtain ⟨res, hOpen, hEq⟩ | ⟨content, hOpen, ⟨-, hEq⟩ | ⟨-, hNone⟩⟩ := open_cases a path vol e
  · rw [hEq]
    refine ⟨rfl, iff_of_true rfl ?_⟩
    intro content hContent
    rw [hOpen] at hContent
    cases hContent
  · rw [hEq]
    refine ⟨rfl, ?_⟩
    show e.textBuffer.blit 0 (fRead a content (maxTextLen - 1)) = e.textBuffer ↔ _
    rw [Mem.blit_eq_self_iff]
    constructor
    · intro hSame content' hContent
      rw [hOpen, Except.ok.injEq] at hContent
      subst hContent
      exact hSame
    · intro hSame
      exact hSame content hOpen
  · rw [hNone] at h
    cases h

/-- A file whose chain of clusters is broken: the first `delivered` bytes arrive. -/
def brokenChain (delivered : Nat) : OpenAnswers := { fOpen := .ok, fRead := .intErr, delivered }

/-- The chain has no first cluster. -/
theorem open_failure_intact_demo :
    (executeActualOpen (brokenChain 0) ['0', ':', '/', 'N'] (fun _ => some (List.replicate 600 98))
      oneLetter).textBuffer = oneLetter.textBuffer := by
  refine (open_failure_intact_iff (by decide)).2.mpr ?_
  intro content _
  rfl

/-- The chain breaks off after one cluster of 512 bytes: the letter of the document is gone. -/
theorem open_failure_overwrites :
    let e := executeActualOpen (brokenChain 512) ['0', ':', '/', 'N']
      (fun _ => some (List.replicate 600 98)) oneLetter
    e.alertState = .error ∧ oneLetter.textBuffer.slice 0 2 = [97, 0]
      ∧ e.textBuffer.slice 0 2 = [98, 98] ∧ e.textLen = 1 := by
  decide +kernel

-- ---------------------------------------------------------------------------
-- Opening and saving
-- ---------------------------------------------------------------------------

/-- After a successful open the buffer holds the file up to its first zero byte, as far as the
buffer reaches. -/
theorem open_cstr {a : OpenAnswers} {path : CStr} {vol : Files} {content : List UInt8}
    (hOpen : a.fOpen = .ok) (hRead : a.fRead = .ok) (hFile : vol path = some content)
    (e : Editor) :
    (executeActualOpen a path vol e).textBuffer.cstr maxTextLen =
      (content.take (maxTextLen - 1)).takeWhile (· != 0) := by
  have hEq : (executeActualOpen a path vol e).textBuffer =
      (e.textBuffer.blit 0 (content.take (maxTextLen - 1))).write8
        (content.take (maxTextLen - 1)).length 0 := by
    simp only [executeActualOpen, fOpenRead, fRead, if_pos hOpen, if_pos hRead, hFile]
  have hLen : (content.take (maxTextLen - 1)).length < maxTextLen := by
    rw [List.length_take, maxTextLen]
    omega
  rw [hEq]
  refine Mem.cstr_of_slice ?_ (Mem.write8_same ..) hLen
  calc ((e.textBuffer.blit 0 (content.take (maxTextLen - 1))).write8
        (content.take (maxTextLen - 1)).length 0).slice 0 (content.take (maxTextLen - 1)).length
      = (e.textBuffer.blit 0 (content.take (maxTextLen - 1))).slice 0
          (content.take (maxTextLen - 1)).length := Mem.slice_write8_of_le _ _ (by omega)
    _ = content.take (maxTextLen - 1) := Mem.slice_blit ..

theorem textArea_textLen (typed : Option (List UInt8)) (e : Editor) :
    (textArea typed e).textLen = (textArea typed e).textBuffer.strlen maxTextLen := by
  simp only [textArea]

/-- A frame without typing cuts the text to 4094 bytes. -/
theorem textArea_cstr {e : Editor} (h : e.textBuffer.strlen maxTextLen < maxTextLen) :
    (textArea none e).textBuffer.cstr maxTextLen =
      (e.textBuffer.cstr maxTextLen).take (maxTextLen - 2) := by
  have hLen : ((e.textBuffer.cstr maxTextLen).take (maxTextLen - 2)).length =
      min (maxTextLen - 2) (e.textBuffer.strlen maxTextLen) := by
    rw [List.length_take, Mem.strlen]
  have hEq : (textArea none e).textBuffer = e.textBuffer.write8
      ((e.textBuffer.cstr maxTextLen).take (maxTextLen - 2)).length 0 := by
    have hAt : min (maxTextLen - 1 - 1) (min (e.textBuffer.strlen maxTextLen) (maxTextLen - 1 - 1)) =
        min (maxTextLen - 2) (e.textBuffer.strlen maxTextLen) := by omega
    rw [hLen, ← hAt]
    rfl
  rw [hEq]
  refine Mem.cstr_eq ?_ (Mem.write8_same ..) (by omega) ?_
  · rw [Mem.slice_write8_of_le _ _ (by omega), hLen, ← Mem.take_slice, Mem.slice_cstr]
  · intro b hb
    exact Mem.cstr_ne_zero _ _ b (List.mem_of_mem_take hb)

/-- Any number of frames without typing, at least one: the text is cut once. -/
theorem frames_cstr (n : Nat) {e : Editor} (h : e.textBuffer.strlen maxTextLen < maxTextLen) :
    ((textArea none)^[n + 1] e).textBuffer.cstr maxTextLen =
        (e.textBuffer.cstr maxTextLen).take (maxTextLen - 2) ∧
      ((textArea none)^[n + 1] e).textLen =
        ((textArea none)^[n + 1] e).textBuffer.strlen maxTextLen := by
  induction n with
  | zero => exact ⟨textArea_cstr h, textArea_textLen none e⟩
  | succ n ih =>
    rw [Function.iterate_succ_apply']
    refine ⟨?_, textArea_textLen none _⟩
    have hShort : ((textArea none)^[n + 1] e).textBuffer.strlen maxTextLen < maxTextLen := by
      rw [Mem.strlen, ih.1, List.length_take]
      unfold maxTextLen
      omega
    rw [textArea_cstr hShort, ih.1, List.take_take, Nat.min_self]

/-- Open a file, draw `n + 1` frames without typing, save to the same path. -/
def openThenSave (o : OpenAnswers) (a : SaveAnswers) (path : CStr) (vol : Files) (n : Nat)
    (e : Editor) : Files :=
  (executeActualSave a path vol ((textArea none)^[n + 1] (executeActualOpen o path vol e))).2

/-- FatFs reports no error, and there is room for whatever the buffer can hold. -/
structure ErrorFree (o : OpenAnswers) (a : SaveAnswers) : Prop where
  opened  : o.fOpen = .ok
  read    : o.fRead = .ok
  created : a.fOpen = .ok
  written : a.fWrite = .ok
  closed  : a.fClose = .ok
  room    : maxTextLen ≤ a.room

/-- What is left of a file: the bytes before the first zero, 4094 of them at most. -/
theorem openThenSave_content {o : OpenAnswers} {a : SaveAnswers} (hOk : ErrorFree o a)
    {path : CStr} {vol : Files} {content : List UInt8} (hFile : vol path = some content)
    (n : Nat) (e : Editor) :
    openThenSave o a path vol n e path =
      some ((content.takeWhile (· != 0)).take (maxTextLen - 2)) := by
  have hOpen := open_cstr hOk.opened hOk.read hFile e
  have hShort : (executeActualOpen o path vol e).textBuffer.strlen maxTextLen < maxTextLen := by
    rw [Mem.strlen, hOpen]
    have hLe := (List.takeWhile_prefix (l := content.take (maxTextLen - 1)) (· != 0)).length_le
    rw [List.length_take] at hLe
    unfold maxTextLen at hLe ⊢
    omega
  obtain ⟨hText, hLen⟩ := frames_cstr n hShort
  rw [openThenSave, save_content path vol _ hOk.created hOk.written, if_pos hOk.closed, hLen,
    Mem.slice_cstr, hText, hOpen]
  -- the buffer limit lies behind the 4094 bytes that are kept
  have hRoom : maxTextLen - 2 ≤ a.room := (Nat.sub_le ..).trans hOk.room
  have hLimit : maxTextLen - 2 ≤ maxTextLen - 1 := Nat.sub_le_sub_left (by omega) _
  rw [← List.take_takeWhile, List.take_take, List.take_take, Nat.min_eq_right hRoom,
    Nat.min_eq_left hLimit]

/--
**Opening and saving loses nothing exactly for short texts without zero bytes.** With a FatFs
that reports no errors and has room, for every content, every number of frames and whatever
the editor held before: the file is unchanged iff it has at most 4094 bytes and none of them
is zero. A byte at the end of the buffer is lost to the edit widget, the rest to the length of
the buffer and to the text length being measured at the first zero.
-/
theorem open_save_lossless_iff {o : OpenAnswers} {a : SaveAnswers} (hOk : ErrorFree o a)
    {path : CStr} {vol : Files} {content : List UInt8} (hFile : vol path = some content)
    (n : Nat) (e : Editor) :
    openThenSave o a path vol n e path = some content ↔
      content.length ≤ 4094 ∧ ∀ b ∈ content, b ≠ 0 := by
  rw [openThenSave_content hOk hFile, Option.some.injEq]
  constructor
  · intro hEq
    have hLe := congrArg List.length hEq
    rw [List.length_take] at hLe
    refine ⟨by unfold maxTextLen at hLe; omega, ?_⟩
    intro b hb
    rw [← hEq] at hb
    simpa using List.mem_takeWhile_imp (List.mem_of_mem_take hb)
  · rintro ⟨hLen, hNonzero⟩
    rw [List.takeWhile_eq_self_iff.mpr (by simpa using hNonzero),
      List.take_of_length_le (by simpa [maxTextLen] using hLen)]

/-- FatFs with nothing to complain about. -/
def smoothOpen : OpenAnswers := { fOpen := .ok, fRead := .ok, delivered := 0 }

def smoothSave : SaveAnswers :=
  { fOpen := .ok, fWrite := .ok, room := 4096, fClose := .ok, residue := [] }

theorem smooth : ErrorFree smoothOpen smoothSave :=
  ⟨rfl, rfl, rfl, rfl, rfl, by decide⟩

theorem open_save_lossless_demo :
    openThenSave smoothOpen smoothSave ['0', ':', '/', 'N'] (fun _ => some [104, 105]) 0
      oneLetter ['0', ':', '/', 'N'] = some [104, 105] :=
  (open_save_lossless_iff smooth rfl 0 oneLetter).mpr ⟨by decide, by simp⟩

/-- A file with a zero byte in it is cut there. -/
theorem open_save_cuts_at_zero :
    openThenSave smoothOpen smoothSave ['0', ':', '/', 'N'] (fun _ => some [104, 0, 105]) 0
      oneLetter ['0', ':', '/', 'N'] ≠ some [104, 0, 105] := by
  rw [openThenSave_content smooth rfl]
  decide

end Nao.NaoEdit
