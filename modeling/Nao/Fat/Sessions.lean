import Nao.Fat.Store

/-!
# FAT volumes — sessions

Lists of calls on the open files of a volume, and what a power cut after them leaves.

## Results

* `open_files_are_byte_sequences` — every answer is that of a byte sequence, and no call on a file
  changes another.
* `synced_file_survives` — a file that was synced or closed is read back from the disk alone,
  whatever was done with the other files since.
-/

namespace Nao.Fat

open SysLib FatFs Disk

variable {D : Device} {g : Geometry} {s s' : Fatfs} {f f' : Fil} {ι : Type*} {U : Nat → Prop}
  {e : Nat → Nat} {chains : ι → List Nat} {i : ι} [DecidableEq ι]

/-- The answers of a list of calls are those of the files `A`, of which each call changes its own
as it may, and no other. -/
inductive Follows (D : Device) (g : Geometry) :
    Session ι → (ι → OpenFile) → List (ι × Call) → (ι → OpenFile) → Prop where
  | nil (t : Session ι) (A : ι → OpenFile) : Follows D g t A [] A
  | cons {t : Session ι} {A A' : ι → OpenFile} {i : ι} {q : Call} {qs : List (ι × Call)}
      (F : OpenFile)
      (hAllowed : Allowed (g.Full (t.call D g i q).2.vol.view) (A i) q (t.call D g i q).1 F)
      (hRest : Follows D g (t.call D g i q).2 (Function.update A i F) qs A') :
    Follows D g t A ((i, q) :: qs) A'

theorem call_eq {t : Session ι} (hD : D.Reliable) (hInfo : g.InfoApart) (hOpen : Open g U e chains t)
    (i : ι) {q : Call} (hq : q.Proper) :
    ∃ chains' F, Open g U e chains' (t.call D g i q).2 ∧
      (Secure g chains t → Secure g chains' (t.call D g i q).2) ∧
      (t.call D g i q).2.file g chains' = Function.update (t.file g chains) i F ∧
      Allowed (g.Full (t.call D g i q).2.vol.view) (t.file g chains i) q (t.call D g i q).1 F := by
  obtain ⟨r, f', s', l', hEq, hMoved, -, hAllowed⟩ :=
    call_correct hOpen.stored (hOpen.ready i) hD hInfo hq
  simp only [Session.call, hEq]
  exact ⟨_, _, hMoved.open hOpen, hMoved.secure hOpen, hMoved.file hOpen, hAllowed⟩

theorem calls_follow {t : Session ι} (hD : D.Reliable) (hInfo : g.InfoApart)
    (hOpen : Open g U e chains t) {qs : List (ι × Call)} (hq : ∀ q ∈ qs, q.2.Proper) :
    ∃ chains', Open g U e chains' (t.calls D g qs) ∧
      (Secure g chains t → Secure g chains' (t.calls D g qs)) ∧
      Follows D g t (t.file g chains) qs ((t.calls D g qs).file g chains') := by
  induction qs generalizing t chains with
  | nil => exact ⟨chains, hOpen, id, .nil t _⟩
  | cons q qs ih =>
    obtain ⟨i, q⟩ := q
    obtain ⟨chains₁, F, hOpen₁, hSecure₁, hFile, hAllowed⟩ :=
      call_eq hD hInfo hOpen i (hq _ List.mem_cons_self)
    obtain ⟨chains', hOpen', hSecure', hFollows⟩ :=
      ih hOpen₁ fun q' h' => hq q' (List.mem_cons_of_mem _ h')
    rw [hFile] at hFollows
    exact ⟨chains', hOpen', fun h => hSecure' (hSecure₁ h), .cons F hAllowed hFollows⟩

/-- The calls that do not change a file. -/
def Call.Quiet : Call → Prop
  | .read _ | .sync | .close => True
  | .write .. | .lseek _ => False

omit [DecidableEq ι] in
theorem Call.Leaves.quiet {q : Call} {r : Reply} {m' : Bool} (h : q.Leaves r false m') (hq : q.Quiet) :
    m' = false := by
  cases q with
  | read _ => exact h
  | sync => exact h.trans (by split <;> rfl)
  | close => exact h.trans (by split <;> rfl)
  | write => exact absurd hq id
  | lseek => exact absurd hq id

/-- A call changes one file object, and not the place of its entry. -/
theorem call_files {t : Session ι} (hD : D.Reliable) (hInfo : g.InfoApart) (hOpen : Open g U e chains t)
    (i : ι) {q : Call} (hq : q.Proper) :
    ∃ f', (t.call D g i q).2.files = Function.update t.files i f' ∧
      f'.identity.2 = (t.files i).identity.2 ∧
      q.Leaves (t.call D g i q).1 (t.files i).modified f'.modified := by
  obtain ⟨r, f', s', l', hEq, hMoved, hLeaves, -⟩ :=
    call_correct hOpen.stored (hOpen.ready i) hD hInfo hq
  simp only [Session.call, hEq]
  exact ⟨f', rfl, hMoved.identity, hLeaves⟩

theorem calls_place {t : Session ι} (hD : D.Reliable) (hInfo : g.InfoApart)
    (hOpen : Open g U e chains t) {qs : List (ι × Call)} (hq : ∀ q ∈ qs, q.2.Proper) (j : ι) :
    ((t.calls D g qs).files j).identity.2 = (t.files j).identity.2 := by
  induction qs generalizing t chains with
  | nil => rfl
  | cons q qs ih =>
    obtain ⟨i, q⟩ := q
    have hHead := hq _ List.mem_cons_self
    obtain ⟨f', hFiles, hId, -⟩ := call_files hD hInfo hOpen i hHead
    obtain ⟨chains₁, -, hOpen₁, -⟩ := call_eq hD hInfo hOpen i hHead
    refine (ih hOpen₁ fun q' h' => hq q' (List.mem_cons_of_mem _ h')).trans ?_
    rw [hFiles]
    by_cases hj : j = i
    · subst hj
      rw [Function.update_self]
      exact hId
    · rw [Function.update_of_ne hj]

theorem calls_quiet {t : Session ι} (hD : D.Reliable) (hInfo : g.InfoApart)
    (hOpen : Open g U e chains t) {qs : List (ι × Call)} (hq : ∀ q ∈ qs, q.2.Proper) {j : ι}
    (hQuiet : ∀ q ∈ qs, q.1 = j → q.2.Quiet) (hMod : (t.files j).modified = false) :
    ((t.calls D g qs).files j).modified = false := by
  induction qs generalizing t chains with
  | nil => exact hMod
  | cons q qs ih =>
    obtain ⟨i, q⟩ := q
    have hHead := hq _ List.mem_cons_self
    obtain ⟨f', hFiles, -, hLeaves⟩ := call_files hD hInfo hOpen i hHead
    obtain ⟨chains₁, -, hOpen₁, -⟩ := call_eq hD hInfo hOpen i hHead
    refine ih hOpen₁ (fun q' h' => hq q' (List.mem_cons_of_mem _ h'))
      (fun q' h' => hQuiet q' (List.mem_cons_of_mem _ h')) ?_
    rw [hFiles]
    by_cases hj : j = i
    · subst hj
      rw [Function.update_self]
      rw [hMod] at hLeaves
      exact hLeaves.quiet (hQuiet _ List.mem_cons_self rfl)
    · rw [Function.update_of_ne hj]
      exact hMod

/--
**Open files are byte sequences.** On a device that does not fail, any number of files is open on
a volume in order, and any list of calls is made on them. Every answer is the one a byte sequence
with a position gives: `f_read` hands over the bytes from the position on, `f_write` puts bytes
over those at the position and lengthens the file if they reach past its end, `f_lseek` moves the
position and lengthens a writable file up to it. A call on one file never changes another, and a
call stops short only when there is no free cluster. The volume is in order again at the end.
-/
theorem open_files_are_byte_sequences {D : Device} {g : Geometry} {U : Nat → Prop} {e : Nat → Nat}
    {chains : ι → List Nat} {t : Session ι} (hD : D.Reliable) (hInfo : g.InfoApart)
    (hOpen : Open g U e chains t) {qs : List (ι × Call)} (hq : ∀ q ∈ qs, q.2.Proper) :
    ∃ chains', Open g U e chains' (t.calls D g qs) ∧
      Follows D g t (t.file g chains) qs ((t.calls D g qs).file g chains') := by
  obtain ⟨chains', hOpen', -, hFollows⟩ := calls_follow hD hInfo hOpen hq
  exact ⟨chains', hOpen', hFollows⟩

/-- A device that does not fail. -/
def demoDevice : Device := { fails := fun _ => false, junk := fun _ _ => blankSector }

/-- Two empty files on the blank volume, with neighbouring directory entries. -/
def demoSession : Session (Fin 2) where
  vol := demoFatfs
  files i :=
    { valid := true, sclust := 0, objsize := 0, faRead := true, faWrite := true, dirty := false
      modified := false, err := .ok, fptr := 0, clust := 0, sect := 0, buf := blankSector
      dirSect := 5, dirPtr := 32 * i }

theorem open_demoSession :
    Open demoGeometry (fun _ => False) (fun _ => 0) (fun _ => []) demoSession := by
  refine ⟨⟨accounted_demoFatfs, fun c n hc _ hIn => (hIn.lt_noSector hc).ne⟩, fun i => ⟨⟨?_, ?_, ?_, ?_,
    ?_, ?_, ?_, ?_⟩, ⟨?_, ?_, ?_⟩, rfl, ⟨?_, ?_, ?_, ?_⟩⟩⟩
  · exact coherent_demoFatfs
  · exact .inl ⟨rfl, rfl⟩
  · exact Nat.zero_le _
  · exact Nat.two_pow_pos 32
  · exact fun hc => absurd rfl hc
  · exact fun hc => Bool.noConfusion hc
  · exact fun _ hc => absurd rfl hc
  · rintro n ⟨c, hc, -⟩
    exact absurd hc (by simp)
  · exact le_refl 0
  · exact fun hc => absurd hc (lt_irrefl 0)
  · exact fun hc => absurd rfl hc
  · exact le_refl 5
  · show 5 < noSector
    decide
  · intro c _ hIn
    have hLe : 6 ≤ 5 := hIn.database_le
    omega
  · show 32 * i.val + 32 ≤ 512
    omega

theorem open_files_are_byte_sequences_demo :
    ∃ chains', Open demoGeometry (fun _ => False) (fun _ => 0) chains'
        (demoSession.calls demoDevice demoGeometry
          [(0, .write (fun a => UInt8.ofNat a) 65 700), (1, .lseek 5), (0, .lseek 600), (0, .read 9)]) ∧
      Follows demoDevice demoGeometry demoSession (demoSession.file demoGeometry fun _ => [])
        [(0, .write (fun a => UInt8.ofNat a) 65 700), (1, .lseek 5), (0, .lseek 600), (0, .read 9)]
        ((demoSession.calls demoDevice demoGeometry
          [(0, .write (fun a => UInt8.ofNat a) 65 700), (1, .lseek 5), (0, .lseek 600), (0, .read 9)]).file
            demoGeometry chains') :=
  open_files_are_byte_sequences (fun _ => rfl) (fun hc => absurd hc (by decide)) open_demoSession
    (by simp [Call.Proper])

-- ---------------------------------------------------------------------------
-- What the disk has
-- ---------------------------------------------------------------------------

omit [DecidableEq ι] in
/-- A file that is on the disk is read back by a volume that is mounted on that disk, whatever is
still in the window and in the buffers of the session. -/
theorem Saved.read_back (hD : D.Reliable) (hStored : Stored g s U e chains)
    (hReady : Ready g U s f (chains i)) (h : Saved g s f (chains i)) {u : Fatfs}
    (hDisk : u.disk = s.disk) (hClean : u.wflag = false) (hCoh : Coherent u) (f₀ : Fil)
    (faWrite : Bool) (btr : Nat) :
    ∃ u', moveWindow D g u f.dirSect = (.ok, u') ∧
      ∃ f' u'', fRead D g (openEntry g f₀ u' f.dirPtr true faWrite) u' btr =
        (.ok, (f.contents g s.view (chains i)).bytes.take btr, f', u'') := by
  have hb := hReady.backed
  have hPlace := hReady.entry
  obtain ⟨res, u', hMove, hKept, hCoh', ⟨rfl, hSect, hWin⟩ | ⟨-, -, k, hFail⟩⟩ :=
    moveWindow_cases D g hCoh hPlace.below hPlace.not_mirror
  · refine ⟨u', hMove, ?_⟩
    have hView : ∀ n, ¬ g.Mirror n → u'.view n = s.disk n := by
      intro n hn
      rw [hKept.view n hn, view_of_clean hClean, hDisk]
    -- the entry is the one of the session
    have hEntry : u'.win = s.view f.dirSect := by
      rw [hWin, view_of_clean hClean, hDisk, h.neat.disk_eq hPlace.not_table]
    have hOwned : ∀ n, g.Owns (chains i) n → u'.view n = s.view n := by
      intro n hn
      rw [hView n hn.not_mirror, h.neat.disk_eq hn.not_table]
    have hFat : ∀ c ∈ chains i, g.fat u'.view c = g.fat s.view c := by
      intro c hc
      rw [(hb.cluster_of_mem hc).fat_congr fun n hn => hView n (not_mirror_of_inTable hn)]
      exact h.neat.settled c hc
    generalize hNew : openEntry g f₀ u' f.dirPtr true faWrite = f₁
    have hSclust : f₁.sclust = f.sclust := by
      rw [← hNew]
      show ldClust g u'.win f.dirPtr = f.sclust
      rw [hEntry]
      exact h.clust
    have hSize : f₁.objsize = f.objsize := by
      rw [← hNew]
      show ldDword u'.win (f.dirPtr + 28) = f.objsize
      rw [hEntry]
      exact h.size
    have hZero : f₁.sect = 0 := by rw [← hNew]; rfl
    have hFptr : f₁.fptr = 0 := by rw [← hNew]; rfl
    have hFlag : f₁.dirty = false := by rw [← hNew]; rfl
    have hb₁ : Backed g u' f₁ (chains i) := by
      refine ⟨hCoh', ?_, hSize ▸ hb.size, hSize ▸ hb.small, fun hc => absurd hZero hc,
        fun hc => absurd (hFlag.symm.trans hc) (by simp), fun _ hc => absurd hZero hc, fun n hn => ?_⟩
      · rw [hSclust]
        exact hb.chain.imp_right fun hChain => hChain.congr hFat
      · rw [hSect]
        exact hPlace.not_owned hStored hn
    have hp₁ : Placed g f₁ (chains i) := by
      refine ⟨by omega, fun hc => absurd hFptr (by omega), fun hc => absurd ?_ hc⟩
      rw [hFptr]
    obtain ⟨data, f₂, u'', hEq, hLength, hHanded⟩ := fRead_eq hD hb₁ hp₁ (by rw [← hNew]; rfl)
      (by rw [← hNew]; rfl) (by rw [← hNew]; rfl) btr
    refine ⟨f₂, u'', ?_⟩
    have hData : data = (f.contents g s.view (chains i)).bytes.take btr := by
      have hLe := hb.size
      rw [hHanded.bytes, hLength, hFptr, hSize, Fil.contents, Mem.take_slice, Nat.sub_zero]
      refine Mem.slice_congr fun p _ hp => octetAt_congr (by omega) fun n hn => ?_
      rw [Fil.view_of_clean _ hFlag, Fil.view_of_clean _ h.dirty, hOwned n hn]
    rw [hEq, hData]
  · exact absurd hFail (by simp [hD k])

/--
**A file that was synced survives a power cut.** On a device that does not fail, any list of calls
is made on any number of open files; a file is synced or closed on the way, with `FR_OK`, and not
written or moved in afterwards. Whatever the other files were used for since then and whatever of
them is still in memory, the disk alone has the file: a volume that is mounted on it and a file
object that is opened from the directory entry read exactly its bytes.
-/
theorem synced_file_survives {D : Device} {g : Geometry} {U : Nat → Prop} {e : Nat → Nat}
    {chains : ι → List Nat} {t : Session ι} (hD : D.Reliable) (hInfo : g.InfoApart)
    (hOpen : Open g U e chains t) (hSecure : Secure g chains t) (before after : List (ι × Call))
    {i : ι} {q : Call} (hFlush : q = .sync ∨ q = .close)
    (hOk : ((t.calls D g before).call D g i q).1.res = .ok)
    (hProper : ∀ p ∈ before ++ (i, q) :: after, p.2.Proper)
    (hQuiet : ∀ p ∈ after, p.1 = i → p.2.Quiet) :
    ∃ A, Follows D g t (t.file g chains) (before ++ (i, q) :: after) A ∧
      ∀ u : Fatfs, u.disk = (t.calls D g (before ++ (i, q) :: after)).vol.disk → u.wflag = false →
        Coherent u → ∀ (f₀ : Fil) (faWrite : Bool) (btr : Nat),
          ∃ u', moveWindow D g u (t.files i).dirSect = (.ok, u') ∧
            ∃ f' u'', fRead D g (openEntry g f₀ u' (t.files i).dirPtr true faWrite) u' btr =
              (.ok, (A i).bytes.take btr, f', u'') := by
  have hBefore : ∀ p ∈ before, p.2.Proper := fun p hp => hProper p (List.mem_append_left _ hp)
  have hHere : q.Proper := hProper (i, q) (by simp)
  have hAfter : ∀ p ∈ after, p.2.Proper := fun p hp => hProper p (by simp [hp])
  obtain ⟨chains', hOpen', hSecure', hFollows⟩ := calls_follow hD hInfo hOpen hProper
  -- the mark of a changed file is cleared by the flush and stays so
  have hMod : ((t.calls D g (before ++ (i, q) :: after)).files i).modified = false := by
    obtain ⟨chains₁, hOpen₁, -⟩ := calls_follow hD hInfo hOpen hBefore
    obtain ⟨f', hFiles, -, hLeaves⟩ := call_files hD hInfo hOpen₁ i hHere
    obtain ⟨chains₂, -, hOpen₂, -⟩ := call_eq hD hInfo hOpen₁ i hHere
    have hCleared : f'.modified = false := by
      rcases hFlush with rfl | rfl
      · exact hLeaves.trans (if_pos hOk)
      · exact hLeaves.trans (if_pos hOk)
    have hRun : t.calls D g (before ++ (i, q) :: after) =
        ((t.calls D g before).call D g i q).2.calls D g after := by
      rw [Session.calls, List.foldl_append]
      rfl
    rw [hRun]
    refine calls_quiet hD hInfo hOpen₂ hAfter hQuiet ?_
    rw [hFiles, Function.update_self]
    exact hCleared
  have hPlace := calls_place hD hInfo hOpen hProper i
  simp only [Fil.identity, Prod.mk.injEq] at hPlace
  refine ⟨_, hFollows, fun u hDisk hClean hCoh f₀ faWrite btr => ?_⟩
  rw [← hPlace.2.2.2.1, ← hPlace.2.2.2.2]
  exact ((hSecure' hSecure).saved i hMod).read_back hD hOpen'.stored (hOpen'.ready i) hDisk hClean hCoh
    f₀ faWrite btr

/-- The entries of the blank volume are those of empty files. -/
theorem secure_demoSession : Secure demoGeometry (fun _ => []) demoSession := by
  have hWord : ∀ o, ldWord blankSector o = 0 := by
    intro o
    rw [ldWord, byteAt_blankSector, byteAt_blankSector, Nat.mul_zero]
  refine ⟨neat_of_clean _ _ rfl, fun i _ => ⟨rfl, neat_of_clean _ _ rfl, ?_, ?_⟩, fun i j hij => ?_⟩
  · exact hWord _
  · show ldWord blankSector _ + 2 ^ 16 * ldWord blankSector _ = 0
    rw [hWord, hWord, Nat.mul_zero]
  · refine .inr ?_
    show 32 * i.val + 32 ≤ 32 * j.val ∨ 32 * j.val + 32 ≤ 32 * i.val
    have := Fin.val_ne_of_ne hij
    omega

/-- A file is written and synced; then the power is cut while another one is being written. -/
theorem synced_file_survives_demo :
    ∃ A, Follows demoDevice demoGeometry demoSession (demoSession.file demoGeometry fun _ => [])
        ([(0, .write (fun a => UInt8.ofNat a) 65 3)] ++ (0, .sync) ::
          [(1, .write (fun a => UInt8.ofNat a) 97 700)]) A ∧
      ∃ u', moveWindow demoDevice demoGeometry { demoFatfs with disk :=
          (demoSession.calls demoDevice demoGeometry ([(0, .write (fun a => UInt8.ofNat a) 65 3)] ++
            (0, .sync) :: [(1, .write (fun a => UInt8.ofNat a) 97 700)])).vol.disk } 5 = (.ok, u') ∧
        ∃ f' u'', fRead demoDevice demoGeometry
            (openEntry demoGeometry (demoSession.files 0) u' 0 true false) u' 10 =
          (.ok, (A 0).bytes.take 10, f', u'') := by
  obtain ⟨A, hFollows, hRead⟩ := synced_file_survives (D := demoDevice) (fun _ => rfl)
    (fun hc => absurd hc (by decide)) open_demoSession secure_demoSession
    [(0, .write (fun a => UInt8.ofNat a) 65 3)] [(1, .write (fun a => UInt8.ofNat a) 97 700)]
    (i := 0) (.inl rfl)
    (by decide +kernel) (by simp [Call.Proper]) (by simp)
  exact ⟨A, hFollows, hRead { demoFatfs with disk := _ } rfl rfl
    ⟨fun _ hc => absurd rfl hc, by decide⟩ (demoSession.files 0) false 10⟩

end Nao.Fat
