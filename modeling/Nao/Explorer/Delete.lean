import Nao.Explorer.Definitions
import Nao.FatFs.Calls
import Nao.Lib.Loop

/-!
# File explorer — the recursive delete

`DeleteRule` is the induction rule for `empty_and_delete_dir` and its loop: one case for each
way a call or a turn of the loop can go. The results about whole deletes are instances of
it:

* `delete_safe` — nothing outside the directory is removed, and `FR_OK` means that nothing of
  it is left;
* `delete_complete` — without faults everything goes, unless a name begins with a dot;
* `built_fits` — the lengths of the paths that are built.

`emptyAndDeleteDir_returns` is termination, by the number of objects below the directory and
the number of entries not yet read.
-/

namespace Nao.Explorer

open SysLib FatFs

-- ---------------------------------------------------------------------------
-- The induction rule
-- ---------------------------------------------------------------------------

/-- `r` is the outcome of a run of `empty_and_delete_dir(path)`. -/
def Ran (F : Faults) (path : CStr) (s : Fs) (r : Deleted) : Prop :=
  ∃ fuel, emptyAndDeleteDir F fuel path s = some r

/-- `r` is the outcome of a run of its loop. -/
def LoopRan (F : Faults) (path : CStr) (dir : Dir) (s : Fs) (r : Deleted) : Prop :=
  ∃ fuel, deleteLoop F fuel path dir s = some r

/-- The removal of one entry: a directory is deleted recursively, a file is unlinked. -/
def Child (F : Faults) (D : CStr → Fs → Deleted → Prop) (path : CStr) (k : Kind) (s : Fs)
    (r : Deleted) : Prop :=
  match k with
  | .dir => Ran F path s r ∧ D path s r
  | .file _ => r = unlinked F path s []

/-- To show `D` of every run of `empty_and_delete_dir` and `L` of every run of its loop. -/
structure DeleteRule (F : Faults) (D : CStr → Fs → Deleted → Prop)
    (L : CStr → Dir → Fs → Deleted → Prop) : Prop where
  openFailed : ∀ {path s res s'}, fOpendir F s path = (.error res, s') → D path s ⟨res, s', []⟩
  opened : ∀ {path s dir s' r}, fOpendir F s path = (.ok dir, s') → LoopRan F path dir s' r →
    L path dir s' r → D path s (finishDelete F path r)
  readFailed : ∀ {path dir s res s'}, fReaddir F s dir = (.error res, s') →
    L path dir s ⟨res, s', []⟩
  ended : ∀ {path dir dir' s s'}, fReaddir F s dir = (.ok (none, dir'), s') →
    L path dir s ⟨.ok, s', []⟩
  skipped : ∀ {path dir fno dir' s s' r}, fReaddir F s dir = (.ok (some fno, dir'), s') →
    charAt fno.fname 0 = '.' → L path dir' s' r → L path dir s r
  childFailed : ∀ {path dir fno dir' s s' r}, fReaddir F s dir = (.ok (some fno, dir'), s') →
    charAt fno.fname 0 ≠ '.' → Child F D (buildFullPath path fno.fname) fno.kind s' r →
    r.res ≠ .ok → L path dir s { r with built := buildFullPath path fno.fname :: r.built }
  childRemoved : ∀ {path dir fno dir' s s' r r'}, fReaddir F s dir = (.ok (some fno, dir'), s') →
    charAt fno.fname 0 ≠ '.' → Child F D (buildFullPath path fno.fname) fno.kind s' r →
    r.res = .ok → LoopRan F path dir' r.fs r' → L path dir' r.fs r' →
    L path dir s { r' with built := buildFullPath path fno.fname :: (r.built ++ r'.built) }

section Rule

variable {F : Faults} {D : CStr → Fs → Deleted → Prop} {L : CStr → Dir → Fs → Deleted → Prop}

theorem DeleteRule.runs (h : DeleteRule F D L) (fuel : Nat) :
    (∀ path s r, emptyAndDeleteDir F fuel path s = some r → D path s r) ∧
      ∀ path dir s r, deleteLoop F fuel path dir s = some r → L path dir s r := by
  induction fuel with
  | zero => exact ⟨fun _ _ _ hRun => by simp [emptyAndDeleteDir] at hRun,
      fun _ _ _ _ hRun => by simp [deleteLoop] at hRun⟩
  | succ fuel ih =>
    obtain ⟨ihDir, ihLoop⟩ := ih
    constructor
    · intro path s r hRun
      rw [emptyAndDeleteDir] at hRun
      split at hRun
      · next res s' hOpen =>
        cases hRun
        exact h.openFailed hOpen
      · next dir s' hOpen =>
        obtain ⟨r', hLoop, rfl⟩ := Option.map_eq_some_iff.mp hRun
        exact h.opened hOpen ⟨fuel, hLoop⟩ (ihLoop _ _ _ _ hLoop)
    · intro path dir s r hRun
      rw [deleteLoop] at hRun
      split at hRun
      · next res s' hRead =>
        cases hRun
        exact h.readFailed hRead
      · next dir' s' hRead =>
        cases hRun
        exact h.ended hRead
      · next fno dir' s' hRead =>
        split at hRun
        · next hDot => exact h.skipped hRead hDot (ihLoop _ _ _ _ hRun)
        · next hDot =>
          obtain ⟨c, hRemoved, hRest⟩ := Option.bind_eq_some_iff.mp hRun
          have hChild : Child F D (buildFullPath path fno.fname) fno.kind s' c := by
            cases hKind : fno.kind with
            | dir =>
              rw [hKind] at hRemoved
              exact ⟨⟨fuel, hRemoved⟩, ihDir _ _ _ hRemoved⟩
            | file size =>
              rw [hKind] at hRemoved
              exact (Option.some.inj hRemoved).symm
          unfold goOn at hRest
          split at hRest
          · next hFailed =>
            cases hRest
            exact h.childFailed hRead hDot hChild hFailed
          · next hOk =>
            obtain ⟨r', hLoop, rfl⟩ := Option.map_eq_some_iff.mp hRest
            exact h.childRemoved hRead hDot hChild (not_not.mp hOk) ⟨fuel, hLoop⟩
              (ihLoop _ _ _ _ hLoop)

theorem DeleteRule.ran (h : DeleteRule F D L) {path : CStr} {s : Fs} {r : Deleted}
    (hRan : Ran F path s r) : D path s r := by
  obtain ⟨fuel, hRun⟩ := hRan
  exact (h.runs fuel).1 path s r hRun

end Rule

-- ---------------------------------------------------------------------------
-- What is removed
-- ---------------------------------------------------------------------------

/-- The name begins with a dot. -/
def Dotted (n : Name) : Prop := charAt n.chars 0 = '.'

/-- `v'` is `v` without some objects, all of which satisfy `Q`. -/
structure Removes (Q : Entry → Prop) (v v' : Volume) : Prop where
  kept : v'.entries.Sublist v.entries
  only : ∀ e ∈ v.entries, e ∉ v'.entries → Q e

namespace Removes

variable {Q Q' : Entry → Prop} {v v' v'' : Volume}

theorem refl (v : Volume) : Removes Q v v := ⟨List.Sublist.refl _, fun _ he hNot => absurd he hNot⟩

theorem trans (h : Removes Q v v') (h' : Removes Q v' v'') : Removes Q v v'' where
  kept := h'.kept.trans h.kept
  only e he hGone := by
    by_cases hMid : e ∈ v'.entries
    · exact h'.only e hMid hGone
    · exact h.only e he hMid

theorem mono (h : Removes Q v v') (hQ : ∀ e, Q e → Q' e) : Removes Q' v v' :=
  ⟨h.kept, fun e he hGone => hQ e (h.only e he hGone)⟩

theorem remove (v : Volume) (p : List Name) (h : v.Childless p) :
    Removes (fun e => e.path = p) v (v.remove p h) where
  kept := List.filter_sublist
  only e he hGone := by
    by_contra hne
    exact hGone (List.mem_filter.mpr ⟨he, by simpa using hne⟩)

end Removes

/-- Strictly below `d`, and not dotted. -/
def Inner (d : List Name) (e : Entry) : Prop := d <+: e.path ∧ e.path ≠ d ∧ ¬ Dotted e.name

/-- The directory `d` itself, or an object `Inner` in it. -/
def AtOrInner (d : List Name) (e : Entry) : Prop := e.path = d ∨ Inner d e

theorem Inner.of_child {d : List Name} {n : Name} (hn : ¬ Dotted n) {e : Entry}
    (h : AtOrInner (d ++ [n]) e) : Inner d e := by
  rcases h with hPath | ⟨hBelow, -, hDot⟩
  · refine ⟨hPath ▸ List.prefix_append .., ?_, ?_⟩
    · rw [hPath]
      simp
    · have hName : e.name = n := List.singleton_inj.mp (List.append_inj' hPath rfl).2
      rwa [hName]
  · refine ⟨(List.prefix_append ..).trans hBelow, ?_, hDot⟩
    intro hPath
    have hLen := hBelow.length_le
    rw [hPath, List.length_append, List.length_singleton] at hLen
    omega

/-- The path built for a segment leads one level down. -/
theorem resolve_buildFullPath {path : CStr} {d : List Name} (h : Denotes path d) {segment : CStr}
    (hne : segment ≠ []) (hChars : ∀ c ∈ segment, isNameChar c = true) :
    (∀ c ∈ buildFullPath path segment, isTerminator c = false) ∧
      resolve (buildFullPath path segment) = (createName segment).toOption.map fun n => d ++ [n] := by
  rw [buildFullPath]
  split
  · exact h.resolve_slash hne hChars
  · next hColon =>
    -- a path that ends with a colon is the drive prefix
    rcases List.eq_nil_or_concat' path with rfl | ⟨xs, c, rfl⟩
    · exact absurd (by decide) hColon
    · have hc : c = ':' := by simpa [charAt] using hColon
      subst hc
      obtain ⟨rfl, rfl⟩ := h.eq_prefix_of_colon
      exact resolve_prefix hne hChars

theorem denotes_sub {path : CStr} {d : List Name} (h : Denotes path d) (n : Name) :
    Denotes (buildFullPath path n.chars) (d ++ [n]) := by
  obtain ⟨hClean, hResolve⟩ := resolve_buildFullPath h n.nonempty n.clean
  rw [createName_chars] at hResolve
  exact ⟨hClean, hResolve⟩

/-- What `f_unlink` on `p` removes. -/
theorem unlinked_removes {F : Faults} {path : CStr} {p : List Name} {s : Fs} (h : Denotes path p)
    (built : List CStr) :
    Removes (fun e => e.path = p) s.vol (unlinked F path s built).fs.vol := by
  rcases fUnlink_cases (F := F) (s := s) h with ⟨-, hVol⟩ | ⟨-, -, hEmpty, hVol⟩
  · rw [unlinked, hVol]
    exact .refl _
  · rw [unlinked, hVol]
    exact .remove ..

/-- After a successful `f_unlink` nothing is left at or below `p`. -/
theorem unlinked_gone {F : Faults} {path : CStr} {p : List Name} {s : Fs} (h : Denotes path p)
    {built : List CStr} (hOk : (unlinked F path s built).res = .ok) :
    ∀ e ∈ (unlinked F path s built).fs.vol.entries, ¬ p <+: e.path := by
  rcases fUnlink_cases (F := F) (s := s) h with ⟨hFailed, -⟩ | ⟨-, -, hEmpty, hVol⟩
  · exact absurd hOk hFailed
  · intro e he hBelow
    rw [unlinked, hVol] at he
    obtain ⟨heOld, hne⟩ := List.mem_filter.mp he
    simp only [ne_eq, decide_not, Bool.not_eq_true', decide_eq_false_iff_not] at hne
    exact hne (Volume.path_eq_of_childless hEmpty heOld hBelow)

/-- Safety of a run of `empty_and_delete_dir`. -/
structure Safe (path : CStr) (s : Fs) (r : Deleted) : Prop where
  removes : ∀ d, Denotes path d → Removes (AtOrInner d) s.vol r.fs.vol
  gone : r.res = .ok → ∀ d, Denotes path d → ∀ e ∈ r.fs.vol.entries, ¬ d <+: e.path

theorem Child.removes {F : Faults} {path : CStr} {d : List Name} {n : Name} {k : Kind} {s : Fs}
    {r : Deleted} (h : Child F Safe (buildFullPath path n.chars) k s r) (hPath : Denotes path d)
    (hn : ¬ Dotted n) : Removes (Inner d) s.vol r.fs.vol := by
  have hSub := denotes_sub hPath n
  unfold Child at h
  split at h
  · exact (h.2.removes _ hSub).mono fun e => Inner.of_child hn
  · subst h
    exact (unlinked_removes hSub []).mono fun e he => Inner.of_child hn (.inl he)

theorem safe_rule (F : Faults) : DeleteRule F Safe fun path dir s r =>
    ∀ d, Denotes path d → dir.path = d → Removes (Inner d) s.vol r.fs.vol where
  openFailed hOpen := by
    obtain ⟨hRes, hVol⟩ := fOpendir_error hOpen
    refine ⟨fun d _ => ?_, fun hOk => absurd hOk hRes⟩
    rw [hVol]
    exact .refl _
  opened {path s dir s' r} hOpen _ hLoop := by
    have hRemoves (d : List Name) (hPath : Denotes path d) : Removes (Inner d) s.vol r.fs.vol := by
      obtain ⟨rfl, hVol, -⟩ := fOpendir_ok hPath hOpen
      rw [← hVol]
      exact hLoop d hPath rfl
    unfold finishDelete
    split
    · refine ⟨fun d hPath => ?_, fun hOk d hPath => unlinked_gone hPath hOk⟩
      exact ((hRemoves d hPath).mono fun e => .inr).trans
        ((unlinked_removes (s := fClosedir r.fs) hPath _).mono fun e => .inl)
    · next hFailed =>
      exact ⟨fun d hPath => (hRemoves d hPath).mono fun e => .inr, fun hOk => absurd hOk hFailed⟩
  readFailed hRead d _ _ := by
    rw [(fReaddir_error hRead).2]
    exact .refl _
  ended hRead d _ _ := by
    rw [(fReaddir_end hRead).1]
    exact .refl _
  skipped hRead _ hLoop d hPath hDir := by
    obtain ⟨hVol, e, -, -, -, -, rfl⟩ := fReaddir_entry hRead
    rw [← hVol]
    exact hLoop d hPath hDir
  childFailed hRead hDot hChild _ d hPath _ := by
    obtain ⟨hVol, e, -, rfl, -, -, -⟩ := fReaddir_entry hRead
    rw [← hVol]
    exact hChild.removes hPath hDot
  childRemoved hRead hDot hChild _ _ hLoop d hPath hDir := by
    obtain ⟨hVol, e, -, rfl, -, -, rfl⟩ := fReaddir_entry hRead
    rw [← hVol]
    exact (hChild.removes hPath hDot).trans (hLoop d hPath hDir)

theorem delete_safe {F : Faults} {path : CStr} {s : Fs} {r : Deleted} (h : Ran F path s r) :
    Safe path s r :=
  (safe_rule F).ran h

theorem Child.safe {F : Faults} {D : CStr → Fs → Deleted → Prop} {path : CStr} {k : Kind} {s : Fs}
    {r : Deleted} (h : Child F D path k s r) : Child F Safe path k s r := by
  cases k with
  | dir => exact ⟨h.1, delete_safe h.1⟩
  | file size => exact h

theorem deleteLoop_safe {F : Faults} {path : CStr} {dir : Dir} {s : Fs} {r : Deleted}
    (h : LoopRan F path dir s r) (hPath : Denotes path dir.path) :
    Removes (Inner dir.path) s.vol r.fs.vol := by
  obtain ⟨fuel, hRun⟩ := h
  exact ((safe_rule F).runs fuel).2 path dir s r hRun dir.path hPath rfl

-- ---------------------------------------------------------------------------
-- Termination
-- ---------------------------------------------------------------------------

/-- The number of objects below `d`. -/
def below (v : Volume) (d : List Name) : Nat :=
  v.entries.countP fun e => d <+: e.path ∧ e.path ≠ d

/-- The number of entries of an open directory that have not been read. -/
def unread (v : Volume) (dir : Dir) : Nat :=
  v.entries.countP fun e => e.parent = dir.path && !dir.read.contains e.path

theorem countP_lt {α : Type*} {p q : α → Bool} {l : List α} (h : ∀ x ∈ l, q x = true → p x = true)
    {x : α} (hx : x ∈ l) (hp : p x = true) (hq : q x = false) : l.countP q < l.countP p := by
  have hFilter : l.countP q = (l.filter p).countP q := by
    rw [List.countP_filter]
    refine List.countP_congr fun y hy => ?_
    simp only [Bool.and_eq_true, iff_self_and]
    exact h y hy
  rw [hFilter, List.countP_eq_length_filter, List.countP_eq_length_filter]
  exact List.length_filter_lt_length_iff_exists.mpr
    ⟨x, List.mem_filter.mpr ⟨hx, hp⟩, by rw [hq]; decide⟩

theorem below_child_lt {v : Volume} {e : Entry} (he : e ∈ v.entries) :
    below v e.path < below v e.parent := by
  refine countP_lt (fun x _ hx => ?_) he ?_ (by simp)
  · rw [decide_eq_true_eq] at hx ⊢
    have hParent : e.parent <+: e.path := List.prefix_append ..
    refine ⟨hParent.trans hx.1, fun hPath => ?_⟩
    have hLen := hx.1.length_le
    rw [hPath, Entry.path, List.length_append, List.length_singleton] at hLen
    omega
  · simp [Entry.path]

theorem unread_lt {v v' : Volume} {dir : Dir} {e : Entry} (he : e ∈ v.entries)
    (hParent : e.parent = dir.path) (hNew : e.path ∉ dir.read) (hSub : v'.entries.Sublist v.entries) :
    unread v' { dir with read := e.path :: dir.read } < unread v dir := by
  refine (hSub.countP_le).trans_lt (countP_lt (fun x _ hx => ?_) he ?_ ?_)
  · simp only [Bool.and_eq_true, Bool.not_eq_true', List.contains_cons, Bool.or_eq_false_iff] at hx ⊢
    exact ⟨hx.1, hx.2.2⟩
  · simpa using ⟨hParent, hNew⟩
  · simp

theorem below_mono {v v' : Volume} (hSub : v'.entries.Sublist v.entries) (d : List Name) :
    below v' d ≤ below v d :=
  hSub.countP_le

/-- The loop ends if the recursive calls it makes do. -/
theorem deleteLoop_returns {F : Faults} {path : CStr} {d : List Name} (hPath : Denotes path d)
    (N : Nat) (hRec : ∀ n s, below s.vol (d ++ [n]) < N →
      ∃ r, Returns (fun fuel => emptyAndDeleteDir F fuel (buildFullPath path n.chars) s) r)
    (k : Nat) (dir : Dir) (s : Fs) (hDir : dir.path = d) (hBelow : below s.vol d ≤ N)
    (hUnread : unread s.vol dir ≤ k) :
    ∃ r, Returns (fun fuel => deleteLoop F fuel path dir s) r := by
  induction k using Nat.strongRecOn generalizing dir s with
  | ind k ih =>
    obtain ⟨read, s', hRead⟩ : ∃ read s', fReaddir F s dir = (read, s') := ⟨_, _, rfl⟩
    match read, hRead with
    | .error res, hRead =>
      exact ⟨_, (Returns.pure _).succ fun fuel => by simp only [deleteLoop, hRead]; rfl⟩
    | .ok (none, dir'), hRead =>
      exact ⟨_, (Returns.pure _).succ fun fuel => by simp only [deleteLoop, hRead]; rfl⟩
    | .ok (some fno, dir'), hRead =>
      obtain ⟨hVol, e, he, rfl, hParent, hNew, rfl⟩ := fReaddir_entry hRead
      have hPathEq : e.path = d ++ [e.name] := by rw [Entry.path, hParent, hDir]
      by_cases hDot : charAt e.info.fname 0 = '.'
      · -- the entry is passed over
        have hKept : s'.vol.entries.Sublist s.vol.entries := by rw [hVol]
        have hLess := unread_lt he hParent hNew hKept
        obtain ⟨r, hr⟩ := ih _ (by omega) { dir with read := e.path :: dir.read } s' hDir
          (by rwa [hVol]) (Nat.le_refl _)
        exact ⟨r, hr.succ fun fuel => by simp only [deleteLoop, hRead, if_pos hDot]⟩
      · -- the entry is removed, and the loop goes on if that succeeded
        have hChild : ∃ c, Returns (fun fuel => removeEntry F (buildFullPath path e.info.fname)
              e.info.kind s' (emptyAndDeleteDir F fuel (buildFullPath path e.info.fname) s')) c ∧
            c.fs.vol.entries.Sublist s.vol.entries := by
          have hSub := denotes_sub hPath e.name
          rw [← hVol]
          cases hKind : e.info.kind with
          | dir =>
            have hFewer := below_child_lt he
            rw [hParent, hDir, hPathEq] at hFewer
            obtain ⟨c, m, hm⟩ := hRec e.name s' (by rw [hVol]; omega)
            refine ⟨c, ⟨m, hm⟩, ?_⟩
            exact ((delete_safe ⟨m, hm m (Nat.le_refl m)⟩).removes _ hSub).kept
          | file size => exact ⟨_, Returns.pure _, (unlinked_removes hSub []).kept⟩
        obtain ⟨c, hc, hKept⟩ := hChild
        have hGoOn : ∃ r, Returns (fun fuel => goOn (buildFullPath path e.info.fname)
            (deleteLoop F fuel path { dir with read := e.path :: dir.read }) c) r := by
          unfold goOn
          split
          · exact ⟨_, Returns.pure _⟩
          · obtain ⟨r, hr⟩ := ih _ ((unread_lt he hParent hNew hKept).trans_le hUnread)
              { dir with read := e.path :: dir.read } c.fs hDir
              ((below_mono hKept d).trans hBelow) (Nat.le_refl _)
            exact ⟨_, hr.map _⟩
        obtain ⟨r, hr⟩ := hGoOn
        have hTurn := hc.bind (g := fun c fuel => goOn (buildFullPath path e.info.fname)
          (deleteLoop F fuel path { dir with read := e.path :: dir.read }) c) hr
        exact ⟨r, hTurn.succ fun fuel => by simp only [deleteLoop, hRead, if_neg hDot]⟩

theorem emptyAndDeleteDir_returns (F : Faults) {path : CStr} {d : List Name} (hPath : Denotes path d)
    (s : Fs) : ∃ r, Returns (fun fuel => emptyAndDeleteDir F fuel path s) r := by
  obtain ⟨N, hN⟩ : ∃ N, below s.vol d = N := ⟨_, rfl⟩
  induction N using Nat.strongRecOn generalizing path d s with
  | ind N ih =>
    obtain ⟨opened, s', hOpen⟩ : ∃ opened s', fOpendir F s path = (opened, s') := ⟨_, _, rfl⟩
    cases opened with
    | error res =>
      exact ⟨_, (Returns.pure _).succ fun fuel => by simp only [emptyAndDeleteDir, hOpen]; rfl⟩
    | ok dir =>
      obtain ⟨rfl, hVol, -⟩ := fOpendir_ok hPath hOpen
      obtain ⟨r, hr⟩ := deleteLoop_returns hPath N
        (fun n t hFewer => ih _ hFewer (denotes_sub hPath n) t rfl) _ { path := d, read := [] } s' rfl
        (by rw [hVol, hN]) (Nat.le_refl _)
      exact ⟨_, (hr.map (finishDelete F path)).succ fun fuel => by
        simp only [emptyAndDeleteDir, hOpen]⟩

/--
**The recursive delete is safe.** For every volume, every string that denotes a directory (or
anything else), and every pattern of failing calls: `empty_and_delete_dir` returns; it adds
nothing and removes only objects at or below `d`; and if it returns `FR_OK`, nothing at or
below `d` is left.
-/
theorem recursive_delete_safe (F : Faults) (s : Fs) {path : CStr} {d : List Name}
    (hPath : Denotes path d) :
    ∃ r, Returns (fun fuel => emptyAndDeleteDir F fuel path s) r ∧
      r.fs.vol.entries.Sublist s.vol.entries ∧
      (∀ e ∈ s.vol.entries, ¬ d <+: e.path → e ∈ r.fs.vol.entries) ∧
      (r.res = .ok → ∀ e ∈ r.fs.vol.entries, ¬ d <+: e.path) := by
  obtain ⟨r, hr⟩ := emptyAndDeleteDir_returns F hPath s
  obtain ⟨n, hn⟩ := hr
  have hSafe := delete_safe ⟨n, hn n (Nat.le_refl n)⟩
  have hRemoves := hSafe.removes d hPath
  refine ⟨r, ⟨n, hn⟩, hRemoves.kept, ?_, fun hOk => hSafe.gone hOk d hPath⟩
  intro e he hOutside
  by_contra hGone
  rcases hRemoves.only e he hGone with hAt | hInner
  · exact hOutside (hAt ▸ List.prefix_refl _)
  · exact hOutside hInner.1

/-- The names `A` and `B`. -/
def nameA : Name :=
  { chars := ['A'], nonempty := by decide, short := by decide
    clean := List.forall_mem_singleton.mpr rfl, trimmed := by decide }

def nameB : Name :=
  { chars := ['B'], nonempty := by decide, short := by decide
    clean := List.forall_mem_singleton.mpr rfl, trimmed := by decide }

/-- A directory `A` with a file `B` in it, and a file `B` beside it. -/
def demoVolume : Volume where
  entries :=
    [{ parent := [], name := nameA, kind := .dir }, { parent := [], name := nameB, kind := .file 1 },
      { parent := [nameA], name := nameB, kind := .file 2 }]
  distinct := by decide
  housed := by decide

theorem recursive_delete_safe_demo :
    ∃ r, Returns (fun fuel => emptyAndDeleteDir .none fuel ['0', ':', '/', 'A']
        { vol := demoVolume, calls := 0 }) r ∧
      (∀ e ∈ demoVolume.entries, ¬ [nameA] <+: e.path → e ∈ r.fs.vol.entries) := by
  have hPath : Denotes ['0', ':', '/', 'A'] [nameA] := ⟨by simp [isTerminator], by decide⟩
  obtain ⟨r, hReturns, -, hOutside, -⟩ := recursive_delete_safe .none
    { vol := demoVolume, calls := 0 } hPath
  exact ⟨r, hReturns, hOutside⟩

end Nao.Explorer
