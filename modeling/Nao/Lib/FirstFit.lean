import Nao.Lib.BlockList

/-!
# First-fit allocation on block lists

The two operations of a first-fit allocator with immediate coalescing, on the
abstract block lists of `BlockList`:

* `firstFit` takes the first free block that is large enough and carves the
  request off its front when the rest can hold a block of its own;
* `release` marks a block free and `coalesce` merges every run of free
  neighbours into one block.

Coalescing is a normal form: `coalesce` yields a separated list, leaves a
separated list alone, and may be applied early to any part of a list
(`coalesce_append_coalesce`, `coalesce_coalesce_append`). Everything about the
order of frees follows from that:

* `freeAt_comm`      — freeing two blocks commutes;
* `freeAt_carve`     — freeing what was just allocated restores the list.
-/

namespace SysLib

namespace BlockList

/-! ## Coalescing -/

section Coalesce

variable (hdr : Nat)

/-- Put a block in front of a list, merging it with the head when both are free. -/
def push (b : Block) : List Block → List Block
  | [] => [b]
  | c :: bs =>
    if b.free ∧ c.free then { size := b.size + hdr + c.size, free := true } :: bs
    else b :: c :: bs

/-- Merge every run of free neighbours. -/
def coalesce (bs : List Block) : List Block := bs.foldr (push hdr) []

theorem push_cons (b c : Block) (bs : List Block) :
    push hdr b (c :: bs) =
      if b.free ∧ c.free then { size := b.size + hdr + c.size, free := true } :: bs
      else b :: c :: bs := rfl

@[simp] theorem coalesce_nil : coalesce hdr [] = [] := rfl

@[simp] theorem coalesce_cons (b : Block) (bs : List Block) :
    coalesce hdr (b :: bs) = push hdr b (coalesce hdr bs) := rfl

theorem coalesce_append (xs ys : List Block) :
    coalesce hdr (xs ++ ys) = xs.foldr (push hdr) (coalesce hdr ys) := by
  simp [coalesce]

variable {hdr}

theorem push_of_used {b : Block} (h : b.free = false) (bs : List Block) :
    push hdr b bs = b :: bs := by
  cases bs <;> simp [push, h]

/-- Pushing on the merge of two free blocks is pushing them one after the other. -/
theorem push_push_of_free {b c : Block} (hb : b.free = true) (hc : c.free = true)
    (bs : List Block) :
    push hdr b (push hdr c bs) =
      push hdr { size := b.size + hdr + c.size, free := true } bs := by
  cases bs with
  | nil => simp [push, hb, hc]
  | cons d bs =>
    by_cases hd : d.free = true
    · simp [push, hb, hc, hd, Nat.add_assoc]
    · simp [push, hb, hc, hd]

@[simp] theorem extent_push (b : Block) (bs : List Block) :
    extent hdr (push hdr b bs) = span hdr b + extent hdr bs := by
  cases bs with
  | nil => simp [push]
  | cons c bs =>
    rw [push_cons]
    split
    · simp only [extent_cons, span]
      omega
    · simp

@[simp] theorem extent_coalesce (bs : List Block) :
    extent hdr (coalesce hdr bs) = extent hdr bs := by
  induction bs with
  | nil => rfl
  | cons b bs ih => simp [ih]

theorem separated_push {b : Block} {bs : List Block} (h : Separated bs) :
    Separated (push hdr b bs) := by
  cases bs with
  | nil => exact List.isChain_singleton _
  | cons c bs =>
    rw [push_cons]
    split
    · rename_i hfree
      -- the merged block is free where `c` was, so it clashes with nothing new
      refine List.IsChain.imp_head (x := c) ?_ h
      intro z hz hmerged
      exact hz ⟨hfree.2, hmerged.2⟩
    · rename_i hfree
      exact List.isChain_cons_cons.mpr ⟨hfree, h⟩

theorem separated_coalesce (bs : List Block) : Separated (coalesce hdr bs) := by
  induction bs with
  | nil => exact List.isChain_nil
  | cons b bs ih => exact separated_push ih

theorem coalesce_of_separated {bs : List Block} (h : Separated bs) :
    coalesce hdr bs = bs := by
  induction bs with
  | nil => rfl
  | cons b bs ih =>
    have hrest : coalesce hdr bs = bs := ih h.tail
    rw [coalesce_cons, hrest]
    cases bs with
    | nil => rfl
    | cons c bs =>
      have hbc := (List.isChain_cons_cons.mp h).1
      simp only [push, if_neg hbc]

/-- The tail of a list may be coalesced early. -/
theorem coalesce_append_coalesce (xs ys : List Block) :
    coalesce hdr (xs ++ coalesce hdr ys) = coalesce hdr (xs ++ ys) := by
  rw [coalesce_append, coalesce_append, coalesce_of_separated (separated_coalesce ys)]

/-- The front of a list may be coalesced early. -/
theorem coalesce_coalesce_append (xs ys : List Block) :
    coalesce hdr (coalesce hdr xs ++ ys) = coalesce hdr (xs ++ ys) := by
  induction xs with
  | nil => rfl
  | cons b xs ih =>
    rw [coalesce_cons, List.cons_append, coalesce_cons, ← ih]
    cases hxs : coalesce hdr xs with
    | nil => simp [push]
    | cons c cs =>
      rw [push_cons]
      split
      · rename_i hfree
        rw [List.cons_append, coalesce_cons, List.cons_append, coalesce_cons,
          ← push_push_of_free hfree.1 hfree.2]
      · rfl

/-- Merging two free neighbours in place does not change the normal form. -/
theorem coalesce_merge (pre post : List Block) {a b : Block}
    (ha : a.free = true) (hb : b.free = true) :
    coalesce hdr (pre ++ { size := a.size + hdr + b.size, free := true } :: post) =
      coalesce hdr (pre ++ a :: b :: post) := by
  rw [coalesce_append, coalesce_append, coalesce_cons, coalesce_cons, coalesce_cons,
    push_push_of_free ha hb]

/-- A block in use cuts the work of `coalesce` in two. -/
theorem coalesce_append_used {pre post : List Block} {u : Block} (hu : u.free = false) :
    coalesce hdr (pre ++ u :: post) = coalesce hdr pre ++ u :: coalesce hdr post := by
  rw [coalesce_append, coalesce_cons, push_of_used hu]
  induction pre with
  | nil => rfl
  | cons b pre ih =>
    rw [List.foldr_cons, ih, coalesce_cons]
    cases hpre : coalesce hdr pre with
    | nil => simp [push, hu]
    | cons c cs =>
      simp only [push, List.cons_append]
      split <;> rfl

/-- Coalescing keeps every block in use where it is. -/
theorem mem_place_coalesce_used {off o : Nat} {u : Block} (hu : u.free = false)
    {bs : List Block} :
    (o, u) ∈ place hdr off (coalesce hdr bs) ↔ (o, u) ∈ place hdr off bs := by
  induction bs generalizing off with
  | nil => simp
  | cons b bs ih =>
    rw [coalesce_cons, place_cons, List.mem_cons, ← ih]
    cases hbs : coalesce hdr bs with
    | nil => simp [push]
    | cons c cs =>
      rw [push_cons]
      split
      · rename_i hfree
        have hne : ∀ (x : Nat) (s : Nat), (o, u) ≠ (x, { size := s, free := true }) := by
          intro x s h
          have := congrArg (fun p => p.2.free) h
          simp [hu] at this
        have hnb : (o, u) ≠ (off, b) := by
          intro h
          have := congrArg (fun p => p.2.free) h
          simp [hu, hfree.1] at this
        have hnc : (o, u) ≠ (off + span hdr b, c) := by
          intro h
          have := congrArg (fun p => p.2.free) h
          simp [hu, hfree.2] at this
        have hspan : off + span hdr { size := b.size + hdr + c.size, free := true } =
            off + span hdr b + span hdr c := by
          simp only [span]
          omega
        simp only [place_cons, List.mem_cons, hne, hnb, hnc, false_or, hspan]
      · simp

variable (hdr) in
theorem length_push_le (b : Block) (bs : List Block) :
    (push hdr b bs).length ≤ bs.length + 1 := by
  cases bs with
  | nil => simp [push]
  | cons c bs =>
    rw [push_cons]
    split <;> simp

variable (hdr) in
theorem length_coalesce_le (bs : List Block) : (coalesce hdr bs).length ≤ bs.length := by
  induction bs with
  | nil => simp
  | cons b bs ih =>
    have := length_push_le hdr b (coalesce hdr bs)
    rw [coalesce_cons, List.length_cons]
    omega

variable (hdr) in
/-- Coalescing shortens exactly the lists that have two free neighbours. -/
theorem length_coalesce_lt_iff (bs : List Block) :
    (coalesce hdr bs).length < bs.length ↔ ¬ Separated bs := by
  constructor
  · intro hlt hSep
    rw [coalesce_of_separated hSep] at hlt
    omega
  · intro hSep
    unfold Separated at hSep
    rw [List.isChain_iff_forall_rel_of_append_cons_cons] at hSep
    push Not at hSep
    obtain ⟨a, b, pre, post, rfl, ha, hb⟩ := hSep
    rw [← coalesce_merge _ _ ha hb]
    have := length_coalesce_le hdr
      (pre ++ { size := a.size + hdr + b.size, free := true } :: post)
    simp only [List.length_append, List.length_cons] at this ⊢
    omega

end Coalesce

/-! ## Releasing a block -/

section Release

/-- Mark the block placed at `target` free; the list starts at `off`. -/
def release (hdr target : Nat) : Nat → List Block → List Block
  | _, [] => []
  | off, b :: bs =>
    (if off = target then { b with free := true } else b) ::
      release hdr target (off + span hdr b) bs

/-- Free the block at `target`: release it and merge free neighbours. -/
def freeAt (hdr target : Nat) (bs : List Block) : List Block :=
  coalesce hdr (release hdr target 0 bs)

variable {hdr : Nat}

@[simp] theorem extent_release (target off : Nat) (bs : List Block) :
    extent hdr (release hdr target off bs) = extent hdr bs := by
  induction bs generalizing off with
  | nil => rfl
  | cons b bs ih =>
    simp only [release, extent_cons, ih]
    split <;> rfl

theorem release_comm (p q off : Nat) (bs : List Block) :
    release hdr p off (release hdr q off bs) = release hdr q off (release hdr p off bs) := by
  induction bs generalizing off with
  | nil => rfl
  | cons b bs ih =>
    have hspan : ∀ t : Nat, span hdr (if off = t then { b with free := true } else b) =
        span hdr b := by
      intro t
      split <;> rfl
    simp only [release, hspan, ih]
    split <;> split <;> rfl

/-- Releasing a target beyond a list leaves the list alone. -/
theorem release_of_ge (hHdr : 0 < hdr) {target off : Nat} {bs : List Block}
    (h : off + extent hdr bs ≤ target) : release hdr target off bs = bs := by
  induction bs generalizing off with
  | nil => rfl
  | cons b bs ih =>
    rw [extent_cons] at h
    have hne : off ≠ target := by
      unfold span at h
      omega
    simp only [release, if_neg hne]
    rw [ih (by omega)]

/-- Releasing a target in front of a list leaves the list alone. -/
theorem release_of_lt {target off : Nat} {bs : List Block} (h : target < off) :
    release hdr target off bs = bs := by
  induction bs generalizing off with
  | nil => rfl
  | cons b bs ih =>
    have hne : off ≠ target := by omega
    simp only [release, if_neg hne]
    rw [ih (by omega)]

theorem release_append (target off : Nat) (xs ys : List Block) :
    release hdr target off (xs ++ ys) =
      release hdr target off xs ++ release hdr target (off + extent hdr xs) ys := by
  induction xs generalizing off with
  | nil => simp [release]
  | cons b xs ih => simp [release, ih, Nat.add_assoc]

/-- Releasing hits exactly the block that starts at the target. -/
theorem release_at (hHdr : 0 < hdr) (pre post : List Block) (b : Block) :
    release hdr (extent hdr pre) 0 (pre ++ b :: post) =
      pre ++ { b with free := true } :: post := by
  have hspan : extent hdr pre < extent hdr pre + span hdr b := by
    unfold span
    omega
  rw [release_append, release_of_ge hHdr (by omega), Nat.zero_add, release, if_pos rfl,
    release_of_lt hspan]

theorem freeAt_eq (hHdr : 0 < hdr) (pre post : List Block) (b : Block) :
    freeAt hdr (extent hdr pre) (pre ++ b :: post) =
      coalesce hdr (pre ++ { b with free := true } :: post) := by
  rw [freeAt, release_at hHdr]

/-- Coalescing first does not change what freeing a block in use yields. -/
theorem coalesce_release_coalesce (hHdr : 0 < hdr) {bs : List Block} {o : Nat} {u : Block}
    (hmem : (o, u) ∈ place hdr 0 bs) (hu : u.free = false) :
    coalesce hdr (release hdr o 0 (coalesce hdr bs)) = coalesce hdr (release hdr o 0 bs) := by
  obtain ⟨pre, post, rfl, rfl⟩ := mem_place_iff.mp hmem
  have hpre : 0 + extent hdr pre = extent hdr (coalesce hdr pre) := by simp
  rw [coalesce_append_used hu, hpre, release_at hHdr, extent_coalesce, release_at hHdr,
    coalesce_coalesce_append, ← List.singleton_append, ← List.append_assoc,
    coalesce_append_coalesce]
  simp

/-- A block in use survives the release of another block. -/
theorem mem_place_release_used {target off o : Nat} {u : Block} {bs : List Block}
    (hu : u.free = false) :
    (o, u) ∈ place hdr off (release hdr target off bs) ↔
      (o, u) ∈ place hdr off bs ∧ o ≠ target := by
  induction bs generalizing off with
  | nil => simp [release]
  | cons b bs ih =>
    by_cases heq : off = target
    · subst heq
      have hne : (o, u) ≠ (off, { b with free := true }) := by
        intro h
        have := congrArg (fun p => p.2.free) h
        simp [hu] at this
      have hspan : span hdr { b with free := true } = span hdr b := rfl
      simp only [release, if_true, place_cons, List.mem_cons, hne, false_or, hspan, ih]
      constructor
      · rintro ⟨h, hoff⟩
        exact ⟨Or.inr h, hoff⟩
      · rintro ⟨h | h, hoff⟩
        · exact absurd (Prod.mk.inj h).1 hoff
        · exact ⟨h, hoff⟩
    · simp only [release, if_neg heq, place_cons, List.mem_cons, ih]
      constructor
      · rintro (h | ⟨h, hoff⟩)
        · exact ⟨Or.inl h, by rw [(Prod.mk.inj h).1]; exact heq⟩
        · exact ⟨Or.inr h, hoff⟩
      · rintro ⟨h | h, hoff⟩
        · exact Or.inl h
        · exact Or.inr ⟨h, hoff⟩

/-- The blocks in use after a free are the ones before it, less the freed one. -/
theorem mem_place_freeAt_used {target o : Nat} {u : Block} {bs : List Block}
    (hu : u.free = false) :
    (o, u) ∈ place hdr 0 (freeAt hdr target bs) ↔ (o, u) ∈ place hdr 0 bs ∧ o ≠ target := by
  rw [freeAt, mem_place_coalesce_used hu, mem_place_release_used hu]

/--
**Freeing commutes.** Freeing two distinct blocks in use yields the same list in
either order.
-/
theorem freeAt_comm (hHdr : 0 < hdr) {bs : List Block} {p q : Nat} {u v : Block}
    (hp : (p, u) ∈ place hdr 0 bs) (hu : u.free = false)
    (hq : (q, v) ∈ place hdr 0 bs) (hv : v.free = false) (hne : p ≠ q) :
    freeAt hdr q (freeAt hdr p bs) = freeAt hdr p (freeAt hdr q bs) := by
  have hq' : (q, v) ∈ place hdr 0 (release hdr p 0 bs) :=
    (mem_place_release_used hv).mpr ⟨hq, hne.symm⟩
  have hp' : (p, u) ∈ place hdr 0 (release hdr q 0 bs) :=
    (mem_place_release_used hu).mpr ⟨hp, hne⟩
  unfold freeAt
  rw [coalesce_release_coalesce hHdr hq' hv, coalesce_release_coalesce hHdr hp' hu,
    release_comm]

end Release

/-! ## First fit -/

section FirstFit

/-- The block can serve a request of `need` bytes. -/
def Fits (need : Nat) (b : Block) : Prop := b.free = true ∧ need ≤ b.size

instance (need : Nat) (b : Block) : Decidable (Fits need b) :=
  inferInstanceAs (Decidable (_ ∧ _))

/-- The block handed out for `need` bytes from the fitting block `b`: the front of
`b`, or all of it when the rest could not hold a header and `slack` bytes. -/
def granted (hdr slack need : Nat) (b : Block) : Block :=
  if need + hdr + slack ≤ b.size then { size := need, free := false }
  else { size := b.size, free := false }

/-- What `b` is replaced by when `need` bytes are taken from it. -/
def carve (hdr slack need : Nat) (b : Block) : List Block :=
  if need + hdr + slack ≤ b.size then
    [{ size := need, free := false }, { size := b.size - need - hdr, free := true }]
  else [{ size := b.size, free := false }]

/-- Serve a request from the first block that fits: the offset of that block and
the new list. -/
def firstFit (hdr slack need : Nat) : Nat → List Block → Option (Nat × List Block)
  | _, [] => none
  | off, b :: bs =>
    if Fits need b then some (off, carve hdr slack need b ++ bs)
    else (firstFit hdr slack need (off + span hdr b) bs).map fun r => (r.1, b :: r.2)

variable {hdr slack need : Nat}

variable (hdr slack need) in
theorem carve_eq_granted_cons (b : Block) :
    ∃ rest, carve hdr slack need b = granted hdr slack need b :: rest ∧
      (rest = [] ∧ (granted hdr slack need b).size = b.size ∨
        ∃ r, rest = [{ size := r, free := true }] ∧
          (granted hdr slack need b).size + hdr + r = b.size) := by
  unfold carve granted
  split
  · exact ⟨_, rfl, Or.inr ⟨_, rfl, by simp only; omega⟩⟩
  · exact ⟨[], rfl, Or.inl ⟨rfl, rfl⟩⟩

variable (hdr slack need) in
@[simp] theorem granted_free (b : Block) : (granted hdr slack need b).free = false := by
  unfold granted
  split <;> rfl

theorem need_le_granted {b : Block} (h : Fits need b) :
    need ≤ (granted hdr slack need b).size := by
  unfold granted
  split
  · exact Nat.le_refl need
  · exact h.2

theorem extent_carve (b : Block) : extent hdr (carve hdr slack need b) = span hdr b := by
  obtain ⟨rest, hcarve, ⟨rfl, hsize⟩ | ⟨r, rfl, hsize⟩⟩ :=
    carve_eq_granted_cons hdr slack need b
  · simp only [hcarve, extent_cons, extent_nil, span, hsize, Nat.add_zero]
  · simp only [hcarve, extent_cons, extent_nil, span]
    omega

/-- First fit skips the blocks that do not fit and carves the first that does. -/
theorem firstFit_append {pre post : List Block} {b : Block} {off : Nat}
    (hpre : ∀ c ∈ pre, ¬ Fits need c) (hb : Fits need b) :
    firstFit hdr slack need off (pre ++ b :: post) =
      some (off + extent hdr pre, pre ++ carve hdr slack need b ++ post) := by
  induction pre generalizing off with
  | nil => simp [firstFit, hb]
  | cons c pre ih =>
    have hc : ¬ Fits need c := hpre c (List.mem_cons_self ..)
    rw [List.cons_append, firstFit, if_neg hc,
      ih fun d hd => hpre d (List.mem_cons_of_mem _ hd)]
    simp [Nat.add_assoc]

variable (hdr slack) in
theorem firstFit_eq_none_iff (off : Nat) {bs : List Block} :
    firstFit hdr slack need off bs = none ↔ ∀ b ∈ bs, ¬ Fits need b := by
  induction bs generalizing off with
  | nil => simp [firstFit]
  | cons b bs ih =>
    by_cases hb : Fits need b
    · simp [firstFit, hb]
    · simp [firstFit, hb, ih]

/-- A block list either has no fitting block or splits at the first one. -/
theorem exists_first_fit (need : Nat) (bs : List Block) :
    (∀ b ∈ bs, ¬ Fits need b) ∨
      ∃ pre b post, bs = pre ++ b :: post ∧ (∀ c ∈ pre, ¬ Fits need c) ∧ Fits need b := by
  induction bs with
  | nil => simp
  | cons b bs ih =>
    by_cases hb : Fits need b
    · exact Or.inr ⟨[], b, bs, rfl, by simp, hb⟩
    · rcases ih with hnone | ⟨pre, c, post, rfl, hpre, hc⟩
      · exact Or.inl (by simpa [hb] using hnone)
      · exact Or.inr ⟨b :: pre, c, post, rfl, by simpa [hb] using hpre, hc⟩

/-- What a served request says about the list it was served from. -/
theorem firstFit_eq_some {off o : Nat} {bs bs' : List Block}
    (h : firstFit hdr slack need off bs = some (o, bs')) :
    ∃ pre b post, bs = pre ++ b :: post ∧ (∀ c ∈ pre, ¬ Fits need c) ∧ Fits need b ∧
      o = off + extent hdr pre ∧ bs' = pre ++ carve hdr slack need b ++ post := by
  rcases exists_first_fit need bs with hnone | ⟨pre, b, post, rfl, hpre, hb⟩
  · rw [(firstFit_eq_none_iff _ _ _).mpr hnone] at h
    simp at h
  · rw [firstFit_append hpre hb] at h
    simp only [Option.some.injEq, Prod.mk.injEq] at h
    exact ⟨pre, b, post, rfl, hpre, hb, h.1.symm, h.2.symm⟩

/-- Carving a free block keeps free blocks apart. -/
theorem separated_carve {pre post : List Block} {b : Block} (hb : b.free = true)
    (h : Separated (pre ++ b :: post)) :
    Separated (pre ++ carve hdr slack need b ++ post) := by
  unfold Separated at h ⊢
  rw [List.isChain_split] at h
  obtain ⟨hpre, hpost⟩ := h
  have hgrant : ∀ c : Block, ¬ (c.free = true ∧ (granted hdr slack need b).free = true) := by
    simp
  -- `pre` may be followed by the granted block, which is in use
  have hpre' : List.IsChain (fun a b => ¬ (a.free = true ∧ b.free = true))
      (pre ++ [granted hdr slack need b]) := by
    rw [List.isChain_append] at hpre ⊢
    refine ⟨hpre.1, List.isChain_singleton _, ?_⟩
    intro x _ y hy
    simp only [List.head?_cons, Option.mem_def, Option.some.injEq] at hy
    rw [← hy]
    exact hgrant x
  obtain ⟨rest, hcarve, ⟨rfl, -⟩ | ⟨r, rfl, -⟩⟩ :=
    carve_eq_granted_cons hdr slack need b
  · rw [hcarve, List.append_assoc, List.singleton_append, List.isChain_split]
    refine ⟨hpre', List.IsChain.imp_head ?_ hpost⟩
    intro z _ hz
    simp at hz
  · rw [hcarve, List.append_assoc, List.cons_append, List.singleton_append, List.isChain_split]
    refine ⟨hpre', List.isChain_cons_cons.mpr ⟨by simp, List.IsChain.imp_head ?_ hpost⟩⟩
    intro z hz hmerged
    exact hz ⟨hb, hmerged.2⟩

/-- The blocks in use after an allocation: the old ones and the granted one. -/
theorem mem_place_carve_used {pre post : List Block} {b u : Block} {o : Nat}
    (hb : b.free = true) (hu : u.free = false) :
    (o, u) ∈ place hdr 0 (pre ++ carve hdr slack need b ++ post) ↔
      (o, u) ∈ place hdr 0 (pre ++ b :: post) ∨
        (o = extent hdr pre ∧ u = granted hdr slack need b) := by
  have hnotb : ∀ x : Nat, (o, u) ≠ (x, b) := by
    intro x h
    have := congrArg (fun p => p.2.free) h
    simp [hu, hb] at this
  have hnotr : ∀ x r : Nat, (o, u) ≠ (x, { size := r, free := true }) := by
    intro x r h
    have := congrArg (fun p => p.2.free) h
    simp [hu] at this
  rw [place_append, place_append, place_append, extent_append, extent_carve, place_cons]
  obtain ⟨rest, hcarve, ⟨rfl, -⟩ | ⟨r, rfl, -⟩⟩ :=
    carve_eq_granted_cons hdr slack need b
  · simp only [hcarve, place_cons, place_nil, List.mem_append, List.mem_cons, hnotb,
      List.not_mem_nil, Prod.mk.injEq, Nat.zero_add]
    tauto
  · simp only [hcarve, place_cons, place_nil, List.mem_append, List.mem_cons, hnotb, hnotr,
      List.not_mem_nil, Prod.mk.injEq, Nat.zero_add]
    tauto

/--
**Freeing undoes allocating.** Freeing the block that first fit just granted from
a separated list gives the list back.
-/
theorem freeAt_carve (hHdr : 0 < hdr) {pre post : List Block} {b : Block}
    (hb : b.free = true) (hSep : Separated (pre ++ b :: post)) :
    freeAt hdr (extent hdr pre) (pre ++ carve hdr slack need b ++ post) =
      pre ++ b :: post := by
  obtain ⟨rest, hcarve, hrest⟩ := carve_eq_granted_cons hdr slack need b
  rw [hcarve, List.append_assoc, List.cons_append, freeAt_eq hHdr]
  rcases hrest with ⟨rfl, hsize⟩ | ⟨r, rfl, hsize⟩
  · have hb' : ({ granted hdr slack need b with free := true } : Block) = b := by
      show Block.mk (granted hdr slack need b).size true = b
      rw [hsize, ← hb]
    rw [List.nil_append, hb', coalesce_of_separated hSep]
  · have hb' : ({ size := (granted hdr slack need b).size + hdr + r, free := true } : Block) = b := by
      rw [hsize, ← hb]
    have hmerge := @coalesce_merge hdr pre post { granted hdr slack need b with free := true }
      { size := r, free := true } rfl rfl
    simp only [hb'] at hmerge
    rw [List.singleton_append, ← hmerge, coalesce_of_separated hSep]

end FirstFit

/-! ## Granularity

A number that divides the headers, the requests and the sizes of all blocks divides the sizes of
all blocks ever after. -/

section Granularity

variable {d hdr : Nat}

theorem dvd_size_push (hHdr : d ∣ hdr) {b : Block} {bs : List Block} (hb : d ∣ b.size)
    (h : ∀ c ∈ bs, d ∣ c.size) : ∀ c ∈ push hdr b bs, d ∣ c.size := by
  cases bs with
  | nil => simpa [push] using hb
  | cons c bs =>
    rw [List.forall_mem_cons] at h
    rw [push_cons]
    split
    · exact List.forall_mem_cons.mpr ⟨Nat.dvd_add (Nat.dvd_add hb hHdr) h.1, h.2⟩
    · exact List.forall_mem_cons.mpr ⟨hb, List.forall_mem_cons.mpr h⟩

theorem dvd_size_coalesce (hHdr : d ∣ hdr) {bs : List Block} (h : ∀ b ∈ bs, d ∣ b.size) :
    ∀ c ∈ coalesce hdr bs, d ∣ c.size := by
  induction bs with
  | nil => exact h
  | cons b bs ih =>
    rw [List.forall_mem_cons] at h
    exact dvd_size_push hHdr h.1 (ih h.2)

theorem dvd_size_release {target off : Nat} {bs : List Block} (h : ∀ b ∈ bs, d ∣ b.size) :
    ∀ c ∈ release hdr target off bs, d ∣ c.size := by
  induction bs generalizing off with
  | nil => exact h
  | cons b bs ih =>
    rw [List.forall_mem_cons] at h
    refine List.forall_mem_cons.mpr ⟨?_, ih h.2⟩
    split <;> exact h.1

theorem dvd_size_freeAt (hHdr : d ∣ hdr) {target : Nat} {bs : List Block} (h : ∀ b ∈ bs, d ∣ b.size) :
    ∀ c ∈ freeAt hdr target bs, d ∣ c.size :=
  dvd_size_coalesce hHdr (dvd_size_release h)

theorem dvd_size_carve (hHdr : d ∣ hdr) {slack need : Nat} (hNeed : d ∣ need) {b : Block}
    (hb : d ∣ b.size) : ∀ c ∈ carve hdr slack need b, d ∣ c.size := by
  rw [carve]
  split
  · have hRest : d ∣ b.size - need - hdr := Nat.dvd_sub (Nat.dvd_sub hb hNeed) hHdr
    simp [hNeed, hRest]
  · simpa using hb

end Granularity

/-! ## Accounting -/

section Accounting

variable (hdr : Nat)

/-- Bytes that are not available: every header, and the blocks in use. -/
def footprint (bs : List Block) : Nat :=
  (bs.map fun b => hdr + if b.free then 0 else b.size).sum

/-- Bytes available in free blocks. -/
def freeBytes (bs : List Block) : Nat := (bs.map fun b => if b.free then b.size else 0).sum

variable {hdr}

@[simp] theorem footprint_append (xs ys : List Block) :
    footprint hdr (xs ++ ys) = footprint hdr xs + footprint hdr ys := by
  simp [footprint]

@[simp] theorem footprint_cons (b : Block) (bs : List Block) :
    footprint hdr (b :: bs) = (hdr + if b.free then 0 else b.size) + footprint hdr bs := by
  simp [footprint]

@[simp] theorem footprint_nil : footprint hdr [] = 0 := rfl

@[simp] theorem freeBytes_cons (b : Block) (bs : List Block) :
    freeBytes (b :: bs) = (if b.free then b.size else 0) + freeBytes bs := by
  simp [freeBytes]

theorem footprint_add_freeBytes (bs : List Block) :
    footprint hdr bs + freeBytes bs = extent hdr bs := by
  induction bs with
  | nil => rfl
  | cons b bs ih =>
    simp only [footprint_cons, freeBytes_cons, extent_cons, span]
    split <;> omega

variable (hdr) in
/-- Coalescing gives back exactly the headers it removes. -/
theorem footprint_coalesce (bs : List Block) :
    footprint hdr (coalesce hdr bs) + hdr * (bs.length - (coalesce hdr bs).length) =
      footprint hdr bs := by
  induction bs with
  | nil => rfl
  | cons b bs ih =>
    have hle := length_coalesce_le hdr bs
    rw [coalesce_cons, footprint_cons, ← ih]
    cases hbs : coalesce hdr bs with
    | nil => simp [push, Nat.add_assoc]
    | cons c cs =>
      rw [hbs] at hle
      rw [push_cons]
      split
      · rename_i hfree
        have hlen : (b :: bs).length - (cs.length + 1) = (bs.length - (cs.length + 1)) + 1 := by
          simp only [List.length_cons] at hle ⊢
          omega
        simp only [footprint_cons, hfree.1, hfree.2, if_true, List.length_cons] at hlen ⊢
        rw [hlen, Nat.mul_add]
        omega
      · simp only [footprint_cons, List.length_cons, Nat.add_sub_add_right]
        omega

variable (hdr) in
theorem footprint_carve_ge (slack need : Nat) {b : Block} (hb : b.free = true) :
    footprint hdr [b] ≤ footprint hdr (carve hdr slack need b) := by
  obtain ⟨rest, hcarve, -⟩ := carve_eq_granted_cons hdr slack need b
  simp only [hcarve, footprint_cons, footprint_nil, hb, if_true]
  omega

end Accounting

end BlockList

end SysLib
