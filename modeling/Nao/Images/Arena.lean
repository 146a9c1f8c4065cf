import Nao.Images.Definitions
import Nao.Lib.History
import Nao.Lib.Mem
import Mathlib.Data.List.Induction

/-!
# The arena of stb_image

`stbi_malloc_arena` and `stbi_realloc_sized_arena` of `kernel.c` over the contents of
`stb_arena`. A pointer is an offset into the arena, `NULL` is `none`. Between two calls the
decoder may write what it likes to the arena.

Both the rounding of a size to a multiple of 4 and the test for room are 32-bit sums. As long
as neither wraps around (`NoWrap`) the allocator is a bump allocator: every range handed out
lies behind all earlier ones (`Inv`). A request that wraps is granted, and does not lie in the
arena at all; so `decode_arena_safe` is an equivalence.
-/

namespace Nao.Images

open SysLib

-- ---------------------------------------------------------------------------
-- The allocator
-- ---------------------------------------------------------------------------

/-- `stb_arena` and the variables of image loading. -/
structure Arena where
  bytes : Mem
  stb   : Stb

/-- `stbi_malloc_arena(size)` with the pointer it returns. -/
def Arena.malloc (size : Nat) (a : Arena) : Option Nat × Arena :=
  match stbiMallocArena size a.stb with
  | (false, g) => (none, { a with stb := g })
  | (true, g) => (some a.stb.arenaOffset, { a with stb := g })

/-- Without a wrap, the request is granted if it fits behind the offset. -/
theorem Arena.malloc_of_noWrap {size : Nat} {a : Arena}
    (h : a.stb.arenaOffset + (size + 3) / 4 * 4 < 2 ^ 32) :
    (a.stb.arenaOffset + (size + 3) / 4 * 4 ≤ arenaSize ∧
        a.malloc size = (some a.stb.arenaOffset,
          { a with stb := { a.stb with arenaOffset := a.stb.arenaOffset + (size + 3) / 4 * 4 } })) ∨
      a.malloc size = (none, a) := by
  have hRound : (size + 3) % 2 ^ 32 = size + 3 := Nat.mod_eq_of_lt (by omega)
  simp only [malloc, stbiMallocArena, hRound, Nat.mod_eq_of_lt h]
  by_cases hFull : a.stb.arenaOffset + (size + 3) / 4 * 4 > arenaSize
  · rw [if_pos hFull]
    exact .inr rfl
  · rw [if_neg hFull]
    exact .inl ⟨Nat.not_lt.mp hFull, rfl⟩

/-- A request that wraps is granted. -/
theorem Arena.malloc_of_wrap {size : Nat} {a : Arena} (hSize : size < 2 ^ 32)
    (hOffset : a.stb.arenaOffset ≤ arenaSize)
    (h : 2 ^ 32 ≤ a.stb.arenaOffset + (size + 3) / 4 * 4) :
    (a.malloc size).1 = some a.stb.arenaOffset := by
  -- either the rounded size is 0, or the sum ends below the offset
  have hRoom : ¬ (a.stb.arenaOffset + (size + 3) % 2 ^ 32 / 4 * 4) % 2 ^ 32 > arenaSize := by
    have : arenaSize = 4194304 := rfl
    omega
  simp only [malloc, stbiMallocArena, if_neg hRoom]

/-- `stbi_realloc_sized_arena(old_ptr, old_size, new_size)`. -/
def stbiReallocSizedArena (oldPtr : Option Nat) (oldSize newSize : Nat) (a : Arena) :
    Option Nat × Arena :=
  if newSize ≤ oldSize then (oldPtr, a)
  else
    match a.malloc newSize, oldPtr with
    | (none, a), _ => (none, a)
    | (some newPtr, a), none => (some newPtr, a)
    | (some newPtr, a), some old =>
      (some newPtr, { a with bytes := if oldSize > 0 then a.bytes.copy newPtr old oldSize else a.bytes })

-- ---------------------------------------------------------------------------
-- The arena in use
-- ---------------------------------------------------------------------------

/-- A pointer with the size it was asked for. -/
structure Range where
  start : Nat
  size  : Nat
  deriving DecidableEq

/-- What the decoder does with the arena. The range to be resized is an earlier result, or
`none` for `NULL` with the size 0. -/
inductive ArenaOp where
  | malloc (size : BitVec 32)
  | realloc (old : Option Range) (newSize : BitVec 32)
  | store (i : Nat) (v : UInt8)

namespace ArenaOp

/-- The pointer returned (`none` for a store) and the arena afterwards. -/
def call : ArenaOp → Arena → Option Nat × Arena
  | malloc size, a => a.malloc size.toNat
  | realloc none newSize, a => stbiReallocSizedArena none 0 newSize.toNat a
  | realloc (some old) newSize, a =>
    stbiReallocSizedArena (some old.start) old.size newSize.toNat a
  | store i v, a => (none, { a with bytes := a.bytes.write8 i v })

/-- The size of the result. -/
def size : ArenaOp → Nat
  | malloc size => size.toNat
  | realloc _ newSize => newSize.toNat
  | store .. => 0

/-- Does the call make a new allocation? -/
def fresh : ArenaOp → Bool
  | malloc _ => true
  | realloc none newSize => 0 < newSize.toNat
  | realloc (some old) newSize => old.size < newSize.toNat
  | store .. => false

theorem size_lt (op : ArenaOp) : op.size < 2 ^ 32 := by
  cases op with
  | malloc size => exact size.isLt
  | realloc old newSize => exact newSize.isLt
  | store i v => exact Nat.two_pow_pos 32

/-- A new allocation is a call of `stbi_malloc_arena`. -/
theorem call_of_fresh {op : ArenaOp} (h : op.fresh = true) (a : Arena) :
    (op.call a).1 = (a.malloc op.size).1 ∧ (op.call a).2.stb = (a.malloc op.size).2.stb := by
  have hGrown (oldPtr : Option Nat) {oldSize newSize : Nat} (hLt : oldSize < newSize) :
      (stbiReallocSizedArena oldPtr oldSize newSize a).1 = (a.malloc newSize).1 ∧
        (stbiReallocSizedArena oldPtr oldSize newSize a).2.stb = (a.malloc newSize).2.stb := by
    unfold stbiReallocSizedArena
    rw [if_neg (by omega)]
    rcases a.malloc newSize with ⟨_ | newPtr, a'⟩ <;> cases oldPtr <;> exact ⟨rfl, rfl⟩
  match op with
  | malloc size => exact ⟨rfl, rfl⟩
  | realloc none newSize => exact hGrown none (of_decide_eq_true h)
  | realloc (some old) newSize => exact hGrown (some old.start) (of_decide_eq_true h)
  | store i v => cases h

/-- Any other call leaves the offset alone, and what it returns is the beginning of the range it
was given. -/
theorem call_of_not_fresh {op : ArenaOp} (h : op.fresh = false) (a : Arena) :
    (op.call a).2.stb = a.stb ∧
      ∀ p, (op.call a).1 = some p →
        ∃ old newSize, op = .realloc (some old) newSize ∧ p = old.start ∧ op.size ≤ old.size := by
  have hShrunk (oldPtr : Option Nat) {oldSize newSize : Nat} (hLe : newSize ≤ oldSize) :
      stbiReallocSizedArena oldPtr oldSize newSize a = (oldPtr, a) := by
    unfold stbiReallocSizedArena
    rw [if_pos hLe]
  match op with
  | malloc size => cases h
  | realloc none newSize =>
    rw [call, hShrunk none (Nat.not_lt.mp (of_decide_eq_false h))]
    refine ⟨rfl, ?_⟩
    intro p hp
    cases hp
  | realloc (some old) newSize =>
    have hLe : newSize.toNat ≤ old.size := Nat.not_lt.mp (of_decide_eq_false h)
    rw [call, hShrunk (some old.start) hLe]
    refine ⟨rfl, ?_⟩
    intro p hp
    exact ⟨old, newSize, rfl, (Option.some.inj hp).symm, hLe⟩
  | store i v =>
    refine ⟨rfl, ?_⟩
    intro p hp
    cases hp

/-- A growing `realloc` copies the old range. -/
theorem bytes_of_grown {old : Range} {newSize : BitVec 32} (hLt : old.size < newSize.toNat)
    {a : Arena} {p : Nat} (hp : (a.malloc newSize.toNat).1 = some p) :
    ((realloc (some old) newSize).call a).2.bytes = a.bytes.copy p old.start old.size := by
  have hBytes : (a.malloc newSize.toNat).2.bytes = a.bytes := by
    rw [Arena.malloc]
    split <;> rfl
  show (stbiReallocSizedArena (some old.start) old.size newSize.toNat a).2.bytes = _
  unfold stbiReallocSizedArena
  rw [if_neg (by omega)]
  revert hp hBytes
  rcases a.malloc newSize.toNat with ⟨_ | newPtr, a'⟩
  · intro hp
    cases hp
  · intro hp hBytes
    cases hp
    show (if old.size > 0 then a'.bytes.copy p old.start old.size else a'.bytes) = _
    rw [hBytes]
    split
    · rfl
    · next hZero => rw [Nat.eq_zero_of_not_pos hZero, Mem.copy]

end ArenaOp

/-- The arena and the ranges returned so far, the latest first. -/
structure ArenaUse where
  arena  : Arena
  ranges : List Range

namespace ArenaUse

def offset (s : ArenaUse) : Nat := s.arena.stb.arenaOffset

/-- `stb_arena_offset = 0;` -/
def reset (bytes : Mem) (flip : Bool) : ArenaUse :=
  { arena := { bytes := bytes, stb := { flip := flip, arenaOffset := 0 } }, ranges := [] }

def step (s : ArenaUse) (op : ArenaOp) : ArenaUse :=
  { arena := (op.call s.arena).2
    ranges := ((op.call s.arena).1.map fun p => { start := p, size := op.size }).toList ++ s.ranges }

def run (s : ArenaUse) (ops : List ArenaOp) : ArenaUse := ops.foldl step s

theorem run_concat (s : ArenaUse) (ops : List ArenaOp) (op : ArenaOp) :
    s.run (ops ++ [op]) = (s.run ops).step op := by
  simp [run]

/-- Only ranges that have been returned are resized. -/
def Allowed (s : ArenaUse) : ArenaOp → Prop
  | .realloc (some old) _ => old ∈ s.ranges
  | _ => True

instance (s : ArenaUse) (op : ArenaOp) : Decidable (s.Allowed op) :=
  match op with
  | .realloc (some old) _ => inferInstanceAs (Decidable (old ∈ s.ranges))
  | .realloc none _ | .malloc _ | .store .. => inferInstanceAs (Decidable True)

/-- What a call must keep to. -/
structure Safe (s : ArenaUse) (op : ArenaOp) : Prop where
  covers  : ∀ p, op.fresh = true → (op.call s.arena).1 = some p →
    p + op.size ≤ arenaSize ∧ ∀ r ∈ s.ranges, r.start + r.size ≤ p ∨ p + op.size ≤ r.start
  bounded : (s.step op).offset ≤ arenaSize
  grows   : s.offset ≤ (s.step op).offset
  null    : (op.call s.arena).1 = none → (s.step op).offset = s.offset
  copies  : ∀ old newSize p, op = .realloc (some old) newSize → old.size < newSize.toNat →
    (op.call s.arena).1 = some p →
      (s.step op).arena.bytes.slice p old.size = s.arena.bytes.slice old.start old.size

/-- Neither the rounding of a new request nor its sum with the offset wraps around. -/
def NoWrap (s : ArenaUse) (op : ArenaOp) : Prop :=
  op.fresh = true → s.offset + (op.size + 3) / 4 * 4 < 2 ^ 32

/-- All ranges are below the offset, and the offset is inside the arena. -/
structure Inv (s : ArenaUse) : Prop where
  bounded : s.offset ≤ arenaSize
  below   : ∀ r ∈ s.ranges, r.start + r.size ≤ s.offset

theorem inv_reset (bytes : Mem) (flip : Bool) : Inv (reset bytes flip) where
  bounded := Nat.zero_le _
  below r hr := by cases hr

variable {s : ArenaUse} {op : ArenaOp}

theorem Inv.safe_of_fresh (h : Inv s) (hAllowed : s.Allowed op) (hFresh : op.fresh = true)
    (hNoWrap : s.NoWrap op) : s.Safe op ∧ Inv (s.step op) := by
  obtain ⟨hPtr, hStb⟩ := op.call_of_fresh hFresh s.arena
  have hOffset : (s.step op).offset = (s.arena.malloc op.size).2.stb.arenaOffset := congrArg _ hStb
  rcases Arena.malloc_of_noWrap (hNoWrap hFresh) with ⟨hRoom, hMalloc⟩ | hMalloc
  · rw [hMalloc] at hPtr hOffset
    have hEnd : s.offset + op.size ≤ (s.step op).offset := by
      rw [hOffset]
      show s.arena.stb.arenaOffset + _ ≤ s.arena.stb.arenaOffset + (op.size + 3) / 4 * 4
      omega
    have hBounded : (s.step op).offset ≤ arenaSize := hOffset ▸ hRoom
    refine ⟨⟨?_, hBounded, by omega, ?_, ?_⟩, hBounded, ?_⟩
    · intro p _ hp
      obtain rfl := Option.some.inj (hPtr.symm.trans hp)
      exact ⟨hEnd.trans hBounded, fun r hr => .inl (h.below r hr)⟩
    · intro hNull
      rw [hPtr] at hNull
      cases hNull
    · rintro old newSize p rfl hLt hp
      obtain rfl := Option.some.inj (hPtr.symm.trans hp)
      have hOld : old.start + old.size ≤ s.offset := h.below old hAllowed
      show Mem.slice ((ArenaOp.realloc (some old) newSize).call s.arena).2.bytes _ _ = _
      rw [ArenaOp.bytes_of_grown hLt (congrArg Prod.fst hMalloc)]
      exact Mem.slice_copy _ (.inl hOld)
    · intro r hr
      rw [step, hPtr] at hr
      rcases List.mem_cons.mp hr with rfl | hr
      · exact hEnd
      · exact (h.below r hr).trans (by omega)
  · rw [hMalloc] at hPtr hOffset
    have hSame : (s.step op).offset = s.offset := hOffset
    refine ⟨⟨?_, hSame ▸ h.bounded, hSame.ge, fun _ => hSame, ?_⟩, hSame ▸ h.bounded, ?_⟩
    · intro p _ hp
      rw [hPtr] at hp
      cases hp
    · intro old newSize p _ _ hp
      rw [hPtr] at hp
      cases hp
    · intro r hr
      rw [step, hPtr] at hr
      exact hSame ▸ h.below r hr

theorem Inv.safe_of_not_fresh (h : Inv s) (hAllowed : s.Allowed op) (hFresh : op.fresh = false) :
    s.Safe op ∧ Inv (s.step op) := by
  obtain ⟨hStb, hOld⟩ := op.call_of_not_fresh hFresh s.arena
  have hSame : (s.step op).offset = s.offset := congrArg Stb.arenaOffset hStb
  refine ⟨⟨?_, hSame ▸ h.bounded, hSame.ge, fun _ => hSame, ?_⟩, hSame ▸ h.bounded, ?_⟩
  · intro p hTrue
    rw [hFresh] at hTrue
    cases hTrue
  · rintro old newSize p rfl hLt _
    rw [ArenaOp.fresh, decide_eq_true hLt] at hFresh
    cases hFresh
  · intro r hr
    rw [hSame]
    rcases List.mem_append.mp hr with hr | hr
    · -- a range made smaller ends no later than before
      rw [Option.mem_toList, Option.map_eq_some_iff] at hr
      obtain ⟨p, hp, rfl⟩ := hr
      obtain ⟨old, newSize, rfl, rfl, hLe⟩ := hOld p hp
      have := h.below old hAllowed
      dsimp only
      omega
    · exact h.below r hr

/-- One call: it is safe exactly if nothing wraps around, and then the invariant is kept. -/
theorem Inv.step_iff (h : Inv s) (hAllowed : s.Allowed op) :
    (s.Safe op ↔ s.NoWrap op) ∧ (s.NoWrap op → Inv (s.step op)) := by
  cases hFresh : op.fresh with
  | false =>
    obtain ⟨hSafe, hInv⟩ := h.safe_of_not_fresh hAllowed hFresh
    refine ⟨iff_of_true hSafe ?_, fun _ => hInv⟩
    intro hTrue
    rw [hFresh] at hTrue
    cases hTrue
  | true =>
    refine ⟨⟨?_, fun hNoWrap => (h.safe_of_fresh hAllowed hFresh hNoWrap).1⟩,
      fun hNoWrap => (h.safe_of_fresh hAllowed hFresh hNoWrap).2⟩
    intro hSafe _
    by_contra hWrap
    rw [Nat.not_lt] at hWrap
    have hGranted := Arena.malloc_of_wrap op.size_lt h.bounded hWrap
    have hCovers := (hSafe.covers _ hFresh ((op.call_of_fresh hFresh s.arena).1.trans hGranted)).1
    have hArena : arenaSize = 4194304 := rfl
    have hBounded : s.arena.stb.arenaOffset ≤ arenaSize := h.bounded
    change 2 ^ 32 ≤ s.arena.stb.arenaOffset + _ at hWrap
    omega

end ArenaUse

-- ---------------------------------------------------------------------------
-- Whole runs
-- ---------------------------------------------------------------------------

open ArenaUse

/-- Every call of the run has the property in the state it is made in. -/
def AtEveryCall (start : ArenaUse) (P : ArenaUse → ArenaOp → Prop) : List ArenaOp → Prop :=
  Throughout fun pre op => P (start.run pre) op

instance (start : ArenaUse) (P : ArenaUse → ArenaOp → Prop) [∀ s op, Decidable (P s op)]
    (ops : List ArenaOp) : Decidable (AtEveryCall start P ops) :=
  inferInstanceAs (Decidable (Throughout _ ops))

theorem safe_iff_noWrap {start : ArenaUse} (hStart : Inv start) {ops : List ArenaOp}
    (hAllowed : AtEveryCall start Allowed ops) :
    (AtEveryCall start Safe ops ↔ AtEveryCall start NoWrap ops) ∧
      (AtEveryCall start NoWrap ops → Inv (start.run ops)) := by
  induction ops using List.reverseRecOn with
  | nil => exact ⟨iff_of_true throughout_nil throughout_nil, fun _ => hStart⟩
  | append_singleton ops op ih =>
    obtain ⟨hBefore, hOp⟩ := throughout_concat.mp hAllowed
    obtain ⟨hIff, hInv⟩ := ih hBefore
    rw [AtEveryCall, throughout_concat, AtEveryCall, throughout_concat, run_concat]
    constructor
    · constructor
      · rintro ⟨hSafe, hLast⟩
        have hNoWrap := hIff.mp hSafe
        exact ⟨hNoWrap, ((hInv hNoWrap).step_iff hOp).1.mp hLast⟩
      · rintro ⟨hNoWrap, hLast⟩
        exact ⟨hIff.mpr hNoWrap, ((hInv hNoWrap).step_iff hOp).1.mpr hLast⟩
    · rintro ⟨hNoWrap, hLast⟩
      exact ((hInv hNoWrap).step_iff hOp).2 hLast

/-- Requests that leave room for the offset below `2 ^ 32` do not wrap. -/
theorem noWrap_of_sizes {start : ArenaUse} (hStart : Inv start) {ops : List ArenaOp}
    (hAllowed : AtEveryCall start Allowed ops)
    (hSizes : ∀ op ∈ ops, op.size ≤ 2 ^ 32 - 4194308) : AtEveryCall start NoWrap ops := by
  induction ops using List.reverseRecOn with
  | nil => exact throughout_nil
  | append_singleton ops op ih =>
    have hBefore := (throughout_concat.mp hAllowed).1
    have hNoWrap := ih hBefore fun op hop => hSizes op (List.mem_append_left _ hop)
    refine throughout_concat.mpr ⟨hNoWrap, fun _ => ?_⟩
    have hSize := hSizes op (by simp)
    have hOffset : (start.run ops).offset ≤ 4194304 := ((safe_iff_noWrap hStart hBefore).2 hNoWrap).bounded
    omega

/--
**The arena of the decoder.** For every sequence of allocations, resizings of earlier results
and writes since the offset was reset: every new allocation lies inside the arena and apart
from all ranges returned before, the offset stays inside the arena, never decreases and is
unchanged by a `NULL` result, and a growing `realloc` returns the old bytes — if and only if
no request wraps around in its rounding or in its sum with the offset. Sizes of at most
`2 ^ 32 - 4194308` never do.
-/
theorem decode_arena_safe (bytes : Mem) (flip : Bool) {ops : List ArenaOp}
    (hAllowed : AtEveryCall (reset bytes flip) Allowed ops) :
    (AtEveryCall (reset bytes flip) Safe ops ↔ AtEveryCall (reset bytes flip) NoWrap ops) ∧
      ((∀ op ∈ ops, op.size ≤ 2 ^ 32 - 4194308) → AtEveryCall (reset bytes flip) Safe ops) := by
  have hIff := (safe_iff_noWrap (inv_reset bytes flip) hAllowed).1
  exact ⟨hIff, fun hSizes => hIff.mpr (noWrap_of_sizes (inv_reset bytes flip) hAllowed hSizes)⟩

/-- A buffer is allocated, written to and enlarged. -/
def demoOps : List ArenaOp := [.malloc 5, .store 2 7, .realloc (some ⟨0, 5⟩) 9]

theorem decode_arena_safe_demo : AtEveryCall (reset (fun _ => 0) false) Safe demoOps :=
  (@decode_arena_safe (fun _ => 0) false demoOps (by decide)).2 (by decide)

/-- After a small allocation, one of nearly 4 GiB: the sum wraps around to 0. -/
def wrappingOps : List ArenaOp := [.malloc 4, .malloc 0xFFFFFFFC, .malloc 4]

/-- The offset goes back from 4 to 0, and the third allocation is the first one again. A single
request for 4 GiB less one byte is rounded to 0 bytes and granted on any arena. -/
theorem decode_arena_wraps :
    AtEveryCall (reset (fun _ => 0) false) Allowed wrappingOps ∧
      ((reset (fun _ => 0) false).run (wrappingOps.take 1)).offset = 4 ∧
      ((reset (fun _ => 0) false).run (wrappingOps.take 2)).offset = 0 ∧
      ((reset (fun _ => 0) false).run wrappingOps).ranges = [⟨0, 4⟩, ⟨4, 0xFFFFFFFC⟩, ⟨0, 4⟩] ∧
      ((reset (fun _ => 0) false).run [.malloc 0xFFFFFFFF]).ranges = [⟨0, 0xFFFFFFFF⟩] := by
  decide

end Nao.Images
