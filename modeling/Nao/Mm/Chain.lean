import Nao.Mm.Definitions
import Nao.Mm.Arena

/-!
# The block chain as a block list

The abstraction from heap bytes to the block lists of `SysLib.BlockList`.
`Holds m a b nx` says that the header at address `a` describes block `b` with
link `nx`; `Linked` strings such headers together; `Represents K m bs` says that
the headers chained from `heap_start` are exactly the tiling `bs` of the heap.

A header reads only its own twelve bytes, so representation survives any change
outside the headers (`Linked.congr`), and the walks of `kmalloc` and
`get_used_memory` along the chain are recursions on the block list
(`search_none`, `search_found`, `used_walk`).
-/

namespace Nao.Mm

open SysLib SysLib.BlockList

/-! ## Header fields -/

theorem setSize_of_disjoint (m : Mem) {h x : Nat} (v : Nat) (hx : x < h ∨ h + 4 ≤ x) :
    setSize m h v x = m x :=
  Mem.write32_of_disjoint m v hx

theorem setIsFree_of_ne (m : Mem) {h x : Nat} (v : UInt8) (hx : x ≠ h + 4) :
    setIsFree m h v x = m x :=
  Mem.write8_of_ne m v hx

theorem setNext_of_disjoint (m : Mem) {h x : Nat} (v : Nat) (hx : x < h + 8 ∨ h + 12 ≤ x) :
    setNext m h v x = m x :=
  Mem.write32_of_disjoint m v hx

@[simp] theorem sizeAt_setSize (m : Mem) (h v : Nat) :
    sizeAt (setSize m h v) h = v % 2 ^ 32 :=
  Mem.read32_write32 m h v

@[simp] theorem isFreeAt_setIsFree (m : Mem) (h : Nat) (v : UInt8) :
    isFreeAt (setIsFree m h v) h = v :=
  Mem.write8_same m (h + 4) v

@[simp] theorem nextAt_setNext (m : Mem) (h v : Nat) :
    nextAt (setNext m h v) h = v % 2 ^ 32 :=
  Mem.read32_write32 m (h + 8) v

theorem sizeAt_congr {m m' : Mem} {h : Nat} (hx : ∀ x, h ≤ x → x < h + 4 → m' x = m x) :
    sizeAt m' h = sizeAt m h :=
  Mem.read32_congr hx

theorem nextAt_congr {m m' : Mem} {h : Nat} (hx : ∀ x, h + 8 ≤ x → x < h + 12 → m' x = m x) :
    nextAt m' h = nextAt m h :=
  Mem.read32_congr hx

@[simp] theorem sizeAt_setIsFree (m : Mem) (h : Nat) (v : UInt8) :
    sizeAt (setIsFree m h v) h = sizeAt m h :=
  sizeAt_congr fun _ _ _ => setIsFree_of_ne m v (by omega)

@[simp] theorem sizeAt_setNext (m : Mem) (h v : Nat) : sizeAt (setNext m h v) h = sizeAt m h :=
  sizeAt_congr fun _ _ _ => setNext_of_disjoint m v (by omega)

@[simp] theorem isFreeAt_setSize (m : Mem) (h v : Nat) :
    isFreeAt (setSize m h v) h = isFreeAt m h :=
  setSize_of_disjoint m v (by omega)

@[simp] theorem isFreeAt_setNext (m : Mem) (h v : Nat) :
    isFreeAt (setNext m h v) h = isFreeAt m h :=
  setNext_of_disjoint m v (by omega)

@[simp] theorem nextAt_setSize (m : Mem) (h v : Nat) : nextAt (setSize m h v) h = nextAt m h :=
  nextAt_congr fun _ _ _ => setSize_of_disjoint m v (by omega)

@[simp] theorem nextAt_setIsFree (m : Mem) (h : Nat) (v : UInt8) :
    nextAt (setIsFree m h v) h = nextAt m h :=
  nextAt_congr fun _ _ _ => setIsFree_of_ne m v (by omega)

theorem sizeAt_lt (m : Mem) (h : Nat) : sizeAt m h < 2 ^ 32 := Mem.read32_lt m h

theorem nextAt_lt (m : Mem) (h : Nat) : nextAt m h < 2 ^ 32 := Mem.read32_lt m (h + 8)

/-! ## Headers and blocks -/

/-- The value of `is_free` for a block. -/
def freeFlag (b : Block) : UInt8 := if b.free then 1 else 0

theorem freeFlag_ne_zero_iff {b : Block} : freeFlag b ≠ 0 ↔ b.free = true := by
  unfold freeFlag
  cases b.free <;> simp

/-- The header at `a` describes `b` and links to `nx`. -/
structure Holds (m : Mem) (a : Nat) (b : Block) (nx : Nat) : Prop where
  size   : sizeAt m a = b.size
  isFree : isFreeAt m a = freeFlag b
  next   : nextAt m a = nx

theorem Holds.congr {m m' : Mem} {a nx : Nat} {b : Block} (h : Holds m a b nx)
    (hx : ∀ x, a ≤ x → x < a + headerSize → m' x = m x) : Holds m' a b nx := by
  unfold headerSize at hx
  refine ⟨?_, ?_, ?_⟩
  · rw [sizeAt_congr fun x h1 h2 => hx x h1 (by omega), h.size]
  · rw [← h.isFree]
    exact hx (a + 4) (by omega) (by omega)
  · rw [nextAt_congr fun x h1 h2 => hx x (by omega) h2, h.next]

/-- The address in the `next` field of a block ending at `e` when `bs` follows it
and the list as a whole links to `last`. -/
def link (e : Nat) (bs : List Block) (last : Nat) : Nat :=
  match bs with
  | [] => last
  | _ :: _ => e

@[simp] theorem link_nil (e last : Nat) : link e [] last = last := rfl

@[simp] theorem link_cons (e : Nat) (b : Block) (bs : List Block) (last : Nat) :
    link e (b :: bs) last = e := rfl

/-- Headers of `bs` sit one behind the other from `a` on, each linking to the next
and the last one linking to `last`. -/
def Linked (m : Mem) : Nat → List Block → Nat → Prop
  | _, [], _ => True
  | a, b :: bs, last =>
    Holds m a b (link (a + span headerSize b) bs last) ∧
      Linked m (a + span headerSize b) bs last

theorem linked_append {m : Mem} {a last : Nat} {xs ys : List Block} :
    Linked m a (xs ++ ys) last ↔
      Linked m a xs (link (a + extent headerSize xs) ys last) ∧
        Linked m (a + extent headerSize xs) ys last := by
  induction xs generalizing a with
  | nil => simp [Linked]
  | cons b xs ih =>
    rw [List.cons_append, Linked, Linked, ih, extent_cons, Nat.add_assoc, and_assoc]
    cases xs with
    | nil => cases ys <;> simp
    | cons c xs => simp

/-- Representation looks at header bytes only. -/
theorem Linked.congr {m m' : Mem} {a last : Nat} {bs : List Block} (h : Linked m a bs last)
    (hx : ∀ o b, (o, b) ∈ place headerSize a bs → ∀ x, o ≤ x → x < o + headerSize → m' x = m x) :
    Linked m' a bs last := by
  induction bs generalizing a with
  | nil => trivial
  | cons b bs ih =>
    refine ⟨h.1.congr (hx a b (by simp)), ih h.2 fun o c hmem => ?_⟩
    exact hx o c (List.mem_cons_of_mem _ hmem)

/-- The special case of a change confined to `[lo, hi)`, disjoint from the list. -/
theorem Linked.congr_outside {m m' : Mem} {a last lo hi : Nat} {bs : List Block}
    (h : Linked m a bs last) (hDisj : a + extent headerSize bs ≤ lo ∨ hi ≤ a)
    (hx : ∀ x, x < lo ∨ hi ≤ x → m' x = m x) : Linked m' a bs last := by
  refine h.congr fun o b hmem x h1 h2 => hx x ?_
  have := place_bounds hmem
  unfold span at this
  omega

/-- The bytes of the heap tile into `bs`. -/
structure Represents (K : Site) (m : Mem) (bs : List Block) : Prop where
  linked : Linked m K.heapStart bs 0
  extent : extent headerSize bs = heapSize

theorem Represents.ne_nil {K : Site} {m : Mem} {bs : List Block} (h : Represents K m bs) :
    bs ≠ [] := by
  rintro rfl
  have := h.extent
  simp [heapSize] at this

/-- Every block of a represented list is short of the heap and ends inside it. -/
theorem Represents.bounds {K : Site} {m : Mem} {pre post : List Block} {b : Block}
    (h : Represents K m (pre ++ b :: post)) :
    BlockList.extent headerSize pre + headerSize + b.size +
      BlockList.extent headerSize post = heapSize := by
  have := h.extent
  rw [extent_append, extent_cons, span] at this
  omega

theorem Represents.holds {K : Site} {m : Mem} {pre post : List Block} {b : Block}
    (h : Represents K m (pre ++ b :: post)) :
    Holds m (K.heapStart + BlockList.extent headerSize pre) b
      (link (K.heapStart + BlockList.extent headerSize pre + span headerSize b) post 0) :=
  (linked_append.mp h.linked).2.1

/-- A list is represented when its three parts are. -/
theorem represents_of_parts {K : Site} {m : Mem} {pre mid post : List Block}
    (hmid : mid ≠ [])
    (hpre : Linked m K.heapStart pre (K.heapStart + BlockList.extent headerSize pre))
    (hm : Linked m (K.heapStart + BlockList.extent headerSize pre) mid
      (link (K.heapStart + BlockList.extent headerSize (pre ++ mid)) post 0))
    (hpost : Linked m (K.heapStart + BlockList.extent headerSize (pre ++ mid)) post 0)
    (hExt : BlockList.extent headerSize (pre ++ mid ++ post) = heapSize) :
    Represents K m (pre ++ mid ++ post) := by
  refine ⟨linked_append.mpr ⟨linked_append.mpr ⟨?_, ?_⟩, hpost⟩, hExt⟩
  · obtain ⟨b, mid', rfl⟩ := List.exists_cons_of_ne_nil hmid
    simpa using hpre
  · exact hm

/-! ## The chain of headers -/

/-- The headers a represented list shows to someone following `next`. -/
def headersOf (a : Nat) : List Block → List Header
  | [] => []
  | b :: bs =>
    { addr := a, size := b.size, isFree := freeFlag b,
      next := link (a + span headerSize b) bs 0 } :: headersOf (a + span headerSize b) bs

theorem chainFrom_of_linked {m : Mem} {a : Nat} {bs : List Block} (ha : 0 < a)
    (h : Linked m a bs 0) : ChainFrom m (link a bs 0) (headersOf a bs) := by
  induction bs generalizing a with
  | nil => exact .null
  | cons b bs ih =>
    have hHead : headerAt m a = { addr := a, size := b.size, isFree := freeFlag b, next := link (a + span headerSize b) bs 0 } := by
      rw [headerAt, h.1.size, h.1.isFree, h.1.next]
    rw [link_cons, headersOf, ← hHead]
    refine .cons (by omega) ?_
    rw [h.1.next]
    exact ih (by omega) h.2

theorem Represents.chainFrom {K : Site} {m : Mem} {bs : List Block} (h : Represents K m bs) :
    ChainFrom m K.heapStart (headersOf K.heapStart bs) := by
  have hChain := chainFrom_of_linked K.pos h.linked
  obtain ⟨b, bs', rfl⟩ := List.exists_cons_of_ne_nil h.ne_nil
  exact hChain

/-- A memory has one chain from each address. -/
theorem ChainFrom.unique {m : Mem} {a : Nat} {hs hs' : List Header} (h : ChainFrom m a hs)
    (h' : ChainFrom m a hs') : hs = hs' := by
  induction h generalizing hs' with
  | null =>
    cases h' with
    | null => rfl
    | cons hh _ => exact absurd rfl hh
  | cons hh _ ih =>
    cases h' with
    | null => exact absurd rfl hh
    | cons _ hRest => rw [ih hRest]

/-! ## Walks along the chain -/

/-- The search runs off the end of a chain in which nothing fits. -/
theorem search_none {m : Mem} {a needed : Nat} {bs : List Block} (ha : 0 < a)
    (h : Linked m a bs 0) (hNone : ∀ b ∈ bs, ¬ Fits needed b) :
    loop (searchBody m needed) (bs.length + 1) (link a bs 0) = some none := by
  induction bs generalizing a with
  | nil => rfl
  | cons b bs ih =>
    have hb : ¬ Fits needed b := hNone b (List.mem_cons_self ..)
    have hTurn : searchBody m needed a = .again (link (a + span headerSize b) bs 0) := by
      have hSkip : ¬ (isFreeAt m a ≠ 0 ∧ needed ≤ sizeAt m a) := by
        rw [h.1.isFree, h.1.size, freeFlag_ne_zero_iff]
        exact hb
      rw [searchBody, if_neg (by omega), if_neg hSkip, h.1.next]
    rw [link_cons, List.length_cons, loop_again hTurn]
    exact ih (by omega) h.2 fun c hc => hNone c (List.mem_cons_of_mem _ hc)

/-- The search stops at the first block that fits. -/
theorem search_found {m : Mem} {a needed : Nat} {pre post : List Block} {b : Block}
    (ha : 0 < a) (h : Linked m a (pre ++ b :: post) 0)
    (hpre : ∀ c ∈ pre, ¬ Fits needed c) (hb : Fits needed b) :
    loop (searchBody m needed) (pre.length + 1) a =
      some (some (a + extent headerSize pre)) := by
  induction pre generalizing a with
  | nil =>
    have hTurn : searchBody m needed a = .exit (some a) := by
      have hStop : isFreeAt m a ≠ 0 ∧ needed ≤ sizeAt m a := by
        rw [h.1.isFree, h.1.size, freeFlag_ne_zero_iff]
        exact hb
      rw [searchBody, if_neg (by omega), if_pos hStop]
    rw [loop_exit hTurn]
    simp
  | cons c pre ih =>
    have hc : ¬ Fits needed c := hpre c (List.mem_cons_self ..)
    have hTurn : searchBody m needed a = .again (a + span headerSize c) := by
      have hSkip : ¬ (isFreeAt m a ≠ 0 ∧ needed ≤ sizeAt m a) := by
        rw [h.1.isFree, h.1.size, freeFlag_ne_zero_iff]
        exact hc
      rw [searchBody, if_neg (by omega), if_neg hSkip, h.1.next]
      cases pre <;> rfl
    rw [List.length_cons, loop_again hTurn,
      ih (by omega) h.2 fun d hd => hpre d (List.mem_cons_of_mem _ hd)]
    simp [Nat.add_assoc]

/-- The walk of `get_used_memory` adds up the footprint, as long as it fits. -/
theorem used_walk {m : Mem} {a : Nat} (used : Nat) {bs : List Block} (ha : 0 < a)
    (h : Linked m a bs 0) (hFit : used + footprint headerSize bs < 2 ^ 32) :
    loop (usedBody m) (bs.length + 1) (link a bs 0, used) =
      some (used + footprint headerSize bs) := by
  induction bs generalizing a used with
  | nil => rfl
  | cons b bs ih =>
    rw [footprint_cons] at hFit ⊢
    have hTurn : usedBody m (a, used) = .again (link (a + span headerSize b) bs 0,
        used + (headerSize + if b.free then 0 else b.size)) := by
      rw [usedBody, if_neg (by omega)]
      simp only [h.1.next, h.1.isFree, h.1.size]
      cases hb : b.free with
      | true =>
        have hFlag : freeFlag b ≠ 0 := freeFlag_ne_zero_iff.mpr hb
        rw [hb] at hFit
        simp only [if_true] at hFit
        rw [if_neg hFlag, Nat.mod_eq_of_lt (by omega)]
        simp
      | false =>
        have hFlag : freeFlag b = 0 := by simp [freeFlag, hb]
        rw [hb] at hFit
        simp only [Bool.false_eq_true, if_false] at hFit ⊢
        rw [if_pos hFlag, Nat.mod_eq_of_lt (a := used + headerSize) (by omega),
          Nat.mod_eq_of_lt (by omega), Nat.add_assoc]
    rw [link_cons, List.length_cons, loop_again hTurn, ih _ (by omega) h.2 (by omega), Nat.add_assoc]

end Nao.Mm
