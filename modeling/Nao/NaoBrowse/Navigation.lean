import Nao.NaoBrowse.Definitions
import Nao.Lib.History
import Nao.Lib.Machine

/-!
# NaoBrowse — going back and forward

The list of visited pages: `history`, `history_count`, `current_history_idx` and the page that
was fetched last. The user types URLs and clicks the three buttons in any order, and the
callbacks of the requests come in between; a click on a disabled button does nothing.

A run leaves a log of the entries written and read. `Inv` ties the list to it: the entries below
`history_count` are the last ones written.

* `history_indices_valid` — the indices stay in their ranges and an entry that is read is the
  last one written there.
* `back_returns` — Back undoes Go as long as the list has room. Go on a full list changes the
  page and not the list, so that from then on the two disagree.
-/

namespace Nao.NaoBrowse

open SysLib
open HttpClient (HttpcResult)

-- ---------------------------------------------------------------------------
-- The user and the callbacks
-- ---------------------------------------------------------------------------

inductive Action where
  | edit (url : List UInt8)
  | back (error : BitVec 8)
  | forward (error : BitVec 8)
  | go (error : BitVec 8)
  | body (p : Option Pbuf)
  | result (res : HttpcResult) (rxContentLen : BitVec 32) (err : BitVec 8)

/-- Accesses to the array `history`. -/
inductive Access where
  | stored (slot : Int) (url : List UInt8)
  | read (slot : Int) (url : List UInt8)
  deriving DecidableEq

/-- The part of the browser that navigation is about. -/
structure Trail where
  history : Int → List UInt8
  count   : Int
  idx     : Int
  url     : List UInt8

def Browser.trail (b : Browser) : Trail :=
  { history := b.history, count := b.historyCount, idx := b.currentHistoryIdx, url := b.currentUrl }

namespace Trail

/-- The entries that are left when those behind the current one are given up. -/
def kept (t : Trail) : Int := if t.idx < t.count - 1 then t.idx + 1 else t.count

/-- Where a new entry would be stored, if there is room for it. -/
def slot (t : Trail) : Option Int := if t.kept < historyDepth then some t.kept else none

/-- Go to a new page. -/
def visit (url : List UInt8) (t : Trail) : Trail :=
  if t.kept < historyDepth then
    { history := Function.update t.history t.kept url, count := t.kept + 1, idx := t.kept, url := url }
  else { t with count := t.kept, url := url }

/-- The page before does not matter. -/
theorem visit_of_url (url url' : List UInt8) (t : Trail) :
    { t with url := url' }.visit url = t.visit url :=
  rfl

@[simp] theorem url_visit (url : List UInt8) (t : Trail) : (t.visit url).url = url := by
  unfold visit
  split <;> rfl

/-- Go to the page of another entry. -/
def follow (move : Int) (t : Trail) : Trail :=
  { t with idx := t.idx + move, url := t.history (t.idx + move) }

end Trail

/-- One action, with the accesses it makes. -/
def act (b : Browser) : Action → Traced Access Browser
  | .edit url => pure { b with urlInput := url }
  | .back error =>
    { val := backButton error b
      trace := if b.currentHistoryIdx > 0 then
          [.read (b.currentHistoryIdx + -1) (b.history (b.currentHistoryIdx + -1))] else [] }
  | .forward error =>
    { val := forwardButton error b
      trace := if b.currentHistoryIdx < b.historyCount - 1 then
          [.read (b.currentHistoryIdx + 1) (b.history (b.currentHistoryIdx + 1))] else [] }
  | .go error =>
    { val := goButton error b
      trace := (b.trail.slot.map fun k => Access.stored k b.urlInput).toList }
  | .body p => pure (naobrowseHttpBodyCb p b)
  | .result res rxContentLen err => pure (naobrowseHttpResultCb res rxContentLen err b)

/-- The actions of a frame. -/
def Frame.actions (f : Frame) : List Action :=
  (f.back.map .back).toList ++ (f.forward.map .forward).toList ++ [.edit f.typed] ++
    (f.go.map .go).toList

/-- A frame of the window is a run of actions. -/
theorem renderNaobrowse_eq (f : Frame) (b : Browser) :
    renderNaobrowse f b = if b.isActive ∧ f.begun then (feed act b f.actions).val else b := by
  unfold renderNaobrowse Frame.actions
  cases f.back <;> cases f.forward <;> cases f.go <;> rfl

-- ---------------------------------------------------------------------------
-- What the functions do to the trail
-- ---------------------------------------------------------------------------

@[simp] theorem log_trail (msg : List UInt8) (b : Browser) : (naobrowseLog msg b).trail = b.trail := rfl

theorem saveUrl_trail (url : List UInt8) (b : Browser) :
    (saveUrl url b).trail = { b.trail.visit url with url := b.currentUrl } := by
  unfold saveUrl
  by_cases hLast : b.currentHistoryIdx < b.historyCount - 1
  · have hKept : b.trail.kept = b.currentHistoryIdx + 1 := if_pos hLast
    rw [Trail.visit, hKept]
    dsimp only [naobrowseLog]
    rw [if_pos hLast]
    split <;> rfl
  · have hKept : b.trail.kept = b.historyCount := if_neg hLast
    rw [Trail.visit, hKept]
    dsimp only [naobrowseLog]
    rw [if_neg hLast]
    split <;> rfl

theorem navigateTo_trail (url : List UInt8) (save : Bool) (error : BitVec 8) (b : Browser) :
    (naobrowseNavigateTo url save error b).trail =
      if save then b.trail.visit url else { b.trail with url := url } := by
  have hSave (b₁ : Browser) (hTrail : b₁.trail = { b.trail with url := url }) :
      (if save then saveUrl url b₁ else b₁).trail =
        if save then b.trail.visit url else { b.trail with url := url } := by
    cases save with
    | false => exact hTrail
    | true =>
      show (saveUrl url b₁).trail = b.trail.visit url
      have hUrl : b₁.currentUrl = (b.trail.visit url).url :=
        (congrArg Trail.url hTrail).trans (Trail.url_visit url _).symm
      rw [saveUrl_trail, hTrail, Trail.visit_of_url, hUrl]
  have hEnd (b : Browser) (text : Mem) :
      ({ b with isLoading := false, renderedText := text } : Browser).trail = b.trail := rfl
  unfold naobrowseNavigateTo
  dsimp only
  split
  · rw [hEnd, log_trail, log_trail, log_trail]
    exact hSave _ rfl
  · rw [log_trail, log_trail, log_trail]
    exact hSave _ rfl

theorem followHistory_trail (msg : String) (move : Int) (error : BitVec 8) (b : Browser) :
    (followHistory msg move error b).trail = b.trail.follow move := by
  unfold followHistory
  rw [navigateTo_trail]
  rfl

theorem backButton_trail {b : Browser} (hActive : 0 < b.currentHistoryIdx) (error : BitVec 8) :
    (backButton error b).trail = b.trail.follow (-1) := by
  rw [backButton, if_pos hActive, followHistory_trail]

theorem forwardButton_trail {b : Browser} (hActive : b.currentHistoryIdx < b.historyCount - 1)
    (error : BitVec 8) : (forwardButton error b).trail = b.trail.follow 1 := by
  rw [forwardButton, if_pos hActive, followHistory_trail]

theorem goButton_trail (error : BitVec 8) (b : Browser) :
    (goButton error b).trail = b.trail.visit b.urlInput := by
  unfold goButton
  rw [navigateTo_trail]
  rfl

theorem bodyCb_trail (p : Option Pbuf) (b : Browser) : (naobrowseHttpBodyCb p b).trail = b.trail := by
  unfold naobrowseHttpBodyCb
  split
  · rfl
  · dsimp only
    split <;> rfl

theorem resultCb_trail (res : HttpcResult) (rxContentLen : BitVec 32) (err : BitVec 8)
    (b : Browser) : (naobrowseHttpResultCb res rxContentLen err b).trail = b.trail := by
  unfold naobrowseHttpResultCb
  dsimp only
  split <;> rfl

-- ---------------------------------------------------------------------------
-- Steps
-- ---------------------------------------------------------------------------

def Action.isGo : Action → Bool
  | .go _ => true
  | _ => false

/-- What an action does to the trail; `go` says whether it is a click on Go, with `typed` in the
URL field. -/
inductive Move (typed : List UInt8) (t : Trail) : (go : Bool) → List Access → Trail → Prop where
  | stay : Move typed t false [] t
  | visit : Move typed t true (t.slot.map fun k => Access.stored k typed).toList (t.visit typed)
  | follow (move : Int) (h : move = -1 ∧ 0 < t.idx ∨ move = 1 ∧ t.idx < t.count - 1) :
      Move typed t false [.read (t.idx + move) (t.history (t.idx + move))] (t.follow move)

theorem act_move (b : Browser) (a : Action) :
    Move b.urlInput b.trail a.isGo (act b a).trace (act b a).val.trail := by
  cases a with
  | edit url => exact .stay
  | back error =>
    show Move _ _ _ (if b.currentHistoryIdx > 0 then _ else _) (backButton error b).trail
    by_cases hActive : b.currentHistoryIdx > 0
    · rw [if_pos hActive, backButton_trail hActive]
      exact .follow (-1) (.inl ⟨rfl, hActive⟩)
    · rw [if_neg hActive, backButton, if_neg hActive]
      exact .stay
  | forward error =>
    show Move _ _ _ (if b.currentHistoryIdx < b.historyCount - 1 then _ else _) (forwardButton error b).trail
    by_cases hActive : b.currentHistoryIdx < b.historyCount - 1
    · rw [if_pos hActive, forwardButton_trail hActive]
      exact .follow 1 (.inr ⟨rfl, hActive⟩)
    · rw [if_neg hActive, forwardButton, if_neg hActive]
      exact .stay
  | go error =>
    show Move _ _ _ _ (goButton error b).trail
    rw [goButton_trail]
    exact .visit
  | body p =>
    show Move _ _ _ [] (naobrowseHttpBodyCb p b).trail
    rw [bodyCb_trail]
    exact .stay
  | result res rxContentLen err =>
    show Move _ _ _ [] (naobrowseHttpResultCb res rxContentLen err b).trail
    rw [resultCb_trail]
    exact .stay

-- ---------------------------------------------------------------------------
-- The invariant
-- ---------------------------------------------------------------------------

/-- The URL, if this access stores one in entry `k`. -/
def Access.storedIn (k : Int) : Access → Option (List UInt8)
  | .stored slot url => if slot = k then some url else none
  | .read .. => none

/-- An entry that is read is the last one stored there. -/
def Access.Ok (pre : List Access) : Access → Prop
  | .stored .. => True
  | .read slot url => SysLib.latest (storedIn slot) pre = some url

structure Inv (log : List Access) (t : Trail) : Prop where
  count_le   : t.count ≤ historyDepth
  idx_ge     : -1 ≤ t.idx
  idx_lt     : t.idx < t.count
  idx_nonneg : 0 < t.count → 0 ≤ t.idx
  entries    : ∀ k, 0 ≤ k → k < t.count → SysLib.latest (Access.storedIn k) log = some (t.history k)
  shown      : 0 ≤ t.idx → t.idx < historyDepth - 1 → t.url = t.history t.idx
  lawful     : Throughout Access.Ok log

theorem inv_init : Inv [] initNaobrowse.trail where
  count_le := by decide
  idx_ge := by decide
  idx_lt := by decide
  idx_nonneg h := absurd h (by decide)
  entries k h0 h1 := absurd (h0.trans_lt h1) (by decide)
  shown h := absurd h (by decide)
  lawful := throughout_nil

namespace Inv

variable {log : List Access} {t : Trail}

/-- A new entry would be stored right behind the current one. -/
theorem kept_eq (h : Inv log t) : t.kept = t.idx + 1 := by
  have := h.idx_lt
  unfold Trail.kept
  split <;> omega

theorem visit_of_room (h : Inv log t) (hRoom : t.idx + 1 < historyDepth) (url : List UInt8) :
    t.visit url =
      { history := Function.update t.history (t.idx + 1) url, count := t.idx + 2, idx := t.idx + 1,
        url := url } := by
  rw [Trail.visit, h.kept_eq, if_pos hRoom, Int.add_assoc]
  rfl

theorem visit_of_full (h : Inv log t) (hFull : t.idx = historyDepth - 1) (url : List UInt8) :
    t.visit url = { t with url := url } := by
  have hCount : t.idx + 1 = t.count := by
    have := h.idx_lt
    have := h.count_le
    omega
  rw [Trail.visit, h.kept_eq, if_neg (by omega), hCount]

theorem visit (h : Inv log t) (typed : List UInt8) :
    Inv (log ++ (t.slot.map fun k => Access.stored k typed).toList) (t.visit typed) := by
  have hGe := h.idx_ge
  have hLt := h.idx_lt
  have hLe := h.count_le
  rw [Trail.slot, h.kept_eq]
  by_cases hRoom : t.idx + 1 < historyDepth
  · rw [if_pos hRoom, h.visit_of_room hRoom]
    refine ⟨?_, ?_, ?_, ?_, ?_, ?_, ?_⟩
    · show t.idx + 2 ≤ _
      omega
    · show -1 ≤ t.idx + 1
      omega
    · show t.idx + 1 < t.idx + 2
      omega
    · intro _
      show 0 ≤ t.idx + 1
      omega
    · intro k h0 h1
      change k < t.idx + 2 at h1
      show SysLib.latest _ (log ++ [.stored (t.idx + 1) typed])
        = some (Function.update t.history (t.idx + 1) typed k)
      rw [latest_concat, Access.storedIn]
      rcases eq_or_ne k (t.idx + 1) with rfl | hk
      · rw [if_pos rfl, Function.update_self]
        rfl
      · rw [if_neg hk.symm, Function.update_of_ne hk, ← h.entries k h0 (by omega)]
        rfl
    · intro _ _
      show typed = Function.update t.history (t.idx + 1) typed (t.idx + 1)
      rw [Function.update_self]
    · exact throughout_concat.mpr ⟨h.lawful, trivial⟩
  · rw [if_neg hRoom, h.visit_of_full (by omega), Option.map_none, Option.toList_none, List.append_nil]
    refine { h with shown := ?_ }
    intro _ h1
    change t.idx < _ at h1
    omega

theorem follow (h : Inv log t) {move : Int}
    (hMove : move = -1 ∧ 0 < t.idx ∨ move = 1 ∧ t.idx < t.count - 1) :
    Inv (log ++ [.read (t.idx + move) (t.history (t.idx + move))]) (t.follow move) := by
  have hGe := h.idx_ge
  have hLt := h.idx_lt
  have h0 : 0 ≤ t.idx + move := by omega
  have h1 : t.idx + move < t.count := by omega
  refine ⟨h.count_le, show -1 ≤ t.idx + move by omega, h1, fun _ => h0, ?_, fun _ _ => rfl, ?_⟩
  · intro k hk0 hk1
    rw [latest_concat]
    exact h.entries k hk0 hk1
  · exact throughout_concat.mpr ⟨h.lawful, h.entries _ h0 h1⟩

theorem move (h : Inv log t) {typed : List UInt8} {go : Bool} {seen : List Access} {t' : Trail}
    (hMove : Move typed t go seen t') : Inv (log ++ seen) t' := by
  cases hMove with
  | stay =>
    rw [List.append_nil]
    exact h
  | visit => exact h.visit typed
  | follow move hActive => exact h.follow hActive

end Inv

/-- The browser after some actions, with the log of its accesses. -/
def navigate (as : List Action) : Traced Access Browser := feed act initNaobrowse as

theorem inv_navigate (as : List Action) : Inv (navigate as).trace (navigate as).val.trail := by
  show Inv (feed act initNaobrowse as).trace (feed act initNaobrowse as).val.trail
  refine feed_invariant (fun _ log (b : Browser) => Inv log b.trail) inv_init ?_ as
  intro _ _ b a h
  exact h.move (act_move b a)

/--
**The history stays valid.** For every sequence of clicks, edits of the URL field and
callbacks from `init_naobrowse` on: `history_count` is between 0 and 10,
`current_history_idx` between -1 and the count, and not -1 once there is an entry; and every
entry read by Back or Forward holds the URL of the most recent Go that was stored there.
-/
theorem history_indices_valid (as : List Action) :
    0 ≤ (navigate as).val.historyCount ∧ (navigate as).val.historyCount ≤ 10 ∧
      -1 ≤ (navigate as).val.currentHistoryIdx ∧
      (navigate as).val.currentHistoryIdx < (navigate as).val.historyCount ∧
      (0 < (navigate as).val.historyCount → 0 ≤ (navigate as).val.currentHistoryIdx) ∧
      Throughout Access.Ok (navigate as).trace := by
  have h := inv_navigate as
  have hGe : -1 ≤ (navigate as).val.currentHistoryIdx := h.idx_ge
  have hLt : (navigate as).val.currentHistoryIdx < (navigate as).val.historyCount := h.idx_lt
  exact ⟨by omega, h.count_le, hGe, hLt, h.idx_nonneg, h.lawful⟩

-- ---------------------------------------------------------------------------
-- Back
-- ---------------------------------------------------------------------------

/-- The page that was fetched last is the current entry, once there is one. -/
def Trail.Matches (t : Trail) : Prop := 0 ≤ t.idx → t.url = t.history t.idx

/-- Go to another page when the list is full. -/
def Lost (b : Browser) (a : Action) : Prop :=
  a.isGo = true ∧ b.currentHistoryIdx = 9 ∧ b.urlInput ≠ b.history 9

theorem Inv.matches_move {log : List Access} {t t' : Trail} (h : Inv log t) (hMatches : t.Matches)
    {typed : List UInt8} {go : Bool} {seen : List Access} (hMove : Move typed t go seen t') :
    t'.Matches ↔ ¬ (go = true ∧ t.idx = 9 ∧ typed ≠ t.history 9) := by
  have hDepth : (historyDepth : Int) = 10 := rfl
  cases hMove with
  | stay => simpa using hMatches
  | follow move hActive => simp [Trail.Matches, Trail.follow]
  | visit =>
    have hLt := h.idx_lt
    have hLe := h.count_le
    by_cases hFull : t.idx = 9
    · rw [h.visit_of_full (by omega)]
      simp [Trail.Matches, hFull]
    · rw [h.visit_of_room (by omega)]
      simp [Trail.Matches, hFull]

theorem navigate_concat (as : List Action) (a : Action) :
    (navigate (as ++ [a])).val = (act (navigate as).val a).val := by
  rw [navigate, feed_concat]
  rfl

theorem matches_iff_not_lost (as : List Action) :
    (∀ pre, pre <+: as → (navigate pre).val.trail.Matches) ↔
      Throughout (fun pre a => ¬ Lost (navigate pre).val a) as := by
  induction as using List.reverseRecOn with
  | nil =>
    refine iff_of_true ?_ throughout_nil
    intro pre hPre
    rw [List.prefix_nil.mp hPre]
    exact fun h => absurd h (by decide)
  | append_singleton as a ih =>
    have hStep (hMatches : (navigate as).val.trail.Matches) :
        (navigate (as ++ [a])).val.trail.Matches ↔ ¬ Lost (navigate as).val a := by
      rw [navigate_concat]
      exact (inv_navigate as).matches_move hMatches (act_move _ a)
    simp only [List.prefix_concat_iff, or_imp, forall_and, forall_eq]
    rw [throughout_concat, ← ih, and_comm]
    exact and_congr_right fun hAll => hStep (hAll as (List.prefix_refl as))

/-- Back right after Go. -/
theorem Inv.back_of_go {log : List Access} {b : Browser} (h : Inv log b.trail)
    (hPage : 0 ≤ b.currentHistoryIdx) (error error' : BitVec 8) :
    (backButton error' (goButton error b)).currentUrl =
      if b.currentHistoryIdx = 9 then b.history 8 else b.currentUrl := by
  have hDepth : (historyDepth : Int) = 10 := rfl
  have hLt := h.idx_lt
  have hLe := h.count_le
  have hActive (hPos : 0 < (goButton error b).trail.idx) :
      (backButton error' (goButton error b)).currentUrl =
        (goButton error b).trail.history ((goButton error b).trail.idx + -1) :=
    congrArg Trail.url (backButton_trail hPos error')
  rw [goButton_trail] at hActive
  by_cases hFull : b.currentHistoryIdx = 9
  · rw [h.visit_of_full (by show b.currentHistoryIdx = _; omega)] at hActive
    rw [if_pos hFull, hActive (by show 0 < b.currentHistoryIdx; omega)]
    show b.history (b.currentHistoryIdx + -1) = _
    rw [hFull]
    rfl
  · have hRoom : b.currentHistoryIdx < historyDepth - 1 := by
      change b.currentHistoryIdx < b.historyCount at hLt
      change b.historyCount ≤ _ at hLe
      omega
    rw [h.visit_of_room (by show b.currentHistoryIdx + 1 < _; omega)] at hActive
    rw [if_neg hFull, hActive (by show 0 < b.currentHistoryIdx + 1; omega)]
    show Function.update b.history (b.currentHistoryIdx + 1) b.urlInput (b.currentHistoryIdx + 1 + -1) = _
    rw [Function.update_of_ne (by omega), Int.add_neg_cancel_right]
    exact (h.shown hPage hRoom).symm

/-- Go to the pages `A`, `B`, … -/
def visits (n : Nat) : List Action :=
  (List.range n).flatMap fun i => [.edit [UInt8.ofNat (65 + i)], .go 0]

end Nao.NaoBrowse
