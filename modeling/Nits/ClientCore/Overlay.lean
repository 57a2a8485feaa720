import Nits.ClientCore.Handle

/-!
# Committed plus pending

The review on screen is the committed snapshot with the pending mutations on top. The
overlay is the part of the core that this is about: what is committed, pending, shown and
held back. Every routine acts on it by a few operations, and `rebased` restores what is
shown from the rest.
-/

set_option linter.dupNamespace false

namespace Nits.ClientCore

open Logical Logical.Handler Protocol

/-! ## The overlay -/

/-- What the shown review depends on. -/
structure Overlay where
  author : Author
  next : ClientSeq
  committed : Option ReviewSnapshot
  pending : List (ClientSeq × Timestamp × EventBody)
  shown : Option (ReviewSnapshot × List PendingEvent)
  deferred : List Event

/-- A pending mutation without its delivery. -/
def Pending.bare (pending : Pending) : ClientSeq × Timestamp × EventBody :=
  (pending.clientSeq, pending.ts, pending.body)

/-- A snapshot with pending bodies folded on top, in send order. -/
def overlaid (author : Author) (pending : List (ClientSeq × Timestamp × EventBody))
    (committed : ReviewSnapshot) : ReviewSnapshot :=
  pending.foldl (fun shown mutation =>
    (applyBody shown ⟨author, mutation.2.1⟩ mutation.2.2).1) committed

def ClientCore.overlay (core : ClientCore) : Overlay where
  author := core.config.author
  next := core.nextClientSeq
  committed := core.committed
  pending := core.pending.map Pending.bare
  shown := core.view.review.map fun review => (review.snapshot, review.pending)
  deferred := core.deferred

/-! ## Folding keeps the review's identity -/

theorem applyOwn_review_id (snapshot : ReviewSnapshot) (meta_ : EventMeta) (body : EventBody) :
    (applyOwn snapshot meta_ body).1.review.id = snapshot.review.id := by
  cases body <;> simp only [applyOwn, touchCreated, touchComment, touchThread] <;>
    split <;> rfl

theorem applyBody_review_id (snapshot : ReviewSnapshot) (meta_ : EventMeta) (body : EventBody) :
    (applyBody snapshot meta_ body).1.review.id = snapshot.review.id := by
  unfold applyBody
  split
  · exact applyOwn_review_id snapshot meta_ body
  · rfl

theorem applyReceipt_review (snapshot : ReviewSnapshot) (event : Event) :
    (applyReceipt snapshot event).review = snapshot.review := by
  unfold applyReceipt
  split
  · split <;> rfl
  · rfl

theorem applyRequest_review (snapshot : ReviewSnapshot) (event : Event) :
    (applyRequest snapshot event).review = snapshot.review := by
  unfold applyRequest
  split
  · rfl
  · split <;> rfl

theorem applyCheckpoint_review (snapshot : ReviewSnapshot) (event : Event) :
    (applyCheckpoint snapshot event).review = snapshot.review := by
  unfold applyCheckpoint
  split
  · rfl
  · split <;> rfl

theorem applyEvent_review_id (snapshot : ReviewSnapshot) (event : Event) :
    (applyEvent snapshot event).1.review.id = snapshot.review.id := by
  unfold applyEvent
  rw [applyBody_review_id, applyCheckpoint_review, applyRequest_review, applyReceipt_review]

theorem overlaid_review_id (author : Author) (committed : ReviewSnapshot)
    (pending : List (ClientSeq × Timestamp × EventBody)) :
    (overlaid author pending committed).review.id = committed.review.id := by
  induction pending generalizing committed with
  | nil => rfl
  | cons mutation later rest =>
    have first := applyBody_review_id committed ⟨author, mutation.2.1⟩ mutation.2.2
    exact (rest _).trans first

namespace Overlay

/-! ## What the routines do to it -/

/-- The pending list as the view mirrors it. -/
def mirrored (overlay : Overlay) : List PendingEvent :=
  overlay.pending.map fun mutation => ⟨mutation.1, mutation.2.2⟩

/-- What is shown is rebuilt from what is committed and pending. -/
def rebased (overlay : Overlay) : Overlay :=
  match overlay.committed, overlay.shown with
  | some committed, some _ => { overlay with
      shown := some (overlaid overlay.author overlay.pending committed, overlay.mirrored) }
  | _, _ => overlay

def retired (overlay : Overlay) (clientSeq : ClientSeq) : Overlay :=
  { overlay with pending := overlay.pending.filter fun mutation => mutation.1 ≠ clientSeq }

/-- An event of this client retires the mutation it answers. -/
def answered (overlay : Overlay) (clientId : ClientId) (event : Event) : Overlay :=
  if event.clientId = clientId then overlay.retired event.clientSeq else overlay

def sent (overlay : Overlay) (ts : Timestamp) (body : EventBody) : Overlay :=
  { overlay with
    next := overlay.next + 1
    pending := overlay.pending ++ [(overlay.next, ts, body)] }

def recommitted (overlay : Overlay) (change : ReviewSnapshot → ReviewSnapshot) : Overlay :=
  { overlay with committed := overlay.committed.map change }

/-- An event is committed and shown. -/
def folded (overlay : Overlay) (event : Event) : Overlay :=
  (overlay.recommitted fun committed => (applyEvent committed event).1).rebased

def held (overlay : Overlay) (event : Event) : Overlay :=
  { overlay with deferred := overlay.deferred ++ [event] }

def closed (overlay : Overlay) : Overlay :=
  { overlay with committed := none, pending := [], shown := none, deferred := [] }

def opened (overlay : Overlay) (snapshot : ReviewSnapshot)
    (pending : List (ClientSeq × Timestamp × EventBody)) : Overlay :=
  { overlay with committed := some snapshot, pending, shown := some (snapshot, []) }

/-- The view lists a mutation as pending that is not. -/
def Stale (overlay : Overlay) : Prop :=
  ∃ shown, overlay.shown = some shown ∧ ∃ listed ∈ shown.2,
    ∀ mutation ∈ overlay.pending, mutation.1 ≠ listed.clientSeq

/-- Whether a review is the shown one. -/
def Open (overlay : Overlay) (reviewId : ReviewId) : Prop :=
  ∃ shown, overlay.shown = some shown ∧ shown.1.review.id = reviewId

/-- Whether an event moves the targets of the shown review. -/
def Moves (overlay : Overlay) (event : Event) : Prop :=
  ∃ reviewId targets, event.body = .reviewTargetsResolved reviewId targets ∧
    overlay.Open reviewId

/-- Everything that holds while what is shown is out of date: the pending mutations are in
send order, the shown review is the committed one, and what is held back moves it. -/
structure Grounded (overlay : Overlay) : Prop where
  ordered : overlay.pending.Pairwise fun early late => early.1 < late.1
  numbered : ∀ mutation ∈ overlay.pending, mutation.1 < overlay.next
  based : ∀ shown, overlay.shown = some shown →
    ∃ committed, overlay.committed = some committed ∧ committed.review.id = shown.1.review.id
  moving : ∀ event ∈ overlay.deferred, overlay.Moves event

/-- What is shown is the committed snapshot with the pending mutations on top. -/
structure Sound (overlay : Overlay) : Prop extends Grounded overlay where
  shows : ∀ shown, overlay.shown = some shown →
    ∃ committed, overlay.committed = some committed ∧
      shown = (overlaid overlay.author overlay.pending committed, overlay.mirrored)

variable {overlay : Overlay} {reviewId : ReviewId}

theorem Open.rebased (grounded : overlay.Grounded) (opened : overlay.Open reviewId) :
    overlay.rebased.Open reviewId := by
  obtain ⟨shown, isShown, named⟩ := opened
  obtain ⟨committed, isCommitted, same⟩ := grounded.based shown isShown
  unfold Overlay.rebased
  rw [isCommitted, isShown]
  exact ⟨_, rfl, (overlaid_review_id _ _ _).trans (same.trans named)⟩

theorem rebased_some {committed : ReviewSnapshot} {shown : ReviewSnapshot × List PendingEvent}
    (isCommitted : overlay.committed = some committed) (isShown : overlay.shown = some shown) :
    overlay.rebased = { overlay with
      shown := some (overlaid overlay.author overlay.pending committed, overlay.mirrored) } := by
  unfold Overlay.rebased
  rw [isCommitted, isShown]

theorem rebased_none (closed : overlay.shown = none) : overlay.rebased = overlay := by
  unfold Overlay.rebased
  rw [closed]
  cases overlay.committed <;> rfl

/-- Rebuilding what is shown makes the overlay sound. -/
theorem Grounded.rebased (grounded : overlay.Grounded) : overlay.rebased.Sound := by
  cases isShown : overlay.shown with
  | none =>
    rw [rebased_none isShown]
    exact ⟨grounded, fun _ same => nomatch isShown.symm.trans same⟩
  | some shown =>
    obtain ⟨committed, isCommitted, named⟩ := grounded.based shown isShown
    have moving : ∀ event ∈ overlay.deferred, overlay.rebased.Moves event := by
      intro event isHeld
      obtain ⟨reviewId, targets, moves, opened⟩ := grounded.moving event isHeld
      exact ⟨reviewId, targets, moves, opened.rebased grounded⟩
    rw [rebased_some isCommitted isShown] at moving ⊢
    refine ⟨⟨grounded.ordered, grounded.numbered, ?_, moving⟩, ?_⟩
    · rintro _ ⟨rfl⟩
      exact ⟨committed, isCommitted, (overlaid_review_id _ _ _).symm⟩
    · rintro _ ⟨rfl⟩
      exact ⟨committed, isCommitted, rfl⟩

/-- Nothing shown cannot be out of date. -/
theorem Grounded.unshown (grounded : overlay.Grounded) (closed : overlay.shown = none) :
    overlay.Sound :=
  ⟨grounded, fun _ isShown => nomatch closed.symm.trans isShown⟩

theorem Grounded.retired (grounded : overlay.Grounded) (clientSeq : ClientSeq) :
    (overlay.retired clientSeq).Grounded where
  ordered := grounded.ordered.filter _
  numbered mutation isPending := grounded.numbered mutation (List.mem_of_mem_filter isPending)
  based := grounded.based
  moving := grounded.moving

theorem Grounded.answered (grounded : overlay.Grounded) (clientId : ClientId) (event : Event) :
    (overlay.answered clientId event).Grounded := by
  unfold Overlay.answered
  split
  · exact grounded.retired event.clientSeq
  · exact grounded

theorem answered_open {clientId : ClientId} {event : Event} :
    (overlay.answered clientId event).Open reviewId ↔ overlay.Open reviewId := by
  unfold Overlay.answered
  split <;> rfl

theorem Grounded.sent (grounded : overlay.Grounded) (ts : Timestamp) (body : EventBody) :
    (overlay.sent ts body).Grounded where
  ordered := by
    refine List.pairwise_append.mpr ⟨grounded.ordered, List.pairwise_singleton _ _, ?_⟩
    intro early isPending late isLast
    obtain rfl := List.mem_singleton.mp isLast
    exact grounded.numbered early isPending
  numbered := by
    intro mutation isPending
    rcases List.mem_append.mp isPending with isOld | isLast
    · exact Nat.lt_succ_of_lt (grounded.numbered mutation isOld)
    · obtain rfl := List.mem_singleton.mp isLast
      exact Nat.lt_succ_self overlay.next
  based := grounded.based
  moving := grounded.moving

theorem Grounded.recommitted (grounded : overlay.Grounded)
    (change : ReviewSnapshot → ReviewSnapshot)
    (same : ∀ snapshot, (change snapshot).review.id = snapshot.review.id) :
    (overlay.recommitted change).Grounded where
  ordered := grounded.ordered
  numbered := grounded.numbered
  based := by
    intro shown isShown
    obtain ⟨committed, isCommitted, named⟩ := grounded.based shown isShown
    refine ⟨change committed, ?_, (same committed).trans named⟩
    rw [Overlay.recommitted, isCommitted, Option.map_some]
  moving := grounded.moving

theorem Grounded.folded (grounded : overlay.Grounded) (event : Event) :
    (overlay.folded event).Sound :=
  (grounded.recommitted _ fun committed => applyEvent_review_id committed event).rebased

theorem Open.folded (grounded : overlay.Grounded) (event : Event) (opened : overlay.Open reviewId) :
    (overlay.folded event).Open reviewId :=
  Open.rebased (grounded.recommitted _ fun committed => applyEvent_review_id committed event) opened

theorem closed_sound (overlay : Overlay) : overlay.closed.Sound where
  ordered := List.Pairwise.nil
  numbered _ isPending := nomatch isPending
  based _ isShown := nomatch isShown
  moving _ isHeld := nomatch isHeld
  shows _ isShown := nomatch isShown

/-- A snapshot replaces the open review; what was pending on it may survive. -/
theorem Grounded.replaced (grounded : overlay.Grounded) (snapshot : ReviewSnapshot)
    (survives : Bool) :
    (overlay.closed.opened snapshot (if survives then overlay.pending else [])).Grounded where
  ordered := by
    cases survives
    · exact List.Pairwise.nil
    · exact grounded.ordered
  numbered := by
    cases survives
    · exact fun _ isPending => nomatch isPending
    · exact grounded.numbered
  based := by
    rintro _ ⟨rfl⟩
    exact ⟨snapshot, rfl, rfl⟩
  moving _ isHeld := nomatch isHeld

theorem Sound.held (sound : overlay.Sound) {event : Event} (moves : overlay.Moves event) :
    (overlay.held event).Sound where
  toGrounded := {
    ordered := sound.ordered
    numbered := sound.numbered
    based := sound.based
    moving := by
      intro other isHeld
      rcases List.mem_append.mp isHeld with isOld | isLast
      · exact sound.moving other isOld
      · obtain rfl := List.mem_singleton.mp isLast
        exact moves }
  shows := sound.shows

/-- Retiring a pending mutation alone leaves it on screen. -/
theorem Sound.stale (sound : overlay.Sound) (opened : overlay.shown.isSome) {clientSeq : ClientSeq}
    (retires : ∃ mutation ∈ overlay.pending, mutation.1 = clientSeq) :
    (overlay.retired clientSeq).Stale := by
  obtain ⟨shown, isShown⟩ := Option.isSome_iff_exists.mp opened
  obtain ⟨committed, _, rfl⟩ := sound.shows shown isShown
  obtain ⟨mutation, isPending, rfl⟩ := retires
  refine ⟨_, isShown, ⟨mutation.1, mutation.2.2⟩, List.mem_map_of_mem isPending, ?_⟩
  intro other isLeft
  exact of_decide_eq_true (List.mem_filter.mp isLeft).2

/-- Retiring what is not pending changes nothing. -/
theorem retired_absent {clientSeq : ClientSeq}
    (absent : ∀ mutation ∈ overlay.pending, mutation.1 ≠ clientSeq) :
    overlay.retired clientSeq = overlay := by
  have same : overlay.pending.filter (fun mutation => mutation.1 ≠ clientSeq) =
      overlay.pending := List.filter_eq_self.mpr fun mutation isPending =>
    decide_eq_true (absent mutation isPending)
  rw [Overlay.retired, same]

end Overlay

end Nits.ClientCore
