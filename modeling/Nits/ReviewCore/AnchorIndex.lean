import Nits.Logical.Index
import Nits.ReviewCore.Invariants

/-!
# The index of comments by blob

The index stands under repository, blob and comment id, and comment ids are only
unique within a review. It is therefore exact as long as no comment is put on a
blob where another review keeps a comment of the same id, and only so long.
-/

namespace Nits.ReviewCore

open Logical Protocol

/-- The repository and blob an anchor stands on. -/
def anchoredOn : Anchor → Option (RepoId × BlobOid)
  | .review => none
  | .file repoId _ blobOid | .lines repoId _ _ blobOid .. => some (repoId, blobOid)

/-- Where a comment stands unless it was deleted. -/
def placeOf (comment : Comment) : Option (RepoId × BlobOid) :=
  if comment.state = .deleted then none else anchoredOn comment.anchor

namespace Views

/-- Where a review keeps a comment. -/
def placed (views : Views) (review : ReviewId) (id : CommentId) : Option (RepoId × BlobOid) :=
  views.comments[(review, id)]?.bind placeOf

/-- The review that the index names for a comment on a blob. -/
def indexed (views : Views) (place : RepoId × BlobOid) (id : CommentId) : Option ReviewId :=
  views.anchorsByBlob[(place.1, place.2, id)]?

/-- The index names a review for a comment on a blob exactly when the review keeps
such a comment there. -/
def IndexExact (views : Views) : Prop := Inverts views.indexed views.placed

/-- Where an event puts a comment. -/
def puts : EventBody → Option (ReviewId × CommentId × RepoId × BlobOid)
  | .commentCreated comment =>
    (anchoredOn comment.anchor).map fun place => (comment.reviewId, comment.id, place)
  | .commentReanchored reviewId commentId anchor _ =>
    (anchoredOn anchor).map fun place => (reviewId, commentId, place)
  | _ => none

/-- No other review keeps a comment of the same id where the event puts one. -/
def Unshared (views : Views) (body : EventBody) : Prop :=
  ∀ review id place, puts body = some (review, id, place) →
    FreeFor views.placed review id place

/-! ## What events do to the index -/

section Indexing

variable {views : Views} {comment : Comment}

theorem indexed_indexAnchor (review : ReviewId) (place : RepoId × BlobOid) (id : CommentId) :
    (views.indexAnchor review comment).indexed place id =
      if id = comment.id ∧ anchoredOn comment.anchor = some place then some review
      else views.indexed place id := by
  obtain ⟨repo, blob⟩ := place
  unfold indexed indexAnchor
  cases comment.anchor with
  | review => simp [anchoredOn]
  | file => simp [anchoredOn, Table.getElem?_insert, eq_comm, and_comm, and_left_comm]
  | lines => simp [anchoredOn, Table.getElem?_insert, eq_comm, and_comm, and_left_comm]

theorem indexed_unindexAnchor (place : RepoId × BlobOid) (id : CommentId) :
    (views.unindexAnchor comment).indexed place id =
      if id = comment.id ∧ anchoredOn comment.anchor = some place then none
      else views.indexed place id := by
  obtain ⟨repo, blob⟩ := place
  unfold indexed unindexAnchor
  cases comment.anchor with
  | review => simp [anchoredOn]
  | file => simp [anchoredOn, Table.getElem?_erase, eq_comm, and_comm, and_left_comm]
  | lines => simp [anchoredOn, Table.getElem?_erase, eq_comm, and_comm, and_left_comm]

end Indexing

end Views

variable {env : Environment} {event : Event} {before after : Views}

/-- Only creating, deleting and moving comments touches the index. -/
def touchesIndex : EventBody → Bool
  | .commentCreated _ | .commentDeleted .. | .commentReanchored .. => true
  | _ => false

theorem Views.indexed_kept (applied : before.apply event = .ok after)
    (untouched : touchesIndex event.body = false) : after.indexed = before.indexed := by
  suffices same : after.anchorsByBlob = before.anchorsByBlob by
    unfold Views.indexed
    rw [same]
  obtain ⟨seq, ts, author, clientId, clientSeq, body⟩ := event
  cases body with
  | commentCreated | commentDeleted | commentReanchored => cases untouched
  | workspaceCreated | fileUnviewed | reviewCreated | reviewRequested | reviewChecked =>
    cases applied
    rfl
  | reviewTargetUpdated =>
    obtain ⟨record, _, replaced⟩ := bind_eq_ok.mp applied
    split at replaced
    · cases replaced
      rfl
    · cases replaced
  | workspaceUpdated | repoAttached | repoDetached | reviewUpdated | reviewDeleted
  | reviewTargetsResolved | commentEdited | threadDeferred | threadResolved | threadUnresolved
  | fileViewed | suggestionApplied =>
    obtain ⟨_, _, rfl⟩ := map_eq_ok.mp applied
    rfl

/-- Where comments stand after an event that leaves the index alone. -/
theorem Follows.placed_kept (follows : Follows event before after)
    (untouched : touchesIndex event.body = false) : after.placed = before.placed := by
  funext review id
  unfold Views.placed
  rw [follows.comment, Rows.comment]
  split
  · next same =>
    rw [same] at untouched
    cases untouched
  · unfold Rows.changeAt
    split
    · rw [Option.bind_map]
      rfl
    · rfl
  · next same =>
    rw [same] at untouched
    cases untouched
  · next same =>
    rw [same] at untouched
    cases untouched
  · rfl

section Placing

variable {owner review : ReviewId} {mem id : CommentId} {row : Option Comment}

private theorem key_elsewhere (other : review ≠ owner ∨ id ≠ mem) :
    (owner, mem) ≠ (review, id) := by
  rintro same
  cases same
  rcases other with different | different <;> exact different rfl

private theorem storeAt_elsewhere {stored : Comment} (other : review ≠ owner ∨ id ≠ mem) :
    Rows.storeAt (owner, mem) (review, id) stored row = row :=
  if_neg (key_elsewhere other)

private theorem changeAt_elsewhere {change : Comment → Comment}
    (other : review ≠ owner ∨ id ≠ mem) :
    Rows.changeAt (owner, mem) (review, id) change row = row :=
  if_neg (key_elsewhere other)

end Placing

theorem placeOf_eq {comment : Comment} (kept : comment.state ≠ .deleted) :
    placeOf comment = anchoredOn comment.anchor :=
  if_neg kept

section Platform

variable [Platform]

/-- A created comment has not been deleted. -/
theorem Admissible.created_kept {comment : Comment}
    (admissible : Admissible env before (.commentCreated comment)) : comment.state ≠ .deleted := by
  obtain ⟨_, starts | joins⟩ := admissible
  · simp [starts.state]
  · obtain ⟨_, root, _, live, _, state, _⟩ := joins.inherits
    rw [state]
    exact live.kept

/-- Creating a comment where no other review keeps it keeps the index exact. -/
private theorem Views.IndexExact.create {comment : Comment} (exact_ : before.IndexExact)
    (follows : Follows event before after) (body : event.body = .commentCreated comment)
    (admissible : Admissible env before event.body)
    (applied : before.apply event = .ok after) (unshared : before.Unshared event.body) :
    after.IndexExact := by
  rw [body] at admissible unshared
  simp only [Views.apply, body] at applied
  have kept := Admissible.created_kept admissible
  obtain ⟨record, _, joins⟩ := bind_eq_ok.mp applied
  obtain ⟨thread, _, rfl⟩ := map_eq_ok.mp joins
  have free : before.placed comment.reviewId comment.id = none := by
    rw [Views.placed, admissible.1]
    rfl
  refine Inverts.move exact_ comment.reviewId comment.id (anchoredOn comment.anchor) ?_ ?_ ?_ ?_
  · intro place on
    exact unshared _ _ _ (show Views.puts (.commentCreated comment) = _ by rw [Views.puts, on]; rfl)
  · simp only [Views.placed, follows.comment, Rows.comment, body, Rows.storeAt, if_true]
    exact placeOf_eq kept
  · intro review id other
    simp only [Views.placed, follows.comment, Rows.comment, body, storeAt_elsewhere other]
  · intro place id
    rw [free]
    simp only [reduceCtorEq, and_false, if_false]
    exact Views.indexed_indexAnchor _ place id

/-- Deleting a comment keeps the index exact. -/
private theorem Views.IndexExact.withdraw {review : ReviewId} {id : CommentId}
    (exact_ : before.IndexExact) (consistent : Consistent before)
    (follows : Follows event before after) (body : event.body = .commentDeleted review id)
    (admissible : Admissible env before event.body)
    (applied : before.apply event = .ok after) : after.IndexExact := by
  rw [body] at admissible
  simp only [Views.apply, body] at applied
  obtain ⟨comment, found, kept⟩ := admissible
  obtain ⟨loaded, present, rfl⟩ := map_eq_ok.mp applied
  obtain rfl : comment = loaded :=
    Option.some.inj (found.symm.trans (Views.require_eq_ok.mp present))
  have own : comment.id = id := (Prod.mk.inj (consistent.comment found)).2
  have here : before.placed review id = anchoredOn comment.anchor := by
    rw [Views.placed, found]
    exact placeOf_eq kept
  refine Inverts.move exact_ review id none ?_ ?_ ?_ ?_
  · intro place on
    cases on
  · simp [Views.placed, follows.comment, Rows.comment, body, Rows.changeAt, found, Rows.withdrawn,
      placeOf]
  · intro other otherId different
    simp only [Views.placed, follows.comment, Rows.comment, body, changeAt_elsewhere different]
  · intro place other
    rw [here, ← own]
    simp only [reduceCtorEq, and_false, if_false]
    exact Views.indexed_unindexAnchor place other

/-- Moving a comment where no other review keeps it keeps the index exact. -/
private theorem Views.IndexExact.reanchor {review : ReviewId} {id : CommentId} {anchor : Anchor}
    {state : CommentState} (exact_ : before.IndexExact) (consistent : Consistent before)
    (follows : Follows event before after)
    (body : event.body = .commentReanchored review id anchor state)
    (admissible : Admissible env before event.body)
    (applied : before.apply event = .ok after) (unshared : before.Unshared event.body) :
    after.IndexExact := by
  rw [body] at admissible unshared
  simp only [Views.apply, body] at applied
  obtain ⟨comment, fate, number, repo, found, _, computed⟩ := admissible.computed
  obtain ⟨kept, moved⟩ := (moved_of_reanchor computed).kept
  obtain ⟨loaded, present, result⟩ := map_eq_ok.mp applied
  obtain rfl : comment = loaded :=
    Option.some.inj (found.symm.trans (Views.require_eq_ok.mp present))
  have own : comment.id = id := (Prod.mk.inj (consistent.comment found)).2
  have here : before.placed review id = anchoredOn comment.anchor := by
    rw [Views.placed, found]
    exact placeOf_eq kept
  refine Inverts.move exact_ review id (anchoredOn anchor) ?_ ?_ ?_ ?_
  · intro place on
    exact unshared _ _ _ (show Views.puts (.commentReanchored review id anchor state) = _ by
      rw [Views.puts, on]; rfl)
  · simp only [Views.placed, follows.comment, Rows.comment, body, Rows.changeAt, found, if_true,
      Option.map_some, Option.bind_some]
    exact placeOf_eq moved
  · intro other otherId different
    simp only [Views.placed, follows.comment, Rows.comment, body, changeAt_elsewhere different]
  · intro place other
    rw [← result, if_neg moved, Views.indexed_indexAnchor, here, ← own]
    congr 1
    exact Views.indexed_unindexAnchor place other

/-- An event that puts no comment where another review keeps it keeps the index
exact. -/
theorem Views.IndexExact.step (exact_ : before.IndexExact) (consistent : Consistent before)
    (admissible : Admissible env before event.body)
    (applied : before.apply event = .ok after) (unshared : before.Unshared event.body) :
    after.IndexExact := by
  have follows := Views.follows_of_apply consistent.toKeyed applied
  have untouched (untouched : touchesIndex event.body = false) : after.IndexExact := by
    unfold Views.IndexExact
    rw [follows.placed_kept untouched, Views.indexed_kept applied untouched]
    exact exact_
  cases body : event.body with
  | commentCreated comment => exact exact_.create follows body admissible applied unshared
  | commentDeleted review id => exact exact_.withdraw consistent follows body admissible applied
  | commentReanchored review id anchor state =>
    exact exact_.reanchor consistent follows body admissible applied unshared
  | _ =>
    apply untouched
    rw [body]
    rfl

/-- Once the index is exact after an event, the event put no comment where another
review keeps it. -/
theorem Views.IndexExact.unshared (exact_ : after.IndexExact) (consistent : Consistent before)
    (admissible : Admissible env before event.body)
    (applied : before.apply event = .ok after) : before.Unshared event.body := by
  intro review id place put other different there
  have follows := Views.follows_of_apply consistent.toKeyed applied
  -- The event puts its own comment there, and leaves the other one there.
  suffices both : after.placed review id = some place ∧
      after.placed other id = before.placed other id by
    exact exact_.freeFor both.1 other different (both.2.trans there)
  cases body : event.body with
  | commentCreated comment =>
    rw [body] at put admissible
    obtain ⟨on, anchored, same⟩ := Option.map_eq_some_iff.mp put
    cases same
    constructor
    · simp only [Views.placed, follows.comment, Rows.comment, body, Rows.storeAt, if_true,
        Option.bind_some]
      rw [placeOf_eq (Admissible.created_kept admissible), anchored]
    · simp only [Views.placed, follows.comment, Rows.comment, body,
        storeAt_elsewhere (Or.inl different)]
  | commentReanchored reviewId commentId anchor state =>
    rw [body] at put admissible
    obtain ⟨on, anchored, same⟩ := Option.map_eq_some_iff.mp put
    cases same
    obtain ⟨comment, fate, number, repo, found, _, computed⟩ := admissible.computed
    have moved := (moved_of_reanchor computed).kept.2
    constructor
    · simp only [Views.placed, follows.comment, Rows.comment, body, Rows.changeAt, found, if_true,
        Option.map_some, Option.bind_some]
      have place : placeOf (Rows.reanchored anchor state comment) = anchoredOn anchor :=
        placeOf_eq moved
      exact place.trans anchored
    · simp only [Views.placed, follows.comment, Rows.comment, body,
        changeAt_elsewhere (Or.inl different)]
  | _ =>
    rw [body] at put
    cases put

/-! ## Runs -/

/-- The index names a review for a comment on a blob exactly when the review keeps
such a comment there, so a lookup by blob lists the comments anchored to it. -/
structure Store.IndexExact (store : Store) : Prop where
  exact_ : store.views.IndexExact
  listed : ∀ repo blob review id, (review, id) ∈ store.commentsOnBlob repo blob ↔
    store.views.placed review id = some (repo, blob)

omit [Platform] in
theorem Store.mem_commentsOnBlob {store : Store} {repo : RepoId} {blob : BlobOid}
    {review : ReviewId} {id : CommentId} : (review, id) ∈ store.commentsOnBlob repo blob ↔
      store.views.indexed (repo, blob) id = some review := by
  unfold Store.commentsOnBlob Views.indexed
  simp only [List.mem_filterMap, Option.ite_none_right_eq_some, Option.some.injEq, Prod.mk.injEq,
    Prod.exists]
  constructor
  · rintro ⟨r, b, i, owner, mem, ⟨rfl, rfl⟩, rfl, rfl⟩
    exact Std.ExtTreeMap.mem_toList_iff_getElem?_eq_some.mp mem
  · intro found
    exact ⟨repo, blob, id, review, Std.ExtTreeMap.mem_toList_iff_getElem?_eq_some.mpr found,
      ⟨rfl, rfl⟩, rfl, rfl⟩

omit [Platform] in
theorem Store.indexExact_iff {store : Store} : store.IndexExact ↔ store.views.IndexExact :=
  ⟨Store.IndexExact.exact_, fun exact_ => ⟨exact_, fun repo blob review id =>
    Store.mem_commentsOnBlob.trans (exact_ (repo, blob) id review)⟩⟩

omit [Platform] in
theorem Views.indexExact_empty : Views.empty.IndexExact := by
  intro place id review
  simp [Views.indexed, Views.placed, Views.empty]

/-- The index is exact in every state of a run exactly when no event of the run puts
a comment on a blob where another review keeps a comment of the same id. -/
theorem run_indexExact_iff (env : Environment) (steps : List Step) :
    (∀ first rest store, (Core.run env .initial steps).store.events = first ++ rest →
        Store.replay first = .ok store → store.IndexExact) ↔
      ∀ first event rest store,
        (Core.run env .initial steps).store.events = first ++ event :: rest →
        Store.replay first = .ok store → store.views.Unshared event.body := by
  have grows := (reachable_run env steps).extends.grows
  have consistent {store : Store} (grows : Store.Grows (Admissible env) .empty store) :
      Consistent store.views := grows.consistent .empty
  have replayed {store other : Store} (grows : Store.Grows (Admissible env) .empty store)
      (replayed : Store.replay store.events = .ok other) : store = other := by
    rw [(Store.Logged.empty.grows grows).replay] at replayed
    exact Except.ok.inj replayed
  constructor
  · intro exact_ first event rest store log replays
    obtain ⟨before, after, reaches, rfl, gains, continues⟩ := grows.at_event log
    obtain rfl := replayed reaches replays
    have reached := reaches.trans gains.grows
    have after := exact_ after.events rest after
      (by rw [log, gains.events, List.append_assoc]; rfl) (Store.Logged.empty.grows reached).replay
    exact after.exact_.unshared (consistent reaches) gains.allowed gains.applied
  · intro unshared first rest store log replays
    obtain ⟨middle, reaches, cut, -⟩ := grows.cut log
    obtain rfl : first = middle.events := cut.symm
    obtain rfl := replayed reaches replays
    rw [Store.indexExact_iff]
    -- Every event before the cut put its comment where it was free.
    clear replays grows
    induction reaches generalizing rest with
    | refl => exact Views.indexExact_empty
    | tail earlier gained ih =>
      obtain ⟨event, gains⟩ := gained
      rw [gains.events, List.append_assoc] at log
      refine (ih _ log rfl).step (consistent earlier) gains.allowed gains.applied ?_
      exact unshared _ event rest _ log (Store.Logged.empty.grows earlier).replay

end Platform

/-! ### A shared index row -/

/-- Two reviews of one repository hold a comment of the same id on the same blob. -/
def sharedId : List Step :=
  let onFile : Anchor := .file Session.repoId ⟨"a", RepoPath.valid_a⟩ ⟨0⟩
  Session.opening ++ [Session.review ⟨4⟩,
    Session.mutate (.addComment Session.reviewId ⟨5⟩ .note onFile "first" none),
    Session.mutate (.addComment ⟨4⟩ ⟨5⟩ .note onFile "second" none)]

/-- The second review takes the index row of the first. -/
theorem sharedId_not_indexExact :
    ¬ (@Core.run .plain .calm .initial sharedId).store.IndexExact := by
  intro exact_
  have kept : (@Core.run .plain .calm .initial sharedId).store.views.placed Session.reviewId ⟨5⟩ =
      some (Session.repoId, ⟨0⟩) := by decide +kernel
  have named : (@Core.run .plain .calm .initial sharedId).store.views.indexed
      (Session.repoId, ⟨0⟩) ⟨5⟩ = some ⟨4⟩ := by decide +kernel
  rw [(exact_.exact_ _ _ _).mpr kept] at named
  exact absurd named (by decide)

end Nits.ReviewCore
