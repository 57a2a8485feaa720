import Nits.ReviewCore.Admissible

/-!
# Consistent views

The invariant behind every lookup of the core. Rows stand under their own keys,
the threads of a review partition its comments, and the informational threads are
those whose root is informational. Admissible events always apply to consistent
views and keep them consistent.
-/

namespace Nits.ReviewCore

open Logical Protocol

/-- The comments of a thread, root first. -/
def threadMembers (thread : Thread) : List CommentId := thread.root :: thread.replies

/-- The tables agree with one another. -/
structure Consistent (views : Views) : Prop extends Keyed views where
  /-- Comments belong to stored reviews. -/
  reviewed : ∀ {review : ReviewId} {id : CommentId} {comment},
    views.comments[(review, id)]? = some comment → ∃ record, views.reviews[review]? = some record
  /-- A thread's id is its root's id. -/
  rooted : ∀ {review : ReviewId} {id : ThreadId} {thread},
    views.threads[(review, id)]? = some thread → thread.root.ulid = id.ulid
  /-- A comment is listed by the thread it names. -/
  listed : ∀ {review : ReviewId} {id : CommentId} {comment},
    views.comments[(review, id)]? = some comment →
    ∃ thread, views.threads[(review, comment.threadId)]? = some thread ∧ id ∈ threadMembers thread
  /-- A listed comment is stored and names the thread that lists it. -/
  mem : ∀ {review : ReviewId} {threadId : ThreadId} {thread id},
    views.threads[(review, threadId)]? = some thread → id ∈ threadMembers thread →
    ∃ comment, views.comments[(review, id)]? = some comment ∧ comment.threadId = threadId
  /-- A thread lists no comment twice. -/
  nodup : ∀ {review : ReviewId} {id : ThreadId} {thread},
    views.threads[(review, id)]? = some thread → (threadMembers thread).Nodup
  /-- Informational threads are those with an informational root. -/
  informational : ∀ {review : ReviewId} {id : ThreadId} {thread root},
    views.threads[(review, id)]? = some thread →
    views.comments[(review, thread.root)]? = some root →
    (thread.resolution = .informational ↔ root.kind = .informational)
  /-- An informational root stands at review level. -/
  reviewLevel : ∀ {review : ReviewId} {id : ThreadId} {thread root},
    views.threads[(review, id)]? = some thread →
    views.comments[(review, thread.root)]? = some root → root.kind = .informational →
    root.anchor = .review
  /-- An outdated comment is shown at its last good anchor. -/
  lastGood : ∀ {key : ReviewId × CommentId} {comment anchor},
    views.comments[key]? = some comment → comment.state = .outdated anchor → anchor = comment.anchor

theorem Consistent.empty : Consistent .empty where
  toKeyed := .empty
  reviewed := by simp [Views.empty]
  rooted := by simp [Views.empty]
  listed := by simp [Views.empty]
  mem := by simp [Views.empty]
  nodup := by simp [Views.empty]
  informational := by simp [Views.empty]
  reviewLevel := by simp [Views.empty]
  lastGood := by simp [Views.empty]

/-- In consistent views a comment is anchored where it is re-anchored from. -/
theorem Consistent.effectiveAnchor_eq {views : Views} (consistent : Consistent views)
    {key : ReviewId × CommentId} {comment : Comment} (found : views.comments[key]? = some comment) :
    effectiveAnchor comment.anchor comment.state = comment.anchor := by
  cases state : comment.state with
  | live => rfl
  | outdated anchor => exact consistent.lastGood found state
  | deleted => rfl

/-! ## What events keep -/

section Shapes

variable {event : Event} {before after : Views}

private theorem exists_of_map_eq {V S : Type} {shape : V → S} {left right : Option V} {row : V}
    (same : left.map shape = right.map shape) (found : left = some row) :
    ∃ other, right = some other ∧ shape other = shape row := by
  subst found
  exact Option.map_eq_some_iff.mp same.symm

private theorem map_changeAt {K V S : Type} [DecidableEq K] {at_ key : K} {change : V → V}
    {shape : V → S} (kept : ∀ row, shape (change row) = shape row) (row : Option V) :
    (Rows.changeAt at_ key change row).map shape = row.map shape := by
  unfold Rows.changeAt
  split
  · rw [Option.map_map]
    exact congrArg (row.map ·) (funext kept)
  · rfl

/-- No event but a creation changes which thread a comment names or what kind it
is of. -/
theorem Follows.comment_shape (follows : Follows event before after)
    (other : ∀ comment, event.body ≠ .commentCreated comment) (key : ReviewId × CommentId) :
    (after.comments[key]?).map (fun comment => (comment.threadId, comment.kind)) =
      (before.comments[key]?).map fun comment => (comment.threadId, comment.kind) := by
  rw [follows.comment, Rows.comment]
  split
  · next created => exact absurd created (other _)
  · refine map_changeAt ?_ _; exact fun _ => rfl
  · refine map_changeAt ?_ _; exact fun _ => rfl
  · refine map_changeAt ?_ _; exact fun _ => rfl
  · rfl

/-- No event but a creation changes what a thread lists. -/
theorem Follows.thread_shape (follows : Follows event before after)
    (other : ∀ comment, event.body ≠ .commentCreated comment) (key : ReviewId × ThreadId) :
    (after.threads[key]?).map (fun thread => (thread.root, thread.replies)) =
      (before.threads[key]?).map fun thread => (thread.root, thread.replies) := by
  rw [follows.thread, Rows.thread]
  split
  · next created => exact absurd created (other _)
  · refine map_changeAt ?_ _; exact fun _ => rfl
  · refine map_changeAt ?_ _; exact fun _ => rfl
  · refine map_changeAt ?_ _; exact fun _ => rfl
  · rfl

/-- Reviews are never dropped. -/
theorem Follows.review_kept (follows : Follows event before after) {id : ReviewId}
    {record : ReviewRecord} (found : before.reviews[id]? = some record) :
    ∃ kept, after.reviews[id]? = some kept := by
  rw [follows.review, Rows.review, found]
  unfold Rows.storeAt Rows.changeAt
  repeat' split
  all_goals exact ⟨_, rfl⟩

end Shapes

variable [Platform]

/-! ## Admissible events apply -/

section Applying

variable {env : Environment} {views : Views} {event : Event}

/-- The thread a comment joins or starts exists or can be started. -/
theorem Consistent.joinThread_ok {comment : Comment} (seq : Seq)
    (origin : Starts env views comment ∨ Joins views comment) :
    ∃ thread, views.joinThread seq comment = .ok thread := by
  unfold Views.joinThread
  split
  · exact ⟨_, rfl⟩
  · next absent =>
    rcases origin with starts | joins
    · have rooted : comment.threadId.ulid = comment.id.ulid := by
        rw [starts.thread]
        exact Id.ulid_fromParts comment.id
      exact ⟨_, if_neg (not_not.mpr rooted)⟩
    · obtain ⟨thread, _, found, _⟩ := joins.inherits
      rw [absent] at found
      cases found

/-- Admissible events apply to consistent views. -/
theorem Consistent.applies (consistent : Consistent views)
    (admissible : Admissible env views event.body) : ∃ after, views.apply event = .ok after := by
  have review {α : Type} {seq : Seq} {id : ReviewId} (change : ReviewRecord → α)
      (live : ∃ record, LiveReview views id record) :
      ∃ after, (views.loadReview seq id).map change = .ok after := by
    obtain ⟨record, found, _⟩ := live
    exact ⟨_, map_eq_ok.mpr ⟨record, Views.require_eq_ok.mpr found, rfl⟩⟩
  obtain ⟨seq, ts, author, clientId, clientSeq, body⟩ := event
  cases body with
  | workspaceCreated workspace => exact ⟨_, rfl⟩
  | workspaceUpdated workspaceId name =>
    obtain ⟨workspace, found⟩ := admissible
    exact ⟨_, map_eq_ok.mpr ⟨workspace, Views.require_eq_ok.mpr found, rfl⟩⟩
  | repoAttached workspaceId repo =>
    obtain ⟨workspace, found, _⟩ := admissible
    exact ⟨_, map_eq_ok.mpr ⟨workspace, Views.require_eq_ok.mpr found, rfl⟩⟩
  | repoDetached workspaceId repoId =>
    obtain ⟨workspace, found, _⟩ := admissible
    exact ⟨_, map_eq_ok.mpr ⟨workspace, Views.require_eq_ok.mpr found, rfl⟩⟩
  | reviewCreated created => exact ⟨_, rfl⟩
  | reviewUpdated reviewId title status => exact review _ admissible
  | reviewTargetUpdated reviewId target =>
    obtain ⟨record, ⟨found, _⟩, stored, mem, same⟩ := admissible
    have present : record.review.targets.items.any
        (fun stored => stored.repoId = target.repoId) = true :=
      List.any_eq_true.mpr ⟨stored, mem, by simpa using same⟩
    exact ⟨_, bind_eq_ok.mpr ⟨record, Views.require_eq_ok.mpr found, if_pos present⟩⟩
  | reviewDeleted reviewId => exact review _ admissible
  | reviewTargetsResolved reviewId targets => exact review _ admissible
  | commentCreated comment =>
    obtain ⟨_, origin⟩ := admissible
    have stored : ∃ record, views.reviews[comment.reviewId]? = some record := by
      rcases origin with starts | joins
      · obtain ⟨record, found, _⟩ := starts.review
        exact ⟨record, found⟩
      · obtain ⟨_, root, _, ⟨found, _⟩, _⟩ := joins.inherits
        exact consistent.reviewed found
    obtain ⟨record, found⟩ := stored
    obtain ⟨thread, joined⟩ := Consistent.joinThread_ok seq origin
    exact ⟨_, bind_eq_ok.mpr ⟨record, Views.require_eq_ok.mpr found,
      map_eq_ok.mpr ⟨thread, joined, rfl⟩⟩⟩
  | commentEdited reviewId commentId text =>
    obtain ⟨comment, found, _⟩ := admissible
    exact ⟨_, map_eq_ok.mpr ⟨comment, Views.require_eq_ok.mpr found, rfl⟩⟩
  | commentDeleted reviewId commentId =>
    obtain ⟨comment, found, _⟩ := admissible
    exact ⟨_, map_eq_ok.mpr ⟨comment, Views.require_eq_ok.mpr found, rfl⟩⟩
  | commentReanchored reviewId commentId anchor state =>
    obtain ⟨comment, _, _, _, found, _⟩ := admissible.computed
    exact ⟨_, map_eq_ok.mpr ⟨comment, Views.require_eq_ok.mpr found, rfl⟩⟩
  | threadDeferred reviewId threadId reason trackingUrl =>
    obtain ⟨thread, found, _⟩ := admissible
    exact ⟨_, map_eq_ok.mpr ⟨thread, Views.require_eq_ok.mpr found, rfl⟩⟩
  | threadResolved reviewId threadId =>
    obtain ⟨thread, found, _⟩ := admissible
    exact ⟨_, map_eq_ok.mpr ⟨thread, Views.require_eq_ok.mpr found, rfl⟩⟩
  | threadUnresolved reviewId threadId =>
    obtain ⟨thread, found, _⟩ := admissible
    exact ⟨_, map_eq_ok.mpr ⟨thread, Views.require_eq_ok.mpr found, rfl⟩⟩
  | fileViewed reviewId repoId path viewer content => exact review _ admissible
  | fileUnviewed reviewId repoId path viewer => exact ⟨_, rfl⟩
  | reviewRequested reviewId agent note targets comparison => exact ⟨_, rfl⟩
  | reviewChecked reviewId reviewer targets inReplyTo => exact ⟨_, rfl⟩
  | suggestionApplied reviewId commentId repoId path resultBlob =>
    obtain ⟨_, suggestion, found, _⟩ := admissible
    exact ⟨_, map_eq_ok.mpr ⟨suggestion, Views.require_eq_ok.mpr found, rfl⟩⟩

end Applying

/-! ## Admissible events keep views consistent -/

section Keeping

variable {env : Environment} {event : Event} {before after : Views}

/-- No event but a creation turns a thread informational, or an informational
thread into another. -/
private theorem Follows.resolution_kept (follows : Follows event before after)
    (admissible : Admissible env before event.body)
    (other : ∀ comment, event.body ≠ .commentCreated comment) {key : ReviewId × ThreadId}
    {old new : Thread} (found : before.threads[key]? = some old)
    (now : after.threads[key]? = some new) :
    new.resolution = .informational ↔ old.resolution = .informational := by
  have settled {reviewId : ReviewId} {threadId : ThreadId} {resolution : ThreadResolution}
      (actionable : ∃ thread, before.threads[(reviewId, threadId)]? = some thread ∧
        thread.resolution ≠ .informational)
      (result : resolution ≠ .informational)
      (changed : Rows.changeAt (reviewId, threadId) key (Rows.settled resolution) (some old) =
        some new) : new.resolution = .informational ↔ old.resolution = .informational := by
    unfold Rows.changeAt at changed
    split at changed
    · next same =>
      obtain ⟨thread, present, unsettled⟩ := actionable
      rw [same, found] at present
      obtain rfl := Option.some.inj present
      obtain rfl := Option.some.inj changed
      exact iff_of_false result unsettled
    · obtain rfl := Option.some.inj changed
      exact Iff.rfl
  rw [follows.thread, found, Rows.thread] at now
  split at now
  · next created => exact absurd created (other _)
  · next deferred =>
    rw [deferred] at admissible
    obtain ⟨thread, present, opened⟩ := admissible
    exact settled ⟨thread, present, by simp [opened]⟩ (by simp) now
  · next resolved =>
    rw [resolved] at admissible
    obtain ⟨thread, present, actionable, _⟩ := admissible
    exact settled ⟨thread, present, actionable⟩ (by simp) now
  · next unresolved =>
    rw [unresolved] at admissible
    obtain ⟨thread, present, actionable, _⟩ := admissible
    exact settled ⟨thread, present, actionable⟩ (by simp) now
  · obtain rfl := Option.some.inj now
    exact Iff.rfl

/-- What an event other than a creation may do to a comment's anchor and state. -/
private theorem Follows.comment_changed (consistent : Consistent before)
    (follows : Follows event before after) (admissible : Admissible env before event.body)
    (other : ∀ comment, event.body ≠ .commentCreated comment) {key : ReviewId × CommentId}
    {old new : Comment} (found : before.comments[key]? = some old)
    (now : after.comments[key]? = some new) :
    (new.anchor = old.anchor ∧ (new.state = old.state ∨ new.state = .deleted)) ∨
      ∃ fate oldBlob newBlob, old.anchor ≠ .review ∧
        Moved old.anchor old.state oldBlob newBlob fate new.anchor new.state := by
  rw [follows.comment, found, Rows.comment] at now
  unfold Rows.changeAt at now
  split at now
  · next created => exact absurd created (other _)
  · split at now <;> cases now <;> exact Or.inl ⟨rfl, Or.inl rfl⟩
  · split at now <;> cases now
    · exact Or.inl ⟨rfl, Or.inr rfl⟩
    · exact Or.inl ⟨rfl, Or.inl rfl⟩
  · next reanchored =>
    split at now <;> cases now
    · next same =>
      subst same
      rw [reanchored] at admissible
      obtain ⟨comment, fate, number, repo, present, _, outcome⟩ := admissible.computed
      rw [found] at present
      cases present
      have moved := moved_of_reanchor outcome
      refine Or.inr ⟨fate, _, _, ?_, moved⟩
      rw [← consistent.effectiveAnchor_eq found]
      exact moved.anchored
    · exact Or.inl ⟨rfl, Or.inl rfl⟩
  · cases now
    exact Or.inl ⟨rfl, Or.inl rfl⟩

/-- Every event but a creation keeps views consistent. -/
private theorem Consistent.change (consistent : Consistent before)
    (follows : Follows event before after) (admissible : Admissible env before event.body)
    (other : ∀ comment, event.body ≠ .commentCreated comment) : Consistent after := by
  have commentBefore {key : ReviewId × CommentId} {new : Comment}
      (now : after.comments[key]? = some new) : ∃ old, before.comments[key]? = some old ∧
        old.threadId = new.threadId ∧ old.kind = new.kind := by
    obtain ⟨old, found, same⟩ := exists_of_map_eq (follows.comment_shape other key) now
    exact ⟨old, found, (Prod.mk.inj same).1, (Prod.mk.inj same).2⟩
  have commentAfter {key : ReviewId × CommentId} {old : Comment}
      (found : before.comments[key]? = some old) : ∃ new, after.comments[key]? = some new ∧
        new.threadId = old.threadId := by
    obtain ⟨new, now, same⟩ := exists_of_map_eq (follows.comment_shape other key).symm found
    exact ⟨new, now, (Prod.mk.inj same).1⟩
  have threadBefore {key : ReviewId × ThreadId} {new : Thread}
      (now : after.threads[key]? = some new) : ∃ old, before.threads[key]? = some old ∧
        old.root = new.root ∧ threadMembers old = threadMembers new := by
    obtain ⟨old, found, same⟩ := exists_of_map_eq (follows.thread_shape other key) now
    obtain ⟨root, replies⟩ := Prod.mk.inj same
    exact ⟨old, found, root, by rw [threadMembers, threadMembers, root, replies]⟩
  have threadAfter {key : ReviewId × ThreadId} {old : Thread}
      (found : before.threads[key]? = some old) : ∃ new, after.threads[key]? = some new ∧
        threadMembers new = threadMembers old := by
    obtain ⟨new, now, same⟩ := exists_of_map_eq (follows.thread_shape other key).symm found
    obtain ⟨root, replies⟩ := Prod.mk.inj same
    exact ⟨new, now, by rw [threadMembers, threadMembers, root, replies]⟩
  refine
    { toKeyed := consistent.toKeyed.follows follows
      reviewed := ?_, rooted := ?_, listed := ?_, mem := ?_, nodup := ?_
      informational := ?_, reviewLevel := ?_, lastGood := ?_ }
  · intro review id comment now
    obtain ⟨_, found, _⟩ := commentBefore now
    obtain ⟨record, stored⟩ := consistent.reviewed found
    exact follows.review_kept stored
  · intro review id thread now
    obtain ⟨old, found, root, _⟩ := threadBefore now
    rw [← root]
    exact consistent.rooted found
  · intro review id comment now
    obtain ⟨old, found, threadId, _⟩ := commentBefore now
    obtain ⟨thread, stored, mem⟩ := consistent.listed found
    obtain ⟨new, stays, members⟩ := threadAfter stored
    exact ⟨new, by rw [← threadId]; exact stays, by rw [members]; exact mem⟩
  · intro review threadId thread id now mem
    obtain ⟨old, found, _, members⟩ := threadBefore now
    obtain ⟨comment, stored, names⟩ := consistent.mem found (by rw [members]; exact mem)
    obtain ⟨new, stays, same⟩ := commentAfter stored
    exact ⟨new, stays, same.trans names⟩
  · intro review id thread now
    obtain ⟨old, found, _, members⟩ := threadBefore now
    rw [← members]
    exact consistent.nodup found
  · intro review id thread root now rootNow
    obtain ⟨old, found, sameRoot, _⟩ := threadBefore now
    obtain ⟨oldRoot, rootFound, _, kind⟩ := commentBefore rootNow
    rw [← kind, follows.resolution_kept admissible other found now]
    exact consistent.informational found (by rw [sameRoot]; exact rootFound)
  · intro review id thread root now rootNow informational
    obtain ⟨old, found, sameRoot, _⟩ := threadBefore now
    obtain ⟨oldRoot, rootFound, _, kind⟩ := commentBefore rootNow
    have level := consistent.reviewLevel found (by rw [sameRoot]; exact rootFound)
      (by rw [kind]; exact informational)
    rcases Follows.comment_changed consistent follows admissible other rootFound rootNow with
      ⟨anchor, _⟩ | ⟨_, _, _, anchored, _⟩
    · rw [anchor, level]
    · exact absurd level anchored
  · intro key comment anchor now state
    obtain ⟨old, found, _⟩ := commentBefore now
    rcases Follows.comment_changed consistent follows admissible other found now with
      ⟨sameAnchor, sameState | deleted⟩ | ⟨_, _, _, _, moved⟩
    · rw [sameAnchor]
      exact consistent.lastGood found (by rw [← sameState]; exact state)
    · rw [deleted] at state
      cases state
    · obtain ⟨lastGood, kept⟩ := moved.lastGood state
      rw [lastGood, consistent.effectiveAnchor_eq found, kept]

/-- The thread that a created comment ends up in. -/
private structure Seated (views : Views) (comment : Comment) (thread : Thread) : Prop where
  rooted : thread.root.ulid = comment.threadId.ulid
  members : ∀ id, id ∈ threadMembers thread ↔ id = comment.id ∨
    ∃ old, views.threads[(comment.reviewId, comment.threadId)]? = some old ∧ id ∈ threadMembers old
  nodup : (threadMembers thread).Nodup
  root : ∀ {root}, (thread.root = comment.id ∧ root = comment ∨
      views.comments[(comment.reviewId, thread.root)]? = some root) →
    (thread.resolution = .informational ↔ root.kind = .informational) ∧
      (root.kind = .informational → root.anchor = .review)

private theorem Consistent.seated {comment : Comment} (consistent : Consistent before)
    (free : before.comments[(comment.reviewId, comment.id)]? = none)
    (origin : Starts env before comment ∨ Joins before comment) : Seated before comment
      (Rows.joined comment before.threads[(comment.reviewId, comment.threadId)]?) := by
  cases present : before.threads[(comment.reviewId, comment.threadId)]? with
  | some thread =>
    have fresh : comment.id ∉ threadMembers thread := by
      intro mem
      obtain ⟨_, found, _⟩ := consistent.mem present mem
      rw [free] at found
      cases found
    have members : threadMembers (Rows.joined comment (some thread)) =
        threadMembers thread ++ [comment.id] := rfl
    refine ⟨(consistent.rooted present :), ?_, ?_, ?_⟩
    · intro id
      rw [members, List.mem_append, List.mem_singleton, present, or_comm]
      simp
    · rw [members]
      exact (List.nodup_append_comm.mp (by simpa using ⟨fresh, consistent.nodup present⟩))
    · rintro root (⟨same, _⟩ | found)
      · exact absurd (by rw [← same]; exact List.mem_cons_self) fresh
      · have stored : before.comments[(comment.reviewId, thread.root)]? = some root := found
        have settled := consistent.informational present stored
        exact ⟨settled, consistent.reviewLevel present stored⟩
  | none =>
    rcases origin with starts | joins
    · refine ⟨?_, ?_, List.nodup_singleton _, ?_⟩
      · rw [starts.thread]
        exact (Id.ulid_fromParts comment.id).symm
      · intro id
        simp [threadMembers, Rows.joined, Rows.startThread, present]
      · rintro root (⟨_, rfl⟩ | found)
        · refine ⟨?_, starts.informational⟩
          simp only [Rows.joined, Rows.startThread, Option.elim]
          cases root.kind <;> simp [ThreadResolution.forRoot]
        · rw [show (Rows.joined comment none).root = comment.id from rfl, free] at found
          cases found
    · obtain ⟨thread, _, found, _⟩ := joins.inherits
      rw [present] at found
      cases found

/-- The creation of a comment keeps views consistent. -/
private theorem Consistent.create {comment : Comment} (consistent : Consistent before)
    (follows : Follows event before after) (created : event.body = .commentCreated comment)
    (admissible : Admissible env before event.body) : Consistent after := by
  rw [created] at admissible
  obtain ⟨free, origin⟩ := admissible
  have seated := consistent.seated free origin
  set joined := Rows.joined comment before.threads[(comment.reviewId, comment.threadId)]?
  have comments (key : ReviewId × CommentId) : after.comments[key]? =
      if (comment.reviewId, comment.id) = key then some comment else before.comments[key]? := by
    rw [follows.comment, Rows.comment, created]
    rfl
  have threads (key : ReviewId × ThreadId) : after.threads[key]? =
      if (comment.reviewId, comment.threadId) = key then some joined
      else before.threads[key]? := by
    rw [follows.thread, Rows.thread, created]
    by_cases same : (comment.reviewId, comment.threadId) = key
    · subst same
      rfl
    · simp only [Rows.storeAt, if_neg same]
  -- Comments other than the created one are those there were.
  have stays {key : ReviewId × CommentId} {old : Comment}
      (found : before.comments[key]? = some old) : after.comments[key]? = some old := by
    rw [comments, if_neg, found]
    rintro rfl
    rw [free] at found
    cases found
  have commentNow {key : ReviewId × CommentId} {new : Comment}
      (now : after.comments[key]? = some new) :
      (comment.reviewId, comment.id) = key ∧ comment = new ∨
        before.comments[key]? = some new := by
    rw [comments] at now
    split at now
    · next same => exact Or.inl ⟨same, Option.some.inj now⟩
    · exact Or.inr now
  have threadNow {key : ReviewId × ThreadId} {new : Thread}
      (now : after.threads[key]? = some new) :
      (comment.reviewId, comment.threadId) = key ∧ joined = new ∨
        before.threads[key]? = some new := by
    rw [threads] at now
    split at now
    · next same => exact Or.inl ⟨same, Option.some.inj now⟩
    · exact Or.inr now
  -- A thread that lists a comment still lists it.
  have threadStays {key : ReviewId × ThreadId} {old : Thread} {id : CommentId}
      (found : before.threads[key]? = some old) (mem : id ∈ threadMembers old) :
      ∃ new, after.threads[key]? = some new ∧ id ∈ threadMembers new := by
    rw [threads]
    split
    · next same =>
      refine ⟨joined, rfl, (seated.members id).mpr (Or.inr ⟨old, ?_, mem⟩)⟩
      rw [same, found]
    · exact ⟨old, found, mem⟩
  -- The stored root of a thread that a creation did not start.
  have rootNow {thread : Thread} {root : Comment} {review : ReviewId} {id : ThreadId}
      (found : before.threads[(review, id)]? = some thread)
      (now : after.comments[(review, thread.root)]? = some root) :
      before.comments[(review, thread.root)]? = some root := by
    obtain ⟨old, stored, _⟩ := consistent.mem found List.mem_cons_self
    rw [stays stored] at now
    rw [stored, now]
  refine
    { toKeyed := consistent.toKeyed.follows follows
      reviewed := ?_, rooted := ?_, listed := ?_, mem := ?_, nodup := ?_
      informational := ?_, reviewLevel := ?_, lastGood := ?_ }
  · intro review id new now
    rcases commentNow now with ⟨same, rfl⟩ | found
    · cases same
      rcases origin with starts | joins
      · obtain ⟨record, found, _⟩ := starts.review
        exact follows.review_kept found
      · obtain ⟨_, root, _, ⟨found, _⟩, _⟩ := joins.inherits
        obtain ⟨record, stored⟩ := consistent.reviewed found
        exact follows.review_kept stored
    · obtain ⟨record, stored⟩ := consistent.reviewed found
      exact follows.review_kept stored
  · intro review id new now
    rcases threadNow now with ⟨same, rfl⟩ | found
    · cases same
      exact seated.rooted
    · exact consistent.rooted found
  · intro review id new now
    rcases commentNow now with ⟨same, rfl⟩ | found
    · cases same
      exact ⟨joined, by rw [threads, if_pos rfl], (seated.members _).mpr (Or.inl rfl)⟩
    · obtain ⟨thread, stored, mem⟩ := consistent.listed found
      exact threadStays stored mem
  · intro review threadId new id now mem
    have kept {thread : Thread} (found : before.threads[(review, threadId)]? = some thread)
        (mem : id ∈ threadMembers thread) :
        ∃ comment, after.comments[(review, id)]? = some comment ∧ comment.threadId = threadId := by
      obtain ⟨stored, present, names⟩ := consistent.mem found mem
      exact ⟨stored, stays present, names⟩
    rcases threadNow now with ⟨same, rfl⟩ | found
    · rcases (seated.members id).mp mem with rfl | ⟨old, found, mem⟩
      · cases same
        exact ⟨comment, by rw [comments, if_pos rfl], rfl⟩
      · rw [same] at found
        exact kept found mem
    · exact kept found mem
  · intro review id new now
    rcases threadNow now with ⟨_, rfl⟩ | found
    · exact seated.nodup
    · exact consistent.nodup found
  · intro review id new root now stored
    rcases threadNow now with ⟨same, rfl⟩ | found
    · cases same
      refine (seated.root ?_).1
      rcases commentNow stored with ⟨same, rfl⟩ | found
      · exact Or.inl ⟨(Prod.mk.inj same).2.symm, rfl⟩
      · exact Or.inr found
    · exact consistent.informational found (rootNow found stored)
  · intro review id new root now stored
    rcases threadNow now with ⟨same, rfl⟩ | found
    · cases same
      refine (seated.root ?_).2
      rcases commentNow stored with ⟨same, rfl⟩ | found
      · exact Or.inl ⟨(Prod.mk.inj same).2.symm, rfl⟩
      · exact Or.inr found
    · exact consistent.reviewLevel found (rootNow found stored)
  · intro key new anchor now outdated
    rcases commentNow now with ⟨_, rfl⟩ | found
    · rcases origin with starts | joins
      · rw [starts.state] at outdated
        cases outdated
      · obtain ⟨_, root, _, ⟨found, _⟩, sameAnchor, sameState, _⟩ := joins.inherits
        rw [sameAnchor]
        exact consistent.lastGood found (by rw [← sameState, outdated])
    · exact consistent.lastGood found outdated

/-- Admissible events keep views consistent. -/
theorem Consistent.step (consistent : Consistent before)
    (admissible : Admissible env before event.body)
    (applied : before.apply event = .ok after) : Consistent after := by
  have follows := Views.follows_of_apply consistent.toKeyed applied
  by_cases creation : ∃ comment, event.body = .commentCreated comment
  · obtain ⟨comment, created⟩ := creation
    exact consistent.create follows created admissible
  · exact consistent.change follows admissible fun comment created => creation ⟨comment, created⟩

end Keeping

end Nits.ReviewCore
