import Nits.ReviewCore.Comments
import Nits.ReviewCore.Store.Rows

/-!
# What the core has established when it appends

The abstract reading of every validation in the core: for each kind of event, the
facts about the views, and about git's answers, that hold whenever an operation
appends it. Everything that is true of all reachable stores follows from these
facts by induction on the log.
-/

namespace Nits.ReviewCore

open Logical Protocol

/-- A stored review that has not been deleted. -/
structure LiveReview (views : Views) (id : ReviewId) (record : ReviewRecord) : Prop where
  found : views.reviews[id]? = some record
  live : record.lifecycle = .live

/-- A stored comment that has not been deleted. -/
structure LiveComment (views : Views) (review : ReviewId) (id : CommentId) (comment : Comment) :
    Prop where
  found : views.comments[(review, id)]? = some comment
  kept : comment.state ≠ .deleted

theorem LiveComment.eq {views : Views} {review : ReviewId} {id : CommentId}
    {comment other : Comment} (live : LiveComment views review id comment)
    (again : LiveComment views review id other) : comment = other :=
  Option.some.inj (live.found.symm.trans again.found)

variable [Platform]

/-- A line anchor was checked and hashed against content that git gave. -/
inductive Stamped (env : Environment) : Anchor → Prop
  | review : Stamped env .review
  | file {repoId path blobOid} : Stamped env (.file repoId path blobOid)
  | lines {repoId path side blobOid range number repo bytes}
      (answered : env.content number repo blobOid = some bytes)
      (inside : range.finish.index < (linesOf bytes).length) :
      Stamped env
        (.lines repoId path side blobOid range (contextHash (linesOf bytes) range))

/-- A comment that starts a thread in a live review. -/
structure Starts (env : Environment) (views : Views) (comment : Comment) : Prop where
  review : ∃ record, LiveReview views comment.reviewId record
  thread : comment.threadId = Core.threadIdOf comment.id
  state : comment.state = .live
  informational : comment.kind = .informational → comment.anchor = .review
  browse : Core.isBrowse comment.context → Core.browsable comment.anchor
  stamped : Stamped env comment.anchor

/-- A comment that replies in a stored thread inherits from the thread's root. -/
structure Joins (views : Views) (comment : Comment) : Prop where
  inherits : ∃ thread root,
    views.threads[(comment.reviewId, comment.threadId)]? = some thread ∧
    LiveComment views comment.reviewId thread.root root ∧
    comment.anchor = root.anchor ∧ comment.state = root.state ∧ comment.context = root.context

/-- A comment's re-anchoring was computed from content that git gave. -/
structure Moves (env : Environment) (views : Views) (review : ReviewId) (id : CommentId)
    (anchor : Anchor) (state : CommentState) : Prop where
  live : ∃ record, LiveReview views review record
  computed : ∃ comment fate number repo,
    views.comments[(review, id)]? = some comment ∧ Core.isBrowse comment.context = false ∧
    reanchor comment.anchor comment.state fate (env.content number repo)
      (env.content (number + 1) repo) = .ok (.moved anchor state)

/-- The facts established about an event when it is appended. -/
def Admissible (env : Environment) (views : Views) : EventBody → Prop
  | .workspaceCreated workspace => views.workspaces[workspace.id]? = none ∧ workspace.repos = []
  | .workspaceUpdated workspaceId _ => ∃ workspace, views.workspaces[workspaceId]? = some workspace
  | .repoAttached workspaceId repo =>
    ∃ workspace, views.workspaces[workspaceId]? = some workspace ∧
      ∀ mem ∈ workspace.repos, mem.id ≠ repo.id
  | .repoDetached workspaceId repoId =>
    ∃ workspace, views.workspaces[workspaceId]? = some workspace ∧
      ∃ mem ∈ workspace.repos, mem.id = repoId
  | .reviewCreated review => views.reviews[review.id]? = none
  | .reviewUpdated reviewId .. | .reviewDeleted reviewId | .reviewTargetsResolved reviewId _
  | .fileViewed reviewId .. | .fileUnviewed reviewId .. | .reviewRequested reviewId ..
  | .reviewChecked reviewId .. => ∃ record, LiveReview views reviewId record
  | .reviewTargetUpdated reviewId target =>
    ∃ record, LiveReview views reviewId record ∧
      ∃ stored ∈ record.review.targets.items, stored.repoId = target.repoId
  | .commentCreated comment =>
    views.comments[(comment.reviewId, comment.id)]? = none ∧
      (Starts env views comment ∨ Joins views comment)
  | .commentEdited reviewId commentId _ | .commentDeleted reviewId commentId =>
    ∃ comment, LiveComment views reviewId commentId comment
  | .commentReanchored reviewId commentId anchor state =>
    Moves env views reviewId commentId anchor state
  | .threadDeferred reviewId threadId .. =>
    ∃ thread, views.threads[(reviewId, threadId)]? = some thread ∧ thread.resolution = .opened
  | .threadResolved reviewId threadId =>
    ∃ thread, views.threads[(reviewId, threadId)]? = some thread ∧
      thread.resolution ≠ .informational ∧ Core.isResolved thread.resolution = false
  | .threadUnresolved reviewId threadId =>
    ∃ thread, views.threads[(reviewId, threadId)]? = some thread ∧
      thread.resolution ≠ .informational ∧ thread.resolution ≠ .opened
  | .suggestionApplied reviewId commentId .. =>
    (∃ record, LiveReview views reviewId record) ∧
      ∃ suggestion, views.suggestions[(reviewId, commentId)]? = some suggestion ∧
        suggestion.outcome = .unapplied

end Nits.ReviewCore
