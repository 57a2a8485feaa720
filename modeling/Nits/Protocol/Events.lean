import Nits.Protocol.Domain

/-!
# The event log's wire form

Every kind of thing that can happen. Each body carries enough to update the
materialised views without consulting anything but earlier events.
-/

namespace Nits.Protocol

/-- What an event records. -/
inductive EventBody
  | workspaceCreated (workspace : Workspace)
  | workspaceUpdated (workspaceId : WorkspaceId) (name : String)
  | repoAttached (workspaceId : WorkspaceId) (repo : Repo)
  | repoDetached (workspaceId : WorkspaceId) (repoId : RepoId)
  | reviewCreated (review : Review)
  | reviewUpdated (reviewId : ReviewId) (title : String) (status : ReviewStatus)
  /-- One repository's requested base/head pair changed. -/
  | reviewTargetUpdated (reviewId : ReviewId) (target : ReviewTarget)
  /-- Tombstone. The review is excluded from listings. -/
  | reviewDeleted (reviewId : ReviewId)
  /-- Snapshot of the resolved object ids. Emitted only when they change. -/
  | reviewTargetsResolved (reviewId : ReviewId) (targets : NonEmpty ResolvedTarget)
  | commentCreated (comment : Comment)
  | commentEdited (reviewId : ReviewId) (commentId : CommentId) (body : String)
  | commentDeleted (reviewId : ReviewId) (commentId : CommentId)
  /-- Result of re-anchoring after the review's targets moved. -/
  | commentReanchored (reviewId : ReviewId) (commentId : CommentId) (anchor : Anchor)
      (state : CommentState)
  | threadDeferred (reviewId : ReviewId) (threadId : ThreadId) (reason : DeferralReason)
      (trackingUrl : Option TrackingUrl)
  | threadResolved (reviewId : ReviewId) (threadId : ThreadId)
  | threadUnresolved (reviewId : ReviewId) (threadId : ThreadId)
  /-- Human-only; rejected from agents before it is appended. -/
  | fileViewed (reviewId : ReviewId) (repoId : RepoId) (path : RepoPath) (viewer : Human)
      (content : ViewedContent)
  | fileUnviewed (reviewId : ReviewId) (repoId : RepoId) (path : RepoPath) (viewer : Human)
  /-- Asks a named agent to review. -/
  | reviewRequested (reviewId : ReviewId) (agent note : String) (targets : RequestedTargets)
      (checkpointComparison : RequestCheckpointComparison)
  | reviewChecked (reviewId : ReviewId) (reviewer : ReviewerIdentity)
      (targets : NonEmpty ResolvedTarget) (inReplyTo : Option ReviewRound)
  /-- A suggestion comment's patch was written to the working tree. -/
  | suggestionApplied (reviewId : ReviewId) (commentId : CommentId) (repoId : RepoId)
      (path : RepoPath) (resultBlob : BlobOid)
  deriving DecidableEq

namespace EventBody

/-- The review this event belongs to, if any. -/
def reviewId : EventBody → Option ReviewId
  | .workspaceCreated _ | .workspaceUpdated .. | .repoAttached .. | .repoDetached .. => none
  | .reviewCreated review => some review.id
  | .commentCreated comment => some comment.reviewId
  | .reviewUpdated reviewId .. | .reviewTargetUpdated reviewId _ | .reviewDeleted reviewId
  | .reviewTargetsResolved reviewId _ | .commentEdited reviewId .. | .commentDeleted reviewId _
  | .commentReanchored reviewId .. | .threadDeferred reviewId .. | .threadResolved reviewId _
  | .threadUnresolved reviewId _ | .fileViewed reviewId .. | .fileUnviewed reviewId ..
  | .reviewRequested reviewId .. | .reviewChecked reviewId .. | .suggestionApplied reviewId .. =>
    some reviewId

/-- The workspace this event belongs to, if it is a workspace-level event. -/
def workspaceId : EventBody → Option WorkspaceId
  | .workspaceCreated workspace => some workspace.id
  | .workspaceUpdated workspaceId _ | .repoAttached workspaceId _ | .repoDetached workspaceId _ =>
    some workspaceId
  | .reviewCreated review => some review.workspaceId
  | .reviewUpdated .. | .reviewTargetUpdated .. | .reviewDeleted _ | .reviewTargetsResolved ..
  | .commentCreated _ | .commentEdited .. | .commentDeleted .. | .commentReanchored ..
  | .threadDeferred .. | .threadResolved .. | .threadUnresolved .. | .fileViewed ..
  | .fileUnviewed .. | .reviewRequested .. | .reviewChecked .. | .suggestionApplied .. => none

end EventBody

/-- A committed event: has a daemon-assigned `seq`. -/
structure Event where
  seq : Seq
  ts : Timestamp
  author : Author
  clientId : ClientId
  clientSeq : ClientSeq
  body : EventBody
  deriving DecidableEq

/-- Derive the same record for historical replay, live delivery and view rebuilds. -/
def ReviewRequest.fromEvent (event : Event) : Option ReviewRequest :=
  match event.body with
  | .reviewRequested reviewId agent note targets checkpointComparison =>
    some {
      id := .fromEventSeq event.seq
      reviewId
      requester := event.author
      recipient := agent
      targets
      checkpointComparison
      note
      created := event.ts }
  | _ => none

def ReviewCheckpoint.fromEvent (event : Event) : Option ReviewCheckpoint :=
  match event.body with
  | .reviewChecked reviewId reviewer targets inReplyTo =>
    some {
      id := .fromEventSeq event.seq
      reviewId
      reviewer
      author := event.author
      created := event.ts
      targets
      inReplyTo }
  | _ => none

/-! ## Requests and snapshots -/

/-- What a client asks the daemon to change. -/
inductive Mutation
  | createWorkspace (workspaceId : WorkspaceId) (name : String)
  | renameWorkspace (workspaceId : WorkspaceId) (name : String)
  | attachRepo (workspaceId : WorkspaceId) (repoId : RepoId) (path displayName : String)
  | detachRepo (workspaceId : WorkspaceId) (repoId : RepoId)
  | createReview (reviewId : ReviewId) (workspaceId : WorkspaceId) (title : String)
      (targets : NonEmpty ReviewTarget)
  | updateReview (reviewId : ReviewId) (title : String) (status : ReviewStatus)
  | updateReviewTarget (reviewId : ReviewId) (update : ReviewTargetUpdate)
  | deleteReview (reviewId : ReviewId)
  /-- Starts a new thread. `commentId` doubles as the thread id. -/
  | addComment (reviewId : ReviewId) (commentId : CommentId) (kind : CommentKind)
      (anchor : Anchor) (body : String) (context : Option CommentContext)
  | reply (reviewId : ReviewId) (threadId : ThreadId) (commentId : CommentId)
      (kind : CommentKind) (body : String)
  | editComment (reviewId : ReviewId) (commentId : CommentId) (body : String)
  | deleteComment (reviewId : ReviewId) (commentId : CommentId)
  | deferThread (reviewId : ReviewId) (threadId : ThreadId) (reason : DeferralReason)
      (trackingUrl : Option TrackingUrl)
  | resolveThread (reviewId : ReviewId) (threadId : ThreadId)
  | unresolveThread (reviewId : ReviewId) (threadId : ThreadId)
  /-- Human-only. -/
  | markViewed (reviewId : ReviewId) (repoId : RepoId) (path : RepoPath)
  | unmarkViewed (reviewId : ReviewId) (repoId : RepoId) (path : RepoPath)
  | requestReview (reviewId : ReviewId) (agent note : String)
  | recordCheckpoint (reviewId : ReviewId) (targets : NonEmpty ResolvedTarget)
      (inReplyTo : Option ReviewRound)
  | applySuggestion (reviewId : ReviewId) (commentId : CommentId)

/-- The review a mutation names, if any. -/
def Mutation.reviewId : Mutation → Option ReviewId
  | .createWorkspace .. | .renameWorkspace .. | .attachRepo .. | .detachRepo .. => none
  | .createReview reviewId .. | .updateReview reviewId .. | .updateReviewTarget reviewId _
  | .deleteReview reviewId | .addComment reviewId .. | .reply reviewId .. | .editComment reviewId ..
  | .deleteComment reviewId _ | .deferThread reviewId .. | .resolveThread reviewId _
  | .unresolveThread reviewId _ | .markViewed reviewId .. | .unmarkViewed reviewId ..
  | .requestReview reviewId .. | .recordCheckpoint reviewId .. | .applySuggestion reviewId _ =>
    some reviewId

/-- A mutation without what it carries. -/
inductive MutationKind
  | createWorkspace | renameWorkspace | attachRepo | detachRepo | createReview | updateReview
  | updateReviewTarget | deleteReview | addComment | reply | editComment | deleteComment
  | deferThread | resolveThread | unresolveThread | markViewed | unmarkViewed | requestReview
  | recordCheckpoint | applySuggestion

def Mutation.kind : Mutation → MutationKind
  | .createWorkspace .. => .createWorkspace
  | .renameWorkspace .. => .renameWorkspace
  | .attachRepo .. => .attachRepo
  | .detachRepo .. => .detachRepo
  | .createReview .. => .createReview
  | .updateReview .. => .updateReview
  | .updateReviewTarget .. => .updateReviewTarget
  | .deleteReview _ => .deleteReview
  | .addComment .. => .addComment
  | .reply .. => .reply
  | .editComment .. => .editComment
  | .deleteComment .. => .deleteComment
  | .deferThread .. => .deferThread
  | .resolveThread .. => .resolveThread
  | .unresolveThread .. => .unresolveThread
  | .markViewed .. => .markViewed
  | .unmarkViewed .. => .unmarkViewed
  | .requestReview .. => .requestReview
  | .recordCheckpoint .. => .recordCheckpoint
  | .applySuggestion .. => .applySuggestion

/-- The sections of a client's view that an input can touch. -/
inductive ViewSection
  | connection | search | reviewList | tree | diff | threads | conversation | commitStepper
  | refSelector | progress | focus | hints | help | draft

/-- One coherent read of a review: every materialised field and the log position
it reflects. -/
structure ReviewSnapshot where
  review : Review
  resolved : Option (NonEmpty ResolvedTarget)
  threads : List Thread
  comments : List Comment
  suggestions : List SuggestionRecord
  viewed : List ViewedMark
  requests : List ReviewRequest
  checkpoints : List ReviewCheckpoint
  seq : Seq
  deriving DecidableEq

end Nits.Protocol
