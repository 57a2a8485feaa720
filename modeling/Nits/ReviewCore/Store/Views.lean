import Nits.Protocol.Events

/-!
# The fold from events to view tables

`apply` is the only writer of the view tables, used both incrementally by
`Store.append` and in bulk by `Store.rebuildViews`. Composite keys pair the
review, or the repository and blob, with the entity's own identifier.
-/

namespace Nits.ReviewCore

open Logical Protocol

/-- What the store reports. Encoding failures and migrations are outside the
model; `redb` stands for every failure of the database itself. -/
inductive StoreError
  | inconsistent (seq : Seq) (reason : String)
  | corrupt (seq : Seq) (reason : String)
  | replay (reason : String)
  | redb (message : String)
  deriving DecidableEq

/-- Whether a review is live or has been tombstoned by `reviewDeleted`. -/
inductive ReviewLifecycle
  | live
  | deleted (at_ : Seq)
  deriving DecidableEq

/-- A review as the views hold it: the review itself plus its last resolved
targets, which are derived. -/
structure ReviewRecord where
  review : Review
  resolved : Option (NonEmpty ResolvedTarget)
  lifecycle : ReviewLifecycle

instance : Std.TransCmp (TableKey.order (K := ReviewId × RepoId × RepoPath)) := inferInstance
instance : Std.TransCmp (TableKey.order (K := ReviewId × Seq)) := inferInstance
instance : Std.TransCmp (TableKey.order (K := RepoId × BlobOid × CommentId)) := inferInstance

/-- The view tables. -/
structure Views where
  workspaces : Table WorkspaceId Workspace
  reviews : Table ReviewId ReviewRecord
  comments : Table (ReviewId × CommentId) Comment
  suggestions : Table (ReviewId × CommentId) SuggestionRecord
  threads : Table (ReviewId × ThreadId) Thread
  viewed : Table (ReviewId × RepoId × RepoPath) ViewedMark
  requests : Table (ReviewId × Seq) ReviewRequest
  checkpoints : Table (ReviewId × Seq) ReviewCheckpoint
  anchorsByBlob : Table (RepoId × BlobOid × CommentId) ReviewId

namespace Views

def empty : Views := ⟨∅, ∅, ∅, ∅, ∅, ∅, ∅, ∅, ∅⟩

/-- The row, or the reason why the event does not apply. -/
def require {α : Type} (seq : Seq) (reason : String) : Option α → Except StoreError α
  | some row => .ok row
  | none => .error (.inconsistent seq reason)

@[simp] theorem require_eq_ok {α : Type} {seq : Seq} {reason : String} {found : Option α}
    {row : α} : require seq reason found = .ok row ↔ found = some row := by
  cases found <;> simp [require]

def loadWorkspace (views : Views) (seq : Seq) (id : WorkspaceId) : Except StoreError Workspace :=
  require seq s!"unknown workspace {id}" views.workspaces[id]?

def loadReview (views : Views) (seq : Seq) (id : ReviewId) : Except StoreError ReviewRecord :=
  require seq s!"unknown review {id}" views.reviews[id]?

def loadComment (views : Views) (seq : Seq) (review : ReviewId) (id : CommentId) :
    Except StoreError Comment :=
  require seq s!"unknown comment {id} in review {review}" views.comments[(review, id)]?

def loadThread (views : Views) (seq : Seq) (review : ReviewId) (id : ThreadId) :
    Except StoreError Thread :=
  require seq s!"unknown thread {id} in review {review}" views.threads[(review, id)]?

def saveWorkspace (views : Views) (workspace : Workspace) : Views :=
  { views with workspaces := views.workspaces.insert workspace.id workspace }

def saveReview (views : Views) (record : ReviewRecord) : Views :=
  { views with reviews := views.reviews.insert record.review.id record }

def saveComment (views : Views) (comment : Comment) : Views :=
  { views with comments := views.comments.insert (comment.reviewId, comment.id) comment }

def saveThread (views : Views) (thread : Thread) : Views :=
  { views with threads := views.threads.insert (thread.reviewId, thread.id) thread }

/-- Index a comment's anchor under its blob, if it has one. -/
def indexAnchor (views : Views) (review : ReviewId) (comment : Comment) : Views :=
  match comment.anchor with
  | .review => views
  | .file repoId _ blobOid | .lines repoId _ _ blobOid _ _ =>
    { views with
      anchorsByBlob := views.anchorsByBlob.insert (repoId, blobOid, comment.id) review }

def unindexAnchor (views : Views) (comment : Comment) : Views :=
  match comment.anchor with
  | .review => views
  | .file repoId _ blobOid | .lines repoId _ _ blobOid _ _ =>
    { views with anchorsByBlob := views.anchorsByBlob.erase (repoId, blobOid, comment.id) }

/-- The thread a created comment joins or starts. -/
def joinThread (views : Views) (seq : Seq) (comment : Comment) : Except StoreError Thread :=
  match views.threads[(comment.reviewId, comment.threadId)]? with
  | some thread => .ok { thread with replies := thread.replies ++ [comment.id] }
  | none =>
    if comment.threadId.ulid ≠ comment.id.ulid then
      .error (.inconsistent seq s!"reply {comment.id} to unknown thread {comment.threadId}")
    else
      .ok {
        id := comment.threadId
        reviewId := comment.reviewId
        root := comment.id
        replies := []
        resolution := .forRoot comment.kind }

/-- Store a created comment: its thread, its row, its suggestion and its index
entry. -/
def insertComment (views : Views) (thread : Thread) (comment : Comment) : Views :=
  let suggestions := match SuggestionRecord.fromCreated comment with
    | some suggestion => views.suggestions.insert (comment.reviewId, comment.id) suggestion
    | none => views.suggestions
  let stored := { views with
    threads := views.threads.insert (comment.reviewId, comment.threadId) thread
    comments := views.comments.insert (comment.reviewId, comment.id) comment
    suggestions }
  stored.indexAnchor comment.reviewId comment

/-- Apply one event to the view tables. An event that references state the views
do not hold is an inconsistency: validation happens before `Store.append`. -/
def apply (views : Views) (event : Event) : Except StoreError Views :=
  let seq := event.seq
  match event.body with
  | .workspaceCreated workspace => .ok (views.saveWorkspace workspace)
  | .workspaceUpdated workspaceId name =>
    (views.loadWorkspace seq workspaceId).map fun workspace =>
      { views with workspaces := views.workspaces.insert workspaceId { workspace with name } }
  | .repoAttached workspaceId repo =>
    (views.loadWorkspace seq workspaceId).map fun workspace =>
      let repos := (workspace.repos.filter fun mem => mem.id ≠ repo.id) ++ [repo]
      { views with workspaces := views.workspaces.insert workspaceId { workspace with repos } }
  | .repoDetached workspaceId repoId =>
    (views.loadWorkspace seq workspaceId).map fun workspace =>
      let repos := workspace.repos.filter fun mem => mem.id ≠ repoId
      { views with workspaces := views.workspaces.insert workspaceId { workspace with repos } }
  | .reviewCreated review => .ok (views.saveReview ⟨review, none, .live⟩)
  | .reviewUpdated reviewId title status =>
    (views.loadReview seq reviewId).map fun record =>
      views.saveReview { record with review := { record.review with title, status } }
  | .reviewTargetUpdated reviewId target =>
    (views.loadReview seq reviewId).bind fun record =>
      if record.review.targets.items.any fun stored => stored.repoId = target.repoId then
        let targets := record.review.targets.mapItems
          (modifyFirst (fun stored => stored.repoId = target.repoId) fun _ => target)
          target.length_replace
        .ok (views.saveReview { record with review := { record.review with targets } })
      else .error (.inconsistent seq s!"review has no repo {target.repoId}")
  | .reviewDeleted reviewId =>
    (views.loadReview seq reviewId).map fun record =>
      views.saveReview { record with lifecycle := .deleted seq }
  | .reviewTargetsResolved reviewId targets =>
    (views.loadReview seq reviewId).map fun record =>
      views.saveReview { record with resolved := some targets }
  | .commentCreated comment =>
    (views.loadReview seq comment.reviewId).bind fun _ =>
      (views.joinThread seq comment).map fun thread => views.insertComment thread comment
  | .commentEdited reviewId commentId body =>
    (views.loadComment seq reviewId commentId).map fun comment =>
      views.saveComment { comment with body, edited := some event.ts }
  | .commentDeleted reviewId commentId =>
    (views.loadComment seq reviewId commentId).map fun comment =>
      (views.unindexAnchor comment).saveComment { comment with state := .deleted }
  | .commentReanchored reviewId commentId anchor state =>
    (views.loadComment seq reviewId commentId).map fun comment =>
      let moved := { comment with anchor, state }
      let views := (views.unindexAnchor comment).saveComment moved
      if state = .deleted then views else views.indexAnchor reviewId moved
  | .threadDeferred reviewId threadId reason trackingUrl =>
    (views.loadThread seq reviewId threadId).map fun thread =>
      views.saveThread
        { thread with resolution := .deferred reason trackingUrl event.author event.ts }
  | .threadResolved reviewId threadId =>
    (views.loadThread seq reviewId threadId).map fun thread =>
      views.saveThread { thread with resolution := .resolved event.author event.ts }
  | .threadUnresolved reviewId threadId =>
    (views.loadThread seq reviewId threadId).map fun thread =>
      views.saveThread { thread with resolution := .opened }
  | .fileViewed reviewId repoId path viewer content =>
    (views.loadReview seq reviewId).map fun _ =>
      { views with
        viewed := views.viewed.insert (reviewId, repoId, path)
          ⟨reviewId, repoId, path, viewer, content⟩ }
  | .fileUnviewed reviewId repoId path _ =>
    .ok { views with viewed := views.viewed.erase (reviewId, repoId, path) }
  | .reviewRequested .. =>
    match ReviewRequest.fromEvent event with
    | some request =>
      .ok { views with
        requests := views.requests.insert (request.reviewId, request.id.eventSeq) request }
    | none => .ok views
  | .reviewChecked .. =>
    match ReviewCheckpoint.fromEvent event with
    | some checkpoint =>
      .ok { views with
        checkpoints :=
          views.checkpoints.insert (checkpoint.reviewId, checkpoint.id.eventSeq) checkpoint }
    | none => .ok views
  | .suggestionApplied reviewId commentId repoId path resultBlob =>
    (require seq s!"unknown suggestion {commentId}" views.suggestions[(reviewId, commentId)]?).map
      fun suggestion =>
        let receipt : SuggestionReceipt :=
          { seq, at_ := event.ts, author := event.author, repoId, path, resultBlob }
        { views with
          suggestions := views.suggestions.insert (reviewId, commentId)
            { suggestion with outcome := .applied receipt } }

end Views

end Nits.ReviewCore
