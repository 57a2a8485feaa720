import Mathlib.Data.List.Sort
import Nits.Protocol.Events

/-!
# Event semantics over a snapshot

`applyEvent` folds committed events into a review snapshot and `applyBody` the bodies
of provisional ones; `localEvent` is what a mutation will become once committed, built
from the current snapshot. Neither touches the review list or workspace state.
-/

namespace Nits.ClientCore

open Logical Protocol

/-- Who did it and when, for events that record an author or a time. -/
structure EventMeta where
  author : Author
  ts : Timestamp

/-- Why a mutation cannot be turned into an event against a snapshot. -/
inductive MutationError
  | duplicateComment (id : CommentId)
  | informationalAnchor
  | informationalThread (id : ThreadId)
  | unknownThread (id : ThreadId)
  | unknownComment (id : CommentId)
  | notAuthor (id : CommentId)
  | notOpen (id : ThreadId)
  | alreadyResolved (id : ThreadId)
  | notResolved (id : ThreadId)
  | unknownRepo (id : RepoId)
  /-- The mutation is not one the client core issues optimistically. -/
  | unsupported (kind : MutationKind)

/-- A root comment's id is its thread's id. -/
def threadIdOf (id : CommentId) : ThreadId :=
  .fromParts id.timestampMs id.random

/-! ## Optimistic events -/

def findComment (snapshot : ReviewSnapshot) (id : CommentId) : Except MutationError Comment :=
  match snapshot.comments.find? fun comment => comment.id = id with
  | some comment => .ok comment
  | none => .error (.unknownComment id)

def findThread (snapshot : ReviewSnapshot) (id : ThreadId) : Except MutationError Thread :=
  match snapshot.threads.find? fun thread => thread.id = id with
  | some thread => .ok thread
  | none => .error (.unknownThread id)

/-- The comment may be changed by its author only. -/
def ownComment (snapshot : ReviewSnapshot) (author : Author) (id : CommentId) :
    Except MutationError Unit := do
  let comment ← findComment snapshot id
  if comment.author ≠ author then .error (.notAuthor id) else .ok ()

/-- A comment that the snapshot does not have yet. -/
def newComment (snapshot : ReviewSnapshot) (id : CommentId) : Except MutationError Unit :=
  match findComment snapshot id with
  | .ok _ => .error (.duplicateComment id)
  | .error _ => .ok ()

/-- The event a mutation produces against a snapshot, or why it cannot. -/
def localEvent (snapshot : ReviewSnapshot) (meta_ : EventMeta) :
    Mutation → Except MutationError EventBody
  | .addComment reviewId commentId kind anchor body context => do
    newComment snapshot commentId
    if kind = .informational ∧ anchor ≠ .review then .error .informationalAnchor
    else .ok (.commentCreated {
      id := commentId, reviewId, threadId := threadIdOf commentId, author := meta_.author, kind,
      anchor, body, created := meta_.ts, edited := none, state := .live, context })
  | .reply reviewId threadId commentId kind body => do
    newComment snapshot commentId
    let thread ← findThread snapshot threadId
    let root ← findComment snapshot thread.root
    .ok (.commentCreated {
      id := commentId, reviewId, threadId, author := meta_.author, kind, anchor := root.anchor,
      body, created := meta_.ts, edited := none, state := root.state, context := root.context })
  | .editComment reviewId commentId body => do
    ownComment snapshot meta_.author commentId
    .ok (.commentEdited reviewId commentId body)
  | .deleteComment reviewId commentId => do
    ownComment snapshot meta_.author commentId
    .ok (.commentDeleted reviewId commentId)
  | .deferThread reviewId threadId reason trackingUrl => do
    let thread ← findThread snapshot threadId
    match thread.resolution with
    | .opened => .ok (.threadDeferred reviewId threadId reason trackingUrl)
    | .informational => .error (.informationalThread threadId)
    | .resolved .. | .deferred .. => .error (.notOpen threadId)
  | .resolveThread reviewId threadId => do
    let thread ← findThread snapshot threadId
    match thread.resolution with
    | .informational => .error (.informationalThread threadId)
    | .resolved .. => .error (.alreadyResolved threadId)
    | .opened | .deferred .. => .ok (.threadResolved reviewId threadId)
  | .unresolveThread reviewId threadId => do
    let thread ← findThread snapshot threadId
    match thread.resolution with
    | .informational => .error (.informationalThread threadId)
    | .opened => .error (.notResolved threadId)
    | .resolved .. | .deferred .. => .ok (.threadUnresolved reviewId threadId)
  | .updateReview reviewId title status => .ok (.reviewUpdated reviewId title status)
  | .updateReviewTarget reviewId update =>
    match snapshot.review.targets.items.find? fun target => target.repoId = update.repoId with
    | none => .error (.unknownRepo update.repoId)
    | some existing =>
      match update.revision with
      | .base refSpec =>
        .ok (.reviewTargetUpdated reviewId { existing with base := refSpec.toRefSpec })
      | .head refSpec => .ok (.reviewTargetUpdated reviewId { existing with head := refSpec })
  | mutation => .error (.unsupported mutation.kind)

/-! ## Folding -/

/-- Change the first element that satisfies `which`, if there is one. -/
def updateFirst {α : Type} (which : α → Bool) (change : α → α) (items : List α) :
    Option (List α) :=
  if items.any which then some (modifyFirst which change items) else none

/-- A snapshot and the view sections that changing it touched. -/
abbrev Touched : Type := ReviewSnapshot × List ViewSection

/-- The snapshot with one comment changed. -/
def touchComment (snapshot : ReviewSnapshot) (id : CommentId) (change : Comment → Comment) :
    Touched :=
  match updateFirst (fun comment => comment.id = id) change snapshot.comments with
  | none => (snapshot, [])
  | some comments => ({ snapshot with comments }, [.threads])

/-- The snapshot with one thread's resolution changed. -/
def touchThread (snapshot : ReviewSnapshot) (id : ThreadId) (resolution : ThreadResolution) :
    Touched :=
  match updateFirst (fun thread => thread.id = id)
    (fun thread => { thread with resolution }) snapshot.threads with
  | none => (snapshot, [])
  | some threads => ({ snapshot with threads }, [.threads])

/-- The threads after a comment joined its thread or started one. -/
def joinThreads (threads : List Thread) (comment : Comment) : List Thread :=
  let join (thread : Thread) : Thread :=
    if ¬ thread.replies.contains comment.id ∧ thread.root ≠ comment.id then
      { thread with replies := thread.replies ++ [comment.id] }
    else thread
  match updateFirst (fun thread => thread.id = comment.threadId) join threads with
  | some threads => threads
  | none => threads ++ [{
      id := comment.threadId, reviewId := comment.reviewId, root := comment.id, replies := [],
      resolution := .forRoot comment.kind }]

/-- The same comment twice is one comment. -/
def touchCreated (snapshot : ReviewSnapshot) (comment : Comment) : Touched :=
  if snapshot.comments.any fun stored => stored.id = comment.id then (snapshot, [])
  else
    let suggestions := snapshot.suggestions ++ (SuggestionRecord.fromCreated comment).toList
    ({ snapshot with
      comments := snapshot.comments ++ [comment]
      suggestions
      threads := joinThreads snapshot.threads comment }, [.threads])

/-- The marks without the viewer's mark of one file. -/
def dropMark (viewed : List ViewedMark) (repoId : RepoId) (path : RepoPath) (viewer : Human) :
    List ViewedMark :=
  viewed.filter fun mark => ¬ (mark.repoId = repoId ∧ mark.path = path ∧ mark.viewer = viewer)

/-- Fold a body of the snapshot's own review. -/
def applyOwn (snapshot : ReviewSnapshot) (meta_ : EventMeta) : EventBody → Touched
  | .reviewUpdated _ title status =>
    ({ snapshot with review := { snapshot.review with title, status } }, [.conversation])
  | .reviewTargetsResolved _ targets => ({ snapshot with resolved := some targets }, [.diff])
  | .reviewTargetUpdated _ target =>
    if snapshot.review.targets.items.any fun existing => existing.repoId = target.repoId then
      let targets := snapshot.review.targets.mapItems
        (modifyFirst (fun existing => existing.repoId = target.repoId) fun _ => target)
        target.length_replace
      ({ snapshot with review := { snapshot.review with targets } }, [.reviewList])
    else (snapshot, [])
  | .commentCreated comment => touchCreated snapshot comment
  | .commentEdited _ commentId body =>
    touchComment snapshot commentId fun comment => { comment with body, edited := some meta_.ts }
  | .commentDeleted _ commentId =>
    touchComment snapshot commentId fun comment => { comment with state := .deleted }
  | .commentReanchored _ commentId anchor state =>
    touchComment snapshot commentId fun comment => { comment with anchor, state }
  | .threadDeferred _ threadId reason trackingUrl =>
    touchThread snapshot threadId (.deferred reason trackingUrl meta_.author meta_.ts)
  | .threadResolved _ threadId => touchThread snapshot threadId (.resolved meta_.author meta_.ts)
  | .threadUnresolved _ threadId => touchThread snapshot threadId .opened
  | .fileViewed reviewId repoId path viewer content =>
    ({ snapshot with
      viewed := dropMark snapshot.viewed repoId path viewer ++
        [⟨reviewId, repoId, path, viewer, content⟩] }, [.progress])
  | .fileUnviewed _ repoId path viewer =>
    ({ snapshot with viewed := dropMark snapshot.viewed repoId path viewer }, [.progress])
  | .reviewChecked .. | .reviewRequested .. | .suggestionApplied .. => (snapshot, [.conversation])
  | .reviewCreated _ | .reviewDeleted _ | .workspaceCreated _ | .workspaceUpdated ..
  | .repoAttached .. | .repoDetached .. => (snapshot, [])

/-- Fold a body into a snapshot and say which view sections it touched. Bodies of
other reviews touch nothing. -/
def applyBody (snapshot : ReviewSnapshot) (meta_ : EventMeta) (body : EventBody) : Touched :=
  if body.reviewId = some snapshot.review.id then applyOwn snapshot meta_ body else (snapshot, [])

/-- Whether a receipt at `seq` replaces the outcome. -/
def replacesOutcome (seq : Seq) : SuggestionOutcome → Bool
  | .unapplied => true
  | .applied receipt => receipt.seq < seq

/-- Record that a suggestion was applied. -/
def applyReceipt (snapshot : ReviewSnapshot) (event : Event) : ReviewSnapshot :=
  match event.body with
  | .suggestionApplied reviewId commentId repoId path resultBlob =>
    let applied (record : SuggestionRecord) : SuggestionRecord :=
      if replacesOutcome event.seq record.outcome then
        { record with outcome := .applied {
          seq := event.seq, at_ := event.ts, author := event.author, repoId, path, resultBlob } }
      else record
    if reviewId = snapshot.review.id then
      { snapshot with
        suggestions :=
          modifyFirst (fun record => record.commentId = commentId) applied snapshot.suggestions }
    else snapshot
  | _ => snapshot

/-- Record a request, once, in the order of the requests' identities. -/
def applyRequest (snapshot : ReviewSnapshot) (event : Event) : ReviewSnapshot :=
  match ReviewRequest.fromEvent event with
  | none => snapshot
  | some request =>
    if request.reviewId = snapshot.review.id ∧
        ¬ snapshot.requests.any fun stored => stored.id = request.id then
      { snapshot with
        requests := (snapshot.requests ++ [request]).insertionSort
          fun left right => left.id.eventSeq ≤ right.id.eventSeq }
    else snapshot

/-- Record a checkpoint, once, in the order of the checkpoints' identities. -/
def applyCheckpoint (snapshot : ReviewSnapshot) (event : Event) : ReviewSnapshot :=
  match ReviewCheckpoint.fromEvent event with
  | none => snapshot
  | some checkpoint =>
    if checkpoint.reviewId = snapshot.review.id ∧
        ¬ snapshot.checkpoints.any fun stored => stored.id = checkpoint.id then
      { snapshot with
        checkpoints := (snapshot.checkpoints ++ [checkpoint]).insertionSort
          fun left right => left.id.eventSeq ≤ right.id.eventSeq }
    else snapshot

/-- Fold a committed event, including request identities that cannot exist
provisionally. The snapshot's own cursor describes its original materialisation. -/
def applyEvent (snapshot : ReviewSnapshot) (event : Event) : Touched :=
  applyBody (applyCheckpoint (applyRequest (applyReceipt snapshot event) event) event)
    ⟨event.author, event.ts⟩ event.body

end Nits.ClientCore
