import Nits.Protocol.CommentQuery
import Nits.ReviewCore.Store

/-!
# Listing comments

Conversation filtering uses the snapshot and event cursor of one read
transaction. Every thread is joined with its comments; a thread that names a
comment the store does not hold makes the store corrupt.
-/

namespace Nits.ReviewCore

open Logical Protocol

def matchesAnchor (query : CommentQuery) : Anchor → Bool
  | .review => query.path.isNone && query.repoId.isNone
  | .file repoId path _ | .lines repoId path .. =>
    query.path.all (fun wanted => wanted = path) &&
      query.repoId.all fun wanted => wanted = repoId

/-- Whether an author goes by a name. -/
def namedAs (name : String) : Author → Bool
  | .human author _ | .agent author .. => author = name
  | .daemon _ => name = "daemon"

/-- A deleted root takes precedence over the thread's disposition. -/
def statusOf (root : Comment) (resolution : ThreadResolution) : CommentThreadStatus :=
  if root.state = .deleted then .deleted
  else match resolution with
    | .opened => .opened
    | .resolved .. => .resolved
    | .deferred .. => .deferred
    | .informational => .informational

/-- A comment of a thread, which the store must hold. -/
def memberOf (comments : Table CommentId Comment) (seq : Seq) (reason : CommentId → String)
    (id : CommentId) : Except StoreError Comment :=
  match comments[id]? with
  | some comment => .ok comment
  | none => .error (.corrupt seq (reason id))

/-- The thread with its comments, if the query selects it. -/
def joinThread (thread : Thread) (comments : Table CommentId Comment) (query : CommentQuery)
    (seq : Seq) : Except StoreError (Option CommentThread) := do
  let root ← memberOf comments seq (fun id => s!"thread {thread.id} has no root {id}") thread.root
  let status := statusOf root thread.resolution
  if query.status.any fun wanted => wanted ≠ status then return none
  let joined ← (thread.root :: thread.replies).mapM
    (memberOf comments seq fun id => s!"thread {thread.id} has no comment {id}")
  if joined.any (fun comment => matchesAnchor query comment.anchor) = false then return none
  if query.author.any fun name => joined.any (fun comment => namedAs name comment.author) = false
    then return none
  match NonEmpty.new joined with
  | .ok comments =>
    return some {
      id := thread.id, reviewId := thread.reviewId, root := thread.root,
      replies := thread.replies, resolution := thread.resolution, status, comments }
  | .error _ => .error (.corrupt seq "list must not be empty")

/-- One more, in 32 bits. -/
def increment (seq : Seq) (count : Nat) : Except StoreError Nat :=
  if count + 1 < 2 ^ 32 then .ok (count + 1)
  else .error (.corrupt seq "comment query count exceeds u32")

def countStatus (seq : Seq) (summary : CommentSummary) :
    CommentThreadStatus → Except StoreError CommentSummary
  | .opened => (increment seq summary.opened).map fun opened => { summary with opened }
  | .resolved => (increment seq summary.resolved).map fun resolved => { summary with resolved }
  | .deferred => (increment seq summary.deferred).map fun deferred => { summary with deferred }
  | .informational =>
    (increment seq summary.informational).map fun informational => { summary with informational }
  | .deleted => (increment seq summary.deleted).map fun deleted => { summary with deleted }

def countComment (seq : Seq) (summary : CommentSummary) (comment : Comment) :
    Except StoreError CommentSummary := do
  let comments ← increment seq summary.comments
  if comment.state = .deleted then
    let deletedComments ← increment seq summary.deletedComments
    return { summary with comments, deletedComments }
  else return { summary with comments }

def countThread (seq : Seq) (summary : CommentSummary) (thread : CommentThread) :
    Except StoreError CommentSummary := do
  let threads ← increment seq summary.threads
  let summary ← countStatus seq { summary with threads } thread.status
  thread.comments.items.foldlM (countComment seq) summary

/-- The thread that an event of the review is activity in. -/
def activeThread (comments : Table CommentId Comment) : EventBody → Option ThreadId
  | .commentCreated comment => some comment.threadId
  | .commentEdited _ commentId _ | .commentDeleted _ commentId
  | .commentReanchored _ commentId _ _ | .suggestionApplied _ commentId .. =>
    comments[commentId]?.map Comment.threadId
  | .threadDeferred _ threadId .. | .threadResolved _ threadId | .threadUnresolved _ threadId =>
    some threadId
  | _ => none

/-- The threads with activity above `since`. -/
def changedThreads (events : List Event) (reviewId : ReviewId) (since through : Seq)
    (comments : Table CommentId Comment) : List ThreadId :=
  if since ≥ through then []
  else (events.filter fun event => since < event.seq && event.seq ≤ through).filterMap fun event =>
    if event.body.reviewId ≠ some reviewId then none else activeThread comments event.body

/-- The comments of a snapshot under their ids. -/
def commentsById (comments : List Comment) : Table CommentId Comment :=
  Table.collect Comment.id comments

/-- Whether the query asks for a thread before it is joined. -/
def wantsThread (query : CommentQuery) (changed : Option (List ThreadId)) (thread : Thread) :
    Bool :=
  query.threadId.all (fun id => id = thread.id) &&
    changed.all fun changed => changed.contains thread.id

/-- Join and count one thread of the snapshot. -/
def listThread (query : CommentQuery) (seq : Seq) (comments : Table CommentId Comment)
    (changed : Option (List ThreadId)) (listed : List CommentThread × CommentSummary)
    (thread : Thread) : Except StoreError (List CommentThread × CommentSummary) := do
  if wantsThread query changed thread = false then return listed
  match ← joinThread thread comments query seq with
  | none => return listed
  | some joined =>
    let summary ← countThread seq listed.2 joined
    return (listed.1 ++ [joined], summary)

def Store.listComments (store : Store) (reviewId : ReviewId) (query : CommentQuery) :
    Except StoreError (Option CommentListing) :=
  match store.reviewSnapshot reviewId with
  | none => .ok none
  | some snapshot => do
    let comments := commentsById snapshot.comments
    let changed := query.since.map fun since =>
      changedThreads store.events reviewId since snapshot.seq comments
    let (threads, summary) ← snapshot.threads.foldlM
      (listThread query snapshot.seq comments changed) ([], .zero)
    let selected := threads.flatMap fun thread => thread.comments.items.map Comment.id
    return some {
      threads, summary
      suggestions := snapshot.suggestions.filter fun suggestion =>
        selected.contains suggestion.commentId
      latestCheckpoints := latestCheckpoints snapshot.checkpoints snapshot.resolved
      requests := snapshot.requests
      checkpoints := snapshot.checkpoints
      seq := snapshot.seq }

end Nits.ReviewCore
