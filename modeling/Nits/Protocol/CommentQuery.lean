import Nits.Protocol.Events

/-!
# Comment queries

Complete, filtered conversations from one coherent review snapshot.
-/

namespace Nits.Protocol

/-- A deleted root is a tombstoned conversation, not an actionable open finding. -/
inductive CommentThreadStatus
  | opened | resolved | deferred | informational | deleted
  deriving DecidableEq

/-- All filters select whole threads, retaining the root and every reply. -/
structure CommentQuery where
  status : Option CommentThreadStatus
  threadId : Option ThreadId
  path : Option RepoPath
  repoId : Option RepoId
  /-- Exact human or agent name on any comment; "daemon" selects daemon authors. -/
  author : Option String
  /-- Exclusive committed sequence of thread activity. -/
  since : Option Seq

structure CommentThread where
  id : ThreadId
  reviewId : ReviewId
  root : CommentId
  replies : List CommentId
  /-- The persisted disposition, retained even when the root is deleted. -/
  resolution : ThreadResolution
  status : CommentThreadStatus
  /-- Root first, then replies in their committed order. -/
  comments : NonEmpty Comment

/-- Counts of the returned threads. Status counts are disjoint. -/
structure CommentSummary where
  threads : Nat
  opened : Nat
  resolved : Nat
  deferred : Nat
  informational : Nat
  deleted : Nat
  comments : Nat
  deletedComments : Nat

def CommentSummary.zero : CommentSummary := ⟨0, 0, 0, 0, 0, 0, 0, 0⟩

structure CommentListing where
  threads : List CommentThread
  summary : CommentSummary
  /-- Suggestions of the returned comments. -/
  suggestions : List SuggestionRecord
  requests : List ReviewRequest
  checkpoints : List ReviewCheckpoint
  latestCheckpoints : List ReviewerCheckpoint
  /-- Global store position, including when the filtered result is empty. -/
  seq : Seq

end Nits.Protocol
