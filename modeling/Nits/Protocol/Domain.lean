import Nits.Protocol.Ids
import Nits.Protocol.Invariants

/-!
# Domain model

Workspaces, repositories, reviews, comments, anchors and authors, as they are
stored and sent. Comments reference blobs, never diffs.
-/

namespace Nits.Protocol

open Logical

/-- A git repository attached to a workspace, at an absolute path on the
daemon's machine. -/
structure Repo where
  id : RepoId
  path : String
  displayName : String
  deriving DecidableEq

/-- A named group of repositories. -/
structure Workspace where
  id : WorkspaceId
  name : String
  repos : List Repo
  deriving DecidableEq

/-- What the user asked to review, unresolved. -/
inductive RefSpec
  | branch (name : String)
  | commit (oid : CommitOid)
  | tag (name : String)
  | revision (expression : RevisionExpr)
  | workingTree
  | upstream
  | head
  deriving DecidableEq

/-- A revision valid on the base side of a review target. A working tree has no
stable parent-side content and is not one. -/
inductive BaseRefSpec
  | branch (name : String)
  | commit (oid : CommitOid)
  | tag (name : String)
  | revision (expression : RevisionExpr)
  | upstream
  | head

def BaseRefSpec.toRefSpec : BaseRefSpec → RefSpec
  | .branch name => .branch name
  | .commit oid => .commit oid
  | .tag name => .tag name
  | .revision expression => .revision expression
  | .upstream => .upstream
  | .head => .head

/-- Which half of one repository's review target is being replaced. -/
inductive TargetRevision
  | base (refSpec : BaseRefSpec)
  | head (refSpec : RefSpec)

/-- An edit of one repository within a possibly multi-repository review. -/
structure ReviewTargetUpdate where
  repoId : RepoId
  revision : TargetRevision

/-- What a resolved ref was resolved from. -/
inductive ResolvedSource
  | commit (oid : CommitOid)
  | workingTree (dirty : List RepoPath) (branch : Option String) (head : Option CommitOid)
  deriving DecidableEq

/-- A resolved ref: the tree it points at and what it was resolved from. -/
structure ResolvedRef where
  tree : TreeOid
  source : ResolvedSource
  deriving DecidableEq

/-- One repository's base/head pair within a review, as requested. -/
structure ReviewTarget where
  repoId : RepoId
  base : RefSpec
  head : RefSpec
  deriving DecidableEq

theorem ReviewTarget.length_replace (target : ReviewTarget) (targets : List ReviewTarget) :
    (modifyFirst (fun stored => stored.repoId = target.repoId) (fun _ => target) targets).length =
      targets.length :=
  length_modifyFirst _ _ _

/-- One repository's base/head pair within a review, resolved to content. -/
structure ResolvedTarget where
  repoId : RepoId
  base : ResolvedRef
  head : ResolvedRef
  deriving DecidableEq

inductive ReviewStatus
  | opened
  | archived
  deriving DecidableEq

/-- A set of targets across a workspace's repositories. -/
structure Review where
  id : ReviewId
  workspaceId : WorkspaceId
  title : String
  targets : NonEmpty ReviewTarget
  created : Timestamp
  status : ReviewStatus
  deriving DecidableEq

/-- A human, as recorded on events and marks. -/
structure Human where
  name : String
  machine : String
  deriving DecidableEq

/-- How an agent reached the daemon. -/
inductive AgentVia
  | mcp
  | cli
  deriving DecidableEq

/-- Who did something. -/
inductive Author
  | human (name machine : String)
  | agent (name model sessionId : String) (invokedBy : Option Human) (via : AgentVia)
  | daemon (machine : String)
  deriving DecidableEq

def Author.asHuman : Author → Option Human
  | .human name machine => some ⟨name, machine⟩
  | .agent .. => none
  | .daemon _ => none

/-- Which side of a diff a line anchor refers to. -/
inductive Side
  | base
  | head
  deriving DecidableEq

/-- Hash of the lines surrounding an anchored range. -/
structure ContextHash where
  get : UInt64
  deriving DecidableEq

/-- Where a comment is anchored. -/
inductive Anchor
  | review
  | file (repoId : RepoId) (path : RepoPath) (blobOid : BlobOid)
  | lines (repoId : RepoId) (path : RepoPath) (side : Side) (blobOid : BlobOid)
      (lines : LineRange) (contextHash : ContextHash)
  deriving DecidableEq

inductive CommentKind
  | note
  | informational
  | suggestion (patch : String)
  | request
  deriving DecidableEq

/-- An outdated comment is still shown, at its last good anchor. -/
inductive CommentState
  | live
  | outdated (lastGoodAnchor : Anchor)
  | deleted
  deriving DecidableEq

/-- Git stores these blob entry modes. `unknown` preserves historical entries
whose mode was never recorded. -/
inductive BlobMode
  | regular
  | executable
  | symlink
  | unknown
  deriving DecidableEq

/-- A blob and its tree-entry mode. -/
structure BlobEntry where
  oid : BlobOid
  mode : BlobMode
  deriving DecidableEq

/-- Content identity of a reviewed tree entry. -/
inductive ViewedContent
  | missing
  | blob (entry : BlobEntry)
  | submodule (commit : CommitOid)
  deriving DecidableEq

/-- A change involving a gitlink. -/
inductive SubmoduleChange
  | added (new : CommitOid)
  | deleted (old : CommitOid)
  | updated (old new : CommitOid)
  | renamed («from» : RepoPath) (old new : CommitOid)
  | blobToSubmodule (old : BlobEntry) (new : CommitOid)
  | submoduleToBlob (old : CommitOid) (new : BlobEntry)
  deriving DecidableEq

namespace SubmoduleChange

def oldBlob : SubmoduleChange → Option BlobOid
  | .blobToSubmodule old _ => some old.oid
  | .added _ | .deleted _ | .updated .. | .renamed .. | .submoduleToBlob .. => none

def newBlob : SubmoduleChange → Option BlobOid
  | .submoduleToBlob _ new => some new.oid
  | .added _ | .deleted _ | .updated .. | .renamed .. | .blobToSubmodule .. => none

def viewedContent : SubmoduleChange → ViewedContent
  | .deleted _ => .missing
  | .submoduleToBlob _ new => .blob new
  | .added new | .updated _ new | .renamed _ _ new | .blobToSubmodule _ new => .submodule new

end SubmoduleChange

/-- How a file differs between base and head. -/
inductive ChangeKind
  | submodule (change : SubmoduleChange)
  | added (new : BlobEntry)
  | deleted (old : BlobEntry)
  | modified (old new : BlobEntry)
  | renamed («from» : RepoPath) (old new : BlobEntry)
  deriving DecidableEq

namespace ChangeKind

def viewedContent : ChangeKind → ViewedContent
  | .submodule change => change.viewedContent
  | .deleted _ => .missing
  | .added new | .modified _ new | .renamed _ _ new => .blob new

def oldBlob : ChangeKind → Option BlobOid
  | .submodule change => change.oldBlob
  | .added _ => none
  | .deleted old | .modified old _ | .renamed _ old _ => some old.oid

def newBlob : ChangeKind → Option BlobOid
  | .submodule change => change.newBlob
  | .deleted _ => none
  | .added new | .modified _ new | .renamed _ _ new => some new.oid

end ChangeKind

/-- A changed file in one repository; `path` is the head-side path. -/
structure FileChange where
  repoId : RepoId
  path : RepoPath
  kind : ChangeKind
  deriving DecidableEq

/-- What a tree entry points at. -/
inductive TreeEntryKind
  | file (oid : BlobOid) (size : Nat) (executable : Bool)
  | dir (oid : TreeOid)
  | symlink (oid : BlobOid)
  | submodule (commit : CommitOid)
  deriving DecidableEq

def TreeEntryKind.blobEntry : TreeEntryKind → Option BlobEntry
  | .file oid _ executable => some ⟨oid, if executable then .executable else .regular⟩
  | .symlink oid => some ⟨oid, .symlink⟩
  | .dir _ | .submodule _ => none

/-- A path of a tree, and what is there. -/
structure TreeEntry where
  path : RepoPath
  kind : TreeEntryKind
  deriving DecidableEq

/-- The content a comment was written against. Browse keeps its anchor's
immutable blob even if the ref or the review targets move. -/
inductive CommentContext
  | diff (change : ChangeKind)
  | browse (reference : RefSpec)
  deriving DecidableEq

/-- A comment and where it stands. -/
structure Comment where
  id : CommentId
  reviewId : ReviewId
  threadId : ThreadId
  author : Author
  kind : CommentKind
  anchor : Anchor
  body : String
  created : Timestamp
  edited : Option Timestamp
  state : CommentState
  context : Option CommentContext
  deriving DecidableEq

/-- How a thread stands. -/
inductive ThreadResolution
  | informational
  | opened
  | deferred (reason : DeferralReason) (trackingUrl : Option TrackingUrl) (by_ : Author)
      (at_ : Timestamp)
  | resolved (by_ : Author) (at_ : Timestamp)
  deriving DecidableEq

/-- A root's kind determines whether its thread has an actionable lifecycle. -/
def ThreadResolution.forRoot : CommentKind → ThreadResolution
  | .informational => .informational
  | .note | .suggestion _ | .request => .opened

/-- A comment thread. Its id equals the root comment's id; replies share the
root's anchor. -/
structure Thread where
  id : ThreadId
  reviewId : ReviewId
  root : CommentId
  replies : List CommentId
  resolution : ThreadResolution
  deriving DecidableEq

/-- A human marked a file as viewed at a specific head identity. -/
structure ViewedMark where
  reviewId : ReviewId
  repoId : RepoId
  path : RepoPath
  viewer : Human
  content : ViewedContent
  deriving DecidableEq

/-! ## Suggestions -/

/-- Provenance of an application, from its committed event. -/
structure SuggestionReceipt where
  seq : Seq
  at_ : Timestamp
  author : Author
  repoId : RepoId
  path : RepoPath
  resultBlob : BlobOid
  deriving DecidableEq

inductive SuggestionOutcome
  | unapplied
  | applied (receipt : SuggestionReceipt)
  deriving DecidableEq

/-- Captured from the creation event, independent of later reanchoring. -/
structure SuggestionRecord where
  reviewId : ReviewId
  commentId : CommentId
  anchor : Anchor
  patch : String
  outcome : SuggestionOutcome
  deriving DecidableEq

/-- Only meaningful on the creation event's comment. -/
def SuggestionRecord.fromCreated (comment : Comment) : Option SuggestionRecord :=
  match comment.kind with
  | .suggestion patch =>
    some {
      reviewId := comment.reviewId
      commentId := comment.id
      anchor := match comment.state with
        | .live | .deleted => comment.anchor
        | .outdated lastGoodAnchor => lastGoodAnchor
      patch
      outcome := .unapplied }
  | .note | .informational | .request => none

/-- A captured suggestion names its comment. -/
theorem SuggestionRecord.key_fromCreated {comment : Comment} {suggestion : SuggestionRecord}
    (captured : fromCreated comment = some suggestion) :
    (suggestion.reviewId, suggestion.commentId) = (comment.reviewId, comment.id) := by
  unfold fromCreated at captured
  split at captured
  · cases captured
    rfl
  all_goals cases captured

/-! ## Requests and checkpoints -/

/-- Requests made before revision capture keep unknown provenance. -/
inductive RequestedTargets
  | unknown
  | captured (targets : NonEmpty ResolvedTarget)
  deriving DecidableEq

inductive TargetComparison
  | sameTargets
  | changedTargets
  | unknownRevision
  deriving DecidableEq

/-- Whether a captured request repeats the latest checkpoint in its review. -/
inductive RequestCheckpointComparison
  | unknown
  | noCheckpoint
  | compared (checkpointId : ReviewCheckpointId) (outcome : TargetComparison)
  deriving DecidableEq

/-- Stable reviewer identity across restarts. -/
inductive ReviewerIdentity
  | human (name machine : String)
  | agent (name : String)
  deriving DecidableEq

def ReviewerIdentity.fromAuthor : Author → Option ReviewerIdentity
  | .human name machine => some (.human name machine)
  | .agent name .. => some (.agent name)
  | .daemon _ => none

/-- Reviewers sort by their kind first, then by their names. -/
def ReviewerIdentity.sortKey : ReviewerIdentity → Nat × String × String
  | .human name machine => (0, name, machine)
  | .agent name => (1, name, "")

instance : TableKey ReviewerIdentity :=
  TableKey.through ReviewerIdentity.sortKey (by
    intro left right same
    cases left <;> cases right <;> simp_all [ReviewerIdentity.sortKey])

/-- The durable round a check answers. -/
inductive ReviewRound
  | request (requestId : ReviewRequestId)
  | checkpoint (checkpointId : ReviewCheckpointId)
  deriving DecidableEq

/-- A durable invitation to review. -/
structure ReviewRequest where
  id : ReviewRequestId
  reviewId : ReviewId
  requester : Author
  recipient : String
  targets : RequestedTargets
  checkpointComparison : RequestCheckpointComparison
  note : String
  created : Timestamp
  deriving DecidableEq

/-- An attributed record of exactly what was checked. -/
structure ReviewCheckpoint where
  id : ReviewCheckpointId
  reviewId : ReviewId
  reviewer : ReviewerIdentity
  author : Author
  created : Timestamp
  targets : NonEmpty ResolvedTarget
  inReplyTo : Option ReviewRound
  deriving DecidableEq

/-- Equal identities, ignoring which kind of incidental metadata a working tree
carries. -/
def sameRef (a b : ResolvedRef) : Bool :=
  a.tree = b.tree &&
    match a.source, b.source with
    | .commit a, .commit b => a = b
    | .workingTree .., .workingTree .. => true
    | .commit _, .workingTree .. | .workingTree .., .commit _ => false

/-- Compare repository and revision identities, ignoring incidental working-tree
metadata. -/
def sameTargets (a b : NonEmpty ResolvedTarget) : Bool :=
  a.items.length = b.items.length &&
    a.items.all fun a => b.items.any fun b =>
      a.repoId = b.repoId && sameRef a.base b.base && sameRef a.head b.head

inductive CheckpointFreshness
  | current | changed | unknown

structure ReviewerCheckpoint where
  checkpoint : ReviewCheckpoint
  freshness : CheckpointFreshness

/-- The later of two checkpoints of one reviewer, the known one of equals. -/
def laterCheckpoint (known : Option ReviewCheckpoint) (checkpoint : ReviewCheckpoint) :
    ReviewCheckpoint :=
  match known with
  | some known => if known.id.eventSeq < checkpoint.id.eventSeq then checkpoint else known
  | none => checkpoint

/-- Latest committed check per stable reviewer, compared with the current
resolved identities. -/
def latestCheckpoints (checkpoints : List ReviewCheckpoint)
    (current : Option (NonEmpty ResolvedTarget)) : List ReviewerCheckpoint :=
  let latest := checkpoints.foldl
    (fun latest checkpoint =>
      latest.insert checkpoint.reviewer
        (laterCheckpoint latest[checkpoint.reviewer]? checkpoint))
    (∅ : Table ReviewerIdentity ReviewCheckpoint)
  latest.toList.map fun row => {
    checkpoint := row.2
    freshness := current.elim .unknown fun current =>
      if sameTargets row.2.targets current then .current else .changed }

/-- What one pair of working-tree refs adds to a comparison: `none` ends it with
changed targets. -/
def compareHeads (outcome : TargetComparison) (old new : ResolvedRef) : Option TargetComparison :=
  match old.source, new.source with
  | .workingTree _ _ (some old), .workingTree _ _ (some new) =>
    if old ≠ new then none else some outcome
  | .workingTree .., .workingTree .. => some .unknownRevision
  | _, _ => some outcome

/-- Compare captured identities, including a working tree's captured HEAD. -/
def RequestCheckpointComparison.against (checkpoint : Option ReviewCheckpoint)
    (targets : NonEmpty ResolvedTarget) : RequestCheckpointComparison :=
  match checkpoint with
  | none => .noCheckpoint
  | some checkpoint =>
    if sameTargets checkpoint.targets targets = false then
      .compared checkpoint.id .changedTargets
    else
      let outcome := checkpoint.targets.items.foldlM (fun outcome old =>
        match targets.items.find? fun new => new.repoId = old.repoId with
        | none => some outcome
        | some new =>
          (compareHeads outcome old.base new.base).bind fun outcome =>
            compareHeads outcome old.head new.head) TargetComparison.sameTargets
      .compared checkpoint.id (outcome.getD .changedTargets)

end Nits.Protocol
