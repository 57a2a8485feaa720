import Nits.ReviewCore.Review

/-!
# Directory bootstrap

Find or create an open review of a checkout. Paths and refs are resolved before
any persistent state is created.
-/

namespace Nits.ReviewCore.Core

open Logical Protocol

variable [Platform]

/-- What a client asks for; its ids are used only if the checkout or a matching
review is unknown. -/
structure EnsureDirectoryReview where
  workspaceId : WorkspaceId
  repoId : RepoId
  reviewId : ReviewId
  path : String
  base : Option BaseRefSpec
  head : Option RefSpec

inductive DirectoryReviewOutcome
  | created
  | reused

/-- The selected directory review and its requested refs. -/
structure DirectoryReview where
  workspaceId : WorkspaceId
  repoId : RepoId
  reviewId : ReviewId
  base : RefSpec
  head : RefSpec
  outcome : DirectoryReviewOutcome
  seq : Seq

/-- A failure to reach the checkout is a fault of the request. -/
def outsideOrInvalid (call : Call) : CoreM call.Answer := do
  match ← ask call with
  | .ok answer => pure answer
  | .error error => invalid error.toCore.toString

/-- Whether an attachment opens the checkout at `root`. -/
def attachedAt (root : String) (attachment : WorkspaceId × Repo) :
    CoreM (Option (WorkspaceId × RepoId)) := do
  match ← ask (.resolveCheckout attachment.2.path) with
  | .ok checkout =>
    pure (if checkout = root then some (attachment.1, attachment.2.id) else none)
  | .error _ => pure none

/-- The one attachment of a checkout, if it has any. Duplicates in one workspace
and sharing between workspaces are told apart. -/
def directoryAttachment (root : String) : CoreM (Option (WorkspaceId × RepoId)) := do
  let store ← Program.read Core.store
  let attachments := store.workspaces.flatMap fun workspace =>
    workspace.repos.map fun repo => (workspace.id, repo)
  let located ← Program.forEach (attachedAt root) attachments
  match located.filterMap id with
  | [] => pure none
  | [one] => pure (some one)
  | (workspace, repo) :: others =>
    if ((workspace, repo) :: others).all fun found => found.1 = workspace then
      invalid (s!"checkout has multiple repository attachments in workspace {workspace}; " ++
        "detach duplicate memberships before opening this directory")
    else
      invalid ("checkout is attached in several workspaces; use create_review with explicit " ++
        "workspace_id and repo_id")

/-- The log position, which every store with a review has. -/
def logPosition : CoreM Seq := do
  let store ← Program.read Core.store
  Program.orStop (.invalid "review has no log position") store.lastSeq

/-- The target of an open review that matches the requested refs. -/
def matchingTarget (repoId : RepoId) (base : Option RefSpec) (headSpec : RefSpec)
    (review : Review) : Option ReviewTarget :=
  if review.status ≠ .opened then none
  else review.targets.items.find? fun target =>
    target.repoId = repoId && target.head = headSpec && base.all fun base => base = target.base

/-- The first open review of the repository that matches the requested refs. -/
def matchingDirectoryReview (workspaceId : WorkspaceId) (repoId : RepoId) (base : Option RefSpec)
    (headSpec : RefSpec) : CoreM (Option DirectoryReview) := do
  let store ← Program.read Core.store
  let found := (store.reviews workspaceId).findSome? fun record =>
    (matchingTarget repoId base headSpec record.review).map fun target => (record.review.id, target)
  match found with
  | none => pure none
  | some (reviewId, target) =>
    let seq ← logPosition
    pure (some {
      workspaceId, repoId, reviewId, base := target.base, head := headSpec, outcome := .reused,
      seq })

/-- The last component of a path. -/
def fileName (path : String) : String :=
  ((path.toList.splitOn '/').reverse.find? fun component => component ≠ []).elim "repo"
    String.ofList

/-- The attachment a directory review is created on: the checkout's own, or a new
one in a new workspace. -/
def directoryMembership (ctx : Ctx) (options : EnsureDirectoryReview) (root name : String) :
    Option (WorkspaceId × RepoId) → CoreM (WorkspaceId × RepoId)
  | some ids => pure ids
  | none => do
    createWorkspaceWithRepo ctx options.workspaceId options.repoId root name
    pure (options.workspaceId, options.repoId)

/-- Create a directory review, and its workspace and attachment if the checkout
has none. -/
def createDirectoryReview (ctx : Ctx) (options : EnsureDirectoryReview) (root : String)
    (located : Option (WorkspaceId × RepoId)) (base headSpec : RefSpec) :
    CoreM DirectoryReview := do
  let store ← Program.read Core.store
  Program.require (store.review options.reviewId = none)
    (.invalid s!"review {options.reviewId} already exists")
  let before := store.lastSeq
  let name := fileName root
  let (workspaceId, repoId) ← directoryMembership ctx options root name located
  let _ ← createReview ctx options.reviewId workspaceId name
    (.singleton { repoId, base, head := headSpec })
  let store ← Program.read Core.store
  let first ← Program.orStop (.invalid "bootstrap committed no event")
    (store.eventsAfter before).head?
  pure {
    workspaceId, repoId, reviewId := options.reviewId, base, head := headSpec,
    outcome := .created, seq := first.seq }

/-- The canonical path of a directory. -/
def directoryPath (path : String) : CoreM String := do
  match ← ask (.canonicalize path) with
  | .ok path => pure path
  | .error error => invalid s!"{path}: {error.toCore}"

/-- The root of the checkout that holds a path. -/
def directoryRoot (path : String) : CoreM String := do
  match ← ask (.gitRoot path) with
  | .ok (some root) => pure root
  | .ok none | .error _ => invalid "path is not inside a git working tree"

/-- An explicit missing base must fail even if a stale review still names it. -/
def requireRequestedBase (git : GitRepo) : Option RefSpec → CoreM Unit
  | some base => requireResolvable git base
  | none => pure ()

/-- The base of a new review: the requested one, or the repository's default. -/
def chosenBase (git : GitRepo) : Option RefSpec → CoreM RefSpec
  | some base => pure base
  | none => outside (.defaultBase git)

/-- The review to reuse, which a located checkout may have. -/
def reusableReview (base : Option RefSpec) (headSpec : RefSpec) :
    Option (WorkspaceId × RepoId) → CoreM (Option DirectoryReview)
  | none => pure none
  | some (workspaceId, repoId) => matchingDirectoryReview workspaceId repoId base headSpec

/-- Find or create an open review of a checkout. Reuse requires every explicit
ref to match; an omitted base preserves an existing base. -/
def ensureDirectoryReview (ctx : Ctx) (options : EnsureDirectoryReview) :
    CoreM DirectoryReview := do
  let path ← directoryPath options.path
  let root ← directoryRoot path
  let git ← outsideOrInvalid (.openRepo root)
  let located ← directoryAttachment root
  let headSpec := options.head.getD .workingTree
  let requestedBase := options.base.map BaseRefSpec.toRefSpec
  requireResolvable git headSpec
  requireRequestedBase git requestedBase
  match ← reusableReview requestedBase headSpec located with
  | some review =>
    let _ ← resolveTargets ctx review.reviewId
    let seq ← logPosition
    pure { review with seq }
  | none =>
    let base ← chosenBase git requestedBase
    requireResolvable git base
    createDirectoryReview ctx options root located base headSpec

end Nits.ReviewCore.Core
