import Nits.ReviewCore.Checkpoints

/-!
# Reviews and viewed marks

Creating, updating and resolving reviews. Resolving emits the resolved targets
only when they differ from the recorded ones, and then re-anchors comments.
-/

namespace Nits.ReviewCore.Core

open Logical Protocol

variable [Platform]

/-! ## Resolution -/

def resolveTarget (workspaceId : WorkspaceId) (target : ReviewTarget) : CoreM ResolvedTarget := do
  let repo ← workspaceRepo workspaceId target.repoId
  let base ← outside (.resolve repo target.base)
  let head ← outside (.resolve repo target.head)
  pure { repoId := target.repoId, base, head }

def resolveReviewTargets (review : Review) : CoreM (NonEmpty ResolvedTarget) := do
  let resolved ← Program.forEach (resolveTarget review.workspaceId) review.targets.items
  match NonEmpty.new resolved with
  | .ok resolved => pure resolved
  | .error _ => invalid "list must not be empty"

/-- Record targets that differ from the recorded ones and re-anchor comments from
the recorded ones, if there are any. Returns whether they differ. -/
def recordResolvedTargets (ctx : Ctx) (record : ReviewRecord) (resolved : NonEmpty ResolvedTarget) :
    CoreM Bool := do
  if record.resolved = some resolved then pure false
  else
    retainTargets record.review.id resolved
    let _ ← append ctx (.reviewTargetsResolved record.review.id resolved)
    match record.resolved with
    | none => pure ()
    | some old =>
      let _ ← reanchorReview ctx record.review.id old resolved
    pure true

/-- Re-resolve every target. Returns the targets and whether they changed. -/
def resolveTargets (ctx : Ctx) (id : ReviewId) : CoreM (NonEmpty ResolvedTarget × Bool) := do
  let record ← review id
  let resolved ← resolveReviewTargets record.review
  let changed ← recordResolvedTargets ctx record resolved
  pure (resolved, changed)

/-! ## Creating and updating -/

/-- The first repository that occurs again, given those already seen. -/
def firstDuplicate (seen : List RepoId) : List RepoId → Option RepoId
  | [] => none
  | repoId :: rest =>
    if seen.contains repoId then some repoId else firstDuplicate (repoId :: seen) rest

/-- Ordered, nonempty targets with exactly one entry for each repository. -/
structure CreateReviewTargets where
  targets : NonEmpty ReviewTarget
  unique : firstDuplicate [] (targets.items.map ReviewTarget.repoId) = none

def CreateReviewTargets.ofTargets (targets : NonEmpty ReviewTarget) :
    Except String CreateReviewTargets :=
  match unique : firstDuplicate [] (targets.items.map ReviewTarget.repoId) with
  | none => .ok ⟨targets, unique⟩
  | some repoId =>
    .error (s!"Repository {repoId} is included more than once. Choose one base/head pair for " ++
      "each repository.")

/-- A target must name a repository of the workspace. -/
def requireMember (workspaceId : WorkspaceId) (workspace : Workspace) (target : ReviewTarget) :
    CoreM Unit :=
  Program.require (workspace.repos.any fun repo => repo.id = target.repoId)
    (.invalid s!"repo {target.repoId} is not in workspace {workspaceId}")

/-- Create a review and resolve its targets immediately. Every target must
resolve before anything is committed. -/
def createReview (ctx : Ctx) (id : ReviewId) (workspaceId : WorkspaceId) (title : String)
    (targets : NonEmpty ReviewTarget) : CoreM ReviewRecord := do
  let created ← match CreateReviewTargets.ofTargets targets with
    | .ok created => pure created
    | .error reason => invalid reason
  let workspace ← workspace workspaceId
  let store ← Program.read Core.store
  Program.require (store.review id = none) (.invalid s!"review {id} already exists")
  let _ ← Program.forEach (requireMember workspaceId workspace) created.targets.items
  let _ ← Program.forEach (resolveTarget workspaceId) created.targets.items
  let review : Review := {
    id, workspaceId, title, targets := created.targets, created := ctx.now, status := .opened }
  let _ ← append ctx (.reviewCreated review)
  let (resolved, _) ← resolveTargets ctx id
  pure { review, resolved := some resolved, lifecycle := .live }

/-- The targets to record with an update, which has any when it reopens an
archived review. -/
def reopenedTargets (record : ReviewRecord) (status : ReviewStatus) :
    CoreM (Option (NonEmpty ResolvedTarget)) := do
  if record.review.status = .archived ∧ status = .opened then
    let resolved ← resolveReviewTargets record.review
    pure (some resolved)
  else pure none

/-- Update metadata, refreshing targets and anchors when an archived review is
reopened. Unresolvable refs leave the review archived. -/
def updateReview (ctx : Ctx) (id : ReviewId) (title : String) (status : ReviewStatus) :
    CoreM Unit := do
  let record ← review id
  let refreshed ← reopenedTargets record status
  let _ ← append ctx (.reviewUpdated id title status)
  match refreshed with
  | some resolved =>
    let _ ← recordResolvedTargets ctx record resolved
  | none => pure ()

/-- The target with one half replaced. -/
def editTarget (target : ReviewTarget) : TargetRevision → ReviewTarget
  | .base refSpec => { target with base := refSpec.toRefSpec }
  | .head refSpec => { target with head := refSpec }

/-- Every failure to resolve a candidate target is a fault of the request. -/
def requireResolvable (repo : GitRepo) (spec : RefSpec) : CoreM Unit := do
  match ← ask (.resolve repo spec) with
  | .ok _ => pure ()
  | .error error => invalid error.toCore.toString

/-- The target an update leaves, once its repository opened and both its refs
resolved. -/
def editedTarget (record : ReviewRecord) (update : ReviewTargetUpdate) : CoreM ReviewTarget := do
  let stored ← Program.orStop (.notFound .repo (toString update.repoId))
    (record.review.targets.items.find? fun target => target.repoId = update.repoId)
  let target := editTarget stored update.revision
  let repo ← workspaceRepo record.review.workspaceId target.repoId
  requireResolvable repo target.base
  requireResolvable repo target.head
  pure target

/-- Replace one repository's base or head after resolving the complete new target
first. -/
def updateReviewTarget (ctx : Ctx) (id : ReviewId) (update : ReviewTargetUpdate) :
    CoreM Unit := do
  let record ← review id
  let target ← editedTarget record update
  let _ ← append ctx (.reviewTargetUpdated id target)
  let _ ← resolveTargets ctx id

/-- Delete a review. -/
def deleteReview (ctx : Ctx) (id : ReviewId) : CoreM Unit := do
  let _ ← review id
  let _ ← append ctx (.reviewDeleted id)

/-! ## Refreshing -/

inductive FetchResolution
  | resolved (targets : NonEmpty ResolvedTarget) (changed : Bool)
  | unavailable (reason : String)

structure ReviewFetch where
  reviewId : ReviewId
  repoId : RepoId
  remote : String
  symbolicTrackingRefs : List SymbolicTrackingRef
  resolution : FetchResolution

/-- The repository to fetch: the requested one, or the only one. -/
def fetchedRepo (record : ReviewRecord) : Option RepoId → CoreM RepoId
  | some id => pure id
  | none =>
    if record.review.targets.items.length = 1 then pure record.review.targets.first.repoId
    else invalid "review has multiple repositories; select repo_id (--repo) explicitly"

/-- Resolve after a fetch; a failure is reported, not returned. -/
def resolveFetched (ctx : Ctx) (reviewId : ReviewId) : CoreM FetchResolution := do
  match ← (resolveTargets ctx reviewId).attempt with
  | .ok (targets, changed) => pure (.resolved targets changed)
  | .error (.panicked panic) => Program.stop (.panicked panic)
  | .error error => pure (.unavailable error.toString)

/-- Fetch one attached repository and refresh the review's existing refs. A
failure to resolve does not undo the fetch. -/
def fetchReview (ctx : Ctx) (reviewId : ReviewId) (repoId : Option RepoId) (remote : String) :
    CoreM ReviewFetch := do
  let record ← review reviewId
  let repoId ← fetchedRepo record repoId
  let repo ← reviewRepo reviewId repoId
  let symbolicTrackingRefs ← outside (.fetch repo remote)
  let resolution ← resolveFetched ctx reviewId
  pure { reviewId, repoId, remote, symbolicTrackingRefs, resolution }

def watchesWorkingTree (review : Review) (repoId : RepoId) : Bool :=
  match review.status with
  | .opened => review.targets.items.any fun target =>
      target.repoId = repoId && (target.base = .workingTree || target.head = .workingTree)
  | .archived => false

/-- Refresh a watcher candidate only while it still watches the repository. -/
def refreshWorkingTreeReview (ctx : Ctx) (id : ReviewId) (repoId : RepoId) : CoreM Unit := do
  let record ← review id
  if watchesWorkingTree record.review repoId then
    let _ ← resolveTargets ctx id
  else pure ()

/-! ## Requests -/

/-- The checkpoint with the highest identity, the last one of equals. -/
def latestCheckpoint (checkpoints : List ReviewCheckpoint) : Option ReviewCheckpoint :=
  checkpoints.foldl (fun latest checkpoint =>
    match latest with
    | some best =>
      if best.id.eventSeq ≤ checkpoint.id.eventSeq then some checkpoint else some best
    | none => some checkpoint) none

def requestReview (ctx : Ctx) (reviewId : ReviewId) (agent note : String) :
    CoreM ReviewRequestId := do
  Program.require (isBlank agent = false) (.invalid "agent name must not be empty")
  let record ← review reviewId
  let targets ← resolveReviewTargets record.review
  retainTargets reviewId targets
  let snapshot ← reviewSnapshot reviewId
  let comparison := RequestCheckpointComparison.against (latestCheckpoint snapshot.checkpoints) targets
  let event ← append ctx (.reviewRequested reviewId agent note (.captured targets) comparison)
  -- The request comes first for acknowledgement; the same resolution is then published.
  let _ ← recordResolvedTargets ctx record targets
  pure (.fromEventSeq event.seq)

/-! ## Viewed marks -/

/-- A review with its recorded targets. -/
def resolved (id : ReviewId) : CoreM (ReviewRecord × NonEmpty ResolvedTarget) := do
  let record ← review id
  let targets ← Program.orStop (.invalid s!"review {id} has not been resolved") record.resolved
  pure (record, targets)

def viewedContentOf : TreeEntryKind → ViewedContent
  | .file oid _ executable => .blob ⟨oid, if executable then .executable else .regular⟩
  | .symlink oid => .blob ⟨oid, .symlink⟩
  | .submodule commit => .submodule commit
  | .dir _ => .missing

/-- Head-side content identity, preserving gitlinks as commits. -/
def headContent (id : ReviewId) (repoId : RepoId) (path : RepoPath) : CoreM ViewedContent := do
  let (_, targets) ← resolved id
  let target ← Program.orStop (.notFound .repo (toString repoId))
    (targets.items.find? fun target => target.repoId = repoId)
  let repo ← reviewRepo id repoId
  let entries ← outside (.treeSnapshot repo target.head.tree)
  pure ((entries.find? fun entry => entry.path = path).elim .missing fun entry =>
    viewedContentOf entry.kind)

/-- Human-only. -/
def requireHuman (ctx : Ctx) : CoreM Human :=
  Program.orStop (.forbidden "agents cannot mark files as viewed") ctx.author.asHuman

/-- Mark a file viewed as it is now. -/
def markViewed (ctx : Ctx) (id : ReviewId) (repoId : RepoId) (path : RepoPath) :
    CoreM ViewedMark := do
  let viewer ← requireHuman ctx
  let content ← headContent id repoId path
  let _ ← append ctx (.fileViewed id repoId path viewer content)
  pure { reviewId := id, repoId, path, viewer, content }

/-- Take a viewed mark back. -/
def unmarkViewed (ctx : Ctx) (id : ReviewId) (repoId : RepoId) (path : RepoPath) : CoreM Unit := do
  let viewer ← requireHuman ctx
  let _ ← review id
  let _ ← append ctx (.fileUnviewed id repoId path viewer)

end Nits.ReviewCore.Core
