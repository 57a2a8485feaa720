import Nits.ReviewCore.Comments

/-!
# Revision checkpoints

A checkpoint records exactly the supplied immutable revision identities. It is
independent of findings and of viewed marks.
-/

namespace Nits.ReviewCore.Core

open Logical Protocol

/-- Keep both revisions of one target reachable in its repository. -/
def retainTarget (review : ReviewId) (target : ResolvedTarget) : CoreM Unit := do
  let repo ← reviewRepo review target.repoId
  outside (.retainRevision repo review target.base)
  outside (.retainRevision repo review target.head)

def retainTargets (review : ReviewId) (targets : NonEmpty ResolvedTarget) : CoreM Unit := do
  let _ ← Program.forEach (retainTarget review) targets.items

/-- Whether the round a check answers belongs to its review. -/
def roundBelongs (snapshot : ReviewSnapshot) : Option ReviewRound → Bool
  | some (.request requestId) => snapshot.requests.any fun request => request.id = requestId
  | some (.checkpoint checkpointId) =>
    snapshot.checkpoints.any fun checkpoint => checkpoint.id = checkpointId
  | none => true

/-- The targets a request captured. -/
def capturedTargets : RequestedTargets → List ResolvedTarget
  | .unknown => []
  | .captured targets => targets.items

/-- Whether one of the targets is of the repository and resolved to the revision
on either side. -/
def namesRevision (targets : List ResolvedTarget) (repoId : RepoId) (revision : ResolvedRef) :
    Bool :=
  targets.any fun known =>
    known.repoId = repoId && (known.base = revision || known.head = revision)

/-- Whether a review's snapshot holds a working-tree revision. -/
def knownRevision (snapshot : ReviewSnapshot) (repoId : RepoId) (revision : ResolvedRef) : Bool :=
  namesRevision (snapshot.resolved.elim [] NonEmpty.items ++
    snapshot.requests.flatMap (fun request => capturedTargets request.targets) ++
    snapshot.checkpoints.flatMap fun checkpoint => checkpoint.targets.items) repoId revision

/-- Whether a review ever resolved a target to a working-tree revision. -/
def historicalRevision (events : List Event) (reviewId : ReviewId) (repoId : RepoId)
    (revision : ResolvedRef) : Bool :=
  events.any fun event =>
    match event.body with
    | .reviewTargetsResolved captured targets =>
      captured = reviewId && namesRevision targets.items repoId revision
    | _ => false

/-- Only revisions that git still knows, or that the daemon captured, are valid. -/
def validateRevision (snapshot : ReviewSnapshot) (reviewId : ReviewId) (repoId : RepoId)
    (repo : GitRepo) (revision : ResolvedRef) : CoreM Unit := do
  match revision.source with
  | .commit oid =>
    let resolved ← outside (.resolve repo (.commit oid))
    Program.require (resolved.tree = revision.tree)
      (.invalid "commit and tree identities disagree")
  | .workingTree .. =>
    let store ← Program.read Core.store
    Program.require (knownRevision snapshot repoId revision ∨
        historicalRevision (store.eventsAfter none) reviewId repoId revision)
      (.invalid "working-tree revision was not captured by this review")

def validateTarget (snapshot : ReviewSnapshot) (reviewId : ReviewId) (target : ResolvedTarget) :
    CoreM Unit := do
  let repo ← reviewRepo reviewId target.repoId
  validateRevision snapshot reviewId target.repoId repo target.base
  validateRevision snapshot reviewId target.repoId repo target.head

/-- Whether the checked repositories are those of the review, each once. -/
def coversOnce (checked expected : List RepoId) : Bool :=
  checked.all expected.contains && expected.all checked.contains &&
    checked.dedup.length = checked.length

/-- Record exactly the supplied revision identities, even after the current
review moved. -/
def recordCheckpoint (ctx : Ctx) (reviewId : ReviewId) (targets : NonEmpty ResolvedTarget)
    (inReplyTo : Option ReviewRound) : CoreM ReviewCheckpointId := do
  let snapshot ← reviewSnapshot reviewId
  let reviewer ← Program.orStop (.forbidden "daemon cannot act as a reviewer")
    (ReviewerIdentity.fromAuthor ctx.author)
  Program.require
    (coversOnce (targets.items.map ResolvedTarget.repoId)
      (snapshot.review.targets.items.map ReviewTarget.repoId))
    (.invalid "check must cover each review repository exactly once")
  Program.require (roundBelongs snapshot inReplyTo)
    (.invalid "request/checkpoint does not belong to this review")
  let _ ← Program.forEach (validateTarget snapshot reviewId) targets.items
  retainTargets reviewId targets
  let event ← append ctx (.reviewChecked reviewId reviewer targets inReplyTo)
  pure (.fromEventSeq event.seq)

end Nits.ReviewCore.Core
