import Nits.ReviewCore.Repository

/-!
# Comment mutations and re-anchoring

Comments and threads are looked up in the store directly; only what needs the
review's targets goes through the live review.
-/

namespace Nits.ReviewCore.Core

open Logical Protocol

variable [Platform]

/-- A comment that has not been deleted. -/
def comment (review : ReviewId) (id : CommentId) : CoreM Comment := do
  let store ← Program.read Core.store
  Program.orStop (.notFound .comment (toString id))
    ((store.comment review id).filter fun comment => comment.state ≠ .deleted)

def thread (review : ReviewId) (id : ThreadId) : CoreM Thread := do
  let store ← Program.read Core.store
  Program.orStop (.notFound .thread (toString id))
    ((store.threads review).find? fun thread => thread.id = id)

/-- The content of an anchored blob, in a repository of the review. -/
def anchoredBlob (review : ReviewId) (record : ReviewRecord) (repoId : RepoId)
    (blobOid : BlobOid) : CoreM (List UInt8) := do
  Program.require (record.review.targets.items.any fun target => target.repoId = repoId)
    (.invalid s!"repo {repoId} is not in review {review}")
  let repo ← reviewRepo review repoId
  outside (.blob repo blobOid)

/-- Validate an anchor against the review and stamp the context hash; a
client-supplied hash is replaced. -/
def validateAnchor (review : ReviewId) (anchor : Anchor) : CoreM Anchor := do
  let record ← Core.review review
  match anchor with
  | .review => pure .review
  | .file repoId path blobOid =>
    let _ ← anchoredBlob review record repoId blobOid
    pure (.file repoId path blobOid)
  | .lines repoId path side blobOid lines _ =>
    let bytes ← anchoredBlob review record repoId blobOid
    let text := linesOf bytes
    Program.require (lines.finish.index < text.length)
      (.invalid (s!"line range {lines.start}-{lines.finish} exceeds blob length " ++
        s!"{text.length}"))
    pure (.lines repoId path side blobOid lines (contextHash text lines))

/-- A root comment's id is its thread's id. -/
def threadIdOf (id : CommentId) : ThreadId :=
  .fromParts id.timestampMs id.random

/-- Whether a comment on an anchor may name a browsed revision: not at review
level and not on a base-side line. -/
def browsable : Anchor → Bool
  | .review | .lines _ _ .base .. => false
  | .file .. | .lines _ _ .head .. => true

def isBrowse : Option CommentContext → Bool
  | some (.browse _) => true
  | some (.diff _) | none => false

/-- Start a new thread. `id` doubles as the thread id. -/
def addComment (ctx : Ctx) (review : ReviewId) (id : CommentId) (kind : CommentKind)
    (anchor : Anchor) (body : String) (context : Option CommentContext) : CoreM Comment := do
  let store ← Program.read Core.store
  Program.require (store.comment review id = none) (.invalid s!"comment {id} already exists")
  Program.require (kind = .informational → anchor = .review)
    (.invalid "informational notes require a review-level anchor")
  Program.require (isBrowse context → browsable anchor)
    (.invalid "Browse comments require a file or head-side line anchor")
  let anchor ← validateAnchor review anchor
  let comment : Comment := {
    id, reviewId := review, threadId := threadIdOf id, author := ctx.author, kind, anchor, body,
    created := ctx.now, edited := none, state := .live, context }
  let _ ← append ctx (.commentCreated comment)
  pure comment

/-- Reply in an existing thread; inherits the root's anchor. -/
def reply (ctx : Ctx) (review : ReviewId) (threadId : ThreadId) (id : CommentId)
    (kind : CommentKind) (body : String) : CoreM Comment := do
  let store ← Program.read Core.store
  Program.require (store.comment review id = none) (.invalid s!"comment {id} already exists")
  let thread ← thread review threadId
  let root ← comment review thread.root
  let comment : Comment := {
    id, reviewId := review, threadId, author := ctx.author, kind, anchor := root.anchor, body,
    created := ctx.now, edited := none, state := root.state, context := root.context }
  let _ ← append ctx (.commentCreated comment)
  pure comment

/-- Only the original author may edit. -/
def editComment (ctx : Ctx) (review : ReviewId) (id : CommentId) (body : String) : CoreM Unit := do
  let comment ← comment review id
  Program.require (comment.author = ctx.author) (.forbidden "only the author may edit a comment")
  let _ ← append ctx (.commentEdited review id body)

/-- Only the original author may delete. -/
def deleteComment (ctx : Ctx) (review : ReviewId) (id : CommentId) : CoreM Unit := do
  let comment ← comment review id
  Program.require (comment.author = ctx.author)
    (.forbidden "only the author may delete a comment")
  let _ ← append ctx (.commentDeleted review id)

/-- Record an unfixed finding outside the current scope. A recorded deferral must
be reopened before it is changed. -/
def deferThread (ctx : Ctx) (review : ReviewId) (threadId : ThreadId) (reason : DeferralReason)
    (trackingUrl : Option TrackingUrl) : CoreM Unit := do
  let thread ← thread review threadId
  match thread.resolution with
  | .opened => pure ()
  | .informational => invalid "informational threads cannot be deferred"
  | .deferred .. | .resolved .. => invalid "reopen the finding before deferring it"
  let _ ← append ctx (.threadDeferred review threadId reason trackingUrl)

def isResolved : ThreadResolution → Bool
  | .resolved .. => true
  | .informational | .opened | .deferred .. => false

def resolveThread (ctx : Ctx) (review : ReviewId) (threadId : ThreadId) : CoreM Unit := do
  let thread ← thread review threadId
  Program.require (thread.resolution ≠ .informational)
    (.invalid "informational threads cannot be resolved or reopened")
  Program.require (isResolved thread.resolution = false)
    (.invalid s!"thread {threadId} is already resolved")
  let _ ← append ctx (.threadResolved review threadId)

def unresolveThread (ctx : Ctx) (review : ReviewId) (threadId : ThreadId) : CoreM Unit := do
  let thread ← thread review threadId
  Program.require (thread.resolution ≠ .informational)
    (.invalid "informational threads cannot be resolved or reopened")
  Program.require (thread.resolution ≠ .opened)
    (.invalid s!"thread {threadId} is not resolved")
  let _ ← append ctx (.threadUnresolved review threadId)

/-! ## Suggestions -/

/-- The suggestion of a live review's comment. -/
def suggestion (review : ReviewId) (id : CommentId) : CoreM SuggestionRecord := do
  let _ ← Core.review review
  let _ ← comment review id
  let store ← Program.read Core.store
  Program.orStop (.invalid s!"comment {id} is not a suggestion") (store.suggestion review id)

/-- The file a suggestion was made on. -/
def suggestedFile : Anchor → Option (RepoId × RepoPath × BlobOid)
  | .lines repoId path _ blobOid .. | .file repoId path blobOid => some (repoId, path, blobOid)
  | .review => none

/-- Apply a suggestion's patch to the working tree. The file must still be at the
original blob. -/
def applySuggestion (ctx : Ctx) (review : ReviewId) (id : CommentId) : CoreM BlobOid := do
  let suggestion ← suggestion review id
  match suggestion.outcome with
  | .applied receipt => invalid s!"suggestion {id} was already applied at event {receipt.seq}"
  | .unapplied => pure ()
  let (repoId, path, blobOid) ← Program.orStop (.invalid "review-level suggestions cannot be applied")
    (suggestedFile suggestion.anchor)
  let repo ← reviewRepo review repoId
  outside (.openFile repo.workdir path)
  let current ← outside (.readFile repo.workdir path)
  let expected ← outside (.blob repo blobOid)
  Program.require (current = expected) (.invalid s!"{path} has changed since the suggestion was made")
  let patched ← match Patch.apply current suggestion.patch with
    | .ok patched => pure patched
    | .error error => invalid s!"patch does not apply: {error.toString}"
  let resultBlob ← outside (.hashBlob repo patched)
  let metadata ← outside (.metadataPaths repo)
  outside (.replaceFile repo.workdir path metadata current patched)
  let _ ← append ctx (.suggestionApplied review id repoId path resultBlob)
  pure resultBlob

/-! ## Re-anchoring -/

instance : TableKey Side :=
  TableKey.ofImage (fun side : Side => if side = .base then 0 else 1 : Side → Nat)
    (by intro left right same; cases left <;> cases right <;> simp_all)

/-- Where each path of one side is on the new side. -/
abbrev Fates := Table RepoPath PathFate

def snapshotFate (fates : Fates) (entry : TreeEntry) : Fates :=
  match entry.kind with
  | .file oid .. | .symlink oid => fates.insert entry.path (.present entry.path oid)
  | .dir _ | .submodule _ => fates

def changeFate (fates : Fates) (change : FileChangeRaw) : Fates :=
  match change.kind with
  | .renamed source _ new => fates.insert source (.present change.path new.oid)
  | .deleted _ => fates.insert change.path .gone
  | .added _ | .modified .. => fates
  | .submodule submodule =>
    if submodule.newBlob = none then fates.insert change.path .gone else fates

/-- For every path in the old tree, or in all of the new tree when there is no
old one, where it is in the new tree. -/
def pathFates (repo : GitRepo) (oldTree : Option TreeOid) (newTree : TreeOid) : CoreM Fates := do
  let entries ← outside (.treeSnapshot repo newTree)
  let fates := entries.foldl snapshotFate ∅
  match oldTree with
  | none => pure fates
  | some oldTree =>
    let changes ← outside (.changedFiles repo oldTree newTree)
    pure (changes.foldl changeFate fates)

def treeOn (side : Side) (target : ResolvedTarget) : TreeOid :=
  match side with
  | .base => target.base.tree
  | .head => target.head.tree

/-- Re-anchor with blobs read from git; an unreadable blob has no content. Both
reads are asked whether or not the outcome needs them. -/
def askReanchor (repo : GitRepo) (comment : Comment) (fate : PathFate) : CoreM Reanchor :=
  fun env core =>
    let outcome :=
      match reanchor comment.anchor comment.state fate (env.content core.calls repo)
        (env.content (core.calls + 1) repo) with
      | .ok outcome => .ok outcome
      | .error panic => .error (.panicked panic)
    (outcome, { core with calls := core.calls + 2 })

/-- The fates computed so far, for each repository and side. -/
abbrev FateCache := Table (RepoId × Side) Fates

/-- The fates of one repository and side, computed once. -/
def fatesFor (cache : FateCache) (repo : GitRepo) (old : NonEmpty ResolvedTarget)
    (target : ResolvedTarget) (side : Side) : CoreM (FateCache × Fates) := do
  match cache[(target.repoId, side)]? with
  | some fates => pure (cache, fates)
  | none =>
    let oldTarget := old.items.find? fun old => old.repoId = target.repoId
    let fates ← pathFates repo (oldTarget.map (treeOn side)) (treeOn side target)
    pure (cache.insert (target.repoId, side) fates, fates)

/-- The repository and path an anchor follows. -/
def followed : Anchor → Option (RepoId × RepoPath)
  | .file repoId path _ | .lines repoId path .. => some (repoId, path)
  | .review => none

/-- What re-anchoring must look up for a comment: the target and the side of its
effective anchor, and the path to follow. Browse comments keep their anchor. -/
def reanchorSubject (new : NonEmpty ResolvedTarget) (comment : Comment) :
    Option (ResolvedTarget × Side × RepoPath) :=
  if isBrowse comment.context then none
  else
    let base := effectiveAnchor comment.anchor comment.state
    (sideOf base).bind fun side =>
      (followed base).bind fun (repoId, path) =>
        (new.items.find? fun target => target.repoId = repoId).map fun target =>
          (target, side, path)

/-- Re-anchor one comment, emitting an event if it moved. -/
def reanchorComment (ctx : Ctx) (review : ReviewId) (old new : NonEmpty ResolvedTarget)
    (progress : FateCache × List CommentId) (comment : Comment) :
    CoreM (FateCache × List CommentId) := do
  let (cache, moved) := progress
  match reanchorSubject new comment with
  | none => pure (cache, moved)
  | some (target, side, path) =>
    let repo ← reviewRepo review target.repoId
    let (cache, fates) ← fatesFor cache repo old target side
    match ← askReanchor repo comment (fates[path]?.getD .gone) with
    | .unchanged => pure (cache, moved)
    | .moved anchor state =>
      let _ ← append ctx (.commentReanchored review comment.id anchor state)
      pure (cache, moved ++ [comment.id])

/-- Re-anchor every comment of a review after its targets moved, emitting one
event per moved comment. -/
def reanchorReview (ctx : Ctx) (review : ReviewId) (old new : NonEmpty ResolvedTarget) :
    CoreM (List CommentId) := do
  let store ← Program.read Core.store
  let (_, moved) ← Program.foldEach (reanchorComment ctx review old new) (∅, [])
    (store.comments review)
  pure moved

end Nits.ReviewCore.Core
