import Nits.ClientCore.Content

/-!
# The open review

The committed snapshot, the mutations on their way and what is shown of both. The view
shows the committed snapshot with every pending event folded on top; each change of
either is followed by `rebase`.
-/

set_option linter.dupNamespace false

namespace Nits.ClientCore

open Logical Logical.Handler Protocol

/-! ## Texts -/

def EntityKind.text : EntityKind → String
  | .workspace => "Workspace"
  | .repo => "Repo"
  | .review => "Review"
  | .comment => "Comment"
  | .thread => "Thread"
  | .ref => "Ref"
  | .path => "Path"
  | .blob => "Blob"
  | .chunk => "Chunk"

def rpcErrorMessage : RpcError → String
  | .notFound kind id => EntityKind.text kind ++ " " ++ id ++ " was not found"
  | .invalid reason | .forbidden reason => reason
  | .seqTooOld oldest => "event history starts at " ++ toString oldest
  | .cancelled => "request cancelled"
  | .restarting operationId =>
    "daemon restarting (" ++ operationId ++ "); request was not admitted"
  | .restartInterrupted operationId =>
    "daemon restarted (" ++ operationId ++ "); interrupted mutation outcome may be unknown"
  | .unsupportedProtocol requested _ =>
    "protocol " ++ requested.text ++ " is unsupported"
  | .versionMismatch negotiated received =>
    "expected protocol " ++ negotiated.text ++ ", received " ++ received.text
  | .internal message => message

/-! ## Guards -/

def ClientCore.wrongState (core : ClientCore) (input : InputKind) : CoreError :=
  .wrongConnectionState input core.connection.kind

def requireSubscribed : Risky Unit := do
  let core ← read
  if core.connection.isSubscribed then pure () else fail (core.wrongState .user)

def openReviewId : Risky ReviewId := do
  let core ← read
  match core.view.review with
  | none => fail .noOpenReview
  | some review => return review.snapshot.review.id

/-! ## Committed plus pending -/

/-- What this client's own events carry, at the core's current time. -/
def ClientCore.metaNow (core : ClientCore) : EventMeta :=
  ⟨core.config.author, min core.now (2 ^ 63 - 1)⟩

/-- The snapshot with the bodies of pending mutations on top, in send order. -/
def showPending (author : Author) (committed : ReviewSnapshot) (pending : List Pending) :
    Touched :=
  pending.foldl (fun shown mutation =>
    let touched := applyBody shown.1 ⟨author, mutation.ts⟩ mutation.body
    (touched.1, shown.2 ++ touched.2)) (committed, [])

def Pending.event (pending : Pending) : PendingEvent := ⟨pending.clientSeq, pending.body⟩

/-- The targets that the header shows: those of the committed snapshot, or the scoped
ones when a narrower scope is on screen. -/
def headerTargets (committed : ReviewSnapshot) (review : OpenReview) : List ResolvedTarget :=
  match review.scope with
  | .all => match committed.resolved with
    | some targets => targets.items
    | none => []
  | _ => review.scopedTargets

/-- The state with the shown snapshot rebuilt and the pending list mirrored. -/
def ClientCore.rebased (core : ClientCore) : ClientCore :=
  match core.committed, core.view.review with
  | some committed, some review => { core with
      view.resolvedTargets := headerTargets committed review
      view.review := some { review with
        snapshot := (showPending core.config.author committed core.pending).1
        pending := core.pending.map Pending.event } }
  | _, _ => core

/-- The sections that rebuilding touches; the threads when the list just emptied, so
that the pending marks clear. -/
def ClientCore.rebasedSections (core : ClientCore) : List ViewSection :=
  match core.committed, core.view.review with
  | some committed, some review =>
    (showPending core.config.author committed core.pending).2 ++
      if review.pending ≠ [] ∧ core.pending = [] then [.threads] else []
  | _, _ => []

def rebase : Client (List ViewSection) := fun core =>
  ⟨.ok core.rebasedSections, [], core.rebased⟩

/-- Retire the pending entry the daemon has answered. -/
def retirePending (clientSeq : ClientSeq) : Client Unit :=
  write fun core => { core with
    pending := core.pending.filter fun pending => pending.clientSeq ≠ clientSeq }

/-- Apply a mutation with its event already built and validated, and send it. -/
def mutateWith (mutation : Mutation) (body : EventBody) : Client Unit := do
  let core ← read
  let clientSeq := core.nextClientSeq
  sent ⟨clientSeq, core.metaNow.ts, mutation, body, .awaitingReceipt⟩
  let sections ← rebase
  render sections
where
  /-- One more mutation is on its way. -/
  sent (pending : Pending) : Client Unit := fun core =>
    request (.mutate pending.clientSeq pending.mutation) (.mutate pending.clientSeq)
      { core with
        nextClientSeq := pending.clientSeq + 1
        pending := core.pending ++ [pending] }

/-- Apply a mutation optimistically and send it. Rejected, with nothing sent and
nothing shown, when the daemon would reject it against the current view. -/
def mutate (mutation : Mutation) : Risky Unit := do
  requireSubscribed
  let core ← read
  match core.view.review with
  | none => fail .noOpenReview
  | some review => match localEvent review.snapshot core.metaNow mutation with
    | .error error => fail (.mutation error)
    | .ok body => always (mutateWith mutation body)

/-- Send a mutation that is not shown before it is committed. -/
def mutateUnshown (mutation : Mutation) (waiting : ClientSeq → InFlight) : Client Unit := fun core =>
  let clientSeq := core.nextClientSeq
  request (.mutate clientSeq mutation) (waiting clientSeq)
    { core with nextClientSeq := clientSeq + 1 }

/-- Mark or unmark a file viewed at its current head blob, which only the file list
knows. -/
def markViewed (file : FileRef) (viewed : Bool) : Risky Unit := do
  requireSubscribed
  let core ← read
  match core.view.review with
  | none => fail .noOpenReview
  | some review => match core.config.author.asHuman with
    | none => fail .notHuman
    | some human => match review.fileAt file with
      | none => fail (.unknownFile file)
      | some render => do
        let reviewId := review.snapshot.review.id
        let content := match render.target with
          | .diff change => change.viewedContent
          | .blob entry => .blob entry
        if viewed then
          always (mutateWith (.markViewed reviewId file.repoId file.path)
            (.fileViewed reviewId file.repoId file.path human content))
        else
          always (mutateWith (.unmarkViewed reviewId file.repoId file.path)
            (.fileUnviewed reviewId file.repoId file.path human))

/-! ## Opening and closing -/

section Closing

variable [Presentation]

/-- The state without an open review and what hung on it. -/
def ClientCore.closed (core : ClientCore) : ClientCore :=
  { core with
    view.review := none
    view.openReview := none
    view.resolvedTargets := []
    view.draft := none
    view.pendingRefresh := false
    latestFiles := none
    latestCommits := none
    latestSearch := none
    deferred := []
    committed := none
    pending := []
    suggestions := ∅
    browse := none
    panels := { core.panels with
      focusedComment := none
      stepper := none
      focusReturn := none
      helpReturn := none
      byCommitPending := false
      browseAttempt := none
      browseRepo := none
      visualAnchor := none
      contentSearch := none
      actionPalette := false
      refSelector := none } }

/-- Drop the open review and everything content-side that it pinned. -/
def closeReview : Client Unit := do
  write ClientCore.closed
  reviewClosed

/-- Receipts that a preview discovered survive an older snapshot. -/
def keepReceipts (seq : Seq) (known fresh : List SuggestionRecord) : List SuggestionRecord :=
  known.foldl (fun records existing => match existing.outcome with
    | .unapplied => records
    | .applied receipt =>
      if seq < receipt.seq then
        modifyFirst (fun record => record.commentId = existing.commentId)
          (fun record => { record with outcome := existing.outcome }) records
      else records) fresh

/-- The buffered events of a request, folded over the snapshot it answered with. -/
def replayed (snapshot : ReviewSnapshot) (events : List Event) : ReviewSnapshot :=
  (events.insertionSort fun left right => left.seq ≤ right.seq).foldl
    (fun folded event => if folded.seq < event.seq then (applyEvent folded event).1 else folded)
    snapshot

/-- What becomes of an arrived snapshot: its buffered events are replayed, unless a
reference owns the replay, and known receipts are kept. -/
def ClientCore.arriving (core : ClientCore) (id : RequestId) (snapshot : ReviewSnapshot) :
    ReviewSnapshot :=
  let snapshot := match core.snapshotEvents.lookup id with
    | some (_, events) =>
      if core.pendingReference.isNone then replayed snapshot events else snapshot
    | none => snapshot
  match core.committed with
  | some committed =>
    if committed.review.id = snapshot.review.id then
      { snapshot with
        suggestions := keepReceipts snapshot.seq committed.suggestions snapshot.suggestions }
    else snapshot
  | none => snapshot

def forgetBuffer (id : RequestId) : Client Unit :=
  write fun core => { core with
    snapshotEvents := core.snapshotEvents.filter fun entry => entry.1 ≠ id }

/-- The state with a snapshot open. -/
def ClientCore.opened (core : ClientCore) (snapshot : ReviewSnapshot) (pending : List Pending)
    (suggestions : Table CommentId Suggestion.State) : ClientCore :=
  { core with
    suggestions
    committed := some snapshot
    view.openReview := some snapshot.review.id
    view.review := some (.new snapshot)
    pending }

/-- A review snapshot arrived: it becomes the open review, replacing any other.
Pending mutations of the same review survive; they are still on their way. -/
def installSnapshot (id : RequestId) (snapshot : ReviewSnapshot) : Client Unit := do
  let core ← read
  let snapshot := core.arriving id snapshot
  let same := core.committed.any fun committed => committed.review.id = snapshot.review.id
  forgetBuffer id
  closeReview
  write fun closed =>
    closed.opened snapshot (if same then core.pending else [])
      (if same then core.suggestions else ∅)
  let _ ← rebase
  panels fun panels => { panels with focus := .tree 0 }
  -- The commits list sits under the file tree from the start.
  let repoId := snapshot.review.targets.first.repoId
  request (.listCommits snapshot.review.id repoId) (.listCommits repoId)

/-- The streams that were opening the review bring content of another generation. -/
def supersedeOpeningContent (reviewId : ReviewId) : Client Unit :=
  write fun core => { core with
    inFlight := core.inFlight.map fun entry => match entry.2 with
      | .openReview opening .streaming =>
        if opening = reviewId then (entry.1, .openReview opening .superseded) else entry
      | _ => entry }

/-- The current check is unavailable while the shown content is being replaced. -/
def ClientCore.checkCurrentReady (core : ClientCore) : Bool :=
  match core.view.review with
  | none => false
  | some review =>
    review.snapshot.resolved.isSome ∧ core.latestFiles.isNone ∧
      (review.openFile.isNone ∨ core.panels.derived.diff.any fun diff => diff.2.isEmpty) ∧
      ¬ core.view.pendingRefresh ∧
      ¬ core.inFlight.any fun entry => match entry.2 with
        | .openReview opening content =>
          opening = review.snapshot.review.id ∧ content ≠ .superseded
        | _ => false

end Closing

/-! ## Scope and options -/

/-- Put the scope and drop the file list; the renders stay cached. -/
def enterScope (scope : DiffScope) : Client Unit :=
  write fun core => { core with
    view.review := core.view.review.map fun review => { review with
      scope, scopedTargets := [], files := [], openFile := none, original := none } }

/-- Show another scope of the open review and refetch its file list. -/
def applyScope (scope : DiffScope) : Client Unit := do
  let core ← read
  match core.view.review with
  | none => pure ()
  | some review =>
    if review.scope = scope then pure ()
    else do
      let reviewId := review.snapshot.review.id
      enterScope scope
      supersedeOpeningContent reviewId
      let _ ← rebase
      if core.connection.isSubscribed then
        request (.listFiles reviewId scope) (.listFiles reviewId scope)
      else pure ()
      render [.reviewList, .diff]

def dropFiles : Client Unit :=
  write fun core => { core with
    view.review := core.view.review.map fun review => { review with
      files := [], openFile := none, original := none } }

def putPrefs (prefs : ViewPrefs) : Client Unit :=
  write fun core => { core with view.prefs := prefs }

def putRenderOpts (opts : RenderOpts) : Client Unit :=
  write fun core => { core with content.config.renderOpts := opts }

section Prefs

variable [Presentation]

/-- Install the preferences, and persist them when `save`. Other render options re-key
every render, so the open review's file list is fetched again. -/
def applyPrefs (prefs : ViewPrefs) (save : Bool) : Client Unit := do
  let core ← read
  putPrefs prefs
  if save then order (.persist ViewPrefs.KEY (Presentation.encodePrefs prefs)) else pure ()
  if prefs.renderOpts ≠ core.view.prefs.renderOpts then do
    putRenderOpts prefs.renderOpts
    match core.view.review with
    | none => pure ()
    | some review => do
      dropFiles
      if core.connection.isSubscribed then
        request (.listFiles review.snapshot.review.id review.scope)
          (.listFiles review.snapshot.review.id review.scope)
      else pure ()
  else pure ()
  render [.diff]

/-- The stored preferences arrived, or were absent. -/
def prefsStored (value : Option Bytes) : Client Unit := do
  write fun core => { core with prefsLoaded := true }
  let core ← read
  match value.bind Presentation.decodePrefs with
  | none => pure ()
  | some prefs => if prefs = core.view.prefs then pure () else applyPrefs prefs false

/-- The stored keymap configuration arrived; the defaults stay when it is absent or
unreadable. -/
def keymapStored (value : Option Bytes) : Client Unit :=
  write fun core => match value.filter Presentation.keysAccepted with
    | none => core
    | some config => { core with keys.config := some config }

end Prefs

end Nits.ClientCore
