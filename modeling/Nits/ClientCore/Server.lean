import Nits.ClientCore.User

/-!
# Daemon messages and the transport

What the core does when the transport changes and with each message of the daemon: the
handshake, the answers to its requests, the streams, their errors and the live events.
-/

set_option linter.dupNamespace false

namespace Nits.ClientCore

open Logical Logical.Handler Protocol

section Server

variable [Presentation]

/-! ## Transport -/

/-- A selector that waits for its candidates fails with the connection. -/
def selectorDisconnected : Client Unit := do
  let core ← read
  if core.panels.refSelector.any fun selector => selector.status = .loading then do
    panels fun panels => { panels with
      refSelector := panels.refSelector.map fun selector =>
        { selector with status := .daemonError "daemon disconnected" } }
    render [.refSelector]
  else pure ()

/-- The transport came up: say hello. -/
def connected : Client Unit := do
  let core ← read
  match core.connection with
  | .connecting false lastSeq => do
    setConnection (.connecting true lastSeq)
    order (.send (.hello core.config.clientId core.config.author))
  | _ => pure ()

/-- The transport is gone. Only the first notice of it ends what was under way. -/
def disconnected : Client Unit := do
  let core ← read
  setConnection (.disconnected core.connection.lastSeq)
  suggestionsDisconnected
  clearInFlight
  browseDisconnected
  match core.connection with
  | .disconnected _ => pure ()
  | .connecting .. | .subscribed _ => ended core.suggestionsUnderWay
where
  ended (suggestionsChanged : Bool) : Client Unit := do
    invalidateDaemonStatus
    showLost .disconnected
    render [.connection]
    if suggestionsChanged then render [.threads, .conversation] else pure ()
    let core ← read
    creationDisconnected
    if core.view.creating.isSome then render [.reviewList] else pure ()
    selectorDisconnected

/-- The transport comes up or goes down. -/
def transport : TransportEvent → Client Unit
  | .connected => connected
  | .disconnected => disconnected

/-! ## Handshake -/

/-- The daemon accepted the handshake. -/
def welcome : Risky Unit := do
  let core ← read
  match core.connection with
  | .connecting true lastSeq =>
    always (request (.subscribe (since lastSeq)) .subscribe)
  | _ => fail (core.wrongState .server)
where
  since : Option Seq → Since
    | some seq => .after seq
    | none => .now

/-- The daemon refused the connection. -/
def refused (error : RpcError) : Risky Unit := do
  let core ← read
  setConnection (.disconnected core.connection.lastSeq)
  clearInFlight
  match error, core.recovery with
  | .unsupportedProtocol _ supported, _ => do
    setRecovery .idle
    setConnectionView (.upgradeRequired ProtocolVersion.CURRENT supported)
    always (render [.connection])
  | .restarting _, .restarting .. => do
    showLost (.rejected error)
    always (render [.connection])
  | _, _ => do
    setRecovery .idle
    setConnectionView (.rejected error)
    fail (.rejected error)

/-- The daemon refused the handshake. -/
def rejected (error : RpcError) : Risky Unit := do
  let core ← read
  match core.connection with
  | .connecting .. => refused error
  | .disconnected _ | .subscribed _ => fail (core.wrongState .server)

/-- Only a typed rejection before admission proves a retry safe; interrupted or lost
acknowledgements never replay a write. -/
def resend : Client Unit := do
  let core ← read
  write fun core => { core with
    pending := core.pending.map fun pending =>
      if pending.delivery = .notAdmitted then { pending with delivery := .awaitingReceipt }
      else pending }
  each (fun pending =>
    request (.mutate pending.clientSeq pending.mutation) (.mutate pending.clientSeq))
    (core.pending.filter fun pending => pending.delivery = .notAdmitted)

/-- The subscription stands from `seq` on. -/
def subscribed (seq : Seq) : Client Unit := do
  let core ← read
  setConnection (.subscribed (match core.connection.lastSeq with
    | some seen => max seen seq
    | none => seq))
  setConnectionView .subscribed
  invalidateDaemonStatus
  setRecovery .idle
  write fun core => { core with view.lastError := none }
  resend
  request .listWorkspaces .listWorkspaces
  creationReconnected
  suggestionsReconnected
  render [.connection]

/-! ## Answers -/

/-- The request is not under way any more. -/
def dropRequest (id : RequestId) : Client Unit :=
  write fun core => { core with
    inFlight := core.inFlight.filter fun entry => entry.1 ≠ id }

def finished (id : RequestId) : Client Unit := do
  dropRequest id
  forgetBuffer id

/-- The sections that opening a review touches. -/
def openedSections : List ViewSection :=
  [.reviewList, .diff, .threads, .conversation, .draft, .focus]

/-- The workspaces arrived; their reviews are listed one by one. -/
def workspacesListed (workspaces : List Workspace) : Client Unit := do
  write fun core => { core with view.workspaces := workspaces }
  each (fun workspace =>
    request (.listReviews workspace.id) (.listReviews workspace.id)) workspaces
  render [.reviewList]

/-- Replace one workspace's reviews, keep the others'. -/
def reviewsListed (workspaceId : WorkspaceId) (reviews : List Review) : Client Unit := do
  write fun core => { core with
    view.reviews := ((core.view.reviews.filter fun known =>
      known.workspaceId ≠ workspaceId) ++ reviews).insertionSort fun left right =>
        left.created ≤ right.created }
  render [.reviewList]

/-- A review was read for an attempted creation. -/
def reviewFound (review : Review) : Client Unit := do
  let _ ← creationFound review
  write fun core => { core with
    view.reviews := (core.view.reviews.filter fun known => known.id ≠ review.id) ++ [review] }
  render [.reviewList]

/-- The write of a creation was committed. The tail may have brought the event first. -/
def creationCommitted (event : Event) : Client Unit := do
  let observed ← creationObserve event
  if observed then changed else pure ()
  let core ← read
  match core.connection with
  | .subscribed lastSeq =>
    if lastSeq < event.seq then do
      setConnection (.subscribed event.seq)
      ClientCore.applyEvent event
    else pure ()
  | _ => pure ()

/-- The file list of a scope arrived; an answer for another state of the review is
dropped. -/
def filesListed (id : RequestId) (reviewId : ReviewId) (scope : DiffScope)
    (files : List FileChange) (resolved : List ResolvedTarget) : Client Unit := do
  let core ← read
  let current := core.view.review.any fun review =>
    review.snapshot.review.id = reviewId ∧ review.scope = scope ∧
      (scope ≠ .all ∨ resolved = match review.snapshot.resolved with
        | some targets => targets.items
        | none => [])
  if core.latestFiles = some id ∧ current then do
    write fun core => { core with latestFiles := none }
    if scope = .all then pure () else scopeTargets resolved
    reviewFiles reviewId files
  else pure ()
where
  /-- The header and the trees follow the scoped targets. -/
  scopeTargets (resolved : List ResolvedTarget) : Client Unit := do
    write fun core => { core with
      view.review := core.view.review.map fun review =>
        { review with scopedTargets := resolved } }
    let sections ← rebase
    wantReviewTrees
    render sections
    render [.reviewList]

/-- The commits of a repository arrived, and by-commit mode may wait for them. -/
def commitsListed (repoId : RepoId) (commits : List CommitInfo) : Client Unit := do
  write fun core => { core with latestCommits := none }
  let core ← read
  match core.view.review with
  | none => pure ()
  | some review => do
    let hasWorktree := review.snapshot.review.targets.items.any fun target =>
      target.repoId = repoId ∧ target.head = .workingTree
    panels fun panels => { panels with stepper := some ⟨repoId, commits, hasWorktree⟩ }
    if core.panels.byCommitPending then do
      panels fun panels => { panels with byCommitPending := false }
      let core ← read
      match core.defaultByCommitScope repoId with
      | none => pure ()
      | some scope => applyScope scope
    else pure ()

/-- The candidates of a selector arrived. -/
def refsListed (id : RequestId) (repoId : RepoId) (refs : List RefCandidate) : Client Unit := do
  let core ← read
  if core.panels.refSelector.any fun selector => selector.matchesRequest repoId id then do
    panels fun panels => { panels with
      refSelector := panels.refSelector.map fun selector => selector.installed refs }
    render [.refSelector]
  else pure ()

def hitsFound (id : RequestId) (hits : List ContentHit) (truncated : Bool) : Client Unit := do
  let core ← read
  if core.latestSearch = some id ∧ core.panels.contentSearch.isSome then do
    write fun core => { core with latestSearch := none }
    panels fun panels => { panels with
      contentSearch := panels.contentSearch.map fun search => { search with
        hits, truncated
        selected := min search.selected (hits.length - 1)
        pending := false } }
    render [.search]
  else pure ()

/-- A single-key fetch was answered. -/
def contentAnswered (key : CacheKey) (value : CacheValue) : Client Unit := do
  arrived key value .response
  contentDone

/-- The daemon committed a mutation. The same event is also broadcast: whichever
arrives first applies it, the other only retires the pending entry. -/
def mutationCommitted (clientSeq : ClientSeq) (event : Event) : Risky Unit := do
  let core ← read
  match core.connection with
  | .subscribed lastSeq =>
    if event.seq ≤ lastSeq then
      if core.pending.any fun pending => pending.clientSeq = clientSeq then
        always (acknowledge clientSeq)
      else pure ()
    else do
      setConnection (.subscribed event.seq)
      ClientCore.applyEvent event
  | _ => fail (core.wrongState .server)
where
  acknowledge (clientSeq : ClientSeq) : Client Unit := do
    retirePending clientSeq
    let sections ← rebase
    render sections

/-- The snapshot of a review arrived in one piece. -/
def snapshotAnswered (id : RequestId) (reviewId : ReviewId) (snapshot : ReviewSnapshot) :
    Client Unit := do
  installSnapshot id snapshot
  landReference
  reviewOpenedPiecewise reviewId
  render openedSections

/-- What an answer does, given what waited for it. -/
def routed (id : RequestId) (waiting : InFlight) (answer : Response) : Risky Unit := do
  let unexpected := fun expected got => CoreError.unexpectedResponse id expected got
  match waiting, answer with
  | .subscribe, .subscribed seq => do
    let core ← read
    match core.connection with
    | .connecting .. => always (subscribed seq)
    | _ => fail (core.wrongState .server)
  | .creationDefault reviewId repoId, .defaultBase base =>
    always (creationDefaultAnswer reviewId repoId (.ok base))
  | .reconcileCreation reviewId, .review review
  | .checkFailedCreation reviewId _, .review review =>
    if review.id ≠ reviewId then
      fail (unexpected "Review for the attempted ID" "Review for another ID")
    else always (reviewFound review)
  | .createReview reviewId _, .committed event =>
    if event.body.reviewId ≠ some reviewId then
      fail (unexpected "Committed creation for the attempted ID"
        "Committed event for another review")
    else always (creationCommitted event)
  | .listWorkspaces, .workspaces workspaces => always (workspacesListed workspaces)
  | .listReviews workspaceId, .reviews reviews => always (reviewsListed workspaceId reviews)
  | .reviewSnapshot reviewId, .reviewSnapshot snapshot =>
    if snapshot.review.id ≠ reviewId then
      fail (unexpected "ReviewSnapshot for the requested review"
        "ReviewSnapshot for another review")
    else always (snapshotAnswered id reviewId snapshot)
  | .listFiles reviewId scope, .files files resolved =>
    always (filesListed id reviewId scope files resolved)
  | .listCommits repoId, .commits commits => always (commitsListed repoId commits)
  | .listRefs repoId, .refs got refs =>
    if repoId ≠ got then
      fail (unexpected "Refs for the requested repo" "Refs for another repo")
    else always (refsListed id repoId refs)
  | .search, .search hits truncated => always (hitsFound id hits truncated)
  | .browseTree repoId, .treeSnapshot snapshot => browseAnswer id repoId snapshot
  | .treeSnapshot tree, .treeSnapshot snapshot =>
    if TreeKey.ofSnapshot snapshot ≠ tree then
      fail (unexpected "TreeSnapshot of the requested repository and root"
        "TreeSnapshot of another repository or root")
    else always (contentAnswered (.tree tree) (.tree snapshot))
  | .renderChunk (.chunk render index), .renderChunk chunk =>
    if chunk.index ≠ index then
      fail (unexpected "RenderChunk with the requested index" "RenderChunk with another index")
    else always (contentAnswered (.chunk render index) (.chunk chunk))
  | .renderChunk _, .renderChunk _ =>
    fail (unexpected "RenderChunk" "RenderChunk for a non-chunk key")
  | .previewSuggestion reviewId commentId, .suggestionPreview preview =>
    suggestionPreviewed id reviewId commentId preview
  | .applySuggestion reviewId commentId, .committed event =>
    suggestionApplied id reviewId commentId event
  | .mutate clientSeq, .committed event => mutationCommitted clientSeq event
  | _, _ => fail (unexpected waiting.expected answer.name)

/-- Whether an answer comes too late to be looked at: a snapshot that is not the latest
one asked for is dropped with its request, commits are dropped alone. -/
inductive Late
  | snapshot | commits | no

def ClientCore.late (core : ClientCore) (id : RequestId) : InFlight → Response → Late
  | .reviewSnapshot _, _ => if core.latestOpen = some id then .no else .snapshot
  | .listCommits _, .commits _ => if core.latestCommits = some id then .no else .commits
  | _, _ => .no

/-- A request was answered. -/
def response (id : RequestId) (answer : Response) : Risky Unit := do
  let core ← read
  match core.inFlight.lookup id with
  | none => fail (.unknownRequest id)
  | some waiting => match core.late id waiting answer with
    | .snapshot => always (finished id)
    | .commits => pure ()
    | .no => do
      routed id waiting answer
      finished id

/-! ## Streams -/

/-- The opening stream's content has this standing. -/
def setOpening (id : RequestId) (reviewId : ReviewId) (content : OpeningContent) : Client Unit :=
  write fun core => { core with
    inFlight := core.inFlight.map fun entry =>
      if entry.1 = id then (id, .openReview reviewId content) else entry }

/-- The snapshot on an opening stream. When later events moved the targets, the content
that follows is of the old ones. -/
def openingSnapshot (id : RequestId) (reviewId : ReviewId) (snapshot : ReviewSnapshot) :
    Client Unit := do
  installSnapshot id snapshot
  landReference
  let core ← read
  if core.view.review.isNone then setOpening id reviewId .superseded
  else if core.committed.bind ReviewSnapshot.resolved = snapshot.resolved then do
    expectStreamedTrees
    setOpening id reviewId .streaming
  else do
    reviewOpenedPiecewise reviewId
    setOpening id reviewId .superseded
  render openedSections

/-- The header of a changed file on an opening stream: only this stream discovers
changed files. -/
def openingHeader (reviewId : ReviewId) (header : FileRenderHeader) : Client Unit := do
  let key := RenderKey.ofHeader header
  write fun core => { core with
    view.review := core.view.review.map (discover key) }
  arrived (.header key) (.header header) .stream
where
  discover (key : RenderKey) (review : OpenReview) : OpenReview :=
    match key.target with
    | .diff _ =>
      if review.snapshot.review.id = reviewId ∧ ¬ review.files.contains key then
        { review with files := review.files ++ [key] }
      else review
    | .blob _ => review

/-- What an item does, given what its stream answers. -/
def streamed (id : RequestId) (waiting : InFlight) (item : StreamItem) : Risky Unit := do
  let unexpected := fun expected => CoreError.unexpectedResponse id expected item.name
  match waiting, item with
  | .openReview reviewId _, .reviewSnapshot snapshot =>
    if snapshot.review.id ≠ reviewId then
      fail (unexpected "ReviewSnapshot for the requested review")
    else always (openingSnapshot id reviewId snapshot)
  | .openReview .., .treeSnapshot snapshot =>
    always (arrived (.tree (.ofSnapshot snapshot)) (.tree snapshot) .stream)
  | .openReview reviewId _, .header header => always (openingHeader reviewId header)
  | .openReview .., .chunk repoId path chunk => do
    let core ← read
    -- A chunk does not say which render it is of.
    match core.view.review.bind fun review => review.fileAt ⟨repoId, path⟩ with
    | none => fail (unexpected "Chunk of a file whose header was streamed")
    | some render => always (arrived (.chunk render chunk.index) (.chunk chunk) .stream)
  | .fileRender render _, .header header =>
    if RenderKey.ofHeader header ≠ render then fail (unexpected "Header of the requested file")
    else always (arrived (.header render) (.header header) .stream)
  | .fileRender render stopAfter, .chunk repoId path chunk =>
    if repoId ≠ render.repoId ∨ path ≠ render.path then
      fail (unexpected "Chunk of the requested file")
    else always (streamChunk id render stopAfter chunk)
  | .fileRender .., _ => fail (unexpected "Header or Chunk")
  | _, _ => fail (unexpected "Response")

/-- Whether an opening stream's items are of another generation, or of an open that is
not the latest one. -/
def ClientCore.supersedes (core : ClientCore) (id : RequestId) : InFlight → Bool
  | .openReview _ content => content = .superseded ∨ core.latestOpen ≠ some id
  | _ => false

/-- A piece of a stream arrived. -/
def streamItem (id : RequestId) (item : StreamItem) : Risky Unit := do
  let core ← read
  match core.inFlight.lookup id with
  | none => fail (.unknownRequest id)
  | some waiting =>
    if core.supersedes id waiting then pure () else streamed id waiting item

/-- The opening stream ended: the file list is complete, so land on its first diff. -/
def openingEnded (id : RequestId) (reviewId : ReviewId) (content : OpeningContent) :
    Client Unit := do
  dropRequest id
  forgetBuffer id
  let core ← read
  if core.latestOpen = some id ∧ content = .streaming ∧ core.isOpen reviewId then do
    autoOpenFirst
    render [.diff]
  else pure ()

/-- A render stream ended; its header may never have come. -/
def renderEnded (id : RequestId) (render : RenderKey) : Client Unit := do
  dropRequest id
  contentFailed (.header render)
  contentDone

/-- A stream is over. -/
def streamEnd (id : RequestId) : Risky Unit := do
  let core ← read
  match core.inFlight.lookup id with
  | none => fail (.unknownRequest id)
  | some (.openReview reviewId content) => always (openingEnded id reviewId content)
  | some (.fileRender render _) => always (renderEnded id render)
  | some _ => fail (.unexpectedResponse id "Response" "StreamEnd")

/-! ## Errors -/

/-- How far the delivery of a mutation is known to have got. -/
def setDelivery (clientSeq : ClientSeq) (delivery : PendingDelivery) : Client Unit :=
  write fun core => { core with
    pending := modifyFirst (fun pending => pending.clientSeq = clientSeq)
      (fun pending => { pending with delivery }) core.pending }

def isTargetUpdate : Mutation → Bool
  | .updateReviewTarget .. => true
  | _ => false

/-- A mutation was not acknowledged. -/
def mutationFailed (clientSeq : ClientSeq) (error : RpcError) : Client Unit := do
  let core ← read
  let targetUpdate := core.pending.any fun pending =>
    pending.clientSeq = clientSeq ∧ isTargetUpdate pending.mutation
  match error with
  | .restartInterrupted _ => setDelivery clientSeq .outcomeUnknown
  | .restarting _ => setDelivery clientSeq .notAdmitted
  | _ => retirePending clientSeq
  let sections ← rebase
  render (sections ++ [.threads])
  if targetUpdate ∧ core.panels.refSelector.any fun selector => selector.purpose ≠ .browse then do
    panels fun panels => { panels with
      refSelector := panels.refSelector.map fun selector =>
        { selector with status := selectorError error } }
    render [.refSelector]
  else pure ()

/-- The candidates of a selector could not be had. -/
def refsFailed (error : RpcError) : Client Unit := do
  panels fun panels => { panels with
    refSelector := panels.refSelector.map fun selector =>
      { selector with status := .daemonError (rpcErrorMessage error) } }
  render [.refSelector]

/-- An error that is shown, with what it ends. -/
def requestFailed (waiting : InFlight) (error : RpcError) : Client Unit := do
  write fun core => { core with view.lastError := some error }
  render [.connection]
  match waiting with
  | .subscribe => setConnectionView .connecting
  | .mutate clientSeq => mutationFailed clientSeq error
  | .listRefs _ => refsFailed error
  | _ => pure ()
  match waiting.key with
  | none => pure ()
  | some key => contentFailed key
  if waiting.isContent then contentDone else pure ()

/-- What the error of a request does, given what waited for it. -/
def failed (id : RequestId) (waiting : InFlight) (error : RpcError) : Client Unit := do
  let core ← read
  match waiting with
  | .openReview .. | .reviewSnapshot _ =>
    if core.latestOpen = some id then do
      write fun core => { core with pendingReference := none }
      requestFailed waiting error
    else pure ()
  | .previewSuggestion reviewId commentId | .applySuggestion reviewId commentId =>
    suggestionFailed id reviewId commentId error
  | .creationDefault reviewId repoId =>
    creationDefaultAnswer reviewId repoId (.error (rpcErrorMessage error))
  | .createReview reviewId _ => creationWriteFailed reviewId error
  | .checkFailedCreation reviewId original => creationFailureChecked reviewId original error
  | .reconcileCreation reviewId => creationLookupFailed reviewId error
  | .browseTree _ => browseFailed id error
  | .listRefs repoId =>
    if core.panels.refSelector.any fun selector => selector.matchesRequest repoId id then
      requestFailed waiting error
    else pure ()
  | _ => requestFailed waiting error

/-- A request failed. -/
def error (id : RequestId) (error : RpcError) : Risky Unit := do
  forgetBuffer id
  let core ← read
  match core.inFlight.lookup id with
  | none => fail (.unknownRequest id)
  | some waiting => do
    dropRequest id
    always (failed id waiting error)

/-! ## Events -/

/-- A live event. The response to a mutation and the tail carry the same event: when
the response wins the race, its echo is expected. -/
def event (event : Event) : Risky Unit := do
  let core ← read
  match core.connection with
  | .subscribed lastSeq =>
    if event.seq = lastSeq ∧ event.clientId = core.config.clientId then pure ()
    else if event.seq ≤ lastSeq then fail (.staleEvent event.seq lastSeq)
    else do
      setConnection (.subscribed event.seq)
      ClientCore.applyEvent event
  | .connecting true (some lastSeq) =>
    -- The daemon replays the gap before it answers the subscribe.
    if event.seq ≤ lastSeq then fail (.staleEvent event.seq lastSeq)
    else do
      setConnection (.connecting true (some event.seq))
      ClientCore.applyEvent event
  | .disconnected _ | .connecting .. => fail (core.wrongState .server)

def liveTree (delta : TreeDelta) : Risky Unit := do
  let core ← read
  match core.connection with
  | .subscribed _ => always (treeDelta delta)
  | .disconnected _ | .connecting .. => fail (core.wrongState .server)

/-- Handle a message of the daemon. -/
def server : ServerMsg → Risky Unit
  | .restarting operation => always (restartNotice operation)
  | .welcome => welcome
  | .rejected error => rejected error
  | .response id answer => response id answer
  | .streamItem id item => streamItem id item
  | .streamEnd id => streamEnd id
  | .error id failure => error id failure
  | .event live => event live
  | .treeDelta delta => liveTree delta

end Server

end Nits.ClientCore
