import Nits.ClientCore.Suggestion

/-!
# Browsing, references and the daemon's life cycle

A picked ref is committed only after its tree resolved; a reference lands when its
review's snapshot arrives; a replaced daemon is dialled again on the host's clock.
-/

set_option linter.dupNamespace false

namespace Nits.ClientCore

open Logical Logical.Handler Protocol

section Navigation

variable [Presentation]

/-! ## Browse -/

/-- The repository that Browse is about. -/
def ClientCore.browseRepo (core : ClientCore) : Option RepoId := do
  let review ← core.view.review
  let picked := core.panels.browseRepo <|> Presentation.targetRepoOf core core.panels.focus
  match picked.filter fun repoId =>
      review.snapshot.review.targets.items.any fun target => target.repoId = repoId with
  | some repoId => some repoId
  | none => some review.snapshot.review.targets.first.repoId

def requireBrowseRepo (repoId : RepoId) : Risky Unit := do
  let core ← read
  match core.view.review with
  | none => fail .noOpenReview
  | some review =>
    if review.snapshot.review.targets.items.any fun target => target.repoId = repoId then pure ()
    else fail (.unknownRepo repoId)

/-- A selector for Browse, not for a review target, closes. -/
def Panels.withoutBrowseSelector (panels : Panels) : Panels :=
  { panels with
    refSelector := panels.refSelector.filter fun selector => selector.purpose ≠ .browse }

def setBrowse (browse : Option Browse) : Client Unit :=
  write fun core => { core with browse }

/-- Look a ref up; the answer is `browseAnswer`'s. -/
def askBrowseTree (repoId : RepoId) (refSpec : RefSpec) : Client Unit := do
  let core ← read
  panels fun panels => { panels with
    browseRepo := some repoId
    browseAttempt := some ⟨⟨repoId, refSpec⟩, .loading core.nextRequest⟩ }
  request (.treeSnapshot repoId refSpec) (.browseTree repoId)

/-- Return to the review's head trees. -/
def leaveBrowse (repoId : RepoId) : Client Unit := do
  setBrowse none
  panels fun panels => { panels.withoutBrowseSelector with
    browseAttempt := none, browseRepo := some repoId, visualAnchor := none }
  showFile none none
  wantReviewTrees

def setBrowseRef (repoId : RepoId) (refSpec : Option RefSpec) : Risky Unit := do
  requireBrowseRepo repoId
  let core ← read
  if core.view.draft.isSome then fail .draftAlreadyOpen
  else match refSpec with
    | some refSpec => do
      requireSubscribed
      always (askBrowseTree repoId refSpec)
    | none => always (leaveBrowse repoId)

/-- A Browse selector shows a failure. -/
def Panels.failBrowseSelector (panels : Panels) (which : RefSelector → Bool)
    (status : RefSelectorStatus) : Panels :=
  { panels with
    refSelector := panels.refSelector.map fun selector =>
      if selector.purpose = .browse ∧ which selector then { selector with status } else selector }

/-- The candidate failed; the visible revision stays. -/
def failAttempt (message : String) (which : RefSelector → Bool) (status : RefSelectorStatus) :
    Client Unit :=
  panels fun panels => { panels.failBrowseSelector which status with
    browseAttempt := panels.browseAttempt.map fun attempt =>
      { attempt with state := .failed message } }

/-- The candidate's tree arrived: it is the picked revision now. -/
def takeBrowse (attempt : BrowseAttempt) (snapshot : TreeSnapshot) : Client Unit := do
  let tree := TreeKey.ofSnapshot snapshot
  setBrowse (some ⟨attempt.target, tree.root⟩)
  panels fun panels => { panels with
    browseAttempt := none
    refSelector := panels.refSelector.filter fun selector =>
      ¬ (selector.purpose = .browse ∧ selector.repoId = attempt.target.repoId)
    visualAnchor := none }
  showFile none none
  pin (.tree tree)
  arrived (.tree tree) (.tree snapshot) .response
  wantReviewTrees

def browseAnswer (id : RequestId) (repoId : RepoId) (snapshot : TreeSnapshot) : Risky Unit := do
  let core ← read
  match core.panels.browseAttempt with
  | none => pure ()
  | some attempt =>
    if attempt.state ≠ .loading id ∨ attempt.target.repoId ≠ repoId then pure ()
    else if snapshot.repoId ≠ repoId then
      fail (.unexpectedResponse id "Browse tree of the requested repository"
        "TreeSnapshot of another repository")
    else if core.view.draft.isSome then do
      let message := "Finish or discard the open comment before changing revision."
      always (failAttempt message (fun _ => true) (.daemonError message))
    else always (takeBrowse attempt snapshot)

/-- How the selector shows a daemon error. -/
def selectorError : RpcError → RefSelectorStatus
  | .invalid reason => .invalidRef reason
  | .notFound kind id => .invalidRef (EntityKind.text kind ++ " " ++ id ++ " was not found")
  | error => .daemonError (rpcErrorMessage error)

def browseFailed (id : RequestId) (error : RpcError) : Client Unit := do
  let core ← read
  match core.panels.browseAttempt with
  | none => pure ()
  | some attempt =>
    if attempt.state = .loading id then do
      failAttempt (rpcErrorMessage error)
        (fun selector => selector.repoId = attempt.target.repoId) (selectorError error)
      render [.reviewList]
    else pure ()

def browseDisconnected : Client Unit := do
  let core ← read
  match core.panels.browseAttempt with
  | some ⟨_, .loading _⟩ => do
    let message := "Daemon disconnected; the previous revision is still visible."
    failAttempt message (fun _ => true) (.daemonError message)
  | _ => pure ()

/-! ## Ref selector -/

/-- The selector with its rows filtered by the query. -/
def RefSelector.filtered (selector : RefSelector) : RefSelector :=
  let (options, selected) := Presentation.refOptions selector
  { selector with options, selected }

/-- The selector with the daemon's catalog; the current ref is always offered. -/
def RefSelector.installed (selector : RefSelector) (catalog : List RefCandidate) :
    RefSelector :=
  let catalog :=
    if catalog.any fun candidate => candidate.refSpec = selector.current then catalog
    else ⟨selector.current, none⟩ :: catalog
  { selector with catalog, status := .ready }.filtered

def RefSelector.stepped (selector : RefSelector) (delta : Int) : RefSelector :=
  let last := selector.options.length - 1
  let current := min selector.selected last
  { selector with
    selected :=
      if selector.options = [] then 0
      else if delta < 0 then current - delta.natAbs else min (current + delta.natAbs) last }

/-- What choosing a row means. A working tree is no base. -/
inductive RefSelection
  | review (revision : TargetRevision)
  | browse (refSpec : RefSpec)

def baseRef : RefSpec → Option BaseRefSpec
  | .branch name => some (.branch name)
  | .commit oid => some (.commit oid)
  | .tag name => some (.tag name)
  | .revision expression => some (.revision expression)
  | .upstream => some .upstream
  | .head => some .head
  | .workingTree => none

def RefSelector.selectionAt (selector : RefSelector) (index : Nat) : Option RefSelection := do
  let chosen ← selector.options[index]?
  match selector.purpose with
  | .browse => some (.browse chosen.refSpec)
  | .review .head => some (.review (.head chosen.refSpec))
  | .review .base => (baseRef chosen.refSpec).map fun base => .review (.base base)

/-- The ref that a selector starts from. -/
def ClientCore.currentRef (core : ClientCore) (target : ReviewTarget) :
    RefSelectorPurpose → RefSpec
  | .review .base => target.base
  | .review .head => target.head
  | .browse => match core.browse.filter fun browse => browse.target.repoId = target.repoId with
    | some browse => browse.target.refSpec
    | none => target.head

def ClientCore.repoName (core : ClientCore) (review : OpenReview) (repoId : RepoId) : String :=
  let workspace := core.view.workspaces.find? fun workspace =>
    workspace.id = review.snapshot.review.workspaceId
  match workspace.bind fun workspace => workspace.repos.find? fun repo => repo.id = repoId with
  | some repo => repo.displayName
  | none => repoId.toString

def askRefs (repoId : RepoId) (repoName : String) (purpose : RefSelectorPurpose)
    (current : RefSpec) : Client Unit := do
  let core ← read
  panels fun panels => { panels with
    browseRepo := if purpose = .browse then some repoId else panels.browseRepo
    browseAttempt := if purpose = .browse then none else panels.browseAttempt
    refSelector := some {
      catalog := [], requestId := core.nextRequest, repoId, repoName, purpose, current
      query := "", options := [], selected := 0, status := .loading } }
  request (.listRefs repoId) (.listRefs repoId)

def openRefSelector (repoId : RepoId) (purpose : RefSelectorPurpose) : Risky Unit := do
  requireSubscribed
  requireBrowseRepo repoId
  let core ← read
  if purpose = .browse ∧ core.view.draft.isSome then fail .draftAlreadyOpen
  else match core.view.review with
    | none => fail .noOpenReview
    | some review =>
      match review.snapshot.review.targets.items.find? fun target => target.repoId = repoId with
      | none => fail (.unknownRepo repoId)
      | some target =>
        always (askRefs repoId (core.repoName review repoId) purpose (core.currentRef target purpose))

/-- The selector waits for what it chose. -/
def markSaving (index : Nat) : Client Unit :=
  panels fun panels => { panels with
    refSelector := panels.refSelector.map fun selector =>
      { selector with selected := index, status := .saving } }

def selectRef (index : Nat) : Risky Unit := do
  let core ← read
  match core.panels.refSelector with
  | none => fail .noRefSelector
  | some selector => match selector.selectionAt index with
    | none => fail .noSelectedRef
    | some (.browse refSpec) => do
      setBrowseRef selector.repoId (some refSpec)
      markSaving index
      always (render [.refSelector])
    | some (.review revision) => do
      requireSubscribed
      match core.view.review with
      | none => fail .noOpenReview
      | some review => do
        let mutation := Mutation.updateReviewTarget review.snapshot.review.id
          ⟨selector.repoId, revision⟩
        match localEvent review.snapshot core.metaNow mutation with
        | .error error => fail (.mutation error)
        | .ok body => do
          markSaving index
          mutateWith mutation body
          always (render [.refSelector])

/-! ## References -/

def referenceError (message : String) : Client Unit := do
  write fun core => { core with view.lastError := some (.invalid message) }
  render [.connection]

/-- Show a comment of the open review in its thread. -/
def focusComment (commentId : CommentId) : Risky Unit := do
  let core ← read
  match core.view.review with
  | none => fail .noOpenReview
  | some review =>
    match review.snapshot.comments.find? fun comment => comment.id = commentId with
    | none => always (referenceError "Referenced comment is missing from this review")
    | some comment =>
      if comment.state = .deleted then
        always (referenceError "Referenced comment has been deleted")
      else
        match (Presentation.threads review.snapshot).findIdx? fun thread =>
            thread.1 = comment.threadId with
        | none => always (referenceError "Referenced thread is missing from this review")
        | some index => always (focusThread index commentId)
where
  focusThread (index : Nat) (commentId : CommentId) : Client Unit := do
    panels fun panels => { panels with
      tab := .conversation, focus := .thread index, focusedComment := some commentId }
    render [.focus, .threads]

/-- The committed snapshot advanced by the later events of a reference, with its
cursor; none when one of them deletes the review. -/
def advanced (committed : ReviewSnapshot) : List Event → Option ReviewSnapshot
  | [] => some committed
  | event :: later =>
    if committed.seq < event.seq then
      match event.body with
      | .reviewDeleted _ => none
      | _ => advanced { (applyEvent committed event).1 with seq := event.seq } later
    else advanced committed later

/-- A reference's snapshot is installed: advance it by what arrived meanwhile and go to
what the reference names. -/
def landReference : Client Unit := do
  let core ← read
  match core.pendingReference with
  | none => pure ()
  | some ⟨reference, events⟩ => do
    write fun core => { core with pendingReference := none }
    match core.committed with
    | none => land reference
    | some committed => match advanced committed events with
      | none => do
        closeReview
        referenceError "Referenced review has been deleted"
      | some committed => do
        write fun core => { core with committed := some committed }
        land reference
where
  land (reference : ReviewReference) : Client Unit := do
    let _ ← rebase
    let core ← read
    match core.view.review with
    | none => pure ()
    | some review => match Presentation.referred reference review.snapshot with
      | .ok none => pure ()
      | .error message => referenceError message
      | .ok (some commentId) => do
        match ← attempt (focusComment commentId) with
        | .ok () => pure ()
        | .error _ => referenceError "no review is open"

/-! ## Life cycle -/

/-- Status describes the connection era in which it was inspected. -/
def invalidateDaemonStatus : Client Unit :=
  write fun core => match core.view.daemonManagement with
    | .inspecting | .status _ => { core with
        managementRequest := none
        view.daemonManagement := .idle }
    | .idle | .upgrading | .outcome _ | .unavailable _ => core

/-- The daemon announced its replacement. -/
def restartNotice (operation : UpgradeOperation) : Client Unit := do
  invalidateDaemonStatus
  write fun core => { core with
    recovery := .restarting operation (core.now + 60000) (core.now + 100) 0
    view.connection := .restarting operation }
  render [.connection]

/-- How a lost connection shows while a replacement is under way. -/
def ClientCore.restartView (core : ClientCore) : Option ConnectionView :=
  match core.recovery with
  | .idle => none
  | .restarting operation .. =>
    if operation.target = ProtocolVersion.CURRENT then some (.restarting operation)
    else some (.upgradeRequired ProtocolVersion.CURRENT [operation.target])

/-- A replacement by another protocol ends the recovery. -/
def ClientCore.recoveryLeft (core : ClientCore) : Recovery :=
  match core.recovery with
  | .idle => .idle
  | .restarting operation .. =>
    if operation.target = ProtocolVersion.CURRENT then core.recovery else .idle

/-- Show how the connection stands after it was lost. -/
def showLost (otherwise : ConnectionView) : Client Unit :=
  write fun core => { core with
    recovery := core.recoveryLeft
    view.connection := (core.restartView).getD otherwise }

/-- No request is under way any more; unanswered mutations may have been committed. -/
def ClientCore.lost (core : ClientCore) : ClientCore :=
  { core with
    snapshotEvents := []
    pendingReference := none
    latestOpen := none
    content.pending := core.content.pending.filter fun entry =>
      ¬ core.inFlight.any fun waiting => waiting.2.key = some entry.1
    content.inFlight := 0
    inFlight := []
    pending := core.pending.map fun pending =>
      if pending.delivery = .awaitingReceipt then { pending with delivery := .outcomeUnknown }
      else pending }

def clearInFlight : Client Unit := write ClientCore.lost

def setRecovery (recovery : Recovery) : Client Unit :=
  write fun core => { core with recovery }

def setConnectionView (shown : ConnectionView) : Client Unit :=
  write fun core => { core with view.connection := shown }

/-- Dial the replaced daemon again while the budget lasts. -/
def restartTick : Client Unit := do
  let core ← read
  match core.recovery with
  | .idle => pure ()
  | .restarting operation deadline nextAttempt attempts =>
    if deadline ≤ core.now then do
      setConnectionView (.rejected (.internal ("Restart " ++ operation.id ++
        " did not become ready within the reconnect budget. Drafts are retained. Inspect " ++
        "daemon upgrade-status and reconnect when ready.")))
      setConnection (.disconnected core.connection.lastSeq)
      clearInFlight
      setRecovery .idle
      order .disconnect
      render [.connection]
    else match core.connection with
      | .disconnected lastSeq =>
        if nextAttempt ≤ core.now then do
          setRecovery (.restarting operation deadline
            (core.now + 250 * 2 ^ min attempts 4) (min (attempts + 1) 255))
          setConnection (.connecting false lastSeq)
          order .connect
        else pure ()
      | _ => pure ()

def manageDaemon (request : ManagementRequest) : Client Unit := do
  let core ← read
  let id := core.nextManagement + 1
  write fun core => { core with
    nextManagement := id
    managementRequest := some id
    view.daemonManagement := match request with
      | .inspect => .inspecting
      | .upgrade => .upgrading }
  order (.manageDaemon id request)
  render [.connection]

def managedDaemon (id : ManagementRequestId) (reply : ManagementReply) : Client Unit := do
  let core ← read
  if core.managementRequest ≠ some id then pure ()
  else do
    write fun core => { core with
      managementRequest := none
      view.daemonManagement := match reply with
        | .status (.ok status) => .status status
        | .upgrade (.ok result) => .outcome result
        | .status (.error message) | .upgrade (.error message) => .unavailable message }
    render [.connection]

end Navigation

end Nits.ClientCore
