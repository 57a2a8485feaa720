import Nits.ClientCore.Review

/-!
# Review creation

The form on the home screen keeps editable input apart from what was submitted. A
dropped response is reconciled by the review's identity before another write.
-/

set_option linter.dupNamespace false

namespace Nits.ClientCore

open Logical Logical.Handler Protocol

namespace ReviewCreation

def editable (creation : ReviewCreation) : Bool :=
  match creation.status with
  | .editing | .failed _ => true
  | .pending _ | .interrupted .. | .reconciling .. | .succeeded => false

/-- One review may not name a repository twice. -/
def checkRepositories (repositories : List RepoId) : Except String Unit :=
  match duplicate [] repositories with
  | none => .ok ()
  | some repoId => .error ("Repository " ++ repoId.toString ++
      " is included more than once. Choose one base/head pair for each repository.")
where
  duplicate (seen : List RepoId) : List RepoId → Option RepoId
    | [] => none
    | repoId :: later => if repoId ∈ seen then some repoId else duplicate (repoId :: seen) later

def repositories (creation : ReviewCreation) : List RepoId :=
  creation.draft.targets.map CreationTarget.repoId

def edited (creation : ReviewCreation) : ReviewCreation :=
  { creation with
    status := match checkRepositories creation.repositories with
      | .ok () => .editing
      | .error message => .failed message }

/-- Change the target row of an id. -/
def changeTarget (creation : ReviewCreation) (targetId : CreationTargetId)
    (change : CreationTarget → CreationTarget) : ReviewCreation :=
  { creation with
    draft.targets := modifyFirst (fun target => target.id = targetId) change creation.draft.targets }

def editField (creation : ReviewCreation) : CreationEdit → ReviewCreation
  | .title text => { creation with draft.title := text }
  | .repository targetId repoId => creation.changeTarget targetId fun target =>
      { target with repoId, base := .automatic }
  | .base targetId text => creation.changeTarget targetId fun target =>
      { target with base := .manual text }
  | .head targetId text => creation.changeTarget targetId fun target =>
      { target with head := text }

/-- The submission whose outcome is not known yet. -/
def submission : CreationStatus → Option CreationSubmission
  | .pending submission | .interrupted submission _ | .reconciling submission _ => some submission
  | .editing | .failed _ | .succeeded => none

section Parsing

variable [Presentation]

/-- The base revision of a target: its own text, or the repository's default. -/
def baseOf (creation : ReviewCreation) (target : CreationTarget) : Except String RefSpec :=
  match target.base with
  | .manual text => Presentation.parseRef text
  | .automatic =>
    match (creation.defaults.find? fun known => known.repoId = target.repoId).map
        CreationDefault.state with
    | some (.ready base) => .ok base
    | some (.failed message) => .error ("Choose a base revision: " ++ message)
    | some .loading | none =>
      .error "The default base is still loading. Wait or enter a base revision."

def snapshotSubmission (creation : ReviewCreation) : Except String CreationSubmission := do
  let title := trim creation.draft.title
  if title.isEmpty then .error "Enter a review title."
  else do
    let targets ← creation.draft.targets.mapM fun target => do
      let baseRef ← creation.baseOf target
      let headRef ← Presentation.parseRef target.head
      return ReviewTarget.mk target.repoId baseRef headRef
    match targets with
    | [] => .error "Choose at least one repository."
    | first :: rest => .ok ⟨title, first :: rest, List.cons_ne_nil first rest⟩

/-- The draft as it would be written. -/
def submitted (creation : ReviewCreation) : Except String CreationSubmission := do
  checkRepositories creation.repositories
  let submission ← creation.snapshotSubmission
  checkRepositories (submission.targets.items.map ReviewTarget.repoId)
  return submission

end Parsing

end ReviewCreation

/-- Put the form. -/
def setCreating (creation : Option ReviewCreation) : Client Unit :=
  write fun core => { core with view.creating := creation }

/-- The form changed. -/
def changed : Client Unit := render [.reviewList]

/-- The form that an answer or an action about a review is for. -/
def ClientCore.creatingFor (core : ClientCore) (reviewId : ReviewId) : Option ReviewCreation :=
  core.view.creating.filter fun creation => creation.reviewId = reviewId

/-- The same, while it can be edited. -/
def ClientCore.editableFor (core : ClientCore) (reviewId : ReviewId) : Option ReviewCreation :=
  (core.creatingFor reviewId).filter ReviewCreation.editable

/-- The repositories of the form whose default base was never asked for. -/
def ReviewCreation.missingDefaults (creation : ReviewCreation) : List RepoId :=
  creation.draft.targets.foldl (fun missing target =>
    if (creation.defaults.any fun known => known.repoId = target.repoId) ∨
        missing.contains target.repoId then missing
    else missing ++ [target.repoId]) []

/-- Ask for the default bases that the form lacks. -/
def creationDefaults : Client Unit := do
  let core ← read
  if core.connection.isSubscribed then
    match core.view.creating with
    | none => pure ()
    | some creation =>
      if creation.editable ∧ creation.context = core.view.daemonContext then do
        let needed := creation.missingDefaults
        setCreating (some { creation with
          defaults := creation.defaults ++ needed.map fun repoId => ⟨repoId, .loading⟩ })
        each (fun repoId =>
          request (.defaultBase repoId) (.creationDefault creation.reviewId repoId)) needed
      else pure ()
  else pure ()

/-- Replace the form, ask for the defaults it now lacks and show it. -/
def creationEdited (creation : ReviewCreation) : Client Unit := do
  setCreating (some creation.edited)
  creationDefaults
  changed

def editCreationField (reviewId : ReviewId) (edit : CreationEdit) : Client Unit := do
  let core ← read
  match core.editableFor reviewId with
  | none => pure ()
  | some creation =>
    creationEdited ({ creation with revision := creation.revision + 1 }.editField edit)

def focusComposer : Client Unit := panels fun panels => { panels with focus := .composer }

def selectCreationTarget (reviewId : ReviewId) (targetId : CreationTargetId) : Client Unit := do
  let core ← read
  match core.editableFor reviewId with
  | none => pure ()
  | some creation => do
    let creation := { creation with revision := creation.revision + 1 }
    if creation.draft.targets.any fun target => target.id = targetId then do
      setCreating (some { creation with selected := some targetId })
      focusComposer
    else setCreating (some creation)
    changed

/-- The first repository of the form's workspace that has no target yet. -/
def ClientCore.freeRepo (core : ClientCore) (creation : ReviewCreation) : Option Repo := do
  let workspace ← core.view.workspaces.find? fun workspace => workspace.id = creation.workspaceId
  workspace.repos.find? fun repo => ¬ creation.repositories.contains repo.id

def addCreationTarget (reviewId : ReviewId) : Client Unit := do
  let core ← read
  match core.editableFor reviewId with
  | none => pure ()
  | some creation => do
    let creation := { creation with revision := creation.revision + 1 }
    match core.freeRepo creation with
    | none => do
      setCreating (some creation)
      changed
    | some repo => do
      let target : CreationTarget := ⟨creation.revision, repo.id, .automatic, "worktree"⟩
      setCreating (some { creation with
        selected := some creation.revision
        draft.targets := creation.draft.targets ++ [target] }.edited)
      focusComposer
      creationDefaults
      changed

def removeCreationTarget (reviewId : ReviewId) : Client Unit := do
  let core ← read
  match core.editableFor reviewId with
  | none => pure ()
  | some creation => do
    let creation := { creation with revision := creation.revision + 1 }
    let found := creation.selected.bind fun id =>
      creation.draft.targets.findIdx? fun target => target.id = id
    match found with
    | none => setCreating (some creation)
    | some index => do
      let targets := creation.draft.targets.eraseIdx index
      setCreating (some { creation with
        draft.targets := targets
        selected := targets[min index (targets.length - 1)]?.map CreationTarget.id }.edited)
    changed

/-- The default base of a repository arrived, or could not be had. -/
def creationDefaultAnswer (reviewId : ReviewId) (repoId : RepoId)
    (answer : Except String RefSpec) : Client Unit := do
  let core ← read
  match core.creatingFor reviewId with
  | none => pure ()
  | some creation =>
    if creation.context = core.view.daemonContext then
      match creation.defaults.find? fun known => known.repoId = repoId with
      | some ⟨_, .loading⟩ => do
        let state := match answer with
          | .ok base => CreationDefaultState.ready base
          | .error message => .failed message
        setCreating (some { creation with
          defaults := modifyFirst (fun known => known.repoId = repoId)
            (fun known => { known with state }) creation.defaults })
        changed
      | _ => pure ()
    else pure ()

/-- Write the submission under the form's id. -/
def sendCreation (reviewId : ReviewId) (submission : CreationSubmission) : Client Unit := do
  let core ← read
  match core.creatingFor reviewId with
  | none => pure ()
  | some creation =>
    if creation.context = core.view.daemonContext then do
      setCreating (some { creation with status := .pending submission })
      mutateUnshown
        (.createReview reviewId creation.workspaceId submission.title submission.targets)
        (.createReview reviewId)
      changed
    else pure ()

def creationFailure (reviewId : ReviewId) (message : String) : Client Unit := do
  let core ← read
  match core.editableFor reviewId with
  | none => pure ()
  | some creation => do
    setCreating (some { creation with status := .failed message })
    changed

section Submitting

variable [Presentation]

/-- Whether every target's repository is attached to the form's workspace. -/
def ClientCore.attachedAll (core : ClientCore) (creation : ReviewCreation) : Bool :=
  core.view.workspaces.any fun workspace => workspace.id = creation.workspaceId ∧
    creation.repositories.all fun repoId => workspace.repos.any fun repo => repo.id = repoId

/-- What submitting the form would write, or why it may not. -/
def ClientCore.submission (core : ClientCore) (creation : ReviewCreation) :
    Except String CreationSubmission :=
  if creation.context ≠ core.view.daemonContext then
    .error ("This draft belongs to a different daemon context. Return to that context " ++
      "before submitting.")
  else if ¬ core.connection.isSubscribed then
    .error "The daemon is disconnected. Your draft is retained; reconnect and try again."
  else if ¬ core.attachedAll creation then
    .error ("A selected repository is no longer attached to this workspace. Refresh and " ++
      "choose its repositories again.")
  else creation.submitted

/-- Submit the form. Even unchanged input needs its own acknowledgement. -/
def submitCreation (reviewId : ReviewId) : Client Unit := do
  let core ← read
  match core.editableFor reviewId with
  | none => pure ()
  | some creation => do
    let creation := { creation with revision := creation.revision + 1 }
    setCreating (some creation)
    match core.submission creation with
    | .ok submission => sendCreation reviewId submission
    | .error message => creationFailure reviewId message

end Submitting

/-- The write was rejected. A prior write can have won, so the identity is read before
anything is concluded. -/
def creationWriteFailed (reviewId : ReviewId) (error : RpcError) : Client Unit := do
  let core ← read
  match core.creatingFor reviewId with
  | none => pure ()
  | some creation =>
    if creation.context = core.view.daemonContext then
      match creation.status with
      | .pending submission => do
        setCreating (some { creation with status := .reconciling submission .inspect })
        request (.getReview reviewId) (.checkFailedCreation reviewId error)
        changed
      | _ => pure ()
    else pure ()

/-- Whether an error says that the review does not exist. -/
def missingReview : RpcError → Bool
  | .notFound .review _ => true
  | _ => false

/-- The review could not be read. When it does not exist, a retry may write. -/
def creationLookupFailed (reviewId : ReviewId) (error : RpcError) : Client Unit := do
  let core ← read
  match core.creatingFor reviewId with
  | none => pure ()
  | some creation => match creation.status with
    | .reconciling submission next =>
      if missingReview error ∧ next = .retry then
        match ReviewCreation.checkRepositories
            (submission.targets.items.map ReviewTarget.repoId) with
        | .ok () => sendCreation reviewId submission
        | .error message => do
          setCreating (some { creation with status := .failed message })
          changed
      else do
        let message :=
          if missingReview error then
            "The review was not found. Retry will check for an existing review before " ++
              "creating one."
          else "Unable to check the previous attempt: " ++ rpcErrorMessage error
        setCreating (some { creation with status := .interrupted submission message })
        changed
    | _ => pure ()

/-- The lookup after a rejected write failed. -/
def creationFailureChecked (reviewId : ReviewId) (original lookup : RpcError) : Client Unit := do
  if missingReview lookup then do
    let core ← read
    match core.creatingFor reviewId with
    | none => pure ()
    | some creation => match creation.status with
      | .reconciling .. => do
        setCreating (some { creation with status := .failed (rpcErrorMessage original) })
        changed
      | _ => pure ()
  else creationLookupFailed reviewId lookup

/-- The form after a connection was lost: defaults are asked for again, and an attempt
whose outcome is not known is interrupted. -/
def ReviewCreation.disconnected (creation : ReviewCreation) : ReviewCreation :=
  { creation with
    defaults := creation.defaults.filter fun known => known.state ≠ .loading
    status := match creation.status with
      | .pending submission | .reconciling submission _ =>
        .interrupted submission ("Connection lost. The review may already exist; " ++
          "reconnect to check before retrying.")
      | status => status }

def creationDisconnected : Client Unit :=
  write fun core => { core with
    view.creating := core.view.creating.map ReviewCreation.disconnected }

/-- Read the review of an interrupted attempt. -/
def reconcileCreation (reviewId : ReviewId) (next : CreationReconcile) : Client Unit := do
  let core ← read
  match core.creatingFor reviewId with
  | none => pure ()
  | some creation =>
    if creation.context = core.view.daemonContext then
      match creation.status with
      | .interrupted submission _ => do
        let creation :=
          if next = .retry then { creation with revision := creation.revision + 1 } else creation
        if core.connection.isSubscribed then do
          setCreating (some { creation with status := .reconciling submission next })
          request (.getReview reviewId) (.reconcileCreation reviewId)
          changed
        else if next = .retry then do
          let message := "The daemon is disconnected. Reconnect before checking this attempt."
          setCreating (some { creation with status := .interrupted submission message })
          changed
        else pure ()
      | _ => pure ()
    else pure ()

def creationReconnected : Client Unit := do
  let core ← read
  if core.view.creating.isNone then pure ()
  else do
    creationDefaults
    let core ← read
    match core.view.creating with
    | none => pure ()
    | some creation => reconcileCreation creation.reviewId .inspect
    changed

/-- What a review found under the form's id says of the attempt. -/
def ReviewCreation.found (creation : ReviewCreation) (review : Review) :
    Option ReviewCreation :=
  (ReviewCreation.submission creation.status).map fun submission =>
    { creation with
      status :=
        if submission.title = review.title ∧ submission.targets = review.targets then .succeeded
        else .interrupted submission
          "An existing review has different inputs. Inspect it before retrying." }

/-- A review was found under an id; whether the form took note of it. -/
def creationFound (review : Review) : Client Bool := do
  let core ← read
  match (core.creatingFor review.id).filter fun creation =>
      creation.workspaceId = review.workspaceId ∧ creation.context = core.view.daemonContext with
  | none => return false
  | some creation => match creation.found review with
    | none => return false
    | some next => do
      setCreating (some next)
      return true

def creationObserve (event : Event) : Client Bool :=
  match event.body with
  | .reviewCreated review => creationFound review
  | _ => pure false

section Showing

variable [Presentation]

/-- Go to the form; an open review is closed. -/
def showCreation : Client Unit := do
  write fun core => { core with pendingReference := none, latestOpen := none }
  let core ← read
  if core.view.review.isSome then closeReview else pure ()
  focusComposer
  render [.reviewList, .focus, .draft]

/-- The next id that this client mints. -/
def ClientCore.minted {kind : IdKind} (core : ClientCore) : Id kind :=
  .fromParts (BitVec.ofNat 64 core.now)
    (Presentation.random core.config.idSeed (core.ids + 1))

def mintId : Client Unit := write fun core => { core with ids := core.ids + 1 }

/-- Open the form for a workspace, unless an attempt or a draft of it is open. -/
def startCreation (workspaceId : WorkspaceId) : Risky Unit := do
  let core ← read
  if core.view.creating.any fun current => current.status ≠ .succeeded ∧
      (¬ current.editable ∨ current.workspaceId = workspaceId) then
    always showCreation
  else match core.view.workspaces.find? fun workspace => workspace.id = workspaceId with
    | none => fail (.noTarget (.nothing .newReview))
    | some workspace => always (openForm workspace)
where
  openForm (workspace : Workspace) : Client Unit := do
    let core ← read
    let targets := workspace.repos.head?.toList.map fun repo =>
      CreationTarget.mk 0 repo.id .automatic "worktree"
    mintId
    setCreating (some {
      reviewId := core.minted
      workspaceId := workspace.id
      context := core.view.daemonContext
      draft := ⟨"", targets⟩
      defaults := []
      selected := none
      revision := 0
      status := .editing })
    creationDefaults
    showCreation

/-- A form retained by the host, as it resumes. -/
def ReviewCreation.restored (creation : ReviewCreation) (resume : CreationResume) :
    ReviewCreation :=
  let creation :=
    if resume = .submitted ∧ creation.editable then
      { creation with
        status := match creation.snapshotSubmission with
          | .ok submission => .interrupted submission
              "Browser connection lost after submit. Checking whether the review was created."
          | .error message => .failed message }
    else creation
  match creation.editable, checkRepositories creation.repositories with
  | true, .error message => { creation with status := .failed message }
  | _, _ => creation

def restoreCreation (creation : ReviewCreation) (resume : CreationResume) : Client Unit := do
  let core ← read
  if creation.context ≠ core.view.daemonContext then do
    write fun core => { core with view.lastError := some (.invalid
      ("The retained review draft belongs to a different daemon context and was not " ++
        "restored.")) }
    render [.connection]
  else if core.view.creating.isSome then pure ()
  else do
    setCreating (some (creation.restored resume))
    focusComposer
    creationDisconnected
    creationReconnected

end Showing

end Nits.ClientCore
