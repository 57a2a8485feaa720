import Nits.ClientCore.Creation

/-!
# Folding committed events into the core

One committed event changes the lists first, then the open review's committed snapshot,
then what is shown of it with the pending mutations on top. A moved target that arrives
while a draft is open is held back until the draft closes.
-/

set_option linter.dupNamespace false

namespace Nits.ClientCore

open Logical Logical.Handler Protocol

/-! ## Lists -/

/-- A review with one of its targets replaced. -/
def retargeted (target : ReviewTarget) (review : Review) : Review :=
  { review with
    targets := review.targets.mapItems
      (modifyFirst (fun existing => existing.repoId = target.repoId) fun _ => target)
      target.length_replace }

/-- The workspaces and reviews after an event. -/
def View.listed (view : View) : EventBody → View
  | .reviewCreated review =>
    { view with reviews := (view.reviews.filter fun known => known.id ≠ review.id) ++ [review] }
  | .reviewUpdated reviewId title status =>
    { view with
      reviews := modifyFirst (fun known => known.id = reviewId)
        (fun known => { known with title, status }) view.reviews }
  | .reviewTargetUpdated reviewId target =>
    { view with
      reviews := modifyFirst (fun known => known.id = reviewId) (retargeted target) view.reviews }
  | .reviewDeleted reviewId =>
    { view with reviews := view.reviews.filter fun known => known.id ≠ reviewId }
  | .workspaceCreated workspace =>
    { view with
      workspaces := (view.workspaces.filter fun known => known.id ≠ workspace.id) ++ [workspace] }
  | .workspaceUpdated workspaceId name =>
    { view with
      workspaces := modifyFirst (fun known => known.id = workspaceId)
        (fun known => { known with name }) view.workspaces }
  | .repoAttached workspaceId repo =>
    { view with
      workspaces := modifyFirst (fun known => known.id = workspaceId)
        (fun known => { known with
          repos := (known.repos.filter fun attached => attached.id ≠ repo.id) ++ [repo] })
        view.workspaces }
  | .repoDetached workspaceId repoId =>
    { view with
      workspaces := modifyFirst (fun known => known.id = workspaceId)
        (fun known => { known with
          repos := known.repos.filter fun attached => attached.id ≠ repoId })
        view.workspaces }
  | _ => view

/-- Whether an event changes the lists. -/
def View.lists (view : View) : EventBody → Bool
  | .reviewCreated _ | .workspaceCreated _ => true
  | .reviewUpdated reviewId .. | .reviewDeleted reviewId =>
    view.reviews.any fun known => known.id = reviewId
  | .reviewTargetUpdated reviewId target =>
    match view.reviews.find? fun known => known.id = reviewId with
    | none => false
    | some known => known.targets.items.any fun existing => existing.repoId = target.repoId
  | .workspaceUpdated workspaceId _ | .repoAttached workspaceId _ | .repoDetached workspaceId _ =>
    view.workspaces.any fun known => known.id = workspaceId
  | _ => false

def listEvent (body : EventBody) : Client Unit :=
  write fun core => { core with view := core.view.listed body }

/-! ## Buffers -/

/-- The events that an ordinary open keeps while its snapshot is in flight. -/
def buffers : EventBody → Bool
  | .reviewRequested .. | .reviewChecked .. | .suggestionApplied .. | .reviewTargetsResolved .. =>
    true
  | _ => false

/-- The buffers with one more event, each once. -/
def buffered (event : Event) (entry : RequestId × ReviewId × List Event) :
    RequestId × ReviewId × List Event :=
  if buffers event.body ∧ event.body.reviewId = some entry.2.1 ∧
      ¬ entry.2.2.any fun kept => kept.seq = event.seq then
    (entry.1, entry.2.1, entry.2.2 ++ [event])
  else entry

/-- A reference under way with one more event of its review. -/
def PendingReference.noting (event : Event) (pending : PendingReference) : PendingReference :=
  if event.body.reviewId = some pending.reference.reviewId then
    { pending with events := pending.events ++ [event] }
  else pending

def bufferEvent (event : Event) : Client Unit :=
  write fun core => { core with
    snapshotEvents := core.snapshotEvents.map (buffered event)
    pendingReference := core.pendingReference.map (PendingReference.noting event) }

/-! ## The open review -/

namespace ClientCore

/-- Whether the review is the open one. -/
def isOpen (core : ClientCore) (reviewId : ReviewId) : Bool :=
  core.view.review.any fun review => review.snapshot.review.id = reviewId

/-- Whether an event moves the targets of the open review while a draft is open. -/
def defers (core : ClientCore) : EventBody → Bool
  | .reviewTargetsResolved reviewId _ => core.isOpen reviewId ∧ core.view.draft.isSome
  | _ => false

/-- Whether an event is about the committed review. -/
def concernsOpen (core : ClientCore) (body : EventBody) : Bool :=
  core.committed.any fun committed => body.reviewId = some committed.review.id

/-- The repository whose commits are listed, or are being listed. -/
def listedRepo (core : ClientCore) : Option RepoId :=
  let asked := core.latestCommits.bind fun id => match core.inFlight.lookup id with
    | some (.listCommits repoId) => some repoId
    | _ => none
  let shown := core.panels.stepper.map CommitStepper.repoId
  let first := core.view.review.map fun review => review.snapshot.review.targets.first.repoId
  asked <|> shown <|> first

end ClientCore

/-- Hold a moved target back until the draft closes. -/
def deferEvent (event : Event) : Client Unit := do
  let core ← read
  write fun core => { core with
    deferred := core.deferred ++ [event]
    view.pendingRefresh := true }
  if core.view.pendingRefresh then pure () else render [.draft]

/-- The targets moved: the files on screen belong to the old ones. -/
def dropMovedFiles : Client Unit :=
  write fun core => { core with
    view.review := core.view.review.map fun review => { review with
      files := [], openFile := none, original := none, scopedTargets := [] } }

/-- The committed snapshot with one more event. -/
def commitEvent (event : Event) : Client (List ViewSection) := fun core =>
  match core.committed with
  | none => ⟨.ok [], [], core⟩
  | some committed =>
    let touched := applyEvent committed event
    ⟨.ok touched.2, [], { core with committed := some touched.1 }⟩

/-- The selector of a target closes when the target changes. -/
def closeTargetSelector (reviewId : ReviewId) (repoId : RepoId) : Client Unit := do
  let core ← read
  let close := core.panels.refSelector.any fun selector =>
    selector.repoId = repoId ∧ selector.purpose ≠ .browse ∧
      core.committed.any fun committed => committed.review.id = reviewId
  if close then do
    panels fun panels => { panels with refSelector := none }
    render [.refSelector]
  else pure ()

section Folding

variable [Presentation]

/-- New heads mean new trees and renders: refetch the trees, the file list and the
commits, superseding answers of an earlier resolution. -/
def refetchMoved (reviewId : ReviewId) : Client Unit := do
  wantReviewTrees
  let core ← read
  let scope := match core.view.review with
    | some review => review.scope
    | none => .all
  request (.listFiles reviewId scope) (.listFiles reviewId scope)
  let core ← read
  match core.listedRepo with
  | none => pure ()
  | some repoId => request (.listCommits reviewId repoId) (.listCommits repoId)

/-- Fold an event of the open review into the committed snapshot and show it. -/
def foldOpen (event : Event) : Client Unit := do
  match event.body with
  | .reviewTargetsResolved reviewId _ => do
    supersedeOpeningContent reviewId
    dropMovedFiles
    render [.diff]
  | _ => pure ()
  let touched ← commitEvent event
  let shown ← rebase
  render (touched ++ shown)
  match event.body with
  | .reviewTargetsResolved reviewId _ => do
    render [.reviewList]
    refetchMoved reviewId
  | _ => pure ()

/-- Fold a committed event that was not held back. -/
def foldEvent (event : Event) : Client Unit := do
  let core ← read
  listEvent event.body
  if core.view.lists event.body then render [.reviewList] else pure ()
  match event.body with
  | .reviewTargetUpdated reviewId target => closeTargetSelector reviewId target.repoId
  | .reviewDeleted reviewId =>
    if core.isOpen reviewId then do
      closeReview
      render [.reviewList, .diff, .threads, .draft]
    else pure ()
  | _ => pure ()
  let core ← read
  if core.concernsOpen event.body then foldOpen event else pure ()

/-- Fold a committed event into the core. -/
def ClientCore.applyEvent (event : Event) : Client Unit := do
  bufferEvent event
  let observed ← creationObserve event
  if observed then changed else pure ()
  let core ← read
  -- Our own mutation came back: it is committed now.
  if event.clientId = core.config.clientId then retirePending event.clientSeq else pure ()
  let core ← read
  if core.defers event.body then deferEvent event else foldEvent event

/-- Apply the refreshes that were held back during a draft. -/
def drainDeferred : Client Unit := do
  let core ← read
  write fun core => { core with deferred := [], view.pendingRefresh := false }
  render [.draft, .focus]
  each ClientCore.applyEvent core.deferred

end Folding

end Nits.ClientCore
