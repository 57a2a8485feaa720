import Nits.ClientCore.Diff
import Nits.ClientCore.Handle

/-!
# The thread list and the focus

The threads of a review by the creation of their roots, and the focus among them: where an
index is clamped to, and where opening a thread leads.
-/

set_option linter.dupNamespace false

namespace Nits.ClientCore

open Logical Logical.Handler Protocol

/-! ## Thread list -/

/-- Where a thread is anchored. -/
inductive ThreadPlace
  | review
  | file (file : FileRef)
  | lines (file : FileRef) (side : Side) (start finish : Nat)
  deriving DecidableEq

/-- A thread of the comment list; the comments are the root and then the replies. -/
structure ThreadView where
  id : ThreadId
  root : CommentId
  created : Timestamp
  place : ThreadPlace
  outdated : Bool
  comments : List CommentId
  context : Option CommentContext
  deriving DecidableEq

def placeOf : Anchor → ThreadPlace
  | .review => .review
  | .file repoId path _ => .file ⟨repoId, path⟩
  | .lines repoId path side _ lines _ =>
    .lines ⟨repoId, path⟩ side lines.start.get lines.finish.get

def threadView (snapshot : ReviewSnapshot) (thread : Thread) : Option ThreadView := do
  let root ← snapshot.comments.find? fun comment => comment.id = thread.root
  let (anchor, outdated) ← placedAnchor root
  let listed := (thread.root :: thread.replies).filterMap fun id =>
    snapshot.comments.find? fun comment => comment.id = id
  some {
    id := thread.id
    root := root.id
    created := root.created
    place := placeOf anchor
    outdated
    comments := (listed.filter fun comment => comment.state ≠ .deleted).map Comment.id
    context := root.context }

/-- The comment list in thread order: threads by creation of their root. -/
def threadsOf (snapshot : ReviewSnapshot) : List ThreadView :=
  (snapshot.threads.filterMap (threadView snapshot)).insertionSort fun left right =>
    left.created ≤ right.created

/-- The thread was made on a ref of the Browse tab. -/
def ThreadView.browsed (thread : ThreadView) : Bool :=
  match thread.context with
  | some (.browse _) => true
  | some (.diff _) | none => false

def Side.other : Side → Side
  | .base => .head
  | .head => .base

/-- How many rows a diff has, shown or not. -/
def DiffView.extent (diff : DiffView) : Nat :=
  match diff.content with
  | .text totalRows .. => totalRows
  | .binary | .submodule => 0

/-- How many rows of the commit stepper can be selected: the aggregate, the commits and then
the working tree. -/
def CommitStepper.rowCount (stepper : CommitStepper) : Nat :=
  1 + stepper.commits.length + stepper.hasWorktree.toNat

namespace ClientCore

/-- The threads on screen. -/
def threads (core : ClientCore) : List ThreadView :=
  match core.view.review with
  | none => []
  | some review => threadsOf review.snapshot

/-- The diff on screen, once its header has landed. -/
def shownDiff (core : ClientCore) : Option DiffView := do
  let review ← core.view.review
  let shown ← review.openFile
  diffView core.content.cache review.snapshot core.config.author shown.render shown.firstRow
    shown.lastRow core.view.draft

/-! ## Clamping -/

/-- Whether the open file is a plain blob rather than a diff. -/
def blobRender (core : ClientCore) : Bool :=
  core.openFile.any fun shown => match shown.render.target with
    | .blob _ => true
    | .diff _ => false

/-- The side a diff focus settles on: the one asked for when the row has a cell there, else
the only one it does have. A row that is not on hand keeps the side asked for. -/
def settledSide (core : ClientCore) (diff : DiffView) (row : Nat) (side : Side) : Side :=
  if core.blobRender then .head
  else match diff.rows.find? fun shown => shown.index = row with
    | none => side
    | some shown =>
      if (lineOn shown.row side).isSome then side
      else if (lineOn shown.row (Side.other side)).isSome then Side.other side
      else side

/-- Where the focus goes when what it was on is gone. -/
def fallback (core : ClientCore) : Focus :=
  if core.view.review.isSome then .tree 0
  else .reviewList ((core.panels.derived.homeRows.findIdx? fun row =>
    some row.workspaceId = core.panels.selectedWorkspace).getD 0)

def clampDiff (core : ClientCore) (row : Nat) (side : Side) : Focus :=
  match core.shownDiff with
  | some diff =>
    let row := if diff.extent = 0 then 0 else min row (diff.extent - 1)
    .diff row (core.settledSide diff row side)
  -- The header has not landed: the diff pane is still the place to be.
  | none => if core.openFile.isSome then .diff row side else core.fallback

/-- An index among so many; none of them is nowhere. -/
def clampIndex (core : ClientCore) (count : Nat) (at_ : Nat → Focus) (index : Nat) : Focus :=
  if count = 0 then core.fallback else at_ (min index (count - 1))

/-- Where a focus is kept. The rows of the tree are the explorer's. -/
def clamp [Presentation] (core : ClientCore) : Focus → Focus
  | .composer =>
    if core.view.draft.isSome ∨ core.view.activeCreation.isSome then .composer else core.fallback
  | .help => .help
  | .diff row side => core.clampDiff row side
  | .reviewList index =>
    if core.panels.derived.homeRows = [] then .reviewList 0
    else core.clampIndex core.panels.derived.homeRows.length .reviewList index
  | .thread index => core.clampIndex core.threads.length .thread index
  | .reviewRequest index =>
    let requests := match core.view.review with
      | none => []
      | some review => review.snapshot.requests
    core.clampIndex requests.length .reviewRequest index
  | .commitStepper index =>
    let rows := match core.panels.stepper with
      | none => 0
      | some stepper => stepper.rowCount
    core.clampIndex rows .commitStepper index
  | .tree index => Presentation.clamp core (.tree index)

/-! ## Opening a thread -/

/-- The way to a row of a file: the file already on screen only moves, another is opened
around the row. -/
def jumpTo (core : ClientCore) (file : FileRef) (row : Nat) (side : Side) : Resolved :=
  if core.shownDiff.any fun diff => diff.file = file then
    ⟨.setFocus (core.clampDiff row side), fun _ => by simp⟩
  else ⟨.openFileAt file row side .follow, fun _ => by simp⟩

/-- What opening a thread of the list means. The location of an outdated thread is gone, so
the diff it was made on is opened instead. -/
def openThread (core : ClientCore) (index : Nat) : Except NoTarget Resolved :=
  match core.threads[index]? with
  | none => .error (.nothing .openTarget)
  | some thread =>
    if (thread.outdated ∧ thread.context.isSome) ∨ thread.browsed then
      .ok ⟨.openOriginalDiff thread.id, fun _ => by simp⟩
    else match thread.place with
      | .lines file side _ finish => .ok (core.jumpTo file (finish - 1) side)
      | .file file => .ok (core.jumpTo file 0 .head)
      | .review => .error (.nothing .openTarget)

end ClientCore

/-! ## The interface's own answers -/

/-- The cached rows of a render that have a line on a side. -/
def lineRowsOf (cache : ContentCache) (snapshot : ReviewSnapshot) (render : RenderKey)
    (side : Side) : List (Nat × Nat) :=
  (allRows cache snapshot render).filterMap fun shown =>
    (lineOn shown.row side).map fun line => (shown.index, line)

/-- A presentation that reads threads, rows and focus as the core's views have them; the
rest is as before. -/
@[reducible] def Presentation.reading (rest : Presentation) : Presentation :=
  { rest with
    threads := fun snapshot => (threadsOf snapshot).map fun thread => (thread.id, thread.comments)
    lineRows := lineRowsOf
    clamp := fun core focus => core.clamp focus
    resolve := fun core command => match core.panels.focus, command with
      | .thread index, .openTarget => core.openThread index
      | _, _ => rest.resolve core command }

/-- The presentation reads threads, rows and focus as the core's views have them. -/
class Reading [Presentation] : Prop where
  lineRows_eq (cache : ContentCache) (snapshot : ReviewSnapshot) (render : RenderKey)
    (side : Side) : Presentation.lineRows cache snapshot render side =
      lineRowsOf cache snapshot render side
  clamp_diff (core : ClientCore) (row : Nat) (side : Side) :
    Presentation.clamp core (.diff row side) = core.clampDiff row side
  clamp_thread (core : ClientCore) (index : Nat) :
    Presentation.clamp core (.thread index) = core.clampIndex core.threads.length .thread index
  resolve_thread (core : ClientCore) (index : Nat) : core.panels.focus = .thread index →
    Presentation.resolve core .openTarget = core.openThread index

theorem reading (rest : Presentation) : @Reading rest.reading :=
  @Reading.mk rest.reading (fun _ _ _ _ => rfl) (fun _ _ _ => rfl) (fun _ _ => rfl)
    fun core index focused => by
      have resolves : @Presentation.resolve rest.reading core .openTarget =
          match core.panels.focus, Command.openTarget with
          | .thread index, .openTarget => core.openThread index
          | _, _ => rest.resolve core .openTarget := rfl
      rw [resolves, focused]

end Nits.ClientCore
