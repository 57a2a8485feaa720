import Nits.ClientCore.Server

/-!
# Handling inputs

`handle` takes one input: it is routed, and when it is not rejected what depends on the
rest of the state is derived again and the touched sections are rendered at once. A
run is a sequence of inputs.
-/

set_option linter.dupNamespace false

namespace Nits.ClientCore

open Logical Logical.Handler Protocol

section Handle

variable [Presentation]

/-! ## Keys -/

def setChords (chords : List KeyChord) : Client Unit :=
  write fun core => { core with keys := { core.keys with chords } }

/-- Resolve a key press; what it turned out to mean is returned. An unbound or
unresolvable sequence clears the chords, so that the next key starts fresh. -/
def key (chord : KeyChord) : Risky (Option Command) := do
  let core ← read
  let pressed := core.keys.chords ++ [chord]
  match Presentation.lookup core pressed with
  | .prefix_ => do
    write fun core => { core with
      keys := { core.keys with
        chords := pressed
        chordStarted := if core.keys.chords = [] then core.now else core.keys.chordStarted } }
    return none
  | .command command => do
    setChords []
    runCommand command
    return some command
  | .none => do
    setChords []
    if Presentation.inComposer core.panels.focus ∨ core.keys.chords ≠ [] then return none
    else fail (.unboundKey pressed)

def countKey : Client Unit :=
  write fun core => { core with
    keys := { core.keys with keysHandled := core.keys.keysHandled + 1 } }

def setLastKey (command : Option Command) : Client Unit :=
  write fun core => { core with
    keys := { core.keys with lastKey := some ⟨core.keys.keysHandled, command⟩ } }

/-- Every key is counted, also one that turns out to be unbound. -/
def keyPressed (chord : KeyChord) : Risky Unit := do
  countKey
  match ← attempt (key chord) with
  | .ok command => setLastKey command
  | .error error => do
    setLastKey none
    fail error

/-- The core with one more key counted. -/
def ClientCore.counted (core : ClientCore) : ClientCore :=
  { core with keys := { core.keys with keysHandled := core.keys.keysHandled + 1 } }

/-- What a key comes to, once it is counted. -/
theorem keyPressed_eq (chord : KeyChord) (core : ClientCore) :
    keyPressed chord core = (attempt (key chord) >>= fun outcome => match outcome with
      | .ok command => always (setLastKey command)
      | .error error => do
        setLastKey none
        fail error : Risky Unit) core.counted :=
  rfl

/-! ## Routing -/

/-- The form on screen that an attempt has not finished. -/
def View.activeCreation (view : View) : Option ReviewCreation :=
  view.creating.filter fun creation => view.openReview.isNone ∧ creation.status ≠ .succeeded

/-- An adapter rejected an action: the open draft or form shows it. -/
def invalidAction (reason : String) : Client Unit := do
  let core ← read
  match core.view.draft, core.view.activeCreation with
  | some draft, _ => do
    write fun core => { core with
      view.draft := some { draft with submissionError := some reason } }
    render [.draft]
  | none, some creation => creationFailure creation.reviewId reason
  | none, none => pure ()

/-- The host's clock advances. -/
def tick (now : Millis) : Client Unit := do
  write fun core => { core with now := max core.now now }
  restartTick

/-- The answer to a load goes to whatever the key belongs to. -/
def loadAnswered (key : Key) (value : Option Bytes) : Risky Unit :=
  if key = ViewPrefs.KEY then always (prefsStored value)
  else if key = Presentation.keysKey then always (keymapStored value)
  else stored key value

/-- Give an input to its handler. -/
def route : Input → Risky Unit
  | .user action => user action
  | .invalidAction reason => always (invalidAction reason)
  | .server msg => server msg
  | .transport event => always (transport event)
  | .daemonManaged id reply => always (managedDaemon id reply)
  | .stored key value => loadAnswered key value
  | .tick now => always (tick now)
  | .key chord => keyPressed chord

/-! ## What is derived -/

namespace ClientCore

/-- The rows of the home screen: each workspace, its repositories when it is expanded,
and its reviews. -/
def homeRows (core : ClientCore) : List HomeRow :=
  core.view.workspaces.flatMap fun workspace =>
    ⟨workspace.id, none, none⟩ ::
      ((if core.panels.expandedWorkspaces.contains workspace.id then
          workspace.repos.map fun repo => ⟨workspace.id, none, some repo.id⟩
        else []) ++
        (core.view.reviews.filter fun review => review.workspaceId = workspace.id).map
          fun review => ⟨workspace.id, some review.id, none⟩)

def focusedRow (core : ClientCore) : Option HomeRow :=
  match core.panels.focus with
  | .reviewList index => core.panels.derived.homeRows[index]?
  | _ => none

/-- The uncertain mutations are listed. -/
def listUncertain (core : ClientCore) : ClientCore :=
  { core with
    view.uncertainMutations := (core.pending.filter fun pending =>
      pending.delivery = .outcomeUnknown).map Pending.clientSeq }

/-- The focus follows its home row when the rows change. -/
def followRow (core : ClientCore) : ClientCore :=
  let rows := core.homeRows
  if rows = core.panels.derived.homeRows then core
  else { core with panels := { core.panels with
    derived := { core.panels.derived with homeRows := rows }
    focus := match core.focusedRow with
      | none => core.panels.focus
      | some row => .reviewList (((rows.findIdx? fun other => other = row) <|>
          rows.findIdx? fun other => other.workspaceId = row.workspaceId).getD 0) } }

/-- The workspace that the home screen is at. -/
def selectWorkspace (core : ClientCore) : ClientCore :=
  let wanted := (core.view.review.map fun review => review.snapshot.review.workspaceId) <|>
    core.focusedRow.map HomeRow.workspaceId <|> core.panels.selectedWorkspace
  let known := wanted.filter fun id => core.view.workspaces.any fun workspace => workspace.id = id
  { core with panels := { core.panels with
    selectedWorkspace := known <|> core.view.workspaces.head?.map Workspace.id } }

def Focus.shifted (shift : Nat → Nat) : Focus → Focus
  | .diff row side => .diff (shift row) side
  | focus => focus

/-- The line that a re-render must keep the cursor on has come: the viewport and the
focus move with it. -/
def realigned (core : ClientCore) : ClientCore :=
  match core.panels.realign, core.view.review, core.openFile with
  | some want, some review, some file =>
    if file.render ≠ want.render then core
    else
      let rows := Presentation.lineRows core.content.cache review.snapshot file.render want.side
      match rows.find? fun row => row.2 = want.line with
      | none => core
      | some (row, _) =>
        let shift := fun at_ : Nat => (at_ + (row : Int) - want.row).toNat
        { core with
          view.review := some { review with
            openFile := some { file with
              firstRow := shift file.firstRow
              lastRow := shift file.lastRow } }
          panels := { core.panels with
            realign := none
            focus := Focus.shifted shift core.panels.focus } }
  | _, _, _ => core

/-- The targets that a check would be of: those held back by a draft, or the shown. -/
def checkedTargets (core : ClientCore) (review : OpenReview) :
    Option (NonEmpty ResolvedTarget) :=
  let held := core.deferred.reverse.findSome? fun event => match event.body with
    | .reviewTargetsResolved reviewId targets =>
      if reviewId = review.snapshot.review.id then some targets else none
    | _ => none
  held <|> review.snapshot.resolved

def putDerived (core : ClientCore) (derived : Derived) : ClientCore :=
  { core with panels := { core.panels with derived } }

/-- The panels that are read off the rest. -/
def presented (core : ClientCore) : ClientCore :=
  let core := core.putDerived { Presentation.derived core with
    homeRows := core.panels.derived.homeRows }
  core.putDerived { core.panels.derived with
    checkCurrentReady := core.checkCurrentReady
    checkpoints := match core.view.review with
      | none => []
      | some review => latestCheckpoints review.snapshot.checkpoints (core.checkedTargets review)
    scope := match core.view.review with
      | none => .all
      | some review => review.scope }

/-- The focus stays on something that exists, and a submodule has no lines to select. -/
def clamped (core : ClientCore) : ClientCore :=
  { core with panels := { core.panels with
    focus := Presentation.clamp core core.panels.focus
    visualAnchor :=
      if core.panels.derived.diff.any fun diff => diff.1 then none
      else core.panels.visualAnchor } }

/-- Everything that depends on the rest, derived again. -/
def derive (core : ClientCore) : ClientCore :=
  core.listUncertain.followRow.selectWorkspace.realigned.presented.clamped

end ClientCore

/-! ## One input -/

/-- The sections that an order renders. -/
def Effect.sections : Effect → List ViewSection
  | .render sections => sections
  | _ => []

def Effect.isRender : Effect → Bool
  | .render _ => true
  | _ => false

/-- One render for each input, after everything else. -/
def rendered (orders : List Effect) (changed : List ViewSection) : List Effect :=
  let sections := orders.flatMap Effect.sections ++ changed
  orders.filter (fun order => ¬ order.isRender) ++
    if sections = [] then [] else [.render sections]

/-- Take one input. A rejected input has nothing to be done for it. -/
def handle (input : Input) : Risky Unit := fun core =>
  match route input core with
  | ⟨.error error, _, left⟩ => ⟨.error error, [], left⟩
  | ⟨.ok (), orders, left⟩ =>
    ⟨.ok (), rendered orders (Presentation.changed left left.derive), left.derive⟩

/-! ## Runs -/

/-- The state after some inputs. -/
def ClientCore.run (core : ClientCore) (inputs : List Input) : ClientCore :=
  inputs.foldl (fun core input => (handle input core).state) core

end Handle

/-! ## The plainest host -/

/-- A presentation that binds no keys, shows no rows and stores nothing readable. -/
@[reducible] def Presentation.plain : Presentation where
  encode _ := []
  decode _ := none
  storageKey _ := "content"
  encodePrefs _ := []
  decodePrefs _ := none
  keysKey := "nits/keymap"
  keysAccepted _ := false
  random seed count := seed + BitVec.ofNat 128 count
  parseRef _ := .error "not a ref"
  parseReference _ := .error "not a reference"
  locate _ := none
  referred _ _ := .ok none
  lookup _ _ := .none
  inComposer focus := focus = .composer
  resolve _ command := .error (.nothing command)
  clamp _ focus := focus
  targetRepoOf _ _ := none
  threads _ := []
  lineRows _ _ _ _ := []
  focusedLine _ _ _ := none
  refOptions selector := (selector.options, selector.selected)
  collapseTarget _ _ := none
  derived _ := {}
  changed _ _ := []

namespace ClientCore

/-- A fresh core of one human's client, without a disk tier and with two slots. -/
def fresh : ClientCore :=
  .new {
    clientId := ⟨1⟩
    author := .human "ann" "desk"
    idSeed := 0
    cache := { memoryBudget := 1000, disk := .disabled, maxInFlight := 2, renderOpts := {} } }

/-- What brings a fresh core to where its greeting is out. -/
def greeting : List Input := [.user .connect, .transport .connected]

/-- What brings a fresh core to a subscription from an event on. -/
def subscription (seq : Seq) : List Input :=
  greeting ++ [.server .welcome, .server (.response 1 (.subscribed seq))]

/-- What then opens a review of which nothing was said yet. -/
def visit (snapshot : ReviewSnapshot) : List Input :=
  subscription snapshot.seq ++
    [.user (.openReview snapshot.review.id), .server (.streamItem 3 (.reviewSnapshot snapshot))]

end ClientCore

/-- A review of one repository, of which nothing was said yet. -/
def plainReview (seq : Seq) : ReviewSnapshot where
  review := {
    id := ⟨7⟩, workspaceId := ⟨2⟩, title := "review", created := 0, status := .opened
    targets := .singleton ⟨⟨3⟩, .upstream, .head⟩ }
  resolved := none
  threads := []
  comments := []
  suggestions := []
  viewed := []
  requests := []
  checkpoints := []
  seq

end Nits.ClientCore
