import Nits.Nitsd.Subscription
import Nits.ReviewCore.Membership

/-!
# The file watcher

One task watches every attached repository. It follows attach and detach events, and
debounces filesystem notifications into passes over a repository. The task does one
thing at a time: events and notifications that arrive meanwhile wait in their
channels, and the event channel drops its oldest entries when it is full.
-/

namespace Nits.Nitsd.Watcher

open Logical Protocol ReviewCore

/-- Quiet period after the last notification before a repository is processed, in
milliseconds. -/
def DEBOUNCE : Nat := 150

/-- What the task needs from outside: where paths lead, which directories can be discovered
and watched, and in what order a hash table gives its entries. -/
structure Outside where
  files : FileSystem
  watchable : String → Bool
  order : {α : Type} → List α → List α
  permutes : ∀ {α : Type} (entries : List α), (order entries).Perm entries

/-- The checkout of one membership that opens, if it agrees with the ones before it. -/
def bindMember (files : FileSystem) (bound : Option String) (mem : Repo) :
    Option (Option String) :=
  match files.opened mem.path with
  | .error _ => none
  | .ok opened =>
    match bound with
    | none => some (some opened.checkout)
    | some checkout => if checkout = opened.checkout then some (some checkout) else none

/-- The canonical checkout of an id: every membership of the id opens, and at the same
checkout. -/
def repoCheckoutPath (files : FileSystem) (store : Store) (id : RepoId) : Option String :=
  (((Core.memberships store id).map Prod.snd).foldlM (bindMember files) none).join

/-- The ids of all current memberships. -/
def repoIds (store : Store) : List RepoId :=
  ((store.workspaces.flatMap Workspace.repos).map Repo.id).dedup

/-- The root to watch for a checkout, if it can be discovered and watched. -/
def Outside.discover (outside : Outside) (path : String) : Option String :=
  if outside.watchable path then (outside.files.resolveCheckout path).toOption else none

/-- A registration: the root it watches, and the last tree subscribers were told about. -/
structure Watched where
  root : String
  lastTree : Option TreeOid
  deriving DecidableEq

/-- What the task is doing. -/
inductive Phase
  /-- Waiting for a notification, an event or the next due pass. -/
  | waiting
  /-- Reconciling: about to list the ids of the memberships. -/
  | listing
  /-- Looking up the checkout of each id. -/
  | resolving (todo : List RepoId) (found : List (RepoId × String))
  /-- Registering what is not registered yet. -/
  | reconciling (todo : List (RepoId × String))
  /-- The first pass of a new registration, which is not yet installed. -/
  | seeding (id : RepoId) (watch : Watched) (todo : List (RepoId × String))
  /-- Processing the repositories that were due. -/
  | due (todo : List RepoId)
  | passing (id : RepoId) (todo : List RepoId)
  | stopped
  deriving DecidableEq

/-- The store, the writer's unsent events, the task and its channels. -/
structure State where
  store : Store
  /-- Committed and not yet sent to the channel. -/
  unsent : List Event
  /-- Sent and not yet received; `lagged` when older ones were dropped. -/
  channel : List Event
  lagged : Bool
  notifications : List RepoId
  now : Nat
  /-- When each notified repository is due. -/
  pending : List (RepoId × Nat)
  watched : RepoId → Option Watched
  phase : Phase

inductive Input
  /-- The writer commits an event. -/
  | commit (new : NewEvent)
  /-- The writer sends its next committed event to the channel. -/
  | publish
  /-- A watcher reports a relevant change. -/
  | notify (id : RepoId)
  | tick
  /-- The waiting task takes a notification. -/
  | takeNotification
  /-- The waiting task takes an event, or is told that it has lagged. -/
  | takeEvent
  /-- The waiting task turns to what is due. -/
  | wake
  /-- The busy task takes its next step. -/
  | proceed
  /-- A pass ends, with the tree it snapshot, if that worked. -/
  | finished (tree : Option TreeOid)
  | shutdown

inductive Effect
  /-- A pass over the repository starts. -/
  | pass (id : RepoId)
  /-- Subscribers are told of a changed tree. -/
  | delta (id : RepoId) (base head : TreeOid)

/-- An event after which registrations are reconciled. -/
def changesMemberships (event : Event) : Bool :=
  match event.body with
  | .repoAttached .. | .repoDetached .. => true
  | _ => false

/-- Keep only registrations that still watch their id's canonical checkout. -/
def retain (watched : RepoId → Option Watched) (repos : List (RepoId × String)) :
    RepoId → Option Watched :=
  fun id => (watched id).filter fun watch => repos.lookup id = some watch.root

/-- The snapshot of a pass replaces the last tree, and is told if it differs. -/
def Watched.snapshot (watch : Watched) (id : RepoId) (tree : Option TreeOid) :
    Watched × Option Effect :=
  match tree with
  | none => (watch, none)
  | some head =>
    ({ watch with lastTree := some head },
      match watch.lastTree with
      | some base => if base = head then none else some (.delta id base head)
      | none => none)

/-- The next step of the busy task. -/
def State.proceed (outside : Outside) (state : State) : State × Option Effect :=
  match state.phase with
  | .listing => ({ state with phase := .resolving (outside.order (repoIds state.store)) [] }, none)
  | .resolving [] found =>
    ({ state with
        watched := retain state.watched found, phase := .reconciling (outside.order found) }, none)
  | .resolving (id :: todo) found =>
    match repoCheckoutPath outside.files state.store id with
    | some path => ({ state with phase := .resolving todo (found ++ [(id, path)]) }, none)
    | none => ({ state with phase := .resolving todo found }, none)
  | .reconciling [] => ({ state with phase := .waiting }, none)
  | .reconciling ((id, path) :: todo) =>
    if (state.watched id).isSome then ({ state with phase := .reconciling todo }, none)
    else
      match outside.discover path with
      | some root => ({ state with phase := .seeding id ⟨root, none⟩ todo }, some (.pass id))
      | none => ({ state with phase := .reconciling todo }, none)
  | .due [] => ({ state with phase := .waiting }, none)
  | .due (id :: todo) =>
    let pending := state.pending.filter fun entry => entry.1 ≠ id
    match state.watched id with
    | none => ({ state with pending, phase := .due todo }, none)
    | some watch =>
      -- The registration is replaced when what it has to watch has moved.
      let root := (outside.discover watch.root).getD watch.root
      ({ state with
          pending
          watched := Function.update state.watched id (some { watch with root })
          phase := .passing id todo }, some (.pass id))
  | .waiting | .seeding .. | .passing .. | .stopped => (state, none)

/-- The end of a pass. -/
def State.finished (state : State) (tree : Option TreeOid) : State × Option Effect :=
  match state.phase with
  | .seeding id watch todo =>
    let (watch, told) := watch.snapshot id tree
    ({ state with
        watched := Function.update state.watched id (some watch)
        phase := .reconciling todo }, told)
  | .passing id todo =>
    match state.watched id with
    | none => ({ state with phase := .due todo }, none)
    | some watch =>
      let (watch, told) := watch.snapshot id tree
      ({ state with
          watched := Function.update state.watched id (some watch)
          phase := .due todo }, told)
  | _ => (state, none)

/-- One step of the writer, the file system, the clock or the task. -/
def State.step (outside : Outside) (state : State) : Input → State × Option Effect
  | .commit new =>
    match state.store.append new with
    | .ok (event, store) => ({ state with store, unsent := state.unsent ++ [event] }, none)
    | .error _ => (state, none)
  | .publish =>
    match state.unsent with
    | [] => (state, none)
    | event :: unsent =>
      if state.channel.length < EVENT_BACKLOG then
        ({ state with unsent, channel := state.channel ++ [event] }, none)
      else
        ({ state with unsent, channel := state.channel.tail ++ [event], lagged := true }, none)
  | .notify id => ({ state with notifications := state.notifications ++ [id] }, none)
  | .tick => ({ state with now := state.now + 1 }, none)
  | .takeNotification =>
    match state.phase, state.notifications with
    | .waiting, id :: rest =>
      ({ state with
          notifications := rest
          pending := (state.pending.filter fun entry => entry.1 ≠ id) ++
            [(id, state.now + DEBOUNCE)] }, none)
    | _, _ => (state, none)
  | .takeEvent =>
    match state.phase with
    | .waiting =>
      if state.lagged then ({ state with lagged := false }, none)
      else
        match state.channel with
        | [] => (state, none)
        | event :: channel =>
          if changesMemberships event then ({ state with channel, phase := .listing }, none)
          else ({ state with channel }, none)
    | _ => (state, none)
  | .wake =>
    match state.phase with
    | .waiting =>
      let due := (state.pending.filter fun entry => entry.2 ≤ state.now).map Prod.fst
      if due = [] then (state, none) else ({ state with phase := .due (outside.order due) }, none)
    | _ => (state, none)
  | .proceed => state.proceed outside
  | .finished tree => state.finished tree
  | .shutdown =>
    match state.phase with
    | .waiting => ({ state with phase := .stopped }, none)
    | _ => (state, none)

/-- The task has subscribed, and is about to register what is attached already. -/
def State.started (store : Store) : State where
  store := store
  unsent := []
  channel := []
  lagged := false
  notifications := []
  now := 0
  pending := []
  watched _ := none
  phase := .listing

/-- The state a run reaches. -/
def State.run (outside : Outside) (state : State) (inputs : List Input) : State :=
  inputs.foldl (fun state input => (state.step outside input).1) state

/-- The task has nothing to do: it waits, with nothing in its channels and nothing
pending. Every committed event has been sent. -/
structure State.Idle (state : State) : Prop where
  waits : state.phase = .waiting
  sent : state.unsent = []
  received : state.channel = [] ∧ state.lagged = false
  notified : state.notifications = []
  done : state.pending = []

/-- The checkout a registration of the id has to watch: the canonical checkout of its
memberships, if it can be watched. -/
def wanted (outside : Outside) (store : Store) (id : RepoId) : Option String :=
  (repoCheckoutPath outside.files store id).filter outside.watchable

/-- The registrations are exactly those wanted. -/
def State.Registered (outside : Outside) (state : State) : Prop :=
  ∀ id, (state.watched id).map Watched.root = wanted outside state.store id

/-- An attach or detach event is still to be received. -/
def State.Informed (state : State) : Prop :=
  ∃ event ∈ state.channel ++ state.unsent, changesMemberships event = true

/-- The step does not lose the last word on memberships: when the channel drops an
attach or detach event, another is still to be received, or the task has yet to list
the memberships. -/
def Followed (state : State) (input : Input) : Prop :=
  match input with
  | .publish =>
    state.unsent ≠ [] → EVENT_BACKLOG ≤ state.channel.length →
      (∃ event ∈ state.channel.head?, changesMemberships event = true) →
        state.phase = .listing ∨
          ∃ event ∈ state.channel.tail ++ state.unsent, changesMemberships event = true
  | _ => True

end Nits.Nitsd.Watcher
