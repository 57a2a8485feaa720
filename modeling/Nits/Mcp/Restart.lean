import Nits.Mcp.Order
import Nits.Logical.Run

/-!
# What a restart leaves

A flight decides at its start whether the running worker can stay, and says so when it ends.
Between the two the worker may be lost.
-/

namespace Nits.Mcp

open Logical
open Protocol hiding UpgradeOperation
open Protocol.Lifecycle

variable {Params : Type}

namespace Host

section Quiet

variable {Arguments : Type} (decoding : Decoding Params Arguments) (host : Host Params)

theorem quietly_cancel (request : RequestId) (refusal : Option String) :
    Quietly host (host.cancel request refusal) := by
  unfold cancel
  split
  · exact Quietly.refl host
  · dsimp only
    split
    · exact Quietly.refl host
    · rename_i ticket _ _ _ _
      have marked : ∀ other : Host Params, other.history = host.history ++ [.canceled ticket] →
          Quietly host other := fun other same => ⟨_, same, by simp [ReadyReply]⟩
      split
      · split <;> exact marked _ rfl
      · split <;> exact marked _ rfl

theorem quietly_dispatchRoute (next : Ticket) (id : RequestId) (route : Route)
    (message : Incoming Params) (refusal : Option String) :
    Quietly host ((host.accept next id route).dispatchRoute host.nextTicket route message
      refusal) := by
  have accepted : Quietly host (host.accept next id route) := ⟨[_], rfl, by simp [ReadyReply]⟩
  have refused : ∀ message, Quietly host
      ((host.accept next id route).toolError host.nextTicket message) :=
    fun message => accepted.trans
      (Quietly.complete _ _ (by simpa using Reply.quiet_invalid message))
  cases route with
  | ping => exact accepted
  | worker behavior =>
    unfold dispatchRoute
    dsimp only
    split
    · exact refused _
    · split
      · exact refused _
      · exact accepted.trans (Quietly.trans (Quietly.of_same rfl)
          (Quietly.record _ fun ready => ready))
  | management call =>
    exact accepted.trans (Quietly.trans (Quietly.of_same rfl) (Quietly.startQueued _))

theorem quietly_incoming (message : Incoming Params) (refusal : Option String) :
    Quietly host (host.incoming decoding message refusal) := by
  have wrote : ∀ line, Quietly host (host.record (.wrote line)) :=
    fun line => Quietly.record host fun ready => ready
  unfold incoming
  split
  · exact wrote _
  · split
    · split
      · split
        · exact Quietly.refl host
        · exact host.quietly_cancel _ refusal
      · exact Quietly.refl host
    · split
      · exact wrote _
      · split
        · exact wrote _
        · split
          · exact wrote _
          · exact wrote _
          · split
            · exact wrote _
            · split
              · exact Quietly.of_same rfl
              · exact host.quietly_dispatchRoute _ _ _ message refusal

theorem quietly_workerSays {child : Child Params} (quiet : child.Quiet) :
    Quietly host (host.workerSays child) := by
  unfold workerSays
  split
  · exact Quietly.refl host
  · rename_i message rest said
    have mem : message ∈ child.output := by
      rw [said]
      exact List.mem_cons_self
    unfold workerMessage
    dsimp only
    split
    · rename_i ticket reply event
      refine Quietly.trans ?_ (Quietly.startQueued _)
      refine Quietly.trans (Quietly.of_same rfl) (Quietly.complete _ ticket fun line given => ?_)
      exact quiet message mem ticket line (by rw [event, given])
    · refine Quietly.trans ?_ (Quietly.startQueued _)
      exact Quietly.trans (Quietly.of_same rfl) (Quietly.complete _ _ (by simp))

theorem quietly_workerLost (reason : String) : Quietly host (host.workerLost reason) := by
  refine Quietly.trans ?_ (Quietly.startQueued _)
  exact Quietly.trans (Quietly.of_same rfl)
    ((Quietly.kept _).interruptWorkerRequests (Quietly.refl _))

theorem quietly_replaced (replacement : Replacement Params) :
    Quietly host (host.replaced replacement) := by
  cases replacement with
  | keep => exact Quietly.refl host
  | install worker =>
    refine Quietly.trans ?_ (Quietly.record _ fun ready => ready)
    exact Quietly.trans (Quietly.of_same rfl)
      ((Quietly.kept _).interruptWorkerRequests (Quietly.refl _))

/-- Only the end of a flight answers that its adapter is ready. -/
theorem quietly_managementMessage (message : ManagementEvent Params)
    (kept : ∀ result replacement, message = .finished result replacement →
      result.adapter = .ready → False) : Quietly host (host.managementMessage message) := by
  cases message with
  | status ticket result =>
    cases result with
    | ok value =>
      refine Quietly.trans (Quietly.complete _ ticket ?_) (Quietly.startQueued _)
      intro line given upgrade same
      cases given
      cases same
    | error error =>
      exact Quietly.trans (Quietly.complete _ ticket (by simpa using Reply.quiet_invalid error))
        (Quietly.startQueued _)
  | accepted operation =>
    unfold managementMessage
    dsimp only
    split
    · exact Quietly.startQueued host
    · refine Quietly.trans ?_ (Quietly.startQueued _)
      exact (Quietly.kept host).underway operation _ (Quietly.refl host)
  | finished result replacement =>
    have silent : (Reply.upgrade result).Quiet := by
      intro value same ready
      cases same
      exact kept _ _ rfl ready
    unfold managementMessage
    dsimp only
    split
    · exact (host.quietly_replaced replacement).trans (Quietly.startQueued _)
    · rename_i flight _
      refine Quietly.trans (host.quietly_replaced replacement)
        (Quietly.trans ?_ (Quietly.startQueued _))
      obtain ⟨news, written, members⟩ := answers_history (.upgrade result) flight.requesters
        { host.replaced replacement with flight := none }
      refine ⟨news, written, fun event mem ready => ?_⟩
      obtain ⟨ticket, _, id, _, _, _, rfl⟩ := (members event).mp mem
      exact silent result rfl ready

end Quiet

section Landing

variable {Arguments : Type} (decoding : Decoding Params Arguments) {host : Host Params}

theorem startQueued_nil (empty : host.queued = []) : host.startQueued.queued = [] := by
  rcases startQueued_queued host with ⟨_, started⟩ | ⟨_, same⟩
  · exact started
  · rw [same, empty]

theorem queued_nil_cancel (empty : host.queued = []) (request : RequestId)
    (refusal : Option String) : (host.cancel request refusal).queued = [] := by
  unfold cancel
  split
  · exact empty
  · dsimp only
    split
    · exact empty
    · split
      · split <;> exact empty
      · split
        · change List.eraseP _ host.queued = []
          rw [empty]
          rfl
        · exact empty

/-- During a flight a new call is refused or started, never queued. -/
theorem queued_nil_dispatchRoute (orderly : Orderly host) (flying : host.flight.isSome)
    {next : Ticket} (following : host.nextTicket.next = some next) (id : RequestId)
    (route : Route) (message : Incoming Params) (refusal : Option String) :
    ((host.accept next id route).dispatchRoute host.nextTicket route message refusal).queued =
      [] := by
  have empty : (host.accept next id route).queued = [] := orderly.queued_nil flying
  cases route with
  | ping => exact empty
  | worker behavior =>
    unfold dispatchRoute
    dsimp only
    rw [if_pos]
    · exact (complete_queued _ _ _).trans empty
    · have flying : (host.accept next id (.worker behavior)).flight.isSome := flying
      simp [upgrading, flying]
  | management call =>
    have accepted := orderly.accept_management following id call
    unfold dispatchRoute
    dsimp only
    rcases startQueued_queued ({ host.accept next id (.management call) with
        queued := (host.accept next id (.management call)).queued ++
          [(host.nextTicket, call)] } : Host Params) with ⟨_, started⟩ | ⟨held, _⟩
    · exact started
    · have held : (host.accept next id (.management call)).barriers = true := held
      rw [accepted.cleared flying] at held
      cases held

theorem queued_nil_incoming (orderly : Orderly host) (flying : host.flight.isSome)
    (message : Incoming Params) (refusal : Option String) :
    (host.incoming decoding message refusal).queued = [] := by
  have empty := orderly.queued_nil flying
  unfold incoming
  split
  · exact empty
  · split
    · split
      · split
        · exact empty
        · exact queued_nil_cancel empty _ refusal
      · exact empty
    · split
      · exact empty
      · split
        · exact empty
        · split
          · exact empty
          · exact empty
          · split
            · exact empty
            · split
              · exact empty
              · rename_i following
                exact queued_nil_dispatchRoute orderly flying following _ _ message refusal

theorem queued_nil_managementMessage (empty : host.queued = [])
    (message : ManagementEvent Params) : (host.managementMessage message).queued = [] := by
  cases message with
  | status ticket result =>
    cases result with
    | ok value => exact startQueued_nil ((complete_queued host ticket _).trans empty)
    | error error => exact startQueued_nil ((complete_queued host ticket _).trans empty)
  | accepted operation =>
    unfold managementMessage
    dsimp only
    split
    · exact startQueued_nil empty
    · refine startQueued_nil (Eq.trans (Closes.queued (Closes.foldl ?_ _ _)) empty)
      exact fun host ticket => Closes.complete host ticket _
  | finished result replacement =>
    have replaced : (host.replaced replacement).queued = [] := by
      cases replacement with
      | keep => exact empty
      | install worker =>
        exact (Closes.interruptWorkerRequests { host with worker }).queued.trans empty
    unfold managementMessage
    dsimp only
    split
    · exact startQueued_nil replaced
    · refine startQueued_nil (Eq.trans (Closes.queued (Closes.foldl ?_ _ _)) replaced)
      exact fun host ticket => Closes.complete host ticket _

/-- Nothing is left in the queue by a step that finds a flight under way. -/
theorem queued_nil_step (orderly : Orderly host) (flying : host.flight.isSome)
    (action : Action Params) : (host.step decoding action).queued = [] := by
  have empty := orderly.queued_nil flying
  unfold step
  split
  · exact empty
  · split
    · exact queued_nil_incoming decoding orderly flying _ _
    · exact empty
    · split
      · unfold workerTakes
        split <;> exact empty
      · exact empty
    · split <;> exact empty
    · split
      · unfold workerSays
        split
        · exact empty
        · unfold workerMessage
          dsimp only
          split
          · exact startQueued_nil ((complete_queued _ _ _).trans empty)
          · exact startQueued_nil ((complete_queued _ _ _).trans empty)
      · exact empty
    · split
      · exact startQueued_nil ((Closes.interruptWorkerRequests _).queued.trans empty)
      · exact empty
    · unfold advance
      split <;> exact empty
    · split
      · exact empty
      · rename_i event rest _
        have read : ({ host with events := rest } : Host Params).queued = [] := empty
        exact queued_nil_managementMessage read event

end Landing

section Claim

variable {Arguments : Type} (decoding : Decoding Params Arguments)

/-- Whoever is told that a restart left its adapter ready has a worker to call. -/
def Dependable (before after : Host Params) : Prop :=
  ∀ news, after.history = before.history ++ news → ∀ event ∈ news, ReadyReply event →
    after.worker.Alive

/-- A flight that ends leaves nothing for which calls are refused. -/
def Landed (before after : Host Params) : Prop :=
  before.flight.isSome → after.flight = none → ∀ behavior, after.upgrading behavior = false

/-- A restart that succeeds leaves a working adapter. -/
def RestartStands (host : Host Params) (action : Action Params) : Prop :=
  Dependable host (host.step decoding action) ∧ Landed host (host.step decoding action)

/-- Some requester of the flight has not canceled its call. -/
def Awaited (host : Host Params) : Prop :=
  ∃ flight, host.flight = some flight ∧ ∃ ticket ∈ flight.requesters, ∃ id behavior owner,
    host.pending[ticket]? = some ⟨.reply id, behavior, owner⟩

/-- A flight that succeeds with the worker it kept has not seen that worker's loss. -/
def Undisturbed (host : Host Params) (action : Action Params) : Prop :=
  ∀ result rest, action = .event → host.stopped = none →
    host.events = .finished result .keep :: rest → result.adapter = .ready → host.Awaited →
      host.worker.Alive

theorem Dependable.of_quietly {before after : Host Params} (quietly : Quietly before after) :
    Dependable before after := by
  intro news written event mem ready
  obtain ⟨own, writtenOwn, quiet⟩ := quietly
  rw [writtenOwn] at written
  rw [← List.append_cancel_left written] at mem
  exact absurd ready (quiet event mem)

theorem managementMessage_worker (host : Host Params) (result : DaemonUpgrade)
    (replacement : Replacement Params) :
    (host.managementMessage (.finished result replacement)).worker =
      (host.replaced replacement).worker := by
  unfold managementMessage
  dsimp only
  split
  · exact (Follows.startQueued _).worker
  · exact (Follows.startQueued _).worker.trans (Follows.answers (fun _ => .upgrade result) _ _).worker

/-- The end of a flight that kept its worker answers those who still wait. -/
theorem answered_of_awaited {host : Host Params} (awaited : host.Awaited)
    (result : DaemonUpgrade) : ∃ news line ticket,
      (host.managementMessage (.finished result .keep)).history = host.history ++ news ∧
        .replied ticket line ∈ news ∧ line.content = .upgrade result := by
  obtain ⟨flight, flying, ticket, mem, id, behavior, owner, found⟩ := awaited
  obtain ⟨news, written, members⟩ := answers_history (.upgrade result) flight.requesters
    { host with flight := none }
  obtain ⟨late, writtenLate, _⟩ := Quietly.startQueued (flight.requesters.foldl
    (fun (host : Host Params) ticket => host.toolResult ticket (.upgrade result))
    { host with flight := none })
  refine ⟨news ++ late, ⟨id.value, .upgrade result⟩, ticket, ?_,
    List.mem_append_left _ ((members _).mpr ⟨ticket, mem, id, behavior, owner, found, rfl⟩),
    rfl⟩
  unfold managementMessage replaced
  dsimp only
  rw [flying]
  dsimp only
  rw [writtenLate, written, List.append_assoc]

/-- Where nobody waits, the end of a flight says nothing. -/
theorem quietly_of_not_awaited {host : Host Params} (alone : ¬ host.Awaited)
    (result : DaemonUpgrade) : Quietly host (host.managementMessage (.finished result .keep)) := by
  unfold managementMessage replaced
  dsimp only
  split
  · exact Quietly.startQueued host
  · rename_i flight flying
    obtain ⟨news, written, members⟩ := answers_history (.upgrade result) flight.requesters
      { host with flight := none }
    refine Quietly.trans ⟨news, written, fun event mem _ => ?_⟩ (Quietly.startQueued _)
    obtain ⟨ticket, requester, id, behavior, owner, found, _⟩ := (members event).mp mem
    exact alone ⟨flight, flying, ticket, requester, id, behavior, owner, found⟩

variable {host : Host Params} (orderly : Orderly host)
include orderly

theorem landed_step (action : Action Params) : Landed host (host.step decoding action) := by
  intro flying ended behavior
  have empty := queued_nil_step decoding orderly flying action
  simp [upgrading, ended, empty]

/-- Every action but the end of a flight is quiet. -/
theorem quietly_step (action : Action Params)
    (other : ∀ result replacement rest, action = .event → host.stopped = none →
      host.events = .finished result replacement :: rest → result.adapter = .ready → False) :
    Quietly host (host.step decoding action) := by
  unfold step
  split
  · exact Quietly.refl host
  · rename_i serving
    have serving : host.stopped = none := by simpa using serving
    split
    · exact host.quietly_incoming decoding _ _
    · exact Quietly.record host fun ready => ready
    · split
      · unfold workerTakes
        split
        · exact Quietly.trans (Quietly.of_same rfl) (Quietly.record _ fun ready => ready)
        · exact Quietly.of_same rfl
      · exact Quietly.refl host
    · split
      · exact Quietly.of_same rfl
      · exact Quietly.refl host
    · split
      · rename_i running
        exact host.quietly_workerSays (orderly.spoken _ running)
      · exact Quietly.refl host
    · split
      · exact host.quietly_workerLost _
      · exact Quietly.refl host
    · unfold advance
      split <;> exact Quietly.of_same rfl
    · split
      · exact Quietly.refl host
      · rename_i event rest waiting
        refine Quietly.trans (Quietly.of_same rfl)
          (quietly_managementMessage { host with events := rest } event ?_)
        intro result replacement same ready
        exact other result replacement rest rfl serving (by rw [waiting, same]) ready

/-- A step keeps the promise exactly when it does not end a flight that lost the worker it
kept. -/
theorem restartStands_iff (action : Action Params) :
    RestartStands decoding host action ↔ Undisturbed host action := by
  constructor
  · rintro ⟨dependable, _⟩ result rest rfl serving waiting ready awaited
    have awaited : ({ host with events := rest } : Host Params).Awaited := awaited
    obtain ⟨news, line, ticket, written, mem, said⟩ := answered_of_awaited awaited result
    have stepped : host.step decoding .event =
        ({ host with events := rest } : Host Params).managementMessage
          (.finished result .keep) := by
      simp [step, serving, waiting]
    have alive := dependable news (by rw [stepped, written]) _ mem (by
      rcases line with ⟨id, content⟩
      cases said
      exact ready)
    rwa [stepped, managementMessage_worker] at alive
  · intro undisturbed
    refine ⟨?_, landed_step decoding orderly action⟩
    by_cases ends : ∃ result replacement rest, action = .event ∧ host.stopped = none ∧
        host.events = .finished result replacement :: rest ∧ result.adapter = .ready
    · obtain ⟨result, replacement, rest, rfl, serving, waiting, ready⟩ := ends
      have stepped : host.step decoding .event =
          ({ host with events := rest } : Host Params).managementMessage
            (.finished result replacement) := by
        simp [step, serving, waiting]
      rw [stepped]
      cases replacement with
      | install worker =>
        obtain ⟨server, running⟩ := orderly.events (.finished result (.install worker))
          (by rw [waiting]; exact List.mem_cons_self)
        intro _ _ _ _ _
        rw [managementMessage_worker]
        refine ⟨_, (congrArg Worker.process ?_).trans running⟩
        exact (Closes.interruptWorkerRequests _).worker
      | keep =>
        by_cases awaited : host.Awaited
        · have alive := undisturbed result rest rfl serving waiting ready awaited
          intro _ _ _ _ _
          rw [managementMessage_worker]
          exact alive
        · have alone : ¬ ({ host with events := rest } : Host Params).Awaited := awaited
          have quietly := quietly_of_not_awaited alone result
          exact Dependable.of_quietly (Quietly.trans (Quietly.of_same rfl) quietly)
    · refine Dependable.of_quietly (quietly_step decoding orderly action ?_)
      intro result replacement rest event serving waiting ready
      exact ends ⟨result, replacement, rest, event, serving, waiting, ready⟩

omit orderly

/-- In every run each restart stands exactly if no flight that kept its worker succeeds
after that worker was lost. -/
theorem run_restartStands_iff {build : BuildDescriptor} {checkpoint : SessionCheckpoint}
    {failure : Option String} {worker : Worker Params}
    (spawned : Worker.spawn build checkpoint failure = .ok worker)
    (supervisorBuild : BuildDescriptor) (actions : List (Action Params)) :
    Run.Steps (step decoding) (RestartStands decoding)
        (start worker checkpoint supervisorBuild) actions ↔
      Run.Steps (step decoding) Undisturbed (start worker checkpoint supervisorBuild) actions :=
  Run.steps_congr (step decoding) (fun _ action orderly => orderly.step decoding action)
    (fun _ action orderly => restartStands_iff decoding orderly action)
    (start_orderly spawned supervisorBuild)

end Claim

end Host

section Example

/-- A host that only ever calls `restart_daemon`. -/
def restarting : Decoding Unit Unit where
  invocation _ := .ok ("restart_daemon", ())
  cancellation _ := none
  clientName _ := none
  noArgs _ := .ok ()
  useContext _ := .error "no name"
  setIdentity _ := .error "no name"
  shape _ _ := .ok ()

def installedBuild : BuildDescriptor where
  digest := 1
  release := ⟨⟨"stable", by decide⟩, ⟨1, 0, 0, [], ""⟩⟩
  protocol := ProtocolVersion.CURRENT
  schema := 9
  control := 1
  worker := 1

def freshSession : SessionCheckpoint where
  version := 1
  endpoint := ⟨⟨"default", .local none none, .implicit⟩, "config.toml", .startIfNeeded⟩
  agent := ⟨"model", "session", none⟩
  state := .uninitialized

def freshWorker : Worker Unit where
  process := .running (.restored ⟨freshSession.endpoint, freshSession.agent, none,
    .initialContext⟩)
  build := installedBuild
  tools := ToolName.all.map fun name => (name.text, name.behavior)

/-- The daemon is current: activating it has nothing to do. -/
def currentDaemon : Answers where
  inspected := .ok installedBuild
  daemon := .ok ⟨.running installedBuild, .available installedBuild, none⟩
  spawnFailure := none
  upgraded := .ok (.alreadyCurrent installedBuild)
  polls := []

/-- The session starts, a restart is called, and the worker is lost before it finishes. -/
def losingRun : List (Host.Action Unit) :=
  [.line ⟨"2.0", some (.number (.posInt 1)), "initialize", ()⟩ none,
    .workerTakes ⟨true, none, "welcome", false⟩,
    .workerSays,
    .line ⟨"2.0", some (.number (.posInt 2)), "tools/call", ()⟩ none,
    .workerLost "worker connection ended",
    .advance 0 currentDaemon]

theorem freshWorker_spawned : Worker.spawn installedBuild freshSession none = .ok freshWorker := by
  rfl

def losingHost : Host Unit :=
  Host.run restarting (Host.start freshWorker freshSession installedBuild) losingRun

/-- What the flight of `losingRun` ends with. -/
def keptUpgrade : DaemonUpgrade where
  context := freshSession.endpoint.context
  result := .alreadyCurrent installedBuild
  adapter := .ready

theorem losingHost_awaited : losingHost.Awaited := by
  refine ⟨⟨[2], .preparing⟩, rfl, 2, by decide, .number (.posInt 2), .upgrade, .management, ?_⟩
  decide +kernel

/-- Until its last event the run is as promised exactly if it is undisturbed. -/
theorem losingRun_restartStands_iff :
    Run.Steps (Host.step restarting) (Host.RestartStands restarting)
        (Host.start freshWorker freshSession installedBuild) losingRun ↔
      Run.Steps (Host.step restarting) Host.Undisturbed
        (Host.start freshWorker freshSession installedBuild) losingRun :=
  Host.run_restartStands_iff restarting freshWorker_spawned installedBuild losingRun

/-- Not every run keeps the promise: after `losingRun` the flight ends, says that its
adapter is ready, and leaves no worker. -/
theorem not_restartStands : ¬ ∀ (build : BuildDescriptor) (checkpoint : SessionCheckpoint)
    (failure : Option String) (worker : Worker Unit) (supervisorBuild : BuildDescriptor)
    (actions : List (Host.Action Unit)),
    Worker.spawn build checkpoint failure = .ok worker →
      Run.Steps (Host.step restarting) (Host.RestartStands restarting)
        (Host.start worker checkpoint supervisorBuild) actions := by
  intro promised
  have steps := promised installedBuild freshSession none freshWorker installedBuild
    (losingRun ++ [.event]) freshWorker_spawned
  have last := steps losingRun .event (List.prefix_refl _)
  have free : Run.Steps (Host.step restarting) (fun _ _ => True)
      (Host.start freshWorker freshSession installedBuild) losingRun := fun _ _ _ => trivial
  have orderly : losingHost.Orderly :=
    Run.steps_keep (Host.step restarting)
      (fun _ action orderly _ => orderly.step restarting action)
      (Host.start_orderly freshWorker_spawned installedBuild) free
  obtain ⟨child, running⟩ := (Host.restartStands_iff restarting orderly .event).mp last
    keptUpgrade [] rfl rfl rfl rfl losingHost_awaited
  cases running

end Example

end Nits.Mcp
