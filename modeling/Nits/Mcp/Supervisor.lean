import Nits.Mcp.Worker

/-!
# The supervisor of MCP workers

The host process keeps the initialized transport and lets a replaceable worker answer. A
request gets a private ticket when it is accepted. Management calls wait in a queue until
no `Session` call is outstanding; a restart runs as one flight, whose requesters share its
outcome. Host requests are never replayed when a worker is lost.
-/

namespace Nits.Mcp

open Logical
open Protocol hiding UpgradeOperation
open Protocol.Lifecycle

variable {Params Arguments : Type}

section Workers

/-- Whether there is a worker. -/
inductive WorkerProcess (Params : Type)
  | running (child : Child Params)
  | unavailable (reason : String)

/-- The worker process and the tools it offers. -/
structure Worker (Params : Type) where
  process : WorkerProcess Params
  build : BuildDescriptor
  tools : List (String × ToolBehavior)

inductive ReplacementPolicy
  | retainSameBuild | repairWorker
  deriving DecidableEq

/-- Check one advertised tool and add it to those before it. -/
def validateTool (tools : List (String × ToolBehavior)) (contract : ToolContract) :
    Except String (List (String × ToolBehavior)) :=
  if contract.name = "" then .error "worker advertised an empty tool name"
  else if contract.behavior = .status ∧ contract.name ≠ ToolName.getDaemonStatus.text then
    .error "worker changed the stable status tool identity"
  else if contract.behavior = .upgrade ∧ contract.name ≠ ToolName.restartDaemon.text then
    .error "worker changed the stable restart tool identity"
  else if (tools.lookup contract.name).isSome then
    .error "worker advertised duplicate tool names"
  else .ok (tools ++ [(contract.name, contract.behavior)])

def validateContract (contracts : List ToolContract) :
    Except String (List (String × ToolBehavior)) := do
  let tools ← contracts.foldlM validateTool []
  if tools.lookup ToolName.getDaemonStatus.text = some .status ∧
      tools.lookup ToolName.restartDaemon.text = some .upgrade then
    return tools
  else throw "worker omitted stable management capabilities"

namespace Worker

/-- Start a worker on a checkpoint. `failure` is whatever starting the process, its
readiness or its build check ended with. -/
def spawn (build : BuildDescriptor) (checkpoint : SessionCheckpoint)
    (failure : Option String) : Except String (Worker Params) := do
  if let some reason := failure then throw reason
  let server ← Server.fromCheckpoint checkpoint
  if server.checkpoint ≠ checkpoint then
    throw "worker altered restored session during preflight"
  let tools ← validateContract contracts
  return { process := .running (.restored server), build, tools }

/-- A worker that started is at the checkpoint it was given, with the tools of this build. -/
theorem spawn_ok {build : BuildDescriptor} {checkpoint : SessionCheckpoint}
    {failure : Option String} {worker : Worker Params}
    (spawned : spawn build checkpoint failure = .ok worker) :
    ∃ server, Server.fromCheckpoint checkpoint = .ok server ∧
      validateContract contracts = .ok worker.tools ∧
      worker.process = .running (.restored server) := by
  unfold spawn at spawned
  cases failure with
  | some reason => cases spawned
  | none =>
    cases restored : Server.fromCheckpoint checkpoint with
    | error reason => simp [restored, bind, Except.bind] at spawned
    | ok server =>
      have same := Server.checkpoint_fromCheckpoint restored
      cases validated : validateContract contracts with
      | error reason =>
        simp [restored, same, validated, bind, Except.bind] at spawned
      | ok tools =>
        simp [restored, same, validated, bind, Except.bind, pure, Except.pure] at spawned
        subst spawned
        exact ⟨server, rfl, rfl, rfl⟩

/-- Pass a line to the worker; `refusal` is why its channel does not take one now. -/
def send (worker : Worker Params) (message : Input Params) (refusal : Option String) :
    Except String (Worker Params) :=
  match worker.process with
  | .running child =>
    match refusal with
    | some error =>
      .error ("request was not forwarded to the worker: " ++ error ++
        "; retry after outstanding calls finish")
    | none =>
      .ok { worker with
        process := .running { child with input := child.input ++ [message] } }
  | .unavailable reason =>
    .error ("MCP worker unavailable: " ++ reason ++ "; this request was not forwarded. " ++
      "Use get_daemon_status or restart_daemon to recover.")

def replacementPolicy (worker : Worker Params) : ReplacementPolicy :=
  match worker.process with
  | .running _ => .retainSameBuild
  | .unavailable _ => .repairWorker

def lost (worker : Worker Params) (reason : String) : Worker Params :=
  { worker with process := .unavailable reason }

end Worker

end Workers

section Activation

/-- Whether the worker is replaced. -/
inductive Replacement (Params : Type)
  | keep
  | install (worker : Worker Params)

inductive Activation
  | unmanaged
  | verified (daemon : BuildDescriptor)

/-- An upgrade ready to be activated. -/
structure PreparedUpgrade (Params : Type) where
  replacement : Replacement Params
  activation : Activation

/-- What the machine answers to one background task. -/
structure Answers where
  /-- The installed local build. -/
  inspected : Except String BuildDescriptor
  /-- The managed daemon, as asked before an activation or by a status call. -/
  daemon : Except String ManagedDaemonStatus
  /-- Why a replacement worker could not be started. -/
  spawnFailure : Option String
  /-- What the coordinator made of the upgrade. -/
  upgraded : Except String UpgradeResult
  /-- The inspections made until the monitoring budget ends. -/
  polls : List (Except String ManagedDaemonStatus)

namespace Activation

/-- Ask the context's coordinator; an unmanaged context has none. -/
def run (activation : Activation) (upgraded : Except String UpgradeResult) :
    Except String UpgradeResult :=
  match activation with
  | .unmanaged =>
    upgraded.map fun _ => .failed {
      stage := .preparingRestart
      kind := .notManaged
      message := "this WebSocket daemon is managed elsewhere; select its managed Local or " ++
        "Ssh context" }
  | .verified _ => upgraded

/-- An activation stands only for the build that was inspected before it. -/
def checked (activation : Activation) (result : UpgradeResult) (stage : UpgradeStage) :
    UpgradeResult :=
  match activation with
  | .unmanaged => result
  | .verified expected =>
    match result with
    | .failed _ => result
    | .alreadyCurrent actual =>
      if actual = expected then result else mismatch stage
    | .accepted operation | .restarted operation =>
      if operation.target = expected then result else mismatch stage
where
  mismatch (stage : UpgradeStage) : UpgradeResult :=
    .failed {
      stage := stage
      kind := .contextMismatch
      message := "daemon activation selected another build than the preflighted one; the " ++
        "existing MCP worker was retained. Inspect get_daemon_status before retrying." }

end Activation

def failed (endpoint : Endpoint) (kind : UpgradeFailureKind) (stage : UpgradeStage)
    (message : String) : DaemonUpgrade where
  context := endpoint.context
  result := .failed ⟨stage, kind, message⟩
  adapter := .retained message

/-- The installed local build and the daemon build it would activate, once nothing speaks
against them. -/
def preflight (current : BuildDescriptor) (answers : Answers) :
    Except String (BuildDescriptor × BuildDescriptor) := do
  let candidate ← answers.inspected
  if candidate.release.relativeTo current.release = .older ∨
      candidate.release.relativeTo current.release = .differentChannel then
    throw ("the installed local MCP adapter is older or on another channel; refusing to " ++
      "downgrade this session")
  let daemon ← answers.daemon
  let installed ←
    match daemon.installed with
    | .available build => pure build
    | .unavailable reason => throw reason
  if installed.protocol ≠ candidate.protocol then
    throw ("installed daemon uses protocol " ++ installed.protocol.text ++
      ", but the installed local MCP adapter uses " ++ candidate.protocol.text ++
      "; install a compatible local adapter before activation")
  return (candidate, installed)

/-- Inspect the installed build and, unless the running worker can stay, start another. -/
def prepareReplacement (checkpoint : SessionCheckpoint) (current : BuildDescriptor)
    (policy : ReplacementPolicy) (answers : Answers) :
    Except String (PreparedUpgrade Params) :=
  match checkpoint.endpoint.selection.context with
  | .ws _ => .ok ⟨.keep, .unmanaged⟩
  | .local .. | .ssh .. =>
    match preflight current answers with
    | .error reason => .error reason
    | .ok (candidate, installed) =>
      if candidate.digest = current.digest ∧ policy = .retainSameBuild then
        .ok ⟨.keep, .verified installed⟩
      else
        match Worker.spawn candidate checkpoint answers.spawnFailure with
        | .error reason => .error reason
        | .ok worker => .ok ⟨.install worker, .verified installed⟩

/-- What becomes of a flight when its coordinator is done. -/
def conclude (endpoint : Endpoint) (prepared : PreparedUpgrade Params)
    (result : UpgradeResult) : DaemonUpgrade × Replacement Params :=
  match prepared.activation.checked result .confirmingReady with
  | .failed failure =>
    (⟨endpoint.context, .failed failure, .retained failure.message⟩, .keep)
  | .accepted operation =>
    (⟨endpoint.context, .accepted operation, .handoff operation.id⟩, .keep)
  | result => (⟨endpoint.context, result, .ready⟩, prepared.replacement)

inductive MonitorDecision
  | pending (stage : UpgradeStage)
  | complete (result : UpgradeResult)

def monitorDecision (operation : UpgradeOperation) (running : ManagedDaemonState) :
    MonitorDecision :=
  match operation.progress with
  | .active stage => .pending stage
  | .failed failure => .complete (.failed failure)
  | .ready =>
    match running with
    | .running build =>
      if build = operation.target then .complete (.restarted operation)
      else .complete (.failed ⟨.confirmingReady, .contextMismatch,
        "upgrade journal records another build than the endpoint now runs; inspect " ++
          "get_daemon_status before retrying"⟩)
    | .stopped | .unavailable _ | .legacy _ => .pending .confirmingReady
    | .notManaged => .complete (.failed ⟨.confirmingReady, .notManaged,
        "daemon readiness cannot be confirmed for an unmanaged endpoint"⟩)

/-- Follow an accepted operation until it completes or the budget ends. -/
def monitor (operation : UpgradeOperation) (stage : UpgradeStage) :
    List (Except String ManagedDaemonStatus) → UpgradeResult
  | [] =>
    .failed ⟨stage, .readinessTimeout,
      "daemon activation exceeded the MCP monitoring budget; use get_daemon_status to " ++
        "inspect the durable operation before retrying"⟩
  | .error error :: _ => .failed ⟨stage, .io, error⟩
  | .ok status :: polls =>
    let operation :=
      match status.operation with
      | some current => if current.id = operation.id then current else operation
      | none => operation
    match monitorDecision operation status.running with
    | .pending stage => monitor operation stage polls
    | .complete result => result

end Activation

def compatibility (adapter : BuildDescriptor) (daemon : ManagedDaemonStatus) : AdapterStatus :=
  match daemon.running with
  | .running build =>
    if build.protocol ≠ adapter.protocol then
      .upgradeRequired ("running daemon requires protocol " ++ build.protocol.text ++
        "; this local MCP worker speaks " ++ adapter.protocol.text ++
        ". Install a compatible local Nits build and call restart_daemon again.")
    else .ready
  | .stopped | .legacy _ | .unavailable _ | .notManaged => .ready

/-- What a status call answers. -/
def daemonStatus (endpoint : Endpoint) (supervisorBuild adapterBuild : BuildDescriptor)
    (workerState : AdapterStatus) (answers : Answers) : Except String DaemonStatus := do
  let daemon ← answers.daemon
  let adapter :=
    match daemon.operation with
    | some ⟨id, _, _, .active _⟩ => .handoff id
    | some _ | none =>
      match workerState with
      | .ready => compatibility adapterBuild daemon
      | other => other
  return {
    context := endpoint.context
    supervisorBuild
    adapterBuild
    installedAdapter :=
      match answers.inspected with
      | .ok build => .available build
      | .error reason => .unavailable reason
    daemon
    adapter }

inductive ManagementEvent (Params : Type)
  | status (ticket : Ticket) (result : Except String DaemonStatus)
  | accepted (operation : UpgradeOperation)
  | finished (result : DaemonUpgrade) (replacement : Replacement Params)

/-- A background task of the supervisor. -/
inductive Task (Params : Type)
  | status (ticket : Ticket) (endpoint : Endpoint) (supervisorBuild adapterBuild : BuildDescriptor)
      (workerState : AdapterStatus)
  /-- A flight that has asked nothing yet. -/
  | activate (checkpoint : SessionCheckpoint) (current : BuildDescriptor)
      (policy : ReplacementPolicy)
  /-- A flight whose operation the coordinator accepted. -/
  | monitor (endpoint : Endpoint) (prepared : PreparedUpgrade Params)
      (operation : UpgradeOperation)

/-- Run a task to its next event, and what is left of it then. -/
def Task.advance (task : Task Params) (answers : Answers) :
    ManagementEvent Params × Option (Task Params) :=
  match task with
  | .status ticket endpoint supervisorBuild adapterBuild workerState =>
    (.status ticket (daemonStatus endpoint supervisorBuild adapterBuild workerState answers),
      none)
  | .activate checkpoint current policy =>
    let endpoint := checkpoint.endpoint
    match prepareReplacement checkpoint current policy answers with
    | .error message =>
      (.finished (failed endpoint .candidateUnavailable .preparingRestart message) .keep, none)
    | .ok prepared =>
      match prepared.activation.run answers.upgraded with
      | .error message =>
        (.finished (failed endpoint .io .preparingRestart message) .keep, none)
      | .ok result =>
        match prepared.activation.checked result .preparingRestart with
        | .accepted operation =>
          (.accepted operation, some (.monitor endpoint prepared operation))
        | result =>
          let (upgrade, replacement) := conclude endpoint prepared result
          (.finished upgrade replacement, none)
  | .monitor endpoint prepared operation =>
    let result := Mcp.monitor operation .preparingRestart answers.polls
    let (upgrade, replacement) := conclude endpoint prepared result
    (.finished upgrade replacement, none)

end Nits.Mcp
