import Nits.Mcp.Supervisor

/-!
# The supervisor's host loop

The loop takes one event at a time: a line of the host, a line or the loss of the worker,
or the end of a background task. `history` records what became of each request; the
loop itself reads nothing of it.
-/

namespace Nits.Mcp

open Logical
open Protocol hiding UpgradeOperation
open Protocol.Lifecycle

variable {Params Arguments : Type}

inductive Delivery
  | reply (id : RequestId)
  | canceled
  deriving DecidableEq

inductive Owner
  | worker | management
  deriving DecidableEq

/-- A request that was accepted and not answered. -/
structure Pending where
  delivery : Delivery
  behavior : ToolBehavior
  owner : Owner
  deriving DecidableEq

inductive FlightStage
  | preparing
  | accepted (operation : UpgradeOperation)

/-- One restart under way, with the calls that wait for it. -/
structure Flight where
  requesters : List Ticket
  stage : FlightStage

/-- What became of a request. -/
inductive Event (Params : Type)
  /-- A line written that answers no ticket. -/
  | wrote (line : Outgoing)
  /-- The tools of the worker may have changed. -/
  | toolsChanged
  | accepted (ticket : Ticket) (id : RequestId) (pending : Pending)
  | canceled (ticket : Ticket)
  | forwarded (ticket : Ticket)
  /-- The worker took the call; its message and what it was answered. -/
  | ran (ticket : Ticket) (message : Incoming Params) (answer : Answer)
  /-- The worker that had the call was lost or replaced. -/
  | interrupted (ticket : Ticket)
  /-- A management call started, with the checkpoint it was given. -/
  | began (ticket : Ticket) (call : ManagementCall) (checkpoint : SessionCheckpoint)
  | replied (ticket : Ticket) (line : Outgoing)

/-- The supervisor: its worker, its table of requests and its queue. -/
structure Host (Params : Type) where
  worker : Worker Params
  checkpoint : SessionCheckpoint
  supervisorBuild : BuildDescriptor
  nextTicket : Ticket
  pending : Table Ticket Pending
  external : RequestId → Option Ticket
  queued : List (Ticket × ManagementCall)
  flight : Option Flight
  tasks : List (Task Params)
  events : List (ManagementEvent Params)
  /-- Why the loop ended, once it has. -/
  stopped : Option String
  history : List (Event Params)

namespace Host

section Requests

def record (host : Host Params) (event : Event Params) : Host Params :=
  { host with history := host.history ++ [event] }

/-- Some `Session` call is with the worker. -/
def barriers (host : Host Params) : Bool :=
  host.pending.toList.any fun (_, pending) =>
    pending.owner == .worker && pending.behavior == .session

/-- Close a ticket, and answer its request unless it was canceled. -/
def complete (host : Host Params) (ticket : Ticket) (reply : Option Outgoing) : Host Params :=
  match host.pending[ticket]? with
  | none => host
  | some pending =>
    let host := { host with pending := host.pending.erase ticket }
    match pending.delivery with
    | .canceled => host
    | .reply id =>
      let host :=
        if host.external id = some ticket then
          { host with external := Function.update host.external id none }
        else host
      match reply with
      | none => host
      | some reply => host.record (.replied ticket { reply with id := id.value })

def toolError (host : Host Params) (ticket : Ticket) (message : String) : Host Params :=
  host.complete ticket (some ⟨.null, .invalid message⟩)

def toolResult (host : Host Params) (ticket : Ticket) (content : Reply) : Host Params :=
  host.complete ticket (some ⟨.null, content⟩)

end Requests

section Management

/-- What a status call says of the worker. -/
def workerState (host : Host Params) : AdapterStatus :=
  match host.flight with
  | some ⟨_, .preparing⟩ => .preparing
  | some ⟨_, .accepted operation⟩ => .handoff operation.id
  | none =>
    match host.worker.process with
    | .running _ => .ready
    | .unavailable reason => .unavailable reason

/-- The answer while an accepted operation is under way. -/
def underway (host : Host Params) (operation : UpgradeOperation) : Reply :=
  .upgrade {
    context := host.checkpoint.endpoint.context
    result := .accepted operation
    adapter := .handoff operation.id }

def startStatus (host : Host Params) (ticket : Ticket) : Host Params :=
  { host.record (.began ticket .status host.checkpoint) with
    tasks := host.tasks ++ [.status ticket host.checkpoint.endpoint host.supervisorBuild
      host.worker.build host.workerState] }

/-- Start a flight, join the one being prepared, or name the one accepted. -/
def startRestart (host : Host Params) (ticket : Ticket) : Host Params :=
  let host := host.record (.began ticket .restart host.checkpoint)
  match host.flight with
  | some ⟨requesters, .preparing⟩ =>
    { host with flight := some ⟨requesters ++ [ticket], .preparing⟩ }
  | some ⟨_, .accepted operation⟩ => host.toolResult ticket (host.underway operation)
  | none =>
    { host with
      flight := some ⟨[ticket], .preparing⟩
      tasks := host.tasks ++ [.activate host.checkpoint host.worker.build
        host.worker.replacementPolicy] }

/-- Take one call off the queue. -/
def startCall (host : Host Params) (queued : Ticket × ManagementCall) : Host Params :=
  if host.pending[queued.1]?.isNone then host
  else if ¬ host.checkpoint.initialized then
    host.toolError queued.1 "call initialize before daemon management"
  else
    match queued.2 with
    | .status => host.startStatus queued.1
    | .restart => host.startRestart queued.1

/-- Start the queued calls in order, unless a `Session` call is outstanding. -/
def startQueued (host : Host Params) : Host Params :=
  if host.barriers then host
  else host.queued.foldl startCall { host with queued := [] }

def interruption : ToolBehavior → String
  | .mutation =>
    "worker replaced during this mutation; it may have committed. The request was not " ++
      "replayed. Inspect daemon state before repeating it."
  | .read | .wait | .session =>
    "request interrupted by MCP worker replacement; issue a fresh read or resume from your " ++
      "last acknowledged context-scoped cursor"
  | .status | .upgrade => "management request interrupted by worker replacement"

def interrupt (host : Host Params) (request : Ticket × Pending) : Host Params :=
  (host.record (.interrupted request.1)).toolError request.1 (interruption request.2.behavior)

/-- Answer everything the worker had, since it will not. -/
def interruptWorkerRequests (host : Host Params) : Host Params :=
  (host.pending.toList.filter fun (_, pending) => pending.owner == .worker).foldl interrupt host

/-- A line of the worker. -/
def workerMessage (host : Host Params) (message : Output) : Host Params :=
  let host := { host with checkpoint := message.checkpoint }
  match message.event with
  | .handled ticket reply => (host.complete ticket reply).startQueued
  | .canceled ticket => (host.complete ticket none).startQueued

/-- The worker is gone. -/
def workerLost (host : Host Params) (reason : String) : Host Params :=
  { host with worker := host.worker.lost reason }.interruptWorkerRequests.startQueued

/-- Put a prepared worker in the place of the old one, which has no more say. -/
def replaced (host : Host Params) : Replacement Params → Host Params
  | .keep => host
  | .install worker => { host with worker }.interruptWorkerRequests.record .toolsChanged

/-- An event of a background task. -/
def managementMessage (host : Host Params) (message : ManagementEvent Params) : Host Params :=
  match message with
  | .status ticket (.ok value) => (host.toolResult ticket (.status value)).startQueued
  | .status ticket (.error error) => (host.toolError ticket error).startQueued
  | .accepted operation =>
    match host.flight with
    | none => host.startQueued
    | some flight =>
      (flight.requesters.foldl
        (fun (host : Host Params) ticket => host.toolResult ticket (host.underway operation))
        { host with flight := some ⟨[], .accepted operation⟩ }).startQueued
  | .finished result replacement =>
    let host := host.replaced replacement
    match host.flight with
    | none => host.startQueued
    | some flight =>
      (flight.requesters.foldl
        (fun (host : Host Params) ticket => host.toolResult ticket (.upgrade result))
        { host with flight := none }).startQueued

end Management

section Incoming

variable (decoding : Decoding Params Arguments)

/-- Where a request goes. -/
inductive Route
  | ping
  | worker (behavior : ToolBehavior)
  | management (call : ManagementCall)

/-- Who answers a message, or the reply that refuses it. -/
def route (message : Incoming Params) (tools : List (String × ToolBehavior)) :
    Except Outgoing Route :=
  let id := message.id.getD .null
  match Method.parse message.method with
  | some .ping => .ok .ping
  | some .initializeSession => .ok (.worker .session)
  | some .toolsList | some .cancelled | none => .ok (.worker .read)
  | some .toolsCall =>
    match decoding.invocation message.params with
    | .error error =>
      .error ⟨id, .error INVALID_PARAMS ("invalid tools/call params: " ++ error)⟩
    | .ok (name, arguments) =>
      match (tools.lookup name).getD .mutation with
      | .status =>
        match decoding.noArgs arguments with
        | .error error => .error ⟨id, .invalid ("invalid params: " ++ error)⟩
        | .ok _ => .ok (.management .status)
      | .upgrade =>
        match decoding.noArgs arguments with
        | .error error => .error ⟨id, .invalid ("invalid params: " ++ error)⟩
        | .ok _ => .ok (.management .restart)
      | behavior => .ok (.worker behavior)

/-- Give up on a request: its id is free at once, its ticket when its owner is done. -/
def cancel (host : Host Params) (request : RequestId) (refusal : Option String) :
    Host Params :=
  match host.external request with
  | none => host
  | some ticket =>
    let host := { host with external := Function.update host.external request none }
    match host.pending[ticket]? with
    | none => host
    | some pending =>
      let host :=
        { host with
          pending := host.pending.insert ticket { pending with delivery := .canceled } }.record
          (.canceled ticket)
      match pending.owner with
      | .worker =>
        match host.worker.send (.cancel ticket) refusal with
        | .ok worker => { host with worker }
        | .error _ => host
      | .management =>
        if host.queued.any fun (queued, _) => queued == ticket then
          { host with
            queued := host.queued.eraseP fun (queued, _) => queued == ticket
            pending := host.pending.erase ticket }
        else host

/-- Whether a worker call is refused because an upgrade is in progress or waits. -/
def upgrading (host : Host Params) (behavior : ToolBehavior) : Bool :=
  let waitingUpgrade := host.queued.any fun (_, call) => call == .restart
  let waitingSessionBoundary := behavior == .session && !host.queued.isEmpty
  host.flight.isSome || waitingUpgrade || waitingSessionBoundary

/-- Hand an accepted call to its owner. -/
def dispatchRoute (host : Host Params) (ticket : Ticket) (route : Route)
    (message : Incoming Params) (refusal : Option String) : Host Params :=
  match route with
  | .ping => host
  | .worker behavior =>
    if host.upgrading behavior then
      host.toolError ticket ("daemon/MCP upgrade is in progress; this request was not " ++
        "forwarded. Use get_daemon_status, then retry when ready.")
    else
      match host.worker.send (.dispatch ticket message) refusal with
      | .error error => host.toolError ticket error
      | .ok worker => { host with worker }.record (.forwarded ticket)
  | .management call => { host with queued := host.queued ++ [(ticket, call)] }.startQueued

/-- At most this many requests may be outstanding. -/
def MAX_OUTSTANDING : Nat := 256

/-- How an accepted call is scheduled, and by whom. -/
def Route.scheduled : Route → ToolBehavior × Owner
  | .worker behavior => (behavior, .worker)
  | .management .status => (.status, .management)
  | .management .restart => (.upgrade, .management)
  | .ping => (.read, .management)

/-- Give a request the next ticket. -/
def accept (host : Host Params) (next : Ticket) (id : RequestId) (route : Route) :
    Host Params :=
  let pending : Pending := ⟨.reply id, route.scheduled.1, route.scheduled.2⟩
  { host with
    nextTicket := next
    external := Function.update host.external id (some host.nextTicket)
    pending := host.pending.insert host.nextTicket pending }.record
    (.accepted host.nextTicket id pending)

/-- A line of the host. -/
def incoming (host : Host Params) (message : Incoming Params) (refusal : Option String) :
    Host Params :=
  if message.jsonrpc ≠ "2.0" then
    host.record (.wrote ⟨message.id.getD .null,
      .error INVALID_REQUEST "jsonrpc must be \"2.0\""⟩)
  else
    match message.id with
    | none =>
      if Method.parse message.method = some .cancelled then
        match decoding.cancellation message.params with
        | none => host
        | some request => host.cancel request refusal
      else host
    | some raw =>
      match raw.requestId with
      | none =>
        host.record (.wrote ⟨.null,
          .error INVALID_REQUEST "request id must be a string or number"⟩)
      | some id =>
        if (host.external id).isSome then
          host.record (.wrote ⟨id.value,
            .error INVALID_REQUEST "request id already has an outstanding call"⟩)
        else
          match route decoding message host.worker.tools with
          | .error reply => host.record (.wrote reply)
          | .ok .ping => host.record (.wrote ⟨id.value, .pong⟩)
          | .ok route =>
            if MAX_OUTSTANDING ≤ host.pending.size then
              host.record (.wrote ⟨id.value, .invalid ("at most 256 requests may be " ++
                "outstanding; this request was not forwarded")⟩)
            else
              match host.nextTicket.next with
              | none => { host with stopped := some "worker request identity exhausted" }
              | some next =>
                (host.accept next id route).dispatchRoute host.nextTicket route message refusal

end Incoming

section Loop

/-- The loop before its first event, with the worker it started. -/
def start (worker : Worker Params) (checkpoint : SessionCheckpoint)
    (supervisorBuild : BuildDescriptor) : Host Params where
  worker := worker
  checkpoint := checkpoint
  supervisorBuild := supervisorBuild
  nextTicket := Ticket.FIRST
  pending := ∅
  external := fun _ => none
  queued := []
  flight := none
  tasks := []
  events := []
  stopped := none
  history := []

/-- One thing that happens: in the loop, in the worker or in a background task. -/
inductive Action (Params : Type)
  /-- A message of the host; `refusal` is why the worker's channel takes nothing now. -/
  | line (message : Incoming Params) (refusal : Option String)
  /-- A line that is no message. -/
  | unparsed (error : String)
  | workerTakes (answer : Answer)
  | waitEnds (ticket : Ticket) (content : String)
  | workerSays
  /-- The loop reads the end of the worker's output, or a line that is no output. -/
  | workerLost (reason : String)
  | advance (index : Nat) (answers : Answers)
  | event

def PARSE_ERROR : Int := -32700

/-- Put a worker process that has moved back in its place. -/
def moved (host : Host Params) (child : Child Params) : Host Params :=
  { host with worker := { host.worker with process := .running child } }

/-- The worker takes a line. -/
def workerTakes (decoding : Decoding Params Arguments) (host : Host Params)
    (child : Child Params) (answer : Answer) : Host Params :=
  let host := host.moved (child.takes decoding answer)
  match child.ended, child.input with
  | false, .dispatch ticket message :: _ => host.record (.ran ticket message answer)
  | _, _ => host

/-- The loop reads a line of the worker. -/
def workerSays (host : Host Params) (child : Child Params) : Host Params :=
  match child.output with
  | [] => host
  | message :: rest => (host.moved { child with output := rest }).workerMessage message

/-- A background task gets to its next event. -/
def advance (host : Host Params) (index : Nat) (answers : Answers) : Host Params :=
  match host.tasks[index]? with
  | none => host
  | some task =>
    let (event, rest) := task.advance answers
    { host with
      tasks := host.tasks.take index ++ rest.toList ++ host.tasks.drop (index + 1)
      events := host.events ++ [event] }

/-- One event of the loop. -/
def step (decoding : Decoding Params Arguments) (host : Host Params) (action : Action Params) :
    Host Params :=
  if host.stopped.isSome then host
  else
    match action with
    | .line message refusal => host.incoming decoding message refusal
    | .unparsed error =>
      host.record (.wrote ⟨.null, .error PARSE_ERROR ("parse error: " ++ error)⟩)
    | .workerTakes answer =>
      match host.worker.process with
      | .running child => host.workerTakes decoding child answer
      | .unavailable _ => host
    | .waitEnds ticket content =>
      match host.worker.process with
      | .running child => host.moved (child.waitEnds ticket content)
      | .unavailable _ => host
    | .workerSays =>
      match host.worker.process with
      | .running child => host.workerSays child
      | .unavailable _ => host
    | .workerLost reason =>
      match host.worker.process with
      | .running _ => host.workerLost reason
      | .unavailable _ => host
    | .advance index answers => host.advance index answers
    | .event =>
      match host.events with
      | [] => host
      | event :: rest => { host with events := rest }.managementMessage event

/-- The events one after another. -/
def run (decoding : Decoding Params Arguments) (host : Host Params)
    (actions : List (Action Params)) : Host Params :=
  actions.foldl (step decoding) host

end Loop

end Host

end Nits.Mcp
