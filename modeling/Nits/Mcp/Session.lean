import Nits.Mcp.Wire

/-!
# The session a worker serves

A worker's server answers one request at a time. What outlives it is the checkpoint: the
selected context, the agent and the identity `initialize` or `set_session_identity` set.
The daemon's answers are inputs here; connections and pending work are never part of a
checkpoint.
-/

namespace Nits.Mcp

open Protocol

inductive Context
  | «local» (dataDir : Option String) (socket : Option String)
  | ssh (host : String) (bin : String) (args : List String) (ssh : Option String)
  | ws (url : String)
  deriving DecidableEq

def Context.kind : Context → ContextKind
  | «local» .. => .local
  | ssh .. => .ssh
  | ws .. => .ws

inductive SelectionOrigin
  | flag | env | persisted | implicit | adHoc | mcp
  deriving DecidableEq

/-- A resolved context and the selection that led to it. -/
structure Selection where
  name : String
  context : Context
  origin : SelectionOrigin
  deriving DecidableEq

inductive StartPolicy
  | startIfNeeded | requireRunning
  deriving DecidableEq

structure Endpoint where
  selection : Selection
  configPath : String
  start : StartPolicy
  deriving DecidableEq

def Endpoint.context (endpoint : Endpoint) : ContextIdentity :=
  ⟨endpoint.selection.name, endpoint.selection.context.kind⟩

/-- Attribution fixed for the whole session. -/
structure AgentIdentity where
  model : String
  sessionId : String
  invokedBy : Option Human
  deriving DecidableEq

structure InitializedIdentity where
  name : String
  model : String
  deriving DecidableEq

/-- Bare cursors mean something only before the active context was switched. -/
inductive CursorPolicy
  | initialContext | requireContext
  deriving DecidableEq

inductive CheckpointState
  | uninitialized
  | initialized (identity : InitializedIdentity) (cursorPolicy : CursorPolicy)
  deriving DecidableEq

def CheckpointVersion.CURRENT : Nat := 1

/-- What a successor needs to go on with the session. -/
structure SessionCheckpoint where
  version : Nat
  endpoint : Endpoint
  agent : AgentIdentity
  state : CheckpointState
  deriving DecidableEq

def SessionCheckpoint.initialized (checkpoint : SessionCheckpoint) : Bool :=
  match checkpoint.state with
  | .uninitialized => false
  | .initialized .. => true

/-- What the daemon, the configuration file and the called tool do for one request. -/
structure Answer where
  /-- Every connection the request needs is made. -/
  connects : Bool
  /-- What the configuration selects for the context named. -/
  selection : Option Selection
  /-- What the tool says, be it a result or an error of its own. -/
  content : String
  /-- The event subscription was acknowledged, and its wait goes on. -/
  waits : Bool

/-- What handling a message comes to. -/
inductive Dispatch
  | reply (reply : Outgoing)
  | notification
  | cancel (request : RequestId)
  | wait (id : RequestId)

/-- A tool call sorted by the state it accesses. -/
inductive Call
  | management (call : ManagementCall)
  | query
  | eventWait
  | mutating
  | getIdentity
  | setIdentity (name model : String)
  | listContexts
  | useContext (name : String)

/-- The server of one worker. Its connection to the daemon is made anew when needed. -/
structure Server where
  endpoint : Endpoint
  agent : AgentIdentity
  session : Option InitializedIdentity
  cursorPolicy : CursorPolicy

namespace Server

def checkpoint (server : Server) : SessionCheckpoint where
  version := CheckpointVersion.CURRENT
  endpoint := server.endpoint
  agent := server.agent
  state :=
    match server.session with
    | none => .uninitialized
    | some identity => .initialized identity server.cursorPolicy

/-- Restore a checkpoint, without any I/O. -/
def fromCheckpoint (checkpoint : SessionCheckpoint) : Except String Server :=
  if checkpoint.version ≠ CheckpointVersion.CURRENT then
    .error s!"unsupported MCP session checkpoint version {checkpoint.version}"
  else
    .ok {
      endpoint := checkpoint.endpoint
      agent := checkpoint.agent
      session :=
        match checkpoint.state with
        | .uninitialized => none
        | .initialized identity _ => some identity
      cursorPolicy :=
        match checkpoint.state with
        | .uninitialized => .initialContext
        | .initialized _ cursorPolicy => cursorPolicy }

/-- A server restored from a checkpoint is at that checkpoint. -/
theorem checkpoint_fromCheckpoint {saved : SessionCheckpoint} {server : Server}
    (restored : fromCheckpoint saved = .ok server) : server.checkpoint = saved := by
  unfold fromCheckpoint at restored
  split at restored
  · cases restored
  · rename_i current
    cases restored
    rcases saved with ⟨version, endpoint, agent, state⟩
    have same : version = CheckpointVersion.CURRENT := Classical.not_not.mp current
    cases state <;> simp [checkpoint, same]

variable {Params Arguments : Type} (decoding : Decoding Params Arguments)

def initializeSession (server : Server) (params : Params) : Server :=
  { server with
    session := some {
      name := (decoding.clientName params).getD "mcp-client"
      model := server.agent.model } }

def notInitialized : Reply := .invalid "not connected: call initialize first"

/-- Take a new identity, once the daemon has welcomed it. -/
def setIdentity (server : Server) (name model : String) (answer : Answer) : Server × Reply :=
  match server.session with
  | none => (server, notInitialized)
  | some _ =>
    if answer.connects then
      ({ server with session := some ⟨name, model⟩ }, .answered answer.content)
    else (server, .answered answer.content)

/-- Switch contexts, once the daemon of the new one has welcomed the session. -/
def useContext (server : Server) (answer : Answer) : Server × Reply :=
  match server.session, answer.selection with
  | none, _ => (server, notInitialized)
  | some _, none => (server, .answered answer.content)
  | some _, some selection =>
    if answer.connects then
      ({ server with
          endpoint := { server.endpoint with selection }
          cursorPolicy :=
            if selection.name = server.endpoint.selection.name ∧
                selection.context = server.endpoint.selection.context then
              server.cursorPolicy
            else .requireContext }, .answered answer.content)
    else (server, .answered answer.content)

end Server

variable {Params Arguments : Type} (decoding : Decoding Params Arguments)

/-- Decode a tool's arguments and sort the call. -/
def Call.parse (name : ToolName) (arguments : Arguments) : Except String Call :=
  match name with
  | .getDaemonStatus => (decoding.noArgs arguments).map fun _ => .management .status
  | .restartDaemon => (decoding.noArgs arguments).map fun _ => .management .restart
  | .listContexts => (decoding.noArgs arguments).map fun _ => .listContexts
  | .useContext => (decoding.useContext arguments).map .useContext
  | .setSessionIdentity =>
    (decoding.setIdentity arguments).map fun chosen => .setIdentity chosen.1 chosen.2
  | .getSessionIdentity =>
    (decoding.shape .getSessionIdentity arguments).map fun _ => .getIdentity
  | .subscribeEvents => (decoding.shape .subscribeEvents arguments).map fun _ => .eventWait
  | .ensureDirectoryReview | .fetchReview | .updateReviewTarget | .createReview | .updateReview
  | .addComment | .suggest | .reply | .resolve | .defer | .requestReview | .recordCheckpoint =>
    (decoding.shape name arguments).map fun _ => .mutating
  | .listWorkspaces | .listReviews | .getReview | .getCheckpointDelta | .getDiff | .getFile
  | .listComments =>
    (decoding.shape name arguments).map fun _ => .query

namespace Server

/-- Run a decoded call. `none` is an event wait that goes on. -/
def prepareCall (server : Server) (call : Call) (answer : Answer) : Server × Option Reply :=
  match call with
  | .management _ =>
    (server, some (.invalid ("management tools require the standard nits mcp supervisor; " ++
      "this embedded worker cannot replace its own implementation")))
  | .query | .mutating | .getIdentity | .listContexts =>
    match server.session with
    | none => (server, some notInitialized)
    | some _ => (server, some (.answered answer.content))
  | .eventWait =>
    match server.session with
    | none => (server, some notInitialized)
    | some _ =>
      (server, if answer.connects && answer.waits then none else some (.answered answer.content))
  | .setIdentity name model =>
    let (server, reply) := server.setIdentity name model answer
    (server, some reply)
  | .useContext _ =>
    let (server, reply) := server.useContext answer
    (server, some reply)

/-- Answer one message. -/
def dispatch (server : Server) (message : Incoming Params) (answer : Answer) :
    Server × Dispatch :=
  if message.jsonrpc ≠ "2.0" then
    (server, .reply ⟨message.id.getD .null,
      .error INVALID_REQUEST "jsonrpc must be \"2.0\""⟩)
  else
    match message.id with
    | none =>
      match Method.parse message.method with
      | some .cancelled =>
        match decoding.cancellation message.params with
        | none => (server, .notification)
        | some request => (server, .cancel request)
      | _ => (server, .notification)
    | some id =>
      match id.requestId with
      | none =>
        (server, .reply ⟨.null,
          .error INVALID_REQUEST "request id must be a string or number"⟩)
      | some requestId =>
        match Method.parse message.method with
        | none =>
          (server, .reply ⟨id,
            .error METHOD_NOT_FOUND ("method not found: " ++ message.method)⟩)
        | some .initializeSession =>
          (server.initializeSession decoding message.params,
            .reply ⟨id, .answered answer.content⟩)
        | some .ping => (server, .reply ⟨id, .pong⟩)
        | some .cancelled =>
          (server, .reply ⟨id,
            .error INVALID_REQUEST "cancellation must be a notification"⟩)
        | some .toolsList => (server, .reply ⟨id, .answered answer.content⟩)
        | some .toolsCall =>
          match decoding.invocation message.params with
          | .error reason =>
            (server, .reply ⟨id,
              .error INVALID_PARAMS ("invalid tools/call params: " ++ reason)⟩)
          | .ok (name, arguments) =>
            match ToolName.parse name with
            | none =>
              (server, .reply ⟨id,
                .error INVALID_PARAMS ("invalid tools/call params: unknown variant " ++ name)⟩)
            | some name =>
              match Call.parse decoding name arguments with
              | .error reason =>
                (server, .reply ⟨id, .invalid ("invalid params: " ++ reason)⟩)
              | .ok call =>
                match server.prepareCall call answer with
                | (server, none) => (server, .wait requestId)
                | (server, some reply) => (server, .reply ⟨id, reply⟩)

end Server

end Nits.Mcp
