import Nits.Protocol.Lifecycle

/-!
# Messages of the MCP transport

A request carries an id that is a string or a number, a notification carries none. The
parameters of a request stay undecoded here: `Decoding` says what the handlers read of them.
-/

namespace Nits.Mcp

open Protocol hiding UpgradeOperation
open Protocol.Lifecycle

/-- A JSON number keeps apart how it is written: `7` and `7.0` are different ids. -/
inductive Number
  | posInt (value : UInt64)
  | negInt (value : Int)
  | float (value : Rat)
  deriving DecidableEq

inductive RequestId
  | string (text : String)
  | number (value : Number)
  deriving DecidableEq

/-- What may stand for an id on the wire; `other` is any other JSON value, as its text. -/
inductive Value
  | null
  | string (text : String)
  | number (value : Number)
  | other (json : String)

def RequestId.value : RequestId → Value
  | .string text => .string text
  | .number value => .number value

def Value.requestId : Value → Option RequestId
  | .string text => some (.string text)
  | .number value => some (.number value)
  | .null | .other _ => none

@[simp] theorem RequestId.requestId_value (id : RequestId) : id.value.requestId = some id := by
  cases id <;> rfl

/-- A request, with `id`, or a notification, without. -/
structure Incoming (Params : Type) where
  jsonrpc : String
  id : Option Value
  method : String
  params : Params

inductive Method
  | initializeSession | ping | toolsList | toolsCall | cancelled
  deriving DecidableEq

def Method.parse : String → Option Method
  | "initialize" => some .initializeSession
  | "ping" => some .ping
  | "tools/list" => some .toolsList
  | "tools/call" => some .toolsCall
  | "notifications/cancelled" => some .cancelled
  | _ => none

def INVALID_REQUEST : Int := -32600
def METHOD_NOT_FOUND : Int := -32601
def INVALID_PARAMS : Int := -32602
inductive ContextKind
  | «local» | ssh | ws

structure ContextIdentity where
  name : String
  kind : ContextKind

inductive AdapterStatus
  | ready
  | preparing
  | unavailable (reason : String)
  | retained (reason : String)
  | handoff (operation : UpgradeId)
  | upgradeRequired (reason : String)

structure DaemonStatus where
  context : ContextIdentity
  supervisorBuild : BuildDescriptor
  adapterBuild : BuildDescriptor
  installedAdapter : InstalledCandidate
  daemon : ManagedDaemonStatus
  adapter : AdapterStatus

structure DaemonUpgrade where
  context : ContextIdentity
  result : UpgradeResult
  adapter : AdapterStatus

/-- What a reply says. -/
inductive Reply
  | error (code : Int) (message : String)
  /-- A tool result whose content is an error. -/
  | invalid (message : String)
  | pong
  | status (value : DaemonStatus)
  | upgrade (value : DaemonUpgrade)
  /-- What a tool of the worker answered, as its text. -/
  | answered (text : String)

/-- A response to a request. -/
structure Outgoing where
  id : Value
  content : Reply

/-- How a call is scheduled, independently of its tool's name. -/
inductive ToolBehavior
  | read | mutation | session | wait | status | upgrade
  deriving DecidableEq

/-- Management calls, which the supervisor answers itself. -/
inductive ManagementCall
  | status | restart
  deriving DecidableEq

inductive ToolName
  | getDaemonStatus | restartDaemon | listContexts | useContext | listWorkspaces | listReviews
  | getReview | getCheckpointDelta | ensureDirectoryReview | updateReviewTarget | fetchReview
  | createReview | updateReview | getDiff | getFile | listComments | addComment | suggest
  | reply | resolve | defer | requestReview | recordCheckpoint | subscribeEvents
  | getSessionIdentity | setSessionIdentity

namespace ToolName

def all : List ToolName :=
  [getDaemonStatus, restartDaemon, listContexts, useContext, listWorkspaces, listReviews,
    getReview, getCheckpointDelta, ensureDirectoryReview, updateReviewTarget, fetchReview,
    createReview, updateReview, getDiff, getFile, listComments, addComment, suggest,
    reply, resolve, defer, requestReview, recordCheckpoint, subscribeEvents,
    getSessionIdentity, setSessionIdentity]

def text : ToolName → String
  | getDaemonStatus => "get_daemon_status"
  | restartDaemon => "restart_daemon"
  | listContexts => "list_contexts"
  | useContext => "use_context"
  | listWorkspaces => "list_workspaces"
  | listReviews => "list_reviews"
  | getReview => "get_review"
  | getCheckpointDelta => "get_checkpoint_delta"
  | ensureDirectoryReview => "ensure_directory_review"
  | updateReviewTarget => "update_review_target"
  | fetchReview => "fetch_review"
  | createReview => "create_review"
  | updateReview => "update_review"
  | getDiff => "get_diff"
  | getFile => "get_file"
  | listComments => "list_comments"
  | addComment => "add_comment"
  | suggest => "suggest"
  | reply => "reply"
  | resolve => "resolve"
  | defer => "defer"
  | requestReview => "request_review"
  | recordCheckpoint => "record_checkpoint"
  | subscribeEvents => "subscribe_events"
  | getSessionIdentity => "get_session_identity"
  | setSessionIdentity => "set_session_identity"

def parse (text : String) : Option ToolName :=
  all.find? fun name => name.text == text

def behavior : ToolName → ToolBehavior
  | getDaemonStatus => .status
  | restartDaemon => .upgrade
  | useContext | setSessionIdentity => .session
  | subscribeEvents => .wait
  | ensureDirectoryReview | fetchReview | updateReviewTarget | createReview | updateReview
  | addComment | suggest | reply | resolve | defer | requestReview | recordCheckpoint =>
    .mutation
  | listContexts | listWorkspaces | listReviews | getReview | getCheckpointDelta | getDiff
  | getFile | listComments | getSessionIdentity => .read

end ToolName

/-- A tool's name and behaviour. -/
structure ToolContract where
  name : String
  behavior : ToolBehavior

def contracts : List ToolContract :=
  ToolName.all.map fun name => ⟨name.text, name.behavior⟩

/-- What the handlers decode out of a request's parameters and a call's arguments. -/
structure Decoding (Params Arguments : Type) where
  /-- The tool and arguments of a `tools/call`. -/
  invocation : Params → Except String (String × Arguments)
  /-- The request a cancellation names. -/
  cancellation : Params → Option RequestId
  /-- The client name an `initialize` carries. -/
  clientName : Params → Option String
  noArgs : Arguments → Except String Unit
  useContext : Arguments → Except String String
  /-- The name and model of a `set_session_identity`. -/
  setIdentity : Arguments → Except String (String × String)
  /-- Whether the arguments of any other tool have its shape. -/
  shape : ToolName → Arguments → Except String Unit

end Nits.Mcp
