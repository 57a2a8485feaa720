import Nits.Mcp.Session

/-!
# One worker process

The worker takes its input lines in order and writes an output line for each: every call
but an event wait has completed before the next line is taken. Each output carries the
checkpoint the session stands at. The pipes to and from the process are lists here, and
the ends of waits are inputs.
-/

namespace Nits.Mcp

/-- A request's private identity. It is never used twice, whatever the host's ids do. -/
abbrev Ticket := Nat

namespace Ticket

def FIRST : Ticket := 1

/-- Tickets are 64 bits wide. -/
def next (ticket : Ticket) : Option Ticket :=
  if ticket + 1 < 2 ^ 64 then some (ticket + 1) else none

def requestId (ticket : Ticket) : RequestId :=
  .number (.posInt (UInt64.ofNat ticket))

end Ticket

/-- A line to the worker. -/
inductive Input (Params : Type)
  | dispatch (ticket : Ticket) (message : Incoming Params)
  | cancel (ticket : Ticket)

inductive OutputEvent
  | handled (ticket : Ticket) (reply : Option Outgoing)
  | canceled (ticket : Ticket)

def OutputEvent.ticket : OutputEvent → Ticket
  | .handled ticket _ | .canceled ticket => ticket

/-- A line from the worker. -/
structure Output where
  checkpoint : SessionCheckpoint
  event : OutputEvent

/-- The event waits one worker keeps open. -/
def MAX_EVENT_WAITS : Nat := 32

/-- The worker process with the lines under way to it and from it. -/
structure Child (Params : Type) where
  server : Server
  input : List (Input Params)
  active : List Ticket
  output : List Output
  /-- It stopped serving with an error. -/
  ended : Bool

namespace Child

variable {Params Arguments : Type} (decoding : Decoding Params Arguments)

/-- A worker that has restored its session. -/
def restored (server : Server) : Child Params where
  server := server
  input := []
  active := []
  output := []
  ended := false

def say (child : Child Params) (event : OutputEvent) : Child Params :=
  { child with output := child.output ++ [⟨child.server.checkpoint, event⟩] }

/-- The private ticket is the worker's own request id. -/
def addressed (ticket : Ticket) (message : Incoming Params) : Incoming Params :=
  { message with id := message.id.map fun _ => ticket.requestId.value }

/-- Answer a dispatched message, or keep its wait. -/
def dispatched (child : Child Params) (ticket : Ticket) : Dispatch → Child Params
  | .reply reply => child.say (.handled ticket (some reply))
  | .notification => child.say (.handled ticket none)
  | .cancel _ => { child with ended := true }
  | .wait id =>
    if MAX_EVENT_WAITS ≤ child.active.length then
      child.say (.handled ticket (some ⟨id.value, .error INVALID_REQUEST
        "at most 32 event waits may be outstanding; cancel or finish one first"⟩))
    else if ticket ∈ child.active then { child with ended := true }
    else { child with active := child.active ++ [ticket] }

/-- Take the next input line. -/
def takes (child : Child Params) (answer : Answer) : Child Params :=
  if child.ended then child
  else
    match child.input with
    | [] => child
    | .cancel ticket :: rest =>
      { child with
        input := rest
        active := child.active.erase ticket }.say (.canceled ticket)
    | .dispatch ticket message :: rest =>
      let (server, outcome) :=
        child.server.dispatch decoding (addressed ticket message) answer
      { child with server, input := rest }.dispatched ticket outcome

/-- An event wait ends. -/
def waitEnds (child : Child Params) (ticket : Ticket) (content : String) : Child Params :=
  if child.ended then child
  else if ticket ∈ child.active then
    { child with active := child.active.erase ticket }.say
      (.handled ticket (some ⟨ticket.requestId.value, .answered content⟩))
  else child

end Child

end Nits.Mcp
