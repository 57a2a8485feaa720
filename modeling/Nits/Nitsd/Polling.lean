import Nits.Nitsd.Flow
import Nits.Nitsd.Serving

/-!
# Polling for events

A poll drops what is left in the client's queue, subscribes from the caller's cursor, collects
events for a while and unsubscribes. The caller, the daemon's side of the connection and the
client's task that reads the daemon's messages take their steps in any order. Time is not
modelled: a wait for messages may end whenever the caller waits.
-/

namespace Nits.Nitsd

open Logical Protocol

/-- What a poll asks of the daemon. -/
inductive PollRequest
  | subscribe (scope : SubscribeScope) (since : Since)
  | unsubscribe (scope : SubscribeScope)

def PollRequest.scope : PollRequest → SubscribeScope
  | .subscribe scope _ | .unsubscribe scope => scope

/-- The step of the feed that a request takes. -/
def PollRequest.input (id : RequestId) : PollRequest → Feed.Input
  | .subscribe scope since => .subscribe id scope since
  | .unsubscribe scope => .unsubscribe id scope

/-- Why a poll failed. -/
inductive OpsError
  | invalid (reason : String)
  | client (error : ClientError)
  | rpc (error : RpcError)
  | shape

def OpsError.of : ClientError → OpsError
  | .rpc error => .rpc error
  | .closed => .client .closed

/-- Events collected by one poll, and where to resume from. -/
structure Polled where
  events : List Event
  lastSeq : Seq

/-- Where the caller stands. `start` is the position that the poll's subscription asked for. -/
inductive PollPhase
  /-- Between two polls. -/
  | resting
  /-- What is queued is dropped. -/
  | draining (max : Nat)
  | drained (max : Nat)
  | subscribing (max : Nat) (id : RequestId)
  | collecting (max : Nat) (start lastSeq : Seq) (events : List Event)
  | collected (start : Seq) (result : Except OpsError Polled)
  | unsubscribing (id : RequestId) (start : Seq) (result : Except OpsError Polled)

/-- A request that the daemon has taken, and whether it was begun. -/
structure Taken where
  id : RequestId
  request : PollRequest
  begun : Bool

/-- A caller that polls one scope over one connection. `since` is where its next poll starts,
and `polls` its results so far, each with the position that it started from. -/
structure Polling where
  feed : Feed
  /-- The daemon's planned restart, once there is one. -/
  lifecycle : Option UpgradeOperation
  serving : ReadPhase
  /-- How many of the client's frames the daemon has read. -/
  read : Nat
  requests : List Taken
  client : Client PollRequest
  scope : SubscribeScope
  since : Since
  phase : PollPhase
  polls : List (Seq × Polled)

namespace Polling

/-- A caller on a new connection. -/
def started (journal : Journal) (scope : SubscribeScope) (since : Since) : Polling where
  feed := Feed.started journal
  lifecycle := none
  serving := .reading
  read := 0
  requests := []
  client := Client.welcomed
  scope := scope
  since := since
  phase := .resting
  polls := []

/-! ## The daemon -/

/-- What the daemon's side does. -/
inductive DaemonInput
  /-- The writer, the tail or the subscription that holds the lock takes a step. -/
  | feed (input : Feed.Input)
  /-- The daemon plans its restart. -/
  | restart (operation : UpgradeOperation)
  /-- The read loop takes a frame. -/
  | take
  /-- A request is polled for the first time. -/
  | begin (id : RequestId)
  /-- A request that was begun takes the lock. -/
  | enter (id : RequestId)
  /-- The read loop announces the planned restart, and cuts the connection some time later. -/
  | announce
  | interrupt
  /-- The transport fails, or the client is gone. -/
  | hangup
  | treeDelta (delta : TreeDelta)

def without (polling : Polling) (id : RequestId) : Polling :=
  { polling with requests := polling.requests.filter fun taken => taken.id ≠ id }

/-- All requests are dropped, and the lock with them. -/
def cut (polling : Polling) : Polling :=
  { polling with
    serving := .ended, requests := [], feed := { polling.feed with lock := none } }

/-- The requests in flight. -/
def inFlight (polling : Polling) : List RequestId :=
  polling.requests.map Taken.id ++ (polling.feed.lock.map Subscribing.id).toList

variable (selects : SubscribeScope → Event → Bool)

/-- The steps of the feed that no request takes. -/
def unrequested : Feed.Input → Bool
  | .subscribe .. | .unsubscribe .. | .abort none => false
  | .abort (some _) => true
  | .commit _ | .publish | .receive | .deliver | .notice | .read | .readHead | .finish => true

/-- The steps that the daemon takes without the connection. -/
def detached : Feed.Input → Bool
  | .commit _ | .publish => true
  | .subscribe .. | .unsubscribe .. | .abort _ | .receive | .deliver | .notice | .read | .readHead
  | .finish => false

/-- A step on the daemon's side. -/
def daemon (polling : Polling) : DaemonInput → Polling
  | .feed input =>
    if unrequested input && (detached input || polling.serving ≠ .ended) then
      { polling with feed := polling.feed.step selects input }
    else polling
  | .restart operation => { polling with lifecycle := polling.lifecycle.or (some operation) }
  | .take =>
    match polling.client.out[polling.read]? with
    | some (.request id request) =>
      if polling.serving = .reading then
        { polling with
          read := polling.read + 1, requests := polling.requests ++ [⟨id, request, false⟩] }
      else polling
    | _ => polling
  | .begin id =>
    match polling.requests.find? fun taken => taken.id = id with
    | some taken =>
      if taken.begun then polling
      else match polling.lifecycle with
        | some operation =>
          let feed := polling.feed.post [.error id (.restarting operation.id)]
          { polling.without id with feed }
        | none =>
          { polling with
            requests := polling.requests.map fun other =>
              if other.id = id then { other with begun := true } else other }
    | none => polling
  | .enter id =>
    match polling.requests.find? fun taken => taken.id = id with
    | some ⟨_, request, true⟩ =>
      if polling.feed.lock = none then
        { polling.without id with feed := polling.feed.step selects (request.input id) }
      else polling
    | _ => polling
  | .announce =>
    match polling.serving, polling.lifecycle with
    | .reading, some operation =>
      { polling with
        serving := .draining operation, feed := polling.feed.post [.restarting operation] }
    | _, _ => polling
  | .interrupt =>
    match polling.serving with
    | .draining operation =>
      let feed := polling.feed.post (polling.inFlight.map fun id =>
        .error id (.restartInterrupted operation.id))
      { polling with feed }.cut
    | _ => polling
  | .hangup => polling.cut
  | .treeDelta delta =>
    if polling.serving = .ended then polling
    else { polling with feed := polling.feed.post [.treeDelta delta] }

/-! ## The caller -/

/-- What the caller does. -/
inductive CallerInput
  | poll (max : Nat)
  /-- A message is dropped, or there is none. -/
  | drain
  | subscribe
  /-- The outcome of the request is there. -/
  | subscribed
  | collect
  /-- The wait for messages is over. -/
  | expire
  | unsubscribe
  | unsubscribed

/-- A request is made; its number is the client's next. -/
def ask (polling : Polling) (request : PollRequest) : Polling :=
  { polling with client := polling.client.call .single request }

/-- A request's outcome, once there is one. -/
def outcome (polling : Polling) (id : RequestId) : Option (Except ClientError Response) :=
  (Client.outcomes polling.client.told id).head?

/-- What collecting an unsolicited message comes to: the events so far with the position of
the last, or the poll's result. -/
def gather (start lastSeq : Seq) (max : Nat) (events : List Event) : Unsolicited → PollPhase
  | .event event => .collecting max start event.seq (events ++ [event])
  | .lifecycle operation =>
    if events ≠ [] then .collected start (.ok ⟨events, lastSeq⟩)
    else .collected start (.error (.rpc (.restartInterrupted operation.id)))
  | .error (.seqTooOld oldest) =>
    .collected start (.error (.invalid
      ("since is older than the daemon's backlog; restart from " ++ toString oldest)))
  | .treeDelta _ | .error _ => .collecting max start lastSeq events

/-- A step of the caller. -/
def caller (polling : Polling) : CallerInput → Polling
  | .poll max =>
    match polling.phase with
    | .resting => { polling with phase := .draining max }
    | _ => polling
  | .drain =>
    match polling.phase with
    | .draining max =>
      if polling.client.unsolicited = [] then { polling with phase := .drained max }
      else { polling with client := polling.client.step .poll }
    | _ => polling
  | .subscribe =>
    match polling.phase with
    | .drained max =>
      { polling.ask (.subscribe polling.scope polling.since) with
        phase := .subscribing max polling.client.nextId }
    | _ => polling
  | .subscribed =>
    match polling.phase with
    | .subscribing max id =>
      match polling.outcome id with
      | some (.ok (.subscribed head)) =>
        let start := Feed.askedFrom polling.since head
        { polling with phase := .collecting max start start [] }
      -- The poll returns the error, or that the response has not the shape.
      | some _ => { polling with phase := .resting }
      | none => polling
    | _ => polling
  | .collect =>
    match polling.phase with
    | .collecting max start lastSeq events =>
      if events.length < max then
        match polling.client.unsolicited with
        | message :: _ =>
          { polling with
            client := polling.client.step .poll, phase := gather start lastSeq max events message }
        | [] =>
          if polling.client.io = .ended then
            { polling with phase := .collected start (.error (.client .closed)) }
          else polling
      else { polling with phase := .collected start (.ok ⟨events, lastSeq⟩) }
    | _ => polling
  | .expire =>
    match polling.phase with
    | .collecting _ start lastSeq events =>
      { polling with phase := .collected start (.ok ⟨events, lastSeq⟩) }
    | _ => polling
  | .unsubscribe =>
    match polling.phase with
    | .collected start result =>
      { polling.ask (.unsubscribe polling.scope) with
        phase := .unsubscribing polling.client.nextId start result }
    | _ => polling
  | .unsubscribed =>
    match polling.phase with
    | .unsubscribing id start result =>
      if (polling.outcome id).isSome then
        match result with
        | .ok polled =>
          { polling with
            phase := .resting, since := .after polled.lastSeq
            polls := polling.polls ++ [(start, polled)] }
        | .error _ => { polling with phase := .resting }
      else polling
    | _ => polling

/-! ## Runs -/

inductive Input
  | daemon (input : DaemonInput)
  /-- The client's task reads a message. -/
  | hear
  /-- Its reading or writing ends, and it cleans up. -/
  | fail
  | close
  | caller (input : CallerInput)

def step (polling : Polling) : Input → Polling
  | .daemon input => polling.daemon selects input
  | .hear =>
    match polling.feed.messages[polling.client.heard.length]? with
    | some msg => { polling with client := polling.client.step (.receive msg) }
    | none => polling
  | .fail => { polling with client := polling.client.step .fail }
  | .close => { polling with client := polling.client.step .close }
  | .caller input => polling.caller input

def run (polling : Polling) (inputs : List Input) : Polling := inputs.foldl (step selects) polling

end Polling

end Nits.Nitsd
