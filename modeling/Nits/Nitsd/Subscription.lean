import Nits.Logical.Run
import Nits.Logical.Window
import Nits.Protocol.Replay

/-!
# Subscriptions of one connection

The writer commits events and then publishes them in the same order. A connection's event
tail receives what is published, and delivers it to the active scopes that have not caught
up with it; a subscription replays the log under the lock that the tail waits for. What a
connection does between two awaits is one step here, because one task owns its requests,
its tail and its transport. `selects` stands for the daemon's matching of an event to a
scope, whose answer for a committed event is settled.
-/

namespace Nits.Nitsd

open Logical Protocol

/-- Published events kept for a receiver that has fallen behind. -/
def EVENT_BACKLOG : Nat := 4096

/-- The live-tail watermark of each active scope. -/
abbrev Cursors := List (SubscribeScope × Seq)

namespace Cursors

def others (scopes : Cursors) (scope : SubscribeScope) : Cursors :=
  scopes.filter fun entry => entry.1 ≠ scope

def insert (scopes : Cursors) (scope : SubscribeScope) (delivered : Seq) : Cursors :=
  scopes.others scope ++ [(scope, delivered)]

theorem mem_others {scopes : Cursors} {scope : SubscribeScope} {entry : SubscribeScope × Seq} :
    entry ∈ scopes.others scope ↔ entry ∈ scopes ∧ entry.1 ≠ scope := by
  simp [others]

end Cursors

/-- What happens on a connection: a message is sent, or a subscription takes effect. The
latter is kept for the record only, with the log's head when the subscription read it. -/
inductive Traffic
  | sent (msg : ServerMsg)
  | opened (scope : SubscribeScope) (since : Since) (head : Seq)

/-- A subscription that holds the lock. -/
structure Subscribing where
  id : RequestId
  scope : SubscribeScope
  since : Since
  /-- Where the replay starts; none reads the whole log. -/
  replayAfter : Option Seq
  /-- The events read, and the log's head when they were. -/
  events : Option (List Event × Seq)
  /-- The head that the scopes have caught up to. -/
  head : Option Seq

/-- Where the event tail stands. -/
inductive TailPhase
  | idle
  /-- An event was received; the tail waits for the lock. -/
  | holding
  /-- The receiver lagged; the tail reads the log's head to tell the client. -/
  | lagging
  deriving DecidableEq

/-- A connection and the daemon's event log behind it. -/
structure Feed where
  log : List Event
  /-- How many events were published, and how many the tail is through with. -/
  published : Nat
  handled : Nat
  tail : TailPhase
  scopes : Cursors
  lock : Option Subscribing
  /-- Everything so far, the last first. -/
  traffic : List Traffic

/-- The daemon's event log, and how much of it was published. -/
structure Journal where
  events : List Event
  published : Nat
  ordered : Ordered Event.seq events
  committed : published ≤ events.length

namespace Feed

/-- A connection observes broadcasts from its start on, before any subscription can run. -/
def started (journal : Journal) : Feed where
  log := journal.events
  published := journal.published
  handled := journal.published
  tail := .idle
  scopes := []
  lock := none
  traffic := []

/-- A step of the writer, the tail or a request. -/
inductive Input
  | commit (event : Event)
  | publish
  /-- The tail receives an event, or that it has lagged. -/
  | receive
  /-- The tail delivers the event that it holds. -/
  | deliver
  /-- The tail tells the client that it has lagged. -/
  | notice
  /-- A subscription takes the lock. -/
  | subscribe (id : RequestId) (scope : SubscribeScope) (since : Since)
  /-- It reads the log, and once more if there was nothing. -/
  | read
  | readHead
  /-- It replays and answers. -/
  | finish
  /-- A read is refused, or the request is cancelled. -/
  | abort (error : Option RpcError)
  | unsubscribe (id : RequestId) (scope : SubscribeScope)

def lastSeq (feed : Feed) : Seq := lastPosition Event.seq feed.log

/-- The messages, the last first. -/
def post (feed : Feed) (msgs : List ServerMsg) : Feed :=
  { feed with traffic := (msgs.map Traffic.sent).reverse ++ feed.traffic }

variable (selects : SubscribeScope → Event → Bool)

/-- The event is for an active scope that has not caught up with it. -/
def wants (scopes : Cursors) (event : Event) : Bool :=
  scopes.any fun entry => entry.2 < event.seq && selects entry.1 event

/-- The scopes that want the event have caught up with it. -/
def caughtUp (scopes : Cursors) (event : Event) : Cursors :=
  scopes.map fun entry =>
    if entry.2 < event.seq && selects entry.1 event then (entry.1, event.seq) else entry

def deliverLive (feed : Feed) (event : Event) : Feed :=
  { feed with
    scopes := caughtUp selects feed.scopes event
    traffic :=
      if wants selects feed.scopes event then .sent (.event event) :: feed.traffic
      else feed.traffic }

/-- Where a replay for a subscription starts: pending events of the other scopes are
included, whose live tail may be waiting for the lock. -/
def replayAfter (scopes : Cursors) (scope : SubscribeScope) (since : Since) : Option Seq :=
  let activeAfter := ((scopes.others scope).map Prod.snd).min?
  match since, activeAfter with
  | .after requested, some active => some (min requested active)
  | .after requested, none => some requested
  | .now, active => active

/-- The event is asked for by the subscription, or pending for another scope. -/
def replays (scopes : Cursors) (scope : SubscribeScope) (since : Since) (event : Event) : Bool :=
  let requested := match since with
    | .now => false
    | .after seq => seq < event.seq && selects scope event
  requested || wants selects (scopes.others scope) event

/-- Every event above a position, in order. -/
def eventsAfter (log : List Event) (after : Option Seq) : List Event :=
  log.filter fun event => after.elim true fun bound => bound < event.seq

/-- The head that a replay reaches, if it has read anything or started anywhere. -/
def headOf (events : List Event) (after : Option Seq) : Option Seq :=
  (events.getLast?.map Event.seq).or after

/-- The subscription's own watermark. -/
def requestedHead (since : Since) (head : Seq) : Seq :=
  match since with
  | .now => head
  | .after seq => max head seq

/-- Replay, raise every watermark to the head and answer with the scope's own. -/
def subscribed (feed : Feed) (subscribing : Subscribing) (events : List Event) (seen head : Seq) :
    Feed :=
  let own := requestedHead subscribing.since head
  let replayed := events.filter (replays selects feed.scopes subscribing.scope subscribing.since)
  let raised : Cursors := feed.scopes.map fun entry => (entry.1, max entry.2 head)
  let opened : Feed := { feed with
    lock := none
    scopes := raised.insert subscribing.scope own
    traffic := .opened subscribing.scope subscribing.since seen :: feed.traffic }
  (opened.post (replayed.map ServerMsg.event)).post [.response subscribing.id (.subscribed own)]

/-- One step of the feed. -/
def step (feed : Feed) : Input → Feed
  | .commit event =>
    if feed.lastSeq < event.seq then { feed with log := feed.log ++ [event] } else feed
  | .publish =>
    if feed.published < feed.log.length then { feed with published := feed.published + 1 } else feed
  | .receive =>
    if feed.tail = .idle ∧ feed.handled < feed.published then
      if EVENT_BACKLOG < feed.published - feed.handled then
        -- The oldest events are gone; the receiver skips to the first that is kept.
        { feed with handled := feed.published - EVENT_BACKLOG, tail := .lagging }
      else { feed with tail := .holding }
    else feed
  | .deliver =>
    if feed.tail = .holding ∧ feed.lock = none then
      match feed.log[feed.handled]? with
      | some event =>
        { feed with tail := .idle, handled := feed.handled + 1 }.deliverLive selects event
      | none => feed
    else feed
  | .notice =>
    if feed.tail = .lagging then
      let oldest := (feed.log.getLast?.map Event.seq).getD Seq.FIRST
      { feed with tail := .idle }.post [.error 0 (.seqTooOld oldest)]
    else feed
  | .subscribe id scope since =>
    if feed.lock = none then
      { feed with
        lock := some ⟨id, scope, since, replayAfter feed.scopes scope since, none, none⟩ }
    else feed
  | .read =>
    match feed.lock with
    | some ⟨id, scope, since, after, none, _⟩ =>
      let events := eventsAfter feed.log after
      { feed with
        lock := some ⟨id, scope, since, after, some (events, feed.lastSeq), headOf events after⟩ }
    | _ => feed
  | .readHead =>
    match feed.lock with
    | some ⟨id, scope, since, after, some (events, _), none⟩ =>
      { feed with
        lock := some ⟨id, scope, since, after, some (events, feed.lastSeq), some feed.lastSeq⟩ }
    | _ => feed
  | .finish =>
    match feed.lock with
    | some ⟨id, scope, since, after, some (events, seen), some head⟩ =>
      feed.subscribed selects ⟨id, scope, since, after, some (events, seen), some head⟩ events seen
        head
    | _ => feed
  | .abort error =>
    match feed.lock with
    | some subscribing =>
      { feed with lock := none }.post (error.toList.map (ServerMsg.error subscribing.id))
    | none => feed
  | .unsubscribe id scope =>
    if feed.lock = none then
      { feed with scopes := feed.scopes.others scope }.post
        [.response id (.unasked "Unsubscribed")]
    else feed

/-- Steps one after another. -/
def run (feed : Feed) (inputs : List Input) : Feed := inputs.foldl (step selects) feed

/-! ## What was sent -/

/-- The events sent, the last first. -/
def eventsOf : List Traffic → List Event
  | [] => []
  | .sent (.event event) :: earlier => event :: eventsOf earlier
  | _ :: earlier => eventsOf earlier

/-- The position that a subscription asks for, given the log's head. -/
def askedFrom (since : Since) (head : Seq) : Seq :=
  match since with
  | .now => head
  | .after seq => seq

/-- A scope's last subscription: the position it asked for, or the head when it asked for
new events only, and the events sent since, the last first. -/
def subscription (scope : SubscribeScope) : List Traffic → Option (Seq × List Event)
  | [] => none
  | .opened other since head :: earlier =>
    if other = scope then some (askedFrom since head, []) else subscription scope earlier
  | .sent (.event event) :: earlier =>
    (subscription scope earlier).map fun last => (last.1, event :: last.2)
  | .sent _ :: earlier => subscription scope earlier

/-- The events sent since a subscription last asked to rewind to before a position. -/
def unrewound (seq : Seq) : List Traffic → List Event
  | [] => []
  | .opened _ (.after requested) _ :: earlier =>
    if requested < seq then [] else unrewound seq earlier
  | .opened _ .now _ :: earlier => unrewound seq earlier
  | .sent (.event event) :: earlier => event :: unrewound seq earlier
  | .sent _ :: earlier => unrewound seq earlier

/-- Each event is above every event sent since a subscription asked for it, and each
subscription's answer bounds every event before it. -/
def Ascends : List Traffic → Prop
  | [] => True
  | .sent (.event event) :: earlier =>
    (∀ before ∈ unrewound event.seq earlier, before.seq < event.seq) ∧ Ascends earlier
  | .sent (.response _ (.subscribed seq)) :: earlier =>
    (∀ before ∈ eventsOf earlier, before.seq ≤ seq) ∧ Ascends earlier
  | _ :: earlier => Ascends earlier

/-- Every event for an active scope that is above what the scope was last subscribed with
was sent since, as far as the tail is through with the log. -/
def Complete (feed : Feed) : Prop :=
  ∀ entry ∈ feed.scopes, ∃ last, subscription entry.1 feed.traffic = some last ∧
    ∀ event ∈ feed.log.take feed.handled, selects entry.1 event → last.1 < event.seq →
      event ∈ last.2

/-! ## Replays in the record -/

section Record

variable {scope : SubscribeScope} {seq : Seq} {events : List Event} {record : List Traffic}

/-- The record after the events were sent. -/
def replayed (events : List Event) (record : List Traffic) : List Traffic :=
  ((events.map ServerMsg.event).map Traffic.sent).reverse ++ record

@[simp] theorem replayed_nil : replayed [] record = record := rfl

@[simp] theorem replayed_concat {event : Event} :
    replayed (events ++ [event]) record = .sent (.event event) :: replayed events record := by
  simp [replayed]

@[simp] theorem eventsOf_replayed :
    eventsOf (replayed events record) = events.reverse ++ eventsOf record := by
  induction events using List.reverseRecOn with
  | nil => rfl
  | append_singleton events event ih => simp [eventsOf, ih]

theorem subscription_opened {other : SubscribeScope} {since : Since} {head : Seq} :
    subscription scope (.opened other since head :: record) =
      if other = scope then some (askedFrom since head, []) else subscription scope record :=
  rfl

@[simp] theorem subscription_replayed : subscription scope (replayed events record) =
    (subscription scope record).map fun last => (last.1, events.reverse ++ last.2) := by
  induction events using List.reverseRecOn with
  | nil => simp
  | append_singleton events event ih =>
    rw [replayed_concat, subscription, ih, Option.map_map]
    simp [Function.comp_def]

@[simp] theorem unrewound_replayed :
    unrewound seq (replayed events record) = events.reverse ++ unrewound seq record := by
  induction events using List.reverseRecOn with
  | nil => rfl
  | append_singleton events event ih => simp [unrewound, ih]

theorem unrewound_subset : unrewound seq record ⊆ eventsOf record := by
  fun_induction unrewound seq record with
  | case1 => exact List.Subset.refl _
  | case2 => exact List.nil_subset _
  | case3 _ _ _ _ _ ih => exact ih
  | case4 _ _ _ ih => exact ih
  | case5 _ _ ih => exact List.cons_subset_cons _ ih
  | case6 _ _ other ih =>
    rw [eventsOf]
    · exact ih
    · simpa using other

theorem ascends_replayed (ordered : Ordered Event.seq events)
    (above : ∀ event ∈ events, ∀ before ∈ unrewound event.seq record, before.seq < event.seq)
    (ascends : Ascends record) : Ascends (replayed events record) := by
  induction events using List.reverseRecOn with
  | nil => exact ascends
  | append_singleton events event ih =>
    obtain ⟨ordered, last⟩ := ordered_concat.mp ordered
    have early := ih ordered fun other mem => above other (List.mem_append_left _ mem)
    rw [replayed_concat]
    refine ⟨fun before mem => ?_, early⟩
    rw [unrewound_replayed, List.mem_append, List.mem_reverse] at mem
    exact mem.elim (last before) (above event (by simp) before)

end Record

end Feed

end Nits.Nitsd
