import Mathlib.Data.List.TakeWhile
import Nits.Nitsd.Client
import Nits.Nitsd.Delivered

/-!
# What the only subscription of a connection sends

Where no scope is active no event is sent. From a subscription's replay on, the events of its
scope are sent in order and without a gap, up to where the tail tells that it has lagged: what
it tells comes before anything that it could have missed.
-/

namespace Nits.Nitsd

open Logical Protocol

/-! ## What reaches the caller -/

namespace Client

/-- What a message leaves in the queue. -/
def unsolicitedOf : ServerMsg → Option Unsolicited
  | .restarting operation => some (.lifecycle operation)
  | .error id error => if id = 0 then some (.error error) else none
  | .event event => some (.event event)
  | .treeDelta delta => some (.treeDelta delta)
  | .response .. | .streamItem .. | .streamEnd _ | .welcome | .rejected _ => none

/-- What handing a message to a client that is not closed changes. -/
structure Dispatched {α : Type} (before after : Client α) (msg : ServerMsg) : Prop where
  unsolicited : after.unsolicited = before.unsolicited ++ (unsolicitedOf msg).toList
  opened : after.state ≠ .closed
  nextId : after.nextId = before.nextId
  out : after.out = before.out
  io : after.io = before.io
  heard : after.heard = before.heard

theorem dispatched {α : Type} {client : Client α} (opened : client.state ≠ .closed)
    (msg : ServerMsg) : Dispatched client (client.dispatch msg) msg := by
  unfold Client.dispatch
  split
  next closed => exact absurd closed opened
  next pending open_ =>
    have quiet {after : Client α} (none_ : unsolicitedOf msg = none)
        (same : after.unsolicited = client.unsolicited) :
        after.unsolicited = client.unsolicited ++ (unsolicitedOf msg).toList := by
      rw [same, none_, Option.toList_none, List.append_nil]
    cases msg with
    | error id error =>
      by_cases none_ : id = 0
      · simp only [none_, if_true]
        exact ⟨rfl, opened, rfl, rfl, rfl, rfl⟩
      · simp only [none_, if_false]
        have unheard : unsolicitedOf (.error id error) = none := if_neg none_
        split
        · exact ⟨quiet unheard rfl, nofun, rfl, rfl, rfl, rfl⟩
        · exact ⟨quiet unheard rfl, opened, rfl, rfl, rfl, rfl⟩
        · exact ⟨quiet unheard rfl, opened, rfl, rfl, rfl, rfl⟩
    | response id response =>
      dsimp only
      split <;> exact ⟨quiet rfl rfl, nofun, rfl, rfl, rfl, rfl⟩
    | streamItem id item =>
      dsimp only
      split <;> exact ⟨quiet rfl rfl, opened, rfl, rfl, rfl, rfl⟩
    | streamEnd id =>
      dsimp only
      split <;> exact ⟨quiet rfl rfl, nofun, rfl, rfl, rfl, rfl⟩
    | restarting operation => exact ⟨rfl, opened, rfl, rfl, rfl, rfl⟩
    | event event => exact ⟨rfl, opened, rfl, rfl, rfl, rfl⟩
    | treeDelta delta => exact ⟨rfl, opened, rfl, rfl, rfl, rfl⟩
    | welcome => exact ⟨quiet rfl rfl, opened, rfl, rfl, rfl, rfl⟩
    | rejected error => exact ⟨quiet rfl rfl, opened, rfl, rfl, rfl, rfl⟩

/-- The daemon tells that its tail has lagged. -/
def lagged : Unsolicited → Bool
  | .error (.seqTooOld _) => true
  | _ => false

def eventOf : Unsolicited → Option Event
  | .event event => some event
  | _ => none

/-- The events before the first notice that the tail has lagged. -/
def flow (arrived : List Unsolicited) : List Event :=
  (arrived.takeWhile fun message => !lagged message).filterMap eventOf

/-- No notice that the tail has lagged is among some messages. -/
def Smooth (arrived : List Unsolicited) : Prop := ∀ message ∈ arrived, lagged message = false

section Flow

variable {arrived more : List Unsolicited}

theorem flow_eq_nil (mute : ∀ event, .event event ∉ arrived) : flow arrived = [] := by
  refine List.filterMap_eq_nil_iff.mpr fun message mem => ?_
  have listed := (List.takeWhile_sublist _).subset mem
  cases message with
  | event event => exact absurd listed (mute event)
  | lifecycle | treeDelta | error => rfl

theorem Smooth.flow (smooth : Smooth arrived) : flow arrived = arrived.filterMap eventOf := by
  unfold Client.flow
  rw [List.takeWhile_eq_self_iff.mpr fun message mem => by simp [smooth message mem]]

theorem Smooth.flow_append (smooth : Smooth arrived) :
    Client.flow (arrived ++ more) = arrived.filterMap eventOf ++ Client.flow more := by
  unfold Client.flow
  rw [List.takeWhile_append_of_pos fun message mem => by simp [smooth message mem],
    List.filterMap_append]

/-- What comes after a notice is not part of the flow. -/
theorem flow_append_of_lagged (rough : ¬ Smooth arrived) :
    flow (arrived ++ more) = flow arrived := by
  obtain ⟨message, mem, told⟩ : ∃ message ∈ arrived, lagged message = true := by
    simpa [Smooth] using rough
  have stops : (arrived.takeWhile fun message => !lagged message).length ≠ arrived.length := by
    intro same
    have all := List.takeWhile_eq_self_iff.mp
      ((List.takeWhile_prefix fun message => !lagged message).eq_of_length same)
    simpa [told] using all message mem
  unfold flow
  rw [List.takeWhile_append, if_neg stops]

theorem smooth_append : Smooth (arrived ++ more) ↔ Smooth arrived ∧ Smooth more := by
  simp [Smooth, or_imp, forall_and]

theorem smooth_events (events : List Event) : Smooth (events.map Unsolicited.event) := by
  intro message mem
  obtain ⟨event, _, rfl⟩ := List.mem_map.mp mem
  rfl

theorem filterMap_eventOf (events : List Event) :
    (events.map Unsolicited.event).filterMap eventOf = events := by
  simp [List.filterMap_map, Function.comp_def, eventOf]

end Flow

end Client

/-! ## The feed -/

namespace Feed

variable (selects : SubscribeScope → Event → Bool)

/-- The messages sent, the first first. -/
def messages (feed : Feed) : List ServerMsg :=
  (feed.traffic.filterMap fun
    | .sent msg => some msg
    | .opened .. => none).reverse

theorem unsolicited_events (events : List Event) :
    (events.map ServerMsg.event).filterMap Client.unsolicitedOf = events.map Unsolicited.event := by
  rw [List.filterMap_map, ← List.filterMap_eq_map]
  rfl

theorem unsolicited_response (id : RequestId) (response : Response) :
    [ServerMsg.response id response].filterMap Client.unsolicitedOf = [] :=
  rfl

theorem unsolicited_event {msgs : List ServerMsg} {event : Event}
    (mem : .event event ∈ msgs.filterMap Client.unsolicitedOf) : .event event ∈ msgs := by
  obtain ⟨msg, listed, same⟩ := List.mem_filterMap.mp mem
  cases msg with
  | event other =>
    obtain rfl := Unsolicited.event.inj (Option.some.inj same)
    exact listed
  | error id error =>
    simp only [Client.unsolicitedOf] at same
    split at same <;> cases same
  | restarting | treeDelta | response | streamItem | streamEnd | welcome | rejected => cases same

/-- A message that is no event, no notice of the tail and under no request's number. -/
def Aside (msg : ServerMsg) : Prop :=
  (∃ operation, msg = .restarting operation) ∨ ∃ delta, msg = .treeDelta delta

/-- What the writer, the tail and the read loop do to a feed. -/
inductive Drift (feed : Feed) : Feed → Prop
  | still : Drift feed feed
  | committed (event : Event) : feed.lastSeq < event.seq →
    Drift feed { feed with log := feed.log ++ [event] }
  | published : feed.published < feed.log.length →
    Drift feed { feed with published := feed.published + 1 }
  | held : feed.tail = .idle → feed.handled < feed.published →
    Drift feed { feed with tail := .holding }
  | lagged : EVENT_BACKLOG < feed.published - feed.handled →
    Drift feed { feed with handled := feed.published - EVENT_BACKLOG, tail := .lagging }
  | delivered (event : Event) : feed.tail = .holding → feed.lock = none →
    feed.log[feed.handled]? = some event →
    Drift feed ({ feed with
      tail := .idle, handled := feed.handled + 1 }.deliverLive selects event)
  | noticed (oldest : Seq) : feed.tail = .lagging →
    Drift feed ({ feed with tail := .idle }.post [.error 0 (.seqTooOld oldest)])
  | aside (msg : ServerMsg) : Aside msg → Drift feed (feed.post [msg])

/-- The writer's steps and the tail's. -/
def alone : Input → Bool
  | .commit _ | .publish | .receive | .deliver | .notice => true
  | .subscribe .. | .read | .readHead | .finish | .abort _ | .unsubscribe .. => false

theorem drift_step (feed : Feed) {input : Input} (alone_ : alone input = true) :
    Drift selects feed (feed.step selects input) := by
  cases input with
  | commit event =>
    simp only [step]
    split
    next later => exact .committed event later
    · exact .still
  | publish =>
    simp only [step]
    split
    next room => exact .published room
    · exact .still
  | receive =>
    simp only [step]
    split
    next behind =>
      split
      next far => exact .lagged far
      · exact .held behind.1 behind.2
    · exact .still
  | deliver =>
    simp only [step]
    split
    next holding =>
      split
      next event next_ => exact .delivered event holding.1 holding.2 next_
      · exact .still
    · exact .still
  | notice =>
    simp only [step]
    split
    next lagging => exact .noticed _ lagging
    · exact .still
  | subscribe | read | readHead | finish | abort | unsubscribe => cases alone_

/-- What came after the first `mark` messages and under no request's number. -/
def arrivals (feed : Feed) (mark : Nat) : List Unsolicited :=
  (feed.messages.drop mark).filterMap Client.unsolicitedOf

/-- Where the log, the published events and the tail stand. -/
structure Ranged (feed : Feed) : Prop where
  ordered : Ordered Event.seq feed.log
  published : feed.published ≤ feed.log.length
  handled : feed.handled ≤ feed.published
  holding : feed.tail = .holding → feed.handled < feed.published

section Messages

variable {feed : Feed} {selects} {event : Event} {mark : Nat}

@[simp] theorem messages_post (msgs : List ServerMsg) :
    (feed.post msgs).messages = feed.messages ++ msgs := by
  simp [messages, post, List.filterMap_append, List.filterMap_reverse, List.filterMap_map]

theorem messages_deliverLive (selects : SubscribeScope → Event → Bool) (feed : Feed)
    (event : Event) : (feed.deliverLive selects event).messages =
    feed.messages ++ if wants selects feed.scopes event then [.event event] else [] := by
  unfold deliverLive messages
  split <;> simp

theorem messages_subscribed (selects : SubscribeScope → Event → Bool) (feed : Feed)
    (subscribing : Subscribing) (events : List Event) (seen head : Seq) :
    (feed.subscribed selects subscribing events seen head).messages = feed.messages ++
      (events.filter (replays selects feed.scopes subscribing.scope subscribing.since)).map
        ServerMsg.event ++
      [.response subscribing.id (.subscribed (requestedHead subscribing.since head))] := by
  simp only [subscribed, messages_post]
  congr 2

theorem arrivals_grown {other : Feed} {msgs : List ServerMsg} (within : mark ≤ feed.messages.length)
    (grown : other.messages = feed.messages ++ msgs) :
    other.arrivals mark = feed.arrivals mark ++ msgs.filterMap Client.unsolicitedOf := by
  rw [arrivals, grown, List.drop_append_of_le_length within, List.filterMap_append, arrivals]

end Messages

section Drifts

variable {selects} {feed after : Feed} {mark : Nat}

/-- A drift only adds messages: events of active scopes, notices of the tail and asides. -/
theorem Drift.messages (drift : Drift selects feed after) :
    ∃ msgs, after.messages = feed.messages ++ msgs ∧ ∀ msg ∈ msgs,
      (∃ event, msg = .event event ∧ wants selects feed.scopes event = true) ∨
      (∃ oldest, msg = .error 0 (.seqTooOld oldest)) ∨ Aside msg := by
  cases drift with
  | still | committed | published | held | lagged =>
    refine ⟨[], ?_, fun _ mem => absurd mem List.not_mem_nil⟩
    simp only [List.append_nil, Feed.messages]
  | delivered event holding unlocked next_ =>
    refine ⟨_, messages_deliverLive _ _ _, fun msg mem => ?_⟩
    split at mem
    next wanted => exact .inl ⟨event, List.mem_singleton.mp mem, wanted⟩
    · cases mem
  | noticed oldest lagging =>
    refine ⟨_, messages_post _, fun msg mem => ?_⟩
    exact .inr (.inl ⟨oldest, List.mem_singleton.mp mem⟩)
  | aside msg aside_ =>
    refine ⟨_, messages_post _, fun other mem => ?_⟩
    rw [List.mem_singleton.mp mem]
    exact .inr (.inr aside_)

theorem Drift.marked (drift : Drift selects feed after) (marked : mark ≤ feed.messages.length) :
    mark ≤ after.messages.length := by
  obtain ⟨msgs, grown, _⟩ := drift.messages
  rw [grown, List.length_append]
  exact Nat.le_add_right_of_le marked

theorem Drift.lock (drift : Drift selects feed after) : after.lock = feed.lock := by
  cases drift <;> rfl

/-- The active scopes stay the same. -/
theorem Drift.scopes (drift : Drift selects feed after) :
    after.scopes.map Prod.fst = feed.scopes.map Prod.fst := by
  cases drift with
  | delivered event =>
    simp only [deliverLive, caughtUp, List.map_map]
    refine List.map_congr_left fun entry _ => ?_
    simp only [Function.comp_apply]
    split <;> rfl
  | still | committed | published | held | lagged | noticed | aside => rfl

theorem Drift.ranged (drift : Drift selects feed after) (ranged : feed.Ranged) : after.Ranged := by
  cases drift with
  | still | aside => exact ⟨ranged.ordered, ranged.published, ranged.handled, ranged.holding⟩
  | committed event later =>
    refine ⟨?_, ?_, ranged.handled, ranged.holding⟩
    · refine ordered_concat.mpr ⟨ranged.ordered, fun old mem => ?_⟩
      exact Nat.lt_of_le_of_lt (le_lastSeq ranged.ordered mem) later
    · rw [List.length_append]
      exact Nat.le_add_right_of_le ranged.published
  | published room =>
    refine ⟨ranged.ordered, room, Nat.le_succ_of_le ranged.handled, fun holding => ?_⟩
    exact Nat.lt_succ_of_lt (ranged.holding holding)
  | held idle behind => exact ⟨ranged.ordered, ranged.published, ranged.handled, fun _ => behind⟩
  | lagged far => exact ⟨ranged.ordered, ranged.published, Nat.sub_le _ _, nofun⟩
  | delivered event holding =>
    exact ⟨ranged.ordered, ranged.published, ranged.holding holding, nofun⟩
  | noticed => exact ⟨ranged.ordered, ranged.published, ranged.handled, nofun⟩

theorem Drift.lastSeq_le (drift : Drift selects feed after) : feed.lastSeq ≤ after.lastSeq := by
  cases drift with
  | committed event later =>
    have last : lastPosition Event.seq (feed.log ++ [event]) = event.seq := lastPosition_concat
    change feed.lastSeq ≤ lastPosition Event.seq (feed.log ++ [event])
    rw [last]
    exact Nat.le_of_lt later
  | still | published | held | lagged | delivered | noticed | aside =>
    change lastPosition Event.seq feed.log ≤ lastPosition Event.seq feed.log
    exact Nat.le_refl _

end Drifts

/-! ## Before a subscription -/

/-- No scope is active, and no event was sent after the first `mark` messages. -/
structure Silent (feed : Feed) (mark : Nat) : Prop where
  within : mark ≤ feed.messages.length
  inactive : feed.scopes = []
  mute : ∀ event, .event event ∉ feed.messages.drop mark

section Silence

variable {selects} {feed after : Feed} {mark : Nat}

theorem Silent.posted (silent : feed.Silent mark) {msgs : List ServerMsg}
    (grown : after.messages = feed.messages ++ msgs) (scopes : after.scopes = feed.scopes)
    (mute : ∀ event, .event event ∉ msgs) : after.Silent mark := by
  refine ⟨?_, scopes.trans silent.inactive, fun event => ?_⟩
  · rw [grown, List.length_append]
    exact Nat.le_add_right_of_le silent.within
  · rw [grown, List.drop_append_of_le_length silent.within, List.mem_append]
    exact not_or.mpr ⟨silent.mute event, mute event⟩

theorem Silent.drift (silent : feed.Silent mark) (drift : Drift selects feed after) :
    after.Silent mark := by
  obtain ⟨msgs, grown, only⟩ := drift.messages
  have inactive : after.scopes = feed.scopes := by
    have keys := drift.scopes
    rw [silent.inactive] at keys ⊢
    exact List.map_eq_nil_iff.mp keys
  refine silent.posted grown inactive fun event mem => ?_
  rcases only _ mem with ⟨other, _, wanted⟩ | ⟨oldest, same⟩ | ⟨_, same⟩ | ⟨_, same⟩
  · rw [silent.inactive] at wanted
    cases wanted
  all_goals cases same

/-- Nothing was sent beyond a later mark either. -/
theorem Silent.later (silent : feed.Silent mark) {later : Nat} (further : mark ≤ later)
    (within : later ≤ feed.messages.length) : feed.Silent later := by
  refine ⟨within, silent.inactive, fun event mem => silent.mute event ?_⟩
  exact (List.drop_subset_drop_left _ further) mem

end Silence

/-! ## From a subscription on -/

variable (selects : SubscribeScope → Event → Bool)

/-- The committed events of a scope. -/
def chosen (feed : Feed) (scope : SubscribeScope) : List Event := feed.log.filter (selects scope)

/-- A position that a scope has caught up to: it is the first, or it is in the log. -/
structure Within (feed : Feed) (start through : Seq) : Prop where
  from_ : start ≤ through
  known : through = start ∨ through ≤ feed.lastSeq

/-- After the first `mark` messages, the events of a scope above `start` are sent in order,
up to a notice that the tail has lagged. -/
structure Flows (feed : Feed) (scope : SubscribeScope) (start : Seq) (mark : Nat) : Prop where
  marked : mark ≤ feed.messages.length
  front : ∃ through, feed.Within start through ∧
    Client.flow (feed.arrivals mark) =
      window Event.seq start through (feed.chosen selects scope) ∧
    (Client.Smooth (feed.arrivals mark) → feed.tail ≠ .lagging →
      feed.scopes = [(scope, through)] ∧
      ∀ event ∈ feed.log.take feed.handled, selects scope event → event.seq ≤ through)

section Flowing

variable {selects} {feed after : Feed} {mark : Nat} {scope : SubscribeScope}
  {start through : Seq} {event : Event}

theorem Ranged.chosen_ordered (ranged : feed.Ranged) :
    Ordered Event.seq (feed.chosen selects scope) :=
  ranged.ordered.sublist List.filter_sublist

theorem Within.later (within : feed.Within start through) (further : feed.lastSeq ≤ after.lastSeq) :
    after.Within start through :=
  ⟨within.from_, within.known.imp_right (Nat.le_trans · further)⟩

/-- A commit adds nothing to what a scope has caught up with. -/
theorem Within.window_commit (within : feed.Within start through)
    (later : feed.lastSeq < event.seq) :
    window Event.seq start through (Feed.chosen selects { feed with
      log := feed.log ++ [event] } scope) =
      window Event.seq start through (feed.chosen selects scope) := by
  simp only [chosen, List.filter_append]
  rcases within.known with rfl | known
  · rw [window_eq_nil (Nat.le_refl _), window_eq_nil (Nat.le_refl _)]
  · refine window_grown fun entry mem => ?_
    rw [List.mem_singleton.mp (List.mem_filter.mp mem).1]
    exact Nat.lt_of_le_of_lt known later

theorem Within.window_drift (within : feed.Within start through)
    (drift : Drift selects feed after) :
    window Event.seq start through (after.chosen selects scope) =
      window Event.seq start through (feed.chosen selects scope) := by
  cases drift with
  | committed event later => exact within.window_commit later
  | still | published | held | lagged | noticed | aside => simp only [chosen, post]
  | delivered => simp only [chosen, deliverLive]

/-- The tail comes to an event of the scope: it is the next of the scope. -/
theorem window_next (ranged : feed.Ranged) (next_ : feed.log[feed.handled]? = some event)
    (reached : ∀ early ∈ feed.log.take feed.handled, selects scope early → early.seq ≤ through)
    (wanted : selects scope event) (from_ : start ≤ through) (above : through < event.seq) :
    window Event.seq start event.seq (feed.chosen selects scope) =
      window Event.seq start through (feed.chosen selects scope) ++ [event] := by
  have split : feed.log = feed.log.take feed.handled ++ event :: feed.log.drop (feed.handled + 1) := by
    have whole := (List.take_append_drop (feed.handled + 1) feed.log).symm
    rwa [take_handled next_, List.append_assoc, List.singleton_append] at whole
  have sorted := ranged.ordered
  rw [split] at sorted
  have beyond : ∀ late ∈ feed.log.drop (feed.handled + 1), event.seq < late.seq :=
    (ordered_cons.mp (ordered_append.mp sorted).2.1).1
  have parts : feed.chosen selects scope = (feed.log.take feed.handled).filter (selects scope) ++
      event :: (feed.log.drop (feed.handled + 1)).filter (selects scope) := by
    unfold chosen
    conv_lhs => rw [split]
    rw [List.filter_append, List.filter_cons_of_pos wanted]
  have early : window Event.seq start event.seq
      ((feed.log.take feed.handled).filter (selects scope)) =
      window Event.seq start through ((feed.log.take feed.handled).filter (selects scope)) := by
    refine List.filter_congr fun other mem => ?_
    obtain ⟨listed, chosen_⟩ := List.mem_filter.mp mem
    have low := reached other listed chosen_
    have widen : other.seq ≤ through → other.seq ≤ event.seq :=
      fun short => Nat.le_trans short (Nat.le_of_lt above)
    exact decide_eq_decide.mpr ⟨fun both => ⟨both.1, low⟩, fun both => ⟨both.1, widen both.2⟩⟩
  have late (bound : Seq) (short : bound ≤ event.seq) : window Event.seq start bound
      ((feed.log.drop (feed.handled + 1)).filter (selects scope)) = [] := by
    refine window_beyond fun other mem => ?_
    exact Nat.lt_of_le_of_lt short (beyond other (List.mem_filter.mp mem).1)
  have inside : start < event.seq ∧ event.seq ≤ event.seq :=
    ⟨Nat.lt_of_le_of_lt from_ above, Nat.le_refl _⟩
  have outside : ¬ (start < event.seq ∧ event.seq ≤ through) := fun both =>
    Nat.not_lt.mpr both.2 above
  rw [parts, window_append, window_append, early]
  have rest := late event.seq (Nat.le_refl _)
  have none_ := late through (Nat.le_of_lt above)
  unfold window at rest none_ ⊢
  rw [List.filter_cons_of_pos (by simpa using inside), List.filter_cons_of_neg (by simpa using outside),
    rest, none_, List.append_nil]

/-- Nothing is added to the flow, and the scopes and what the tail is through with stay as
they were, unless the tail has lagged. -/
structure Calm (feed after : Feed) (mark : Nat) : Prop where
  flow : Client.flow (after.arrivals mark) = Client.flow (feed.arrivals mark)
  steady : Client.Smooth (after.arrivals mark) → after.tail ≠ .lagging →
    Client.Smooth (feed.arrivals mark) ∧ feed.tail ≠ .lagging ∧ after.scopes = feed.scopes ∧
    after.log.take after.handled = feed.log.take feed.handled

theorem calm_posted {msgs : List ServerMsg} (marked : mark ≤ feed.messages.length)
    (grown : after.messages = feed.messages ++ msgs) (mute : ∀ event, .event event ∉ msgs)
    (steady : Client.Smooth (msgs.filterMap Client.unsolicitedOf) → after.tail ≠ .lagging →
      feed.tail ≠ .lagging ∧ after.scopes = feed.scopes ∧
      after.log.take after.handled = feed.log.take feed.handled) : Calm feed after mark := by
  have arrived := arrivals_grown marked grown
  have quiet : Client.flow (msgs.filterMap Client.unsolicitedOf) = [] :=
    Client.flow_eq_nil fun event mem => mute event (unsolicited_event mem)
  refine ⟨?_, fun smooth awake => ?_⟩
  · rw [arrived]
    by_cases smooth : Client.Smooth (feed.arrivals mark)
    · rw [smooth.flow_append, smooth.flow, quiet, List.append_nil]
    · exact Client.flow_append_of_lagged smooth
  · rw [arrived, Client.smooth_append] at smooth
    exact ⟨smooth.1, steady smooth.2 awake⟩

theorem calm_unsaid (marked : mark ≤ feed.messages.length) (same : after.messages = feed.messages)
    (steady : after.tail ≠ .lagging → feed.tail ≠ .lagging ∧ after.scopes = feed.scopes ∧
      after.log.take after.handled = feed.log.take feed.handled) : Calm feed after mark :=
  calm_posted marked (same.trans (List.append_nil _).symm) (fun _ => List.not_mem_nil)
    fun _ => steady

/-- A drift is calm, or the tail delivers an event. -/
theorem Drift.calm (drift : Drift selects feed after) (ranged : feed.Ranged)
    (marked : mark ≤ feed.messages.length) : Calm feed after mark ∨
      ∃ event, feed.tail = .holding ∧ feed.lock = none ∧ feed.log[feed.handled]? = some event ∧
        after = { feed with tail := .idle, handled := feed.handled + 1 }.deliverLive selects event := by
  cases drift with
  | delivered event holding unlocked next_ => exact .inr ⟨event, holding, unlocked, next_, rfl⟩
  | still => exact .inl (calm_unsaid marked rfl fun awake => ⟨awake, rfl, rfl⟩)
  | committed event later =>
    refine .inl (calm_unsaid marked rfl fun awake => ⟨awake, rfl, ?_⟩)
    exact List.take_append_of_le_length (Nat.le_trans ranged.handled ranged.published)
  | published room => exact .inl (calm_unsaid marked rfl fun awake => ⟨awake, rfl, rfl⟩)
  | held idle behind => exact .inl (calm_unsaid marked rfl fun _ => ⟨by simp [idle], rfl, rfl⟩)
  | lagged far =>
    refine .inl (calm_unsaid marked ?_ fun awake => absurd rfl awake)
    simp only [Feed.messages]
  | noticed oldest lagging =>
    refine .inl (calm_posted marked (messages_post _) (by simp) fun smooth => ?_)
    exact absurd (smooth (.error (.seqTooOld oldest)) (by simp [Client.unsolicitedOf])) nofun
  | aside msg aside_ =>
    refine .inl (calm_posted marked (messages_post _) (fun event mem => ?_)
      fun _ awake => ⟨awake, rfl, rfl⟩)
    rcases aside_ with ⟨_, rfl⟩ | ⟨_, rfl⟩ <;> cases List.mem_singleton.mp mem

/-- What the tail has told cannot be untold, and what it sends later is not in the flow. -/
theorem Flows.rough (flows : feed.Flows selects scope start mark) (drift : Drift selects feed after)
    (rough : ¬ Client.Smooth (feed.arrivals mark)) : after.Flows selects scope start mark := by
  obtain ⟨through, within, front, _⟩ := flows.front
  obtain ⟨msgs, grown, _⟩ := drift.messages
  have arrived := arrivals_grown flows.marked grown
  refine ⟨drift.marked flows.marked, through, within.later drift.lastSeq_le, ?_, fun smooth => ?_⟩
  · rw [within.window_drift drift, ← front, arrived, Client.flow_append_of_lagged rough]
  · rw [arrived, Client.smooth_append] at smooth
    exact absurd smooth.1 rough

/-- The tail comes to one more event. -/
theorem Flows.deliver (flows : feed.Flows selects scope start mark) (ranged : feed.Ranged)
    (holding : feed.tail = .holding) (unlocked : feed.lock = none)
    (next_ : feed.log[feed.handled]? = some event) :
    Flows selects ({ feed with
      tail := .idle, handled := feed.handled + 1 }.deliverLive selects event) scope start mark := by
  have drift : Drift selects feed _ := .delivered event holding unlocked next_
  by_cases smooth : Client.Smooth (feed.arrivals mark)
  · obtain ⟨through, within, front, settled⟩ := flows.front
    obtain ⟨scopes, reached⟩ := settled smooth (by simp [holding])
    have marked := drift.marked flows.marked
    have grown := messages_deliverLive selects
      { feed with tail := .idle, handled := feed.handled + 1 } event
    by_cases wanted : through < event.seq ∧ selects scope event
    · have wants_ : wants selects feed.scopes event = true := by simp [wants, scopes, wanted]
      refine ⟨marked, event.seq, ⟨?_, .inr ?_⟩, ?_, fun _ _ => ⟨?_, fun other mem chosen_ => ?_⟩⟩
      · exact Nat.le_trans within.from_ (Nat.le_of_lt wanted.1)
      · exact le_lastSeq ranged.ordered (List.mem_of_getElem? next_)
      · have arrived := arrivals_grown flows.marked grown
        rw [if_pos wants_] at arrived
        rw [arrived, smooth.flow_append, ← smooth.flow, front]
        exact (window_next ranged next_ reached wanted.2 within.from_ wanted.1).symm
      · simp [deliverLive, caughtUp, scopes, wanted]
      · rw [deliverLive, take_handled next_] at mem
        rcases List.mem_append.mp mem with early | same
        · exact Nat.le_of_lt (handled_lt ranged.ordered next_ early)
        · rw [List.mem_singleton.mp same]
    · have unwanted : wants selects feed.scopes event = false := by
        simp only [wants, scopes, List.any_cons, List.any_nil, Bool.or_false]
        simpa using wanted
      refine ⟨marked, through, within.later drift.lastSeq_le, ?_, fun _ _ =>
        ⟨?_, fun other mem chosen_ => ?_⟩⟩
      · have arrived := arrivals_grown flows.marked grown
        rw [if_neg (by simp [unwanted])] at arrived
        rw [arrived, List.filterMap_nil, List.append_nil, within.window_drift drift, front]
      · simp only [deliverLive, caughtUp, scopes, List.map_cons, List.map_nil]
        rw [if_neg (by simpa using wanted)]
      · rw [deliverLive, take_handled next_] at mem
        rcases List.mem_append.mp mem with early | same
        · exact reached other early chosen_
        · rw [List.mem_singleton.mp same] at chosen_ ⊢
          exact Nat.not_lt.mp fun above => wanted ⟨above, chosen_⟩
  · exact flows.rough drift smooth

theorem Flows.drift (flows : feed.Flows selects scope start mark) (ranged : feed.Ranged)
    (drift : Drift selects feed after) : after.Flows selects scope start mark := by
  rcases drift.calm ranged flows.marked with calm | ⟨event, holding, unlocked, next_, rfl⟩
  · obtain ⟨through, within, front, settled⟩ := flows.front
    refine ⟨drift.marked flows.marked, through, within.later drift.lastSeq_le, ?_, ?_⟩
    · rw [within.window_drift drift, ← front, calm.flow]
    · intro smooth awake
      obtain ⟨before, was, scopes, taken⟩ := calm.steady smooth awake
      rw [scopes, taken]
      exact settled before was
  · exact flows.deliver ranged holding unlocked next_

end Flowing

/-! ## While a subscription reads -/

/-- What a subscription that finds no scope active has read. -/
structure Reading (feed : Feed) (mark : Nat) (subscribing : Subscribing) : Prop where
  after : subscribing.replayAfter = replayAfter [] subscribing.scope subscribing.since
  headless : subscribing.events ≠ none → subscribing.head = none → subscribing.since = .now
  past : ∀ {events head}, subscribing.events = some events → subscribing.head = some head →
    Client.Smooth (feed.arrivals mark) → feed.tail ≠ .lagging →
    ∀ event ∈ feed.log.take feed.handled, event.seq ≤ head
  replay : ∀ {events seen head requested}, subscribing.events = some (events, seen) →
    subscribing.head = some head → subscribing.since = .after requested →
    feed.Within requested head ∧
    events.filter (fun event => requested < event.seq && selects subscribing.scope event) =
      window Event.seq requested head (feed.chosen selects subscribing.scope)

section Readings

variable {selects} {feed after : Feed} {mark : Nat} {subscribing : Subscribing}

theorem Reading.drift (reading : feed.Reading selects mark subscribing) (ranged : feed.Ranged)
    (marked : mark ≤ feed.messages.length) (locked : feed.lock = some subscribing)
    (drift : Drift selects feed after) : after.Reading selects mark subscribing := by
  refine { reading with past := ?_, replay := ?_ }
  · intro events head read headed smooth awake
    rcases drift.calm ranged marked with calm | ⟨_, _, unlocked, _⟩
    · obtain ⟨before, was, _, taken⟩ := calm.steady smooth awake
      rw [taken]
      exact reading.past read headed before was
    · rw [unlocked] at locked
      cases locked
  · intro events seen head requested read headed since
    obtain ⟨within, replayed⟩ := reading.replay read headed since
    exact ⟨within.later drift.lastSeq_le, replayed.trans (within.window_drift drift).symm⟩

theorem replayAfter_nil (scope : SubscribeScope) (since : Since) :
    replayAfter [] scope since = match since with
      | .now => none
      | .after requested => some requested := by
  cases since <;> rfl

theorem reading_begun (id : RequestId) (scope : SubscribeScope) (since : Since) :
    feed.Reading selects mark ⟨id, scope, since, replayAfter [] scope since, none, none⟩ :=
  ⟨rfl, fun read => absurd rfl read, nofun, nofun⟩

/-- What the log held when it was read is below the head, or before the position asked for. -/
theorem Reading.read (ranged : feed.Ranged) (id : RequestId) (scope : SubscribeScope)
    (since : Since) : feed.Reading selects mark ⟨id, scope, since, replayAfter [] scope since,
      some (eventsAfter feed.log (replayAfter [] scope since), feed.lastSeq),
      headOf (eventsAfter feed.log (replayAfter [] scope since)) (replayAfter [] scope since)⟩ where
  after := rfl
  headless _ none_ := by
    cases since with
    | now => rfl
    | after requested =>
      obtain ⟨_, impossible⟩ := Option.or_eq_none_iff.mp none_
      cases impossible
  past _ headed _ _ _ mem := read_upTo ranged.ordered headed (List.mem_of_mem_take mem)
  replay := by
    intro events seen head requested read headed asked
    dsimp only at asked
    subst asked
    obtain ⟨rfl, _⟩ := Prod.mk.inj (Option.some.inj read)
    rw [replayAfter_nil] at headed ⊢
    have bounded : requested ≤ head ∧ (head = requested ∨ head ≤ feed.lastSeq) := by
      rcases headOf_cases headed with ⟨early, last, parts, rfl⟩ | ⟨_, same⟩
      · have inside : last ∈ eventsAfter feed.log (some requested) := by
          rw [parts]
          simp
        obtain ⟨logged, above⟩ := mem_eventsAfter.mp inside
        exact ⟨Nat.le_of_lt (above requested rfl), .inr (le_lastSeq ranged.ordered logged)⟩
      · cases same
        exact ⟨Nat.le_refl _, .inl rfl⟩
    refine ⟨⟨bounded.1, bounded.2⟩, ?_⟩
    simp only [eventsAfter, chosen, window, List.filter_filter]
    refine List.filter_congr fun event mem => ?_
    have short : event.seq ≤ head := read_upTo ranged.ordered headed mem
    simp [short, Bool.and_comm]

/-- The log held nothing when it was read, so that its head is read once more. -/
theorem Reading.readHead (reading : feed.Reading selects mark subscribing) (ranged : feed.Ranged)
    {events : List Event} {seen : Seq} (read : subscribing.events = some (events, seen))
    (headless : subscribing.head = none) :
    feed.Reading selects mark { subscribing with
      events := some (events, feed.lastSeq), head := some feed.lastSeq } where
  after := reading.after
  headless _ none_ := nomatch none_
  past _ headed _ _ _ mem := by
    obtain rfl := Option.some.inj headed
    exact le_lastSeq ranged.ordered (List.mem_of_mem_take mem)
  replay := by
    intro events seen head requested _ _ asked
    have now := reading.headless (by simp [read]) headless
    rw [asked] at now
    cases now

/-- The subscription replays and is answered. -/
theorem Reading.finish (reading : feed.Reading selects mark subscribing) (silent : feed.Silent mark)
    {events : List Event} {seen head : Seq} (read : subscribing.events = some (events, seen))
    (headed : subscribing.head = some head) :
    (feed.subscribed selects subscribing events seen head).Flows selects subscribing.scope
      (askedFrom subscribing.since (requestedHead subscribing.since head)) mark := by
  have grown := messages_subscribed selects feed subscribing events seen head
  have marked : mark ≤ (feed.subscribed selects subscribing events seen head).messages.length := by
    rw [grown, List.append_assoc, List.length_append]
    exact Nat.le_add_right_of_le silent.within
  have arrived := arrivals_grown silent.within (grown.trans (List.append_assoc _ _ _))
  have before : Client.flow (feed.arrivals mark) = [] :=
    Client.flow_eq_nil fun event mem => silent.mute event (unsolicited_event mem)
  rw [List.filterMap_append, unsolicited_events, unsolicited_response, List.append_nil] at arrived
  have scopes : (feed.subscribed selects subscribing events seen head).scopes =
      [(subscribing.scope, requestedHead subscribing.since head)] := by
    simp [subscribed, post, silent.inactive, Cursors.insert, Cursors.others]
  have steady (smooth : Client.Smooth
      ((feed.subscribed selects subscribing events seen head).arrivals mark))
      (awake : feed.tail ≠ .lagging) (event : Event) (mem : event ∈ feed.log.take feed.handled) :
      event.seq ≤ head := by
    rw [arrived, Client.smooth_append] at smooth
    exact reading.past read headed smooth.1 awake event mem
  cases asked : subscribing.since with
  | now =>
    rw [asked] at scopes
    have nothing_ : events.filter (replays selects feed.scopes subscribing.scope .now) = [] := by
      simp [replays, silent.inactive, Cursors.others, wants]
    rw [asked, nothing_, List.map_nil, List.append_nil] at arrived
    refine ⟨marked, head, ⟨Nat.le_refl _, .inl rfl⟩, ?_, fun smooth awake => ⟨scopes, ?_⟩⟩
    · rw [arrived, before]
      exact (window_eq_nil (Nat.le_refl _)).symm
    · exact fun event mem _ => steady smooth awake event mem
  | after requested =>
    obtain ⟨within, replayed_⟩ := reading.replay read headed asked
    have own : requestedHead (.after requested) head = head := Nat.max_eq_left within.from_
    rw [asked, own] at scopes
    have some_ : events.filter (replays selects feed.scopes subscribing.scope (.after requested)) =
        events.filter fun event => requested < event.seq && selects subscribing.scope event := by
      refine List.filter_congr fun event _ => ?_
      simp [replays, silent.inactive, Cursors.others, wants]
    rw [asked, some_, replayed_] at arrived
    by_cases smooth : Client.Smooth (feed.arrivals mark)
    · refine ⟨marked, head, ⟨within.from_, ?_⟩, ?_, fun smooth awake => ⟨scopes, ?_⟩⟩
      · exact within.known
      · rw [arrived, smooth.flow_append, ← smooth.flow, before, List.nil_append,
          (Client.smooth_events _).flow, Client.filterMap_eventOf]
        rfl
      · exact fun event mem _ => steady smooth awake event mem
    · refine ⟨marked, requested, ⟨Nat.le_refl _, .inl rfl⟩, ?_, fun calm => ?_⟩
      · rw [arrived, Client.flow_append_of_lagged smooth, before]
        exact (window_eq_nil (Nat.le_refl _)).symm
      · rw [arrived, Client.smooth_append] at calm
        exact absurd calm.1 smooth

end Readings

end Feed

end Nits.Nitsd
