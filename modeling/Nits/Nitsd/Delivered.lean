import Nits.Nitsd.Subscription

/-!
# Subscriptions deliver each event exactly once

As long as the tail does not lag, every active scope has caught up with what the tail is
through with, and no event that a scope has not caught up with is below one that was sent.
-/

namespace Nits.Nitsd.Feed

open Logical Protocol

variable (selects : SubscribeScope → Event → Bool)

/-! ## What a subscription has read -/

/-- What holds of a subscription's replay from its read of the log until it ends. -/
structure Caught (feed : Feed) (subscribing : Subscribing) (events : List Event)
    (seen head : Seq) : Prop where
  ordered : Ordered Event.seq events
  logged : events ⊆ feed.log
  below : ∀ event ∈ events, event.seq ≤ head
  /-- Nothing between the replay's start and its head is missing. -/
  replayed : ∀ after, subscribing.replayAfter = some after → ∀ event ∈ feed.log,
    after < event.seq → event.seq ≤ head → event ∈ events
  handled : ∀ event ∈ feed.log.take feed.handled, event.seq ≤ head
  sent : ∀ event ∈ eventsOf feed.traffic, event.seq ≤ head
  /-- The head is in the log, or it is where the replay starts. -/
  kept : subscribing.replayAfter = none ∨ subscribing.replayAfter = some head ∨
    head ≤ feed.lastSeq
  current : subscribing.since = .now → head = seen

/-- What holds of the subscription that holds the lock. -/
structure Locked (feed : Feed) (subscribing : Subscribing) : Prop where
  after : subscribing.replayAfter =
    replayAfter feed.scopes subscribing.scope subscribing.since
  caught : ∀ {events seen head}, subscribing.events = some (events, seen) →
    subscribing.head = some head → feed.Caught subscribing events seen head
  empty : ∀ {events seen}, subscribing.events = some (events, seen) → subscribing.head = none →
    subscribing.replayAfter = none ∧ events = []

/-- The state of a connection whose tail has not lagged. -/
structure Sound (feed : Feed) : Prop where
  ordered : Ordered Event.seq feed.log
  published : feed.published ≤ feed.log.length
  handled : feed.handled ≤ feed.published
  holding : feed.tail = .holding → feed.handled < feed.published
  awake : feed.tail ≠ .lagging
  /-- Every active scope has caught up with what the tail is through with. -/
  reached : ∀ entry ∈ feed.scopes, ∀ event ∈ feed.log.take feed.handled,
    selects entry.1 event → event.seq ≤ entry.2
  logged : eventsOf feed.traffic ⊆ feed.log
  /-- What a scope has not caught up with is above everything sent. -/
  fresh : ∀ entry ∈ feed.scopes, ∀ event ∈ feed.log, selects entry.1 event →
    entry.2 < event.seq → ∀ before ∈ eventsOf feed.traffic, before.seq < event.seq
  locked : ∀ subscribing, feed.lock = some subscribing → feed.Locked subscribing
  ascends : Ascends feed.traffic
  /-- What a scope asked for and has caught up with was sent, and it has not caught up with
  what is yet to come. -/
  covered : ∀ entry ∈ feed.scopes, ∃ last, subscription entry.1 feed.traffic = some last ∧
    (entry.2 ≤ last.1 ∨ entry.2 ≤ feed.lastSeq) ∧
    ∀ event ∈ feed.log, selects entry.1 event → last.1 < event.seq → event.seq ≤ entry.2 →
      event ∈ last.2

/-- The tail does not lag. -/
def KeepsUp (feed : Feed) : Input → Prop
  | .receive => feed.published - feed.handled ≤ EVENT_BACKLOG
  | _ => True

/-- A subscription for new events only does not read a log whose head every other active
scope's watermark is beyond. -/
def Current (feed : Feed) : Input → Prop
  | .read => ∀ subscribing ∈ feed.lock, subscribing.since = .now →
    ∀ after ∈ subscribing.replayAfter, after ≤ feed.lastSeq
  | _ => True

instance : DecidablePred (KeepsUp feed)
  | .receive => inferInstanceAs (Decidable (_ ≤ _))
  | .commit _ | .publish | .deliver | .notice | .subscribe .. | .read | .readHead | .finish
  | .abort _ | .unsubscribe .. => .isTrue trivial

instance : DecidablePred (Current feed)
  | .read => inferInstanceAs (Decidable (∀ subscribing ∈ feed.lock, _ = _ → ∀ after ∈ _, _ ≤ _))
  | .commit _ | .publish | .receive | .deliver | .notice | .subscribe .. | .readHead | .finish
  | .abort _ | .unsubscribe .. => .isTrue trivial

def Steady (feed : Feed) (input : Input) : Prop := feed.KeepsUp input ∧ feed.Current input

variable {selects} {feed : Feed} {subscribing : Subscribing} {scope : SubscribeScope}
  {since : Since} {event : Event}

theorem sound_started (journal : Journal) : Sound selects (started journal) where
  ordered := journal.ordered
  published := journal.committed
  handled := Nat.le_refl _
  holding := nofun
  awake := nofun
  reached _ mem := absurd mem List.not_mem_nil
  logged := List.nil_subset _
  fresh _ mem := absurd mem List.not_mem_nil
  locked := nofun
  ascends := trivial
  covered _ mem := absurd mem List.not_mem_nil

/-- A replay starts at or below the watermark of every other scope, and at or below the
position asked for. -/
theorem replayAfter_other {entry : SubscribeScope × Seq} (scopes : Cursors) (since : Since)
    (mem : entry ∈ scopes.others scope) :
    ∃ after, replayAfter scopes scope since = some after ∧ after ≤ entry.2 := by
  have listed : entry.2 ∈ (scopes.others scope).map Prod.snd := List.mem_map_of_mem mem
  rcases least : ((scopes.others scope).map Prod.snd).min? with _ | active
  · rw [List.min?_eq_none_iff.mp least] at listed
    cases listed
  · have below : active ≤ entry.2 := (List.min?_eq_some_iff.mp least).2 _ listed
    cases since with
    | now => exact ⟨active, by simp [replayAfter, least], below⟩
    | after requested =>
      exact ⟨min requested active, by simp [replayAfter, least],
        Nat.le_trans (Nat.min_le_right _ _) below⟩

theorem replayAfter_requested (scopes : Cursors) (scope : SubscribeScope) (requested : Seq) :
    ∃ after, replayAfter scopes scope (.after requested) = some after ∧ after ≤ requested := by
  rcases least : ((scopes.others scope).map Prod.snd).min? with _ | active
  · exact ⟨requested, by simp [replayAfter, least], Nat.le_refl _⟩
  · exact ⟨min requested active, by simp [replayAfter, least], Nat.min_le_left _ _⟩

theorem le_requestedHead (since : Since) (head : Seq) : head ≤ requestedHead since head := by
  cases since with
  | now => exact Nat.le_refl _
  | after seq => exact Nat.le_max_left _ _

/-- The events for a replay are asked for or pending. -/
theorem replays_cases {scopes : Cursors} (replays_ : replays selects scopes scope since event) :
    (∃ seq, since = .after seq ∧ seq < event.seq) ∨
      ∃ entry ∈ scopes.others scope, entry.2 < event.seq ∧ selects entry.1 event := by
  unfold replays at replays_
  rcases Bool.or_eq_true_iff.mp replays_ with requested | pending
  · cases since with
    | now => cases requested
    | after seq => exact .inl ⟨seq, rfl, by simpa using (Bool.and_eq_true_iff.mp requested).1⟩
  · obtain ⟨entry, mem, wanted⟩ := List.any_eq_true.mp pending
    obtain ⟨less, chosen⟩ := Bool.and_eq_true_iff.mp wanted
    exact .inr ⟨entry, mem, by simpa using less, chosen⟩

theorem replays_pending {scopes : Cursors} {entry : SubscribeScope × Seq}
    (mem : entry ∈ scopes.others scope) (less : entry.2 < event.seq)
    (chosen : selects entry.1 event) : replays selects scopes scope since event := by
  refine Bool.or_eq_true_iff.mpr (.inr (List.any_eq_true.mpr ⟨entry, mem, ?_⟩))
  exact Bool.and_eq_true_iff.mpr ⟨decide_eq_true less, chosen⟩

theorem replays_requested {scopes : Cursors} {seq : Seq} (less : seq < event.seq)
    (chosen : selects scope event) : replays selects scopes scope (.after seq) event :=
  Bool.or_eq_true_iff.mpr (.inl (Bool.and_eq_true_iff.mpr ⟨decide_eq_true less, chosen⟩))

/-! ## The log grows -/

theorem le_lastSeq (ordered : Ordered Event.seq feed.log) (mem : event ∈ feed.log) :
    event.seq ≤ feed.lastSeq :=
  ordered.le_last mem

theorem Sound.commit (sound : Sound selects feed) (later : feed.lastSeq < event.seq) :
    Sound selects { feed with log := feed.log ++ [event] } := by
  have above {old : Event} (mem : old ∈ feed.log) : old.seq < event.seq :=
    Nat.lt_of_le_of_lt (le_lastSeq sound.ordered mem) later
  have taken : (feed.log ++ [event]).take feed.handled = feed.log.take feed.handled :=
    List.take_append_of_le_length (Nat.le_trans sound.handled sound.published)
  have grown : feed.lastSeq ≤ lastPosition Event.seq (feed.log ++ [event]) := by
    rw [lastPosition_concat]
    exact Nat.le_of_lt later
  refine ⟨?_, ?_, sound.handled, sound.holding, sound.awake, ?_, ?_, ?_, ?_, sound.ascends, ?_⟩
  · exact ordered_concat.mpr ⟨sound.ordered, fun _ mem => above mem⟩
  · rw [List.length_append]
    exact Nat.le_add_right_of_le sound.published
  · intro entry mem other handled
    rw [taken] at handled
    exact sound.reached entry mem other handled
  · exact fun _ mem => List.mem_append_left _ (sound.logged mem)
  · intro entry mem other logged chosen less before sent
    rcases List.mem_append.mp logged with old | new
    · exact sound.fresh entry mem other old chosen less before sent
    · rw [List.mem_singleton.mp new]
      exact above (sound.logged sent)
  · intro subscribing held
    have locked := sound.locked subscribing held
    refine ⟨locked.after, fun read headed => ?_, locked.empty⟩
    have caught := locked.caught read headed
    refine ⟨caught.ordered, fun _ mem => List.mem_append_left _ (caught.logged mem),
      caught.below, ?_, ?_, caught.sent, ?_, caught.current⟩
    · intro after starts other logged less short
      rcases List.mem_append.mp logged with old | new
      · exact caught.replayed after starts other old less short
      · rw [List.mem_singleton.mp new] at less short
        rcases caught.kept with none | same | bounded
        · rw [none] at starts
          cases starts
        · rw [same] at starts
          cases starts
          exact absurd less (Nat.not_lt.mpr short)
        · exact absurd (Nat.lt_of_le_of_lt bounded later) (Nat.not_lt.mpr short)
    · intro other handled
      rw [taken] at handled
      exact caught.handled other handled
    · exact caught.kept.imp_right (Or.imp_right fun bounded => Nat.le_trans bounded grown)
  · intro entry mem
    obtain ⟨last, opened, bounded, all⟩ := sound.covered entry mem
    refine ⟨last, opened, bounded.imp_right (Nat.le_trans · grown), ?_⟩
    intro other logged chosen less reached
    rcases List.mem_append.mp logged with old | new
    · exact all other old chosen less reached
    · rw [List.mem_singleton.mp new] at less reached
      rcases bounded with asked | known
      · exact absurd less (Nat.not_lt.mpr (Nat.le_trans reached asked))
      · exact absurd later (Nat.not_lt.mpr (Nat.le_trans reached known))

/-! ## The tail delivers -/

theorem mem_caughtUp {scopes : Cursors} {entry : SubscribeScope × Seq}
    (mem : entry ∈ caughtUp selects scopes event) : ∃ old, (entry.1, old) ∈ scopes ∧
      ((entry.2 = event.seq ∧ old < event.seq ∧ selects entry.1 event) ∨
        entry.2 = old ∧ ¬ (old < event.seq ∧ selects entry.1 event)) := by
  obtain ⟨⟨scope, old⟩, listed, same⟩ := List.mem_map.mp mem
  split at same
  next wanted =>
    subst same
    exact ⟨old, listed, .inl ⟨rfl, by simpa using wanted⟩⟩
  next other =>
    subst same
    exact ⟨old, listed, .inr ⟨rfl, by simpa using other⟩⟩

theorem wants_iff {scopes : Cursors} : wants selects scopes event ↔
    ∃ entry ∈ scopes, entry.2 < event.seq ∧ selects entry.1 event := by
  simp [wants]

/-- The tail is through with one event more. -/
theorem take_handled (next : feed.log[feed.handled]? = some event) :
    feed.log.take (feed.handled + 1) = feed.log.take feed.handled ++ [event] := by
  rw [List.take_add_one, next]
  rfl

/-- An event that the tail comes to is above everything that it is through with. -/
theorem handled_lt (ordered : Ordered Event.seq feed.log)
    (next : feed.log[feed.handled]? = some event) {before : Event}
    (mem : before ∈ feed.log.take feed.handled) : before.seq < event.seq := by
  have part : Ordered Event.seq (feed.log.take feed.handled ++ [event]) := by
    rw [← take_handled next]
    exact ordered.sublist (List.take_sublist _ _)
  exact (ordered_concat.mp part).2 before mem

/-- The tail is through with the event that it comes to and all below it. -/
theorem handled_of_le (ordered : Ordered Event.seq feed.log)
    (next : feed.log[feed.handled]? = some event) {other : Event} (logged : other ∈ feed.log)
    (short : other.seq ≤ event.seq) : other ∈ feed.log.take (feed.handled + 1) := by
  have split : feed.log = feed.log.take (feed.handled + 1) ++ feed.log.drop (feed.handled + 1) :=
    (List.take_append_drop _ _).symm
  have sorted := ordered
  rw [split] at logged sorted
  rcases List.mem_append.mp logged with early | late
  · exact early
  · have inside : event ∈ feed.log.take (feed.handled + 1) := by
      rw [take_handled next]
      simp
    have above : event.seq < other.seq := (ordered_append.mp sorted).2.2 event inside other late
    exact absurd above (Nat.not_lt.mpr short)

theorem eventsOf_deliverLive : eventsOf (feed.deliverLive selects event).traffic =
    if wants selects feed.scopes event then event :: eventsOf feed.traffic
    else eventsOf feed.traffic := by
  unfold deliverLive
  split <;> rfl

theorem Sound.deliver (sound : Sound selects feed) (unlocked : feed.lock = none)
    (next : feed.log[feed.handled]? = some event) (room : feed.handled < feed.published) :
    Sound selects ({ feed with
      tail := .idle, handled := feed.handled + 1 }.deliverLive selects event) := by
  have logged : event ∈ feed.log := List.mem_of_getElem? next
  -- The event is sent only if a scope has not caught up with it, so it is above all sent.
  have above : wants selects feed.scopes event → ∀ before ∈ eventsOf feed.traffic,
      before.seq < event.seq := by
    intro wanted
    obtain ⟨entry, mem, less, chosen⟩ := wants_iff.mp wanted
    exact sound.fresh entry mem event logged chosen less
  have reached : ∀ entry ∈ caughtUp selects feed.scopes event,
      ∀ other ∈ feed.log.take (feed.handled + 1), selects entry.1 other →
        other.seq ≤ entry.2 := by
    intro entry mem other handled chosen
    rw [take_handled next] at handled
    obtain ⟨old, listed, ⟨now, _⟩ | ⟨kept, unwanted⟩⟩ := mem_caughtUp mem
    · rw [now]
      rcases List.mem_append.mp handled with early | same
      · exact Nat.le_of_lt (handled_lt sound.ordered next early)
      · rw [List.mem_singleton.mp same]
    · rw [kept]
      rcases List.mem_append.mp handled with early | same
      · exact sound.reached _ listed other early chosen
      · rw [List.mem_singleton.mp same] at chosen ⊢
        exact Nat.not_lt.mp fun less => unwanted ⟨less, chosen⟩
  refine ⟨sound.ordered, sound.published, room, nofun, nofun, reached, ?_, ?_, ?_, ?_, ?_⟩
  · rw [eventsOf_deliverLive]
    split
    · exact List.cons_subset.mpr ⟨logged, sound.logged⟩
    · exact sound.logged
  · intro entry mem other known chosen less before sent
    obtain ⟨old, listed, ended⟩ := mem_caughtUp mem
    have early : old < other.seq := by
      rcases ended with ⟨now, behind, _⟩ | ⟨kept, _⟩
      · exact Nat.lt_trans behind (now ▸ less)
      · exact kept ▸ less
    have older : ∀ before ∈ eventsOf feed.traffic, before.seq < other.seq :=
      sound.fresh _ listed other known chosen early
    have newer : event.seq < other.seq := by
      refine Nat.not_le.mp fun short => ?_
      have handled := handled_of_le sound.ordered next known short
      exact absurd less (Nat.not_lt.mpr (reached entry mem other handled chosen))
    rw [eventsOf_deliverLive] at sent
    split at sent
    · rcases List.mem_cons.mp sent with rfl | earlier
      · exact newer
      · exact older before earlier
    · exact older before sent
  · exact fun subscribing held => absurd (unlocked.symm.trans held) nofun
  · unfold deliverLive
    split
    next wanted =>
      exact ⟨fun before mem => above wanted before (unrewound_subset mem), sound.ascends⟩
    · exact sound.ascends
  · intro entry mem
    obtain ⟨old, listed, ended⟩ := mem_caughtUp mem
    obtain ⟨last, opened, bounded, all⟩ := sound.covered _ listed
    have sent : ∃ more, subscription entry.1 ({ feed with
        tail := .idle, handled := feed.handled + 1 }.deliverLive selects event).traffic =
          some (last.1, more ++ last.2) ∧ (wants selects feed.scopes event → event ∈ more) := by
      unfold deliverLive
      split
      · exact ⟨[event], by rw [subscription, opened]; rfl, fun _ => List.mem_singleton_self _⟩
      next unwanted => exact ⟨[], opened, fun wanted => absurd wanted unwanted⟩
    obtain ⟨more, opened', delivered⟩ := sent
    refine ⟨_, opened', ?_, ?_⟩
    · rcases ended with ⟨now, _⟩ | ⟨kept, _⟩
      · exact .inr (now ▸ le_lastSeq sound.ordered logged)
      · exact kept ▸ bounded
    · intro other known chosen less short
      by_cases earlier : other.seq ≤ old
      · exact List.mem_append_right _ (all other known chosen less earlier)
      rcases ended with ⟨now, behind, wanted⟩ | ⟨kept, _⟩
      · have handled := handled_of_le sound.ordered next known (now ▸ short)
        rw [take_handled next] at handled
        rcases List.mem_append.mp handled with before | same
        · exact absurd (sound.reached _ listed other before chosen) earlier
        · rw [List.mem_singleton.mp same]
          exact List.mem_append_left _ (delivered (wants_iff.mpr ⟨_, listed, behind, wanted⟩))
      · exact absurd (kept ▸ short) earlier

/-! ## A subscription takes the lock and reads -/

/-- Messages that are no events and answer no subscription change nothing. -/
theorem Sound.posted (sound : Sound selects feed) {msg : ServerMsg}
    (events : ∀ record, eventsOf (.sent msg :: record) = eventsOf record)
    (last : ∀ scope record, subscription scope (.sent msg :: record) = subscription scope record)
    (ascends : ∀ record, Ascends (.sent msg :: record) ↔ Ascends record) :
    Sound selects (feed.post [msg]) := by
  refine ⟨sound.ordered, sound.published, sound.handled, sound.holding, sound.awake, sound.reached, ?_, ?_, ?_,
    (ascends _).mpr sound.ascends, ?_⟩
  · exact (events feed.traffic).symm ▸ sound.logged
  · intro entry mem other logged chosen less before sent
    exact sound.fresh entry mem other logged chosen less before (events feed.traffic ▸ sent)
  · intro subscribing held
    have locked := sound.locked subscribing held
    refine ⟨locked.after, fun read headed => ?_, locked.empty⟩
    have caught := locked.caught read headed
    exact ⟨caught.ordered, caught.logged, caught.below, caught.replayed, caught.handled,
      (events feed.traffic).symm ▸ caught.sent, caught.kept, caught.current⟩
  · intro entry mem
    obtain ⟨found, opened, rest⟩ := sound.covered entry mem
    exact ⟨found, (last entry.1 feed.traffic).trans opened, rest⟩

theorem Sound.failed (sound : Sound selects feed) (id : RequestId) (error : RpcError) :
    Sound selects (feed.post [.error id error]) :=
  sound.posted (fun _ => rfl) (fun _ _ => rfl) fun _ => Iff.rfl

/-- A subscription depends on the log, the scopes and the record only. -/
theorem Locked.carried (locked : feed.Locked subscribing) (published : Nat) (tail : TailPhase)
    (lock : Option Subscribing) : Locked { feed with published, tail, lock } subscribing := by
  refine ⟨locked.after, fun read headed => ?_, locked.empty⟩
  have caught := locked.caught read headed
  exact ⟨caught.ordered, caught.logged, caught.below, caught.replayed, caught.handled, caught.sent,
    caught.kept, caught.current⟩

/-- The lock is taken, or released. -/
theorem Sound.relocked (sound : Sound selects feed) {lock : Option Subscribing}
    (locked : ∀ subscribing, lock = some subscribing → feed.Locked subscribing) :
    Sound selects { feed with lock } :=
  { sound with
    locked := fun subscribing held => (locked subscribing held).carried _ _ _ }

variable {after : Option Seq} {events : List Event} {head : Seq}

theorem mem_eventsAfter {log : List Event} :
    event ∈ eventsAfter log after ↔ event ∈ log ∧ ∀ bound, after = some bound → bound < event.seq := by
  cases after <;> simp [eventsAfter]

/-- A read's head is the last event read, or the start of the replay if there is none. -/
theorem headOf_cases (headed : headOf events after = some head) :
    (∃ early last, events = early ++ [last] ∧ last.seq = head) ∨ events = [] ∧ after = some head := by
  rcases events.eq_nil_or_concat' with rfl | ⟨early, last, rfl⟩
  · exact .inr ⟨rfl, by simpa [headOf] using headed⟩
  · exact .inl ⟨early, last, rfl, by simpa [headOf] using headed⟩

/-- Every event in the log is at or below the head that a read returns. -/
theorem read_upTo (ordered : Ordered Event.seq feed.log)
    (headed : headOf (eventsAfter feed.log after) after = some head) (logged : event ∈ feed.log) :
    event.seq ≤ head := by
  have sorted : Ordered Event.seq (eventsAfter feed.log after) :=
    ordered.sublist List.filter_sublist
  by_cases read : event ∈ eventsAfter feed.log after
  · rcases headOf_cases headed with ⟨early, last, parts, rfl⟩ | ⟨none, _⟩
    · have below := sorted.le_last read
      rwa [parts, lastPosition_concat] at below
    · rw [none] at read
      cases read
  · obtain ⟨bound, starts, below⟩ : ∃ bound, after = some bound ∧ event.seq ≤ bound := by
      by_contra none
      refine read (mem_eventsAfter.mpr ⟨logged, fun bound starts => ?_⟩)
      exact Nat.not_le.mp fun below => none ⟨bound, starts, below⟩
    rcases headOf_cases headed with ⟨early, last, parts, rfl⟩ | ⟨_, same⟩
    · have inside : last ∈ eventsAfter feed.log after := by
        rw [parts]
        simp
      exact Nat.le_trans below (Nat.le_of_lt ((mem_eventsAfter.mp inside).2 bound starts))
    · rw [starts] at same
      cases same
      exact below

/-- What a subscription has read, as long as its head is not beyond the log's own. -/
theorem Sound.caught (sound : Sound selects feed)
    (headed : headOf (eventsAfter feed.log subscribing.replayAfter) subscribing.replayAfter =
      some head)
    (current : subscribing.since = .now → ∀ bound, subscribing.replayAfter = some bound →
      bound ≤ feed.lastSeq) :
    feed.Caught subscribing (eventsAfter feed.log subscribing.replayAfter) feed.lastSeq head := by
  have upTo {event : Event} (logged : event ∈ feed.log) : event.seq ≤ head :=
    read_upTo sound.ordered headed logged
  have kept : subscribing.replayAfter = some head ∨ head ≤ feed.lastSeq := by
    rcases headOf_cases headed with ⟨early, last, parts, rfl⟩ | ⟨_, same⟩
    · have inside : last ∈ eventsAfter feed.log subscribing.replayAfter := by
        rw [parts]
        simp
      exact .inr (le_lastSeq sound.ordered (mem_eventsAfter.mp inside).1)
    · exact .inl same
  refine ⟨sound.ordered.sublist List.filter_sublist, List.filter_subset_self _,
    fun event read => upTo (mem_eventsAfter.mp read).1, ?_,
    fun event handled => upTo (List.mem_of_mem_take handled),
    fun event sent => upTo (sound.logged sent), .inr kept, fun now => ?_⟩
  · intro after starts event logged less _
    refine mem_eventsAfter.mpr ⟨logged, fun bound same => ?_⟩
    rw [starts] at same
    cases same
    exact less
  · have below : head ≤ feed.lastSeq := kept.elim (current now head) id
    refine Nat.le_antisymm below ?_
    rcases whole : feed.log.eq_nil_or_concat' with none | ⟨early, last, same⟩
    · simp [Feed.lastSeq, lastPosition, none]
    · have inside : last ∈ feed.log := by
        rw [same]
        simp
      have atLast : feed.lastSeq = last.seq := by
        rw [Feed.lastSeq, same, lastPosition_concat]
      exact atLast ▸ upTo inside

/-! ## A subscription replays -/

theorem subscribed_traffic {seen : Seq} :
    (feed.subscribed selects subscribing events seen head).traffic =
      .sent (.response subscribing.id (.subscribed (requestedHead subscribing.since head))) ::
        replayed (events.filter (replays selects feed.scopes subscribing.scope subscribing.since))
          (.opened subscribing.scope subscribing.since seen :: feed.traffic) :=
  rfl

/-- The scopes after a subscription: its own, and the others raised to the head. -/
theorem mem_subscribed {seen : Seq} {entry : SubscribeScope × Seq}
    (mem : entry ∈ (feed.subscribed selects subscribing events seen head).scopes) :
    entry = (subscribing.scope, requestedHead subscribing.since head) ∨
      ∃ old, (entry.1, old) ∈ feed.scopes.others subscribing.scope ∧ entry.2 = max old head := by
  rcases List.mem_append.mp mem with kept | own
  · obtain ⟨raised, other⟩ := Cursors.mem_others.mp kept
    obtain ⟨⟨scope, old⟩, listed, rfl⟩ := List.mem_map.mp raised
    exact .inr ⟨old, Cursors.mem_others.mpr ⟨listed, other⟩, rfl⟩
  · exact .inl (List.mem_singleton.mp own)

theorem Sound.subscribed (sound : Sound selects feed) {seen : Seq}
    (after : subscribing.replayAfter =
      replayAfter feed.scopes subscribing.scope subscribing.since)
    (caught : feed.Caught subscribing events seen head) :
    Sound selects (feed.subscribed selects subscribing events seen head) := by
  have own := le_requestedHead subscribing.since head
  have reaches : ∀ entry ∈ (feed.subscribed selects subscribing events seen head).scopes,
      head ≤ entry.2 := by
    intro entry mem
    rcases mem_subscribed mem with rfl | ⟨old, _, raised⟩
    · exact own
    · exact raised ▸ Nat.le_max_right _ _
  have sent : ∀ event ∈ eventsOf (feed.subscribed selects subscribing events seen head).traffic,
      event ∈ feed.log ∧ event.seq ≤ head := by
    intro event mem
    rw [subscribed_traffic, eventsOf, eventsOf_replayed] at mem
    · rcases List.mem_append.mp mem with new | old
      · have read : event ∈ events := (List.mem_filter.mp (List.mem_reverse.mp new)).1
        exact ⟨caught.logged read, caught.below event read⟩
      · exact ⟨sound.logged old, caught.sent event old⟩
    · simp
  refine ⟨sound.ordered, sound.published, sound.handled, sound.holding, sound.awake, ?_,
    fun event mem => (sent event mem).1, ?_, fun _ locked => (by cases locked), ?_, ?_⟩
  · intro entry mem event handled _
    exact Nat.le_trans (caught.handled event handled) (reaches entry mem)
  · intro entry mem event _ _ less before mem'
    exact Nat.lt_of_le_of_lt (Nat.le_trans (sent before mem').2 (reaches entry mem)) less
  · rw [subscribed_traffic]
    refine ⟨fun before mem => ?_, ?_⟩
    · exact Nat.le_trans (sent before (by rw [subscribed_traffic, eventsOf]; exact mem; simp)).2 own
    refine ascends_replayed (caught.ordered.sublist List.filter_sublist) ?_ sound.ascends
    intro event mem before earlier
    obtain ⟨read, chosen⟩ := List.mem_filter.mp mem
    rcases replays_cases chosen with ⟨seq, since, less⟩ | ⟨entry, other, less, wanted⟩
    · rw [since, unrewound, if_pos less] at earlier
      cases earlier
    · have listed := (Cursors.mem_others.mp other).1
      have sentBefore : before ∈ eventsOf
          (.opened subscribing.scope subscribing.since seen :: feed.traffic) :=
        unrewound_subset earlier
      exact sound.fresh entry listed event (caught.logged read) wanted less before sentBefore
  · intro entry mem
    have record (scope : SubscribeScope) :
        subscription scope (feed.subscribed selects subscribing events seen head).traffic =
          (subscription scope
            (.opened subscribing.scope subscribing.since seen :: feed.traffic)).map fun last =>
            (last.1, (events.filter
              (replays selects feed.scopes subscribing.scope subscribing.since)).reverse ++ last.2) :=
      subscription_replayed
    rw [record, subscription_opened]
    rcases mem_subscribed mem with rfl | ⟨old, other, raised⟩
    · rw [if_pos rfl]
      refine ⟨_, rfl, ?_⟩
      rcases asked : subscribing.since with _ | seq
      · -- A subscription for new events starts at the head that it has read.
        have same : head = seen := caught.current asked
        refine ⟨.inl (Nat.le_of_eq same), fun event _ _ above short => ?_⟩
        exact absurd above (Nat.not_lt.mpr (same ▸ short))
      · obtain ⟨start, starts, below⟩ :=
          replayAfter_requested feed.scopes subscribing.scope seq
        rw [← asked, ← after] at starts
        refine ⟨?_, fun event logged chosen above short => ?_⟩
        · rcases caught.kept with none | same | known
          · rw [none] at starts
            cases starts
          · rw [starts] at same
            cases same
            exact .inl (Nat.max_le.mpr ⟨below, Nat.le_refl _⟩)
          · rcases Nat.le_total head seq with future | past
            · exact .inl (Nat.max_le.mpr ⟨future, Nat.le_refl _⟩)
            · exact .inr (Nat.max_le.mpr ⟨known, Nat.le_trans past known⟩)
        · have upTo : event.seq ≤ head := by
            rcases Nat.le_total head seq with future | past
            · have short : event.seq ≤ seq := Nat.le_trans short (Nat.max_le.mpr ⟨future, Nat.le_refl _⟩)
              exact absurd above (Nat.not_lt.mpr short)
            · exact Nat.le_trans short (Nat.max_le.mpr ⟨Nat.le_refl _, past⟩)
          have read := caught.replayed start starts event logged (Nat.lt_of_le_of_lt below above) upTo
          refine List.mem_append_left _ (List.mem_reverse.mpr (List.mem_filter.mpr ⟨read, ?_⟩))
          exact replays_requested above chosen
    · obtain ⟨listed, apart⟩ := Cursors.mem_others.mp other
      obtain ⟨last, opened, bounded, all⟩ := sound.covered _ listed
      obtain ⟨start, starts, below⟩ :=
        replayAfter_other feed.scopes subscribing.since other
      rw [← after] at starts
      rw [if_neg (Ne.symm apart), opened]
      refine ⟨_, rfl, ?_, fun event logged chosen above short => ?_⟩
      · rcases Nat.le_total head old with stays | rises
        · rw [raised, Nat.max_eq_left stays]
          exact bounded
        · rw [raised, Nat.max_eq_right rises]
          rcases caught.kept with none | same | known
          · rw [none] at starts
            cases starts
          · rw [starts] at same
            cases same
            exact bounded.imp (Nat.le_trans below) (Nat.le_trans below)
          · exact .inr known
      · by_cases before : event.seq ≤ old
        · exact List.mem_append_right _ (all event logged chosen above before)
        have behind : old < event.seq := Nat.not_le.mp before
        have upTo : event.seq ≤ head := by
          rcases Nat.le_total old head with rises | stays
          · rwa [raised, Nat.max_eq_right rises] at short
          · rw [raised, Nat.max_eq_left stays] at short
            exact absurd short before
        have read := caught.replayed start starts event logged (Nat.lt_of_le_of_lt below behind) upTo
        refine List.mem_append_left _ (List.mem_reverse.mpr (List.mem_filter.mpr ⟨read, ?_⟩))
        exact replays_pending other behind chosen

/-! ## Steps and runs -/

theorem Sound.received (sound : Sound selects feed) (room : feed.handled < feed.published) :
    Sound selects { feed with tail := .holding } :=
  { sound with
    holding := fun _ => room
    awake := nofun
    locked := fun subscribing held => (sound.locked subscribing held).carried _ _ _ }

theorem Sound.publish (sound : Sound selects feed) (room : feed.published < feed.log.length) :
    Sound selects { feed with published := feed.published + 1 } :=
  { sound with
    published := room
    handled := Nat.le_succ_of_le sound.handled
    holding := fun held => Nat.lt_succ_of_lt (sound.holding held)
    locked := fun subscribing held => (sound.locked subscribing held).carried _ _ _ }

theorem Sound.unsubscribed (sound : Sound selects feed) (unlocked : feed.lock = none)
    (scope : SubscribeScope) : Sound selects { feed with scopes := feed.scopes.others scope } :=
  { sound with
    reached := fun entry mem => sound.reached entry (Cursors.mem_others.mp mem).1
    fresh := fun entry mem => sound.fresh entry (Cursors.mem_others.mp mem).1
    covered := fun entry mem => sound.covered entry (Cursors.mem_others.mp mem).1
    locked := fun _ held => absurd (unlocked.symm.trans held) nofun }

theorem Sound.step (feed : Feed) (input : Input) (sound : Sound selects feed)
    (steady : Steady feed input) : Sound selects (feed.step selects input) := by
  cases input with
  | commit event =>
    simp only [Feed.step]
    split
    next later => exact sound.commit later
    · exact sound
  | publish =>
    simp only [Feed.step]
    split
    next room => exact sound.publish room
    · exact sound
  | receive =>
    simp only [Feed.step]
    split
    next ready =>
      rw [if_neg (Nat.not_lt.mpr steady.1)]
      exact sound.received ready.2
    · exact sound
  | deliver =>
    simp only [Feed.step]
    split
    next ready =>
      split
      next event next => exact sound.deliver ready.2 next (sound.holding ready.1)
      · exact sound
    · exact sound
  | notice =>
    simp only [Feed.step]
    rw [if_neg sound.awake]
    exact sound
  | subscribe id scope since =>
    simp only [Feed.step]
    split
    · refine sound.relocked fun subscribing held => ?_
      cases held
      exact ⟨rfl, nofun, nofun⟩
    · exact sound
  | read =>
    simp only [Feed.step]
    split
    next id scope since after head held =>
      refine sound.relocked fun subscribing locked => ?_
      cases locked
      have kept := sound.locked _ held
      refine ⟨kept.after, fun read headed => ?_, fun read none => ?_⟩
      · cases read
        have caught := sound.caught headed (steady.2 _ held)
        exact ⟨caught.ordered, caught.logged, caught.below, caught.replayed, caught.handled,
          caught.sent, caught.kept, caught.current⟩
      · cases read
        exact Option.or_eq_none_iff.mp none |>.symm.imp_right (by simp)
    · exact sound
  | readHead =>
    simp only [Feed.step]
    split
    next id scope since after events seen held =>
      refine sound.relocked fun subscribing locked => ?_
      cases locked
      obtain ⟨start, none⟩ := (sound.locked _ held).empty rfl rfl
      refine ⟨(sound.locked _ held).after, fun read headed => ?_, nofun⟩
      cases read
      cases headed
      subst none
      exact ⟨List.Pairwise.nil, List.nil_subset _, by simp,
        fun _ starts => absurd (start.symm.trans starts) nofun, fun event handled => le_lastSeq sound.ordered (List.mem_of_mem_take handled),
        fun event sent => le_lastSeq sound.ordered (sound.logged sent), .inl start, fun _ => rfl⟩
    · exact sound
  | finish =>
    simp only [Feed.step]
    split
    next id scope since after events seen head held =>
      have locked := sound.locked _ held
      exact sound.subscribed locked.after (locked.caught rfl rfl)
    · exact sound
  | abort error =>
    simp only [Feed.step]
    split
    next subscribing held =>
      have released : Sound selects { feed with lock := none } := sound.relocked nofun
      cases error with
      | none => exact released
      | some error => exact released.failed subscribing.id error
    · exact sound
  | unsubscribe id scope =>
    simp only [Feed.step]
    split
    next unlocked =>
      exact (sound.unsubscribed unlocked scope).posted (fun _ => rfl) (fun _ _ => rfl)
        fun _ => Iff.rfl
    · exact sound

/-- With every event that the tail is through with, those above what a scope asked for were
sent since. -/
theorem Sound.complete (sound : Sound selects feed) : Complete selects feed := by
  intro entry mem
  obtain ⟨last, opened, _, all⟩ := sound.covered entry mem
  refine ⟨last, opened, fun event handled chosen above => ?_⟩
  have reached : event.seq ≤ entry.2 := sound.reached entry mem event handled chosen
  exact all event (List.mem_of_mem_take handled) chosen above reached

/-- Steps that only the writer's publishing and the tail take. -/
def Unaided (more : List Input) : Prop :=
  ∀ input ∈ more, input = .publish ∨ input = .receive ∨ input = .deliver

/-- The connection can go on on its own to a state where the tail is through with a number
of events. -/
structure Reaches (selects : SubscribeScope → Event → Bool) (feed : Feed) (handled : Nat) :
    Prop where
  steps : ∃ more, Unaided more ∧ Run.Steps (Feed.step selects) Steady feed more ∧
    (feed.run selects more).handled = handled ∧ (feed.run selects more).log = feed.log

theorem reaches_here : Reaches selects feed feed.handled :=
  ⟨[], by simp [Unaided], Run.steps_nil _, rfl, rfl⟩

theorem Reaches.before {handled : Nat} {input : Input}
    (unaided : input = .publish ∨ input = .receive ∨ input = .deliver)
    (steady : Steady feed input) (log : (feed.step selects input).log = feed.log)
    (reaches : Reaches selects (feed.step selects input) handled) :
    Reaches selects feed handled := by
  obtain ⟨more, alone, steps, through, same⟩ := reaches.steps
  refine ⟨input :: more, ?_, (Run.steps_cons _).mpr ⟨steady, steps⟩, through, same.trans log⟩
  intro other mem
  rcases List.mem_cons.mp mem with rfl | later
  · exact unaided
  · exact alone other later

/-- How far the tail is from the end of the log. -/
def toGo (feed : Feed) : Nat :=
  2 * (feed.log.length - feed.handled) + (feed.log.length - feed.published) +
    if feed.tail = .holding then 0 else 1

/-- As long as the tail is behind the log, the writer or the tail can take a step. -/
theorem Sound.advance (sound : Sound selects feed) (unlocked : feed.lock = none)
    (short : feed.published - feed.handled ≤ EVENT_BACKLOG)
    (behind : feed.handled ≠ feed.log.length) :
    ∃ input, (input = .publish ∨ input = .receive ∨ input = .deliver) ∧ Steady feed input ∧
      (feed.step selects input).log = feed.log ∧ (feed.step selects input).lock = none ∧
      (feed.step selects input).published - (feed.step selects input).handled ≤ EVENT_BACKLOG ∧
      (feed.step selects input).toGo < feed.toGo := by
  have published : feed.published ≤ feed.log.length := sound.published
  have handled : feed.handled ≤ feed.published := sound.handled
  rcases Nat.lt_or_ge feed.handled feed.published with room | done
  · have inside : feed.handled < feed.log.length := Nat.lt_of_lt_of_le room published
    cases tail : feed.tail with
    | lagging => exact absurd tail sound.awake
    | idle =>
      have received : feed.step selects .receive = { feed with tail := .holding } := by
        simp only [Feed.step, tail, room, and_self, if_true, if_neg (Nat.not_lt.mpr short)]
      refine ⟨.receive, .inr (.inl rfl), ⟨short, trivial⟩, ?_⟩
      rw [received]
      exact ⟨rfl, unlocked, short, by simp [toGo, tail]⟩
    | holding =>
      obtain ⟨event, next⟩ : ∃ event, feed.log[feed.handled]? = some event :=
        ⟨_, List.getElem?_eq_getElem inside⟩
      have delivered : feed.step selects .deliver = ({ feed with
          tail := .idle, handled := feed.handled + 1 }.deliverLive selects event) := by
        simp only [Feed.step, tail, unlocked, and_self, if_true, next]
      refine ⟨.deliver, .inr (.inr rfl), ⟨trivial, trivial⟩, ?_⟩
      rw [delivered]
      refine ⟨rfl, unlocked, ?_, ?_⟩
      · have less : feed.published - (feed.handled + 1) ≤ feed.published - feed.handled := by
          omega
        exact Nat.le_trans less short
      · simp only [toGo, deliverLive, tail, if_true, if_neg (show TailPhase.idle ≠ .holding by decide)]
        omega
  · have quiet : feed.tail ≠ .holding := fun held => Nat.not_lt.mpr done (sound.holding held)
    have room : feed.published < feed.log.length := by omega
    have step : feed.step selects .publish = { feed with published := feed.published + 1 } := by
      simp only [Feed.step, room, if_true]
    refine ⟨.publish, .inl rfl, ⟨trivial, trivial⟩, ?_⟩
    rw [step]
    refine ⟨rfl, unlocked, ?_, ?_⟩
    · have one : feed.published + 1 - feed.handled ≤ 1 := by omega
      exact Nat.le_trans one (by decide)
    · simp only [toGo, if_neg quiet]
      omega

/-- Left to themselves, the writer and the tail bring the tail through the whole log. -/
theorem Sound.drains (sound : Sound selects feed) (unlocked : feed.lock = none)
    (short : feed.published - feed.handled ≤ EVENT_BACKLOG) :
    Reaches selects feed feed.log.length := by
  induction left : feed.toGo using Nat.strong_induction_on generalizing feed with
  | _ left ih =>
  subst left
  by_cases through : feed.handled = feed.log.length
  · exact through ▸ reaches_here
  · obtain ⟨input, unaided, steady, log, unlocked', short', less⟩ :=
      sound.advance unlocked short through
    have rest := ih _ less (sound.step feed input steady) unlocked' short' rfl
    rw [log] at rest
    exact rest.before unaided steady log

/-- What a connection owes in a state: each event for an active scope was sent once the tail
is through with it, the tail is not stuck, and only a subscription that asks for it again
lets an event follow one that is not below it. -/
structure Delivers (selects : SubscribeScope → Event → Bool) (feed : Feed) : Prop where
  complete : Complete selects feed
  drains : feed.lock = none → feed.published - feed.handled ≤ EVENT_BACKLOG →
    Reaches selects feed feed.log.length
  ascends : Ascends feed.traffic

/-- A run delivers as long as its tail does not lag and no subscription for new events takes
its watermark from scopes that are beyond the log. -/
theorem run_delivers (selects : SubscribeScope → Event → Bool) (journal : Journal)
    (inputs : List Input) (keepsUp : Run.Steps (Feed.step selects) KeepsUp (started journal) inputs)
    (current : Run.Steps (Feed.step selects) Current (started journal) inputs) :
    Run.Always (Feed.step selects) (Delivers selects) (started journal) inputs := by
  have steady : Run.Steps (Feed.step selects) Steady (started journal) inputs :=
    fun early input part => ⟨keepsUp early input part, current early input part⟩
  have sound : Run.Always (Feed.step selects) (Sound selects) (started journal) inputs :=
    Run.steps_always (Feed.step selects)
      (fun feed input sound steady => sound.step feed input steady) (sound_started journal) steady
  exact fun early part =>
    ⟨(sound early part).complete, (sound early part).drains, (sound early part).ascends⟩

/-! ## A watermark from the future -/

/-- The scopes' own rules, for events of no review. -/
def plainly (scope : SubscribeScope) (event : Event) : Bool := scope.matches event fun _ => none

def renamed (seq : Seq) : Event :=
  { seq, ts := 0, author := .human "ada" "laptop", clientId := ⟨0⟩, clientSeq := 0,
    body := .workspaceUpdated ⟨1⟩ "work" }

def nothing : Journal := ⟨[], 0, List.Pairwise.nil, Nat.le_refl _⟩

/-- A subscription, start to end. -/
def subscribes (id : RequestId) (scope : SubscribeScope) (since : Since) : List Input :=
  [.subscribe id scope since, .read, .readHead, .finish]

/-- A committed event goes through the tail. -/
def passes (seq : Seq) : List Input := [.commit (renamed seq), .publish, .receive, .deliver]

/-- One scope waits for what comes after position 5; another subscribes to all new events
of the empty log and takes over that watermark. -/
def futureRun : List Input :=
  subscribes 1 (.awaitingAgent "coder") (.after 5) ++ subscribes 2 .all .now ++ passes 1

/-- The event is for everyone's scope, above the head of the empty log, and is not sent. -/
theorem futureRun_not_delivers : Run.Steps (Feed.step plainly) KeepsUp (started nothing) futureRun ∧
    ¬ Run.Always (Feed.step plainly) (Delivers plainly) (started nothing) futureRun := by
  refine ⟨by decide +kernel, fun always => ?_⟩
  have delivers := (always futureRun (List.prefix_refl _)).complete
  obtain ⟨last, opened, all⟩ := delivers (.all, 5) (by decide +kernel)
  have none : subscription .all (run plainly (started nothing) futureRun).traffic = some (0, []) := by
    decide +kernel
  cases opened.symm.trans none
  exact absurd (all (renamed 1) (by decide +kernel) rfl Nat.zero_lt_one) List.not_mem_nil

/-- An event is passed on live, asked for again by a rewind, and followed by another. -/
theorem run_delivers_rewind : Run.Always (Feed.step plainly) (Delivers plainly) (started nothing)
    (subscribes 1 .all .now ++ passes 1 ++ subscribes 2 .all (.after 0) ++ passes 2) :=
  run_delivers plainly nothing _ (by decide +kernel) (by decide +kernel)

end Nits.Nitsd.Feed
