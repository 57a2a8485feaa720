import Nits.Mcp.Custody

/-!
# Who tends a management call

A management call waits in the queue, has a background task of its own or waits for the
flight under way, until it is closed. A flight has exactly one background task or one
event that ends it.
-/

namespace Nits.Mcp

open Logical
open Protocol hiding UpgradeOperation
open Protocol.Lifecycle

variable {Params Arguments : Type}

/-- The status call a task works for. -/
def Task.ticket? : Task Params → Option Ticket
  | .status ticket .. => some ticket
  | .activate .. | .monitor .. => none

def ManagementEvent.ticket? : ManagementEvent Params → Option Ticket
  | .status ticket _ => some ticket
  | .accepted _ | .finished .. => none

/-- The task is that of a flight. -/
def Task.flies : Task Params → Bool
  | .status .. => false
  | .activate .. | .monitor .. => true

/-- The event ends a flight. -/
def ManagementEvent.lands : ManagementEvent Params → Bool
  | .finished .. => true
  | .status .. | .accepted _ => false

/-- A task's event takes over what the task tends. -/
theorem Task.advance_tends (task : Task Params) (answers : Answers) :
    (task.advance answers).1.ticket? = task.ticket? ∧
      (task.advance answers).2.toList.countP Task.flies +
        [(task.advance answers).1].countP ManagementEvent.lands = [task].countP Task.flies := by
  cases task with
  | status => exact ⟨rfl, rfl⟩
  | activate checkpoint current policy =>
    unfold Task.advance
    dsimp only
    split
    · exact ⟨rfl, rfl⟩
    · split
      · exact ⟨rfl, rfl⟩
      · split
        · exact ⟨rfl, rfl⟩
        · exact ⟨rfl, rfl⟩
  | monitor => exact ⟨rfl, rfl⟩

namespace Host

/-- The tasks and events of flights. -/
def aloft (host : Host Params) : Nat :=
  host.tasks.countP Task.flies + host.events.countP ManagementEvent.lands

/-- Every management call is in `queue`, or is tended by a task, an event or the flight. -/
structure Tended (queue : List (Ticket × ManagementCall)) (host : Host Params) : Prop where
  tended : ∀ (ticket : Ticket) (pending : Pending), host.pending[ticket]? = some pending →
    pending.owner = .management → ticket ∈ queue.map Prod.fst ∨
      (∃ task ∈ host.tasks, task.ticket? = some ticket) ∨
      (∃ event ∈ host.events, event.ticket? = some ticket) ∨
      ∃ flight, host.flight = some flight ∧ ticket ∈ flight.requesters
  single : host.aloft = if host.flight.isSome then 1 else 0

namespace Tended

variable {queue : List (Ticket × ManagementCall)} {host : Host Params} {call : ManagementCall}

/-- Calls may be closed, and nothing else of the flight changed. -/
theorem of_fewer {other : Host Params} (tended : Tended queue host)
    (tasks : other.tasks = host.tasks) (events : other.events = host.events)
    (flight : other.flight = host.flight)
    (pending : ∀ (ticket : Ticket) (pending : Pending), other.pending[ticket]? = some pending →
      pending.owner = .management → ∃ kept : Pending, host.pending[ticket]? = some kept ∧
        kept.owner = .management) : Tended queue other where
  tended ticket found present owned := by
    obtain ⟨kept, before, mine⟩ := pending ticket found present owned
    rw [tasks, events, flight]
    exact tended.tended ticket kept before mine
  single := by
    rw [aloft, tasks, events, flight]
    exact tended.single

theorem of_closes {other : Host Params} (tended : Tended queue host)
    (closes : Closes host other) (events : other.events = host.events)
    (follows : Follows host other) : Tended queue other :=
  tended.of_fewer closes.tasks events closes.flight
    fun ticket pending found owned => ⟨pending, follows.pending ticket pending found, owned⟩

theorem complete (tended : Tended queue host) (ticket : Ticket) (reply : Option Outgoing) :
    Tended queue (host.complete ticket reply) :=
  tended.of_closes (Closes.complete host ticket reply) (host.complete_events ticket reply)
    (Follows.complete host ticket reply)

theorem record (tended : Tended queue host) (event : Event Params) :
    Tended queue (host.record event) :=
  tended.of_closes (Closes.record host event) rfl (Follows.record host event)

/-- A call closed at the head of the queue needs nobody. -/
theorem close {ticket : Ticket} (tended : Tended ((ticket, call) :: queue) host)
    (reply : Option Outgoing) : Tended queue (host.complete ticket reply) := by
  have completed := tended.complete ticket reply
  refine ⟨fun other pending found owned => ?_, completed.single⟩
  rcases completed.tended other pending found owned with waiting | rest
  · rw [complete_pending] at found
    split at found
    · cases found
    · rename_i differ
      rcases List.mem_cons.mp waiting with own | later
      · exact absurd own.symm differ
      · exact .inl later
  · exact .inr rest

theorem startStatus {ticket : Ticket} (tended : Tended ((ticket, call) :: queue) host) :
    Tended queue (host.startStatus ticket) where
  tended other pending found owned := by
    rcases tended.tended other pending found owned with
      waiting | ⟨task, mem, own⟩ | event | flight
    · rcases List.mem_cons.mp waiting with own | later
      · exact .inr (.inl ⟨_, List.mem_append_right _ (List.mem_singleton.mpr rfl), by rw [own]; rfl⟩)
      · exact .inl later
    · exact .inr (.inl ⟨task, List.mem_append_left _ mem, own⟩)
    · exact .inr (.inr (.inl event))
    · exact .inr (.inr (.inr flight))
  single := by
    have flights : (host.startStatus ticket).aloft = host.aloft := by
      unfold aloft Host.startStatus
      rw [List.countP_append]
      rfl
    rw [flights]
    exact tended.single

theorem startRestart {ticket : Ticket} (tended : Tended ((ticket, call) :: queue) host) :
    Tended queue (host.startRestart ticket) := by
  have began := tended.record (.began ticket .restart host.checkpoint)
  unfold Host.startRestart
  dsimp only
  split
  · rename_i requesters flying
    have flying : host.flight = some ⟨requesters, .preparing⟩ := flying
    refine ⟨fun other pending found owned => ?_, ?_⟩
    · rcases tended.tended other pending found owned with
        waiting | task | event | ⟨flight, same, mem⟩
      · rcases List.mem_cons.mp waiting with own | later
        · refine .inr (.inr (.inr ⟨_, rfl, List.mem_append_right _ ?_⟩))
          rw [own]
          exact List.mem_singleton.mpr rfl
        · exact .inl later
      · exact .inr (.inl task)
      · exact .inr (.inr (.inl event))
      · rw [flying] at same
        cases same
        exact .inr (.inr (.inr ⟨_, rfl, List.mem_append_left _ mem⟩))
    · have single := tended.single
      rw [flying] at single
      exact single
  · exact began.close _
  · rename_i grounded
    have grounded : host.flight = none := grounded
    refine ⟨fun other pending found owned => ?_, ?_⟩
    · rcases tended.tended other pending found owned with
        waiting | ⟨task, mem, own⟩ | event | ⟨flight, same, _⟩
      · rcases List.mem_cons.mp waiting with own | later
        · refine .inr (.inr (.inr ⟨_, rfl, ?_⟩))
          rw [own]
          exact List.mem_singleton.mpr rfl
        · exact .inl later
      · exact .inr (.inl ⟨task, List.mem_append_left _ mem, own⟩)
      · exact .inr (.inr (.inl event))
      · rw [grounded] at same
        cases same
    · have single := tended.single
      rw [grounded] at single
      change (host.tasks ++ [_]).countP Task.flies + host.events.countP ManagementEvent.lands = 1
      rw [List.countP_append, Nat.add_right_comm]
      have single : host.tasks.countP Task.flies + host.events.countP ManagementEvent.lands = 0 :=
        single
      rw [single]
      rfl

theorem startCall {call : Ticket × ManagementCall} (tended : Tended (call :: queue) host) :
    Tended queue (host.startCall call) := by
  rcases call with ⟨ticket, call⟩
  unfold Host.startCall
  split
  · rename_i absent
    have absent : host.pending[ticket]? = none := by simpa using absent
    have same := tended.close none
    rwa [complete_of_none host ticket none absent] at same
  · split
    · exact tended.close _
    · cases call with
      | status => exact tended.startStatus
      | restart => exact tended.startRestart

theorem startCalls (tended : Tended queue host) : Tended [] (queue.foldl Host.startCall host) := by
  induction queue generalizing host with
  | nil => exact tended
  | cons call queue ih => exact ih tended.startCall

theorem startQueued (tended : Tended host.queued host) :
    Tended host.startQueued.queued host.startQueued := by
  rcases startQueued_queued host with ⟨clear, empty⟩ | ⟨_, same⟩
  · rw [empty]
    unfold Host.startQueued
    rw [if_neg (by simp [clear])]
    have emptied : Tended host.queued { host with queued := [] } :=
      ⟨tended.tended, tended.single⟩
    exact emptied.startCalls
  · rw [same]
    exact tended

end Tended

section Steps

/-- Answering the requesters closes their tickets, and no other. -/
theorem answers_pending (content : Host Params → Reply) (requesters : List Ticket)
    (host : Host Params) (ticket : Ticket) :
    (requesters.foldl
        (fun (host : Host Params) ticket => host.toolResult ticket (content host))
        host).pending[ticket]? =
      if ticket ∈ requesters then none else host.pending[ticket]? := by
  induction requesters generalizing host with
  | nil => rfl
  | cons first requesters ih =>
    rw [List.foldl_cons, ih, toolResult, complete_pending]
    by_cases later : ticket ∈ requesters
    · simp [later]
    · by_cases own : first = ticket
      · simp [own]
      · have differ : ticket ≠ first := fun same => own same.symm
        rw [if_neg later, if_neg own, if_neg]
        rw [List.mem_cons]
        rintro (same | mem)
        · exact differ same
        · exact later mem

theorem answers_closes (content : Host Params → Reply) (requesters : List Ticket)
    (host : Host Params) : Closes host (requesters.foldl
      (fun (host : Host Params) ticket => host.toolResult ticket (content host)) host) :=
  Closes.foldl (fun host ticket => Closes.complete host ticket _) requesters host

variable (decoding : Decoding Params Arguments) {host : Host Params}
  (tended : Tended host.queued host)
include tended

theorem Tended.dispatchRoute {next : Ticket} (id : RequestId) (route : Route)
    (answered : route ≠ .ping) (message : Incoming Params) (refusal : Option String) :
    Tended ((host.accept next id route).dispatchRoute host.nextTicket route message refusal).queued
      ((host.accept next id route).dispatchRoute host.nextTicket route message refusal) := by
  have lookups := host.accept_pending next id route
  cases route with
  | ping => exact absurd rfl answered
  | worker behavior =>
    have accepted : Tended host.queued (host.accept next id (.worker behavior)) := by
      refine tended.of_fewer rfl rfl rfl fun ticket pending found owned => ?_
      rw [lookups] at found
      split at found
      · cases found
        cases owned
      · exact ⟨pending, found, owned⟩
    have refused : ∀ reason, Tended ((host.accept next id (.worker behavior)).toolError
          host.nextTicket reason).queued
        ((host.accept next id (.worker behavior)).toolError host.nextTicket reason) := by
      intro reason
      rw [toolError, complete_queued]
      exact accepted.complete _ _
    unfold Host.dispatchRoute
    dsimp only
    split
    · exact refused _
    · split
      · exact refused _
      · exact accepted.of_fewer rfl rfl rfl fun _ pending found owned => ⟨pending, found, owned⟩
  | management call =>
    have queued : Tended (host.queued ++ [(host.nextTicket, call)])
        { host.accept next id (.management call) with
          queued := host.queued ++ [(host.nextTicket, call)] } := by
      refine ⟨fun ticket pending found owned => ?_, tended.single⟩
      have found := (lookups ticket).symm.trans found
      rw [List.map_append]
      split at found
      · rename_i same
        exact .inl (List.mem_append_right _ (List.mem_singleton.mpr same.symm))
      · exact (tended.tended ticket pending found owned).imp_left (List.mem_append_left _)
    exact queued.startQueued

theorem Tended.cancel (request : RequestId) (refusal : Option String) :
    Tended (host.cancel request refusal).queued (host.cancel request refusal) := by
  unfold Host.cancel
  split
  · exact tended
  · rename_i ticket named
    dsimp only
    split
    · exact tended.of_fewer rfl rfl rfl fun _ pending found owned => ⟨pending, found, owned⟩
    · rename_i pending found
      have lookups := host.canceled_pending ticket pending
      have marked : Tended host.queued ({ host with
          external := Function.update host.external request none
          pending := host.pending.insert ticket { pending with delivery := .canceled } }.record
          (.canceled ticket)) := by
        refine tended.of_fewer rfl rfl rfl fun other kept present owned => ?_
        have present := (lookups other).symm.trans present
        split at present
        · rename_i same
          cases present
          exact ⟨pending, by rw [← same]; exact found, owned⟩
        · exact ⟨kept, present, owned⟩
      split
      · split
        · exact marked.of_fewer rfl rfl rfl fun _ pending found owned => ⟨pending, found, owned⟩
        · exact marked
      · split
        · refine ⟨fun other kept present owned => ?_, marked.single⟩
          have present := (Table.getElem?_erase (host.pending.insert ticket
            { pending with delivery := Delivery.canceled }) ticket other).symm.trans present
          split at present
          · cases present
          · rename_i differ
            refine (marked.tended other kept present owned).imp_left fun waits => ?_
            obtain ⟨⟨listed, call⟩, mem, same⟩ := List.mem_map.mp waits
            refine List.mem_map.mpr ⟨(listed, call), (List.mem_eraseP_of_neg ?_).mpr mem, same⟩
            have same : listed = other := same
            rw [same]
            simpa using fun equal : other = ticket => differ equal.symm
        · exact marked

theorem Tended.incoming (message : Incoming Params) (refusal : Option String) :
    Tended (host.incoming decoding message refusal).queued
      (host.incoming decoding message refusal) := by
  unfold Host.incoming
  split
  · exact tended.record _
  · split
    · split
      · split
        · exact tended
        · exact tended.cancel _ refusal
      · exact tended
    · split
      · exact tended.record _
      · split
        · exact tended.record _
        · split
          · exact tended.record _
          · exact tended.record _
          · rename_i route answered _
            split
            · exact tended.record _
            · split
              · exact tended.of_fewer rfl rfl rfl
                  fun _ pending found owned => ⟨pending, found, owned⟩
              · exact tended.dispatchRoute _ route (fun ping => answered ping) message refusal

theorem Tended.workerSays (child : Child Params) :
    Tended (host.workerSays child).queued (host.workerSays child) := by
  unfold Host.workerSays
  split
  · exact tended
  · rename_i message rest said
    have read : Tended host.queued ({ host.moved { child with output := rest } with
        checkpoint := message.checkpoint } : Host Params) :=
      tended.of_fewer rfl rfl rfl fun _ pending found owned => ⟨pending, found, owned⟩
    have closed : ∀ ticket reply, Tended
        ({ host.moved { child with output := rest } with
          checkpoint := message.checkpoint }.complete ticket reply).startQueued.queued
        ({ host.moved { child with output := rest } with
          checkpoint := message.checkpoint }.complete ticket reply).startQueued := by
      intro ticket reply
      refine Tended.startQueued ?_
      rw [complete_queued]
      exact read.complete ticket reply
    unfold Host.workerMessage
    dsimp only
    split
    · exact closed _ _
    · exact closed _ _

/-- Management calls stay when the worker's calls are interrupted. -/
theorem Tended.interrupted (worker : Worker Params) :
    Tended host.queued { host with worker }.interruptWorkerRequests := by
  have closes := Closes.interruptWorkerRequests { host with worker }
  have follows := Follows.interruptWorkerRequests { host with worker }
  have replaced : Tended host.queued { host with worker } :=
    tended.of_fewer rfl rfl rfl fun _ pending found owned => ⟨pending, found, owned⟩
  exact replaced.of_closes closes follows.events follows

theorem Tended.workerLost (reason : String) :
    Tended (host.workerLost reason).queued (host.workerLost reason) := by
  refine Tended.startQueued ?_
  rw [(Closes.interruptWorkerRequests _).queued]
  exact tended.interrupted _

theorem Tended.advance (index : Nat) (answers : Answers) :
    Tended host.queued (host.advance index answers) := by
  unfold Host.advance
  split
  · exact tended
  · rename_i task found
    obtain ⟨bound, own⟩ := List.getElem?_eq_some_iff.mp found
    have parts : host.tasks = host.tasks.take index ++ [task] ++ host.tasks.drop (index + 1) := by
      rw [← own, List.append_assoc, List.singleton_append, List.getElem_cons_drop,
        List.take_append_drop]
    obtain ⟨taken, flights⟩ := task.advance_tends answers
    refine ⟨fun ticket pending present owned => ?_, ?_⟩
    · rcases tended.tended ticket pending present owned with
        waits | ⟨worker, mem, mine⟩ | ⟨event, mem, mine⟩ | flight
      · exact .inl waits
      · rw [parts, List.mem_append, List.mem_append, List.mem_singleton] at mem
        rcases mem with (before | rfl) | after
        · exact .inr (.inl ⟨worker, List.mem_append_left _ (List.mem_append_left _ before), mine⟩)
        · exact .inr (.inr (.inl ⟨_, List.mem_append_right _ (List.mem_singleton.mpr rfl),
            taken.trans mine⟩))
        · exact .inr (.inl ⟨worker, List.mem_append_right _ after, mine⟩)
      · exact .inr (.inr (.inl ⟨event, List.mem_append_left _ mem, mine⟩))
      · exact .inr (.inr (.inr flight))
    · have single := tended.single
      unfold aloft at single ⊢
      rw [parts] at single
      simp only [List.countP_append] at single flights ⊢
      omega

/-- Whoever the event read tended is tended by nobody else now. -/
theorem Tended.reads {event : ManagementEvent Params} {rest : List (ManagementEvent Params)}
    (waiting : host.events = event :: rest) (ticket : Ticket) {pending : Pending}
    (found : host.pending[ticket]? = some pending) (owned : pending.owner = .management) :
    event.ticket? = some ticket ∨ ticket ∈ host.queued.map Prod.fst ∨
      (∃ task ∈ host.tasks, task.ticket? = some ticket) ∨
      (∃ event ∈ rest, event.ticket? = some ticket) ∨
      ∃ flight, host.flight = some flight ∧ ticket ∈ flight.requesters := by
  rcases tended.tended ticket pending found owned with waits | task | event | flight
  · exact .inr (.inl waits)
  · exact .inr (.inr (.inl task))
  · obtain ⟨event, mem, mine⟩ := event
    rw [waiting] at mem
    rcases List.mem_cons.mp mem with same | later
    · rw [same] at mine
      exact .inl mine
    · exact .inr (.inr (.inr (.inl ⟨event, later, mine⟩)))
  · exact .inr (.inr (.inr (.inr flight)))

theorem Tended.managementMessage {event : ManagementEvent Params}
    {rest : List (ManagementEvent Params)} (waiting : host.events = event :: rest) :
    Tended (({ host with events := rest } : Host Params).managementMessage event).queued
      (({ host with events := rest } : Host Params).managementMessage event) := by
  have single := tended.single
  rw [aloft, waiting] at single
  cases event with
  | status ticket result =>
    have closed : ∀ line, Tended
        (({ host with events := rest } : Host Params).complete ticket (some line)).startQueued.queued
        (({ host with events := rest } : Host Params).complete ticket
          (some line)).startQueued := by
      intro line
      refine Tended.startQueued ?_
      have closes := Closes.complete { host with events := rest } ticket (some line)
      rw [closes.queued]
      refine ⟨fun other pending found owned => ?_, ?_⟩
      · rw [complete_pending] at found
        split at found
        · cases found
        · rename_i differ
          rw [closes.tasks, complete_events, closes.flight]
          refine (tended.reads waiting other found owned).resolve_left fun same => ?_
          exact differ (Option.some.inj same)
      · rw [aloft, closes.tasks, complete_events, closes.flight]
        exact single
    cases result with
    | ok value => exact closed _
    | error error => exact closed _
  | accepted operation =>
    unfold Host.managementMessage
    dsimp only
    split
    · rename_i grounded
      have grounded : host.flight = none := grounded
      refine Tended.startQueued ⟨fun ticket pending found owned => ?_, single⟩
      exact (tended.reads waiting ticket found owned).resolve_left (fun same => nomatch same)
    · rename_i flight flying
      have flying : host.flight = some flight := flying
      have closes := answers_closes (fun host : Host Params => host.underway operation)
        flight.requesters
        { host with events := rest, flight := some ⟨[], .accepted operation⟩ }
      have follows := Follows.answers (fun host : Host Params => host.underway operation)
        flight.requesters
        { host with events := rest, flight := some ⟨[], .accepted operation⟩ }
      refine Tended.startQueued ?_
      rw [closes.queued]
      refine ⟨fun ticket pending found owned => ?_, ?_⟩
      · rw [answers_pending] at found
        split at found
        · cases found
        · rename_i other
          rw [closes.tasks, follows.events]
          rcases (tended.reads waiting ticket found owned).resolve_left
            (fun same => nomatch same) with waits | task | event | ⟨old, same, mem⟩
          · exact .inl waits
          · exact .inr (.inl task)
          · exact .inr (.inr (.inl event))
          · rw [flying] at same
            cases same
            exact absurd mem other
      · rw [aloft, closes.tasks, follows.events, closes.flight]
        rw [flying] at single
        exact single
  | finished result replacement =>
    have landed : host.tasks.countP Task.flies + rest.countP ManagementEvent.lands = 0 ∧
        host.flight.isSome := by
      rw [List.countP_cons_of_pos (show (ManagementEvent.finished result replacement).lands from
        rfl)] at single
      split at single
      · exact ⟨by omega, by assumption⟩
      · omega
    obtain ⟨clear, flies⟩ := landed
    obtain ⟨flight, flying⟩ := Option.isSome_iff_exists.mp flies
    -- The worker's calls may be interrupted first; the flight's requesters are not.
    obtain ⟨base, same, queued, tasks, events, aboard, kept⟩ : ∃ base : Host Params,
        base = ({ host with events := rest } : Host Params).replaced replacement ∧
        base.queued = host.queued ∧ base.tasks = host.tasks ∧ base.events = rest ∧
        base.flight = host.flight ∧ ∀ (ticket : Ticket) (pending : Pending),
          base.pending[ticket]? = some pending → host.pending[ticket]? = some pending := by
      refine ⟨_, rfl, ?_⟩
      cases replacement with
      | keep => exact ⟨rfl, rfl, rfl, rfl, fun _ _ found => found⟩
      | install worker =>
        have closes := Closes.interruptWorkerRequests { host with events := rest, worker }
        have follows := Follows.interruptWorkerRequests { host with events := rest, worker }
        exact ⟨closes.queued, closes.tasks, follows.events, closes.flight, follows.pending⟩
    unfold Host.managementMessage
    dsimp only
    rw [← same, aboard, flying]
    dsimp only
    have closes := answers_closes (fun _ : Host Params => Reply.upgrade result)
      flight.requesters { base with flight := none }
    have follows := Follows.answers (fun _ : Host Params => Reply.upgrade result)
      flight.requesters { base with flight := none }
    refine Tended.startQueued ?_
    rw [closes.queued]
    refine ⟨fun ticket pending found owned => ?_, ?_⟩
    · rw [answers_pending] at found
      split at found
      · cases found
      · rename_i other
        rw [closes.tasks, follows.events]
        rcases (tended.reads waiting ticket (kept ticket pending found) owned).resolve_left
          (fun same => nomatch same) with waits | task | event | ⟨old, same, mem⟩
        · exact .inl (by rw [show ({ base with flight := none } : Host Params).queued =
            host.queued from queued]; exact waits)
        · exact .inr (.inl (by
            rw [show ({ base with flight := none } : Host Params).tasks = host.tasks from tasks]
            exact task))
        · exact .inr (.inr (.inl (by
            rw [show ({ base with flight := none } : Host Params).events = rest from events]
            exact event)))
        · rw [flying] at same
          cases same
          exact absurd mem other
    · rw [aloft, closes.tasks, follows.events, closes.flight,
        show ({ base with flight := none } : Host Params).tasks = host.tasks from tasks,
        show ({ base with flight := none } : Host Params).events = rest from events]
      exact clear

theorem Tended.step (action : Action Params) :
    Tended (host.step decoding action).queued (host.step decoding action) := by
  have moved : ∀ child, Tended host.queued (host.moved child) := fun child =>
    tended.of_fewer rfl rfl rfl fun _ pending found owned => ⟨pending, found, owned⟩
  unfold Host.step
  split
  · exact tended
  · split
    · exact tended.incoming decoding _ _
    · exact tended.record _
    · split
      · unfold Host.workerTakes
        split
        · exact (moved _).record _
        · exact moved _
      · exact tended
    · split
      · exact moved _
      · exact tended
    · split
      · exact tended.workerSays _
      · exact tended
    · split
      · exact tended.workerLost _
      · exact tended
    · have advanced := tended.advance
      unfold Host.advance at advanced ⊢
      split
      · exact tended
      · rename_i index answers _ task found
        have after := advanced index answers
        rw [found] at after
        exact after
    · split
      · exact tended
      · rename_i event rest waiting
        exact tended.managementMessage waiting

end Steps

section Rest

/-- Nothing is under way: no background task, no unread event, no line to the worker or
from it, and no open wait. -/
structure Resting (host : Host Params) : Prop where
  tasks : host.tasks = []
  events : host.events = []
  idle : ∀ child, host.worker.process = .running child →
    child.input = [] ∧ child.active = [] ∧ child.output = []

/-- When nothing is under way, every request is closed. -/
theorem Resting.closed {host : Host Params} (resting : Resting host) (accounts : Accounts host)
    (tended : Tended host.queued host) (ticket : Ticket) : host.pending[ticket]? = none := by
  have served : ∀ (other : Ticket) (pending : Pending), host.pending[other]? = some pending →
      pending.owner ≠ .worker := by
    intro other pending found owned
    obtain ⟨child, running, has⟩ := accounts.custody.held other pending found owned
    obtain ⟨input, active, output⟩ := resting.idle child running
    simp [Child.Has, Child.taking, input, active, output] at has
  have clear : host.barriers = false := by
    by_contra held
    obtain ⟨other, pending, found, owned, _⟩ := barriers_iff.mp (by simpa using held)
    exact served other pending found owned
  have empty : host.queued = [] := by
    by_contra waits
    have held := accounts.orderly.waiting waits
    rw [clear] at held
    cases held
  have single := tended.single
  rw [aloft, resting.tasks, resting.events] at single
  have grounded : host.flight = none := by
    by_contra flying
    rw [if_pos (Option.isSome_iff_ne_none.mpr flying)] at single
    cases single
  by_contra present
  obtain ⟨pending, found⟩ := Option.ne_none_iff_exists'.mp present
  cases owned : pending.owner with
  | worker => exact served ticket pending found owned
  | management =>
    have tends := tended.tended ticket pending found owned
    rw [empty, resting.tasks, resting.events, grounded] at tends
    rcases tends with waits | ⟨task, mem, _⟩ | ⟨event, mem, _⟩ | ⟨flight, same, _⟩
    · cases waits
    · cases mem
    · cases mem
    · cases same

end Rest

end Host

end Nits.Mcp
