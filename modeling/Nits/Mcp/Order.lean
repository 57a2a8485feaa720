import Nits.Mcp.Requests

/-!
# The order the loop keeps

Between two events of the loop nothing waits in the queue but behind a `Session` call, and
no such call is outstanding during a flight. What a background task will install runs.
-/

namespace Nits.Mcp

open Logical
open Protocol hiding UpgradeOperation
open Protocol.Lifecycle

variable {Params Arguments : Type}

/-- The process of the worker was not observed dead. -/
def Worker.Alive (worker : Worker Params) : Prop :=
  ∃ child, worker.process = .running child

/-- A replacement that is installed runs, and has said nothing yet. -/
def Replacement.Alive : Replacement Params → Prop
  | .keep => True
  | .install worker => ∃ server, worker.process = .running (.restored server)

section Replies

variable {Arguments : Type} {child : Child Params}

theorem Server.prepareCall_quiet (server : Server) (call : Call) (answer : Answer) :
    ∀ reply ∈ (server.prepareCall call answer).2, reply.Quiet := by
  unfold Server.prepareCall Server.setIdentity Server.useContext Server.notInitialized
  intro reply said value same
  subst same
  grind

/-- No worker answers as a restart does. -/
theorem Server.dispatch_quiet (decoding : Decoding Params Arguments) (server : Server)
    (message : Incoming Params) (answer : Answer) :
    ∀ reply, (server.dispatch decoding message answer).2 = .reply reply →
      reply.content.Quiet := by
  intro reply said value same
  unfold Server.dispatch at said
  split at said
  · cases said
    cases same
  · split at said
    · split at said
      · split at said <;> cases said
      · cases said
    · split at said
      · cases said
        cases same
      · split at said
        · cases said
          cases same
        · cases said
          cases same
        · cases said
          cases same
        · cases said
          cases same
        · cases said
          cases same
        · split at said
          · cases said
            cases same
          · split at said
            · cases said
              cases same
            · split at said
              · cases said
                cases same
              · rename_i call _
                split at said
                · cases said
                · rename_i prepared
                  cases said
                  have quiet := Server.prepareCall_quiet server call answer
                  rw [prepared] at quiet
                  exact quiet _ rfl value same

/-- No reply under way from the worker is one of a restart. -/
def Child.Quiet (child : Child Params) : Prop :=
  ∀ output ∈ child.output, ∀ ticket line, output.event = .handled ticket (some line) →
    line.content.Quiet

theorem Child.quiet_say (quiet : child.Quiet) {event : OutputEvent}
    (said : ∀ ticket line, event = .handled ticket (some line) → line.content.Quiet) :
    (child.say event).Quiet := by
  intro output mem
  rcases List.mem_append.mp mem with old | new
  · exact quiet output old
  · rw [List.mem_singleton.mp new]
    exact said

theorem Child.quiet_takes (decoding : Decoding Params Arguments) (quiet : child.Quiet)
    (answer : Answer) : (child.takes decoding answer).Quiet := by
  unfold Child.takes
  split
  · exact quiet
  · split
    · exact quiet
    · exact Child.quiet_say (by exact quiet) (fun _ _ same => nomatch same)
    · rename_i ticket message rest taken
      have answered := Server.dispatch_quiet decoding child.server
        (Child.addressed ticket message) answer
      generalize child.server.dispatch decoding (Child.addressed ticket message) answer =
        outcome at answered
      obtain ⟨server, outcome⟩ := outcome
      cases outcome with
      | reply reply =>
        refine Child.quiet_say (by exact quiet) fun _ line same => ?_
        cases same
        exact answered reply rfl
      | notification => exact Child.quiet_say (by exact quiet) (fun _ _ same => nomatch same)
      | cancel => exact quiet
      | wait id =>
        unfold Child.dispatched
        dsimp only
        split
        · refine Child.quiet_say (by exact quiet) fun _ line same value upgrade => ?_
          cases same
          cases upgrade
        · split
          · exact quiet
          · exact quiet

theorem Child.quiet_waitEnds (quiet : child.Quiet) (ticket : Ticket) (content : String) :
    (child.waitEnds ticket content).Quiet := by
  unfold Child.waitEnds
  split
  · exact quiet
  · split
    · refine Child.quiet_say (by exact quiet) fun _ line same value upgrade => ?_
      cases same
      cases upgrade
    · exact quiet

end Replies

section Activation

theorem Worker.spawn_alive {build : BuildDescriptor} {checkpoint : SessionCheckpoint}
    {failure : Option String} {worker : Worker Params}
    (spawned : Worker.spawn build checkpoint failure = .ok worker) :
    (Replacement.install worker).Alive := by
  obtain ⟨server, _, _, running⟩ := Worker.spawn_ok spawned
  exact ⟨server, running⟩

/-- A prepared replacement runs; the worker in place is kept only by a flight that found it
running. -/
theorem prepareReplacement_alive {checkpoint : SessionCheckpoint} {current : BuildDescriptor}
    {policy : ReplacementPolicy} {answers : Answers} {prepared : PreparedUpgrade Params}
    (ready : prepareReplacement checkpoint current policy answers = .ok prepared) :
    prepared.replacement.Alive ∧
      (prepared.replacement = .keep → prepared.activation = .unmanaged ∨
        policy = .retainSameBuild) := by
  unfold prepareReplacement at ready
  split at ready
  · cases ready
    exact ⟨trivial, fun _ => .inl rfl⟩
  all_goals
    split at ready
    · cases ready
    · split at ready
      · rename_i kept
        cases ready
        exact ⟨trivial, fun _ => .inr kept.2⟩
      · split at ready
        · cases ready
        · rename_i spawned
          cases ready
          exact ⟨Worker.spawn_alive spawned, fun same => nomatch same⟩

/-- What a task will install runs. -/
def Task.Alive : Task Params → Prop
  | .monitor _ prepared _ => prepared.replacement.Alive
  | .status .. | .activate .. => True

def ManagementEvent.Alive : ManagementEvent Params → Prop
  | .finished _ replacement => replacement.Alive
  | .status .. | .accepted _ => True

theorem conclude_alive (endpoint : Endpoint) {prepared : PreparedUpgrade Params}
    (result : UpgradeResult) (alive : prepared.replacement.Alive) :
    (conclude endpoint prepared result).2.Alive := by
  unfold conclude
  split
  · trivial
  · trivial
  · exact alive

theorem Task.advance_alive {task : Task Params} (answers : Answers) (alive : task.Alive) :
    (task.advance answers).1.Alive ∧ ∀ rest ∈ (task.advance answers).2, rest.Alive := by
  cases task with
  | status => exact ⟨trivial, by simp [Task.advance]⟩
  | activate checkpoint current policy =>
    unfold Task.advance
    dsimp only
    split
    · exact ⟨trivial, by simp⟩
    · rename_i prepared ready
      have alive := (prepareReplacement_alive ready).1
      split
      · exact ⟨trivial, by simp⟩
      · split
        · refine ⟨trivial, fun rest left => ?_⟩
          cases left
          exact alive
        · exact ⟨conclude_alive _ _ alive, by simp⟩
  | monitor endpoint prepared operation => exact ⟨conclude_alive _ _ alive, by simp [Task.advance]⟩

end Activation

namespace Host

section Orderly

/-- A change that loses no `Session` call of the worker. -/
theorem barriers_of_lookups {host other : Host Params}
    (lookups : ∀ (ticket : Ticket) (pending : Pending), host.pending[ticket]? = some pending →
      pending.owner = .worker → ∃ kept : Pending, other.pending[ticket]? = some kept ∧
        kept.owner = .worker ∧ kept.behavior = pending.behavior)
    (held : host.barriers = true) : other.barriers = true := by
  obtain ⟨ticket, pending, found, owned, session⟩ := barriers_iff.mp held
  obtain ⟨kept, keptFound, keptOwned, same⟩ := lookups ticket pending found owned
  exact barriers_iff.mpr ⟨ticket, kept, keptFound, keptOwned, same.trans session⟩

/-- What holds between two events of the loop. -/
structure Orderly (host : Host Params) : Prop where
  /-- No `Session` call is outstanding during a flight. -/
  cleared : host.flight.isSome → host.barriers = false
  /-- Only a `Session` call holds the queue up. -/
  waiting : host.queued ≠ [] → host.barriers = true
  fresh : ∀ ticket : Ticket, host.nextTicket ≤ ticket → host.pending[ticket]? = none
  tasks : ∀ task ∈ host.tasks, task.Alive
  events : ∀ event ∈ host.events, event.Alive
  spoken : ∀ child, host.worker.process = .running child → child.Quiet

/-- No management call waits during a flight. -/
theorem Orderly.queued_nil {host : Host Params} (orderly : Orderly host)
    (flying : host.flight.isSome) : host.queued = [] := by
  by_contra waits
  have held := orderly.waiting waits
  rw [orderly.cleared flying] at held
  cases held

theorem kept_queued (queued : List (Ticket × ManagementCall)) :
    Kept fun host : Host Params => host.queued = queued where
  closed ticket _ _ same := (complete_queued _ ticket _).trans same
  interrupted _ _ _ _ same := same
  status _ _ _ same := same
  restart {host} ticket _ _ same := by
    unfold startRestart
    dsimp only
    split
    · exact same
    · exact (complete_queued _ ticket _).trans same
    · exact same

theorem kept_tasks : Kept fun host : Host Params => ∀ task ∈ host.tasks, task.Alive where
  closed ticket _ _ alive := by
    rw [toolResult, complete_tasks]
    exact alive
  interrupted _ _ _ _ alive := alive
  status {host} ticket _ _ alive := by
    intro task mem
    rcases List.mem_append.mp mem with old | new
    · exact alive task old
    · rw [List.mem_singleton.mp new]
      trivial
  restart {host} ticket _ _ alive := by
    unfold startRestart
    dsimp only
    split
    · exact alive
    · rw [toolResult, complete_tasks]
      exact alive
    · intro task mem
      rcases List.mem_append.mp mem with old | new
      · exact alive task old
      · rw [List.mem_singleton.mp new]
        trivial

/-- Starting the queue leaves it empty unless a `Session` call is outstanding. -/
theorem startQueued_queued (host : Host Params) :
    host.barriers = false ∧ host.startQueued.queued = [] ∨
      host.barriers = true ∧ host.startQueued = host := by
  cases held : host.barriers with
  | true => exact .inr ⟨rfl, by simp [startQueued, held]⟩
  | false =>
    refine .inl ⟨rfl, ?_⟩
    unfold startQueued
    rw [held]
    exact (kept_queued []).startCalls host.queued rfl

/-- After a change that starts nothing, starting the queue restores the order. -/
theorem Orderly.settle {base host : Host Params} (orderly : Orderly base)
    (follows : Follows base host) (cleared : host.flight.isSome → host.barriers = false)
    (tasks : host.tasks = base.tasks) : Orderly host.startQueued := by
  have started := Follows.startQueued host
  have whole := follows.trans started
  have alive : ∀ task ∈ host.tasks, task.Alive := by
    rw [tasks]
    exact orderly.tasks
  refine ⟨fun flying => ?_, fun waits => ?_, fun ticket beyond => ?_,
    kept_tasks.startQueued alive alive, ?_, ?_⟩
  · rcases startQueued_queued host with ⟨none, _⟩ | ⟨_, same⟩
    · by_contra held
      have before : host.barriers = true := started.barriers (by simpa using held)
      rw [none] at before
      cases before
    · rw [same] at flying ⊢
      exact cleared flying
  · rcases startQueued_queued host with ⟨_, empty⟩ | ⟨held, same⟩
    · exact absurd empty waits
    · rw [same]
      exact held
  · by_contra present
    obtain ⟨pending, found⟩ := Option.ne_none_iff_exists'.mp present
    rw [whole.nextTicket] at beyond
    have before := whole.pending ticket pending found
    rw [orderly.fresh ticket beyond] at before
    cases before
  · rw [whole.events]
    exact orderly.events
  · rw [whole.worker]
    exact orderly.spoken

/-- A change of the request table that keeps the worker's calls keeps the order. -/
theorem Orderly.retable {host other : Host Params} (orderly : Orderly host)
    (flight : other.flight = host.flight) (queued : other.queued ≠ [] → host.queued ≠ [])
    (back : ∀ (ticket : Ticket) (pending : Pending), other.pending[ticket]? = some pending →
      pending.owner = .worker → ∃ kept : Pending, host.pending[ticket]? = some kept ∧
        kept.owner = .worker ∧ kept.behavior = pending.behavior)
    (forth : ∀ (ticket : Ticket) (pending : Pending), host.pending[ticket]? = some pending →
      pending.owner = .worker → ∃ kept : Pending, other.pending[ticket]? = some kept ∧
        kept.owner = .worker ∧ kept.behavior = pending.behavior)
    (fresh : ∀ ticket : Ticket, other.nextTicket ≤ ticket → other.pending[ticket]? = none)
    (tasks : ∀ task ∈ other.tasks, task.Alive) (events : ∀ event ∈ other.events, event.Alive)
    (spoken : ∀ child, other.worker.process = .running child → child.Quiet) :
    Orderly other where
  cleared flying := by
    rw [flight] at flying
    by_contra held
    have before : host.barriers = true := barriers_of_lookups back (by simpa using held)
    rw [orderly.cleared flying] at before
    cases before
  waiting waits := barriers_of_lookups forth (orderly.waiting (queued waits))
  fresh := fresh
  tasks := tasks
  events := events
  spoken := spoken

/-- The requests stay as they were. -/
theorem Orderly.of_same {host other : Host Params} (orderly : Orderly host)
    (flight : other.flight = host.flight) (queued : other.queued = host.queued)
    (nextTicket : other.nextTicket = host.nextTicket)
    (pending : ∀ ticket : Ticket, other.pending[ticket]? = host.pending[ticket]?)
    (tasks : other.tasks = host.tasks) (events : other.events = host.events)
    (spoken : ∀ child, other.worker.process = .running child → child.Quiet) : Orderly other := by
  refine orderly.retable flight (by rw [queued]; exact id) ?_ ?_ ?_ ?_ ?_ spoken
  · exact fun ticket found present owned => ⟨found, (pending ticket).symm.trans present, owned, rfl⟩
  · exact fun ticket found present owned => ⟨found, (pending ticket).trans present, owned, rfl⟩
  · intro ticket beyond
    rw [nextTicket] at beyond
    exact (pending ticket).trans (orderly.fresh ticket beyond)
  · rw [tasks]
    exact orderly.tasks
  · rw [events]
    exact orderly.events

theorem Orderly.record {host : Host Params} (orderly : Orderly host) (event : Event Params) :
    Orderly (host.record event) :=
  orderly.of_same rfl rfl rfl (fun _ => rfl) rfl rfl orderly.spoken

/-- A worker that took a line runs as before, with one more line to take. -/
theorem send_ok {worker sent : Worker Params} {message : Input Params}
    {refusal : Option String} (taken : worker.send message refusal = .ok sent) :
    ∃ child, worker.process = .running child ∧ sent = { worker with
      process := .running { child with input := child.input ++ [message] } } := by
  unfold Worker.send at taken
  split at taken
  · rename_i child running
    split at taken
    · cases taken
    · cases taken
      exact ⟨child, running, rfl⟩
  · cases taken

theorem Orderly.sent {host : Host Params} (orderly : Orderly host) {sent : Worker Params}
    {message : Input Params} {refusal : Option String}
    (taken : host.worker.send message refusal = .ok sent) :
    Orderly { host with worker := sent } := by
  obtain ⟨child, running, rfl⟩ := send_ok taken
  refine orderly.of_same rfl rfl rfl (fun _ => rfl) rfl rfl fun later same => ?_
  cases same
  exact orderly.spoken child running

theorem Orderly.cancel {host : Host Params} (orderly : Orderly host) (request : RequestId)
    (refusal : Option String) : Orderly (host.cancel request refusal) := by
  unfold Host.cancel
  split
  · exact orderly
  · rename_i ticket named
    dsimp only
    split
    · exact orderly.of_same rfl rfl rfl (fun _ => rfl) rfl rfl orderly.spoken
    · rename_i pending found
      -- The canceled call stays with its owner, and holds up what it held up before.
      have lookups := host.canceled_pending ticket pending
      have marked : Orderly ({ host with
          external := Function.update host.external request none
          pending := host.pending.insert ticket { pending with delivery := .canceled } }.record
          (.canceled ticket)) := by
        refine orderly.retable rfl id ?_ ?_ ?_ orderly.tasks orderly.events orderly.spoken
        · intro other kept present owned
          have present := (lookups other).symm.trans present
          split at present
          · rename_i same
            cases present
            exact ⟨pending, by rw [← same]; exact found, owned, rfl⟩
          · exact ⟨kept, present, owned, rfl⟩
        · intro other kept present owned
          by_cases same : ticket = other
          · subst same
            rw [found] at present
            cases present
            exact ⟨_, (lookups ticket).trans (if_pos rfl), owned, rfl⟩
          · exact ⟨kept, (lookups other).trans ((if_neg same).trans present), owned, rfl⟩
        · intro other beyond
          have absent := orderly.fresh other beyond
          refine (lookups other).trans ((if_neg ?_).trans absent)
          rintro rfl
          rw [found] at absent
          cases absent
      split
      · split
        · rename_i taken
          exact marked.sent taken
        · exact marked
      · rename_i owned
        split
        · -- A call still queued is dropped; the worker never had it.
          have erased := fun other : Ticket => Table.getElem?_erase (host.pending.insert ticket
            { pending with delivery := Delivery.canceled }) ticket other
          refine marked.retable rfl (fun left => ?_) ?_ ?_ ?_ marked.tasks marked.events
            marked.spoken
          · rintro empty
            have empty : host.queued = [] := empty
            refine left ?_
            change List.eraseP _ host.queued = []
            rw [empty]
            rfl
          · intro other kept present mine
            have present := (erased other).symm.trans present
            split at present
            · cases present
            · exact ⟨kept, present, mine, rfl⟩
          · intro other kept present mine
            refine ⟨kept, (erased other).trans ?_, mine, rfl⟩
            rw [if_neg]
            · exact present
            · rintro rfl
              have present := (lookups ticket).symm.trans present
              rw [if_pos rfl] at present
              cases present
              rw [show pending.owner = .management from owned] at mine
              cases mine
          · intro other beyond
            refine (erased other).trans ?_
            split
            · rfl
            · exact marked.fresh other beyond
        · exact marked

section Accept

variable {host : Host Params} (orderly : Orderly host) {next : Ticket}
  (following : host.nextTicket.next = some next) (id : RequestId)

theorem Ticket.lt_next {ticket next : Ticket} (following : ticket.next = some next) :
    ticket < next := by
  unfold Ticket.next at following
  split at following
  · rw [← Option.some.inj following]
    exact Nat.lt_succ_self ticket
  · cases following

theorem accept_pending (host : Host Params) (next : Ticket) (id : RequestId) (route : Route)
    (ticket : Ticket) : (host.accept next id route).pending[ticket]? =
      if host.nextTicket = ticket then
        some ⟨.reply id, route.scheduled.1, route.scheduled.2⟩
      else host.pending[ticket]? :=
  Table.getElem?_insert _ _ _ _

include orderly following

theorem Orderly.accept_fresh (route : Route) (ticket : Ticket) (beyond : next ≤ ticket) :
    (host.accept next id route).pending[ticket]? = none := by
  have later : host.nextTicket < ticket := (Ticket.lt_next following).trans_le beyond
  rw [accept_pending, if_neg later.ne]
  exact orderly.fresh ticket later.le

/-- A request accepted for the supervisor itself holds nothing up. -/
theorem Orderly.accept_management (call : ManagementCall) :
    Orderly (host.accept next id (.management call)) := by
  have lookups := host.accept_pending next id (.management call)
  refine orderly.retable rfl (fun waits => waits) ?_ ?_ (orderly.accept_fresh following id _)
    orderly.tasks orderly.events orderly.spoken
  · intro ticket kept present owned
    rw [lookups] at present
    split at present
    · cases present
      cases call <;> cases owned
    · exact ⟨kept, present, owned, rfl⟩
  · intro ticket kept present owned
    refine ⟨kept, ?_, owned, rfl⟩
    rw [lookups, if_neg]
    · exact present
    · rintro rfl
      rw [orderly.fresh _ le_rfl] at present
      cases present

omit following in
/-- A request refused at once leaves the table as it was. -/
theorem Orderly.refused_pending (route : Route) (message : String) (ticket : Ticket) :
    ((host.accept next id route).toolError host.nextTicket message).pending[ticket]? =
      host.pending[ticket]? := by
  rw [toolError, complete_pending, accept_pending]
  by_cases same : host.nextTicket = ticket
  · rw [if_pos same, orderly.fresh ticket same.le]
  · rw [if_neg same, if_neg same]

theorem Orderly.accept_refused (route : Route) (message : String) :
    Orderly ((host.accept next id route).toolError host.nextTicket message) := by
  have lookups : ∀ ticket, ((host.accept next id route).toolError host.nextTicket
      message).pending[ticket]? = host.pending[ticket]? :=
    orderly.refused_pending id route message
  have closes := Closes.complete (host.accept next id route) host.nextTicket
    (some ⟨.null, .invalid message⟩)
  refine orderly.retable closes.flight ?_ ?_ ?_ ?_ ?_ ?_ ?_
  · rw [toolError, closes.queued]
    exact fun waits => waits
  · exact fun ticket kept present owned => ⟨kept, (lookups ticket).symm.trans present, owned, rfl⟩
  · exact fun ticket kept present owned => ⟨kept, (lookups ticket).trans present, owned, rfl⟩
  · intro ticket beyond
    rw [toolError, complete_nextTicket] at beyond
    rw [lookups]
    exact orderly.fresh ticket ((Ticket.lt_next following).le.trans beyond)
  · rw [toolError, closes.tasks]
    exact orderly.tasks
  · rw [toolError, complete_events]
    exact orderly.events
  · rw [toolError, closes.worker]
    exact orderly.spoken

/-- An accepted call is refused, passed to the worker or queued. -/
theorem Orderly.dispatchRoute (route : Route) (message : Incoming Params)
    (refusal : Option String) (answered : route ≠ .ping) :
    Orderly ((host.accept next id route).dispatchRoute host.nextTicket route message refusal) := by
  cases route with
  | ping => exact absurd rfl answered
  | worker behavior =>
    unfold Host.dispatchRoute
    dsimp only
    split
    · exact orderly.accept_refused following id _ _
    · rename_i free
      split
      · exact orderly.accept_refused following id _ _
      · rename_i taken
        obtain ⟨child, running, rfl⟩ := send_ok taken
        have grounded : host.flight = none := by
          by_contra flying
          refine free ?_
          have flying : (host.accept next id (.worker behavior)).flight.isSome :=
            Option.isSome_iff_ne_none.mpr flying
          simp [upgrading, flying]
        refine ⟨fun flying => ?_, fun waits => ?_, orderly.accept_fresh following id _,
          orderly.tasks, orderly.events, fun later same => ?_⟩
        · have flying : host.flight.isSome := flying
          rw [grounded] at flying
          cases flying
        · refine barriers_of_lookups (fun ticket kept present owned => ⟨kept, ?_, owned, rfl⟩)
            (orderly.waiting waits)
          refine (host.accept_pending next id _ ticket).trans ((if_neg ?_).trans present)
          rintro rfl
          rw [orderly.fresh _ le_rfl] at present
          cases present
        · cases same
          exact orderly.spoken child running
  | management call =>
    have accepted := orderly.accept_management following id call
    exact accepted.settle { Follows.refl (host.accept next id (.management call)) with }
      accepted.cleared rfl

end Accept

section Steps

variable {Arguments : Type} (decoding : Decoding Params Arguments)
  {host : Host Params} (orderly : Orderly host)
include orderly

theorem Orderly.incoming (message : Incoming Params) (refusal : Option String) :
    Orderly (host.incoming decoding message refusal) := by
  unfold Host.incoming
  split
  · exact orderly.record _
  · split
    · split
      · split
        · exact orderly
        · exact orderly.cancel _ refusal
      · exact orderly
    · split
      · exact orderly.record _
      · split
        · exact orderly.record _
        · split
          · exact orderly.record _
          · exact orderly.record _
          · rename_i route answered _
            split
            · exact orderly.record _
            · split
              · exact orderly.of_same rfl rfl rfl (fun _ => rfl) rfl rfl orderly.spoken
              · rename_i next following
                exact orderly.dispatchRoute following _ route message refusal
                  (fun ping => answered ping)

/-- The worker moves on, having said nothing that a restart would. -/
theorem Orderly.moved {child : Child Params} (quiet : child.Quiet) :
    Orderly (host.moved child) := by
  refine orderly.of_same rfl rfl rfl (fun _ => rfl) rfl rfl fun later same => ?_
  cases same
  exact quiet

theorem Orderly.workerTakes {child : Child Params} (quiet : child.Quiet) (answer : Answer) :
    Orderly (host.workerTakes decoding child answer) := by
  have moved := orderly.moved (Child.quiet_takes decoding quiet answer)
  unfold Host.workerTakes
  split
  · exact moved.record _
  · exact moved

theorem Orderly.workerMessage (message : Output) : Orderly (host.workerMessage message) := by
  have saved : Orderly { host with checkpoint := message.checkpoint } :=
    orderly.of_same rfl rfl rfl (fun _ => rfl) rfl rfl orderly.spoken
  have closed : ∀ ticket reply,
      Orderly ({ host with checkpoint := message.checkpoint }.complete ticket
        reply).startQueued := by
    intro ticket reply
    refine saved.settle (Follows.complete _ ticket reply) (fun flying => ?_)
      (complete_tasks _ ticket reply)
    rw [complete_flight] at flying
    by_contra held
    have before := barriers_complete _ ticket reply (by simpa using held)
    rw [saved.cleared flying] at before
    cases before
  unfold Host.workerMessage
  dsimp only
  split
  · exact closed _ _
  · exact closed _ none

theorem Orderly.workerSays {child : Child Params} (quiet : child.Quiet) :
    Orderly (host.workerSays child) := by
  unfold Host.workerSays
  split
  · exact orderly
  · rename_i message rest said
    have later : Child.Quiet { child with output := rest } :=
      fun output mem => quiet output (by rw [said]; exact List.mem_cons_of_mem _ mem)
    exact (orderly.moved later).workerMessage message

/-- Everything of a lost or replaced worker is answered; the flight goes on. -/
theorem Orderly.interrupted (worker : Worker Params)
    (spoken : ∀ child, worker.process = .running child → child.Quiet) :
    Orderly { host with worker } ∧ Follows { host with worker }
      { host with worker }.interruptWorkerRequests ∧
      Closes { host with worker } { host with worker }.interruptWorkerRequests :=
  ⟨orderly.of_same rfl rfl rfl (fun _ => rfl) rfl rfl spoken,
    Follows.interruptWorkerRequests _, Closes.interruptWorkerRequests _⟩

theorem Orderly.workerLost (reason : String) : Orderly (host.workerLost reason) := by
  obtain ⟨lost, follows, closes⟩ := orderly.interrupted (host.worker.lost reason)
    (fun _ same => nomatch same)
  refine lost.settle follows (fun flying => ?_) closes.tasks
  rw [closes.flight] at flying
  by_contra held
  have before := follows.barriers (by simpa using held)
  rw [lost.cleared flying] at before
  cases before

theorem Orderly.advance (index : Nat) (answers : Answers) :
    Orderly (host.advance index answers) := by
  unfold Host.advance
  split
  · exact orderly
  · rename_i task running
    have alive := orderly.tasks task (List.mem_of_getElem? running)
    obtain ⟨event, rest⟩ := Task.advance_alive answers alive
    refine ⟨orderly.cleared, orderly.waiting, orderly.fresh, fun other mem => ?_,
      fun other mem => ?_, orderly.spoken⟩
    · rcases List.mem_append.mp mem with earlier | later
      · rcases List.mem_append.mp earlier with before | own
        · exact orderly.tasks other (List.mem_of_mem_take before)
        · exact rest other (by simpa using own)
      · exact orderly.tasks other (List.mem_of_mem_drop later)
    · rcases List.mem_append.mp mem with old | new
      · exact orderly.events other old
      · rw [List.mem_singleton.mp new]
        exact event

/-- Whatever worker is in place then, every call of the one before is answered. -/
theorem Orderly.replaced (replacement : Replacement Params) (alive : replacement.Alive) :
    ∃ base : Host Params, Orderly base ∧ Follows base (host.replaced replacement) ∧
      (host.replaced replacement).flight = host.flight ∧
      (host.replaced replacement).tasks = base.tasks := by
  cases replacement with
  | keep => exact ⟨host, orderly, Follows.refl host, rfl, rfl⟩
  | install worker =>
    obtain ⟨server, running⟩ := alive
    obtain ⟨installed, follows, closes⟩ := orderly.interrupted worker fun child same => by
      rw [running] at same
      cases same
      exact fun output mem => nomatch mem
    exact ⟨_, installed, follows.trans (Follows.record _ .toolsChanged), closes.flight,
      closes.tasks⟩

/-- A background task's news is answered, and the queue goes on. -/
theorem Orderly.managementMessage (message : ManagementEvent Params) (alive : message.Alive) :
    Orderly (host.managementMessage message) := by
  have closed : ∀ ticket reply, Orderly (host.complete ticket reply).startQueued := by
    intro ticket reply
    refine orderly.settle (Follows.complete _ ticket reply) (fun flying => ?_)
      (complete_tasks _ ticket reply)
    rw [complete_flight] at flying
    by_contra held
    have before := barriers_complete _ ticket reply (by simpa using held)
    rw [orderly.cleared flying] at before
    cases before
  cases message with
  | status ticket result =>
    cases result with
    | ok value => exact closed ticket _
    | error error => exact closed ticket _
  | accepted operation =>
    unfold Host.managementMessage
    dsimp only
    split
    · exact orderly.settle (Follows.refl host) orderly.cleared rfl
    · rename_i flight flying
      have staged : Orderly { host with flight := some ⟨[], .accepted operation⟩ } :=
        ⟨fun _ => orderly.cleared (by rw [flying]; rfl), orderly.waiting, orderly.fresh,
          orderly.tasks, orderly.events, orderly.spoken⟩
      have closes := Closes.foldl (fun (host : Host Params) (ticket : Ticket) =>
        Closes.complete host ticket (some ⟨.null, host.underway operation⟩)) flight.requesters
        { host with flight := some ⟨[], .accepted operation⟩ }
      have follows := Follows.answers (fun host => host.underway operation) flight.requesters
        { host with flight := some ⟨[], .accepted operation⟩ }
      refine staged.settle follows (fun flying => ?_) closes.tasks
      by_contra held
      have before := follows.barriers (by simpa using held)
      rw [staged.cleared rfl] at before
      cases before
  | finished result replacement =>
    obtain ⟨base, ordered, follows, flight, tasks⟩ := orderly.replaced replacement alive
    unfold Host.managementMessage
    dsimp only
    split
    · rename_i grounded
      refine ordered.settle follows (fun flying => ?_) tasks
      rw [grounded] at flying
      cases flying
    · rename_i landing _
      have landed : Follows (host.replaced replacement)
          { host.replaced replacement with flight := none } := { Follows.refl _ with }
      have closes := Closes.foldl (fun (host : Host Params) (ticket : Ticket) =>
        Closes.complete host ticket (some ⟨.null, .upgrade result⟩)) landing.requesters
        { host.replaced replacement with flight := none }
      have answers := Follows.answers (fun _ => .upgrade result) landing.requesters
        { host.replaced replacement with flight := none }
      refine ordered.settle (follows.trans (landed.trans answers)) (fun flying => ?_)
        (closes.tasks.trans tasks)
      have flying := (congrArg Option.isSome closes.flight).symm.trans flying
      cases flying

theorem Orderly.step (action : Action Params) : Orderly (host.step decoding action) := by
  unfold Host.step
  split
  · exact orderly
  · split
    · exact orderly.incoming decoding _ _
    · exact orderly.record _
    · split
      · rename_i running
        exact orderly.workerTakes decoding (orderly.spoken _ running) _
      · exact orderly
    · split
      · rename_i running
        exact orderly.moved (Child.quiet_waitEnds (orderly.spoken _ running) _ _)
      · exact orderly
    · split
      · rename_i running
        exact orderly.workerSays (orderly.spoken _ running)
      · exact orderly
    · split
      · exact orderly.workerLost _
      · exact orderly
    · exact orderly.advance _ _
    · split
      · exact orderly
      · rename_i event rest waiting
        have read : Orderly { host with events := rest } :=
          ⟨orderly.cleared, orderly.waiting, orderly.fresh, orderly.tasks,
            fun other mem => orderly.events other (by
              rw [waiting]
              exact List.mem_cons_of_mem _ mem), orderly.spoken⟩
        exact read.managementMessage event
          (orderly.events event (by rw [waiting]; exact List.mem_cons_self))

end Steps

theorem start_orderly {build : BuildDescriptor} {checkpoint : SessionCheckpoint}
    {failure : Option String} {worker : Worker Params}
    (spawned : Worker.spawn build checkpoint failure = .ok worker)
    (supervisorBuild : BuildDescriptor) :
    Orderly (start worker checkpoint supervisorBuild) where
  cleared flying := nomatch flying
  waiting waits := absurd rfl waits
  fresh _ _ := Table.getElem?_empty _
  tasks _ mem := nomatch mem
  events _ mem := nomatch mem
  spoken child running := by
    obtain ⟨server, _, _, restored⟩ := Worker.spawn_ok spawned
    have running : worker.process = .running child := running
    rw [restored] at running
    cases running
    exact fun output mem => nomatch mem

end Orderly

end Host

end Nits.Mcp
