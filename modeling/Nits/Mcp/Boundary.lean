import Nits.Mcp.Pipeline

/-!
# The session a management call is given

A management call starts when no `Session` call is outstanding, and is given the
checkpoint of the session after exactly those `Session` calls accepted before it that had
an effect. A worker put in the place of another continues that session.
-/

namespace Nits.Mcp

open Logical
open Protocol hiding UpgradeOperation
open Protocol.Lifecycle

variable {Params Arguments : Type}

section Bound

/-- A replacement that is installed continues the session of the checkpoint. -/
def Replacement.Bound (checkpoint : SessionCheckpoint) : Replacement Params → Prop
  | .keep => True
  | .install worker => worker.tools = toolTable ∧
      ∃ server, Server.fromCheckpoint checkpoint = .ok server ∧
        worker.process = .running (.restored server)

def Task.Bound (checkpoint : SessionCheckpoint) : Task Params → Prop
  | .status .. => True
  | .activate saved _ _ => saved = checkpoint
  | .monitor _ prepared _ => prepared.replacement.Bound checkpoint

def ManagementEvent.Bound (checkpoint : SessionCheckpoint) : ManagementEvent Params → Prop
  | .status .. | .accepted _ => True
  | .finished _ replacement => replacement.Bound checkpoint

variable {checkpoint : SessionCheckpoint}

theorem prepareReplacement_bound {current : BuildDescriptor} {policy : ReplacementPolicy}
    {answers : Answers} {prepared : PreparedUpgrade Params}
    (ready : prepareReplacement checkpoint current policy answers = .ok prepared) :
    prepared.replacement.Bound checkpoint := by
  unfold prepareReplacement at ready
  split at ready
  · cases ready
    trivial
  all_goals
    split at ready
    · cases ready
    · split at ready
      · cases ready
        trivial
      · split at ready
        · cases ready
        · rename_i spawned
          cases ready
          obtain ⟨server, restored, _, running⟩ := Worker.spawn_ok spawned
          exact ⟨Worker.spawn_tools spawned, server, restored, running⟩

theorem conclude_bound (endpoint : Endpoint) {prepared : PreparedUpgrade Params}
    (result : UpgradeResult) (bound : prepared.replacement.Bound checkpoint) :
    (conclude endpoint prepared result).2.Bound checkpoint := by
  unfold conclude
  split
  · trivial
  · trivial
  · exact bound

theorem Task.advance_bound {task : Task Params} (answers : Answers)
    (bound : task.Bound checkpoint) : (task.advance answers).1.Bound checkpoint ∧
      ∀ rest ∈ (task.advance answers).2, rest.Bound checkpoint := by
  cases task with
  | status => exact ⟨trivial, by simp [Task.advance]⟩
  | activate saved current policy =>
    have same : saved = checkpoint := bound
    subst same
    unfold Task.advance
    dsimp only
    split
    · exact ⟨trivial, by simp⟩
    · rename_i prepared ready
      have bound := prepareReplacement_bound ready
      split
      · exact ⟨trivial, by simp⟩
      · split
        · refine ⟨trivial, fun rest left => ?_⟩
          cases left
          exact bound
        · exact ⟨conclude_bound _ _ bound, by simp⟩
  | monitor endpoint prepared operation =>
    exact ⟨conclude_bound _ _ bound, by simp [Task.advance]⟩

end Bound

section Boundary

/-- The request was accepted for the supervisor itself. -/
def Managed (history : List (Event Params)) (ticket : Ticket) : Prop :=
  ∃ id pending, .accepted ticket id pending ∈ history ∧ pending.owner = .management

theorem Managed.mono {history later : List (Event Params)} {ticket : Ticket}
    (managed : Managed history ticket) (kept : ∀ event ∈ history, event ∈ later) :
    Managed later ticket := by
  obtain ⟨id, pending, mem, owned⟩ := managed
  exact ⟨id, pending, kept _ mem, owned⟩

/-- A management call that started between `early` and `late` was given the checkpoint of
the session after the effects of `early`, all of calls accepted before it; every `Session`
call forwarded before was accepted before it, and had its effect or was interrupted; what
is forwarded later was accepted later. -/
structure Boundary (decoding : Decoding Params Arguments) (origin : Server)
    (early late : List (Event Params)) (ticket : Ticket) (checkpoint : SessionCheckpoint) :
    Prop where
  session : checkpoint = (origin.replay decoding (effects early)).checkpoint
  only : ∀ call ∈ effects early, call.1 < ticket
  before : ∀ other, Scheduled early other .session → .forwarded other ∈ early →
    other < ticket ∧ (.interrupted other ∈ early ∨ other ∈ (effects early).map Prod.fst)
  after : ∀ other, .forwarded other ∈ late → ticket < other

/-- An event written in one of two histories is in the first or the second. -/
theorem split_append {first second early late : List (Event Params)} {event : Event Params}
    (written : first ++ second = early ++ event :: late) :
    (∃ rest, first = early ++ event :: rest ∧ late = rest ++ second) ∨
      ∃ between, early = first ++ between ∧ second = between ++ event :: late := by
  rcases List.append_eq_append_iff.mp written with ⟨between, same, rest⟩ | ⟨between, same, rest⟩
  · exact .inr ⟨between, same, rest⟩
  · cases between with
    | nil => exact .inr ⟨[], by simpa using same.symm, by simpa using rest.symm⟩
    | cons other between =>
      rw [List.cons_append, List.cons.injEq] at rest
      obtain ⟨rfl, rfl⟩ := rest
      exact .inl ⟨between, same, rfl⟩

/-- The event neither accepts, forwards nor begins a call. -/
def Event.Still : Event Params → Prop
  | .accepted .. | .forwarded _ | .began .. => False
  | _ => True

section Stillness

variable {history news : List (Event Params)} {ticket : Ticket}

theorem Scheduled.of_still {behavior : ToolBehavior} (still : ∀ event ∈ news, event.Still)
    (scheduled : Scheduled (history ++ news) ticket behavior) :
    Scheduled history ticket behavior := by
  obtain ⟨id, pending, mem, rest⟩ := scheduled
  exact ⟨id, pending, (List.mem_append.mp mem).resolve_right (still _), rest⟩

theorem forwarded_of_still (still : ∀ event ∈ news, event.Still)
    (forwarded : .forwarded ticket ∈ history ++ news) : .forwarded ticket ∈ history :=
  (List.mem_append.mp forwarded).resolve_right (still _)

end Stillness

end Boundary

namespace Host

/-- A management call waits in the queue, has a task or an unread event, or waits for the
flight. -/
def Tends (host : Host Params) (ticket : Ticket) : Prop :=
  ticket ∈ host.queued.map Prod.fst ∨
    (∃ task ∈ host.tasks, task.ticket? = some ticket) ∨
    (∃ event ∈ host.events, event.ticket? = some ticket) ∨
    ∃ flight, host.flight = some flight ∧ ticket ∈ flight.requesters

/-- What holds of the session between two events of the loop. -/
structure Served (decoding : Decoding Params Arguments) (origin : Server) (host : Host Params) :
    Prop where
  managed : ∀ ticket, host.Tends ticket → Managed host.history ticket
  tools : host.worker.tools = toolTable
  single : ∀ child, host.worker.process = .running child → child.Single
  opened : ∀ child, host.worker.process = .running child → ∀ ticket,
    .serve ticket ∈ child.marks → .interrupted ticket ∉ host.history ∧
      ∃ pending : Pending, host.pending[ticket]? = some pending ∧ pending.owner = .worker
  requests : ∀ child, host.worker.process = .running child → ∀ ticket message,
    .dispatch ticket message ∈ child.input → Plays decoding host.history ticket message
  trail : ∃ done undone, effects host.history = done ++ undone ∧
    host.checkpoint = (origin.replay decoding done).checkpoint ∧
    (∀ call ∈ done, host.pending[call.1]? = none) ∧
    (∀ child, host.worker.process = .running child →
      Trail decoding (origin.replay decoding done) child.output undone child.server) ∧
    (∀ reason, host.worker.process = .unavailable reason → undone = [])
  sent : ∀ call ∈ effects host.history, .forwarded call.1 ∈ host.history
  reached : ∀ ticket, Scheduled host.history ticket .session →
    .forwarded ticket ∈ host.history → .interrupted ticket ∈ host.history ∨
      ticket ∈ (effects host.history).map Prod.fst ∨
      ∃ child, host.worker.process = .running child ∧ ticket ∈ child.taking
  tasks : ∀ task ∈ host.tasks, task.Bound host.checkpoint
  events : ∀ event ∈ host.events, event.Bound host.checkpoint
  order : ∀ ticket ∈ host.queued.map Prod.fst, ∀ other,
    Scheduled host.history other .session → .forwarded other ∈ host.history → other < ticket
  begun : ∀ early ticket call checkpoint late,
    host.history = early ++ .began ticket call checkpoint :: late →
      Boundary decoding origin early late ticket checkpoint

theorem taking_mark {child : Child Params} {ticket : Ticket} (mem : ticket ∈ child.taking) :
    Mark.serve ticket ∈ child.marks := by
  obtain ⟨input, within, same⟩ := List.mem_filterMap.mp mem
  refine List.mem_append_right _ (List.mem_append_right _ (List.mem_map.mpr ⟨input, within, ?_⟩))
  cases input with
  | dispatch other message =>
    cases same
    rfl
  | cancel => cases same

/-- A change that leaves the worker, its session and the `Session` calls alone. -/
structure Frames (host other : Host Params) : Prop where
  worker : other.worker = host.worker
  checkpoint : other.checkpoint = host.checkpoint
  opened : ∀ child, host.worker.process = .running child → ∀ ticket,
    .serve ticket ∈ child.marks → ∀ pending : Pending, host.pending[ticket]? = some pending →
      pending.owner = .worker →
        ∃ kept : Pending, other.pending[ticket]? = some kept ∧ kept.owner = .worker
  closed : ∀ ticket : Ticket, ticket < host.nextTicket → host.pending[ticket]? = none →
    other.pending[ticket]? = none
  history : ∃ news, other.history = host.history ++ news ∧ ∀ event ∈ news, event.Idle ∧
    (∀ ticket, event ≠ .forwarded ticket) ∧ ∀ ticket call checkpoint,
      event = .began ticket call checkpoint → checkpoint = host.checkpoint ∧
        ticket ∈ host.queued.map Prod.fst ∧ host.barriers = false
  tasks : ∀ task ∈ other.tasks, task ∈ host.tasks ∨ task.Bound host.checkpoint
  events : ∀ event ∈ other.events, event ∈ host.events ∨ event.Bound host.checkpoint
  tends : ∀ ticket, other.Tends ticket → host.Tends ticket
  queued : ∀ ticket ∈ other.queued.map Prod.fst, ticket ∈ host.queued.map Prod.fst

namespace Served

variable {decoding : Decoding Params Arguments} {origin : Server} {host : Host Params}
  (served : Served decoding origin host) {news : List (Event Params)}
include served

/-- While no `Session` call is outstanding, every effect has been read, and every such call
had its effect or was interrupted. -/
theorem settled (books : Books host) (clear : host.barriers = false) :
    host.checkpoint = (origin.replay decoding (effects host.history)).checkpoint ∧
      ∀ ticket, Scheduled host.history ticket .session → .forwarded ticket ∈ host.history →
        .interrupted ticket ∈ host.history ∨
          ticket ∈ (effects host.history).map Prod.fst := by
  have held : ∀ ticket, Scheduled host.history ticket .session → ∀ pending : Pending,
      host.pending[ticket]? = some pending → pending.owner = .worker → False := by
    intro ticket scheduled pending found owned
    obtain ⟨id, row, accepted, _, session⟩ := scheduled
    obtain ⟨other, known⟩ := books.known found
    obtain ⟨_, same⟩ := books.once ticket _ _ _ _ accepted known
    have session : pending.behavior = .session := by
      rw [same] at session
      exact session
    have barrier := barriers_iff.mpr ⟨ticket, pending, found, owned, session⟩
    rw [clear] at barrier
    cases barrier
  constructor
  · obtain ⟨done, undone, whole, checkpoint, _, trail, lost⟩ := served.trail
    have empty : undone = [] := by
      cases process : host.worker.process with
      | unavailable reason => exact lost reason process
      | running child =>
        by_contra some
        obtain ⟨call, rest, rfl⟩ := List.exists_cons_of_ne_nil some
        obtain ⟨output, said, mark⟩ := (trail child process).handled call List.mem_cons_self
        obtain ⟨_, pending, found, owned⟩ := served.opened child process call.1
          (List.mem_append_left _ (List.mem_map.mpr ⟨output, said, mark⟩))
        have effect : call ∈ effects host.history := by
          rw [whole]
          exact List.mem_append_right _ List.mem_cons_self
        exact held call.1 (of_effects effect).2.1 pending found owned
    rw [whole, empty, List.append_nil]
    exact checkpoint
  · intro ticket scheduled forwarded
    rcases served.reached ticket scheduled forwarded with interrupted | effect | taken
    · exact .inl interrupted
    · exact .inr effect
    · obtain ⟨child, running, taking⟩ := taken
      obtain ⟨_, pending, found, owned⟩ := served.opened child running ticket (taking_mark taking)
      exact (held ticket scheduled pending found owned).elim

/-- What was said of the boundaries so far stays, whatever comes next. -/
theorem begun_append (books : Books host)
    (later : ∀ ticket, .forwarded ticket ∈ news → host.nextTicket ≤ ticket)
    {early late : List (Event Params)} {ticket : Ticket} {call : ManagementCall}
    {checkpoint : SessionCheckpoint} {rest : List (Event Params)}
    (written : host.history = early ++ .began ticket call checkpoint :: rest)
    (whole : late = rest ++ news) : Boundary decoding origin early late ticket checkpoint := by
  have boundary := served.begun early ticket call checkpoint rest written
  have issued : ticket < host.nextTicket :=
    books.issued (.began ticket call checkpoint) (by simp [written]) ticket rfl
  refine ⟨boundary.session, boundary.only, boundary.before, fun other forwarded => ?_⟩
  rw [whole] at forwarded
  rcases List.mem_append.mp forwarded with old | new
  · exact boundary.after other old
  · exact issued.trans_le (later other new)

/-- Where no call begins, every boundary is one of those before. -/
theorem begun_still (books : Books host) (still : ∀ event ∈ news, event.Still)
    {early late : List (Event Params)} {ticket : Ticket} {call : ManagementCall}
    {checkpoint : SessionCheckpoint}
    (written : host.history ++ news = early ++ .began ticket call checkpoint :: late) :
    Boundary decoding origin early late ticket checkpoint := by
  rcases split_append written with ⟨rest, before, whole⟩ | ⟨between, _, split⟩
  · exact served.begun_append books (fun ticket mem => (still _ mem).elim) before whole
  · exact (still (.began ticket call checkpoint) (by rw [split]; simp)).elim

/-- What waits in the queue still comes after every call of the session. -/
theorem order_still (still : ∀ event ∈ news, event.Still) (ticket : Ticket)
    (waits : ticket ∈ host.queued.map Prod.fst) (other : Ticket)
    (session : Scheduled (host.history ++ news) other .session)
    (sent : .forwarded other ∈ host.history ++ news) : other < ticket :=
  served.order ticket waits other (session.of_still still) (forwarded_of_still still sent)

theorem of_frames (books : Books host) {other : Host Params} (frames : Frames host other) :
    Served decoding origin other := by
  obtain ⟨news, written, quiet⟩ := frames.history
  have idle : ∀ event ∈ news, event.Idle := fun event mem => (quiet event mem).1
  have longer : ∀ event ∈ host.history, event ∈ other.history := by
    rw [written]
    exact fun _ mem => List.mem_append_left _ mem
  have accepted : ∀ ticket id pending, .accepted ticket id pending ∈ host.history ++ news →
      .accepted ticket id pending ∈ host.history := by
    intro ticket id pending mem
    exact (List.mem_append.mp mem).resolve_right fun new => idle _ new
  have scheduled : ∀ {early} ticket behavior, (∀ event ∈ early, event ∈ host.history ++ news) →
      Scheduled early ticket behavior → Scheduled host.history ticket behavior := by
    rintro early ticket behavior part ⟨id, pending, mem, rest⟩
    exact ⟨id, pending, accepted _ _ _ (part _ mem), rest⟩
  have forwarded : ∀ ticket, .forwarded ticket ∈ host.history ++ news →
      .forwarded ticket ∈ host.history := by
    intro ticket mem
    exact (List.mem_append.mp mem).resolve_right fun new => (quiet _ new).2.1 ticket rfl
  have effective : effects other.history = effects host.history := by
    rw [written, effects_idle idle]
  refine ⟨?_, ?_, ?_, ?_, ?_, ?_, ?_, ?_, ?_, ?_, ?_, ?_⟩
  · exact fun ticket tends => (served.managed ticket (frames.tends ticket tends)).mono longer
  · rw [frames.worker]
    exact served.tools
  · rw [frames.worker]
    exact served.single
  · rw [frames.worker]
    intro child running ticket mem
    obtain ⟨live, pending, found, owned⟩ := served.opened child running ticket mem
    refine ⟨fun interrupted => ?_, frames.opened child running ticket mem pending found owned⟩
    rw [written] at interrupted
    exact live ((List.mem_append.mp interrupted).resolve_right fun new => idle _ new)
  · rw [frames.worker]
    exact fun child running ticket message mem =>
      (served.requests child running ticket message mem).mono decoding longer
  · obtain ⟨done, undone, whole, checkpoint, closed, trail, lost⟩ := served.trail
    refine ⟨done, undone, by rw [effective, whole], by rw [frames.checkpoint, checkpoint],
      fun call mem => ?_, ?_, ?_⟩
    · have effect : call ∈ effects host.history := by
        rw [whole]
        exact List.mem_append_left _ mem
      exact frames.closed call.1 (books.issued _ (of_effects effect).1 _ rfl) (closed call mem)
    · rw [frames.worker]
      exact trail
    · rw [frames.worker]
      exact lost
  · rw [effective]
    exact fun call mem => longer _ (served.sent call mem)
  · rw [effective, frames.worker, written]
    intro ticket session sent
    refine (served.reached ticket (scheduled _ _ (fun _ mem => mem) session)
      (forwarded ticket sent)).imp_left fun interrupted => List.mem_append_left _ interrupted
  · rw [frames.checkpoint]
    exact fun task mem => (frames.tasks task mem).elim (served.tasks task) id
  · rw [frames.checkpoint]
    exact fun event mem => (frames.events event mem).elim (served.events event) id
  · rw [written]
    exact fun ticket waits other session sent => served.order ticket (frames.queued ticket waits)
      other (scheduled _ _ (fun _ mem => mem) session) (forwarded other sent)
  · intro early ticket call checkpoint late same
    rw [written] at same
    rcases split_append same with ⟨rest, before, whole⟩ | ⟨between, whole, split⟩
    · exact served.begun_append books (fun ticket mem =>
        ((quiet _ mem).2.1 ticket rfl).elim) before whole
    · -- The call started just now, from the queue.
      have mem : .began ticket call checkpoint ∈ news := by simp [split]
      obtain ⟨given, waits, clear⟩ := (quiet _ mem).2.2 ticket call checkpoint rfl
      obtain ⟨session, settled⟩ := served.settled books clear
      have part : ∀ event ∈ between, event ∈ news := by
        rw [split]
        exact fun _ mem => List.mem_append_left _ mem
      have same : effects early = effects host.history := by
        rw [whole, effects_idle fun event mem => idle event (part event mem)]
      have within : ∀ event ∈ early, event ∈ host.history ++ news := by
        rw [whole]
        intro event mem
        rcases List.mem_append.mp mem with old | new
        · exact List.mem_append_left _ old
        · exact List.mem_append_right _ (part event new)
      refine ⟨by rw [given, same, session], fun call effect => ?_, fun other session sent => ?_,
        fun other sent => ?_⟩
      · rw [same] at effect
        exact served.order ticket waits _ (of_effects effect).2.1 (served.sent call effect)
      · have session := scheduled other .session within session
        have sent := forwarded other (within _ sent)
        refine ⟨served.order ticket waits other session sent, ?_⟩
        rw [same, whole]
        exact (settled other session sent).imp_left fun interrupted =>
          List.mem_append_left _ interrupted
      · have new : .forwarded other ∈ news := by
          rw [split]
          exact List.mem_append_right _ (List.mem_cons_of_mem _ sent)
        exact ((quiet _ new).2.1 other rfl).elim

end Served

section Starts

/-- How far the management calls queued in `base` were started and answered. -/
structure Starts (base host : Host Params) : Prop where
  follows : Follows base host
  kept : ∀ (ticket : Ticket) (pending : Pending), base.pending[ticket]? = some pending →
    pending.owner = .worker → host.pending[ticket]? = some pending
  history : ∃ news, host.history = base.history ++ news ∧ ∀ event ∈ news,
    (∃ ticket line, event = .replied ticket line) ∨ ∃ ticket call,
      event = .began ticket call base.checkpoint ∧ ticket ∈ base.queued.map Prod.fst
  tasks : ∀ task ∈ host.tasks, task ∈ base.tasks ∨ task.Bound base.checkpoint
  tends : ∀ ticket, host.Tends ticket → base.Tends ticket

namespace Starts

variable {base host : Host Params}

theorem refl (host : Host Params) : Starts host host where
  follows := Follows.refl host
  kept _ _ found _ := found
  history := ⟨[], (List.append_nil _).symm, fun _ mem => nomatch mem⟩
  tasks _ mem := .inl mem
  tends _ tends := tends

variable (starts : Starts base host)
include starts

/-- Something is written. -/
theorem writes {event : Event Params}
    (allowed : (∃ ticket line, event = .replied ticket line) ∨ ∃ ticket call,
      event = .began ticket call base.checkpoint ∧ ticket ∈ base.queued.map Prod.fst) :
    ∃ news, host.history ++ [event] = base.history ++ news ∧ ∀ event ∈ news,
      (∃ ticket line, event = .replied ticket line) ∨ ∃ ticket call,
        event = .began ticket call base.checkpoint ∧ ticket ∈ base.queued.map Prod.fst := by
  obtain ⟨news, written, known⟩ := starts.history
  refine ⟨news ++ [event], by rw [written, List.append_assoc], fun other mem => ?_⟩
  rcases List.mem_append.mp mem with old | new
  · exact known other old
  · rw [List.mem_singleton.mp new]
    exact allowed

variable {ticket : Ticket}

theorem began (call : ManagementCall) (queued : ticket ∈ base.queued.map Prod.fst) :
    Starts base (host.record (.began ticket call host.checkpoint)) where
  follows := starts.follows.trans (Follows.record host _)
  kept := starts.kept
  history := starts.writes (.inr ⟨ticket, call, by rw [starts.follows.checkpoint], queued⟩)
  tasks := starts.tasks
  tends := starts.tends

/-- A management call is answered. -/
theorem complete (line : Outgoing)
    (owned : ∀ pending : Pending, base.pending[ticket]? = some pending →
      pending.owner = .management) : Starts base (host.complete ticket (some line)) where
  follows := starts.follows.trans (Follows.complete host ticket _)
  kept other pending found mine := by
    rw [complete_pending, if_neg]
    · exact starts.kept other pending found mine
    · rintro rfl
      rw [owned pending found] at mine
      cases mine
  history := by
    rw [complete_history]
    unfold closing
    split
    · exact starts.writes (.inl ⟨ticket, _, rfl⟩)
    · rw [List.append_nil]
      exact starts.history
  tasks := by
    rw [complete_tasks]
    exact starts.tasks
  tends other tends := by
    have same := Closes.complete host ticket (some line)
    unfold Tends at tends
    rw [same.queued, same.tasks, complete_events, same.flight] at tends
    exact starts.tends other tends

theorem startStatus (queued : ticket ∈ base.queued.map Prod.fst) :
    Starts base (host.startStatus ticket) where
  follows := starts.follows.trans (Follows.startStatus host ticket)
  kept := starts.kept
  history := (starts.began .status queued).history
  tasks task mem := by
    rcases List.mem_append.mp mem with old | new
    · exact starts.tasks task old
    · rw [List.mem_singleton.mp new]
      exact .inr trivial
  tends other tends := by
    rcases tends with waits | ⟨task, mem, own⟩ | event | flight
    · exact starts.tends other (.inl waits)
    · rcases List.mem_append.mp mem with old | new
      · exact starts.tends other (.inr (.inl ⟨task, old, own⟩))
      · rw [List.mem_singleton.mp new] at own
        cases own
        exact .inl queued
    · exact starts.tends other (.inr (.inr (.inl event)))
    · exact starts.tends other (.inr (.inr (.inr flight)))

theorem startRestart (queued : ticket ∈ base.queued.map Prod.fst)
    (owned : ∀ pending : Pending, base.pending[ticket]? = some pending →
      pending.owner = .management) : Starts base (host.startRestart ticket) := by
  have began := starts.began .restart queued
  have follows := starts.follows.trans (Follows.startRestart host ticket)
  unfold Host.startRestart at follows ⊢
  dsimp only at follows ⊢
  split
  · rename_i requesters flying
    rw [flying] at follows
    refine ⟨follows, starts.kept, began.history, starts.tasks, fun other tends => ?_⟩
    rcases tends with waits | task | event | ⟨flight, same, mem⟩
    · exact starts.tends other (.inl waits)
    · exact starts.tends other (.inr (.inl task))
    · exact starts.tends other (.inr (.inr (.inl event)))
    · cases same
      rcases List.mem_append.mp mem with old | new
      · exact starts.tends other (.inr (.inr (.inr ⟨_, flying, old⟩)))
      · rw [List.mem_singleton.mp new]
        exact .inl queued
  · exact began.complete _ owned
  · rename_i grounded
    rw [grounded] at follows
    refine ⟨follows, starts.kept, began.history, fun task mem => ?_, fun other tends => ?_⟩
    · rcases List.mem_append.mp mem with old | new
      · exact starts.tasks task old
      · rw [List.mem_singleton.mp new]
        exact .inr starts.follows.checkpoint
    · rcases tends with waits | ⟨task, mem, own⟩ | event | ⟨flight, same, mem⟩
      · exact starts.tends other (.inl waits)
      · rcases List.mem_append.mp mem with old | new
        · exact starts.tends other (.inr (.inl ⟨task, old, own⟩))
        · rw [List.mem_singleton.mp new] at own
          cases own
      · exact starts.tends other (.inr (.inr (.inl event)))
      · cases same
        rw [List.mem_singleton.mp mem]
        exact .inl queued

theorem startCall {call : Ticket × ManagementCall} (queued : call.1 ∈ base.queued.map Prod.fst)
    (owned : ∀ pending : Pending, base.pending[call.1]? = some pending →
      pending.owner = .management) : Starts base (host.startCall call) := by
  unfold Host.startCall
  split
  · exact starts
  · split
    · exact starts.complete _ owned
    · split
      · exact starts.startStatus queued
      · exact starts.startRestart queued owned

theorem startCalls {calls : List (Ticket × ManagementCall)}
    (queued : ∀ call ∈ calls, call.1 ∈ base.queued.map Prod.fst ∧ ∀ pending : Pending,
      base.pending[call.1]? = some pending → pending.owner = .management) :
    Starts base (calls.foldl Host.startCall host) := by
  induction calls generalizing host with
  | nil => exact starts
  | cons call calls ih =>
    obtain ⟨waits, owned⟩ := queued call List.mem_cons_self
    exact ih (starts.startCall waits owned) fun other mem =>
      queued other (List.mem_cons_of_mem _ mem)

end Starts

/-- Management calls accepted as such are no calls of the worker. -/
theorem Books.owned {host : Host Params} (books : Books host) {ticket : Ticket}
    (managed : Managed host.history ticket) (pending : Pending)
    (found : host.pending[ticket]? = some pending) : pending.owner = .management := by
  obtain ⟨id, row, accepted, owned⟩ := managed
  obtain ⟨other, known⟩ := books.known found
  obtain ⟨_, same⟩ := books.once ticket _ _ _ _ accepted known
  rw [same] at owned
  exact owned

/-- Starting the queue leaves the worker, its session and the `Session` calls alone. -/
theorem Frames.startQueued {host : Host Params} (books : Books host)
    (managed : ∀ ticket ∈ host.queued.map Prod.fst, Managed host.history ticket) :
    Frames host host.startQueued := by
  rcases startQueued_queued host with ⟨clear, empty⟩ | ⟨_, same⟩
  · have starts : Starts host (host.queued.foldl Host.startCall { host with queued := [] }) := by
      have emptied : Starts host { host with queued := [] } :=
        { Starts.refl host with
          follows := { Follows.refl host with }
          tends := fun ticket tends => by
            rcases tends with waits | rest
            · cases waits
            · exact .inr rest }
      refine emptied.startCalls fun call mem => ?_
      have waits : call.1 ∈ host.queued.map Prod.fst := List.mem_map.mpr ⟨call, mem, rfl⟩
      exact ⟨waits, books.owned (managed call.1 waits)⟩
    have unfolded : host.startQueued =
        host.queued.foldl Host.startCall { host with queued := [] } := by
      rw [Host.startQueued, if_neg (by simp [clear])]
    rw [unfolded] at empty ⊢
    refine ⟨starts.follows.worker, starts.follows.checkpoint, ?_, ?_, ?_, starts.tasks, ?_,
      starts.tends, ?_⟩
    · exact fun child _ ticket _ pending found owned =>
        ⟨pending, starts.kept ticket pending found owned, owned⟩
    · intro ticket _ absent
      by_contra present
      obtain ⟨pending, found⟩ := Option.ne_none_iff_exists'.mp present
      have before := starts.follows.pending ticket pending found
      rw [absent] at before
      cases before
    · obtain ⟨news, written, known⟩ := starts.history
      refine ⟨news, written, fun event mem => ?_⟩
      rcases known event mem with ⟨ticket, line, rfl⟩ | ⟨ticket, call, rfl, waits⟩
      · exact ⟨trivial, (fun _ absurd => by cases absurd), fun _ _ _ absurd => by cases absurd⟩
      · refine ⟨trivial, (fun _ absurd => by cases absurd), fun _ _ _ same => ?_⟩
        cases same
        exact ⟨rfl, waits, clear⟩
    · rw [starts.follows.events]
      exact fun event mem => .inl mem
    · rw [empty]
      exact fun ticket mem => by cases mem
  · rw [same]
    exact ⟨rfl, rfl, fun _ _ _ _ pending found owned => ⟨pending, found, owned⟩,
      fun _ _ absent => absent, ⟨[], (List.append_nil _).symm, fun _ mem => by cases mem⟩,
      fun _ mem => .inl mem, fun _ mem => .inl mem, fun _ tends => tends,
      fun _ mem => mem⟩

end Starts

section Steps

variable (decoding : Decoding Params Arguments) {origin : Server} {host : Host Params}

/-- A note that says nothing of a call. -/
theorem Frames.record {event : Event Params} (idle : event.Idle)
    (unsent : ∀ ticket, event ≠ .forwarded ticket)
    (begun : ∀ ticket call checkpoint, event ≠ .began ticket call checkpoint) :
    Frames host (host.record event) where
  worker := rfl
  checkpoint := rfl
  opened _ _ _ _ pending found owned := ⟨pending, found, owned⟩
  closed _ _ absent := absent
  history := by
    refine ⟨[event], rfl, fun other mem => ?_⟩
    rw [List.mem_singleton.mp mem]
    exact ⟨idle, unsent, fun ticket call checkpoint same => absurd same (begun _ _ _)⟩
  tasks _ mem := .inl mem
  events _ mem := .inl mem
  tends _ tends := tends
  queued _ mem := mem

/-- A call is closed that the worker does not serve. -/
theorem Frames.complete {ticket : Ticket} (line : Outgoing)
    (apart : ∀ child, host.worker.process = .running child → .serve ticket ∉ child.marks) :
    Frames host (host.complete ticket (some line)) where
  worker := complete_worker host ticket _
  checkpoint := complete_checkpoint host ticket _
  opened child running other mem pending found owned := by
    refine ⟨pending, ?_, owned⟩
    rw [complete_pending, if_neg]
    · exact found
    · rintro rfl
      exact apart child running mem
  closed other _ absent := by
    rw [complete_pending, absent]
    split <;> rfl
  history := by
    refine ⟨host.closing ticket (some line), complete_history host ticket _,
      fun event mem => ?_⟩
    unfold closing at mem
    split at mem
    · simp only [Option.map_some, Option.toList_some, List.mem_singleton] at mem
      rw [mem]
      exact ⟨trivial, (fun _ absurd => nomatch absurd), fun _ _ _ absurd => nomatch absurd⟩
    · simp at mem
  tasks := by
    rw [complete_tasks]
    exact fun _ mem => .inl mem
  events := by
    rw [complete_events]
    exact fun _ mem => .inl mem
  tends other tends := by
    have same := Closes.complete host ticket (some line)
    unfold Tends at tends
    rwa [same.queued, same.tasks, complete_events, same.flight] at tends
  queued := by
    rw [complete_queued]
    exact fun _ mem => mem

variable {decoding} (served : Served decoding origin host) (books : Books host)
include served books

theorem Served.startQueued : Served decoding origin host.startQueued :=
  served.of_frames books (Frames.startQueued books fun ticket mem =>
    served.managed ticket (.inl mem))

theorem Served.record {event : Event Params} (idle : event.Idle)
    (unsent : ∀ ticket, event ≠ .forwarded ticket)
    (begun : ∀ ticket call checkpoint, event ≠ .began ticket call checkpoint) :
    Served decoding origin (host.record event) :=
  served.of_frames books (Frames.record idle unsent begun)

omit books in
/-- The worker serves no call of the supervisor. -/
theorem Served.apart {ticket : Ticket}
    (owned : ∀ pending : Pending, host.pending[ticket]? = some pending →
      pending.owner = .management) (child : Child Params)
    (running : host.worker.process = .running child) : .serve ticket ∉ child.marks := by
  intro mem
  obtain ⟨_, pending, found, mine⟩ := served.opened child running ticket mem
  rw [owned pending found] at mine
  cases mine

/-- Requesters are answered one after the other. -/
theorem Served.answers (content : Host Params → Reply) (requesters : List Ticket)
    (managed : ∀ ticket ∈ requesters, Managed host.history ticket) :
    Served decoding origin (requesters.foldl
      (fun (host : Host Params) ticket => host.toolResult ticket (content host)) host) := by
  induction requesters generalizing host with
  | nil => exact served
  | cons ticket requesters ih =>
    have owned := books.owned (managed ticket List.mem_cons_self)
    refine ih (served.of_frames books (Frames.complete _ (served.apart owned)))
      (books.complete ticket _ fun absurd => nomatch absurd) fun other mem => ?_
    refine (managed other (List.mem_cons_of_mem _ mem)).mono ?_
    have written := complete_history host ticket (some ⟨.null, content host⟩)
    intro event mem
    change event ∈ (host.complete ticket (some ⟨.null, content host⟩)).history
    rw [written]
    exact List.mem_append_left _ mem

section Accept

variable {next : Ticket} (id : RequestId) (fresh : host.pending[host.nextTicket]? = none)
include fresh

/-- A request is accepted under a ticket not given before. -/
theorem Served.accept (route : Route) : Served decoding origin (host.accept next id route) := by
  have written : (host.accept next id route).history = host.history ++
      [.accepted host.nextTicket id ⟨.reply id, route.scheduled.1, route.scheduled.2⟩] := rfl
  have longer : ∀ event ∈ host.history, event ∈ (host.accept next id route).history :=
    fun _ mem => List.mem_append_left _ mem
  have unissued : ∀ event ∈ host.history, event.ticket? ≠ some host.nextTicket :=
    fun event mem about => lt_irrefl _ (books.issued event mem _ about)
  have effective : effects (host.accept next id route).history = effects host.history :=
    effects_accepted _ _ fun _ _ mem => unissued _ mem rfl
  have scheduled : ∀ ticket behavior, .forwarded ticket ∈ (host.accept next id route).history →
      Scheduled (host.accept next id route).history ticket behavior →
        .forwarded ticket ∈ host.history ∧ Scheduled host.history ticket behavior := by
    rintro ticket behavior sent ⟨request, pending, mem, rest⟩
    rw [written, List.mem_append, List.mem_singleton] at sent mem
    have sent := sent.resolve_right fun absurd => nomatch absurd
    refine ⟨sent, request, pending, mem.resolve_right fun same => ?_, rest⟩
    cases same
    exact unissued _ sent rfl
  have lookups := host.accept_pending next id route
  refine ⟨?_, served.tools, served.single, ?_, ?_, ?_, ?_, ?_, served.tasks, served.events, ?_,
    ?_⟩
  · exact fun ticket tends => (served.managed ticket tends).mono longer
  · intro child running ticket mem
    obtain ⟨live, pending, found, owned⟩ := served.opened child running ticket mem
    refine ⟨fun interrupted => live ?_, pending, ?_, owned⟩
    · rw [written, List.mem_append, List.mem_singleton] at interrupted
      exact interrupted.resolve_right fun absurd => nomatch absurd
    · rw [lookups, if_neg]
      · exact found
      · rintro rfl
        rw [fresh] at found
        cases found
  · exact fun child running ticket message mem =>
      (served.requests child running ticket message mem).mono decoding longer
  · obtain ⟨done, undone, whole, checkpoint, closed, trail, lost⟩ := served.trail
    refine ⟨done, undone, effective.trans whole, checkpoint, fun call mem => ?_, trail, lost⟩
    have effect : call ∈ effects host.history := by
      rw [whole]
      exact List.mem_append_left _ mem
    rw [lookups, if_neg]
    · exact closed call mem
    · intro same
      exact unissued _ (of_effects effect).1 (by rw [same]; rfl)
  · rw [effective]
    exact fun call mem => longer _ (served.sent call mem)
  · intro ticket session sent
    obtain ⟨sent, session⟩ := scheduled ticket _ sent session
    rw [effective]
    exact (served.reached ticket session sent).imp_left fun interrupted => longer _ interrupted
  · intro ticket waits other session sent
    obtain ⟨sent, session⟩ := scheduled other _ sent session
    exact served.order ticket waits other session sent
  · intro early ticket call checkpoint late same
    rw [written] at same
    rcases split_append same with ⟨rest, before, whole⟩ | ⟨between, _, split⟩
    · refine served.begun_append books (fun ticket mem => ?_) before whole
      cases List.mem_singleton.mp mem
    · cases between with
      | nil => cases split
      | cons event between => simp at split

omit books in
/-- The worker does not serve a ticket not given yet. -/
theorem Served.unserved (child : Child Params)
    (running : host.worker.process = .running child) : .serve host.nextTicket ∉ child.marks := by
  intro mem
  obtain ⟨_, pending, found, _⟩ := served.opened child running _ mem
  rw [fresh] at found
  cases found

end Accept

omit books in
/-- The supervisor hands an accepted call to the worker. -/
theorem Served.forwards {child : Child Params} (running : host.worker.process = .running child)
    {given : Ticket} {message : Incoming Params} {pending : Pending}
    (found : host.pending[given]? = some pending) (owned : pending.owner = .worker)
    (live : .interrupted given ∉ host.history) (fresh : ∀ mark ∈ child.marks, mark.ticket ≠ given)
    (plays : Plays decoding host.history given message)
    (older : ∀ ticket call checkpoint, .began ticket call checkpoint ∈ host.history →
      ticket < given)
    (uncrossed : host.queued ≠ [] → ¬ Scheduled host.history given .session) :
    Served decoding origin ({ host with
      worker := { host.worker with
        process := .running {
          child with input := child.input ++ [Input.dispatch given message] } } }.record
          (.forwarded given)) := by
  have marks : ({ child with
      input := child.input ++ [.dispatch given message] } : Child Params).marks =
      child.marks ++ [.serve given] := by
    simp [Child.marks, Input.mark]
  have taking : ({ child with
      input := child.input ++ [.dispatch given message] } : Child Params).taking =
      child.taking ++ [given] := by
    simp [Child.taking, Input.dispatched?]
  have longer : ∀ event ∈ host.history, event ∈ host.history ++ [.forwarded given] :=
    fun _ mem => List.mem_append_left _ mem
  have old : ∀ event, event ≠ .forwarded given → event ∈ host.history ++ [.forwarded given] →
      event ∈ host.history := by
    intro event other mem
    exact (List.mem_append.mp mem).resolve_right fun new => other (List.mem_singleton.mp new)
  have effective : effects (host.history ++ [.forwarded given]) = effects host.history :=
    effects_idle fun event mem => by
      rw [List.mem_singleton.mp mem]
      trivial
  have scheduled : ∀ ticket behavior, Scheduled (host.history ++ [.forwarded given]) ticket
      behavior → Scheduled host.history ticket behavior := by
    rintro ticket behavior ⟨id, pending, mem, rest⟩
    exact ⟨id, pending, old _ (fun absurd => by cases absurd) mem, rest⟩
  refine ⟨fun ticket tends => (served.managed ticket tends).mono longer, served.tools,
    ?_, ?_, ?_, ?_, ?_, ?_, served.tasks, served.events, ?_, ?_⟩
  · intro later same
    cases same
    exact (served.single child running).sends fresh
  · intro later same ticket mem
    cases same
    rw [marks] at mem
    rcases List.mem_append.mp mem with before | new
    · obtain ⟨kept, rest⟩ := served.opened child running ticket before
      exact ⟨fun interrupted => kept (old _ (fun absurd => by cases absurd) interrupted), rest⟩
    · cases List.mem_singleton.mp new
      exact ⟨fun interrupted => live (old _ (fun absurd => by cases absurd) interrupted),
        pending, found, owned⟩
  · intro later same ticket other mem
    cases same
    rcases List.mem_append.mp mem with before | new
    · exact (served.requests child running ticket other before).mono decoding longer
    · cases List.mem_singleton.mp new
      exact plays.mono decoding longer
  · obtain ⟨done, undone, whole, checkpoint, closed, trail, _⟩ := served.trail
    refine ⟨done, undone, effective.trans whole, checkpoint, closed, fun later same => ?_,
      fun reason same => by cases same⟩
    cases same
    exact trail child running
  · intro call mem
    exact longer _ (served.sent call (effective ▸ mem))
  · intro ticket session sent
    by_cases same : ticket = given
    · subst same
      refine .inr (.inr ⟨_, rfl, ?_⟩)
      rw [taking]
      exact List.mem_append_right _ (List.mem_singleton.mpr rfl)
    · have sent := old _ (fun equal => same (by injection equal)) sent
      rcases served.reached ticket (scheduled _ _ session) sent with
        interrupted | effect | ⟨holder, holding, taken⟩
      · exact .inl (longer _ interrupted)
      · exact .inr (.inl (effective.symm ▸ effect))
      · rw [running] at holding
        cases holding
        refine .inr (.inr ⟨_, rfl, ?_⟩)
        rw [taking]
        exact List.mem_append_left _ taken
  · intro ticket waits other session sent
    have waits : ticket ∈ host.queued.map Prod.fst := waits
    by_cases same : other = given
    · subst same
      refine absurd (scheduled _ _ session) (uncrossed ?_)
      intro empty
      rw [empty] at waits
      cases waits
    · exact served.order ticket waits other (scheduled _ _ session)
        (old _ (fun equal => same (by injection equal)) sent)
  · intro early ticket call checkpoint late same
    rcases split_append same with ⟨rest, before, whole⟩ | ⟨between, _, split⟩
    · obtain ⟨given, only, settled, after⟩ := served.begun early ticket call checkpoint rest before
      refine ⟨given, only, settled, fun other sent => ?_⟩
      rw [whole] at sent
      rcases List.mem_append.mp sent with old | new
      · exact after other old
      · cases List.mem_singleton.mp new
        exact older ticket call checkpoint (by rw [before]; simp)
    · cases between with
      | nil => cases split
      | cons event between => simp at split

omit books in
/-- A management call is queued behind those before it. -/
theorem Served.queues {given : Ticket} (call : ManagementCall)
    (managed : Managed host.history given)
    (later : ∀ ticket, .forwarded ticket ∈ host.history → ticket < given) :
    Served decoding origin { host with queued := host.queued ++ [(given, call)] } := by
  refine { served with managed := fun ticket tends => ?_, order := fun ticket waits => ?_ }
  · rcases tends with waits | rest
    · rw [List.map_append] at waits
      rcases List.mem_append.mp waits with old | new
      · exact served.managed ticket (.inl old)
      · rw [List.mem_singleton.mp new]
        exact managed
    · exact served.managed ticket (.inr rest)
  · rw [List.map_append] at waits
    rcases List.mem_append.mp waits with old | new
    · exact served.order ticket old
    · rw [List.mem_singleton.mp new]
      exact fun other _ sent => later other sent

end Steps

section Loop

variable (decoding : Decoding Params Arguments) {origin : Server} {host : Host Params}
  (accounts : Accounts host) (served : Served decoding origin host) {child : Child Params}
  {queue : List (Ticket × ManagementCall)}
include accounts served

omit served in
/-- Everything under way to the worker and from it is about tickets given before. -/
theorem marks_issued (running : host.worker.process = .running child) :
    ∀ mark ∈ child.marks, mark.ticket < host.nextTicket := by
  have carried := accounts.custody.carried child running
  have forwarded : ∀ ticket, .forwarded ticket ∈ host.history → ticket < host.nextTicket :=
    fun ticket mem => accounts.books.issued _ mem ticket rfl
  have canceled : ∀ ticket, .canceled ticket ∈ host.history → ticket < host.nextTicket :=
    fun ticket mem => accounts.books.issued _ mem ticket rfl
  intro mark mem
  rcases List.mem_append.mp mem with said | left
  · obtain ⟨output, within, rfl⟩ := List.mem_map.mp said
    cases event : output.event with
    | handled ticket reply => exact forwarded ticket (carried.handled output within ticket reply event).1
    | canceled ticket => exact canceled ticket (carried.revoked output within ticket event)
  · rcases List.mem_append.mp left with waits | taken
    · obtain ⟨ticket, within, rfl⟩ := List.mem_map.mp waits
      exact forwarded ticket (carried.waits ticket within)
    · obtain ⟨input, within, rfl⟩ := List.mem_map.mp taken
      cases input with
      | dispatch ticket message =>
        exact forwarded ticket (carried.taken ticket (List.mem_filterMap.mpr ⟨_, within, rfl⟩))
      | cancel ticket => exact canceled ticket (carried.revoking ticket within)

/-- An accepted call is refused, passed to the worker or queued. -/
theorem Served.dispatchRoute {next : Ticket} (following : host.nextTicket.next = some next)
    {id : RequestId} (free : host.external id = none) {route : Route} (answered : route ≠ .ping)
    {message : Incoming Params} (refusal : Option String)
    (routed : Host.route decoding message host.worker.tools = .ok route)
    (version : message.jsonrpc = "2.0") (request : message.id.isSome) : Served decoding origin
      ((host.accept next id route).dispatchRoute host.nextTicket route message refusal) := by
  have fresh := accounts.orderly.fresh host.nextTicket le_rfl
  have accepted : Served decoding origin (host.accept next id route) :=
    served.accept accounts.books id fresh route
  have books := accounts.books.accept following free route
  have found : (host.accept next id route).pending[host.nextTicket]? =
      some ⟨.reply id, route.scheduled.1, route.scheduled.2⟩ := by
    rw [accept_pending, if_pos rfl]
  have noted : .accepted host.nextTicket id ⟨.reply id, route.scheduled.1, route.scheduled.2⟩ ∈
      (host.accept next id route).history :=
    List.mem_append_right _ (List.mem_singleton.mpr rfl)
  have old : ∀ event ∈ (host.accept next id route).history,
      (∀ pending, event ≠ .accepted host.nextTicket id pending) → event ∈ host.history :=
    fun event mem other => (List.mem_append.mp mem).resolve_right fun new =>
      other _ (List.mem_singleton.mp new)
  have issued : ∀ event ∈ (host.accept next id route).history,
      (∀ pending, event ≠ .accepted host.nextTicket id pending) → ∀ ticket,
        event.ticket? = some ticket → ticket < host.nextTicket :=
    fun event mem other => accounts.books.issued event (old event mem other)
  cases route with
  | ping => exact absurd rfl answered
  | worker behavior =>
    have refused : ∀ reason, Served decoding origin
        ((host.accept next id (.worker behavior)).toolError host.nextTicket reason) := fun reason =>
      accepted.of_frames books (Frames.complete _ fun child running =>
        served.unserved fresh child running)
    unfold Host.dispatchRoute
    dsimp only
    split
    · exact refused _
    · rename_i free
      split
      · exact refused _
      · rename_i taken
        obtain ⟨child, running, rfl⟩ := send_ok taken
        have running : host.worker.process = .running child := running
        rw [served.tools] at routed
        have scheduled : Scheduled (host.accept next id (.worker behavior)).history
            host.nextTicket behavior := ⟨id, _, noted, rfl, rfl⟩
        refine accepted.forwards running found rfl (fun interrupted => ?_)
          (fun mark mem => (marks_issued accounts running mark mem).ne) ?_
          (fun ticket call checkpoint began => ?_) (fun waits session => ?_)
        · exact lt_irrefl _ (issued _ interrupted (fun _ absurd => by cases absurd) _ rfl)
        · by_cases session : behavior = .session
          · subst session
            exact .inl ⟨scheduled, route_session decoding routed version request⟩
          · exact .inr ⟨⟨behavior, session, scheduled⟩, route_plain decoding routed session⟩
        · exact issued _ began (fun _ absurd => by cases absurd) _ rfl
        · obtain ⟨other, pending, mem, owned, session⟩ := session
          obtain ⟨_, same⟩ := books.once _ _ _ _ _ noted mem
          have session : behavior = .session := by
            rw [← same] at session
            exact session
          subst session
          refine free ?_
          simp [upgrading, waits]
  | management call =>
    have owned : (Route.management call).scheduled.2 = .management := by
      cases call <;> rfl
    have queued := accepted.queues call ⟨id, _, noted, owned⟩ fun ticket sent =>
      issued _ sent (fun _ absurd => by cases absurd) ticket rfl
    exact queued.startQueued (books.of_same rfl rfl rfl rfl)

theorem Served.cancel (request : RequestId) (refusal : Option String) :
    Served decoding origin (host.cancel request refusal) := by
  unfold Host.cancel
  split
  · exact served
  · rename_i ticket named
    dsimp only
    split
    · exact served.of_frames accounts.books ⟨rfl, rfl,
        fun _ _ _ _ pending found owned => ⟨pending, found, owned⟩, fun _ _ absent => absent,
        ⟨[], (List.append_nil _).symm, fun _ mem => by cases mem⟩,
        fun _ mem => .inl mem, fun _ mem => .inl mem, fun _ tends => tends,
        fun _ mem => mem⟩
    · rename_i pending found
      have lookups := host.canceled_pending ticket pending
      have noted : ∀ event ∈ ([.canceled ticket] : List (Event Params)), event.Idle ∧
          (∀ ticket, event ≠ .forwarded ticket) ∧ ∀ ticket call checkpoint,
            event = .began ticket call checkpoint → checkpoint = host.checkpoint ∧
              ticket ∈ host.queued.map Prod.fst ∧ host.barriers = false := by
        intro event mem
        rw [List.mem_singleton.mp mem]
        exact ⟨trivial, (fun _ absurd => by cases absurd), fun _ _ _ absurd => by cases absurd⟩
      have marked : Served decoding origin ({ host with
          external := Function.update host.external request none
          pending := host.pending.insert ticket { pending with delivery := .canceled } }.record
          (.canceled ticket)) := by
        refine served.of_frames accounts.books ⟨rfl, rfl, ?_, ?_, ⟨_, rfl, noted⟩,
          fun _ mem => .inl mem, fun _ mem => .inl mem, fun _ tends => tends,
          fun _ mem => mem⟩
        · intro child running other mem kept present owned
          by_cases same : ticket = other
          · subst same
            rw [found] at present
            cases present
            exact ⟨_, (lookups ticket).trans (if_pos rfl), owned⟩
          · exact ⟨kept, (lookups other).trans ((if_neg same).trans present), owned⟩
        · intro other _ absent
          refine (lookups other).trans ((if_neg ?_).trans absent)
          rintro rfl
          rw [found] at absent
          cases absent
      split
      · split
        · rename_i taken
          obtain ⟨child, running, rfl⟩ := send_ok taken
          have running : host.worker.process = .running child := running
          have marks : ({ child with input := child.input ++ [.cancel ticket] } : Child Params).marks =
              child.marks ++ [.revoke ticket] := by
            simp [Child.marks, Input.mark]
          have taking : ({ child with
              input := child.input ++ [.cancel ticket] } : Child Params).taking = child.taking := by
            simp [Child.taking, Input.dispatched?]
          refine { marked with
            single := ?_, opened := ?_, requests := ?_, trail := ?_, reached := ?_ }
          · intro later same
            cases same
            exact (served.single child running).revokes ticket
          · intro later same other mem
            cases same
            rw [marks] at mem
            refine marked.opened child running other ((List.mem_append.mp mem).resolve_right ?_)
            exact fun new => by cases List.mem_singleton.mp new
          · intro later same other message mem
            cases same
            refine marked.requests child running other message
              ((List.mem_append.mp mem).resolve_right ?_)
            exact fun new => by cases List.mem_singleton.mp new
          · obtain ⟨done, undone, whole, checkpoint, closed, trail, _⟩ := marked.trail
            refine ⟨done, undone, whole, checkpoint, closed, fun later same => ?_,
              fun reason same => by cases same⟩
            cases same
            exact trail child running
          · intro other session sent
            refine (marked.reached other session sent).imp_right (Or.imp_right ?_)
            rintro ⟨holder, holding, taken⟩
            have holding : host.worker.process = .running holder := holding
            rw [running] at holding
            cases holding
            exact ⟨_, rfl, by rw [taking]; exact taken⟩
        · exact marked
      · rename_i owned
        split
        · -- A call still queued is dropped; the worker never had it.
          refine served.of_frames accounts.books ⟨rfl, rfl, ?_, ?_, ⟨_, rfl, noted⟩,
            fun _ mem => .inl mem, fun _ mem => .inl mem, ?_, ?_⟩
          · intro child running other mem kept present mine
            refine ⟨kept, (Table.getElem?_erase _ ticket other).trans ?_, mine⟩
            have differ : ticket ≠ other := by
              rintro rfl
              rw [found] at present
              cases present
              rw [owned] at mine
              cases mine
            rw [if_neg differ]
            exact (lookups other).trans ((if_neg differ).trans present)
          · intro other _ absent
            refine (Table.getElem?_erase _ ticket other).trans ?_
            split
            · rfl
            · rename_i differ
              exact (lookups other).trans ((if_neg differ).trans absent)
          · rintro other (waits | rest)
            · exact .inl ((List.eraseP_sublist.map Prod.fst).subset waits)
            · exact .inr rest
          · exact fun other waits => (List.eraseP_sublist.map Prod.fst).subset waits
        · exact marked

theorem Served.incoming (message : Incoming Params) (refusal : Option String) :
    Served decoding origin (host.incoming decoding message refusal) := by
  have wrote : ∀ line, Served decoding origin (host.record (.wrote line)) := fun line =>
    served.record accounts.books trivial (fun _ absurd => nomatch absurd)
      (fun _ _ _ absurd => nomatch absurd)
  unfold Host.incoming
  split
  · exact wrote _
  · rename_i version
    have version : message.jsonrpc = "2.0" := Classical.not_not.mp version
    split
    · split
      · split
        · exact served
        · exact served.cancel decoding accounts _ refusal
      · exact served
    · rename_i request
      split
      · exact wrote _
      · split
        · exact wrote _
        · rename_i free
          split
          · exact wrote _
          · exact wrote _
          · rename_i route answered routed
            split
            · exact wrote _
            · split
              · exact { served with }
              · rename_i following
                exact served.dispatchRoute decoding accounts following (by simpa using free)
                  (fun ping => answered ping) refusal routed version (by rw [request]; rfl)

omit accounts served in
/-- The worker takes its first line. -/
theorem takes_input (serving : child.ended = false) (answer : Answer) :
    (child.takes decoding answer).input = child.input.tail := by
  unfold Child.takes
  rw [if_neg (by simp [serving])]
  cases taken : child.input with
  | nil => simp [taken]
  | cons line rest =>
    cases line with
    | cancel ticket => rfl
    | dispatch ticket message =>
      dsimp only
      generalize child.server.dispatch decoding (Child.addressed ticket message) answer = outcome
      obtain ⟨server, outcome⟩ := outcome
      unfold Child.dispatched
      cases outcome with
      | reply | notification | cancel => rfl
      | wait id =>
        dsimp only
        split
        · rfl
        · split <;> rfl

omit served in
/-- A ticket is scheduled in one way. -/
theorem scheduled_once {ticket : Ticket} {first second : ToolBehavior}
    (one : Scheduled host.history ticket first) (other : Scheduled host.history ticket second) :
    first = second := by
  obtain ⟨id, pending, accepted, _, behaves⟩ := one
  obtain ⟨again, row, known, _, behavesToo⟩ := other
  obtain ⟨_, same⟩ := accounts.books.once ticket _ _ _ _ accepted known
  rw [← behaves, ← behavesToo, same]

/-- The worker moves on, and what it ran is written down. -/
theorem Served.moved {later : Child Params} (running : host.worker.process = .running child)
    {news : List (Event Params)} (single : later.Single)
    (marks : ∀ ticket, .serve ticket ∈ later.marks → .serve ticket ∈ child.marks)
    (input : ∀ line ∈ later.input, line ∈ child.input)
    (quiet : ∀ event ∈ news, ∃ ticket message answer, event = .ran ticket message answer)
    (calls : List (Ticket × Incoming Params × Answer))
    (effective : effects (host.history ++ news) = effects host.history ++ calls)
    (sent : ∀ call ∈ calls, .forwarded call.1 ∈ host.history)
    (trail : ∀ server undone, Trail decoding server child.output undone child.server →
      Trail decoding server later.output (undone ++ calls) later.server)
    (reached : ∀ ticket ∈ child.taking, Scheduled host.history ticket .session →
      ticket ∈ calls.map Prod.fst ∨ ticket ∈ later.taking) :
    Served decoding origin { host.moved later with history := host.history ++ news } := by
  have longer : ∀ event ∈ host.history, event ∈ host.history ++ news :=
    fun _ mem => List.mem_append_left _ mem
  have old : ∀ event ∈ host.history ++ news,
      (∀ ticket message answer, event ≠ .ran ticket message answer) → event ∈ host.history := by
    intro event mem other
    refine (List.mem_append.mp mem).resolve_right fun new => ?_
    obtain ⟨ticket, message, answer, same⟩ := quiet event new
    exact other ticket message answer same
  have still : ∀ event ∈ news, event.Still := by
    intro event mem
    obtain ⟨_, _, _, rfl⟩ := quiet event mem
    trivial
  refine ⟨fun ticket tends => (served.managed ticket tends).mono longer, served.tools,
    ?_, ?_, ?_, ?_, ?_, ?_, served.tasks, served.events, ?_, ?_⟩
  · intro other same
    cases same
    exact single
  · intro other same ticket mem
    cases same
    obtain ⟨live, rest⟩ := served.opened child running ticket (marks ticket mem)
    exact ⟨fun interrupted => live (old _ interrupted (fun _ _ _ absurd => nomatch absurd)), rest⟩
  · intro other same ticket message mem
    cases same
    exact (served.requests child running ticket message (input _ mem)).mono decoding longer
  · obtain ⟨done, undone, whole, checkpoint, closed, trailing, _⟩ := served.trail
    refine ⟨done, undone ++ calls, ?_, checkpoint, closed, fun other same => ?_,
      fun reason same => nomatch same⟩
    · rw [effective, whole, List.append_assoc]
    · cases same
      exact trail _ undone (trailing child running)
  · intro call mem
    rw [effective] at mem
    rcases List.mem_append.mp mem with before | own
    · exact longer _ (served.sent call before)
    · exact longer _ (sent call own)
  · intro ticket session sent
    have session := session.of_still still
    rw [effective, List.map_append]
    rcases served.reached ticket session (forwarded_of_still still sent) with
      interrupted | effect | ⟨holder, holding, taken⟩
    · exact .inl (longer _ interrupted)
    · exact .inr (.inl (List.mem_append_left _ effect))
    · rw [running] at holding
      cases holding
      rcases reached ticket taken session with effect | taking
      · exact .inr (.inl (List.mem_append_right _ effect))
      · exact .inr (.inr ⟨later, rfl, taking⟩)
  · exact served.order_still still
  · exact fun _ _ _ _ _ => served.begun_still accounts.books still

theorem Served.workerTakes (running : host.worker.process = .running child) (answer : Answer) :
    Served decoding origin (host.workerTakes decoding child answer) := by
  have serving := (accounts.custody.carried child running).serving
  obtain ⟨single, marks⟩ := (served.single child running).takes decoding answer
  have input := takes_input decoding serving answer
  have lines : ∀ line ∈ (child.takes decoding answer).input, line ∈ child.input := by
    rw [input]
    exact fun line mem => List.mem_of_mem_tail mem
  unfold Host.workerTakes
  dsimp only
  split
  · rename_i ticket message rest _ taken
    have own : .dispatch ticket message ∈ child.input := by
      rw [taken]
      exact List.mem_cons_self
    have taking : ticket ∈ child.taking := List.mem_filterMap.mpr ⟨_, own, rfl⟩
    have left : ∀ other ∈ child.taking, other = ticket ∨
        other ∈ (child.takes decoding answer).taking := by
      intro other mem
      unfold Child.taking at mem ⊢
      rw [taken, List.filterMap_cons] at mem
      rw [input, taken]
      exact List.mem_cons.mp mem
    obtain ⟨live, _⟩ := served.opened child running ticket (taking_mark taking)
    rcases served.requests child running ticket message own with
      ⟨session, immediate⟩ | ⟨⟨behavior, other, scheduled⟩, plain⟩
    · have effective : effective host.history ticket = true := by
        refine Bool.and_eq_true_iff.mpr ⟨isSession_iff.mpr session, ?_⟩
        rw [Bool.not_eq_true', Bool.eq_false_iff]
        exact fun interrupted => live (isInterrupted_iff.mp interrupted)
      refine served.moved decoding accounts running single
        marks lines (fun event mem => ⟨ticket, message, answer, List.mem_singleton.mp mem⟩)
        [(ticket, message, answer)] ?_ (fun call mem => ?_) (fun server undone trail =>
          trail.takes_session answer serving taken immediate) fun other mem _ => ?_
      · rw [effects_ran, if_pos effective]
      · rw [List.mem_singleton.mp mem]
        exact (accounts.custody.carried child running).taken ticket taking
      · refine (left other mem).imp_left fun same => ?_
        rw [same]
        exact List.mem_singleton.mpr rfl
    · have ineffective : ¬ effective host.history ticket = true := by
        intro effective
        have session := isSession_iff.mp (Bool.and_eq_true_iff.mp effective).1
        exact other (scheduled_once accounts scheduled session)
      refine served.moved decoding accounts running single
        marks lines (fun event mem => ⟨ticket, message, answer, List.mem_singleton.mp mem⟩)
        [] ?_ (fun _ mem => nomatch mem) (fun server undone trail => ?_)
        fun given mem session => ?_
      · rw [effects_ran, if_neg ineffective]
      · rw [List.append_nil]
        refine trail.takes_plain answer fun given other later same => ?_
        rw [taken] at same
        cases same
        exact plain
      · refine (left given mem).imp_left fun same => ?_
        rw [same] at session
        exact (other (scheduled_once accounts scheduled session)).elim
  · rename_i other
    have noted : ∀ ticket message rest, child.input ≠ .dispatch ticket message :: rest :=
      fun ticket message rest => other ticket message rest serving
    have moved := served.moved decoding accounts running single marks lines
      (fun _ (mem : _ ∈ []) => nomatch mem) [] (by simp) (fun _ mem => nomatch mem)
      (fun server undone trail => by
        rw [List.append_nil]
        exact trail.takes_plain answer fun ticket message rest same =>
          absurd same (noted ticket message rest)) fun given mem _ => ?_
    · rw [List.append_nil] at moved
      exact moved
    · refine .inr ?_
      unfold Child.taking at mem ⊢
      rw [input]
      cases taken : child.input with
      | nil =>
        rw [taken] at mem
        exact mem
      | cons line rest =>
        cases line with
        | dispatch ticket message => exact absurd taken (noted ticket message rest)
        | cancel ticket =>
          rw [taken] at mem
          exact mem

theorem Served.waitEnds (running : host.worker.process = .running child) (ticket : Ticket)
    (content : String) : Served decoding origin (host.moved (child.waitEnds ticket content)) := by
  obtain ⟨single, marks⟩ := (served.single child running).waitEnds ticket content
  have input : (child.waitEnds ticket content).input = child.input := by
    unfold Child.waitEnds
    split
    · rfl
    · split <;> rfl
  have moved := served.moved decoding accounts running single marks
    (by rw [input]; exact fun _ mem => mem) (fun _ (mem : _ ∈ []) => nomatch mem) [] (by simp)
    (fun _ mem => nomatch mem) (fun server undone trail => by
      rw [List.append_nil]
      exact trail.waitEnds ticket content) fun given mem _ => ?_
  · rw [List.append_nil] at moved
    exact moved
  · refine .inr ?_
    unfold Child.taking at mem ⊢
    rwa [input]

omit accounts in
/-- Reading the worker's next line leaves the checkpoint as it is, or no flight is under
way. -/
theorem Served.steady (accounts : Accounts host) (running : host.worker.process = .running child)
    {message : Output} {rest : List Output} (said : child.output = message :: rest)
    (flying : host.flight.isSome) : message.checkpoint = host.checkpoint := by
  obtain ⟨done, undone, whole, checkpoint, -, trailing, -⟩ := served.trail
  have trail := trailing child running
  clear trailing
  rw [said] at trail
  cases trail with
  | plain same => rw [same, checkpoint]
  | session answers moves trail =>
    -- The `Session` call being answered is still outstanding.
    rename_i call calls reply
    have effect : call ∈ effects host.history := by
      rw [whole]
      exact List.mem_append_right _ List.mem_cons_self
    have clear := accounts.orderly.cleared flying
    have mark : Mark.serve call.1 ∈ child.marks := by
      refine List.mem_append_left _ (List.mem_map.mpr ⟨message, ?_, by rw [answers]; rfl⟩)
      rw [said]
      exact List.mem_cons_self
    obtain ⟨_, pending, found, owned⟩ := served.opened child running call.1 mark
    obtain ⟨id, row, accepted, _, session⟩ := (of_effects effect).2.1
    obtain ⟨other, known⟩ := accounts.books.known found
    obtain ⟨_, same⟩ := accounts.books.once _ _ _ _ _ accepted known
    have session : pending.behavior = .session := by
      rw [same] at session
      exact session
    have barrier := barriers_iff.mpr ⟨call.1, pending, found, owned, session⟩
    rw [clear] at barrier
    cases barrier

omit accounts served in
/-- What is under way while no flight is depends on no checkpoint. -/
theorem grounded_bound (tended : Tended queue host) (grounded : host.flight = none)
    (checkpoint : SessionCheckpoint) : (∀ task ∈ host.tasks, task.Bound checkpoint) ∧
      ∀ event ∈ host.events, event.Bound checkpoint := by
  have single := tended.single
  rw [grounded, if_neg (by simp), aloft, Nat.add_eq_zero_iff, List.countP_eq_zero,
    List.countP_eq_zero] at single
  constructor
  · intro task mem
    have still := single.1 task mem
    cases task with
    | status => trivial
    | activate | monitor => exact (still rfl).elim
  · intro event mem
    have still := single.2 event mem
    cases event with
    | status | accepted => trivial
    | finished => exact (still rfl).elim

/-- A line of the worker is read, and its call closed. -/
theorem Served.reads (tended : Tended queue host) (running : host.worker.process = .running child)
    {message : Output} {rest : List Output} (said : child.output = message :: rest)
    (reply : Option Outgoing) :
    Served decoding origin ({ host.moved { child with output := rest } with
      checkpoint := message.checkpoint }.complete message.event.ticket reply) := by
  generalize base : ({ host.moved { child with output := rest } with
    checkpoint := message.checkpoint } : Host Params) = read
  have table : read.pending = host.pending := by rw [← base]; rfl
  have past : read.history = host.history := by rw [← base]; rfl
  have process : read.worker.process = .running { child with output := rest } := by
    rw [← base]
    rfl
  have tools : read.worker.tools = host.worker.tools := by rw [← base]; rfl
  have queued : read.queued = host.queued := by rw [← base]; rfl
  have tasks : read.tasks = host.tasks := by rw [← base]; rfl
  have events : read.events = host.events := by rw [← base]; rfl
  have flight : read.flight = host.flight := by rw [← base]; rfl
  have checkpoint : read.checkpoint = message.checkpoint := by rw [← base]
  obtain ⟨single, apart⟩ := (served.single child running).reads said
  have closes := Closes.complete read message.event.ticket reply
  have written : (read.complete message.event.ticket reply).history =
      host.history ++ read.closing message.event.ticket reply := by
    rw [complete_history, past]
  have quiet : ∀ event ∈ read.closing message.event.ticket reply,
      ∃ ticket line, event = .replied ticket line := by
    intro event mem
    unfold closing at mem
    split at mem
    · obtain ⟨line, _, same⟩ := Option.map_eq_some_iff.mp (Option.mem_toList.mp mem)
      exact ⟨_, _, same.symm⟩
    · cases mem
  generalize read.closing message.event.ticket reply = news at written quiet
  have longer : ∀ event ∈ host.history, event ∈ host.history ++ news :=
    fun _ mem => List.mem_append_left _ mem
  have old : ∀ event ∈ host.history ++ news, (∀ ticket line, event ≠ .replied ticket line) →
      event ∈ host.history := by
    intro event mem other
    refine (List.mem_append.mp mem).resolve_right fun new => ?_
    obtain ⟨ticket, line, same⟩ := quiet event new
    exact other ticket line same
  have still : ∀ event ∈ news, event.Still := by
    intro event mem
    obtain ⟨_, _, rfl⟩ := quiet event mem
    trivial
  have effective : effects (host.history ++ news) = effects host.history := by
    refine effects_idle fun event mem => ?_
    obtain ⟨_, _, rfl⟩ := quiet event mem
    trivial
  have fewer : ∀ ticket, .serve ticket ∈ ({ child with output := rest } : Child Params).marks →
      .serve ticket ∈ child.marks := by
    intro ticket mem
    unfold Child.marks at mem ⊢
    rw [said]
    rcases List.mem_append.mp mem with left | right
    · exact List.mem_append_left _ (List.mem_cons_of_mem _ left)
    · exact List.mem_append_right _ right
  have bounds : (∀ task ∈ host.tasks, task.Bound message.checkpoint) ∧
      ∀ event ∈ host.events, event.Bound message.checkpoint := by
    cases flies : host.flight with
    | none => exact grounded_bound tended flies _
    | some flight =>
      rw [served.steady decoding accounts running said (by rw [flies]; rfl)]
      exact ⟨served.tasks, served.events⟩
  refine ⟨?_, ?_, ?_, ?_, ?_, ?_, ?_, ?_, ?_, ?_, ?_, ?_⟩
  · rw [written]
    intro ticket tends
    unfold Tends at tends
    rw [closes.queued, closes.tasks, complete_events, closes.flight, queued, tasks, events,
      flight] at tends
    exact (served.managed ticket tends).mono longer
  · rw [closes.worker, tools]
    exact served.tools
  · rw [closes.worker, process]
    intro later same
    cases same
    exact single
  · rw [closes.worker, process, written]
    intro later same ticket mem
    cases same
    obtain ⟨live, pending, found, owned⟩ := served.opened child running ticket (fewer ticket mem)
    refine ⟨fun interrupted => live (old _ interrupted (fun _ _ absurd => nomatch absurd)),
      pending, ?_, owned⟩
    rw [complete_pending, if_neg (apart ticket mem), table]
    exact found
  · rw [closes.worker, process, written]
    intro later same ticket other mem
    cases same
    exact (served.requests child running ticket other mem).mono decoding longer
  · obtain ⟨done, undone, whole, given, closed, trailing, -⟩ := served.trail
    have trail := trailing child running
    clear trailing
    rw [said] at trail
    have gone : ∀ ticket : Ticket, host.pending[ticket]? = none →
        (read.complete message.event.ticket reply).pending[ticket]? = none := by
      intro ticket absent
      rw [complete_pending, table, absent]
      split <;> rfl
    rw [written, closes.worker, process, effective, complete_checkpoint, checkpoint]
    cases trail with
    | plain same trail =>
      refine ⟨done, undone, whole, same, fun call mem => gone _ (closed call mem), ?_,
        fun _ same => nomatch same⟩
      rintro later ⟨⟩
      exact trail
    | session answers moves trail =>
      rename_i call calls reply
      refine ⟨done ++ [call], calls, by rw [whole, List.append_assoc]; rfl, ?_, ?_, ?_,
        fun _ same => nomatch same⟩
      · rw [moves, Server.replay_append]
      · intro other mem
        rcases List.mem_append.mp mem with before | own
        · exact gone _ (closed other before)
        · rw [List.mem_singleton.mp own, complete_pending, if_pos]
          rw [answers]
          rfl
      · rintro later ⟨⟩
        rw [Server.replay_append]
        exact trail
  · rw [written, effective]
    exact fun call mem => longer _ (served.sent call mem)
  · rw [written, closes.worker, process, effective]
    intro ticket session sent
    rcases served.reached ticket (session.of_still still)
        (forwarded_of_still still sent) with
      interrupted | effect | ⟨holder, holding, taken⟩
    · exact .inl (longer _ interrupted)
    · exact .inr (.inl effect)
    · rw [running] at holding
      cases holding
      exact .inr (.inr ⟨_, rfl, taken⟩)
  · rw [closes.tasks, tasks, complete_checkpoint, checkpoint]
    exact bounds.1
  · rw [complete_events, events, complete_checkpoint, checkpoint]
    exact bounds.2
  · rw [closes.queued, queued, written]
    exact served.order_still still
  · rw [written]
    exact fun _ _ _ _ _ => served.begun_still accounts.books still

theorem Served.workerSays (tended : Tended queue host)
    (running : host.worker.process = .running child) :
    Served decoding origin (host.workerSays child) := by
  unfold Host.workerSays
  split
  · exact served
  · rename_i message rest said
    have carried := accounts.custody.carried child running
    have spoken : message ∈ child.output := by
      rw [said]
      exact List.mem_cons_self
    have moved : Books ({ host.moved { child with output := rest } with
        checkpoint := message.checkpoint } : Host Params) :=
      accounts.books.of_same rfl rfl rfl rfl
    have closed : ∀ reply, (reply = none → .canceled message.event.ticket ∈ host.history) →
        Served decoding origin ({ host.moved { child with output := rest } with
          checkpoint := message.checkpoint }.complete message.event.ticket reply).startQueued := by
      intro reply revoked
      have read := served.reads decoding accounts tended running said reply
      refine read.startQueued (moved.complete message.event.ticket reply ?_)
      exact fun none id behavior owner found =>
        (accounts.books.opened _ id behavior owner found).2.2 (revoked none)
    unfold Host.workerMessage
    dsimp only
    split
    · rename_i ticket reply event
      have answered := (carried.handled message spoken ticket reply event).2
      have close := closed reply fun none => by simp [none] at answered
      rw [event] at close
      exact close
    · rename_i ticket event
      have revoked := carried.revoked message spoken ticket event
      have close := closed none fun _ => by
        rw [event]
        exact revoked
      rw [event] at close
      exact close

omit accounts served in
/-- Interrupting calls writes of each that it was, and the answers. -/
theorem interrupts_history (requests : List (Ticket × Pending)) (host : Host Params) :
    ∃ news, (requests.foldl interrupt host).history = host.history ++ news ∧
      (∀ event ∈ news, (∃ ticket line, event = .replied ticket line) ∨
        ∃ request ∈ requests, event = .interrupted request.1) ∧
      ∀ request ∈ requests, .interrupted request.1 ∈ news := by
  induction requests generalizing host with
  | nil => exact ⟨[], (List.append_nil _).symm, (fun _ mem => nomatch mem),
      fun _ mem => nomatch mem⟩
  | cons request requests ih =>
    obtain ⟨late, written, known, told⟩ := ih (host.interrupt request)
    have first : ∃ line, (host.interrupt request).history =
        host.history ++ (.interrupted request.1 :: line) ∧
          ∀ event ∈ line, ∃ ticket line, event = .replied ticket line := by
      unfold interrupt toolError
      rw [complete_history]
      refine ⟨(host.record (.interrupted request.1)).closing request.1
        (some ⟨.null, .invalid (interruption request.2.behavior)⟩), List.append_assoc _ _ _,
        fun event mem => ?_⟩
      unfold closing at mem
      split at mem
      · simp only [Option.map_some, Option.toList_some, List.mem_singleton] at mem
        exact ⟨_, _, mem⟩
      · cases mem
    obtain ⟨line, answered, quiet⟩ := first
    refine ⟨.interrupted request.1 :: line ++ late, ?_, fun event mem => ?_,
      fun other mem => ?_⟩
    · rw [List.foldl_cons, written, answered, List.append_assoc]
    · rcases List.mem_append.mp mem with early | after
      · rcases List.mem_cons.mp early with own | reply
        · exact .inr ⟨request, List.mem_cons_self, own⟩
        · exact .inl (quiet event reply)
      · exact (known event after).imp_right fun ⟨other, mem, same⟩ =>
          ⟨other, List.mem_cons_of_mem _ mem, same⟩
    · rcases List.mem_cons.mp mem with rfl | later
      · exact List.mem_append_left _ List.mem_cons_self
      · exact List.mem_append_right _ (told other later)

omit accounts served in
/-- What is interrupted loses its effect, and nothing else does. -/
theorem effects_interrupts {news : List (Event Params)} (history : List (Event Params))
    (known : ∀ event ∈ news, (∃ ticket line, event = .replied ticket line) ∨
      ∃ ticket, event = .interrupted ticket) : effects (history ++ news) =
      (effects history).filter fun call => !isInterrupted news call.1 := by
  induction news generalizing history with
  | nil => simp [isInterrupted]
  | cons event news ih =>
    have later := ih (history ++ [event]) fun other mem => known other (List.mem_cons_of_mem _ mem)
    rw [List.append_assoc, List.singleton_append] at later
    rw [later]
    rcases known event List.mem_cons_self with ⟨ticket, line, rfl⟩ | ⟨ticket, rfl⟩
    · rw [effects_idle fun event mem => by
        rw [List.mem_singleton.mp mem]
        trivial]
      rfl
    · rw [effects_interrupted, List.filter_filter]
      refine List.filter_congr fun call _ => ?_
      have split : isInterrupted (.interrupted ticket :: news) call.1 =
          (ticket == call.1 || isInterrupted news call.1) := rfl
      rw [split, bne, Bool.beq_comm (a := call.1)]
      cases ticket == call.1 <;> cases isInterrupted news call.1 <;> rfl

/-- The worker is gone, and in its place is none or one that continues its session. -/
theorem Served.interrupted (restorable : origin.Restorable) {worker : Worker Params}
    (tools : worker.tools = toolTable)
    (fits : (∃ reason, worker.process = .unavailable reason) ∨ ∃ server,
      Server.fromCheckpoint host.checkpoint = .ok server ∧
        worker.process = .running (.restored server)) :
    Served decoding origin ({ host with worker } : Host Params).interruptWorkerRequests := by
  have closes := Closes.interruptWorkerRequests { host with worker }
  have follows := Follows.interruptWorkerRequests { host with worker }
  have gone := interruptWorkerRequests_pending { host with worker }
  obtain ⟨news, written, known, told⟩ := interrupts_history
    (host.pending.toList.filter fun entry => entry.2.owner == .worker) { host with worker }
  have written : ({ host with worker } : Host Params).interruptWorkerRequests.history =
      host.history ++ news := written
  have mine : ∀ ticket, .interrupted ticket ∈ news ↔
      ∃ pending : Pending, host.pending[ticket]? = some pending ∧ pending.owner = .worker := by
    intro ticket
    constructor
    · intro mem
      rcases known _ mem with ⟨_, _, absurd⟩ | ⟨⟨other, pending⟩, within, same⟩
      · cases absurd
      · cases same
        obtain ⟨listed, owned⟩ := List.mem_filter.mp within
        exact ⟨pending, Std.ExtTreeMap.mem_toList_iff_getElem?_eq_some.mp listed,
          by simpa using owned⟩
    · rintro ⟨pending, found, owned⟩
      exact told (ticket, pending) (List.mem_filter.mpr
        ⟨Std.ExtTreeMap.mem_toList_iff_getElem?_eq_some.mpr found, by simp [owned]⟩)
  have quiet : ∀ event ∈ news, (∃ ticket line, event = .replied ticket line) ∨
      ∃ ticket, event = .interrupted ticket := by
    intro event mem
    refine (known event mem).imp_right ?_
    rintro ⟨request, _, same⟩
    exact ⟨request.1, same⟩
  have longer : ∀ event ∈ host.history, event ∈ host.history ++ news :=
    fun _ mem => List.mem_append_left _ mem
  have still : ∀ event ∈ news, event.Still := by
    intro event mem
    rcases quiet event mem with ⟨_, _, rfl⟩ | ⟨_, rfl⟩ <;> trivial
  have blank : ∀ child, worker.process = .running child →
      ∃ server, Server.fromCheckpoint host.checkpoint = .ok server ∧
        child = .restored server := by
    intro child running
    rcases fits with ⟨reason, lost⟩ | ⟨server, restored, fresh⟩
    · rw [lost] at running
      cases running
    · rw [fresh] at running
      cases running
      exact ⟨server, restored, rfl⟩
  obtain ⟨done, undone, whole, checkpoint, closed, trail, lost⟩ := served.trail
  -- What the supervisor had read stands; what it had not is interrupted.
  have effective : effects (host.history ++ news) = done := by
    rw [effects_interrupts _ quiet, whole, List.filter_append]
    have stays : done.filter (fun call => !isInterrupted news call.1) = done := by
      refine List.filter_eq_self.mpr fun call mem => ?_
      rw [Bool.not_eq_true', Bool.eq_false_iff]
      intro interrupted
      obtain ⟨pending, found, _⟩ := (mine _).mp (isInterrupted_iff.mp interrupted)
      rw [closed call mem] at found
      cases found
    have leaves : undone.filter (fun call => !isInterrupted news call.1) = [] := by
      refine List.filter_eq_nil_iff.mpr fun call mem => ?_
      cases process : host.worker.process with
      | unavailable reason =>
        rw [lost reason process] at mem
        cases mem
      | running child =>
        obtain ⟨output, said, mark⟩ := (trail child process).handled call mem
        obtain ⟨_, pending, found, owned⟩ := served.opened child process call.1
          (List.mem_append_left _ (List.mem_map.mpr ⟨output, said, mark⟩))
        simp [isInterrupted_iff.mpr ((mine call.1).mpr ⟨pending, found, owned⟩)]
    rw [stays, leaves, List.append_nil]
  refine ⟨?_, ?_, ?_, ?_, ?_, ?_, ?_, ?_, ?_, ?_, ?_, ?_⟩
  · rw [written]
    intro ticket tends
    unfold Tends at tends
    rw [closes.queued, closes.tasks, follows.events, closes.flight] at tends
    exact (served.managed ticket tends).mono longer
  · rw [closes.worker]
    exact tools
  · rw [closes.worker]
    intro child running
    obtain ⟨server, _, rfl⟩ := blank child running
    exact Child.Single.restored server
  · rw [closes.worker]
    intro child running ticket mem
    obtain ⟨server, _, rfl⟩ := blank child running
    cases mem
  · rw [closes.worker]
    intro child running ticket message mem
    obtain ⟨server, _, rfl⟩ := blank child running
    cases mem
  · rw [written, closes.worker, follows.checkpoint, effective]
    refine ⟨done, [], (List.append_nil _).symm, checkpoint, fun call mem => ?_,
      fun child running => ?_, fun _ _ => rfl⟩
    · rw [gone]
      exact (congrArg _ (closed call mem)).trans rfl
    · obtain ⟨server, restored, rfl⟩ := blank child running
      rw [checkpoint, Server.fromCheckpoint_checkpoint
        (Server.replay_restorable decoding restorable done)] at restored
      cases restored
      exact Trail.done _
  · rw [written, effective]
    intro call mem
    refine longer _ (served.sent call ?_)
    rw [whole]
    exact List.mem_append_left _ mem
  · rw [written, effective]
    intro ticket session sent
    rcases served.reached ticket (session.of_still still)
        (forwarded_of_still still sent) with
      interrupted | effect | ⟨child, running, taken⟩
    · exact .inl (longer _ interrupted)
    · rw [whole, List.map_append] at effect
      rcases List.mem_append.mp effect with before | unread
      · exact .inr (.inl before)
      · obtain ⟨call, mem, rfl⟩ := List.mem_map.mp unread
        refine .inl (List.mem_append_right _ ((mine _).mpr ?_))
        cases process : host.worker.process with
        | unavailable reason =>
          rw [lost reason process] at mem
          cases mem
        | running child =>
          obtain ⟨output, said, mark⟩ := (trail child process).handled call mem
          exact (served.opened child process call.1
            (List.mem_append_left _ (List.mem_map.mpr ⟨output, said, mark⟩))).2
    · exact .inl (List.mem_append_right _ ((mine _).mpr
        (served.opened child running ticket (taking_mark taken)).2))
  · rw [closes.tasks, follows.checkpoint]
    exact served.tasks
  · rw [follows.events, follows.checkpoint]
    exact served.events
  · rw [closes.queued, written]
    exact served.order_still still
  · rw [written]
    exact fun _ _ _ _ _ => served.begun_still accounts.books still

theorem Served.workerLost (restorable : origin.Restorable) (reason : String) :
    Served decoding origin (host.workerLost reason) := by
  have lost : Served decoding origin
      ({ host with worker := host.worker.lost reason } : Host Params).interruptWorkerRequests :=
    served.interrupted decoding accounts restorable served.tools (.inl ⟨reason, rfl⟩)
  exact lost.startQueued (accounts.interrupted (host.worker.lost reason)
    (fun _ _ running => nomatch running)).1

theorem Served.advance (index : Nat) (answers : Answers) :
    Served decoding origin (host.advance index answers) := by
  unfold Host.advance
  split
  · exact served
  · rename_i task found
    have listed : task ∈ host.tasks := List.mem_of_getElem? found
    obtain ⟨event, rest⟩ := Task.advance_bound answers (served.tasks task listed)
    obtain ⟨taken, _⟩ := task.advance_tends answers
    refine served.of_frames accounts.books ⟨rfl, rfl,
      fun _ _ _ _ pending found owned => ⟨pending, found, owned⟩, fun _ _ absent => absent,
      ⟨[], (List.append_nil _).symm, fun _ mem => nomatch mem⟩, fun other mem => ?_,
      fun other mem => ?_, fun ticket tends => ?_, fun _ mem => mem⟩
    · rcases List.mem_append.mp mem with mem | after
      · rcases List.mem_append.mp mem with before | left
        · exact .inl (List.mem_of_mem_take before)
        · exact .inr (rest other (Option.mem_toList.mp left))
      · exact .inl (List.mem_of_mem_drop after)
    · rcases List.mem_append.mp mem with old | new
      · exact .inl old
      · rw [List.mem_singleton.mp new]
        exact .inr event
    · rcases tends with waits | ⟨other, mem, own⟩ | ⟨other, mem, own⟩ | flight
      · exact .inl waits
      · rcases List.mem_append.mp mem with mem | after
        · rcases List.mem_append.mp mem with before | left
          · exact .inr (.inl ⟨other, List.mem_of_mem_take before, own⟩)
          · -- What is left of a task works for no status call.
            have left := Option.mem_toList.mp left
            cases task with
            | status => cases left
            | monitor => cases left
            | activate checkpoint current policy =>
              unfold Task.advance at left
              dsimp only at left
              split at left
              · cases left
              · split at left
                · cases left
                · split at left
                  · cases left
                    cases own
                  · cases left
        · exact .inr (.inl ⟨other, List.mem_of_mem_drop after, own⟩)
      · rcases List.mem_append.mp mem with old | new
        · exact .inr (.inr (.inl ⟨other, old, own⟩))
        · rw [List.mem_singleton.mp new, taken] at own
          exact .inr (.inl ⟨task, listed, own⟩)
      · exact .inr (.inr (.inr flight))

omit accounts in
/-- Fewer events are left, or another flight is under way. -/
theorem Served.fewer (books : Books host) {events : List (ManagementEvent Params)}
    {flight : Option Flight} (left : ∀ event ∈ events, event ∈ host.events)
    (aboard : ∀ now, flight = some now → ∀ ticket ∈ now.requesters,
      ∃ before, host.flight = some before ∧ ticket ∈ before.requesters) :
    Served decoding origin { host with events, flight } := by
  refine served.of_frames books ⟨rfl, rfl,
    fun _ _ _ _ pending found owned => ⟨pending, found, owned⟩, fun _ _ absent => absent,
    ⟨[], (List.append_nil _).symm, fun _ mem => nomatch mem⟩,
    fun _ mem => .inl mem, fun event mem => .inl (left event mem),
    fun ticket tends => ?_, fun _ mem => mem⟩
  rcases tends with waits | task | ⟨event, mem, own⟩ | ⟨now, same, mem⟩
  · exact .inl waits
  · exact .inr (.inl task)
  · exact .inr (.inr (.inl ⟨event, left event mem, own⟩))
  · exact .inr (.inr (.inr (aboard now same ticket mem)))

omit accounts in
/-- The requesters of a flight are answered, and the queue is started. -/
theorem Served.lands (books : Books host) (content : Host Params → Reply) (requesters : List Ticket)
    (managed : ∀ ticket ∈ requesters, Managed host.history ticket) :
    Served decoding origin (requesters.foldl
      (fun (host : Host Params) ticket => host.toolResult ticket (content host))
      host).startQueued := by
  refine (served.answers books content requesters managed).startQueued ?_
  clear managed served
  induction requesters generalizing host with
  | nil => exact books
  | cons ticket requesters ih => exact ih (books.complete ticket _ fun absurd => nomatch absurd)

theorem Served.managementMessage (restorable : origin.Restorable)
    {event : ManagementEvent Params} {rest : List (ManagementEvent Params)}
    (waiting : host.events = event :: rest) : Served decoding origin
      (({ host with events := rest } : Host Params).managementMessage event) := by
  have left : ∀ other ∈ rest, other ∈ host.events := by
    rw [waiting]
    exact fun other mem => List.mem_cons_of_mem _ mem
  have listed : event ∈ host.events := by
    rw [waiting]
    exact List.mem_cons_self
  have boarded : ∀ flight, host.flight = some flight → ∀ ticket ∈ flight.requesters,
      Managed host.history ticket := fun flight flying ticket mem =>
    served.managed ticket (.inr (.inr (.inr ⟨flight, flying, mem⟩)))
  have books : Books { host with events := rest } := accounts.books.of_same rfl rfl rfl rfl
  have read : Served decoding origin { host with events := rest } :=
    served.fewer decoding accounts.books left fun now same ticket mem => ⟨now, same, mem⟩
  cases event with
  | status ticket result =>
    have managed := served.managed ticket (.inr (.inr (.inl ⟨_, listed, rfl⟩)))
    have closed : ∀ line, Served decoding origin
        (({ host with events := rest } : Host Params).complete ticket (some line)).startQueued := by
      intro line
      refine (read.of_frames books (Frames.complete line
        (read.apart (accounts.books.owned managed)))).startQueued
          (books.complete ticket _ fun absurd => by cases absurd)
    cases result with
    | ok value => exact closed _
    | error error => exact closed _
  | accepted operation =>
    unfold Host.managementMessage
    dsimp only
    split
    · exact read.startQueued books
    · rename_i flight flying
      have flying : host.flight = some flight := flying
      have named : Served decoding origin
          { host with events := rest, flight := some ⟨[], .accepted operation⟩ } :=
        served.fewer decoding accounts.books left fun now same ticket mem => by
          cases same
          cases mem
      exact named.lands decoding (accounts.books.of_same rfl rfl rfl rfl)
        (fun host => host.underway operation) flight.requesters (boarded flight flying)
  | finished result replacement =>
    have bound := served.events _ listed
    have alive := accounts.orderly.events _ listed
    have accounted : Accounts { host with events := rest } :=
      ⟨⟨accounts.orderly.cleared, accounts.orderly.waiting, accounts.orderly.fresh,
        accounts.orderly.tasks, fun other mem => accounts.orderly.events other (left other mem),
        accounts.orderly.spoken⟩, books,
        accounts.custody.of_fewer rfl (fun _ mem => mem)
          fun _ pending found owned => ⟨pending, found, owned⟩⟩
    obtain ⟨booked, _⟩ := accounted.replaced replacement alive
    have replaced : Served decoding origin
        (({ host with events := rest } : Host Params).replaced replacement) ∧
        (({ host with events := rest } : Host Params).replaced replacement).flight = host.flight ∧
        ∀ entry ∈ host.history,
          entry ∈ (({ host with events := rest } : Host Params).replaced replacement).history := by
      cases replacement with
      | keep => exact ⟨read, rfl, fun _ mem => mem⟩
      | install worker =>
        obtain ⟨tools, server, restored, running⟩ := bound
        have placed := read.interrupted decoding accounted restorable tools
          (.inr ⟨server, restored, running⟩)
        have interrupted := (accounted.interrupted worker fun history child same => by
          rw [running] at same
          cases same
          exact Carried.restored history server).1
        obtain ⟨news, written, _⟩ := interrupts_history
          (host.pending.toList.filter fun entry => entry.2.owner == .worker)
          { host with events := rest, worker }
        refine ⟨placed.record interrupted trivial (fun _ absurd => by cases absurd)
          (fun _ _ _ absurd => by cases absurd),
          (Closes.interruptWorkerRequests { host with events := rest, worker }).flight,
          fun entry mem => List.mem_append_left _ ?_⟩
        refine Eq.mpr (congrArg (entry ∈ ·) written) (List.mem_append_left _ mem)
    obtain ⟨placed, aboard, longer⟩ := replaced
    unfold Host.managementMessage
    dsimp only
    generalize ({ host with events := rest } : Host Params).replaced replacement = base at *
    split
    · exact placed.startQueued booked
    · rename_i flight flying
      have grounded : Served decoding origin { base with flight := none } :=
        placed.fewer decoding booked (fun _ mem => mem) fun _ same => by cases same
      exact grounded.lands decoding (booked.of_same rfl rfl rfl rfl) (fun _ => .upgrade result)
        flight.requesters fun ticket mem =>
          (boarded flight (aboard.symm.trans flying) ticket mem).mono longer

theorem Served.step (restorable : origin.Restorable) (tended : Tended host.queued host)
    (action : Action Params) : Served decoding origin (host.step decoding action) := by
  unfold Host.step
  split
  · exact served
  · split
    · exact served.incoming decoding accounts _ _
    · exact served.record accounts.books trivial (fun _ absurd => nomatch absurd)
        (fun _ _ _ absurd => nomatch absurd)
    · split
      · rename_i running
        exact served.workerTakes decoding accounts running _
      · exact served
    · split
      · rename_i running
        exact served.waitEnds decoding accounts running _ _
      · exact served
    · split
      · rename_i running
        exact served.workerSays decoding accounts tended running
      · exact served
    · split
      · exact served.workerLost decoding accounts restorable _
      · exact served
    · exact served.advance decoding accounts _ _
    · split
      · exact served
      · rename_i event rest waiting
        exact served.managementMessage decoding accounts restorable waiting

end Loop

end Host

end Nits.Mcp
