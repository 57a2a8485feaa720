import Nits.Mcp.Host

/-!
# How the loop's functions act on requests

Starting queued calls, interrupting a worker's calls and answering requesters are made of a
few changes: closing a ticket, starting a status call, starting or joining a flight. A
property that each of them keeps is kept by all.
-/

namespace Nits.Mcp

open Logical
open Protocol hiding UpgradeOperation
open Protocol.Lifecycle

/-- The reply is not the outcome of a restart that left its adapter ready. -/
def Reply.Quiet (content : Reply) : Prop :=
  ∀ value, content = .upgrade value → value.adapter ≠ .ready

theorem Reply.quiet_invalid (message : String) : (Reply.invalid message).Quiet := by
  intro value same
  cases same

namespace Host

variable {Params Arguments : Type}

section Barriers

/-- The worker has a `Session` call. -/
theorem barriers_iff {host : Host Params} : host.barriers = true ↔
    ∃ (ticket : Ticket) (pending : Pending), host.pending[ticket]? = some pending ∧
      pending.owner = .worker ∧ pending.behavior = .session := by
  unfold barriers
  rw [List.any_eq_true]
  constructor
  · rintro ⟨⟨ticket, pending⟩, mem, held⟩
    have found := Std.ExtTreeMap.mem_toList_iff_getElem?_eq_some.mp mem
    simp only [Bool.and_eq_true, beq_iff_eq] at held
    exact ⟨ticket, pending, found, held⟩
  · rintro ⟨ticket, pending, found, owned, session⟩
    refine ⟨(ticket, pending), Std.ExtTreeMap.mem_toList_iff_getElem?_eq_some.mpr found, ?_⟩
    simp [owned, session]

end Barriers

/-- A canceled call stays with its owner, and no other call is touched. -/
theorem canceled_pending (host : Host Params) (ticket : Ticket) (pending : Pending)
    (other : Ticket) : (host.pending.insert ticket { pending with delivery := .canceled })[other]? =
      if ticket = other then some { pending with delivery := .canceled }
      else host.pending[other]? :=
  Table.getElem?_insert _ _ _ _

section Complete

variable (host : Host Params) (ticket other : Ticket) (reply : Option Outgoing)

theorem complete_of_none (absent : host.pending[ticket]? = none) :
    host.complete ticket reply = host := by
  simp [complete, absent]

/-- Closing a ticket takes it, and it alone, out of the table. -/
theorem complete_pending : (host.complete ticket reply).pending[other]? =
    if ticket = other then none else host.pending[other]? := by
  unfold complete
  split
  · rename_i absent
    split
    · rename_i same
      rw [← same, absent]
    · rfl
  · have erased := Table.getElem?_erase host.pending ticket other
    dsimp only
    split
    · exact erased
    · split <;> split <;> exact erased

/-- Closing a ticket touches the tables and the history, and nothing else. -/
theorem complete_frame : ∃ pending external history,
    host.complete ticket reply =
      { host with pending := pending, external := external, history := history } := by
  unfold complete
  split
  · exact ⟨host.pending, host.external, host.history, rfl⟩
  · dsimp only
    split
    · exact ⟨_, host.external, host.history, rfl⟩
    · split <;> split <;> exact ⟨_, _, _, rfl⟩

@[simp] theorem complete_worker : (host.complete ticket reply).worker = host.worker := by
  obtain ⟨_, _, _, same⟩ := host.complete_frame ticket reply
  rw [same]

@[simp] theorem complete_checkpoint :
    (host.complete ticket reply).checkpoint = host.checkpoint := by
  obtain ⟨_, _, _, same⟩ := host.complete_frame ticket reply
  rw [same]

@[simp] theorem complete_nextTicket :
    (host.complete ticket reply).nextTicket = host.nextTicket := by
  obtain ⟨_, _, _, same⟩ := host.complete_frame ticket reply
  rw [same]

@[simp] theorem complete_flight : (host.complete ticket reply).flight = host.flight := by
  obtain ⟨_, _, _, same⟩ := host.complete_frame ticket reply
  rw [same]

@[simp] theorem complete_queued : (host.complete ticket reply).queued = host.queued := by
  obtain ⟨_, _, _, same⟩ := host.complete_frame ticket reply
  rw [same]

@[simp] theorem complete_tasks : (host.complete ticket reply).tasks = host.tasks := by
  obtain ⟨_, _, _, same⟩ := host.complete_frame ticket reply
  rw [same]

@[simp] theorem complete_events : (host.complete ticket reply).events = host.events := by
  obtain ⟨_, _, _, same⟩ := host.complete_frame ticket reply
  rw [same]

@[simp] theorem complete_stopped : (host.complete ticket reply).stopped = host.stopped := by
  obtain ⟨_, _, _, same⟩ := host.complete_frame ticket reply
  rw [same]

/-- What closing a ticket writes. -/
def closing : List (Event Params) :=
  match host.pending[ticket]? with
  | some ⟨.reply id, _, _⟩ =>
    (reply.map fun reply => .replied ticket { reply with id := id.value }).toList
  | _ => []

theorem complete_history :
    (host.complete ticket reply).history = host.history ++ host.closing ticket reply := by
  unfold complete closing
  split
  · rename_i absent
    simp [absent]
  · rename_i pending found
    rcases pending with ⟨delivery | _, behavior, owner⟩
    · rw [found]
      by_cases own : host.external delivery = some ticket <;> cases reply <;>
        simp [own, record]
    · rw [found]
      simp

theorem complete_external : (host.complete ticket reply).external =
    match host.pending[ticket]? with
    | some ⟨.reply id, _, _⟩ =>
      if host.external id = some ticket then Function.update host.external id none
      else host.external
    | _ => host.external := by
  unfold complete
  split
  · rename_i absent
    rw [absent]
  · rename_i pending found
    rcases pending with ⟨delivery | _, behavior, owner⟩
    · rw [found]
      by_cases own : host.external delivery = some ticket <;> cases reply <;>
        simp [own, record]
    · rw [found]

/-- A closed ticket's `Session` call holds nothing up any more. -/
theorem barriers_complete (held : (host.complete ticket reply).barriers = true) :
    host.barriers = true := by
  obtain ⟨other, pending, found, owned⟩ := barriers_iff.mp held
  rw [complete_pending] at found
  split at found
  · cases found
  · exact barriers_iff.mpr ⟨other, pending, found, owned⟩

end Complete

theorem quiet_underway (host : Host Params) (operation : UpgradeOperation) :
    (host.underway operation).Quiet := by
  intro value same
  cases same
  simp

/-- Closing calls touches the tables and the history, and nothing else. -/
def Closes (host other : Host Params) : Prop :=
  ∃ pending external history,
    other = { host with pending := pending, external := external, history := history }

namespace Closes

variable {host middle other : Host Params}

theorem refl (host : Host Params) : Closes host host :=
  ⟨host.pending, host.external, host.history, rfl⟩

theorem trans (first : Closes host middle) (second : Closes middle other) : Closes host other := by
  obtain ⟨_, _, _, rfl⟩ := first
  obtain ⟨pending, external, history, rfl⟩ := second
  exact ⟨pending, external, history, rfl⟩

theorem complete (host : Host Params) (ticket : Ticket) (reply : Option Outgoing) :
    Closes host (host.complete ticket reply) :=
  host.complete_frame ticket reply

theorem record (host : Host Params) (event : Event Params) : Closes host (host.record event) :=
  ⟨host.pending, host.external, _, rfl⟩

/-- Closing one call after the other. -/
theorem foldl {C : Type} {close : Host Params → C → Host Params}
    (closes : ∀ host call, Closes host (close host call)) (calls : List C)
    (host : Host Params) : Closes host (calls.foldl close host) := by
  induction calls generalizing host with
  | nil => exact refl host
  | cons call calls ih => exact (closes host call).trans (ih (close host call))

theorem interrupt (host : Host Params) (request : Ticket × Pending) :
    Closes host (host.interrupt request) := by
  unfold Host.interrupt toolError
  exact (record host (.interrupted request.1)).trans (complete _ _ _)

theorem interruptWorkerRequests (host : Host Params) : Closes host host.interruptWorkerRequests :=
  foldl interrupt _ host

theorem worker (closes : Closes host other) : other.worker = host.worker := by
  obtain ⟨_, _, _, rfl⟩ := closes
  rfl

theorem flight (closes : Closes host other) : other.flight = host.flight := by
  obtain ⟨_, _, _, rfl⟩ := closes
  rfl

theorem queued (closes : Closes host other) : other.queued = host.queued := by
  obtain ⟨_, _, _, rfl⟩ := closes
  rfl

theorem tasks (closes : Closes host other) : other.tasks = host.tasks := by
  obtain ⟨_, _, _, rfl⟩ := closes
  rfl

end Closes

/-- A property that every change made in starting and closing calls keeps. -/
structure Kept (property : Host Params → Prop) : Prop where
  closed : ∀ {host} ticket {content : Reply}, content.Quiet → property host →
    property (host.toolResult ticket content)
  interrupted : ∀ {host} (ticket : Ticket) {pending : Pending},
    host.pending[ticket]? = some pending → pending.owner = .worker → property host →
      property (host.record (.interrupted ticket))
  status : ∀ {host} ticket, host.pending[ticket]?.isSome → host.checkpoint.initialized →
    property host → property (host.startStatus ticket)
  restart : ∀ {host} ticket, host.pending[ticket]?.isSome → host.checkpoint.initialized →
    property host → property (host.startRestart ticket)

namespace Kept

variable {property : Host Params → Prop} (kept : Kept property) {host : Host Params}
include kept

theorem startCall (call : Ticket × ManagementCall) (held : property host) :
    property (host.startCall call) := by
  rcases call with ⟨ticket, call⟩
  unfold Host.startCall
  split
  · exact held
  · rename_i present
    have found : host.pending[ticket]?.isSome := by simpa using present
    split
    · exact kept.closed ticket (Reply.quiet_invalid _) held
    · rename_i ready
      have ready : host.checkpoint.initialized := Classical.not_not.mp ready
      cases call with
      | status => exact kept.status ticket found ready held
      | restart => exact kept.restart ticket found ready held

theorem startCalls (calls : List (Ticket × ManagementCall)) (held : property host) :
    property (calls.foldl Host.startCall host) := by
  induction calls generalizing host with
  | nil => exact held
  | cons call calls ih => exact ih (kept.startCall call held)

theorem startQueued (held : property host) (emptied : property { host with queued := [] }) :
    property host.startQueued := by
  unfold Host.startQueued
  split
  · exact held
  · exact kept.startCalls host.queued emptied

theorem interrupt (request : Ticket × Pending)
    (found : host.pending[request.1]? = some request.2) (owned : request.2.owner = .worker)
    (held : property host) : property (host.interrupt request) :=
  kept.closed request.1 (Reply.quiet_invalid _) (kept.interrupted request.1 found owned held)

/-- Calls of different tickets are interrupted one after the other. -/
theorem interrupts (requests : List (Ticket × Pending)) (distinct : (requests.map Prod.fst).Nodup)
    (found : ∀ request ∈ requests, host.pending[request.1]? = some request.2 ∧
      request.2.owner = .worker)
    (held : property host) : property (requests.foldl Host.interrupt host) := by
  induction requests generalizing host with
  | nil => exact held
  | cons request requests ih =>
    obtain ⟨apart, distinct⟩ := List.nodup_cons.mp distinct
    obtain ⟨present, owned⟩ := found request List.mem_cons_self
    refine ih distinct (fun other mem => ?_) (kept.interrupt request present owned held)
    obtain ⟨otherPresent, otherOwned⟩ := found other (List.mem_cons_of_mem _ mem)
    refine ⟨?_, otherOwned⟩
    unfold Host.interrupt toolError
    rw [complete_pending, if_neg]
    · exact otherPresent
    · intro same
      exact apart (List.mem_map.mpr ⟨other, mem, same.symm⟩)

theorem interruptWorkerRequests (held : property host) : property host.interruptWorkerRequests := by
  have distinct : (host.pending.toList.map Prod.fst).Nodup := by
    rw [List.nodup_iff_pairwise_ne, List.pairwise_map]
    refine Std.ExtTreeMap.distinct_keys_toList.imp fun differ same => ?_
    exact differ (by rw [same]; exact Std.ReflCmp.compare_self)
  refine kept.interrupts _ (distinct.sublist (List.filter_sublist.map _)) ?_ held
  intro request mem
  obtain ⟨listed, owned⟩ := List.mem_filter.mp mem
  exact ⟨Std.ExtTreeMap.mem_toList_iff_getElem?_eq_some.mp listed, by simpa using owned⟩

/-- Naming the accepted operation to every requester. -/
theorem underway (operation : UpgradeOperation) (requesters : List Ticket) (held : property host) :
    property (requesters.foldl
      (fun (host : Host Params) ticket => host.toolResult ticket (host.underway operation))
      host) := by
  induction requesters generalizing host with
  | nil => exact held
  | cons ticket requesters ih =>
    exact ih (kept.closed ticket (host.quiet_underway operation) held)

end Kept

section Follows

/-- What starting and closing calls leaves as it was: the worker and its checkpoint, the
tickets given, the events not read, the requests not closed. -/
structure Follows (base host : Host Params) : Prop where
  worker : host.worker = base.worker
  checkpoint : host.checkpoint = base.checkpoint
  nextTicket : host.nextTicket = base.nextTicket
  events : host.events = base.events
  stopped : host.stopped = base.stopped
  pending : ∀ (ticket : Ticket) (pending : Pending), host.pending[ticket]? = some pending →
    base.pending[ticket]? = some pending

namespace Follows

variable {base middle host : Host Params}

theorem refl (host : Host Params) : Follows host host where
  worker := rfl
  checkpoint := rfl
  nextTicket := rfl
  events := rfl
  stopped := rfl
  pending _ _ found := found

theorem trans (first : Follows base middle) (second : Follows middle host) :
    Follows base host where
  worker := second.worker.trans first.worker
  checkpoint := second.checkpoint.trans first.checkpoint
  nextTicket := second.nextTicket.trans first.nextTicket
  events := second.events.trans first.events
  stopped := second.stopped.trans first.stopped
  pending ticket pending found := first.pending ticket pending (second.pending ticket pending found)

theorem barriers (follows : Follows base host) (held : host.barriers = true) :
    base.barriers = true := by
  obtain ⟨ticket, pending, found, owned⟩ := barriers_iff.mp held
  exact barriers_iff.mpr ⟨ticket, pending, follows.pending ticket pending found, owned⟩

theorem record (host : Host Params) (event : Event Params) : Follows host (host.record event) :=
  { refl host with }

theorem complete (host : Host Params) (ticket : Ticket) (reply : Option Outgoing) :
    Follows host (host.complete ticket reply) where
  worker := host.complete_worker ticket reply
  checkpoint := host.complete_checkpoint ticket reply
  nextTicket := host.complete_nextTicket ticket reply
  events := host.complete_events ticket reply
  stopped := host.complete_stopped ticket reply
  pending other pending found := by
    rw [complete_pending] at found
    split at found
    · cases found
    · exact found

theorem startStatus (host : Host Params) (ticket : Ticket) :
    Follows host (host.startStatus ticket) :=
  { refl host with }

theorem startRestart (host : Host Params) (ticket : Ticket) :
    Follows host (host.startRestart ticket) := by
  refine (record host (.began ticket .restart host.checkpoint)).trans ?_
  unfold Host.startRestart
  dsimp only
  split
  · exact { refl _ with }
  · exact complete _ ticket _
  · exact { refl _ with }

theorem kept (base : Host Params) : Kept (Follows base) where
  closed ticket _ _ follows := follows.trans (complete _ ticket _)
  interrupted _ _ _ _ follows := follows.trans (record _ _)
  status ticket _ _ follows := follows.trans (startStatus _ ticket)
  restart ticket _ _ follows := follows.trans (startRestart _ ticket)

theorem startQueued (host : Host Params) : Follows host host.startQueued :=
  (kept host).startQueued (refl host) { refl host with }

theorem interruptWorkerRequests (host : Host Params) : Follows host host.interruptWorkerRequests :=
  (kept host).interruptWorkerRequests (refl host)

/-- Answering one requester after the other. -/
theorem answers (content : Host Params → Reply) (requesters : List Ticket)
    (host : Host Params) : Follows host (requesters.foldl
      (fun (host : Host Params) ticket => host.toolResult ticket (content host)) host) := by
  induction requesters generalizing host with
  | nil => exact refl host
  | cons ticket requesters ih => exact (complete host ticket _).trans (ih _)

end Follows

end Follows

section Quietly

/-- The line a restart answers with when it left its adapter ready. -/
def ReadyReply : Event Params → Prop
  | .replied _ ⟨_, .upgrade value⟩ => value.adapter = .ready
  | _ => False

/-- No line written on the way says that a restart left its adapter ready. -/
def Quietly (base host : Host Params) : Prop :=
  ∃ news, host.history = base.history ++ news ∧ ∀ event ∈ news, ¬ ReadyReply event

namespace Quietly

variable {base middle host : Host Params}

theorem refl (host : Host Params) : Quietly host host :=
  ⟨[], by simp, by simp⟩

theorem trans (first : Quietly base middle) (second : Quietly middle host) : Quietly base host := by
  obtain ⟨early, written, earlyQuiet⟩ := first
  obtain ⟨late, writtenLate, lateQuiet⟩ := second
  refine ⟨early ++ late, by rw [writtenLate, written, List.append_assoc], ?_⟩
  intro event mem
  rcases List.mem_append.mp mem with inEarly | inLate
  · exact earlyQuiet event inEarly
  · exact lateQuiet event inLate

theorem record (host : Host Params) {event : Event Params} (quiet : ¬ ReadyReply event) :
    Quietly host (host.record event) :=
  ⟨[event], rfl, by simpa using quiet⟩

theorem complete (host : Host Params) (ticket : Ticket) {reply : Option Outgoing}
    (quiet : ∀ line ∈ reply, line.content.Quiet) : Quietly host (host.complete ticket reply) := by
  refine ⟨host.closing ticket reply, host.complete_history ticket reply, ?_⟩
  intro event mem ready
  unfold closing at mem
  split at mem
  · cases reply with
    | none => simp at mem
    | some line =>
      have silent := quiet line rfl
      rcases line with ⟨id, content⟩
      simp only [Option.map_some, Option.toList_some, List.mem_singleton] at mem
      subst mem
      cases content with
      | upgrade value => exact silent value rfl ready
      | error | invalid | pong | status | answered => exact ready
  · simp at mem

theorem startRestart (host : Host Params) (ticket : Ticket) :
    Quietly host (host.startRestart ticket) := by
  have began : Quietly host (host.record (.began ticket .restart host.checkpoint)) :=
    record host (fun ready => ready)
  refine began.trans ?_
  unfold Host.startRestart
  dsimp only
  split
  · exact refl _
  · exact complete _ ticket (by simpa using quiet_underway _ _)
  · exact refl _

theorem kept (base : Host Params) : Kept (Quietly base) where
  closed ticket _ quiet quietly := quietly.trans (complete _ ticket (by simpa using quiet))
  interrupted _ _ _ _ quietly := quietly.trans (record _ (fun ready => ready))
  status _ _ _ quietly := quietly.trans (record _ (fun ready => ready))
  restart ticket _ _ quietly := quietly.trans (startRestart _ ticket)

theorem startQueued (host : Host Params) : Quietly host host.startQueued :=
  (kept host).startQueued (refl host) (refl host)

/-- A change that writes nothing. -/
theorem of_same {base host : Host Params} (same : host.history = base.history) :
    Quietly base host :=
  ⟨[], by rw [same, List.append_nil], by simp⟩

end Quietly

/-- Each requester that has not canceled is answered, and nothing else is written. -/
theorem answers_history (content : Reply) (requesters : List Ticket) (host : Host Params) :
    ∃ news, (requesters.foldl
        (fun (host : Host Params) ticket => host.toolResult ticket content) host).history =
          host.history ++ news ∧
      ∀ event, event ∈ news ↔ ∃ ticket ∈ requesters, ∃ id behavior owner,
        host.pending[ticket]? = some ⟨.reply id, behavior, owner⟩ ∧
          event = .replied ticket ⟨id.value, content⟩ := by
  induction requesters generalizing host with
  | nil => exact ⟨[], by simp, by simp⟩
  | cons first requesters ih =>
    obtain ⟨late, written, members⟩ := ih (host.toolResult first content)
    refine ⟨host.closing first (some ⟨.null, content⟩) ++ late, ?_, fun event => ?_⟩
    · rw [List.foldl_cons, written, toolResult, complete_history, List.append_assoc]
    · rw [List.mem_append, members]
      simp only [toolResult, complete_pending]
      constructor
      · rintro (own | ⟨ticket, mem, id, behavior, owner, found, same⟩)
        · unfold closing at own
          split at own
          · rename_i id behavior owner found
            exact ⟨first, List.mem_cons_self, id, behavior, owner, found, by simpa using own⟩
          · simp at own
        · split at found
          · cases found
          · exact ⟨ticket, List.mem_cons_of_mem _ mem, id, behavior, owner, found, same⟩
      · rintro ⟨ticket, mem, id, behavior, owner, found, same⟩
        by_cases head : first = ticket
        · refine .inl ?_
          subst head
          simp [closing, found, same]
        · refine .inr ⟨ticket, ?_, id, behavior, owner, by rw [if_neg head, found], same⟩
          exact (List.mem_cons.mp mem).resolve_left fun equal => head equal.symm

end Quietly

end Host

end Nits.Mcp
