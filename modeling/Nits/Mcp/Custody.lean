import Nits.Mcp.Books

/-!
# Who has a request

A request forwarded to the worker is on its way there, waits there, or is answered in a
line on its way back, until it is closed. The worker answers every request it takes.
-/

namespace Nits.Mcp

open Logical
open Protocol hiding UpgradeOperation
open Protocol.Lifecycle

variable {Params Arguments : Type}

section Worker

def Input.dispatched? : Input Params → Option Ticket
  | .dispatch ticket _ => some ticket
  | .cancel _ => none

/-- The requests on their way to the worker. -/
def Child.taking (child : Child Params) : List Ticket :=
  child.input.filterMap Input.dispatched?

/-- The worker has the request, or its line about it was not read yet. -/
def Child.Has (child : Child Params) (ticket : Ticket) : Prop :=
  ticket ∈ child.taking ∨ ticket ∈ child.active ∨
    ∃ output ∈ child.output, output.event.ticket = ticket

/-- What the lines to and from the worker say of the history. -/
structure Carried (history : List (Event Params)) (child : Child Params) : Prop where
  serving : child.ended = false
  requests : ∀ ticket message, .dispatch ticket message ∈ child.input →
    message.jsonrpc = "2.0" ∧ message.id.isSome
  taken : ∀ ticket ∈ child.taking, .forwarded ticket ∈ history
  waits : ∀ ticket ∈ child.active, .forwarded ticket ∈ history
  handled : ∀ output ∈ child.output, ∀ ticket reply, output.event = .handled ticket reply →
    .forwarded ticket ∈ history ∧ reply.isSome
  revoking : ∀ ticket, .cancel ticket ∈ child.input → .canceled ticket ∈ history
  revoked : ∀ output ∈ child.output, ∀ ticket, output.event = .canceled ticket →
    .canceled ticket ∈ history
  distinct : (child.taking ++ child.active).Nodup

/-- A request is answered, or its event wait goes on. -/
theorem Server.dispatch_request (decoding : Decoding Params Arguments) (server : Server)
    (ticket : Ticket) {message : Incoming Params} (answer : Answer)
    (version : message.jsonrpc = "2.0") (request : message.id.isSome) :
    (∃ reply, (server.dispatch decoding (Child.addressed ticket message) answer).2 =
        .reply reply) ∨
      (server.dispatch decoding (Child.addressed ticket message) answer).2 =
        .wait ticket.requestId := by
  obtain ⟨id, given⟩ := Option.isSome_iff_exists.mp request
  have addressed : (Child.addressed ticket message).id = some ticket.requestId.value := by
    simp [Child.addressed, given]
  have spoken : (Child.addressed ticket message).jsonrpc = "2.0" := version
  unfold Server.dispatch
  simp only [spoken, addressed, RequestId.requestId_value, ne_eq, not_true_eq_false, if_false]
  split
  · exact .inl ⟨_, rfl⟩
  · exact .inl ⟨_, rfl⟩
  · exact .inl ⟨_, rfl⟩
  · exact .inl ⟨_, rfl⟩
  · exact .inl ⟨_, rfl⟩
  · split
    · exact .inl ⟨_, rfl⟩
    · split
      · exact .inl ⟨_, rfl⟩
      · split
        · exact .inl ⟨_, rfl⟩
        · split
          · exact .inr rfl
          · exact .inl ⟨_, rfl⟩

namespace Carried

variable {history : List (Event Params)} {child : Child Params}

theorem restored (history : List (Event Params)) (server : Server) :
    Carried history (Child.restored server) where
  serving := rfl
  requests _ _ mem := nomatch mem
  taken _ mem := nomatch mem
  waits _ mem := nomatch mem
  handled _ mem := nomatch mem
  revoking _ mem := nomatch mem
  revoked _ mem := nomatch mem
  distinct := List.nodup_nil

variable (carried : Carried history child)
include carried

theorem mono {later : List (Event Params)} (kept : ∀ event ∈ history, event ∈ later) :
    Carried later child where
  serving := carried.serving
  requests := carried.requests
  taken ticket mem := kept _ (carried.taken ticket mem)
  waits ticket mem := kept _ (carried.waits ticket mem)
  handled output mem ticket reply said :=
    (carried.handled output mem ticket reply said).imp (kept _) id
  revoking ticket mem := kept _ (carried.revoking ticket mem)
  revoked output mem ticket said := kept _ (carried.revoked output mem ticket said)
  distinct := carried.distinct

/-- The worker says something about a request it has. -/
theorem say {event : OutputEvent}
    (handled : ∀ ticket reply, event = .handled ticket reply →
      .forwarded ticket ∈ history ∧ reply.isSome)
    (revoked : ∀ ticket, event = .canceled ticket → .canceled ticket ∈ history) :
    Carried history (child.say event) where
  serving := carried.serving
  requests := carried.requests
  taken := carried.taken
  waits := carried.waits
  handled output mem ticket reply said := by
    rcases List.mem_append.mp mem with old | new
    · exact carried.handled output old ticket reply said
    · rw [List.mem_singleton.mp new] at said
      exact handled ticket reply said
  revoking := carried.revoking
  revoked output mem ticket said := by
    rcases List.mem_append.mp mem with old | new
    · exact carried.revoked output old ticket said
    · rw [List.mem_singleton.mp new] at said
      exact revoked ticket said
  distinct := carried.distinct

/-- The worker takes a line: what it had, it has or has answered. -/
theorem takes (decoding : Decoding Params Arguments) (answer : Answer) :
    Carried history (child.takes decoding answer) ∧
      ∀ ticket, child.Has ticket → (child.takes decoding answer).Has ticket := by
  have serving : ¬ child.ended = true := by simp [carried.serving]
  unfold Child.takes
  rw [if_neg serving]
  cases taking : child.input with
  | nil => exact ⟨carried, fun _ has => has⟩
  | cons line rest =>
    have shorter : ∀ line ∈ rest, line ∈ child.input := by
      rw [taking]
      exact fun line mem => List.mem_cons_of_mem _ mem
    cases line with
    | cancel canceled =>
      have revoking : .canceled canceled ∈ history :=
        carried.revoking canceled (by rw [taking]; exact List.mem_cons_self)
      have same : rest.filterMap Input.dispatched? = child.taking := by
        rw [Child.taking, taking]
        rfl
      have erased : Carried history { child with
          input := rest, active := child.active.erase canceled } := by
        refine ⟨carried.serving, fun ticket message mem => carried.requests ticket message
          (shorter _ mem), fun ticket mem => carried.taken ticket ?_,
          fun ticket mem => carried.waits ticket (List.mem_of_mem_erase mem),
          carried.handled, fun ticket mem => carried.revoking ticket (shorter _ mem),
          carried.revoked, ?_⟩
        · rw [← same]
          exact mem
        · change (rest.filterMap Input.dispatched? ++ child.active.erase canceled).Nodup
          rw [same]
          exact carried.distinct.sublist ((List.Sublist.refl _).append List.erase_sublist)
      constructor
      · refine erased.say (fun _ _ said => nomatch said) (fun ticket said => ?_)
        cases said
        exact revoking
      · rintro ticket (waiting | active | ⟨output, mem, about⟩)
        · refine .inl ?_
          change ticket ∈ rest.filterMap Input.dispatched?
          rw [same]
          exact waiting
        · by_cases own : ticket = canceled
          · subst own
            exact .inr (.inr ⟨_, List.mem_append_right _ (List.mem_singleton.mpr rfl), rfl⟩)
          · exact .inr (.inl ((List.mem_erase_of_ne own).mpr active))
        · exact .inr (.inr ⟨output, List.mem_append_left _ mem, about⟩)
    | dispatch given message =>
      have mine : given ∈ child.taking := by
        rw [Child.taking, taking]
        exact List.mem_cons_self
      have forwarded := carried.taken given mine
      have queue : child.taking = given :: rest.filterMap Input.dispatched? := by
        rw [Child.taking, taking]
        rfl
      have apart := carried.distinct
      rw [queue, List.cons_append, List.nodup_cons] at apart
      obtain ⟨version, request⟩ := carried.requests given message
        (by rw [taking]; exact List.mem_cons_self)
      have outcomes := Server.dispatch_request decoding child.server given answer version request
      dsimp only
      generalize child.server.dispatch decoding (Child.addressed given message) answer =
        outcome at outcomes
      obtain ⟨server, outcome⟩ := outcome
      have advanced : Carried history { child with server, input := rest } :=
        ⟨carried.serving, fun ticket message mem => carried.requests ticket message
            (shorter _ mem), fun ticket mem => carried.taken ticket (by
              rw [queue]
              exact List.mem_cons_of_mem _ mem), carried.waits,
          carried.handled, fun ticket mem => carried.revoking ticket (shorter _ mem),
          carried.revoked, apart.2⟩
      have said : ∀ reply, reply.isSome →
          Carried history (Child.say { child with server, input := rest }
            (.handled given reply)) ∧ ∀ ticket, child.Has ticket →
          (Child.say { child with server, input := rest } (.handled given reply)).Has
            ticket := by
        intro reply answered
        refine ⟨advanced.say (fun ticket other same => ?_) (fun _ same => nomatch same), ?_⟩
        · cases same
          exact ⟨forwarded, answered⟩
        · rintro ticket (waiting | active | ⟨output, mem, about⟩)
          · rw [queue] at waiting
            rcases List.mem_cons.mp waiting with own | later
            · exact .inr (.inr ⟨_, List.mem_append_right _ (List.mem_singleton.mpr rfl),
                own.symm⟩)
            · exact .inl later
          · exact .inr (.inl active)
          · exact .inr (.inr ⟨output, List.mem_append_left _ mem, about⟩)
      rcases outcomes with ⟨reply, same⟩ | same
      · rw [show outcome = .reply reply from same]
        exact said (some reply) rfl
      · rw [show outcome = .wait given.requestId from same]
        dsimp only
        unfold Child.dispatched
        dsimp only
        split
        · exact said _ rfl
        · rw [if_neg (fun active => apart.1 (List.mem_append_right _ active))]
          constructor
          · refine ⟨advanced.serving, advanced.requests, advanced.taken, ?_, advanced.handled,
              advanced.revoking, advanced.revoked, ?_⟩
            · intro ticket mem
              rcases List.mem_append.mp mem with old | new
              · exact carried.waits ticket old
              · rw [List.mem_singleton.mp new]
                exact forwarded
            · change (rest.filterMap Input.dispatched? ++ (child.active ++ [given])).Nodup
              rw [← List.append_assoc, List.nodup_append_comm]
              exact List.nodup_cons.mpr apart
          · rintro ticket (waiting | active | ⟨output, mem, about⟩)
            · rw [queue] at waiting
              rcases List.mem_cons.mp waiting with own | later
              · refine .inr (.inl (List.mem_append_right _ ?_))
                rw [own]
                exact List.mem_singleton.mpr rfl
              · exact .inl later
            · exact .inr (.inl (List.mem_append_left _ active))
            · exact .inr (.inr ⟨output, mem, about⟩)

/-- A wait ends with a line about its request. -/
theorem waitEnds (ended : Ticket) (content : String) :
    Carried history (child.waitEnds ended content) ∧
      ∀ ticket, child.Has ticket → (child.waitEnds ended content).Has ticket := by
  unfold Child.waitEnds
  rw [if_neg (by simp [carried.serving])]
  split
  · rename_i active
    have erased : Carried history { child with active := child.active.erase ended } :=
      ⟨carried.serving, carried.requests, carried.taken,
        fun ticket mem => carried.waits ticket (List.mem_of_mem_erase mem),
        carried.handled, carried.revoking, carried.revoked,
        carried.distinct.sublist ((List.Sublist.refl _).append List.erase_sublist)⟩
    constructor
    · refine erased.say (fun ticket reply same => ?_) (fun _ same => nomatch same)
      cases same
      exact ⟨carried.waits ended active, rfl⟩
    · rintro ticket (waiting | waits | ⟨output, mem, about⟩)
      · exact .inl waiting
      · by_cases own : ticket = ended
        · subst own
          exact .inr (.inr ⟨_, List.mem_append_right _ (List.mem_singleton.mpr rfl), rfl⟩)
        · exact .inr (.inl ((List.mem_erase_of_ne own).mpr waits))
      · exact .inr (.inr ⟨output, List.mem_append_left _ mem, about⟩)
  · exact ⟨carried, fun _ has => has⟩

/-- A line of the worker is read. -/
theorem reads {message : Output} {rest : List Output} (said : child.output = message :: rest) :
    Carried history { child with output := rest } ∧
      ∀ ticket, child.Has ticket → ticket = message.event.ticket ∨
        Child.Has { child with output := rest } ticket := by
  have fewer : ∀ output ∈ rest, output ∈ child.output := by
    rw [said]
    exact fun output mem => List.mem_cons_of_mem _ mem
  constructor
  · exact ⟨carried.serving, carried.requests, carried.taken, carried.waits,
      fun output mem => carried.handled output (fewer output mem), carried.revoking,
      fun output mem => carried.revoked output (fewer output mem), carried.distinct⟩
  · rintro ticket (waiting | active | ⟨output, mem, about⟩)
    · exact .inr (.inl waiting)
    · exact .inr (.inr (.inl active))
    · rw [said] at mem
      rcases List.mem_cons.mp mem with own | later
      · rw [own] at about
        exact .inl about.symm
      · exact .inr (.inr (.inr ⟨output, later, about⟩))

/-- A request is sent to the worker for the first time. -/
theorem sends (later : List (Event Params)) (kept : ∀ event ∈ history, event ∈ later)
    {given : Ticket} {message : Incoming Params} (fresh : .forwarded given ∉ history)
    (forwarded : .forwarded given ∈ later) (version : message.jsonrpc = "2.0")
    (request : message.id.isSome) :
    Carried later { child with input := child.input ++ [.dispatch given message] } ∧
      (∀ ticket, child.Has ticket →
        Child.Has { child with input := child.input ++ [.dispatch given message] } ticket) ∧
      Child.Has { child with input := child.input ++ [.dispatch given message] } given := by
  have queue : (child.input ++ [Input.dispatch given message]).filterMap Input.dispatched? =
      child.taking ++ [given] := by
    rw [List.filterMap_append]
    rfl
  refine ⟨⟨carried.serving, fun ticket other mem => ?_, fun ticket mem => ?_,
    fun ticket mem => kept _ (carried.waits ticket mem),
    fun output mem ticket reply said =>
      (carried.handled output mem ticket reply said).imp (kept _) id,
    fun ticket mem => ?_,
    fun output mem ticket said => kept _ (carried.revoked output mem ticket said), ?_⟩,
    ?_, ?_⟩
  · rcases List.mem_append.mp mem with old | new
    · exact carried.requests ticket other old
    · cases List.mem_singleton.mp new
      exact ⟨version, request⟩
  · replace mem : ticket ∈ child.taking ++ [given] := by rwa [← queue]
    rcases List.mem_append.mp mem with old | new
    · exact kept _ (carried.taken ticket old)
    · rw [List.mem_singleton.mp new]
      exact forwarded
  · rcases List.mem_append.mp mem with old | new
    · exact kept _ (carried.revoking ticket old)
    · cases List.mem_singleton.mp new
  · change ((child.input ++ [Input.dispatch given message]).filterMap Input.dispatched? ++
      child.active).Nodup
    have moved : (child.taking ++ [given] ++ child.active).Perm
        (given :: (child.taking ++ child.active)) := by
      rw [List.append_assoc]
      exact List.perm_middle
    rw [queue, moved.nodup_iff]
    refine List.nodup_cons.mpr ⟨fun mem => ?_, carried.distinct⟩
    rcases List.mem_append.mp mem with waiting | active
    · exact fresh (carried.taken given waiting)
    · exact fresh (carried.waits given active)
  · rintro ticket (waiting | rest)
    · refine .inl ?_
      change ticket ∈ (child.input ++ [Input.dispatch given message]).filterMap Input.dispatched?
      rw [queue]
      exact List.mem_append_left _ waiting
    · exact .inr rest
  · refine .inl ?_
    change given ∈ (child.input ++ [Input.dispatch given message]).filterMap Input.dispatched?
    rw [queue]
    exact List.mem_append_right _ (List.mem_singleton.mpr rfl)

/-- A cancellation is sent to the worker. -/
theorem revokes {later : List (Event Params)} (kept : ∀ event ∈ history, event ∈ later)
    {given : Ticket} (canceled : .canceled given ∈ later) :
    Carried later { child with input := child.input ++ [.cancel given] } ∧
      ∀ ticket, child.Has ticket →
        Child.Has { child with input := child.input ++ [.cancel given] } ticket := by
  have queue : (child.input ++ [Input.cancel given]).filterMap Input.dispatched? =
      child.taking := by
    rw [List.filterMap_append]
    exact List.append_nil _
  have later := carried.mono kept
  refine ⟨⟨later.serving, fun ticket other mem => ?_, fun ticket mem => ?_, later.waits,
    later.handled, fun ticket mem => ?_, later.revoked, ?_⟩, ?_⟩
  · rcases List.mem_append.mp mem with old | new
    · exact carried.requests ticket other old
    · cases List.mem_singleton.mp new
  · exact later.taken ticket (by rwa [← queue])
  · rcases List.mem_append.mp mem with old | new
    · exact later.revoking ticket old
    · cases List.mem_singleton.mp new
      exact canceled
  · change ((child.input ++ [Input.cancel given]).filterMap Input.dispatched? ++
      child.active).Nodup
    rw [queue]
    exact carried.distinct
  · rintro ticket (waiting | rest)
    · refine .inl ?_
      change ticket ∈ (child.input ++ [Input.cancel given]).filterMap Input.dispatched?
      rw [queue]
      exact waiting
    · exact .inr rest

end Carried

end Worker

namespace Host

section Interrupts

/-- Interrupting calls closes their tickets, and no other. -/
theorem interrupts_pending (requests : List (Ticket × Pending)) (host : Host Params)
    (ticket : Ticket) : (requests.foldl interrupt host).pending[ticket]? =
      if ticket ∈ requests.map Prod.fst then none else host.pending[ticket]? := by
  induction requests generalizing host with
  | nil => rfl
  | cons request requests ih =>
    rw [List.foldl_cons, ih, interrupt, toolError, complete_pending]
    by_cases later : ticket ∈ requests.map Prod.fst
    · simp [later]
    · by_cases own : request.1 = ticket
      · simp [own]
      · have differ : ticket ≠ request.1 := fun same => own same.symm
        rw [if_neg later, if_neg own, if_neg]
        · rfl
        · rw [List.map_cons, List.mem_cons]
          rintro (same | mem)
          · exact differ same
          · exact later mem

/-- A worker that is gone has no request left. -/
theorem interruptWorkerRequests_pending (host : Host Params) (ticket : Ticket) :
    host.interruptWorkerRequests.pending[ticket]? =
      host.pending[ticket]?.filter fun pending => pending.owner == .management := by
  rw [interruptWorkerRequests, interrupts_pending]
  cases found : host.pending[ticket]? with
  | none => simp
  | some pending =>
    have listed : (ticket, pending) ∈ host.pending.toList :=
      Std.ExtTreeMap.mem_toList_iff_getElem?_eq_some.mpr found
    cases owned : pending.owner with
    | worker =>
      rw [if_pos]
      · simp [Option.filter, owned]
      · exact List.mem_map.mpr ⟨_, List.mem_filter.mpr ⟨listed, by simp [owned]⟩, rfl⟩
    | management =>
      rw [if_neg]
      · simp [Option.filter, owned]
      · rintro mem
        obtain ⟨⟨other, kept⟩, within, rfl⟩ := List.mem_map.mp mem
        obtain ⟨kept_listed, mine⟩ := List.mem_filter.mp within
        have again := Std.ExtTreeMap.mem_toList_iff_getElem?_eq_some.mp kept_listed
        rw [found] at again
        cases again
        simp [owned] at mine

end Interrupts

/-- The worker in place has every request that was forwarded and not closed. -/
structure Custody (host : Host Params) : Prop where
  carried : ∀ child, host.worker.process = .running child → Carried host.history child
  held : ∀ (ticket : Ticket) (pending : Pending), host.pending[ticket]? = some pending →
    pending.owner = .worker → ∃ child, host.worker.process = .running child ∧
      child.Has ticket

namespace Custody

variable {host : Host Params} (custody : Custody host)
include custody

/-- Closing requests and writing notes leaves the rest with the worker. -/
theorem of_fewer {other : Host Params} (worker : other.worker = host.worker)
    (history : ∀ event ∈ host.history, event ∈ other.history)
    (pending : ∀ (ticket : Ticket) (pending : Pending), other.pending[ticket]? = some pending →
      pending.owner = .worker → ∃ kept : Pending, host.pending[ticket]? = some kept ∧
        kept.owner = .worker) : Custody other where
  carried := by
    rw [worker]
    exact fun child running => (custody.carried child running).mono history
  held := by
    rw [worker]
    intro ticket found present owned
    obtain ⟨kept, before, mine⟩ := pending ticket found present owned
    exact custody.held ticket kept before mine

theorem record (event : Event Params) : Custody (host.record event) :=
  custody.of_fewer rfl (fun _ mem => List.mem_append_left _ mem)
    fun _ pending found owned => ⟨pending, found, owned⟩

theorem complete (ticket : Ticket) (reply : Option Outgoing) :
    Custody (host.complete ticket reply) := by
  refine custody.of_fewer (host.complete_worker ticket reply) ?_ ?_
  · rw [complete_history]
    exact fun _ mem => List.mem_append_left _ mem
  · intro other pending found owned
    exact ⟨pending, (Follows.complete host ticket reply).pending other pending found, owned⟩

end Custody

theorem kept_custody : Kept fun host : Host Params => Custody host where
  closed ticket _ _ custody := custody.complete ticket _
  interrupted _ _ _ _ custody := custody.record _
  status _ _ _ custody :=
    (custody.record _).of_fewer rfl (fun _ mem => mem)
      fun _ pending found owned => ⟨pending, found, owned⟩
  restart {host} ticket _ _ custody := by
    have began := custody.record (.began ticket .restart host.checkpoint)
    have same : ∀ other : Host Params, other.worker = host.worker →
        other.history = host.history ++ [.began ticket .restart host.checkpoint] →
        other.pending = host.pending → Custody other := by
      intro other worker history pending
      refine began.of_fewer worker (by rw [history]; exact fun _ mem => mem) ?_
      rw [pending]
      exact fun _ pending found owned => ⟨pending, found, owned⟩
    unfold startRestart
    dsimp only
    split
    · exact same _ rfl rfl rfl
    · exact began.complete ticket _
    · exact same _ rfl rfl rfl

/-- What holds of the request tables, the history and the worker between two events. -/
structure Accounts (host : Host Params) : Prop where
  orderly : Orderly host
  books : Books host
  custody : Custody host

namespace Accounts

variable {Arguments : Type} (decoding : Decoding Params Arguments) {host : Host Params}
  (accounts : Accounts host)
include accounts

/-- An accepted call is refused, passed to the worker or queued. -/
theorem dispatchRoute {next : Ticket} (following : host.nextTicket.next = some next)
    {id : RequestId} (free : host.external id = none) (route : Route) (answered : route ≠ .ping)
    (message : Incoming Params) (refusal : Option String) (version : message.jsonrpc = "2.0")
    (request : message.id.isSome) :
    Books ((host.accept next id route).dispatchRoute host.nextTicket route message refusal) ∧
      Custody ((host.accept next id route).dispatchRoute host.nextTicket route message
        refusal) := by
  have accepted := accounts.books.accept following free route
  have longer : ∀ event ∈ host.history, event ∈ (host.accept next id route).history :=
    fun _ mem => List.mem_append_left _ mem
  cases route with
  | ping => exact absurd rfl answered
  | worker behavior =>
    have refused : ∀ reason, Books ((host.accept next id (.worker behavior)).toolError
          host.nextTicket reason) ∧
        Custody ((host.accept next id (.worker behavior)).toolError host.nextTicket reason) := by
      intro reason
      refine ⟨accepted.complete _ _ (fun absurd => nomatch absurd),
        accounts.custody.of_fewer (complete_worker _ _ _) (fun event mem => ?_)
          fun ticket pending found owned => ?_⟩
      · rw [toolError, complete_history]
        exact List.mem_append_left _ (longer event mem)
      · rw [accounts.orderly.refused_pending] at found
        exact ⟨pending, found, owned⟩
    unfold Host.dispatchRoute
    dsimp only
    split
    · exact refused _
    · split
      · exact refused _
      · rename_i taken
        obtain ⟨child, running, rfl⟩ := send_ok taken
        have running : host.worker.process = .running child := running
        have unsent : ∀ ticket, host.nextTicket ≤ ticket → .forwarded ticket ∉ host.history :=
          fun ticket beyond mem =>
            lt_irrefl _ ((accounts.books.issued _ mem ticket rfl).trans_le beyond)
        constructor
        · have sent : ∀ worker, Books { host.accept next id (.worker behavior) with worker } :=
            fun worker => accepted.of_same rfl rfl rfl rfl
          refine (sent _).record (by exact trivial) (fun ticket about => ?_) fun ticket same => ?_
          · cases about
            exact Ticket.lt_next following
          · cases same
            change forwards (host.history ++ [_]) host.nextTicket = 0
            rw [forwards_append, forwards_fresh accounts.books.issued le_rfl]
            rfl
        · obtain ⟨carried, has, own⟩ := (accounts.custody.carried child running).sends
            ((host.accept next id (.worker behavior)).history ++ [.forwarded host.nextTicket])
            (fun event mem => List.mem_append_left _ (longer event mem))
            (unsent _ le_rfl) (List.mem_append_right _ (List.mem_singleton.mpr rfl)) version
            request
          refine ⟨fun later same => ?_, fun ticket pending found owned => ?_⟩
          · cases same
            exact carried
          · refine ⟨_, rfl, ?_⟩
            have found := (host.accept_pending next id (.worker behavior) ticket).symm.trans found
            split at found
            · rename_i same
              rw [← same]
              exact own
            · obtain ⟨holder, holding, held⟩ := accounts.custody.held ticket pending found owned
              rw [running] at holding
              cases holding
              exact has ticket held
  | management call =>
    have queued : Custody (host.accept next id (.management call)) := by
      refine accounts.custody.of_fewer rfl longer fun ticket pending found owned => ?_
      have found := (host.accept_pending next id (.management call) ticket).symm.trans found
      split at found
      · cases found
        cases call <;> cases owned
      · exact ⟨pending, found, owned⟩
    have books : ∀ queue, Books { host.accept next id (.management call) with queued := queue } :=
      fun queue => accepted.of_same rfl rfl rfl rfl
    have custody : ∀ queue,
        Custody { host.accept next id (.management call) with queued := queue } :=
      fun queue => queued.of_fewer rfl (fun _ mem => mem)
        fun _ pending found owned => ⟨pending, found, owned⟩
    exact ⟨kept_books.startQueued (books _) (books _),
      kept_custody.startQueued (custody _) (custody _)⟩

theorem cancel (request : RequestId) (refusal : Option String) :
    Custody (host.cancel request refusal) := by
  unfold Host.cancel
  split
  · exact accounts.custody
  · rename_i ticket named
    dsimp only
    split
    · exact accounts.custody.of_fewer rfl (fun _ mem => mem)
        fun _ pending found owned => ⟨pending, found, owned⟩
    · rename_i pending found
      have lookups := host.canceled_pending ticket pending
      have kept : ∀ (other : Ticket) (row : Pending), (host.pending.insert ticket
          { pending with delivery := Delivery.canceled })[other]? = some row →
          row.owner = .worker → ∃ kept : Pending, host.pending[other]? = some kept ∧
            kept.owner = .worker := by
        intro other row present owned
        rw [lookups] at present
        split at present
        · rename_i same
          cases present
          exact ⟨pending, by rw [← same]; exact found, owned⟩
        · exact ⟨row, present, owned⟩
      have longer : ∀ event ∈ host.history, event ∈ host.history ++ [.canceled ticket] :=
        fun _ mem => List.mem_append_left _ mem
      split
      · split
        · rename_i taken
          obtain ⟨child, running, rfl⟩ := send_ok taken
          have running : host.worker.process = .running child := running
          obtain ⟨carried, has⟩ := (accounts.custody.carried child running).revokes longer
            (List.mem_append_right _ (List.mem_singleton.mpr rfl))
          refine ⟨fun later same => ?_, fun other row present owned => ⟨_, rfl, ?_⟩⟩
          · cases same
            exact carried
          · obtain ⟨before, present, mine⟩ := kept other row present owned
            obtain ⟨holder, holding, held⟩ := accounts.custody.held other before present mine
            rw [running] at holding
            cases holding
            exact has other held
        · exact accounts.custody.of_fewer rfl longer kept
      · split
        · refine accounts.custody.of_fewer rfl longer fun other row present owned => ?_
          have present := (Table.getElem?_erase (host.pending.insert ticket
            { pending with delivery := Delivery.canceled }) ticket other).symm.trans present
          split at present
          · cases present
          · exact kept other row present owned
        · exact accounts.custody.of_fewer rfl longer kept

theorem incoming (message : Incoming Params) (refusal : Option String) :
    Books (host.incoming decoding message refusal) ∧
      Custody (host.incoming decoding message refusal) := by
  have unchanged : Books host ∧ Custody host := ⟨accounts.books, accounts.custody⟩
  have wrote : ∀ line, Books (host.record (.wrote line)) ∧ Custody (host.record (.wrote line)) :=
    fun line => ⟨accounts.books.record trivial (fun _ absurd => nomatch absurd)
      (fun _ absurd => nomatch absurd), accounts.custody.record _⟩
  unfold Host.incoming
  split
  · exact wrote _
  · rename_i version
    have version : message.jsonrpc = "2.0" := Classical.not_not.mp version
    split
    · split
      · split
        · exact unchanged
        · exact ⟨accounts.books.cancel _ refusal, accounts.cancel _ refusal⟩
      · exact unchanged
    · rename_i request
      split
      · exact wrote _
      · split
        · exact wrote _
        · rename_i free
          split
          · exact wrote _
          · exact wrote _
          · rename_i route answered _
            split
            · exact wrote _
            · split
              · exact ⟨accounts.books.of_same rfl rfl rfl rfl,
                  accounts.custody.of_fewer rfl (fun _ mem => mem)
                    fun _ pending found owned => ⟨pending, found, owned⟩⟩
              · rename_i following
                exact accounts.dispatchRoute following (by simpa using free) route
                  (fun ping => answered ping) message refusal version (by rw [request]; rfl)

/-- The worker moves on, having what it had. -/
theorem moved {child later : Child Params} (running : host.worker.process = .running child)
    (carried : Carried host.history later) (has : ∀ ticket, child.Has ticket → later.Has ticket) :
    Books (host.moved later) ∧ Custody (host.moved later) := by
  refine ⟨accounts.books.of_same rfl rfl rfl rfl, fun other same => ?_,
    fun ticket pending found owned => ⟨later, rfl, ?_⟩⟩
  · cases same
    exact carried
  · obtain ⟨holder, holding, held⟩ := accounts.custody.held ticket pending found owned
    rw [running] at holding
    cases holding
    exact has ticket held

theorem workerTakes {child : Child Params} (running : host.worker.process = .running child)
    (answer : Answer) : Books (host.workerTakes decoding child answer) ∧
      Custody (host.workerTakes decoding child answer) := by
  have carried := accounts.custody.carried child running
  obtain ⟨taken, has⟩ := carried.takes decoding answer
  obtain ⟨books, custody⟩ := accounts.moved running taken has
  unfold Host.workerTakes
  split
  · rename_i ticket message _ _ next
    have forwarded := carried.taken ticket (by
      rw [Child.taking, next]
      exact List.mem_cons_self)
    refine ⟨books.record trivial (fun other about => ?_) (fun _ absurd => nomatch absurd),
      custody.record _⟩
    cases about
    exact accounts.books.issued _ forwarded ticket rfl
  · exact ⟨books, custody⟩

/-- A line of the worker closes its request, with an answer unless it was canceled. -/
theorem workerSays {child : Child Params} (running : host.worker.process = .running child) :
    Books (host.workerSays child) ∧ Custody (host.workerSays child) := by
  have carried := accounts.custody.carried child running
  unfold Host.workerSays
  split
  · exact ⟨accounts.books, accounts.custody⟩
  · rename_i message rest said
    obtain ⟨shorter, has⟩ := carried.reads said
    have spoken : message ∈ child.output := by
      rw [said]
      exact List.mem_cons_self
    have books : Books ({ host.moved { child with output := rest } with
        checkpoint := message.checkpoint } : Host Params) :=
      accounts.books.of_same rfl rfl rfl rfl
    have closed : ∀ reply, (reply = none → .canceled message.event.ticket ∈ host.history) →
        Books ({ host.moved { child with output := rest } with
          checkpoint := message.checkpoint }.complete message.event.ticket reply).startQueued ∧
        Custody ({ host.moved { child with output := rest } with
          checkpoint := message.checkpoint }.complete message.event.ticket
            reply).startQueued := by
      intro reply revoked
      have completed := books.complete message.event.ticket reply fun none id behavior owner found =>
        (books.opened _ id behavior owner found).2.2 (revoked none)
      have custody : Custody ({ host.moved { child with output := rest } with
          checkpoint := message.checkpoint }.complete message.event.ticket reply) := by
        refine ⟨fun later same => ?_, fun ticket pending found owned =>
          ⟨{ child with output := rest }, ?_, ?_⟩⟩
        · rw [complete_worker] at same
          cases same
          refine shorter.mono ?_
          rw [complete_history]
          exact fun _ mem => List.mem_append_left _ mem
        · rw [complete_worker]
          rfl
        · rw [complete_pending] at found
          split at found
          · cases found
          · rename_i other
            obtain ⟨holder, holding, held⟩ :=
              accounts.custody.held ticket pending found owned
            rw [running] at holding
            cases holding
            exact (has ticket held).resolve_left fun same => other same.symm
      have bookless : ∀ host : Host Params, Books host → Books { host with queued := [] } :=
        fun host books => books.of_same rfl rfl rfl rfl
      have unheld : ∀ host : Host Params, Custody host → Custody { host with queued := [] } :=
        fun host custody => custody.of_fewer rfl (fun _ mem => mem)
          fun _ pending found owned => ⟨pending, found, owned⟩
      exact ⟨kept_books.startQueued completed (bookless _ completed),
        kept_custody.startQueued custody (unheld _ custody)⟩
    unfold Host.workerMessage
    dsimp only
    split
    · rename_i ticket reply event
      have answered := (carried.handled message spoken ticket reply event).2
      have close := closed reply fun none => by simp [none] at answered
      rw [event] at close
      exact close
    · rename_i ticket event
      have revoked := carried.revoked message spoken ticket event
      have close := closed none fun _ => by
        rw [event]
        exact revoked
      rw [event] at close
      exact close

omit accounts in
theorem startQueued {middle : Host Params} (books : Books middle) (custody : Custody middle) :
    Books middle.startQueued ∧ Custody middle.startQueued :=
  ⟨kept_books.startQueued books (books.of_same rfl rfl rfl rfl),
    kept_custody.startQueued custody (custody.of_fewer rfl (fun _ mem => mem)
      fun _ pending found owned => ⟨pending, found, owned⟩)⟩

/-- A worker that has just started, or has just been lost, has no request. -/
theorem interrupted (worker : Worker Params)
    (blank : ∀ history child, worker.process = .running child → Carried history child) :
    Books { host with worker }.interruptWorkerRequests ∧
      Custody { host with worker }.interruptWorkerRequests := by
  have replaced : Books { host with worker } := accounts.books.of_same rfl rfl rfl rfl
  refine ⟨kept_books.interruptWorkerRequests replaced, fun child running => ?_,
    fun ticket pending found owned => ?_⟩
  · rw [(Closes.interruptWorkerRequests _).worker] at running
    exact blank _ child running
  · rw [interruptWorkerRequests_pending] at found
    obtain ⟨_, mine⟩ := Option.filter_eq_some_iff.mp found
    simp [owned] at mine

theorem workerLost (reason : String) :
    Books (host.workerLost reason) ∧ Custody (host.workerLost reason) := by
  obtain ⟨books, custody⟩ := accounts.interrupted (host.worker.lost reason)
    (fun _ _ running => nomatch running)
  exact startQueued books custody

theorem replaced (replacement : Replacement Params) (alive : replacement.Alive) :
    Books (host.replaced replacement) ∧ Custody (host.replaced replacement) := by
  cases replacement with
  | keep => exact ⟨accounts.books, accounts.custody⟩
  | install worker =>
    obtain ⟨server, running⟩ := alive
    obtain ⟨books, custody⟩ := accounts.interrupted worker fun history child same => by
      rw [running] at same
      cases same
      exact Carried.restored history server
    exact ⟨books.record trivial (fun _ absurd => nomatch absurd) (fun _ absurd => nomatch absurd),
      custody.record _⟩

omit accounts in
/-- Requesters are answered one after the other. -/
theorem answers (content : Host Params → Reply) (requesters : List Ticket)
    {middle : Host Params} (books : Books middle) (custody : Custody middle) :
    Books (requesters.foldl
        (fun (host : Host Params) ticket => host.toolResult ticket (content host)) middle) ∧
      Custody (requesters.foldl
        (fun (host : Host Params) ticket => host.toolResult ticket (content host)) middle) := by
  induction requesters generalizing middle with
  | nil => exact ⟨books, custody⟩
  | cons ticket requesters ih =>
    exact ih (books.complete ticket _ fun absurd => nomatch absurd) (custody.complete ticket _)

theorem managementMessage (message : ManagementEvent Params) (alive : message.Alive) :
    Books (host.managementMessage message) ∧ Custody (host.managementMessage message) := by
  have refit : ∀ middle : Host Params, Books middle ∧ Custody middle → ∀ flight,
      Books { middle with flight } ∧ Custody { middle with flight } :=
    fun middle kept flight => ⟨kept.1.of_same rfl rfl rfl rfl,
      kept.2.of_fewer rfl (fun _ mem => mem)
        fun _ pending found owned => ⟨pending, found, owned⟩⟩
  have closed : ∀ ticket line, Books (host.complete ticket (some line)).startQueued ∧
      Custody (host.complete ticket (some line)).startQueued := fun ticket line =>
    startQueued (accounts.books.complete ticket _ fun absurd => nomatch absurd)
      (accounts.custody.complete ticket _)
  cases message with
  | status ticket result =>
    cases result with
    | ok value => exact closed ticket _
    | error error => exact closed ticket _
  | accepted operation =>
    unfold Host.managementMessage
    dsimp only
    split
    · exact startQueued accounts.books accounts.custody
    · rename_i flight _
      obtain ⟨books, custody⟩ := refit host ⟨accounts.books, accounts.custody⟩
        (some ⟨[], .accepted operation⟩)
      obtain ⟨books, custody⟩ := answers (fun host => host.underway operation)
        flight.requesters books custody
      exact startQueued books custody
  | finished result replacement =>
    have kept := accounts.replaced replacement alive
    unfold Host.managementMessage
    dsimp only
    split
    · exact startQueued kept.1 kept.2
    · rename_i flight _
      obtain ⟨books, custody⟩ := refit _ kept none
      obtain ⟨books, custody⟩ := answers (fun _ => .upgrade result) flight.requesters books custody
      exact startQueued books custody

theorem step (action : Action Params) : Accounts (host.step decoding action) := by
  have kept : Books (host.step decoding action) ∧ Custody (host.step decoding action) := by
    have unchanged : Books host ∧ Custody host := ⟨accounts.books, accounts.custody⟩
    unfold Host.step
    split
    · exact unchanged
    · split
      · exact accounts.incoming decoding _ _
      · exact ⟨accounts.books.record trivial (fun _ absurd => nomatch absurd)
          (fun _ absurd => nomatch absurd), accounts.custody.record _⟩
      · split
        · rename_i running
          exact accounts.workerTakes decoding running _
        · exact unchanged
      · split
        · rename_i ticket content _ child running
          obtain ⟨carried, has⟩ := (accounts.custody.carried child running).waitEnds ticket content
          exact accounts.moved running carried has
        · exact unchanged
      · split
        · rename_i running
          exact accounts.workerSays running
        · exact unchanged
      · split
        · exact accounts.workerLost _
        · exact unchanged
      · unfold advance
        split
        · exact unchanged
        · exact ⟨accounts.books.of_same rfl rfl rfl rfl,
            accounts.custody.of_fewer rfl (fun _ mem => mem)
              fun _ pending found owned => ⟨pending, found, owned⟩⟩
      · split
        · exact unchanged
        · rename_i event rest waiting
          have read : Accounts { host with events := rest } :=
            ⟨⟨accounts.orderly.cleared, accounts.orderly.waiting, accounts.orderly.fresh,
              accounts.orderly.tasks, fun other mem => accounts.orderly.events other (by
                rw [waiting]
                exact List.mem_cons_of_mem _ mem), accounts.orderly.spoken⟩,
              accounts.books.of_same rfl rfl rfl rfl,
              accounts.custody.of_fewer rfl (fun _ mem => mem)
                fun _ pending found owned => ⟨pending, found, owned⟩⟩
          exact read.managementMessage event
            (accounts.orderly.events event (by rw [waiting]; exact List.mem_cons_self))
  exact ⟨accounts.orderly.step decoding action, kept.1, kept.2⟩

end Accounts

end Host

end Nits.Mcp
