import Nits.Mcp.Order

/-!
# One reply for each request

Each accepted request is open, being canceled or settled; it is answered when it is closed
open, and never afterwards. The id table names the open requests.
-/

namespace Nits.Mcp

open Logical
open Protocol hiding UpgradeOperation
open Protocol.Lifecycle

variable {Params Arguments : Type}

section History

/-- The ticket an event is about. -/
def Event.ticket? : Event Params → Option Ticket
  | .wrote _ | .toolsChanged => none
  | .accepted ticket _ _ | .canceled ticket | .forwarded ticket | .ran ticket _ _
  | .interrupted ticket | .began ticket _ _ | .replied ticket _ => some ticket

/-- The replies written to one ticket's request. -/
def replies (history : List (Event Params)) (ticket : Ticket) : List Outgoing :=
  history.filterMap fun
    | .replied other line => if other = ticket then some line else none
    | _ => none

/-- How often a request was handed to a worker. -/
def forwards (history : List (Event Params)) (ticket : Ticket) : Nat :=
  history.countP fun
    | .forwarded other => other == ticket
    | _ => false

@[simp] theorem replies_append (early late : List (Event Params)) (ticket : Ticket) :
    replies (early ++ late) ticket = replies early ticket ++ replies late ticket :=
  List.filterMap_append

@[simp] theorem forwards_append (early late : List (Event Params)) (ticket : Ticket) :
    forwards (early ++ late) ticket = forwards early ticket + forwards late ticket :=
  List.countP_append

/-- An event that neither opens, cancels nor answers a request. -/
def Event.Neutral : Event Params → Prop
  | .accepted .. | .canceled _ | .replied .. => False
  | _ => True

theorem replies_neutral {event : Event Params} (neutral : event.Neutral) (ticket : Ticket) :
    replies [event] ticket = [] := by
  cases event <;> first | rfl | exact neutral.elim

/-- Nothing was written to a ticket not given yet. -/
theorem replies_fresh {history : List (Event Params)} {next ticket : Ticket}
    (issued : ∀ event ∈ history, ∀ ticket, event.ticket? = some ticket → ticket < next)
    (fresh : next ≤ ticket) : replies history ticket = [] := by
  unfold replies
  rw [List.filterMap_eq_nil_iff]
  intro event mem
  cases event with
  | replied other line =>
    have before := issued _ mem other rfl
    exact if_neg (before.trans_le fresh).ne
  | wrote | toolsChanged | accepted | canceled | forwarded | ran | interrupted | began => rfl

theorem forwards_fresh {history : List (Event Params)} {next ticket : Ticket}
    (issued : ∀ event ∈ history, ∀ ticket, event.ticket? = some ticket → ticket < next)
    (fresh : next ≤ ticket) : forwards history ticket = 0 := by
  unfold forwards
  rw [List.countP_eq_zero]
  intro event mem
  cases event with
  | forwarded other =>
    have before := issued _ mem other rfl
    simpa using (before.trans_le fresh).ne
  | wrote | toolsChanged | accepted | canceled | replied | ran | interrupted | began => simp

/-- The request was canceled and never answered, or answered once, under its own id. -/
def Settled (history : List (Event Params)) (ticket : Ticket) (id : RequestId) : Prop :=
  .canceled ticket ∈ history ∧ replies history ticket = [] ∨
    .canceled ticket ∉ history ∧ ∃ line, replies history ticket = [line] ∧ line.id = id.value

end History

namespace Host

/-- What the request tables and the history say of each other. -/
structure Books (host : Host Params) : Prop where
  issued : ∀ event ∈ host.history, ∀ ticket, event.ticket? = some ticket →
    ticket < host.nextTicket
  once : ∀ ticket id pending other kept, .accepted ticket id pending ∈ host.history →
    .accepted ticket other kept ∈ host.history → id = other ∧ pending = kept
  mapped : ∀ id ticket, host.external id = some ticket ↔
    ∃ behavior owner, host.pending[ticket]? = some ⟨.reply id, behavior, owner⟩
  opened : ∀ (ticket : Ticket) id behavior owner,
    host.pending[ticket]? = some ⟨.reply id, behavior, owner⟩ →
      .accepted ticket id ⟨.reply id, behavior, owner⟩ ∈ host.history ∧
        replies host.history ticket = [] ∧ .canceled ticket ∉ host.history
  closing : ∀ (ticket : Ticket) behavior owner,
    host.pending[ticket]? = some ⟨.canceled, behavior, owner⟩ →
      (∃ id, .accepted ticket id ⟨.reply id, behavior, owner⟩ ∈ host.history) ∧
        replies host.history ticket = [] ∧ .canceled ticket ∈ host.history
  settled : ∀ ticket id pending, .accepted ticket id pending ∈ host.history →
    host.pending[ticket]? = none → Settled host.history ticket id
  forwarded : ∀ ticket, forwards host.history ticket ≤ 1

namespace Books

variable {host : Host Params} (books : Books host)
include books

/-- A pending ticket was given to an accepted request. -/
theorem known {ticket : Ticket} {pending : Pending} (found : host.pending[ticket]? = some pending) :
    ∃ id, .accepted ticket id ⟨.reply id, pending.behavior, pending.owner⟩ ∈ host.history := by
  rcases pending with ⟨id | _, behavior, owner⟩
  · exact ⟨id, (books.opened ticket id behavior owner found).1⟩
  · exact (books.closing ticket behavior owner found).1

theorem below {ticket : Ticket} {pending : Pending}
    (found : host.pending[ticket]? = some pending) : ticket < host.nextTicket := by
  obtain ⟨id, accepted⟩ := books.known found
  exact books.issued _ accepted ticket rfl

/-- What the books speak of stays as it was. -/
theorem of_same {other : Host Params} (nextTicket : other.nextTicket = host.nextTicket)
    (pending : other.pending = host.pending) (external : other.external = host.external)
    (history : other.history = host.history) : Books other where
  issued := by
    rw [history, nextTicket]
    exact books.issued
  once := by
    rw [history]
    exact books.once
  mapped := by
    rw [external, pending]
    exact books.mapped
  opened := by
    rw [history, pending]
    exact books.opened
  closing := by
    rw [history, pending]
    exact books.closing
  settled := by
    rw [history, pending]
    exact books.settled
  forwarded := by
    rw [history]
    exact books.forwarded

/-- A note on a given ticket changes nothing of the books. -/
theorem record {event : Event Params} (neutral : event.Neutral)
    (given : ∀ ticket, event.ticket? = some ticket → ticket < host.nextTicket)
    (single : ∀ ticket, event = .forwarded ticket → forwards host.history ticket = 0) :
    Books (host.record event) := by
  have written : (host.record event).history = host.history ++ [event] := rfl
  have silent := replies_neutral neutral
  have same : ∀ ticket, replies (host.history ++ [event]) ticket = replies host.history ticket :=
    fun ticket => by rw [replies_append, silent, List.append_nil]
  have accepted : ∀ ticket id pending, .accepted ticket id pending ∈ host.history ++ [event] ↔
      .accepted ticket id pending ∈ host.history := by
    intro ticket id pending
    rw [List.mem_append, List.mem_singleton]
    refine ⟨fun mem => mem.resolve_right ?_, .inl⟩
    rintro rfl
    exact neutral
  have canceled : ∀ ticket, .canceled ticket ∈ host.history ++ [event] ↔
      .canceled ticket ∈ host.history := by
    intro ticket
    rw [List.mem_append, List.mem_singleton]
    refine ⟨fun mem => mem.resolve_right ?_, .inl⟩
    rintro rfl
    exact neutral
  refine ⟨?_, ?_, books.mapped, ?_, ?_, ?_, ?_⟩
  · intro other mem ticket about
    rcases List.mem_append.mp mem with old | new
    · exact books.issued other old ticket about
    · rw [List.mem_singleton.mp new] at about
      exact given ticket about
  · intro ticket id pending other kept first second
    rw [written, accepted] at first second
    exact books.once ticket id pending other kept first second
  · intro ticket id behavior owner found
    rw [written, accepted, same, canceled]
    exact books.opened ticket id behavior owner found
  · intro ticket behavior owner found
    simp only [written, accepted, same, canceled]
    exact books.closing ticket behavior owner found
  · intro ticket id pending mem absent
    rw [written, accepted] at mem
    unfold Settled
    rw [written, canceled, same]
    exact books.settled ticket id pending mem absent
  · intro ticket
    rw [written, forwards_append]
    by_cases own : event = .forwarded ticket
    · rw [single ticket own, own]
      simp [forwards]
    · have none : forwards [event] ticket = 0 := by
        cases event with
        | forwarded other =>
          have differ : other ≠ ticket := fun same => own (by rw [same])
          simp [forwards, differ]
        | wrote | toolsChanged | accepted | canceled | replied | ran | interrupted | began =>
          rfl
      rw [none]
      exact books.forwarded ticket

/-- A canceled request's ticket is dropped. -/
theorem drop {other : Host Params} {ticket : Ticket} {behavior : ToolBehavior} {owner : Owner}
    (found : host.pending[ticket]? = some ⟨.canceled, behavior, owner⟩)
    (nextTicket : other.nextTicket = host.nextTicket) (external : other.external = host.external)
    (history : other.history = host.history)
    (pending : ∀ candidate : Ticket, other.pending[candidate]? =
      if ticket = candidate then none else host.pending[candidate]?) : Books other := by
  have kept : ∀ (candidate : Ticket) (row : Pending), other.pending[candidate]? = some row →
      host.pending[candidate]? = some row := by
    intro candidate row present
    rw [pending] at present
    split at present
    · cases present
    · exact present
  refine ⟨?_, ?_, ?_, ?_, ?_, ?_, ?_⟩
  · rw [history, nextTicket]
    exact books.issued
  · rw [history]
    exact books.once
  · intro id candidate
    rw [external, books.mapped]
    constructor
    · rintro ⟨behavior, owner, present⟩
      refine ⟨behavior, owner, ?_⟩
      rw [pending, if_neg, present]
      rintro rfl
      rw [found] at present
      cases present
    · rintro ⟨behavior, owner, present⟩
      exact ⟨behavior, owner, kept candidate _ present⟩
  · intro candidate id behavior owner present
    rw [history]
    exact books.opened candidate id behavior owner (kept candidate _ present)
  · intro candidate behavior owner present
    rw [history]
    exact books.closing candidate behavior owner (kept candidate _ present)
  · intro candidate id row accepted absent
    rw [history] at accepted ⊢
    rw [pending] at absent
    split at absent
    · rename_i same
      subst same
      obtain ⟨_, silent, canceled⟩ := books.closing ticket behavior owner found
      exact .inl ⟨canceled, silent⟩
    · exact books.settled candidate id row accepted absent
  · rw [history]
    exact books.forwarded

/-- An open request is answered and closed. -/
theorem answer {ticket : Ticket} {id : RequestId} {behavior : ToolBehavior} {owner : Owner}
    (found : host.pending[ticket]? = some ⟨.reply id, behavior, owner⟩) (line : Outgoing) :
    Books (host.complete ticket (some line)) := by
  have pending := fun candidate => host.complete_pending ticket candidate (some line)
  have history : (host.complete ticket (some line)).history =
      host.history ++ [.replied ticket { line with id := id.value }] := by
    rw [complete_history, Host.closing, found]
    rfl
  have named : host.external id = some ticket := (books.mapped id ticket).mpr ⟨_, _, found⟩
  have external : (host.complete ticket (some line)).external =
      Function.update host.external id none := by
    rw [complete_external, found]
    exact if_pos named
  obtain ⟨opened, silent, live⟩ := books.opened ticket id behavior owner found
  have kept : ∀ (candidate : Ticket) (row : Pending),
      (host.complete ticket (some line)).pending[candidate]? = some row →
        ticket ≠ candidate ∧ host.pending[candidate]? = some row := by
    intro candidate row present
    rw [pending] at present
    split at present
    · cases present
    · rename_i differ
      exact ⟨differ, present⟩
  have others : ∀ candidate, ticket ≠ candidate →
      replies (host.complete ticket (some line)).history candidate =
        replies host.history candidate := by
    intro candidate differ
    rw [history, replies_append]
    simp [replies, differ]
  have accepted : ∀ candidate id row,
      .accepted candidate id row ∈ (host.complete ticket (some line)).history ↔
        .accepted candidate id row ∈ host.history := by
    intro candidate id row
    rw [history]
    simp
  have canceled : ∀ candidate,
      .canceled candidate ∈ (host.complete ticket (some line)).history ↔
        .canceled candidate ∈ host.history := by
    intro candidate
    rw [history]
    simp
  refine ⟨?_, ?_, ?_, ?_, ?_, ?_, ?_⟩
  · intro event mem candidate about
    rw [complete_nextTicket]
    rw [history] at mem
    rcases List.mem_append.mp mem with old | new
    · exact books.issued event old candidate about
    · rw [List.mem_singleton.mp new] at about
      cases about
      exact books.below found
  · intro candidate id row other kept first second
    rw [accepted] at first second
    exact books.once candidate id row other kept first second
  · intro request candidate
    rw [external]
    by_cases same : request = id
    · subst same
      rw [Function.update_self]
      refine ⟨(fun absurd => by cases absurd), ?_⟩
      rintro ⟨behavior, owner, present⟩
      obtain ⟨differ, present⟩ := kept candidate _ present
      have again := (books.mapped request candidate).mpr ⟨behavior, owner, present⟩
      rw [named] at again
      exact absurd (Option.some.inj again) differ
    · rw [Function.update_of_ne same, books.mapped]
      constructor
      · rintro ⟨behavior, owner, present⟩
        refine ⟨behavior, owner, ?_⟩
        rw [pending, if_neg, present]
        rintro rfl
        rw [found] at present
        cases present
        exact same rfl
      · rintro ⟨behavior, owner, present⟩
        exact ⟨behavior, owner, (kept candidate _ present).2⟩
  · intro candidate request behavior owner present
    obtain ⟨differ, present⟩ := kept candidate _ present
    rw [accepted, others candidate differ, canceled]
    exact books.opened candidate request behavior owner present
  · intro candidate behavior owner present
    obtain ⟨differ, present⟩ := kept candidate _ present
    simp only [accepted, canceled, others candidate differ]
    exact books.closing candidate behavior owner present
  · intro candidate request row mem absent
    rw [accepted] at mem
    unfold Settled
    rw [canceled]
    by_cases same : ticket = candidate
    · subst same
      obtain ⟨rfl, _⟩ := books.once ticket _ _ _ _ opened mem
      refine .inr ⟨live, { line with id := id.value }, ?_, rfl⟩
      rw [history, replies_append, silent]
      simp [replies]
    · rw [others candidate same]
      rw [pending, if_neg same] at absent
      exact books.settled candidate request row mem absent
  · intro candidate
    rw [history, forwards_append]
    exact books.forwarded candidate

/-- Closing a ticket keeps the books, if no open request is closed without an answer. -/
theorem complete (ticket : Ticket) (reply : Option Outgoing)
    (answered : reply = none → ∀ id behavior owner,
      host.pending[ticket]? ≠ some ⟨.reply id, behavior, owner⟩) :
    Books (host.complete ticket reply) := by
  cases found : host.pending[ticket]? with
  | none =>
    rw [complete_of_none host ticket reply found]
    exact books
  | some pending =>
    rcases pending with ⟨id | _, behavior, owner⟩
    · cases reply with
      | none => exact absurd found (answered rfl id behavior owner)
      | some line => exact books.answer found line
    · refine books.drop found (host.complete_nextTicket ticket reply) ?_ ?_
        fun candidate => host.complete_pending ticket candidate reply
      · rw [complete_external, found]
      · rw [complete_history, Host.closing, found, List.append_nil]

end Books

/-- The books are kept by all that starting and closing calls does. -/
theorem kept_books : Kept fun host : Host Params => Books host where
  closed ticket _ _ books := books.complete ticket _ fun absurd => nomatch absurd
  interrupted ticket _ found _ books := by
    refine books.record trivial (fun other about => ?_) (fun _ absurd => nomatch absurd)
    cases about
    exact books.below found
  status {host} ticket present _ books := by
    obtain ⟨pending, found⟩ := Option.isSome_iff_exists.mp present
    have began : Books (host.record (.began ticket .status host.checkpoint)) :=
      books.record trivial (fun other about => by
        cases about
        exact books.below found) (fun _ absurd => nomatch absurd)
    exact began.of_same rfl rfl rfl rfl
  restart {host} ticket present _ books := by
    obtain ⟨pending, found⟩ := Option.isSome_iff_exists.mp present
    have began : Books (host.record (.began ticket .restart host.checkpoint)) :=
      books.record trivial (fun other about => by
        cases about
        exact books.below found) (fun _ absurd => nomatch absurd)
    unfold startRestart
    dsimp only
    split
    · exact began.of_same rfl rfl rfl rfl
    · exact began.complete ticket _ fun absurd => nomatch absurd
    · exact began.of_same rfl rfl rfl rfl

namespace Books

variable {host : Host Params} (books : Books host)
include books

/-- A request whose id is free opens under the next ticket. -/
theorem accept {next : Ticket} (following : host.nextTicket.next = some next) {id : RequestId}
    (free : host.external id = none) (route : Route) : Books (host.accept next id route) := by
  have pending := host.accept_pending next id route
  have later := Ticket.lt_next following
  have history : (host.accept next id route).history = host.history ++
      [.accepted host.nextTicket id ⟨.reply id, route.scheduled.1, route.scheduled.2⟩] := rfl
  have unopened : ∀ row : Pending, host.pending[host.nextTicket]? ≠ some row :=
    fun row found => lt_irrefl _ (books.below found)
  have silent : ∀ ticket, replies (host.accept next id route).history ticket =
      replies host.history ticket := by
    intro ticket
    rw [history, replies_append]
    exact List.append_nil _
  have canceled : ∀ ticket, .canceled ticket ∈ (host.accept next id route).history ↔
      .canceled ticket ∈ host.history := by
    intro ticket
    rw [history]
    simp
  have accepted : ∀ ticket request row,
      .accepted ticket request row ∈ (host.accept next id route).history ↔
        .accepted ticket request row ∈ host.history ∨ ticket = host.nextTicket ∧
          request = id ∧ row = ⟨.reply id, route.scheduled.1, route.scheduled.2⟩ := by
    intro ticket request row
    rw [history, List.mem_append, List.mem_singleton, Event.accepted.injEq]
  have earlier : ∀ request row, .accepted host.nextTicket request row ∉ host.history :=
    fun request row mem => lt_irrefl _ (books.issued _ mem _ rfl)
  refine ⟨?_, ?_, ?_, ?_, ?_, ?_, ?_⟩
  · intro event mem ticket about
    rcases List.mem_append.mp mem with old | new
    · exact (books.issued event old ticket about).trans later
    · rw [List.mem_singleton.mp new] at about
      cases about
      exact later
  · intro ticket request row other kept first second
    rw [accepted] at first second
    rcases first with old | ⟨rfl, rfl, rfl⟩ <;> rcases second with oldToo | ⟨same, rfl, rfl⟩
    · exact books.once ticket request row other kept old oldToo
    · rw [same] at old
      exact absurd old (earlier _ _)
    · exact absurd oldToo (earlier _ _)
    · exact ⟨rfl, rfl⟩
  · intro request ticket
    change Function.update host.external id (some host.nextTicket) request = some ticket ↔ _
    rw [pending]
    by_cases same : request = id
    · subst same
      rw [Function.update_self]
      constructor
      · rintro ⟨rfl⟩
        rw [if_pos rfl]
        exact ⟨_, _, rfl⟩
      · rintro ⟨behavior, owner, present⟩
        split at present
        · rename_i own
          rw [own]
        · have named := (books.mapped request ticket).mpr ⟨_, _, present⟩
          rw [free] at named
          cases named
    · rw [Function.update_of_ne same, books.mapped]
      split
      · rename_i own
        subst own
        refine ⟨fun ⟨_, _, present⟩ => absurd present (unopened _), ?_⟩
        rintro ⟨behavior, owner, present⟩
        cases present
        exact absurd rfl same
      · rfl
  · intro ticket request behavior owner present
    rw [pending] at present
    rw [accepted, silent, canceled]
    split at present
    · rename_i own
      subst own
      cases present
      refine ⟨.inr ⟨rfl, rfl, rfl⟩, replies_fresh books.issued le_rfl, fun mem => ?_⟩
      exact lt_irrefl _ (books.issued _ mem _ rfl)
    · obtain ⟨opened, rest⟩ := books.opened ticket request behavior owner present
      exact ⟨.inl opened, rest⟩
  · intro ticket behavior owner present
    rw [pending] at present
    rw [silent, canceled]
    split at present
    · cases present
    · obtain ⟨⟨request, opened⟩, rest⟩ := books.closing ticket behavior owner present
      exact ⟨⟨request, (accepted _ _ _).mpr (.inl opened)⟩, rest⟩
  · intro ticket request row mem absent
    rw [pending] at absent
    unfold Settled
    rw [silent, canceled]
    split at absent
    · cases absent
    · rename_i differ
      rcases (accepted _ _ _).mp mem with old | ⟨own, _⟩
      · exact books.settled ticket request row old absent
      · exact absurd own.symm differ
  · intro ticket
    rw [history, forwards_append]
    exact books.forwarded ticket

/-- A request whose id is freed stays with its owner, unanswered. -/
theorem cancel (request : RequestId) (refusal : Option String) :
    Books (host.cancel request refusal) := by
  unfold Host.cancel
  split
  · exact books
  · rename_i ticket named
    obtain ⟨behavior, owner, found⟩ := (books.mapped request ticket).mp named
    obtain ⟨opened, silent, live⟩ := books.opened ticket request behavior owner found
    dsimp only
    rw [found]
    dsimp only
    have lookups := host.canceled_pending ticket ⟨.reply request, behavior, owner⟩
    have marked : Books ({ host with
        external := Function.update host.external request none
        pending := host.pending.insert ticket ⟨.canceled, behavior, owner⟩ }.record
        (.canceled ticket)) := by
      have same : ∀ other, replies (host.history ++ [.canceled ticket]) other =
          replies host.history other := by
        intro other
        rw [replies_append]
        exact List.append_nil _
      have canceled : ∀ other, other ≠ ticket →
          (.canceled other ∈ host.history ++ [.canceled ticket] ↔
            .canceled other ∈ host.history) := by
        intro other differ
        simp [differ]
      refine ⟨?_, ?_, ?_, ?_, ?_, ?_, ?_⟩
      · intro event mem other about
        rcases List.mem_append.mp mem with old | new
        · exact books.issued event old other about
        · rw [List.mem_singleton.mp new] at about
          cases about
          exact books.below found
      · intro other id row second kept first again
        have first : .accepted other id row ∈ host.history := by simpa [Host.record] using first
        have again : .accepted other second kept ∈ host.history := by
          simpa [Host.record] using again
        exact books.once other id row second kept first again
      · intro id other
        change Function.update host.external request none id = some other ↔
          ∃ behavior' owner', (host.pending.insert ticket ⟨.canceled, behavior, owner⟩)[other]? =
            some ⟨.reply id, behavior', owner'⟩
        rw [lookups]
        by_cases own : id = request
        · subst own
          rw [Function.update_self]
          refine ⟨(fun absurd => by cases absurd), ?_⟩
          rintro ⟨behavior', owner', present⟩
          split at present
          · cases present
          · rename_i differ
            have again := (books.mapped id other).mpr ⟨_, _, present⟩
            rw [named] at again
            exact absurd (Option.some.inj again) differ
        · rw [Function.update_of_ne own, books.mapped]
          split
          · rename_i same
            subst same
            rw [found]
            constructor
            · rintro ⟨_, _, present⟩
              cases present
              exact absurd rfl own
            · rintro ⟨_, _, present⟩
              cases present
          · rfl
      · intro other id behavior' owner' present
        have present := (lookups other).symm.trans present
        split at present
        · cases present
        · rename_i differ
          obtain ⟨accepted, rest⟩ := books.opened other id behavior' owner' present
          refine ⟨List.mem_append_left _ accepted, ?_⟩
          change replies (host.history ++ [.canceled ticket]) other = [] ∧
            .canceled other ∉ host.history ++ [.canceled ticket]
          rw [same, canceled other (fun equal => differ equal.symm)]
          exact rest
      · intro other behavior' owner' present
        replace present := (lookups other).symm.trans present
        change _ ∧ replies (host.history ++ [.canceled ticket]) other = [] ∧
          .canceled other ∈ host.history ++ [.canceled ticket]
        rw [same]
        split at present
        · rename_i own
          subst own
          cases present
          exact ⟨⟨request, List.mem_append_left _ opened⟩, silent,
            List.mem_append_right _ (List.mem_singleton.mpr rfl)⟩
        · obtain ⟨⟨id, accepted⟩, none, mem⟩ :=
            books.closing other behavior' owner' present
          exact ⟨⟨id, List.mem_append_left _ accepted⟩, none, List.mem_append_left _ mem⟩
      · intro other id row accepted absent
        have absent := (lookups other).symm.trans absent
        split at absent
        · cases absent
        · rename_i differ
          have accepted : .accepted other id row ∈ host.history := by
            simpa [Host.record] using accepted
          change .canceled other ∈ host.history ++ [.canceled ticket] ∧
              replies (host.history ++ [.canceled ticket]) other = [] ∨
            .canceled other ∉ host.history ++ [.canceled ticket] ∧
              ∃ line, replies (host.history ++ [.canceled ticket]) other = [line] ∧
                line.id = id.value
          rw [same, canceled other (fun equal => differ equal.symm)]
          exact books.settled other id row accepted absent
      · intro other
        change forwards (host.history ++ [.canceled ticket]) other ≤ 1
        rw [forwards_append]
        exact books.forwarded other
    split
    · split
      · exact marked.of_same rfl rfl rfl rfl
      · exact marked
    · split
      · refine marked.drop ((lookups ticket).trans (if_pos rfl)) rfl rfl rfl fun other => ?_
        exact Table.getElem?_erase _ ticket other
      · exact marked

end Books

end Host

end Nits.Mcp
