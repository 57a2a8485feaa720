import Nits.Mcp.Boundary
import Nits.Mcp.Restart

/-!
# Requests and their answers

In every run each accepted request is answered once under its own id, or not at all once
it was canceled; it is handed to a worker at most once; and each management call is given
the session of the `Session` calls that a worker answered before it.
-/

namespace Nits.Mcp

open Logical
open Protocol hiding UpgradeOperation
open Protocol.Lifecycle

variable {Params Arguments : Type}

namespace Host

section Start

variable {build : BuildDescriptor} {checkpoint : SessionCheckpoint} {failure : Option String}
  {worker : Worker Params} (spawned : Worker.spawn build checkpoint failure = .ok worker)
  (supervisorBuild : BuildDescriptor)

omit spawned in
theorem start_books : Books (start worker checkpoint supervisorBuild) where
  issued _ mem := nomatch mem
  once _ _ _ _ _ mem := nomatch mem
  mapped id ticket := by
    refine ⟨(fun absurd => nomatch absurd), fun ⟨behavior, owner, found⟩ => ?_⟩
    have absent : (∅ : Table Ticket Pending)[ticket]? = none := by simp
    rw [show (start worker checkpoint supervisorBuild).pending = ∅ from rfl, absent] at found
    cases found
  opened ticket _ _ _ found := by
    have absent : (∅ : Table Ticket Pending)[ticket]? = none := by simp
    rw [show (start worker checkpoint supervisorBuild).pending = ∅ from rfl, absent] at found
    cases found
  closing ticket _ _ found := by
    have absent : (∅ : Table Ticket Pending)[ticket]? = none := by simp
    rw [show (start worker checkpoint supervisorBuild).pending = ∅ from rfl, absent] at found
    cases found
  settled _ _ _ mem := nomatch mem
  forwarded _ := Nat.zero_le 1

include spawned

theorem start_accounts : Accounts (start worker checkpoint supervisorBuild) where
  orderly := start_orderly spawned supervisorBuild
  books := start_books supervisorBuild
  custody := by
    obtain ⟨server, _, _, running⟩ := Worker.spawn_ok spawned
    refine ⟨fun child same => ?_, fun ticket pending found => ?_⟩
    · have same : worker.process = .running child := same
      rw [running] at same
      cases same
      exact Carried.restored _ server
    · obtain ⟨id, accepted⟩ := (start_books supervisorBuild).known found
      cases accepted

omit spawned in
theorem start_tended : Tended (start worker checkpoint supervisorBuild).queued
    (start worker checkpoint supervisorBuild) where
  tended ticket pending found := by
    obtain ⟨id, accepted⟩ := (start_books supervisorBuild).known found
    cases accepted
  single := rfl

theorem start_served (decoding : Decoding Params Arguments) {origin : Server}
    (restored : Server.fromCheckpoint checkpoint = .ok origin) :
    Served decoding origin (start worker checkpoint supervisorBuild) := by
  obtain ⟨server, same, _, running⟩ := Worker.spawn_ok spawned
  rw [restored] at same
  cases same
  have blank : ∀ child, (start worker checkpoint supervisorBuild).worker.process =
      .running child → child = .restored origin := by
    intro child same
    have same : worker.process = .running child := same
    rw [running] at same
    cases same
    rfl
  refine ⟨fun ticket tends => ?_, Worker.spawn_tools spawned, fun child same => ?_,
    fun child same ticket mem => ?_, fun child same ticket message mem => ?_,
    ⟨[], [], rfl, (Server.checkpoint_fromCheckpoint restored).symm, (fun _ mem => nomatch mem),
      fun child same => ?_, fun _ _ => rfl⟩, (fun _ mem => nomatch mem),
    (fun _ _ sent => nomatch sent), (fun _ mem => nomatch mem),
    (fun _ mem => nomatch mem), (fun _ mem => nomatch mem), fun early ticket call saved late same => ?_⟩
  · rcases tends with waits | ⟨_, mem, _⟩ | ⟨_, mem, _⟩ | ⟨_, same, _⟩
    · cases waits
    · cases mem
    · cases mem
    · cases same
  · rw [blank child same]
    exact Child.Single.restored origin
  · rw [blank child same] at mem
    cases mem
  · rw [blank child same] at mem
    cases mem
  · rw [blank child same]
    exact Trail.done origin
  · have empty : ([] : List (Event Params)) = early ++ .began ticket call saved :: late := same
    simp at empty

end Start

section Claim

variable (decoding : Decoding Params Arguments)

/-- The request is answered once or was canceled, or is open and was not answered yet. -/
def Fated (host : Host Params) (ticket : Ticket) (id : RequestId) : Prop :=
  Settled host.history ticket id ∨
    replies host.history ticket = [] ∧ ∃ pending : Pending, host.pending[ticket]? = some pending

/-- The host requests of a run and what became of them. -/
structure Exchanged (origin : Server) (host : Host Params) : Prop where
  fated : ∀ ticket id pending, .accepted ticket id pending ∈ host.history → host.Fated ticket id
  /-- Nothing stays open once nothing is under way. -/
  settled : Resting host → ∀ ticket id pending, .accepted ticket id pending ∈ host.history →
    Settled host.history ticket id
  /-- No request is handed to two workers, or twice to one. -/
  forwarded : ∀ ticket, forwards host.history ticket ≤ 1
  /-- Exactly the open requests that were not canceled are found under their ids. -/
  named : ∀ id ticket, host.external id = some ticket ↔
    ∃ behavior owner, host.pending[ticket]? = some ⟨.reply id, behavior, owner⟩
  boundaries : ∀ early ticket call checkpoint late,
    host.history = early ++ .began ticket call checkpoint :: late →
      Boundary decoding origin early late ticket checkpoint

theorem Served.exchanged {origin : Server} {host : Host Params}
    (served : Served decoding origin host) (accounts : Accounts host)
    (tended : Tended host.queued host) : Exchanged decoding origin host where
  fated ticket id pending accepted := by
    cases found : host.pending[ticket]? with
    | none => exact .inl (accounts.books.settled ticket id pending accepted found)
    | some row =>
      refine .inr ⟨?_, row, found⟩
      rcases row with ⟨request | _, behavior, owner⟩
      · exact (accounts.books.opened ticket request behavior owner found).2.1
      · exact (accounts.books.closing ticket behavior owner found).2.1
  settled resting ticket id pending accepted :=
    accounts.books.settled ticket id pending accepted (resting.closed accounts tended ticket)
  forwarded := accounts.books.forwarded
  named := accounts.books.mapped
  boundaries := served.begun

/-- In every run of a supervisor whose first worker started, requests and answers are
exchanged as they should be. -/
theorem run_exchanged {build : BuildDescriptor} {checkpoint : SessionCheckpoint}
    {failure : Option String} {worker : Worker Params}
    (spawned : Worker.spawn build checkpoint failure = .ok worker)
    (supervisorBuild : BuildDescriptor) (actions : List (Action Params)) :
    ∃ origin, Server.fromCheckpoint checkpoint = .ok origin ∧
      Exchanged decoding origin
        (run decoding (start worker checkpoint supervisorBuild) actions) := by
  obtain ⟨origin, restored, _, _⟩ := Worker.spawn_ok spawned
  refine ⟨origin, restored, ?_⟩
  have restorable := Server.restorable_fromCheckpoint restored
  have free : Run.Steps (step decoding) (fun _ _ => True)
      (start worker checkpoint supervisorBuild) actions := fun _ _ _ => trivial
  have keeps : ∀ (host : Host Params) (action : Action Params),
      Accounts host ∧ Tended host.queued host ∧ Served decoding origin host → True →
        Accounts (step decoding host action) ∧
          Tended (step decoding host action).queued (step decoding host action) ∧
          Served decoding origin (step decoding host action) :=
    fun _ action ⟨accounts, tended, served⟩ _ => ⟨accounts.step decoding action,
      tended.step decoding action, served.step decoding accounts restorable tended action⟩
  obtain ⟨accounts, tended, served⟩ := Run.steps_keep (step decoding) keeps
    ⟨start_accounts spawned supervisorBuild, start_tended supervisorBuild,
      start_served spawned supervisorBuild decoding restored⟩ free
  exact served.exchanged decoding accounts tended

end Claim

end Host

section Example

/-- The session is initialized, and once more while a restart is called; the worker is lost
before it answers the second time. -/
def cutRun : List (Host.Action Unit) :=
  [.line ⟨"2.0", some (.number (.posInt 1)), "initialize", ()⟩ none,
    .workerTakes ⟨true, none, "welcome", false⟩,
    .workerSays,
    .line ⟨"2.0", some (.number (.posInt 2)), "initialize", ()⟩ none,
    .line ⟨"2.0", some (.number (.posInt 3)), "tools/call", ()⟩ none,
    .workerLost "worker connection ended"]

/-- The ticket of a restart that started. -/
def Event.restart? {Params : Type} : Event Params → Option Ticket
  | .began ticket .restart _ => some ticket
  | _ => none

/-- A run cut by a restart. -/
theorem cutRun_exchanged : ∃ origin, Server.fromCheckpoint freshSession = .ok origin ∧
    Host.Exchanged restarting origin
      (Host.run restarting (Host.start freshWorker freshSession installedBuild) cutRun) :=
  Host.run_exchanged restarting freshWorker_spawned installedBuild cutRun

/-- Not every `Session` call accepted before a management call has had its effect: in
`cutRun` the restart starts after the second `initialize` was interrupted. -/
theorem not_every_session_effective : ¬ ∀ (build : BuildDescriptor)
    (checkpoint : SessionCheckpoint) (failure : Option String) (worker : Worker Unit)
    (supervisorBuild : BuildDescriptor) (actions : List (Host.Action Unit)),
    Worker.spawn build checkpoint failure = .ok worker →
      ∀ early ticket call saved late,
        (Host.run restarting (Host.start worker checkpoint supervisorBuild) actions).history =
          early ++ .began ticket call saved :: late →
        ∀ other, Scheduled early other .session → other < ticket →
          other ∈ (effects early).map Prod.fst := by
  intro every
  generalize ran : (Host.run restarting (Host.start freshWorker freshSession installedBuild)
    cutRun).history = history
  have tenth : (history[9]?.bind Event.restart?) = some 3 := by
    rw [← ran]
    decide +kernel
  obtain ⟨event, found, restart⟩ := Option.bind_eq_some_iff.mp tenth
  obtain ⟨bound, rfl⟩ := List.getElem?_eq_some_iff.mp found
  obtain ⟨saved, began⟩ : ∃ saved, history[9] = .began 3 .restart saved := by
    revert restart
    cases history[9] with
    | began ticket call saved =>
      cases call with
      | restart => exact fun same => ⟨saved, by rw [Option.some.inj same]⟩
      | status => exact fun absurd => nomatch absurd
    | _ => exact fun absurd => nomatch absurd
  have split : history = history.take 9 ++ .began 3 .restart saved :: history.drop 10 := by
    rw [← began, List.getElem_cons_drop, List.take_append_drop]
  have effect := every installedBuild freshSession none freshWorker installedBuild cutRun
    freshWorker_spawned (history.take 9) 3 .restart saved (history.drop 10)
    (ran.trans split) 2 (isSession_iff.mp ?_) (by decide)
  · rw [← ran] at effect
    exact absurd effect (by decide +kernel)
  · rw [← ran]
    decide +kernel

end Example

end Nits.Mcp
