import Nits.Mcp.Tended

/-!
# What `Session` calls do

Only a `Session` call changes the session its worker serves, and it is answered at once.
The effects of a history are the `Session` calls that ran and whose worker was not lost
before it answered; replaying them gives the session the supervisor's checkpoint is of.
-/

namespace Nits.Mcp

open Logical
open Protocol hiding UpgradeOperation
open Protocol.Lifecycle

variable {Params Arguments : Type}

section Tools

/-- The tools every worker advertises, with their behaviors. -/
def toolTable : List (String × ToolBehavior) :=
  ToolName.all.map fun name => (name.text, name.behavior)

theorem validateContract_contracts : validateContract contracts = .ok toolTable := rfl

theorem Worker.spawn_tools {build : BuildDescriptor} {checkpoint : SessionCheckpoint}
    {failure : Option String} {worker : Worker Params}
    (spawned : Worker.spawn build checkpoint failure = .ok worker) : worker.tools = toolTable := by
  obtain ⟨_, _, validated, _⟩ := Worker.spawn_ok spawned
  rw [validateContract_contracts] at validated
  exact (Except.ok.inj validated).symm

/-- The behavior of a tool is found under its name. -/
theorem lookup_toolTable (text : String) :
    toolTable.lookup text = (ToolName.parse text).map ToolName.behavior := by
  unfold toolTable ToolName.parse
  induction ToolName.all with
  | nil => rfl
  | cons name names ih =>
    rw [List.map_cons, List.lookup_cons, List.find?_cons, ih, Bool.beq_comm]
    cases name.text == text <;> rfl

end Tools

section Routing

variable (decoding : Decoding Params Arguments)

/-- Only the tools that are `Session` calls change the session. -/
theorem Server.prepareCall_plain {name : ToolName} {arguments : Arguments} {call : Call}
    (parsed : Call.parse decoding name arguments = .ok call)
    (plain : name.behavior ≠ .session) (server : Server) (answer : Answer) :
    (server.prepareCall call answer).1 = server := by
  have unchanged : (∀ name model, call ≠ .setIdentity name model) →
      (∀ context, call ≠ .useContext context) → (server.prepareCall call answer).1 = server := by
    intro noIdentity noContext
    cases call with
    | setIdentity name model => exact absurd rfl (noIdentity name model)
    | useContext context => exact absurd rfl (noContext context)
    | management | query | mutating | getIdentity | listContexts | eventWait =>
      unfold Server.prepareCall
      cases server.session <;> rfl
  refine unchanged (fun chosen model same => ?_) (fun context same => ?_)
  all_goals
    subst same
    cases name
    all_goals first
      | exact plain rfl
      | (simp only [Call.parse, Except.map] at parsed
         split at parsed <;> cases parsed)

/-- A `Session` call never waits. -/
theorem Server.prepareCall_session {name : ToolName} {arguments : Arguments} {call : Call}
    (parsed : Call.parse decoding name arguments = .ok call)
    (session : name.behavior = .session) (server : Server) (answer : Answer) :
    (server.prepareCall call answer).2.isSome := by
  cases name with
  | useContext =>
    simp only [Call.parse, Except.map] at parsed
    split at parsed
    · cases parsed
    · cases parsed
      rfl
  | setSessionIdentity =>
    simp only [Call.parse, Except.map] at parsed
    split at parsed
    · cases parsed
    · cases parsed
      rfl
  | _ => cases session

/-- No answer to the message changes the session. -/
def Plain (message : Incoming Params) : Prop :=
  ∀ (server : Server) (ticket : Ticket) (answer : Answer),
    (server.dispatch decoding (Child.addressed ticket message) answer).1 = server

/-- The message is answered at once. -/
def Immediate (message : Incoming Params) : Prop :=
  ∀ (server : Server) (ticket : Ticket) (answer : Answer),
    ∃ reply, (server.dispatch decoding (Child.addressed ticket message) answer).2 = .reply reply

variable {message : Incoming Params} {behavior : ToolBehavior}

theorem route_plain (routed : Host.route decoding message toolTable = .ok (.worker behavior))
    (other : behavior ≠ .session) : Plain decoding message := by
  intro server ticket answer
  unfold Server.dispatch
  split
  · rfl
  · split
    · split
      · split <;> rfl
      · rfl
    · split
      · rfl
      · unfold Host.route at routed
        dsimp only at routed
        split
        · rfl
        · rename_i parsed
          have parsed : Method.parse message.method = some .initializeSession := parsed
          rw [parsed] at routed
          cases routed
          exact absurd rfl other
        · rfl
        · rfl
        · rfl
        · rename_i parsed
          have parsed : Method.parse message.method = some .toolsCall := parsed
          rw [parsed] at routed
          have same : (Child.addressed ticket message).params = message.params := rfl
          rw [same]
          split
          · rfl
          · rename_i name arguments invoked
            rw [invoked] at routed
            dsimp only at routed
            rw [lookup_toolTable] at routed
            split
            · rfl
            · rename_i tool named
              rw [named] at routed
              split
              · rfl
              · rename_i call decoded
                have plain : tool.behavior ≠ .session := by
                  intro session
                  rw [Option.map_some, Option.getD_some, session] at routed
                  cases routed
                  exact other rfl
                have unchanged := Server.prepareCall_plain decoding decoded plain server answer
                split
                · rename_i outcome
                  rw [outcome] at unchanged
                  exact unchanged
                · rename_i outcome
                  rw [outcome] at unchanged
                  exact unchanged

theorem route_session (routed : Host.route decoding message toolTable = .ok (.worker .session))
    (version : message.jsonrpc = "2.0") (request : message.id.isSome) :
    Immediate decoding message := by
  intro server ticket answer
  obtain ⟨id, given⟩ := Option.isSome_iff_exists.mp request
  have addressed : (Child.addressed ticket message).id = some ticket.requestId.value := by
    simp [Child.addressed, given]
  have spoken : (Child.addressed ticket message).jsonrpc = "2.0" := version
  unfold Server.dispatch
  simp only [spoken, addressed, RequestId.requestId_value, ne_eq, not_true_eq_false, if_false]
  unfold Host.route at routed
  dsimp only at routed
  split
  · exact ⟨_, rfl⟩
  · exact ⟨_, rfl⟩
  · exact ⟨_, rfl⟩
  · exact ⟨_, rfl⟩
  · exact ⟨_, rfl⟩
  · rename_i parsed
    have parsed : Method.parse message.method = some .toolsCall := parsed
    rw [parsed] at routed
    have same : (Child.addressed ticket message).params = message.params := rfl
    rw [same]
    split
    · exact ⟨_, rfl⟩
    · rename_i name arguments invoked
      rw [invoked] at routed
      dsimp only at routed
      rw [lookup_toolTable] at routed
      split
      · exact ⟨_, rfl⟩
      · rename_i tool named
        rw [named, Option.map_some, Option.getD_some] at routed
        split
        · exact ⟨_, rfl⟩
        · rename_i call decoded
          have session : tool.behavior = .session := by
            split at routed
            · split at routed <;> cases routed
            · split at routed <;> cases routed
            · injection routed with worker
              injection worker
          have answers := Server.prepareCall_session decoding decoded session server answer
          split
          · rename_i outcome
            rw [outcome] at answers
            cases answers
          · exact ⟨_, rfl⟩

end Routing

section Replay

variable (decoding : Decoding Params Arguments)

namespace Server

/-- A server restored from a checkpoint may be restored again from its own. -/
def Restorable (server : Server) : Prop :=
  server.session = none → server.cursorPolicy = .initialContext

variable {server : Server}

theorem restorable_fromCheckpoint {saved : SessionCheckpoint}
    (restored : fromCheckpoint saved = .ok server) : server.Restorable := by
  unfold fromCheckpoint at restored
  split at restored
  · cases restored
  · cases restored
    intro none
    cases state : saved.state with
    | uninitialized => rfl
    | initialized => simp [state] at none

theorem fromCheckpoint_checkpoint (restorable : server.Restorable) :
    fromCheckpoint server.checkpoint = .ok server := by
  rcases server with ⟨endpoint, agent, session, cursorPolicy⟩
  cases session with
  | none =>
    have initial : cursorPolicy = .initialContext := restorable rfl
    subst initial
    rfl
  | some identity => rfl

theorem setIdentity_restorable (restorable : server.Restorable) (name model : String)
    (answer : Answer) : (server.setIdentity name model answer).1.Restorable := by
  unfold setIdentity
  split
  · exact restorable
  · split
    · exact fun absurd => nomatch absurd
    · exact restorable

theorem useContext_restorable (restorable : server.Restorable) (answer : Answer) :
    (server.useContext answer).1.Restorable := by
  unfold useContext
  split
  · exact restorable
  · exact restorable
  · rename_i identity selection present _
    split
    · intro none
      have none : server.session = Option.none := none
      rw [present] at none
      cases none
    · exact restorable

theorem prepareCall_restorable (restorable : server.Restorable) (call : Call) (answer : Answer) :
    (server.prepareCall call answer).1.Restorable := by
  cases call with
  | setIdentity name model => exact setIdentity_restorable restorable name model answer
  | useContext context => exact useContext_restorable restorable answer
  | management => exact restorable
  | query | mutating | getIdentity | listContexts | eventWait =>
    unfold prepareCall
    dsimp only
    split <;> exact restorable

theorem dispatch_restorable (restorable : server.Restorable) (message : Incoming Params)
    (answer : Answer) : (server.dispatch decoding message answer).1.Restorable := by
  unfold dispatch
  split
  · exact restorable
  · split
    · split
      · split <;> exact restorable
      · exact restorable
    · split
      · exact restorable
      · split
        · exact restorable
        · exact fun absurd => nomatch absurd
        · exact restorable
        · exact restorable
        · exact restorable
        · split
          · exact restorable
          · split
            · exact restorable
            · split
              · exact restorable
              · have kept := prepareCall_restorable restorable
                split
                · rename_i call _ _ _ outcome
                  have after := kept call answer
                  rw [outcome] at after
                  exact after
                · rename_i call _ _ _ _ outcome
                  have after := kept call answer
                  rw [outcome] at after
                  exact after

/-- Serve calls one after the other. -/
def replay (server : Server) (calls : List (Ticket × Incoming Params × Answer)) : Server :=
  calls.foldl (fun server (ticket, message, answer) =>
    (server.dispatch decoding (Child.addressed ticket message) answer).1) server

@[simp] theorem replay_nil (server : Server) : server.replay decoding [] = server := rfl

theorem replay_append (server : Server) (early late : List (Ticket × Incoming Params × Answer)) :
    server.replay decoding (early ++ late) = (server.replay decoding early).replay decoding late :=
  List.foldl_append

theorem replay_restorable (restorable : server.Restorable)
    (calls : List (Ticket × Incoming Params × Answer)) :
    (server.replay decoding calls).Restorable := by
  induction calls generalizing server with
  | nil => exact restorable
  | cons call calls ih => exact ih (dispatch_restorable decoding restorable _ _)

end Server

end Replay

section Effects

/-- The request was accepted for a worker, to be scheduled so. -/
def Scheduled (history : List (Event Params)) (ticket : Ticket) (behavior : ToolBehavior) :
    Prop :=
  ∃ id pending, .accepted ticket id pending ∈ history ∧ pending.owner = .worker ∧
    pending.behavior = behavior

def isSession (history : List (Event Params)) (ticket : Ticket) : Bool :=
  history.any fun
    | .accepted other _ pending =>
      other == ticket && pending.owner == .worker && pending.behavior == .session
    | _ => false

def isInterrupted (history : List (Event Params)) (ticket : Ticket) : Bool :=
  history.any fun
    | .interrupted other => other == ticket
    | _ => false

def effective (history : List (Event Params)) (ticket : Ticket) : Bool :=
  isSession history ticket && !isInterrupted history ticket

/-- The `Session` calls that a worker ran, in that order, but those whose worker was lost
before its answer was read. -/
def effects (history : List (Event Params)) : List (Ticket × Incoming Params × Answer) :=
  history.filterMap fun
    | .ran ticket message answer =>
      if effective history ticket then some (ticket, message, answer) else none
    | _ => none

variable {history late : List (Event Params)}

theorem isInterrupted_iff {ticket : Ticket} :
    isInterrupted history ticket = true ↔ .interrupted ticket ∈ history := by
  unfold isInterrupted
  rw [List.any_eq_true]
  constructor
  · rintro ⟨event, mem, held⟩
    cases event with
    | interrupted other =>
      have same : other = ticket := by simpa using held
      rwa [← same]
    | _ => cases held
  · exact fun mem => ⟨_, mem, by simp⟩

theorem isSession_append (history late : List (Event Params)) (ticket : Ticket) :
    isSession (history ++ late) ticket = (isSession history ticket || isSession late ticket) :=
  List.any_append

theorem isInterrupted_append (history late : List (Event Params)) (ticket : Ticket) :
    isInterrupted (history ++ late) ticket =
      (isInterrupted history ticket || isInterrupted late ticket) :=
  List.any_append

theorem Scheduled.mono {later : List (Event Params)} {ticket : Ticket} {behavior : ToolBehavior}
    (scheduled : Scheduled history ticket behavior) (kept : ∀ event ∈ history, event ∈ later) :
    Scheduled later ticket behavior := by
  obtain ⟨id, pending, mem, rest⟩ := scheduled
  exact ⟨id, pending, kept _ mem, rest⟩

theorem isSession_iff {ticket : Ticket} :
    isSession history ticket = true ↔ Scheduled history ticket .session := by
  unfold isSession
  rw [List.any_eq_true]
  constructor
  · rintro ⟨event, mem, held⟩
    cases event with
    | accepted other id pending =>
      simp only [Bool.and_eq_true, beq_iff_eq] at held
      obtain ⟨⟨same, owned⟩, session⟩ := held
      subst same
      exact ⟨id, pending, mem, owned, session⟩
    | _ => cases held
  · rintro ⟨id, pending, mem, owned, session⟩
    exact ⟨_, mem, by simp [owned, session]⟩

/-- Effects stay when what ran is judged as before. -/
theorem effects_append (same : ∀ ticket message answer, .ran ticket message answer ∈ history →
      effective (history ++ late) ticket = effective history ticket) :
    effects (history ++ late) = effects history ++ late.filterMap fun
      | .ran ticket message answer =>
        if effective (history ++ late) ticket then some (ticket, message, answer) else none
      | _ => none := by
  unfold effects
  rw [List.filterMap_append]
  congr 1
  refine List.filterMap_congr fun event mem => ?_
  cases event with
  | ran ticket message answer =>
    dsimp only
    rw [same ticket message answer mem]
  | _ => rfl

/-- The event neither accepts, runs nor interrupts a call. -/
def Event.Idle : Event Params → Prop
  | .accepted .. | .ran .. | .interrupted _ => False
  | _ => True

theorem effective_idle (idle : ∀ event ∈ late, event.Idle) (ticket : Ticket) :
    effective (history ++ late) ticket = effective history ticket := by
  have sessions : isSession late ticket = false := by
    refine List.any_eq_false.mpr fun event mem held => ?_
    have idle := idle event mem
    cases event with
    | accepted => exact idle
    | _ => cases held
  have interrupted : isInterrupted late ticket = false := by
    refine List.any_eq_false.mpr fun event mem held => ?_
    have idle := idle event mem
    cases event with
    | interrupted => exact idle
    | _ => cases held
  unfold effective
  rw [isSession_append, isInterrupted_append, sessions, interrupted, Bool.or_false, Bool.or_false]

theorem effects_idle (idle : ∀ event ∈ late, event.Idle) :
    effects (history ++ late) = effects history := by
  rw [effects_append fun ticket _ _ _ => effective_idle idle ticket]
  refine (congrArg _ ?_).trans (List.append_nil _)
  refine List.filterMap_eq_nil_iff.mpr fun event mem => ?_
  have idle := idle event mem
  cases event with
  | ran => exact idle.elim
  | _ => rfl

/-- Accepting a request with a ticket not given before adds no effect. -/
theorem effects_accepted {ticket : Ticket} (id : RequestId) (pending : Pending)
    (fresh : ∀ message answer, .ran ticket message answer ∉ history) :
    effects (history ++ [.accepted ticket id pending]) = effects history := by
  rw [effects_append]
  · exact List.append_nil _
  · intro other message answer mem
    have differ : (ticket == other) = false := by
      refine beq_eq_false_iff_ne.mpr ?_
      rintro rfl
      exact fresh message answer mem
    unfold effective
    rw [isSession_append, isInterrupted_append]
    simp [isSession, isInterrupted, differ]

/-- A worker runs a call: one more effect, if it is a `Session` call. -/
theorem effects_ran (history : List (Event Params)) (ticket : Ticket)
    (message : Incoming Params) (answer : Answer) :
    effects (history ++ [.ran ticket message answer]) = effects history ++
      if effective history ticket then [(ticket, message, answer)] else [] := by
  have same : ∀ other, effective (history ++ [.ran ticket message answer]) other =
      effective history other := by
    intro other
    unfold effective
    rw [isSession_append, isInterrupted_append]
    simp [isSession, isInterrupted]
  rw [effects_append fun other _ _ _ => same other, List.filterMap_cons, List.filterMap_nil]
  dsimp only
  rw [same]
  by_cases held : effective history ticket = true
  · simp [held]
  · simp [held]

/-- What was interrupted has no effect. -/
theorem effects_interrupted (history : List (Event Params)) (ticket : Ticket) :
    effects (history ++ [.interrupted ticket]) =
      (effects history).filter fun call => call.1 != ticket := by
  have judged : ∀ other, effective (history ++ [.interrupted ticket]) other =
      (effective history other && other != ticket) := by
    intro other
    unfold effective
    rw [isSession_append, isInterrupted_append]
    have single : isInterrupted ([.interrupted ticket] : List (Event Params)) other =
        (ticket == other) := by
      simp [isInterrupted]
    have none : isSession ([.interrupted ticket] : List (Event Params)) other = false := rfl
    rw [single, none, bne, Bool.beq_comm (a := other)]
    cases isSession history other <;> cases isInterrupted history other <;>
      cases ticket == other <;> rfl
  unfold effects
  rw [List.filterMap_append, List.filter_filterMap]
  refine (List.append_nil _).trans (List.filterMap_congr fun event mem => ?_)
  cases event with
  | ran other message answer =>
    dsimp only
    rw [judged]
    cases effective history other <;> cases kept : other != ticket <;> simp [Option.filter, kept]
  | _ => rfl

/-- Every effect is of a `Session` call that ran and was not interrupted. -/
theorem of_effects {call : Ticket × Incoming Params × Answer} (mem : call ∈ effects history) :
    .ran call.1 call.2.1 call.2.2 ∈ history ∧
      Scheduled history call.1 .session ∧ .interrupted call.1 ∉ history := by
  obtain ⟨event, within, effect⟩ := List.mem_filterMap.mp mem
  cases event with
  | ran ticket message answer =>
    dsimp only at effect
    split at effect
    · rename_i effective
      obtain ⟨session, kept⟩ := Bool.and_eq_true_iff.mp effective
      cases effect
      refine ⟨within, isSession_iff.mp session, fun interrupted => ?_⟩
      rw [isInterrupted_iff.mpr interrupted] at kept
      cases kept
    · cases effect
  | _ => cases effect

end Effects

end Nits.Mcp
