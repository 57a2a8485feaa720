import Nits.Protocol.Rpc

/-!
# Subscription scopes and bounded replay

Which events a reader asked for, and event replay with a fixed historical end and explicit
scan progress.
-/

namespace Nits.Protocol

inductive SubscribeScope
  | all
  | workspace (workspaceId : WorkspaceId)
  | review (reviewId : ReviewId)
  /-- Only the review requests that are addressed to this agent name. -/
  | awaitingAgent (agent : String)
  deriving DecidableEq

/-- Shared replay and live policy. The caller resolves review membership from persisted
records (including tombstones), optionally through its cache. -/
def SubscribeScope.matches (scope : SubscribeScope) (event : Event)
    (workspaceOf : ReviewId → Option WorkspaceId) : Bool :=
  match scope with
  | .all => true
  | .workspace workspaceId =>
    (event.body.workspaceId.or (event.body.reviewId.bind workspaceOf)) = some workspaceId
  | .review reviewId => event.body.reviewId = some reviewId
  | .awaitingAgent agent =>
    match event.body with
    | .reviewRequested _ recipient .. => recipient = agent
    | _ => false

/-- Only the workspace of the event's own review is looked up. -/
theorem SubscribeScope.matches_congr (scope : SubscribeScope) {event : Event}
    {workspaceOf other : ReviewId → Option WorkspaceId}
    (same : ∀ review, event.body.reviewId = some review → workspaceOf review = other review) :
    scope.matches event workspaceOf = scope.matches event other := by
  have looked : event.body.reviewId.bind workspaceOf = event.body.reviewId.bind other := by
    cases named : event.body.reviewId with
    | none => rfl
    | some review => exact same review named
  cases scope with
  | workspace workspaceId => simp only [SubscribeScope.matches, looked]
  | all | review | awaitingAgent => rfl

/-- A nonempty remainder of a captured log window. -/
structure ReplayCursor where
  after : Seq
  through : Seq
  nonempty : after < through

/-- The cursor, if it is before its fixed end. -/
def ReplayCursor.new (after through : Seq) : Option ReplayCursor :=
  if nonempty : after < through then some ⟨after, through, nonempty⟩ else none

theorem ReplayCursor.new_of_lt {after through : Seq} (nonempty : after < through) :
    ReplayCursor.new after through = some ⟨after, through, nonempty⟩ :=
  dif_pos nonempty

inductive ReplayPosition
  /-- Capture the current end once. `now` returns that end without history. -/
  | start (since : Since)
  /-- Resume scanning the same fixed window, including unmatched records. -/
  | continue (cursor : ReplayCursor)
  /-- Wait for the log to advance beyond `after`, then capture a new window. -/
  | follow (after : Seq)

inductive ReplayProgress
  /-- Last scanned sequence, even when the page contains no matching events. -/
  | more (after : Seq)
  | complete

structure ReplayPage where
  /-- Fixed inclusive end, retained on continuation. For a future starting cursor this
  equals that cursor, so a completed page never moves backwards. -/
  through : Seq
  events : List Event
  progress : ReplayProgress

end Nits.Protocol
