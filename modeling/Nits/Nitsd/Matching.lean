import Nits.ReviewCore.Replay

/-!
# Matching events to scopes

The daemon remembers the workspace of every review it has come across, and falls back to
the stored records. A review never changes its workspace, so the memory agrees with the
records, and whether a committed event matches a scope does not depend on when it is asked.
-/

namespace Nits.Nitsd

open Logical Protocol ReviewCore

/-- The workspaces that the daemon remembers. -/
abbrev ReviewWorkspaces := List (ReviewId × WorkspaceId)

namespace ReviewWorkspaces

/-- The workspace of a review, remembered or looked up, and what is remembered then. -/
def workspaceOf (remembered : ReviewWorkspaces) (store : Store) (review : ReviewId) :
    Option WorkspaceId × ReviewWorkspaces :=
  match remembered.lookup review with
  | some workspace => (some workspace, remembered)
  | none =>
    match store.storedReviewWorkspace review with
    | some workspace => (some workspace, (review, workspace) :: remembered)
    | none => (none, remembered)

/-- What the writer remembers when it publishes an event. -/
def published (remembered : ReviewWorkspaces) (event : Event) : ReviewWorkspaces :=
  match event.body with
  | .reviewCreated review => (review.id, review.workspaceId) :: remembered
  | _ => remembered

/-- Does the event fall inside the scope? -/
def «matches» (remembered : ReviewWorkspaces) (store : Store) (scope : SubscribeScope)
    (event : Event) : Bool :=
  scope.matches event fun review => (remembered.workspaceOf store review).1

/-- What is remembered is what is stored. -/
def Agrees (remembered : ReviewWorkspaces) (store : Store) : Prop :=
  ∀ review workspace, remembered.lookup review = some workspace →
    store.storedReviewWorkspace review = some workspace

variable {remembered : ReviewWorkspaces} {store : Store} {review : ReviewId}

theorem agrees_nil : Agrees [] store := nofun

theorem Agrees.cons (agrees : Agrees remembered store) {workspace : WorkspaceId}
    (stored : store.storedReviewWorkspace review = some workspace) :
    Agrees ((review, workspace) :: remembered) store := by
  intro other found listed
  rw [List.lookup_cons] at listed
  split at listed
  next same =>
    rw [eq_of_beq same, stored, listed]
  · exact agrees other found listed

/-- A lookup answers what is stored, and goes on agreeing with it. -/
theorem Agrees.workspaceOf (agrees : Agrees remembered store) (review : ReviewId) :
    (remembered.workspaceOf store review).1 = store.storedReviewWorkspace review ∧
      Agrees (remembered.workspaceOf store review).2 store := by
  unfold ReviewWorkspaces.workspaceOf
  split
  next workspace listed => exact ⟨(agrees review workspace listed).symm, agrees⟩
  · split
    next workspace stored => exact ⟨stored.symm, agrees.cons stored⟩
    next unknown => exact ⟨unknown.symm, agrees⟩

theorem Agrees.matches_eq (agrees : Agrees remembered store) (scope : SubscribeScope)
    (event : Event) : remembered.matches store scope event =
      scope.matches event store.storedReviewWorkspace :=
  scope.matches_congr fun review _ => (agrees.workspaceOf review).1

section Running

variable [Platform] {env : Environment}

/-- What is remembered stays right while the core goes on. -/
theorem Agrees.grows {before after : Store} (agrees : Agrees remembered before)
    (consistent : Consistent before.views)
    (grows : Store.Grows (Admissible env) before after) : Agrees remembered after := by
  refine (grows.keeps (fun store => Consistent store.views ∧ Agrees remembered store) ?_
    ⟨consistent, agrees⟩).2
  rintro store next event ⟨consistent, agrees⟩ gains
  refine ⟨consistent.step gains.allowed gains.applied, fun review workspace listed => ?_⟩
  have stored := agrees review workspace listed
  obtain ⟨record, found, _⟩ := Option.map_eq_some_iff.mp stored
  rw [gains.workspace_kept consistent found, stored]

/-- A review is stored with the workspace that it was created in. -/
theorem stored_of_created {core : Core} (reachable : Reachable env core) {event : Event}
    (logged : event ∈ core.store.events) {created : Review}
    (body : event.body = .reviewCreated created) :
    core.store.storedReviewWorkspace created.id = some created.workspaceId := by
  refine (reachable.extends.grows.keeps (fun store => store.Traced ∧ ∀ event ∈ store.events,
    ∀ created, event.body = .reviewCreated created →
      store.storedReviewWorkspace created.id = some created.workspaceId) ?_
    ⟨.empty, fun _ mem => absurd mem List.not_mem_nil⟩).2 event logged created body
  rintro store next event ⟨traced, stored⟩ gains
  refine ⟨traced.gains gains, fun other mem created body => ?_⟩
  rw [gains.events] at mem
  rcases List.mem_append.mp mem with earlier | last
  · obtain ⟨record, found⟩ :=
      traced.recorded other earlier created.id (by rw [body]; rfl)
    rw [gains.workspace_kept traced.consistent found]
    exact stored other earlier created body
  · rw [List.mem_singleton.mp last] at body
    have follows := Views.follows_of_apply traced.consistent.toKeyed gains.applied
    unfold Store.storedReviewWorkspace Store.review
    rw [follows.review, Rows.review, body]
    simp [Rows.storeAt]

/-- Whether a committed event matches a scope is the same whenever the daemon is asked. -/
theorem matches_settled {core : Core} (reachable : Reachable env core)
    (steps : List Step) (agrees : Agrees remembered (Core.run env core steps).store)
    (scope : SubscribeScope) {event : Event} (logged : event ∈ core.store.events) :
    remembered.matches (Core.run env core steps).store scope event =
      scope.matches event core.store.storedReviewWorkspace :=
  (agrees.matches_eq scope event).trans
    ((reachable.traced env steps).2.matches_eq scope logged)

/-- What a daemon may remember: it starts with nothing, remembers a created review when it
publishes the event, and a stored one when it looks it up, while its core goes on. -/
inductive Remembering (env : Environment) : Core → ReviewWorkspaces → Prop
  | start {core} (reachable : Reachable env core) : Remembering env core []
  | goes {core remembered} (steps : List Step)
      (remembering : Remembering env core remembered) :
      Remembering env (Core.run env core steps) remembered
  | publishes {core remembered event} (remembering : Remembering env core remembered)
      (logged : event ∈ core.store.events) :
      Remembering env core (remembered.published event)
  | asked {core remembered} (review : ReviewId)
      (remembering : Remembering env core remembered) :
      Remembering env core (remembered.workspaceOf core.store review).2

theorem Remembering.agrees {core : Core} (remembering : Remembering env core remembered) :
    Reachable env core ∧ Agrees remembered core.store := by
  induction remembering with
  | start reachable => exact ⟨reachable, agrees_nil⟩
  | goes steps _ ih =>
    obtain ⟨reachable, agrees⟩ := ih
    refine ⟨?_, agrees.grows reachable.consistent
      (Core.run_extends reachable.consistent steps).grows⟩
    obtain ⟨early, rfl⟩ := reachable
    exact ⟨early ++ steps, (List.foldl_append ..).symm⟩
  | publishes _ logged ih =>
    refine ⟨ih.1, ?_⟩
    unfold published
    split
    · next created body => exact ih.2.cons (stored_of_created ih.1 logged body)
    · exact ih.2
  | asked review _ ih => exact ⟨ih.1, (ih.2.workspaceOf review).2⟩

/-- Whatever the daemon remembers, a committed event matches a scope now and later exactly
if the records of the state it was committed in say so. -/
theorem matches_whenever {core : Core} (reachable : Reachable env core)
    (steps : List Step) (scope : SubscribeScope) {event : Event}
    (logged : event ∈ core.store.events)
    (remembering : Remembering env (Core.run env core steps) remembered) :
    remembered.matches (Core.run env core steps).store scope event =
      scope.matches event core.store.storedReviewWorkspace :=
  matches_settled reachable steps remembering.agrees.2 scope logged

end Running

open Session in
/-- An event that names its review and no workspace, once the review has been looked up after a
restart. -/
theorem matches_opening : ∃ core event, core = @Core.run .plain .calm .initial opening ∧
    event.body.workspaceId = none ∧ event.body.reviewId = some reviewId ∧
    ReviewWorkspaces.matches
        (workspaceOf [] (@Core.run .plain .calm core [.restart]).store reviewId).2
        (@Core.run .plain .calm core [.restart]).store (.workspace workspaceId) event =
      SubscribeScope.matches (.workspace workspaceId) event core.store.storedReviewWorkspace := by
  obtain ⟨core, began, found⟩ : ∃ core, core = @Core.run .plain .calm .initial opening ∧
      core.store.events.any fun event => decide
        (event.body.workspaceId = none ∧ event.body.reviewId = some reviewId) :=
    ⟨_, rfl, by decide +kernel⟩
  let _ : Platform := .plain
  obtain ⟨event, logged, named⟩ := List.any_eq_true.mp found
  obtain ⟨without, named⟩ := of_decide_eq_true named
  have reachable : Reachable .calm core := ⟨opening, began⟩
  have remembering : Remembering .calm core [] := .start reachable
  exact ⟨core, event, began, without, named, matches_whenever reachable [.restart] _ logged
    ((remembering.goes [.restart]).asked reviewId)⟩

end ReviewWorkspaces

end Nits.Nitsd
