import Nits.ReviewCore.Soundness

/-!
# Between two changes of a workspace

Questions, lookups of repositories and the events of reviews change no workspace and
no membership. What the registry gains in between is what its own lookups found.
-/

namespace Nits.ReviewCore

open Logical Protocol

/-! ## Events of workspaces -/

/-- Whether an event changes a workspace or its memberships. -/
def shapesWorkspaces : EventBody → Bool
  | .workspaceCreated _ | .workspaceUpdated .. | .repoAttached .. | .repoDetached .. => true
  | _ => false

/-- Every other event leaves the workspaces as they are. -/
theorem Views.apply_workspaces {views last : Views} {event : Event}
    (other : shapesWorkspaces event.body = false) (applied : views.apply event = .ok last) :
    last.workspaces = views.workspaces := by
  have indexed (views : Views) (review : ReviewId) (comment : Comment) :
      (views.indexAnchor review comment).workspaces = views.workspaces := by
    unfold indexAnchor
    split <;> rfl
  have unindexed (views : Views) (comment : Comment) :
      (views.unindexAnchor comment).workspaces = views.workspaces := by
    unfold unindexAnchor
    split <;> rfl
  obtain ⟨seq, ts, author, clientId, clientSeq, body⟩ := event
  cases body with
  | workspaceCreated | workspaceUpdated | repoAttached | repoDetached => cases other
  | reviewCreated | fileUnviewed =>
    cases applied
    rfl
  | reviewTargetUpdated reviewId target =>
    obtain ⟨record, _, changed⟩ := bind_eq_ok.mp applied
    split at changed
    · cases changed
      rfl
    · cases changed
  | commentCreated comment =>
    obtain ⟨record, _, joined⟩ := bind_eq_ok.mp applied
    obtain ⟨thread, _, rfl⟩ := map_eq_ok.mp joined
    exact indexed _ _ _
  | commentDeleted reviewId commentId =>
    obtain ⟨comment, _, rfl⟩ := map_eq_ok.mp applied
    exact unindexed _ _
  | commentReanchored reviewId commentId anchor state =>
    obtain ⟨comment, _, rfl⟩ := map_eq_ok.mp applied
    by_cases deleted : state = .deleted
    · rw [if_pos deleted]
      exact unindexed _ _
    · rw [if_neg deleted, indexed]
      exact unindexed _ _
  | reviewRequested | reviewChecked =>
    cases applied
    rfl
  | reviewUpdated | reviewDeleted | reviewTargetsResolved | commentEdited | threadDeferred
  | threadResolved | threadUnresolved | fileViewed | suggestionApplied =>
    obtain ⟨row, _, rfl⟩ := map_eq_ok.mp applied
    rfl

namespace Core

/-! ## Looking without touching a workspace -/

/-- What happens to the core while no workspace changes. -/
inductive Looks (env : Environment) (origin : Core) : Core → Prop
  | start : Looks env origin origin
  /-- Questions were put. -/
  | asked {core calls} (looks : Looks env origin core) (later : core.calls ≤ calls) :
      Looks env origin { core with calls }
  | reported {core reported} (looks : Looks env origin core) :
      Looks env origin { core with reported }
  /-- An event of a review was committed. -/
  | committed {core store event} (looks : Looks env origin core)
      (log : store.events = core.store.events ++ [event])
      (other : shapesWorkspaces event.body = false)
      (kept : store.views.workspaces = core.store.views.workspaces) :
      Looks env origin { core with store }
  /-- A lookup found a repository, which was cached. -/
  | found {core looked id opened} (looks : Looks env origin core)
      (bound : boundRepo id env core = (.ok (some opened), looked))
      (later : Looks env origin looked) :
      Looks env origin
        { looked with repositories := looked.repositories.insert id opened }

section Looking

variable {env : Environment} {origin core last : Core}

theorem Looks.trans (first : Looks env origin core)
    (second : Looks env core last) : Looks env origin last := by
  induction second with
  | start => exact first
  | asked _ later ih => exact .asked ih later
  | reported _ ih => exact .reported ih
  | committed _ log other kept ih => exact .committed ih log other kept
  | found _ bound _ ih ih' => exact .found ih bound ih'

instance : IsPreorder Core (Looks env) where
  refl _ := .start
  trans _ _ _ first second := first.trans second

theorem Peeks.looks (peeks : Peeks env origin core) : Looks env origin core := by
  induction peeks with
  | start => exact .start
  | asked _ later ih => exact .asked ih later
  | found _ bound _ ih ih' => exact .found ih bound ih'

/-- No event that was committed changes a workspace. -/
theorem Looks.log (looks : Looks env origin core) :
    ∃ events, core.store.events = origin.store.events ++ events ∧
      ∀ event ∈ events, shapesWorkspaces event.body = false := by
  induction looks with
  | start => exact ⟨[], by simp, by simp⟩
  | asked _ _ ih => exact ih
  | reported _ ih => exact ih
  | @committed core store event _ log other _ ih =>
    obtain ⟨events, held, others⟩ := ih
    refine ⟨events ++ [event], by rw [log, held, List.append_assoc], ?_⟩
    intro event mem
    rcases List.mem_append.mp mem with earlier | last
    · exact others event earlier
    · rw [List.mem_singleton.mp last]
      exact other
  | found _ _ _ _ ih => exact ih

end Looking

/-! ## Programs that only look -/

/-- A program that changes no workspace. -/
def Sees {α : Type} (program : CoreM α) : Prop :=
  ∀ env, Program.Keeps env (Looks env) program

section Seeing

variable {α β : Type} {program : CoreM α}

/-- A program that only asks and caches changes no workspace. -/
theorem Quiet.sees (quiet : Quiet program) : Sees program :=
  fun env start => (quiet env start).looks

theorem Sees.bind {next : α → CoreM β} (first : Sees program) (then_ : ∀ value, Sees (next value)) :
    Sees (program >>= next) :=
  fun env => (first env).bind fun value => then_ value env

theorem Sees.attempt (sees : Sees program) : Sees program.attempt :=
  fun env => (sees env).attempt

theorem Sees.foldEach {step : β → α → CoreM β} {start : β} {items : List α}
    (sees : ∀ value item, Sees (step value item)) : Sees (Program.foldEach step start items) :=
  fun env => .foldEach fun value item => sees value item env

theorem sees_append {ctx : Ctx} {body : EventBody} (other : shapesWorkspaces body = false) :
    Sees (append ctx body) := by
  intro env
  rw [Program.keeps_iff_ends]
  intro start
  unfold append
  rw [Program.ends_bind, Program.ends_read]
  cases appended : start.store.append ⟨ctx.now, ctx.author, ctx.clientId, ctx.clientSeq, body⟩ with
  | error error =>
    have reports : Looks env start { start with reported := start.reported ++ [error] } :=
      .reported .start
    exact reports
  | ok committed =>
    obtain ⟨event, store⟩ := committed
    obtain ⟨stamped, views, applied, rfl⟩ := Store.append_eq_ok.mp appended
    have body_eq : event.body = body := by
      rw [stamped]
      rfl
    rw [← body_eq] at other
    have asked : Looks env start { start with calls := start.calls + 1 } :=
      .asked .start (Nat.le_succ start.calls)
    rw [Program.ends_bind]
    cases answer : env.answer start.calls .commit with
    | error error =>
      simp only [Program.Ends, ask, answer]
      exact asked
    | ok granted =>
      simp only [Program.Ends, ask, answer]
      exact .committed asked rfl other (Views.apply_workspaces other applied)

end Seeing

end Core

end Nits.ReviewCore
