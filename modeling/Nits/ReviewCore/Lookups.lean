import Nits.ReviewCore.Admissible
import Nits.ReviewCore.Directory

/-!
# Lookups and questions

How the core's reads end, and which of its programs leave the store alone. A quiet
program may ask the outside world and cache opened repositories, but it appends
nothing and reports nothing.
-/

namespace Nits.ReviewCore

open Logical Protocol

/-- The store is untouched and nothing was reported. -/
structure Core.Rests (before after : Core) : Prop where
  store : after.store = before.store
  reported : after.reported = before.reported

instance : IsPreorder Core Core.Rests where
  refl _ := ⟨rfl, rfl⟩
  trans _ _ _ first second :=
    ⟨second.store.trans first.store, second.reported.trans first.reported⟩

namespace Core

/-- Questions were put, and repositories that a lookup found were cached. -/
inductive Peeks (env : Environment) (origin : Core) : Core → Prop
  | start : Peeks env origin origin
  | asked {core calls} (peeks : Peeks env origin core) (later : core.calls ≤ calls) :
      Peeks env origin { core with calls }
  | found {core looked id opened} (peeks : Peeks env origin core)
      (bound : boundRepo id env core = (.ok (some opened), looked))
      (later : Peeks env origin looked) :
      Peeks env origin { looked with repositories := looked.repositories.insert id opened }

variable {env : Environment} {core last : Core} {α β : Type}

instance : IsPreorder Core (Peeks env) where
  refl _ := .start
  trans _ _ _ first second := by
    induction second with
    | start => exact first
    | asked _ later ih => exact .asked ih later
    | found _ bound _ ih ih' => exact .found ih bound ih'

theorem Peeks.rests (peeks : Peeks env core last) : Rests core last := by
  induction peeks with
  | start => exact refl_of Rests core
  | asked _ _ ih => exact ⟨ih.store, ih.reported⟩
  | found _ _ _ _ ih => exact ⟨ih.store, ih.reported⟩

/-- A program that never touches the store. -/
def Quiet {α : Type} (program : CoreM α) : Prop :=
  ∀ env, Program.Keeps env (Peeks env) program

/-! ## Reads -/

section Reads

variable {stopped : CoreError → Core → Prop} {reviewId : ReviewId}

theorem ends_review {returned : ReviewRecord → Core → Prop} :
    (review reviewId).Ends env core returned stopped ↔
      (∀ record, LiveReview core.store.views reviewId record → returned record core) ∧
        ((∀ record, ¬ LiveReview core.store.views reviewId record) →
          stopped (.notFound .review (toString reviewId)) core) := by
  have live {record : ReviewRecord} : LiveReview core.store.views reviewId record ↔
      core.store.review reviewId = some record ∧ record.lifecycle = .live :=
    ⟨fun ⟨found, live⟩ => ⟨found, live⟩, fun ⟨found, live⟩ => ⟨found, live⟩⟩
  unfold review
  simp only [Program.ends_bind, Program.ends_read, Program.ends_orStop, live]
  cases core.store.review reviewId with
  | none => simp
  | some record =>
    simp only [Option.some.injEq, forall_eq', reduceCtorEq, false_implies, and_true]
    cases lifecycle : record.lifecycle with
    | live => simp [lifecycle]
    | deleted at_ => simp [lifecycle]

theorem ends_workspace {id : WorkspaceId} {returned : Workspace → Core → Prop} :
    (workspace id).Ends env core returned stopped ↔
      (∀ workspace, core.store.views.workspaces[id]? = some workspace →
        returned workspace core) ∧
      (core.store.views.workspaces[id]? = none →
        stopped (.notFound .workspace (toString id)) core) := by
  simp [workspace, Store.workspace]

theorem ends_comment {id : CommentId} {returned : Comment → Core → Prop} :
    (comment reviewId id).Ends env core returned stopped ↔
      (∀ comment, LiveComment core.store.views reviewId id comment → returned comment core) ∧
        ((∀ comment, ¬ LiveComment core.store.views reviewId id comment) →
          stopped (.notFound .comment (toString id)) core) := by
  have live {comment : Comment} : LiveComment core.store.views reviewId id comment ↔
      (core.store.comment reviewId id).filter (fun comment => comment.state ≠ .deleted) =
        some comment := by
    rw [Option.filter_eq_some_iff]
    simp only [decide_eq_true_eq]
    exact ⟨fun ⟨found, kept⟩ => ⟨found, kept⟩, fun ⟨found, kept⟩ => ⟨found, kept⟩⟩
  unfold comment
  simp only [Program.ends_bind, Program.ends_read, Program.ends_orStop, live]
  exact and_congr_right fun _ => imp_congr_left Option.eq_none_iff_forall_not_mem

/-- A thread is found under its own key. -/
theorem ends_thread {id : ThreadId} {returned : Thread → Core → Prop}
    (keyed : Keyed core.store.views) : (thread reviewId id).Ends env core returned stopped ↔
      (∀ thread, core.store.views.threads[(reviewId, id)]? = some thread →
        returned thread core) ∧
      (core.store.views.threads[(reviewId, id)]? = none →
        stopped (.notFound .thread (toString id)) core) := by
  have found : (core.store.threads reviewId).find? (fun thread => thread.id = id) =
      core.store.views.threads[(reviewId, id)]? := (keyed.threads_held reviewId).find? id
  unfold thread
  simp only [Program.ends_bind, Program.ends_read, Program.ends_orStop, found]

theorem ends_reviewSnapshot {returned : ReviewSnapshot → Core → Prop} :
    (reviewSnapshot reviewId).Ends env core returned stopped ↔
      (∀ snapshot, core.store.reviewSnapshot reviewId = some snapshot → returned snapshot core) ∧
      (core.store.reviewSnapshot reviewId = none →
        stopped (.notFound .review (toString reviewId)) core) := by
  simp [reviewSnapshot]

/-- A snapshot is of a live review. -/
theorem live_of_reviewSnapshot {store : Store} {snapshot : ReviewSnapshot}
    (found : store.reviewSnapshot reviewId = some snapshot) :
    ∃ record, LiveReview store.views reviewId record := by
  obtain ⟨record, stored, live, _⟩ := Store.reviewSnapshot_eq_some.mp found
  exact ⟨record, stored, live⟩

theorem ends_outside {call : Call} {returned : call.Answer → Core → Prop} :
    (outside call).Ends env core returned stopped ↔
      (∀ answer, env.answer core.calls call = .ok answer →
        returned answer { core with calls := core.calls + 1 }) ∧
      (∀ error, env.answer core.calls call = .error error →
        stopped error.toCore { core with calls := core.calls + 1 }) := by
  unfold outside
  rw [Program.ends_bind]
  unfold Program.Ends ask
  cases env.answer core.calls call with
  | ok answer => simp [Pure.pure]
  | error error => simp [Program.stop]

end Reads

/-! ## Quiet programs -/

section Quiet

variable {program : CoreM α} {error : CoreError} {id : RepoId} {workspaceId : WorkspaceId}
  {reviewId : ReviewId} {repo : GitRepo}

theorem Quiet.ends (quiet : Quiet program) :
    program.Ends env core (fun _ last => Rests core last) fun _ last => Rests core last :=
  ((quiet env).ends core).imp (fun _ _ => Peeks.rests) fun _ _ => Peeks.rests

theorem quiet_pure {value : α} : Quiet (pure value) := fun _ => Program.keeps_pure

theorem quiet_stop : Quiet (Program.stop error : CoreM α) :=
  fun _ => Program.keeps_stop

theorem quiet_read {view : Core → α} : Quiet (Program.read view) := fun _ => Program.keeps_read

theorem quiet_require {condition : Prop} [Decidable condition] :
    Quiet (Program.require condition error) :=
  fun _ => Program.keeps_require

theorem quiet_orStop {value : Option α} : Quiet (Program.orStop error value) :=
  fun _ => Program.keeps_orStop

theorem Quiet.bind {next : α → CoreM β} (first : Quiet program)
    (then_ : ∀ value, Quiet (next value)) : Quiet (program >>= next) :=
  fun env => (first env).bind fun value => then_ value env

theorem Quiet.attempt (quiet : Quiet program) : Quiet program.attempt :=
  fun env => (quiet env).attempt

theorem Quiet.forEach {step : α → CoreM β} {items : List α}
    (quiet : ∀ item ∈ items, Quiet (step item)) : Quiet (Program.forEach step items) :=
  fun env => .forEach fun item mem => quiet item mem env

theorem Quiet.foldEach {step : β → α → CoreM β} {start : β} {items : List α}
    (quiet : ∀ value item, Quiet (step value item)) : Quiet (Program.foldEach step start items) :=
  fun env => .foldEach fun value item => quiet value item env

theorem quiet_ask {call : Call} : Quiet (ask call) :=
  fun _ core => .asked .start (Nat.le_succ core.calls)

theorem quiet_outside {call : Call} : Quiet (outside call) := by
  refine quiet_ask.bind fun answer => ?_
  cases answer with
  | ok answer => exact quiet_pure
  | error error => exact quiet_stop

theorem quiet_review {id : ReviewId} : Quiet (review id) := by
  refine quiet_read.bind fun store => quiet_orStop.bind fun record => ?_
  cases record.lifecycle with
  | live => exact quiet_pure
  | deleted at_ => exact quiet_stop

theorem quiet_workspace {id : WorkspaceId} : Quiet (workspace id) :=
  quiet_read.bind fun _ => quiet_orStop

theorem quiet_openRepo {path : String} : Quiet (openRepo path) :=
  quiet_outside.bind fun _ => quiet_outside.bind fun _ => quiet_pure

theorem quiet_openMember {mem : Repo} : Quiet (openMember id workspaceId mem) := by
  refine Quiet.bind ?_ fun path => quiet_read.bind fun repositories => ?_
  · refine quiet_ask.bind ?_
    rintro (error | path)
    · exact quiet_stop
    · exact quiet_pure
  · dsimp only
    split
    · exact quiet_pure
    · refine quiet_openRepo.attempt.bind ?_
      rintro (error | opened)
      · exact quiet_stop
      · exact quiet_pure

theorem quiet_boundRepo : Quiet (boundRepo id) := by
  refine quiet_read.bind fun store => Quiet.bind ?_ fun bound => quiet_pure
  refine Quiet.foldEach fun bound membership => ?_
  refine quiet_openMember.bind fun opened => ?_
  cases bound with
  | none => exact quiet_pure
  | some owned => exact quiet_require.bind fun _ => quiet_pure

theorem quiet_checkRepoOwner {candidate : OpenedRepo} : Quiet (checkRepoOwner id candidate) := by
  refine quiet_boundRepo.bind ?_
  rintro (_ | bound)
  · exact quiet_pure
  · exact quiet_require

theorem quiet_refuseSharedCheckout {opened : OpenedRepo} {mem : Repo} :
    Quiet (refuseSharedCheckout workspaceId opened mem) := by
  refine quiet_openRepo.attempt.bind ?_
  rintro (error | existing)
  · exact quiet_pure
  · exact quiet_require

/-- A lookup caches what it found. -/
theorem quiet_lookupRepo : Quiet (lookupRepo id) := by
  intro env
  rw [Program.keeps_iff_ends]
  intro start
  unfold lookupRepo
  rw [Program.ends_bind, Program.ends_iff]
  have keeps (bound : Except CoreError (Option OpenedRepo)) (looked : Core)
      (run : boundRepo id env start = (bound, looked)) : Peeks env start looked := by
    have peeks := @quiet_boundRepo id env start
    rwa [run] at peeks
  constructor
  · intro bound looked run
    have peeks := keeps _ looked run
    rw [Program.ends_bind, Program.ends_orStop]
    refine ⟨?_, fun _ => peeks⟩
    rintro opened rfl
    exact .found .start run peeks
  · exact fun _ looked run => keeps _ looked run

theorem quiet_workspaceRepo : Quiet (workspaceRepo workspaceId id) :=
  quiet_workspace.bind fun _ => quiet_require.bind fun _ => quiet_lookupRepo

theorem quiet_reviewRepo : Quiet (reviewRepo reviewId id) :=
  quiet_review.bind fun _ => quiet_require.bind fun _ => quiet_workspaceRepo

theorem quiet_retainTargets {targets : NonEmpty ResolvedTarget} :
    Quiet (retainTargets reviewId targets) := by
  refine Quiet.bind (Quiet.forEach fun target _ => ?_) fun _ => quiet_pure
  exact quiet_reviewRepo.bind fun _ => quiet_outside.bind fun _ => quiet_outside

theorem quiet_validateRevision {snapshot : ReviewSnapshot} {repoId : RepoId}
    {revision : ResolvedRef} : Quiet (validateRevision snapshot reviewId repoId repo revision) := by
  unfold validateRevision
  split
  · exact quiet_outside.bind fun _ => quiet_require
  · exact quiet_read.bind fun _ => quiet_require

theorem quiet_validateTarget {snapshot : ReviewSnapshot} {target : ResolvedTarget} :
    Quiet (validateTarget snapshot reviewId target) :=
  quiet_reviewRepo.bind fun _ => quiet_validateRevision.bind fun _ => quiet_validateRevision

theorem quiet_requireResolvable {spec : RefSpec} : Quiet (requireResolvable repo spec) := by
  refine quiet_ask.bind ?_
  rintro (error | answer)
  · exact quiet_stop
  · exact quiet_pure

theorem quiet_comment {id : CommentId} : Quiet (comment reviewId id) :=
  quiet_read.bind fun _ => quiet_orStop

theorem quiet_thread {id : ThreadId} : Quiet (thread reviewId id) :=
  quiet_read.bind fun _ => quiet_orStop

theorem quiet_reviewSnapshot {id : ReviewId} : Quiet (reviewSnapshot id) :=
  quiet_read.bind fun _ => quiet_orStop

theorem quiet_suggestion {id : CommentId} : Quiet (suggestion reviewId id) :=
  quiet_review.bind fun _ => quiet_comment.bind fun _ => quiet_read.bind fun _ => quiet_orStop

theorem quiet_pathFates {oldTree : Option TreeOid} {newTree : TreeOid} :
    Quiet (pathFates repo oldTree newTree) := by
  refine quiet_outside.bind fun entries => ?_
  cases oldTree with
  | none => exact quiet_pure
  | some oldTree => exact quiet_outside.bind fun _ => quiet_pure

theorem quiet_fatesFor {cache : FateCache} {old : NonEmpty ResolvedTarget} {target : ResolvedTarget}
    {side : Side} : Quiet (fatesFor cache repo old target side) := by
  unfold fatesFor
  split
  · exact quiet_pure
  · exact quiet_pathFates.bind fun _ => quiet_pure

theorem quiet_resolveTarget {target : ReviewTarget} : Quiet (resolveTarget workspaceId target) :=
  quiet_workspaceRepo.bind fun _ => quiet_outside.bind fun _ => quiet_outside.bind fun _ =>
    quiet_pure

theorem quiet_resolveReviewTargets {review : Review} : Quiet (resolveReviewTargets review) := by
  refine Quiet.bind (Quiet.forEach fun target _ => quiet_resolveTarget) fun resolved => ?_
  cases NonEmpty.new resolved with
  | ok resolved => exact quiet_pure
  | error error => exact quiet_stop

variable {record : ReviewRecord} {base : Option RefSpec}

theorem quiet_reopenedTargets {status : ReviewStatus} : Quiet (reopenedTargets record status) := by
  unfold reopenedTargets
  split
  · exact quiet_resolveReviewTargets.bind fun _ => quiet_pure
  · exact quiet_pure

theorem quiet_editedTarget {update : ReviewTargetUpdate} : Quiet (editedTarget record update) :=
  quiet_orStop.bind fun _ => quiet_workspaceRepo.bind fun _ => quiet_requireResolvable.bind
    fun _ => quiet_requireResolvable.bind fun _ => quiet_pure

theorem quiet_fetchedRepo {repoId : Option RepoId} : Quiet (fetchedRepo record repoId) := by
  unfold fetchedRepo
  repeat' split
  · exact quiet_pure
  · exact quiet_pure
  · exact quiet_stop

theorem quiet_directoryPath {path : String} : Quiet (directoryPath path) := by
  refine quiet_ask.bind ?_
  rintro (error | path)
  · exact quiet_stop
  · exact quiet_pure

theorem quiet_directoryRoot {path : String} : Quiet (directoryRoot path) := by
  refine quiet_ask.bind ?_
  rintro (error | _ | root)
  · exact quiet_stop
  · exact quiet_stop
  · exact quiet_pure

theorem quiet_outsideOrInvalid {call : Call} : Quiet (outsideOrInvalid call) := by
  refine quiet_ask.bind ?_
  rintro (error | answer)
  · exact quiet_stop
  · exact quiet_pure

theorem quiet_directoryAttachment {root : String} : Quiet (directoryAttachment root) := by
  refine quiet_read.bind fun store => (Quiet.forEach fun attachment _ => ?_).bind fun located => ?_
  · refine quiet_ask.bind ?_
    rintro (error | checkout)
    · exact quiet_pure
    · exact quiet_pure
  · repeat' split
    · exact quiet_pure
    · exact quiet_pure
    · exact quiet_stop
    · exact quiet_stop

theorem quiet_requireRequestedBase {git : GitRepo} : Quiet (requireRequestedBase git base) := by
  cases base with
  | none => exact quiet_pure
  | some base => exact quiet_requireResolvable

theorem quiet_chosenBase {git : GitRepo} : Quiet (chosenBase git base) := by
  cases base with
  | none => exact quiet_outside
  | some base => exact quiet_pure

theorem quiet_logPosition : Quiet logPosition := quiet_read.bind fun _ => quiet_orStop

theorem quiet_reusableReview {headSpec : RefSpec} {located : Option (WorkspaceId × RepoId)} :
    Quiet (reusableReview base headSpec located) := by
  cases located with
  | none => exact quiet_pure
  | some ids =>
    refine quiet_read.bind fun store => ?_
    dsimp only
    split
    · exact quiet_pure
    · exact quiet_logPosition.bind fun _ => quiet_pure

theorem quiet_headContent {id : ReviewId} {repoId : RepoId} {path : RepoPath} :
    Quiet (headContent id repoId path) := by
  have resolved : Quiet (resolved id) :=
    quiet_review.bind fun _ => quiet_orStop.bind fun _ => quiet_pure
  exact resolved.bind fun _ => quiet_orStop.bind fun _ => quiet_reviewRepo.bind fun _ =>
    quiet_outside.bind fun _ => quiet_pure

variable [Platform]

theorem quiet_validateAnchor {anchor : Anchor} : Quiet (validateAnchor reviewId anchor) := by
  have blob {record : ReviewRecord} {repoId : RepoId} {oid : BlobOid} :
      Quiet (anchoredBlob reviewId record repoId oid) :=
    quiet_require.bind fun _ => quiet_reviewRepo.bind fun _ => quiet_outside
  refine quiet_review.bind fun record => ?_
  cases anchor with
  | review => exact quiet_pure
  | file repoId path blobOid => exact blob.bind fun _ => quiet_pure
  | lines repoId path side blobOid lines hash =>
    exact blob.bind fun _ => quiet_require.bind fun _ => quiet_pure

theorem quiet_askReanchor {comment : Comment} {fate : PathFate} :
    Quiet (askReanchor repo comment fate) :=
  fun _ core => .asked .start (Nat.le_add_right core.calls _)

end Quiet

end Core

end Nits.ReviewCore
