import Nits.ReviewCore.DirectoryPlan

/-!
# What operations append

An operation on a review appends events of that review alone. Those on workspaces append
theirs, and only the recording of a check appends one.
-/

namespace Nits.ReviewCore

open Logical Protocol

/-! ## Which events a program appends -/

/-- Whether an event records a check. -/
def recordsCheck : EventBody → Bool
  | .reviewChecked .. => true
  | _ => false

/-- The log grew, and by no check. -/
def Core.Unchecked (before after : Core) : Prop :=
  ∃ more, after.store.events = before.store.events ++ more ∧
    ∀ event ∈ more, recordsCheck event.body = false

instance : IsPreorder Core Core.Unchecked where
  refl _ := ⟨[], by simp, by simp⟩
  trans := by
    rintro _ _ _ ⟨first, log, bare⟩ ⟨second, log', bare'⟩
    refine ⟨first ++ second, by rw [log', log, List.append_assoc], fun event mem => ?_⟩
    obtain early | late := List.mem_append.mp mem
    · exact bare event early
    · exact bare' event late

/-- A program that appends no check, however it ends. -/
def Core.Checkless {α : Type} (program : CoreM α) : Prop :=
  ∀ env, Program.Keeps env Core.Unchecked program

namespace Core

section Rules

variable {α β : Type} {program : CoreM α} {next : α → CoreM β}

theorem Rests.unchecked {before after : Core} (rests : Rests before after) :
    Unchecked before after :=
  ⟨[], by rw [rests.store, List.append_nil], by simp⟩

/-- A quiet program leaves the store as it was, whatever its outcome. -/
theorem Quiet.store_eq {env : Environment} {start last : Core}
    {outcome : Except CoreError α} (quiet : Quiet program)
    (run : program env start = (outcome, last)) : last.store = start.store := by
  have peeks := quiet env start
  rw [run] at peeks
  exact peeks.rests.store

theorem Quiet.checkless (quiet : Quiet program) : Checkless program :=
  fun env start => (quiet env start).rests.unchecked

theorem checkless_pure {value : α} : Checkless (pure value : CoreM α) := quiet_pure.checkless

theorem Checkless.bind (first : Checkless program) (then_ : ∀ value, Checkless (next value)) :
    Checkless (program >>= next) :=
  fun env => (first env).bind fun value => then_ value env

theorem Checkless.attempt (checkless : Checkless program) : Checkless program.attempt :=
  fun env => (checkless env).attempt

/-- A quiet program in front changes nothing. -/
theorem Quiet.then_ (quiet : Quiet program) (rest : ∀ value, Checkless (next value)) :
    Checkless (program >>= next) :=
  quiet.checkless.bind rest

/-- An append that returns has put its one event at the end of the log; one that stops has
changed nothing. -/
theorem ends_append_events {ctx : Ctx} {body : EventBody} {env : Environment} {start : Core} :
    (append ctx body).Ends env start
      (fun event last => last.store.events = start.store.events ++ [event] ∧ event.body = body)
      (fun _ last => last.store = start.store) := by
  unfold append
  simp only [Program.ends_bind, Program.ends_read]
  cases appended : start.store.append ⟨ctx.now, ctx.author, ctx.clientId, ctx.clientSeq, body⟩ with
  | error error => exact rfl
  | ok committed =>
    obtain ⟨event, store⟩ := committed
    obtain ⟨rfl, views, -, rfl⟩ := Store.append_eq_ok.mp appended
    cases answer : env.answer start.calls .commit with
    | error error =>
      unfold Program.Ends
      dsimp only
      rw [ask_bind_eq, answer]
      exact rfl
    | ok committed =>
      unfold Program.Ends
      dsimp only
      rw [ask_bind_eq, answer]
      exact ⟨rfl, rfl⟩

theorem checkless_append {ctx : Ctx} {body : EventBody} (bare : recordsCheck body = false) :
    Checkless (append ctx body) := by
  intro env
  refine Program.keeps_iff_ends.mpr fun start => ends_append_events.imp ?_ ?_
  · rintro event last ⟨log, rfl⟩
    refine ⟨[event], log, fun other mem => ?_⟩
    rw [List.mem_singleton.mp mem]
    exact bare
  · exact fun _ _ same => ⟨[], by rw [same, List.append_nil], by simp⟩

theorem Checkless.foldEach {step : β → α → CoreM β} {start : β} {items : List α}
    (checkless : ∀ value item, Checkless (step value item)) :
    Checkless (Program.foldEach step start items) :=
  fun env => .foldEach fun value item => checkless value item env

/-- An operation that ends by appending one event. -/
theorem appends_last {ctx : Ctx} {body : EventBody} (bare : recordsCheck body = false)
    {value : Event → α} : Checkless (append ctx body >>= fun event => pure (value event)) :=
  (checkless_append bare).bind fun _ => checkless_pure

end Rules

/-! ## Programs of reviews -/

/-- A program that changes no workspace and appends no check. -/
structure Plain {α : Type} (program : CoreM α) : Prop where
  sees : Sees program
  checkless : Checkless program

section Plainness

variable {α β : Type} {program : CoreM α} {next : α → CoreM β}

theorem Quiet.plain (quiet : Quiet program) : Plain program := ⟨quiet.sees, quiet.checkless⟩

theorem plain_pure {value : α} : Plain (pure value : CoreM α) := quiet_pure.plain

theorem Plain.bind (first : Plain program) (then_ : ∀ value, Plain (next value)) :
    Plain (program >>= next) where
  sees := first.sees.bind fun value => (then_ value).sees
  checkless := first.checkless.bind fun value => (then_ value).checkless

theorem Quiet.before (quiet : Quiet program) (rest : ∀ value, Plain (next value)) :
    Plain (program >>= next) :=
  quiet.plain.bind rest

theorem Plain.attempt (plain : Plain program) : Plain program.attempt :=
  ⟨plain.sees.attempt, plain.checkless.attempt⟩

theorem Plain.foldEach {step : β → α → CoreM β} {start : β} {items : List α}
    (plain : ∀ value item, Plain (step value item)) :
    Plain (Program.foldEach step start items) where
  sees := .foldEach fun value item => (plain value item).sees
  checkless := .foldEach fun value item => (plain value item).checkless

theorem plain_append {ctx : Ctx} {body : EventBody} (other : shapesWorkspaces body = false)
    (bare : recordsCheck body = false) : Plain (append ctx body) :=
  ⟨sees_append other, checkless_append bare⟩

/-- An operation that ends by appending one event. -/
theorem plain_last {ctx : Ctx} {body : EventBody} (other : shapesWorkspaces body = false)
    (bare : recordsCheck body = false) {value : Event → α} :
    Plain (append ctx body >>= fun event => pure (value event)) :=
  (plain_append other bare).bind fun _ => plain_pure

end Plainness

/-! ## Operations of reviews -/

section Operations

variable {ctx : Ctx} {review : ReviewId} {threadId : ThreadId} {id : ReviewId}

theorem plain_editComment {id : CommentId} {body : String} :
    Plain (editComment ctx review id body) :=
  quiet_comment.before fun _ => quiet_require.before fun _ => plain_last rfl rfl

theorem plain_deleteComment {id : CommentId} : Plain (deleteComment ctx review id) :=
  quiet_comment.before fun _ => quiet_require.before fun _ => plain_last rfl rfl

theorem plain_deferThread {reason : DeferralReason} {trackingUrl : Option TrackingUrl} :
    Plain (deferThread ctx review threadId reason trackingUrl) := by
  refine quiet_thread.before fun thread => ?_
  have rest : Plain (append ctx (.threadDeferred review threadId reason trackingUrl) >>=
    fun _ => pure ()) := plain_last rfl rfl
  cases thread.resolution with
  | opened => exact rest
  | _ => exact quiet_stop.before fun _ => rest

theorem plain_resolveThread : Plain (resolveThread ctx review threadId) :=
  quiet_thread.before fun _ => quiet_require.before fun _ => quiet_require.before fun _ =>
    plain_last rfl rfl

theorem plain_unresolveThread : Plain (unresolveThread ctx review threadId) :=
  quiet_thread.before fun _ => quiet_require.before fun _ => quiet_require.before fun _ =>
    plain_last rfl rfl

theorem plain_deleteReview : Plain (deleteReview ctx id) :=
  quiet_review.before fun _ => plain_last rfl rfl

theorem plain_markViewed {repoId : RepoId} {path : RepoPath} :
    Plain (markViewed ctx id repoId path) :=
  quiet_orStop.before fun _ => quiet_headContent.before fun _ => plain_last rfl rfl

theorem plain_unmarkViewed {repoId : RepoId} {path : RepoPath} :
    Plain (unmarkViewed ctx id repoId path) :=
  quiet_orStop.before fun _ => quiet_review.before fun _ => plain_last rfl rfl

theorem plain_reply {id : CommentId} {kind : CommentKind} {body : String} :
    Plain (reply ctx review threadId id kind body) :=
  quiet_read.before fun _ => quiet_require.before fun _ => quiet_thread.before fun _ =>
    quiet_comment.before fun _ => plain_last rfl rfl

variable [Platform]

theorem plain_addComment {id : CommentId} {kind : CommentKind} {anchor : Anchor} {body : String}
    {context : Option CommentContext} : Plain (addComment ctx review id kind anchor body context) :=
  quiet_read.before fun _ => quiet_require.before fun _ => quiet_require.before fun _ =>
    quiet_require.before fun _ => quiet_validateAnchor.before fun _ => plain_last rfl rfl

theorem plain_applySuggestion {id : CommentId} : Plain (applySuggestion ctx review id) := by
  refine quiet_suggestion.before fun suggestion => ?_
  have applied : ∀ {patched : List UInt8} {repo : GitRepo} {repoId : RepoId} {path : RepoPath}
      {current : List UInt8}, Plain (do
        let resultBlob ← outside (.hashBlob repo patched)
        let metadata ← outside (.metadataPaths repo)
        outside (.replaceFile repo.workdir path metadata current patched)
        let _ ← append ctx (.suggestionApplied review id repoId path resultBlob)
        pure resultBlob) := by
    intro patched repo repoId path current
    exact quiet_outside.before fun _ => quiet_outside.before fun _ => quiet_outside.before fun _ =>
      plain_last rfl rfl
  dsimp only
  -- An applied suggestion stops; the steps after it are the same in both cases.
  cases suggestion.outcome
  on_goal 2 => refine quiet_stop.before fun _ => ?_
  all_goals
    refine quiet_orStop.before fun file => quiet_reviewRepo.before fun repo => ?_
    refine quiet_outside.before fun _ => quiet_outside.before fun current => ?_
    refine quiet_outside.before fun expected => quiet_require.before fun _ => ?_
    cases Patch.apply current suggestion.patch with
    | ok patched => exact quiet_pure.before fun _ => applied
    | error error => exact quiet_stop.before fun _ => applied

theorem plain_reanchorComment {old new : NonEmpty ResolvedTarget}
    {progress : FateCache × List CommentId} {comment : Comment} :
    Plain (reanchorComment ctx review old new progress comment) := by
  unfold reanchorComment
  dsimp only
  split
  · exact plain_pure
  · refine quiet_reviewRepo.before fun repo => quiet_fatesFor.before fun fates => ?_
    refine quiet_askReanchor.before fun outcome => ?_
    cases outcome with
    | unchanged => exact plain_pure
    | moved anchor state => exact plain_last rfl rfl

theorem plain_recordResolvedTargets {record : ReviewRecord}
    {targets : NonEmpty ResolvedTarget} : Plain (recordResolvedTargets ctx record targets) := by
  unfold recordResolvedTargets
  split
  · exact plain_pure
  · refine quiet_retainTargets.before fun _ => (plain_append rfl rfl).bind fun _ => ?_
    cases record.resolved with
    | none => exact plain_pure
    | some old =>
      refine Plain.bind (quiet_read.before fun _ => ?_) fun _ => plain_pure
      exact (Plain.foldEach fun _ _ => plain_reanchorComment).bind fun _ => plain_pure

theorem plain_resolveTargets : Plain (resolveTargets ctx id) :=
  quiet_review.before fun _ => quiet_resolveReviewTargets.before fun _ =>
    plain_recordResolvedTargets.bind fun _ => plain_pure

theorem plain_createReview {workspaceId : WorkspaceId} {title : String}
    {targets : NonEmpty ReviewTarget} : Plain (createReview ctx id workspaceId title targets) := by
  unfold createReview
  dsimp only
  -- Refused targets stop; the steps after them are the same in both cases.
  cases CreateReviewTargets.ofTargets targets
  on_goal 1 => refine quiet_stop.before fun created => ?_
  on_goal 2 => refine quiet_pure.before fun created => ?_
  all_goals
    exact quiet_workspace.before fun _ => quiet_read.before fun _ => quiet_require.before fun _ =>
      (Quiet.forEach fun _ _ => quiet_require).before fun _ =>
        (Quiet.forEach fun _ _ => quiet_resolveTarget).before fun _ =>
          (plain_append rfl rfl).bind fun _ => plain_resolveTargets.bind fun _ =>
            plain_pure

theorem plain_updateReview {title : String} {status : ReviewStatus} :
    Plain (updateReview ctx id title status) := by
  refine quiet_review.before fun record => quiet_reopenedTargets.before fun refreshed => ?_
  refine (plain_append rfl rfl).bind fun _ => ?_
  cases refreshed with
  | some resolved => exact plain_recordResolvedTargets.bind fun _ => plain_pure
  | none => exact plain_pure

theorem plain_updateReviewTarget {update : ReviewTargetUpdate} :
    Plain (updateReviewTarget ctx id update) :=
  quiet_review.before fun _ => quiet_editedTarget.before fun _ => (plain_append rfl rfl).bind
    fun _ => plain_resolveTargets.bind fun _ => plain_pure

theorem plain_requestReview {reviewId : ReviewId} {agent note : String} :
    Plain (requestReview ctx reviewId agent note) :=
  quiet_require.before fun _ => quiet_review.before fun _ =>
    quiet_resolveReviewTargets.before fun _ => quiet_retainTargets.before fun _ =>
      quiet_reviewSnapshot.before fun _ => (plain_append rfl rfl).bind fun _ =>
        plain_recordResolvedTargets.bind fun _ => plain_pure

theorem plain_fetchReview {reviewId : ReviewId} {repoId : Option RepoId} {remote : String} :
    Plain (fetchReview ctx reviewId repoId remote) := by
  refine quiet_review.before fun _ => quiet_fetchedRepo.before fun _ => ?_
  refine quiet_reviewRepo.before fun _ => quiet_outside.before fun _ => ?_
  refine Plain.bind (plain_resolveTargets.attempt.bind ?_) fun _ => plain_pure
  rintro (error | ⟨targets, changed⟩)
  · cases error with
    | panicked panic => exact quiet_stop.plain
    | _ => exact plain_pure
  · exact plain_pure

theorem plain_refreshWorkingTreeReview {repoId : RepoId} :
    Plain (refreshWorkingTreeReview ctx id repoId) := by
  refine quiet_review.before fun record => ?_
  split
  · exact plain_resolveTargets.bind fun _ => plain_pure
  · exact plain_pure

/-- What a client asks of a review, other than to record a check. -/
theorem plain_applyMutation {mutation : Mutation} (named : mutation.reviewId.isSome = true)
    (other : ∀ reviewId targets round, mutation ≠ .recordCheckpoint reviewId targets round) :
    Plain (applyMutation ctx mutation) := by
  cases mutation with
  | createWorkspace | renameWorkspace | attachRepo | detachRepo => cases named
  | createReview => exact plain_createReview.bind fun _ => plain_pure
  | updateReview => exact plain_updateReview
  | updateReviewTarget => exact plain_updateReviewTarget
  | deleteReview => exact plain_deleteReview
  | addComment => exact plain_addComment.bind fun _ => plain_pure
  | reply => exact plain_reply.bind fun _ => plain_pure
  | editComment => exact plain_editComment
  | deleteComment => exact plain_deleteComment
  | deferThread => exact plain_deferThread
  | resolveThread => exact plain_resolveThread
  | unresolveThread => exact plain_unresolveThread
  | markViewed => exact plain_markViewed.bind fun _ => plain_pure
  | unmarkViewed => exact plain_unmarkViewed
  | requestReview => exact plain_requestReview.bind fun _ => plain_pure
  | recordCheckpoint reviewId targets round => exact absurd rfl (other reviewId targets round)
  | applySuggestion => exact plain_applySuggestion.bind fun _ => plain_pure

end Operations

end Core

end Nits.ReviewCore
