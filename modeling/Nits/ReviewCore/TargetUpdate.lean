import Nits.ReviewCore.Invariants

/-!
# Target updates

An update of one target commits the edited target and then resolves every target of
the review anew. Whatever stops it before the commit leaves the store alone. After
the commit only the database may still stop it, or the edit stands without the
resolution it was to bring.
-/

namespace Nits.ReviewCore

open Logical Protocol

/-- Whether the database stopped an operation. -/
def CoreError.isStorage : CoreError → Bool
  | .store _ => true
  | _ => false

theorem ExternalError.toCore_isStorage (error : ExternalError) :
    error.toCore.isStorage = false := by
  cases error <;> rfl

namespace Core

/-- Unless the database stops it, a program that fails leaves the store alone. -/
def Atomic {α : Type} (env : Environment) (core : Core) (program : CoreM α) : Prop :=
  ∀ error last, program env core = (.error error, last) → error.isStorage = false →
    last.store = core.store

theorem Atomic.unchanged {α : Type} {env : Environment} {core : Core}
    {program : CoreM α} {error : CoreError} (atomic : Atomic env core program)
    (failed : (program env core).1 = .error error) (outside : error.isStorage = false) :
    (program env core).2.store = core.store :=
  atomic error _ (Program.run_eq failed) outside

/-- Only the database can stop the program here. -/
abbrev Withstands {α : Type} (env : Environment) (core : Core) (program : CoreM α) : Prop :=
  Program.FailsOnly env (fun error => error.isStorage = true) program core

/-! ## Programs that leave the database alone -/

/-- The database never stops the program. -/
def Outward {α : Type} (program : CoreM α) : Prop :=
  ∀ env core,
    Program.FailsOnly env (fun error => error.isStorage = false) program core

section Outwards

variable {α β : Type} {program : CoreM α} {error : CoreError} {id : RepoId}

theorem outward_pure {value : α} : Outward (pure value) := fun _ _ => trivial

theorem Outward.bind {next : α → CoreM β} (first : Outward program)
    (then_ : ∀ value, Outward (next value)) : Outward (program >>= next) :=
  fun env core => Program.failsOnly_bind.mpr
    ⟨first env core, fun value last _ => then_ value env last⟩

theorem outward_stop (outward : error.isStorage = false) : Outward (Program.stop error : CoreM α) :=
  fun _ _ => outward

theorem outward_invalid {reason : String} : Outward (invalid reason : CoreM α) := outward_stop rfl

theorem outward_read {view : Core → α} : Outward (Program.read view) := fun _ _ => trivial

theorem outward_require {condition : Prop} [Decidable condition]
    (outward : error.isStorage = false) : Outward (Program.require condition error) :=
  fun _ _ => Program.ends_require.mpr ⟨fun _ => trivial, fun _ => outward⟩

theorem outward_orStop {value : Option α} (outward : error.isStorage = false) :
    Outward (Program.orStop error value) :=
  fun _ _ => Program.ends_orStop.mpr ⟨fun _ _ => trivial, fun _ => outward⟩

theorem Outward.foldEach {step : β → α → CoreM β} {start : β} {items : List α}
    (outward : ∀ value item, Outward (step value item)) :
    Outward (Program.foldEach step start items) :=
  fun env _ => Program.failsOnly_foldEach.mpr
    fun value item state _ => outward value item env state

theorem outward_attempt : Outward program.attempt := fun _ _ => trivial

theorem outward_ask {call : Call} : Outward (ask call) := fun _ _ => trivial

theorem outward_outside {call : Call} : Outward (outside call) := by
  refine outward_ask.bind fun answer => ?_
  cases answer with
  | ok answer => exact outward_pure
  | error error => exact outward_stop error.toCore_isStorage

theorem outward_review {id : ReviewId} : Outward (review id) := by
  refine outward_read.bind fun store => (outward_orStop rfl).bind fun record => ?_
  cases record.lifecycle with
  | live => exact outward_pure
  | deleted at_ => exact outward_stop rfl

theorem outward_openMember {workspaceId : WorkspaceId} {mem : Repo} :
    Outward (openMember id workspaceId mem) := by
  refine Outward.bind ?_ fun path => outward_read.bind fun repositories => ?_
  · refine outward_ask.bind fun answer => ?_
    cases answer with
    | ok path => exact outward_pure
    | error error => exact outward_invalid
  · dsimp only
    split
    · exact outward_pure
    · refine outward_attempt.bind fun outcome => ?_
      cases outcome with
      | ok opened => exact outward_pure
      | error error => exact outward_invalid

theorem outward_boundRepo : Outward (boundRepo id) := by
  refine outward_read.bind fun store => ?_
  refine (Outward.foldEach fun bound membership => ?_).bind fun bound => outward_pure
  refine outward_openMember.bind fun opened => ?_
  cases bound with
  | none => exact outward_pure
  | some previous => exact (outward_require rfl).bind fun _ => outward_pure

theorem outward_workspaceRepo {workspaceId : WorkspaceId} :
    Outward (workspaceRepo workspaceId id) := by
  refine (outward_read.bind fun store => outward_orStop rfl).bind fun workspace => ?_
  refine (outward_require rfl).bind fun _ => outward_boundRepo.bind fun bound => ?_
  exact (outward_orStop rfl).bind fun opened => Outward.bind (fun _ _ => trivial) fun _ => outward_pure

theorem outward_reviewRepo {reviewId : ReviewId} : Outward (reviewRepo reviewId id) :=
  outward_review.bind fun _ => (outward_require rfl).bind fun _ => outward_workspaceRepo

theorem outward_fatesFor {cache : FateCache} {repo : GitRepo} {old : NonEmpty ResolvedTarget}
    {target : ResolvedTarget} {side : Side} : Outward (fatesFor cache repo old target side) := by
  unfold fatesFor
  split
  · exact outward_pure
  · refine Outward.bind ?_ fun fates => outward_pure
    unfold pathFates
    refine outward_outside.bind fun entries => ?_
    split
    · exact outward_pure
    · exact outward_outside.bind fun changes => outward_pure

end Outwards

/-! ## What a refresh needs -/

/-- The target's repository opens and git resolves both its refs. -/
def Resolvable (env : Environment) (workspaceId : WorkspaceId) (target : ReviewTarget)
    (core : Core) : Prop :=
  ∃ repo opened base head,
    workspaceRepo workspaceId target.repoId env core = (.ok repo, opened) ∧
      env.answer opened.calls (.resolve repo target.base) = .ok base ∧
      env.answer (opened.calls + 1) (.resolve repo target.head) = .ok head

/-- The target's repository opens and git keeps both its revisions. -/
def Retainable (env : Environment) (reviewId : ReviewId) (target : ResolvedTarget)
    (core : Core) : Prop :=
  ∃ repo opened, reviewRepo reviewId target.repoId env core = (.ok repo, opened) ∧
    env.answer opened.calls (.retainRevision repo reviewId target.base) = .ok () ∧
    env.answer (opened.calls + 1) (.retainRevision repo reviewId target.head) = .ok ()

/-- If the comment follows a target, the target's repository opens, git lists where
the paths of its tree went, and the diff of the two contents is not too large. -/
def Movable [Platform] (env : Environment) (reviewId : ReviewId)
    (old new : NonEmpty ResolvedTarget) (cache : FateCache) (comment : Comment) (core : Core) :
    Prop :=
  match reanchorSubject new comment with
  | none => True
  | some (target, side, path) => ∃ repo opened found fates listed outcome,
      reviewRepo reviewId target.repoId env core = (.ok repo, opened) ∧
        fatesFor cache repo old target side env opened = (.ok (found, fates), listed) ∧
        reanchor comment.anchor comment.state (fates[path]?.getD .gone)
          (env.content listed.calls repo) (env.content (listed.calls + 1) repo) =
            .ok outcome

/-- After an edit the refresh of its review needs nothing but the database: every
target resolves, new targets are retained, and every comment can follow them. -/
structure Refreshes [Platform] (env : Environment) (ctx : Ctx) (record : ReviewRecord)
    (edited : Core) : Prop where
  resolves : ∀ target state, Program.Visits env
      (resolveTarget record.review.workspaceId) record.review.targets.items edited target state →
    Resolvable env record.review.workspaceId target state
  retains : ∀ resolved looked target state,
    resolveReviewTargets record.review env edited = (.ok resolved, looked) →
    record.resolved ≠ some resolved →
    Program.Visits env (retainTarget record.review.id) resolved.items looked target state →
    Retainable env record.review.id target state
  moves : ∀ old resolved looked kept event recorded progress comment state,
    resolveReviewTargets record.review env edited = (.ok resolved, looked) →
    record.resolved = some old → old ≠ resolved →
    retainTargets record.review.id resolved env looked = (.ok (), kept) →
    append ctx (.reviewTargetsResolved record.review.id resolved) env kept =
      (.ok event, recorded) →
    Program.Arrives env (reanchorComment ctx record.review.id old resolved) (∅, [])
      (recorded.store.comments record.review.id) recorded progress comment state →
    Movable env record.review.id old resolved progress.1 comment state

section Needs

variable {env : Environment} {core : Core} {α β : Type} {program : CoreM α} {ctx : Ctx}
  {reviewId : ReviewId}

theorem withstands_pure {value : α} : Withstands env core (pure value) := trivial

theorem withstands_bind {next : α → CoreM β} : Withstands env core (program >>= next) ↔
    Withstands env core program ∧ ∀ value last,
      program env core = (.ok value, last) → Withstands env last (next value) :=
  Program.failsOnly_bind

/-- A program that the database never stops withstands exactly if it returns. -/
theorem Outward.withstands_bind (outward : Outward program) {next : α → CoreM β} :
    Withstands env core (program >>= next) ↔
      ∃ value last, program env core = (.ok value, last) ∧
        Withstands env last (next value) := by
  have errors := (Program.ends_iff.mp (outward env core)).2
  unfold Withstands
  rw [Program.failsOnly_bind, Program.FailsOnly, Program.ends_iff]
  rcases run : program env core with ⟨outcome, last⟩
  cases outcome with
  | ok value => simp
  | error error =>
    have outside := errors error last run
    simp [outside]

theorem withstands_outside_bind {call : Call} {next : call.Answer → CoreM β} :
    Withstands env core (outside call >>= next) ↔
      ∃ answer, env.answer core.calls call = .ok answer ∧
        Withstands env { core with calls := core.calls + 1 } (next answer) := by
  unfold Withstands Program.FailsOnly
  rw [Program.ends_bind, ends_outside]
  cases env.answer core.calls call with
  | ok answer => simp
  | error error => simp [error.toCore_isStorage]

theorem withstands_append {body : EventBody} : Withstands env core (append ctx body) := by
  unfold append
  refine Program.failsOnly_bind.mpr ⟨trivial, fun store _ _ => ?_⟩
  split
  · exact Program.failsOnly_bind.mpr ⟨trivial, fun _ _ _ => rfl⟩
  · refine Program.failsOnly_bind.mpr ⟨trivial, fun answer _ _ => ?_⟩
    cases answer with
    | ok committed => exact Program.failsOnly_bind.mpr ⟨trivial, fun _ _ _ => trivial⟩
    | error error => rfl

theorem withstands_resolveTarget {workspaceId : WorkspaceId} {target : ReviewTarget} :
    Withstands env core (resolveTarget workspaceId target) ↔
      Resolvable env workspaceId target core := by
  unfold resolveTarget Resolvable
  rw [outward_workspaceRepo.withstands_bind]
  refine exists_congr fun repo => exists_congr fun opened => ?_
  simp only [exists_and_left]
  refine and_congr_right fun _ => withstands_outside_bind.trans ?_
  refine exists_congr fun base => and_congr_right fun _ => withstands_outside_bind.trans ?_
  exact exists_congr fun head => and_iff_left trivial

theorem withstands_retainTarget {target : ResolvedTarget} :
    Withstands env core (retainTarget reviewId target) ↔
      Retainable env reviewId target core := by
  unfold retainTarget Retainable
  rw [outward_reviewRepo.withstands_bind]
  refine exists_congr fun repo => exists_congr fun opened => and_congr_right fun _ => ?_
  have kept {revision : ResolvedRef} {next : Core} :
      Withstands env next (outside (.retainRevision repo reviewId revision)) ↔
        env.answer next.calls (.retainRevision repo reviewId revision) = .ok () := by
    unfold Withstands Program.FailsOnly
    rw [ends_outside]
    cases env.answer next.calls (.retainRevision repo reviewId revision) with
    | ok answer => simp
    | error error => simp [error.toCore_isStorage]
  refine withstands_outside_bind.trans ?_
  simp only [kept]
  exact ⟨fun ⟨_, first, second⟩ => ⟨first, second⟩, fun ⟨first, second⟩ => ⟨(), first, second⟩⟩

variable [Platform]

theorem withstands_reanchorComment {old new : NonEmpty ResolvedTarget}
    {progress : FateCache × List CommentId} {comment : Comment} :
    Withstands env core (reanchorComment ctx reviewId old new progress comment) ↔
      Movable env reviewId old new progress.1 comment core := by
  obtain ⟨cache, moved⟩ := progress
  unfold reanchorComment Movable
  dsimp only
  cases subject : reanchorSubject new comment with
  | none => exact iff_of_true trivial trivial
  | some found =>
    obtain ⟨target, side, path⟩ := found
    dsimp only
    rw [outward_reviewRepo.withstands_bind]
    have asked {repo : GitRepo} {fate : PathFate} {listed : Core} {next : Reanchor → CoreM
        (FateCache × List CommentId)} (withstands : ∀ outcome last,
          Withstands env last (next outcome)) :
        Withstands env listed (askReanchor repo comment fate >>= next) ↔
          ∃ outcome, reanchor comment.anchor comment.state fate
            (env.content listed.calls repo) (env.content (listed.calls + 1) repo) =
              .ok outcome := by
      unfold Withstands
      rw [Program.failsOnly_bind, and_iff_left fun outcome last _ => withstands outcome last]
      unfold Program.FailsOnly Program.Ends askReanchor
      dsimp only
      cases reanchor comment.anchor comment.state fate (env.content listed.calls repo)
        (env.content (listed.calls + 1) repo) with
      | ok outcome => simp
      | error panic => simp [CoreError.isStorage]
    simp only [exists_and_left]
    refine exists_congr fun repo => exists_congr fun opened => and_congr_right fun _ => ?_
    rw [outward_fatesFor.withstands_bind, Prod.exists]
    refine exists_congr fun found => exists_congr fun fates => exists_congr fun listed =>
      and_congr_right fun _ => asked ?_
    rintro (_ | ⟨anchor, state⟩) last
    · exact Program.failsOnly_pure
    · exact Program.failsOnly_bind.mpr ⟨withstands_append, fun _ _ _ => Program.failsOnly_pure⟩

omit [Platform] in
theorem withstands_resolveReviewTargets {review : Review} :
    Withstands env core (resolveReviewTargets review) ↔
      ∀ target state, Program.Visits env (resolveTarget review.workspaceId)
        review.targets.items core target state →
          Resolvable env review.workspaceId target state := by
  simp only [← withstands_resolveTarget]
  unfold resolveReviewTargets Withstands
  rw [Program.failsOnly_bind, Program.failsOnly_forEach]
  refine and_iff_left fun resolved last run => ?_
  have count := Program.forEach_length run
  cases resolved with
  | nil => exact absurd (List.length_eq_zero_iff.mp count.symm) review.targets.nonempty
  | cons first rest => exact Program.failsOnly_pure

omit [Platform] in
theorem withstands_retainTargets {targets : NonEmpty ResolvedTarget} :
    Withstands env core (retainTargets reviewId targets) ↔
      ∀ target state, Program.Visits env (retainTarget reviewId) targets.items core target
        state → Retainable env reviewId target state := by
  simp only [← withstands_retainTarget]
  unfold retainTargets Withstands
  rw [Program.failsOnly_discard, Program.failsOnly_forEach]

theorem withstands_reanchorReview {old new : NonEmpty ResolvedTarget} :
    Withstands env core (reanchorReview ctx reviewId old new) ↔
      ∀ progress comment state, Program.Arrives env (reanchorComment ctx reviewId old new)
        (∅, []) (core.store.comments reviewId) core progress comment state →
          Movable env reviewId old new progress.1 comment state := by
  change Withstands env core (Program.foldEach (reanchorComment ctx reviewId old new)
    (∅, []) (core.store.comments reviewId) >>= fun progress => pure progress.2) ↔ _
  unfold Withstands
  rw [Program.failsOnly_bind, Program.failsOnly_foldEach,
    and_iff_left fun _ _ _ => Program.failsOnly_pure]
  exact forall_congr' fun progress => forall_congr' fun comment => forall_congr' fun state =>
    imp_congr_right fun _ => withstands_reanchorComment

theorem withstands_recordResolvedTargets {record : ReviewRecord}
    {resolved : NonEmpty ResolvedTarget} :
    Withstands env core (recordResolvedTargets ctx record resolved) ↔
      (record.resolved ≠ some resolved →
        Withstands env core (retainTargets record.review.id resolved) ∧
          ∀ old kept event recorded, record.resolved = some old →
            retainTargets record.review.id resolved env core = (.ok (), kept) →
            append ctx (.reviewTargetsResolved record.review.id resolved) env kept =
              (.ok event, recorded) →
            Withstands env recorded (reanchorReview ctx record.review.id old resolved)) := by
  unfold recordResolvedTargets
  by_cases same : record.resolved = some resolved
  · rw [if_pos same]
    exact iff_of_true withstands_pure fun new => absurd same new
  · rw [if_neg same, withstands_bind]
    simp only [same, ne_eq, not_false_eq_true, true_implies]
    refine and_congr_right fun _ => ?_
    constructor
    · intro all old kept event recorded was retained appended
      have reanchors := (withstands_bind.mp (all () kept retained)).2 event recorded appended
      simp only [was] at reanchors
      exact (withstands_bind.mp reanchors).1
    · intro all _ kept retained
      refine withstands_bind.mpr ⟨withstands_append, fun event recorded appended => ?_⟩
      cases was : record.resolved with
      | none => exact withstands_pure
      | some old =>
        exact withstands_bind.mpr
          ⟨all old kept event recorded was retained appended, fun _ _ _ => withstands_pure⟩

/-- The database alone can stop the resolution of a review exactly when all else that
its refresh needs is granted. -/
theorem withstands_resolveTargets {record : ReviewRecord}
    (live : LiveReview core.store.views reviewId record) :
    Withstands env core (resolveTargets ctx reviewId) ↔
      Refreshes env ctx record core := by
  have found : Withstands env core (resolveTargets ctx reviewId) ↔
      Withstands env core (do
        let resolved ← resolveReviewTargets record.review
        let changed ← recordResolvedTargets ctx record resolved
        pure (resolved, changed)) := by
    unfold resolveTargets Withstands Program.FailsOnly
    rw [Program.ends_bind, ends_review]
    constructor
    · exact fun all => all.1 record live
    · intro withstands
      refine ⟨fun other again => ?_, fun gone => absurd live (gone record)⟩
      obtain rfl := Option.some.inj (live.found.symm.trans again.found)
      exact withstands
  have recorded {resolved : NonEmpty ResolvedTarget} {looked : Core} :
      Withstands env looked (do
        let changed ← recordResolvedTargets ctx record resolved
        pure (resolved, changed)) ↔
        Withstands env looked (recordResolvedTargets ctx record resolved) :=
    withstands_bind.trans (and_iff_left fun _ _ _ => withstands_pure)
  rw [found, withstands_bind, withstands_resolveReviewTargets]
  simp only [recorded, withstands_recordResolvedTargets, withstands_retainTargets,
    withstands_reanchorReview]
  constructor
  · rintro ⟨resolves, records⟩
    refine ⟨resolves, fun resolved looked target state run new => ?_, ?_⟩
    · exact (records resolved looked run new).1 target state
    · intro old resolved looked kept event recorded progress comment state run was new retained
        appended
      have new : record.resolved ≠ some resolved := fun same =>
        new (Option.some.inj (was.symm.trans same))
      exact (records resolved looked run new).2 old kept event recorded was retained appended
        progress comment state
  · intro refreshes
    refine ⟨refreshes.resolves, fun resolved looked run new => ⟨?_, ?_⟩⟩
    · exact fun target state => refreshes.retains resolved looked target state run new
    · intro old kept event recorded was retained appended progress comment state
      refine refreshes.moves old resolved looked kept event recorded progress comment state run was
        ?_ retained appended
      rintro rfl
      exact new was

end Needs

end Core

/-! ## Updates -/

section Updating

variable [Platform] {env : Environment} {core edited : Core} {ctx : Ctx} {id : ReviewId}
  {update : ReviewTargetUpdate} {record : ReviewRecord}

/-- `edited` is the state right after the edit of a target was committed. -/
structure Core.Edits (env : Environment) (core : Core) (ctx : Ctx) (id : ReviewId)
    (update : ReviewTargetUpdate) (record : ReviewRecord) (edited : Core) : Prop where
  live : LiveReview core.store.views id record
  committed : ∃ target checked event,
    editedTarget record update env core = (.ok target, checked) ∧
      append ctx (.reviewTargetUpdated id target) env checked = (.ok event, edited)

/-- Once the edited target was committed, the refresh needs nothing but the database. -/
def Core.UpdateRefreshes (env : Environment) (core : Core) (ctx : Ctx) (id : ReviewId)
    (update : ReviewTargetUpdate) : Prop :=
  ∀ record edited updated, Edits env core ctx id update record edited →
    LiveReview edited.store.views id updated → Refreshes env ctx updated edited

/-- What the commit of an edit leaves. -/
structure Core.Edited (core : Core) (id : ReviewId) (edited : Core) : Prop where
  longer : ∃ event, edited.store.events = core.store.events ++ [event]
  consistent : Consistent edited.store.views
  live : ∃ updated, LiveReview edited.store.views id updated

omit [Platform] in
theorem Core.atomic_iff {α : Type} {program : CoreM α} : Core.Atomic env core program ↔
    program.Ends env core (fun _ _ => True)
      fun error last => error.isStorage = false → last.store = core.store := by
  rw [Program.ends_iff, and_iff_right fun _ _ _ => trivial]
  exact Iff.rfl

theorem Core.Edits.leaves (edits : Edits env core ctx id update record edited)
    (consistent : Consistent core.store.views) : Edited core id edited := by
  obtain ⟨live, target, checked, event, edit, append⟩ := edits
  obtain ⟨rests, stored, mem, same⟩ := ends_editedTarget.of_returned edit
  rw [← rests.store] at consistent live
  have admissible : Admissible env checked.store.views (.reviewTargetUpdated id target) :=
    ⟨record, live, stored, mem, same⟩
  obtain ⟨appended, _⟩ := (ends_append consistent admissible).of_returned append
  refine ⟨⟨event, ?_⟩, ?_, appended.live_kept consistent (by simp) ⟨record, live⟩⟩
  · rw [(appended.gains admissible).events, rests.store]
  · exact consistent.step (appended.body_eq ▸ admissible) appended.applied

/-- A resolution that starts in a longer log does not lead back to a shorter one. -/
theorem Core.Edited.resolves_iff (done : Edited core id edited) :
    (do let _ ← resolveTargets ctx id : CoreM Unit).Ends env edited (fun _ _ => True)
        (fun error last => error.isStorage = false → last.store = core.store) ↔
      Withstands env edited (resolveTargets ctx id) := by
  obtain ⟨event, log⟩ := done.longer
  have longer {last : Core} (growth : Extends (Permitted env False) edited last) :
      last.store ≠ core.store := by
    intro same
    obtain ⟨suffix, grown⟩ := growth.grows.events
    rw [same, log, List.append_assoc] at grown
    exact absurd (List.self_eq_append_right.mp grown) (by simp)
  have grows := (advances_resolveTargets (Extends.refl done.consistent) :
    Advances env False edited (resolveTargets ctx id) edited).ends
  rw [Program.ends_bind]
  simp only [Program.ends_pure]
  constructor
  · intro ends
    refine (ends.and grows).imp (fun _ _ _ => trivial) fun error last stopped => ?_
    by_contra other
    exact longer stopped.2 (stopped.1 (Bool.eq_false_iff.mpr other))
  · intro withstands
    refine Program.Ends.imp withstands (fun _ _ _ => trivial) fun error last storage outside => ?_
    exact absurd (outside.symm.trans storage) Bool.false_ne_true

/-- Before its edit was committed an update is atomic: it remains to be so from there. -/
theorem Core.updateReviewTarget_atomic_iff (consistent : Consistent core.store.views) :
    Atomic env core (updateReviewTarget ctx id update) ↔
      ∀ record edited, Edits env core ctx id update record edited →
        Withstands env edited (resolveTargets ctx id) := by
  rw [atomic_iff]
  unfold updateReviewTarget
  rw [Program.ends_bind, ends_review, and_iff_left fun _ _ => rfl]
  constructor
  · intro ends record edited edits
    obtain ⟨target, checked, event, edit, append⟩ := edits.committed
    refine (edits.leaves consistent).resolves_iff.mp ?_
    exact ((ends record edits.live).bind_of_returned edit).bind_of_returned append
  · intro withstands record live
    rw [Program.ends_bind, Program.ends_iff]
    constructor
    · intro target checked edit
      rw [Program.ends_bind, Program.ends_iff]
      constructor
      · intro event edited append
        have edits : Edits env core ctx id update record edited :=
          ⟨live, target, checked, event, edit, append⟩
        exact (edits.leaves consistent).resolves_iff.mpr (withstands record edited edits)
      · intro error last stopped outside
        have storage := withstands_append.of_stopped stopped
        exact absurd (outside.symm.trans storage) Bool.false_ne_true
    · intro error last stopped _
      exact (ends_editedTarget.of_stopped stopped).store

/-- In every state of a run, an update of a target is atomic exactly when, after its
edit was committed, every target of the review resolves, new targets are retained and
every comment can follow them. -/
theorem run_updateReviewTarget_atomic_iff (env : Environment) (steps : List Step)
    (ctx : Ctx) (id : ReviewId) (update : ReviewTargetUpdate) :
    Core.Atomic env (Core.run env .initial steps) (Core.updateReviewTarget ctx id update) ↔
      Core.UpdateRefreshes env (Core.run env .initial steps) ctx id update := by
  have consistent := (reachable_run env steps).consistent
  rw [Core.updateReviewTarget_atomic_iff consistent]
  refine forall_congr' fun record => forall_congr' fun edited => ?_
  constructor
  · intro withstands updated edits live
    exact (Core.withstands_resolveTargets live).mp (withstands edits)
  · intro refreshes edits
    obtain ⟨updated, live⟩ := (edits.leaves consistent).live
    exact (Core.withstands_resolveTargets live).mpr (refreshes updated edits live)

end Updating

/-! ### An update stopped by another repository -/

/-- A review of two repositories. -/
def paired : List Step :=
  [Session.mutate (.createWorkspace Session.workspaceId "work"),
    Session.mutate (.attachRepo Session.workspaceId Session.repoId "/repo" "repo"),
    Session.mutate (.attachRepo Session.workspaceId ⟨9⟩ "/lib" "lib"),
    Session.mutate (.createReview Session.reviewId Session.workspaceId "review"
      ⟨[⟨Session.repoId, .upstream, .head⟩, ⟨⟨9⟩, .upstream, .head⟩], by decide⟩)]

/-- After the review was created, the refs of its second repository are lost. -/
def refsLost : Environment :=
  .failing fun number call =>
    match call with
    | .resolve repo _ => repo.workdir = "/lib" ∧ 29 ≤ number
    | _ => false

/-- Updating the head in the first repository fails and leaves the edited target. -/
theorem refsLost_not_atomic : ¬ Core.Atomic refsLost (@Core.run .plain refsLost .initial paired)
    (@Core.updateReviewTarget .plain (Session.by_ Session.user) Session.reviewId
      ⟨Session.repoId, .head (.branch "topic")⟩) := by
  intro atomic
  have failed : (@Core.updateReviewTarget .plain (Session.by_ Session.user) Session.reviewId
      ⟨Session.repoId, .head (.branch "topic")⟩ refsLost
      (@Core.run .plain refsLost .initial paired)).1 = .error (.git "unavailable") := by
    decide +kernel
  have same := atomic.unchanged failed rfl
  have grown := congrArg (fun store => store.events.length) same
  revert grown
  decide +kernel

end Nits.ReviewCore
