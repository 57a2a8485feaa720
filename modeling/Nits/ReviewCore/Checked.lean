import Mathlib.Data.List.Dedup
import Nits.Protocol.Freshness
import Nits.ReviewCore.Appends

/-!
# Recorded checks

Only the recording of a check appends one, and it appends it after its targets were
validated: each repository of the review once, commits that git resolves to the trees
named, and working trees that the review captured before.
-/

namespace Nits.ReviewCore

open Logical Protocol

namespace Core

/-! ## Every operation but one -/

section Operations

variable {ctx : Ctx} {workspaceId : WorkspaceId} {repoId : RepoId}

theorem checkless_createWorkspace {id : WorkspaceId} {name : String} :
    Checkless (createWorkspace ctx id name) :=
  quiet_read.then_ fun _ => quiet_require.then_ fun _ => quiet_require.then_ fun _ =>
    appends_last rfl

theorem checkless_renameWorkspace {id : WorkspaceId} {name : String} :
    Checkless (renameWorkspace ctx id name) :=
  quiet_workspace.then_ fun _ => appends_last rfl

theorem checkless_publishAttachment {opened : OpenedRepo} {displayName : String} :
    Checkless (publishAttachment ctx workspaceId repoId opened displayName) :=
  (checkless_append rfl).bind fun _ => Checkless.bind (fun _ _ => Rests.unchecked ⟨rfl, rfl⟩)
    fun _ => checkless_pure

theorem checkless_attachRepo {path displayName : String} :
    Checkless (attachRepo ctx workspaceId repoId path displayName) :=
  quiet_workspace.then_ fun _ => quiet_require.then_ fun _ => quiet_openRepo.then_ fun _ =>
    quiet_checkRepoOwner.then_ fun _ =>
      (Quiet.forEach fun _ _ => quiet_refuseSharedCheckout).then_ fun _ =>
        checkless_publishAttachment

theorem checkless_createWorkspaceWithRepo {path name : String} :
    Checkless (createWorkspaceWithRepo ctx workspaceId repoId path name) :=
  quiet_openRepo.then_ fun _ => quiet_checkRepoOwner.then_ fun _ =>
    checkless_createWorkspace.bind fun _ => checkless_publishAttachment.bind fun _ =>
      checkless_pure

theorem checkless_detachRepo : Checkless (detachRepo ctx workspaceId repoId) :=
  quiet_workspace.then_ fun _ => quiet_require.then_ fun _ =>
    (checkless_append rfl).bind fun _ => fun _ _ => Rests.unchecked ⟨rfl, rfl⟩

variable [Platform]

theorem checkless_createDirectoryReview {options : EnsureDirectoryReview} {root : String}
    {located : Option (WorkspaceId × RepoId)} {base headSpec : RefSpec} :
    Checkless (createDirectoryReview ctx options root located base headSpec) := by
  refine quiet_read.then_ fun _ => quiet_require.then_ fun _ => Checkless.bind ?_ fun ids => ?_
  · cases located with
    | some ids => exact checkless_pure
    | none => exact checkless_createWorkspaceWithRepo.bind fun _ => checkless_pure
  · exact plain_createReview.checkless.bind fun _ => quiet_read.then_ fun _ => quiet_orStop.then_
      fun _ => checkless_pure

theorem checkless_ensureDirectoryReview {options : EnsureDirectoryReview} :
    Checkless (ensureDirectoryReview ctx options) := by
  refine quiet_directoryPath.then_ fun _ => quiet_directoryRoot.then_ fun _ => ?_
  refine quiet_outsideOrInvalid.then_ fun _ => quiet_directoryAttachment.then_ fun _ => ?_
  refine quiet_requireResolvable.then_ fun _ => quiet_requireRequestedBase.then_ fun _ => ?_
  refine quiet_reusableReview.then_ fun reused => ?_
  cases reused with
  | some review =>
    exact plain_resolveTargets.checkless.bind fun _ => quiet_logPosition.then_ fun _ => checkless_pure
  | none =>
    exact quiet_chosenBase.then_ fun _ => quiet_requireResolvable.then_ fun _ =>
      checkless_createDirectoryReview

/-- Only the recording of a check appends one. -/
theorem checkless_perform {operation : Operation}
    (other : ∀ reviewId targets round, operation ≠ .mutate (.recordCheckpoint reviewId targets round)) :
    Checkless (operation.perform ctx) := by
  cases operation with
  | resolveTargets => exact (plain_resolveTargets.bind fun _ => plain_pure).checkless
  | fetchReview => exact (plain_fetchReview.bind fun _ => plain_pure).checkless
  | refreshWorkingTreeReview => exact plain_refreshWorkingTreeReview.checkless
  | ensureDirectoryReview => exact checkless_ensureDirectoryReview.bind fun _ => checkless_pure
  | mutate mutation =>
    have plain := @plain_applyMutation ctx _ mutation
    cases mutation with
    | createWorkspace => exact checkless_createWorkspace.bind fun _ => checkless_pure
    | renameWorkspace => exact checkless_renameWorkspace
    | attachRepo => exact checkless_attachRepo.bind fun _ => checkless_pure
    | detachRepo => exact checkless_detachRepo
    | recordCheckpoint reviewId targets round => exact absurd rfl (other reviewId targets round)
    | _ => exact (plain rfl fun _ _ _ same => by cases same).checkless

end Operations

end Core

/-! ## What the recording of a check establishes -/

/-- Git, asked through a repository that the review's lookup gave, resolved the commit to
the tree. -/
def Environment.Resolves (env : Environment) (reviewId : ReviewId) (repoId : RepoId)
    (oid : CommitOid) (tree : TreeOid) : Prop :=
  ∃ start looked repo number ref,
    Core.reviewRepo reviewId repoId env start = (.ok repo, looked) ∧
      env.answer number (.resolve repo (.commit oid)) = .ok ref ∧ ref.tree = tree

/-- A revision that a check may name, given what the review is known to have captured. -/
structure ValidRevision (env : Environment) (captured : ResolvedRef → Prop)
    (reviewId : ReviewId) (repoId : RepoId) (revision : ResolvedRef) : Prop where
  agrees : ∀ oid, revision.source = .commit oid →
    env.Resolves reviewId repoId oid revision.tree
  known : ∀ dirty branch head, revision.source = .workingTree dirty branch head → captured revision

theorem ValidRevision.imp {env : Environment} {captured captured' : ResolvedRef → Prop}
    {reviewId : ReviewId} {repoId : RepoId} {revision : ResolvedRef}
    (valid : ValidRevision env captured reviewId repoId revision)
    (imp : captured revision → captured' revision) :
    ValidRevision env captured' reviewId repoId revision :=
  ⟨valid.agrees, fun dirty branch head source => imp (valid.known dirty branch head source)⟩

/-- Both revisions of a target are valid. -/
structure ValidTarget (env : Environment) (captured : RepoId → ResolvedRef → Prop)
    (reviewId : ReviewId) (target : ResolvedTarget) : Prop where
  base : ValidRevision env (captured target.repoId) reviewId target.repoId target.base
  head : ValidRevision env (captured target.repoId) reviewId target.repoId target.head

/-- What the recording of a check looks a working tree up in. -/
def Store.Knows (store : Store) (snapshot : ReviewSnapshot) (reviewId : ReviewId)
    (repoId : RepoId) (revision : ResolvedRef) : Prop :=
  Core.knownRevision snapshot repoId revision = true ∨
    Core.historicalRevision store.events reviewId repoId revision = true

/-- A requirement that is passed holds. -/
theorem require_returned {ρ σ ε : Type} {env : ρ} {start last : σ} {condition : Prop}
    [Decidable condition] {error : ε} :
    (Program.require condition error : Program ρ σ ε Unit) env start = (.ok (), last) ↔
      condition ∧ last = start := by
  unfold Program.require
  split
  · next holds => rw [Program.pure_eq_ok_iff]; simp [holds]
  · next fails => rw [Program.stop_eq_ok_iff]; simp [fails]

namespace Core

section Recording

variable {env : Environment} {ctx : Ctx} {snapshot : ReviewSnapshot}
  {reviewId : ReviewId} {start last : Core}

theorem eventsAfter_none (store : Store) : store.eventsAfter none = store.events := by
  simp [Store.eventsAfter]

theorem validateRevision_ok {repoId : RepoId} {repo : GitRepo} {revision : ResolvedRef}
    {before after : Core} (looked : reviewRepo reviewId repoId env before = (.ok repo, after))
    (run : validateRevision snapshot reviewId repoId repo revision env start =
      (.ok (), last)) :
    ValidRevision env (start.store.Knows snapshot reviewId repoId) reviewId repoId revision := by
  unfold validateRevision at run
  cases source : revision.source with
  | commit oid =>
    simp only [source] at run
    obtain ⟨ref, _, asked, run⟩ := Program.bind_eq_ok_iff.mp run
    obtain ⟨answered, -⟩ := outside_eq_ok_iff.mp asked
    have same := (require_returned.mp run).1
    constructor
    · intro oid' source'
      rw [source] at source'
      cases source'
      exact ⟨before, after, repo, start.calls, ref, looked, answered, same⟩
    · intro _ _ _ source'
      rw [source] at source'
      cases source'
  | workingTree dirty branch head =>
    simp only [source] at run
    obtain ⟨store, middle, read, run⟩ := Program.bind_eq_ok_iff.mp run
    obtain ⟨rfl, rfl⟩ := Program.read_eq_ok_iff.mp read
    have known := (require_returned.mp run).1
    rw [eventsAfter_none] at known
    constructor
    · intro oid source'
      rw [source] at source'
      cases source'
    · exact fun _ _ _ _ => known

/-- A target passes if both its revisions do, in the state that the validation found. -/
theorem validateTarget_ok {target : ResolvedTarget}
    (run : validateTarget snapshot reviewId target env start = (.ok (), last)) :
    ValidTarget env (start.store.Knows snapshot reviewId) reviewId target := by
  obtain ⟨repo, after, looked, run⟩ := Program.bind_eq_ok_iff.mp run
  obtain ⟨_, middle, base, head⟩ := Program.bind_eq_ok_iff.mp run
  have opened : after.store = start.store := quiet_reviewRepo.store_eq looked
  have based : middle.store = after.store := quiet_validateRevision.store_eq base
  have first := validateRevision_ok looked base
  have second := validateRevision_ok looked head
  rw [opened] at first
  rw [based, opened] at second
  exact ⟨first, second⟩

/-- What is established before a check is appended. -/
structure Validated (env : Environment) (store : Store) (reviewId : ReviewId)
    (targets : NonEmpty ResolvedTarget) : Prop where
  snapshot : ∃ snapshot, store.reviewSnapshot reviewId = some snapshot ∧
    coversOnce (targets.items.map ResolvedTarget.repoId)
      (snapshot.review.targets.items.map ReviewTarget.repoId) = true ∧
    ∀ target ∈ targets.items,
      ValidTarget env (store.Knows snapshot reviewId) reviewId target

/-- Recording a check appends it after its validation, or leaves the store alone. -/
theorem ends_recordCheckpoint {targets : NonEmpty ResolvedTarget} {inReplyTo : Option ReviewRound} :
    (recordCheckpoint ctx reviewId targets inReplyTo).Ends env start
      (fun _ last => Validated env start.store reviewId targets ∧
        ∃ event reviewer, last.store.events = start.store.events ++ [event] ∧
          event.body = .reviewChecked reviewId reviewer targets inReplyTo)
      (fun _ last => last.store = start.store) := by
  have valid {snapshot : ReviewSnapshot} :
      (Program.forEach (validateTarget snapshot reviewId) targets.items).Ends env start
        (fun _ last => last.store = start.store ∧ ∀ target ∈ targets.items,
          ValidTarget env (start.store.Knows snapshot reviewId) reviewId target)
        (fun _ last => last.store = start.store) := by
    refine (Program.ends_forEach (fun _ rest state => state.store = start.store ∧
      ∃ early, targets.items = early ++ rest ∧ ∀ target ∈ early,
        ValidTarget env (start.store.Knows snapshot reviewId) reviewId target)
      ⟨rfl, [], rfl, by simp⟩ ?_).imp ?_ fun _ _ same => same
    · rintro _ target rest state ⟨same, early, all, valid⟩
      refine Program.ends_iff.mpr ⟨fun value last run => ?_, fun error last run => ?_⟩
      · have here := validateTarget_ok run
        rw [same] at here
        refine ⟨(quiet_validateTarget.store_eq run).trans same, early ++ [target], ?_, ?_⟩
        · rw [all, List.append_assoc]
          rfl
        · intro other mem
          obtain before | last := List.mem_append.mp mem
          · exact valid other before
          · rw [List.mem_singleton.mp last]
            exact here
      · exact (quiet_validateTarget.store_eq run).trans same
    · rintro _ last ⟨same, early, all, valid⟩
      rw [List.append_nil] at all
      exact ⟨same, by rw [all]; exact valid⟩
  unfold recordCheckpoint
  simp only [Program.ends_bind, ends_reviewSnapshot, Program.ends_orStop, Program.ends_require]
  refine ⟨fun snapshot found => ⟨fun reviewer _ => ⟨fun covers => ⟨fun _ => ?_, fun _ => trivial⟩,
    fun _ => trivial⟩, fun _ => trivial⟩, fun _ => trivial⟩
  refine valid.imp ?_ fun _ _ same => same
  rintro _ checked ⟨same, targetsValid⟩
  refine quiet_retainTargets.ends.imp ?_ fun _ _ rests => rests.store.trans same
  intro _ retained rests
  refine ends_append_events.imp ?_ fun _ _ stopped => stopped.trans (rests.store.trans same)
  rintro event last ⟨log, body⟩
  rw [rests.store, same] at log
  rw [Program.ends_pure]
  exact ⟨⟨snapshot, found, covers, targetsValid⟩, event, reviewer, log, body⟩

end Recording

end Core

/-! ## What the log has captured -/

/-- The targets that an event captured for a review. -/
def capturedBy (review : ReviewId) : EventBody → List ResolvedTarget
  | .reviewTargetsResolved owner targets => if owner = review then targets.items else []
  | .reviewRequested owner _ _ targets _ =>
    if owner = review then Core.capturedTargets targets else []
  | _ => []

/-- Before an event of the log, the review captured a target of the repository with the
revision on either side. -/
def CapturedBefore (events : List Event) (seq : Seq) (review : ReviewId) (repoId : RepoId)
    (revision : ResolvedRef) : Prop :=
  ∃ event ∈ events, event.seq < seq ∧
    Core.namesRevision (capturedBy review event.body) repoId revision = true

/-- The repositories that a review covers. -/
def repos (review : Review) : List RepoId :=
  review.targets.items.map ReviewTarget.repoId

/-- A check names each repository of its review once, and valid revisions only. -/
structure Checked (env : Environment) (store : Store) (checkpoint : ReviewCheckpoint) :
    Prop where
  distinct : Distinct checkpoint.targets
  covers : ∃ record, store.views.reviews[checkpoint.reviewId]? = some record ∧ ∀ repoId,
    repoId ∈ checkpoint.targets.items.map ResolvedTarget.repoId ↔ repoId ∈ repos record.review
  valid : ∀ target ∈ checkpoint.targets.items, ValidTarget env
    (CapturedBefore store.events checkpoint.id.eventSeq checkpoint.reviewId)
    checkpoint.reviewId target

/-- Every check is as it should be, and what the review's rows say was captured is in the
log. -/
structure Store.ChecksOut (env : Environment) (store : Store) : Prop where
  requests : ∀ {key : ReviewId × Seq} {request}, store.views.requests[key]? = some request →
    ∀ target ∈ Core.capturedTargets request.targets, ∃ event ∈ store.events,
      target ∈ capturedBy key.1 event.body
  resolved : ∀ {id : ReviewId} {record targets}, store.views.reviews[id]? = some record →
    record.resolved = some targets → ∀ target ∈ targets.items, ∃ event ∈ store.events,
      target ∈ capturedBy id event.body
  checks : ∀ {key : ReviewId × Seq} {checkpoint}, store.views.checkpoints[key]? = some checkpoint →
    Checked env store checkpoint

theorem Store.ChecksOut.empty (env : Environment) : Store.empty.ChecksOut env where
  requests := by simp [Store.empty, Views.empty]
  resolved := by simp [Store.empty, Views.empty]
  checks := by simp [Store.empty, Views.empty]

section Steps

variable {env : Environment} {before after : Store} {event : Event}

theorem map_repoId_replaceTarget (targets : NonEmpty ReviewTarget) (target : ReviewTarget) :
    (Rows.replaceTarget targets target).items.map ReviewTarget.repoId =
      targets.items.map ReviewTarget.repoId := by
  have kept (items : List ReviewTarget) :
      (modifyFirst (fun stored => stored.repoId = target.repoId) (fun _ => target) items).map
        ReviewTarget.repoId = items.map ReviewTarget.repoId := by
    induction items with
    | nil => rfl
    | cons stored items ih =>
      rw [modifyFirst]
      split
      · next same =>
        rw [List.map_cons, List.map_cons, of_decide_eq_true same]
      · rw [List.map_cons, List.map_cons, ih]
  exact kept targets.items

variable [Platform] {revision : ResolvedRef}

/-- A stored review stays stored, and covers the repositories that it covered. -/
theorem Store.Gains.repos_kept (consistent : Consistent before.views)
    (gains : Gains (Admissible env) before event after) {id : ReviewId}
    {record : ReviewRecord} (found : before.views.reviews[id]? = some record) :
    ∃ record', after.views.reviews[id]? = some record' ∧
      repos record'.review = repos record.review := by
  have follows := Views.follows_of_apply consistent.toKeyed gains.applied
  rw [follows.review, found]
  have changed {key : ReviewId} {change : ReviewRecord → ReviewRecord}
      (kept : repos (change record).review = repos record.review) :
      ∃ record', Rows.changeAt key id change (some record) = some record' ∧
        repos record'.review = repos record.review := by
    unfold Rows.changeAt
    split
    · exact ⟨_, rfl, kept⟩
    · exact ⟨record, rfl, rfl⟩
  have admitted := gains.allowed
  unfold Rows.review
  split
  · next review body =>
    rw [body] at admitted
    unfold Rows.storeAt
    rw [if_neg]
    · exact ⟨record, rfl, rfl⟩
    · rintro rfl
      have fresh : before.views.reviews[review.id]? = none := admitted
      rw [found] at fresh
      cases fresh
  · exact changed rfl
  · exact changed (map_repoId_replaceTarget _ _)
  · exact changed rfl
  · exact changed rfl
  · exact ⟨record, rfl, rfl⟩

omit [Platform] in
theorem CapturedBefore.later {events : List Event} {seq : Seq} {review : ReviewId} {repoId : RepoId}
    (more : List Event) (captured : CapturedBefore events seq review repoId revision) :
    CapturedBefore (events ++ more) seq review repoId revision := by
  obtain ⟨event, mem, earlier, named⟩ := captured
  exact ⟨event, List.mem_append_left _ mem, earlier, named⟩

omit [Platform] in
/-- What a request says it captured, its event captured. -/
theorem request_captured {request : ReviewRequest}
    (made : ReviewRequest.fromEvent event = some request) {target : ResolvedTarget}
    (mem : target ∈ Core.capturedTargets request.targets) :
    target ∈ capturedBy request.reviewId event.body := by
  unfold ReviewRequest.fromEvent at made
  split at made
  · next owner agent note targets comparison body =>
    cases made
    rw [body, capturedBy, if_pos rfl]
    exact mem
  · cases made

/-- A check stays as it should be. -/
theorem Checked.gains {checkpoint : ReviewCheckpoint} (consistent : Consistent before.views)
    (gains : Store.Gains (Admissible env) before event after)
    (checked : Checked env before checkpoint) : Checked env after checkpoint where
  distinct := checked.distinct
  covers := by
    obtain ⟨record, found, covers⟩ := checked.covers
    obtain ⟨record', found', kept⟩ := gains.repos_kept consistent found
    exact ⟨record', found', by rw [kept]; exact covers⟩
  valid target mem := by
    rw [gains.events]
    have valid := checked.valid target mem
    exact ⟨valid.base.imp (.later [event]), valid.head.imp (.later [event])⟩

/-- An event keeps the store in order, if the check that it records, if any, is as it should
be. -/
theorem Store.ChecksOut.gains (out : before.ChecksOut env) (consistent : Consistent before.views)
    (gains : Store.Gains (Admissible env) before event after)
    (recorded : ∀ {checkpoint}, ReviewCheckpoint.fromEvent event = some checkpoint →
      Checked env after checkpoint) : after.ChecksOut env := by
  have follows := Views.follows_of_apply consistent.toKeyed gains.applied
  have earlier {key : ReviewId} {target : ResolvedTarget}
      (held : ∃ event ∈ before.events, target ∈ capturedBy key event.body) :
      ∃ event ∈ after.events, target ∈ capturedBy key event.body := by
    obtain ⟨old, mem, captured⟩ := held
    rw [gains.events]
    exact ⟨old, List.mem_append_left _ mem, captured⟩
  have last : event ∈ after.events := by
    rw [gains.events]
    exact List.mem_append_right _ List.mem_cons_self
  constructor
  · intro key request found target mem
    rw [follows.request, Rows.request] at found
    split at found
    · next stored made =>
      unfold Rows.storeAt at found
      split at found
      · next same =>
        cases found
        subst same
        exact ⟨event, last, request_captured made mem⟩
      · exact earlier (out.requests found target mem)
    · exact earlier (out.requests found target mem)
  · intro id record targets found resolved target mem
    rw [follows.review, Rows.review] at found
    have changed {key : ReviewId} {change : ReviewRecord → ReviewRecord}
        (found : Rows.changeAt key id change before.views.reviews[id]? = some record)
        (kept : ∀ record, (change record).resolved = record.resolved) :
        ∃ event ∈ after.events, target ∈ capturedBy id event.body := by
      unfold Rows.changeAt at found
      split at found
      · obtain ⟨stored, present, rfl⟩ := Option.map_eq_some_iff.mp found
        rw [kept] at resolved
        exact earlier (out.resolved present resolved target mem)
      · exact earlier (out.resolved found resolved target mem)
    split at found
    · unfold Rows.storeAt at found
      split at found
      · cases found
        cases resolved
      · exact earlier (out.resolved found resolved target mem)
    · exact changed found fun _ => rfl
    · exact changed found fun _ => rfl
    · exact changed found fun _ => rfl
    · next owner recorded body =>
      unfold Rows.changeAt at found
      split at found
      · next same =>
        obtain ⟨stored, present, rfl⟩ := Option.map_eq_some_iff.mp found
        cases resolved
        refine ⟨event, last, ?_⟩
        rw [body, capturedBy, if_pos same]
        exact mem
      · exact earlier (out.resolved found resolved target mem)
    · exact earlier (out.resolved found resolved target mem)
  · intro key checkpoint found
    rw [follows.checkpoint, Rows.checkpoint] at found
    split at found
    · next stored made =>
      unfold Rows.storeAt at found
      split at found
      · cases found
        exact recorded made
      · exact (out.checks found).gains consistent gains
    · exact (out.checks found).gains consistent gains

/-! ## The recording of a check -/

omit [Platform] in
/-- A check that covers the repositories of its review once names each of them once. -/
theorem distinct_of_coversOnce {checked expected : List RepoId}
    (covers : Core.coversOnce checked expected = true) :
    checked.Nodup ∧ ∀ repoId, repoId ∈ checked ↔ repoId ∈ expected := by
  unfold Core.coversOnce at covers
  simp only [Bool.and_eq_true, List.all_eq_true, List.contains_iff_mem, decide_eq_true_eq] at covers
  obtain ⟨⟨within, all⟩, once⟩ := covers
  refine ⟨?_, fun repoId => ⟨within repoId, all repoId⟩⟩
  have whole : checked.dedup = checked := (List.dedup_sublist checked).eq_of_length once
  rw [← whole]
  exact List.nodup_dedup checked

omit [Platform] in
theorem seq_lt (logged : before.Logged) {allowed : Allowed}
    (gains : Store.Gains allowed before event after) {old : Event}
    (mem : old ∈ before.events) : old.seq < event.seq := by
  have listed : old.seq ∈ before.events.map Event.seq := List.mem_map_of_mem mem
  rw [logged.numbered, List.mem_range'_1] at listed
  rw [gains.numbered, logged.nextSeq_eq]
  exact listed.2

omit [Platform] in
theorem namesRevision_iff {targets : List ResolvedTarget} {repoId : RepoId} :
    Core.namesRevision targets repoId revision = true ↔
      ∃ target ∈ targets, target.repoId = repoId ∧
        (target.base = revision ∨ target.head = revision) := by
  simp [Core.namesRevision]

omit [Platform] in
/-- A working tree that the recording of a check finds was captured before. -/
theorem captured_of_knows (consistent : Consistent before.views) (out : before.ChecksOut env)
    (logged : before.Logged) {allowed : Allowed} (gains : Store.Gains allowed before event after)
    {reviewId : ReviewId} {snapshot : ReviewSnapshot}
    (found : before.reviewSnapshot reviewId = some snapshot) {repoId : RepoId}
    {dirty : List RepoPath} {branch : Option String} {head : Option CommitOid}
    (source : revision.source = .workingTree dirty branch head)
    (knows : before.Knows snapshot reviewId repoId revision) :
    CapturedBefore before.events event.seq reviewId repoId revision := by
  obtain ⟨record, stored, -, rfl⟩ := Store.reviewSnapshot_eq_some.mp found
  have logs {target : ResolvedTarget} (named : target.repoId = repoId ∧
      (target.base = revision ∨ target.head = revision))
      (held : ∃ event ∈ before.events, target ∈ capturedBy reviewId event.body) :
      CapturedBefore before.events event.seq reviewId repoId revision := by
    obtain ⟨old, mem, captured⟩ := held
    exact ⟨old, mem, seq_lt logged gains mem,
      namesRevision_iff.mpr ⟨target, captured, named⟩⟩
  obtain known | historical := knows
  · unfold Core.knownRevision at known
    obtain ⟨target, mem, named⟩ := namesRevision_iff.mp known
    obtain (mem | mem) | mem := by
      simpa only [List.mem_append] using mem
    · cases resolved : record.resolved with
      | none => simp [Store.snapshotOf, resolved] at mem
      | some targets =>
        refine logs named (out.resolved stored resolved target ?_)
        simpa [Store.snapshotOf, resolved] using mem
    · obtain ⟨request, listed, captured⟩ := List.mem_flatMap.mp mem
      obtain ⟨seq, present⟩ := Table.mem_under.mp listed
      exact logs named (out.requests present target captured)
    · obtain ⟨checkpoint, listed, held⟩ := List.mem_flatMap.mp mem
      obtain ⟨seq, present⟩ := Table.mem_under.mp listed
      have checked := (out.checks present).valid target held
      have own : checkpoint.reviewId = reviewId :=
        (Prod.mk.inj (consistent.checkpoint present)).1
      have captured : CapturedBefore before.events checkpoint.id.eventSeq reviewId repoId
          revision := by
        rw [← own, ← named.1]
        obtain same | same := named.2
        · rw [← same] at source ⊢
          exact checked.base.known _ _ _ source
        · rw [← same] at source ⊢
          exact checked.head.known _ _ _ source
      obtain ⟨old, held, -, names⟩ := captured
      exact ⟨old, held, seq_lt logged gains held, names⟩
  · unfold Core.historicalRevision at historical
    obtain ⟨old, mem, named⟩ := List.any_eq_true.mp historical
    refine ⟨old, mem, seq_lt logged gains mem, ?_⟩
    split at named
    · next owner targets body =>
      simp only [Bool.and_eq_true, decide_eq_true_eq] at named
      rw [body, capturedBy, if_pos named.1]
      exact named.2
    · cases named

/-- A check that was validated is as it should be. -/
theorem Core.Validated.checked (consistent : Consistent before.views)
    (out : before.ChecksOut env) (logged : before.Logged)
    (gains : Store.Gains (Admissible env) before event after) {reviewId : ReviewId}
    {reviewer : ReviewerIdentity} {targets : NonEmpty ResolvedTarget}
    {inReplyTo : Option ReviewRound}
    (body : event.body = .reviewChecked reviewId reviewer targets inReplyTo)
    (validated : Core.Validated env before reviewId targets)
    {checkpoint : ReviewCheckpoint} (made : ReviewCheckpoint.fromEvent event = some checkpoint) :
    Checked env after checkpoint := by
  unfold ReviewCheckpoint.fromEvent at made
  rw [body] at made
  cases made
  obtain ⟨snapshot, found, covers, valid⟩ := validated.snapshot
  obtain ⟨distinct, covers⟩ := distinct_of_coversOnce covers
  have stored := Store.reviewSnapshot_eq_some.mp found
  have captured {repoId : RepoId} {revision : ResolvedRef}
      (valid : ValidRevision env (before.Knows snapshot reviewId repoId) reviewId repoId
        revision) : ValidRevision env
          (CapturedBefore after.events event.seq reviewId repoId) reviewId repoId revision := by
    refine ⟨valid.agrees, fun dirty branch head source => ?_⟩
    rw [gains.events]
    exact (captured_of_knows consistent out logged gains found source
      (valid.known dirty branch head source)).later [event]
  constructor
  · exact distinct
  · obtain ⟨record, present, -, rfl⟩ := stored
    obtain ⟨record', present', kept⟩ := gains.repos_kept consistent present
    exact ⟨record', present', by rw [kept]; exact covers⟩
  · intro target mem
    have valid := valid target mem
    exact ⟨captured valid.base, captured valid.head⟩

end Steps

/-! ## Every run -/

section Running

variable {env : Environment} [Platform] {core : Core}

/-- An operation that records no check keeps the store in order. -/
theorem Core.checksOut_checkless {last : Core} (consistent : Consistent core.store.views)
    (extends_ : Core.Extends (Admissible env) core last)
    (unchecked : Core.Unchecked core last) (out : core.store.ChecksOut env) :
    last.store.ChecksOut env := by
  obtain ⟨more, log, bare⟩ := unchecked
  refine (Store.Grows.along
    (fun store => Consistent store.views ∧ store.ChecksOut env) extends_.grows log ?_
    ⟨consistent, out⟩).2
  rintro store next event mem gains ⟨consistent, out⟩
  refine ⟨consistent.step gains.allowed gains.applied, out.gains consistent gains ?_⟩
  intro checkpoint made
  have noCheck := bare event mem
  unfold ReviewCheckpoint.fromEvent at made
  split at made
  · next body =>
    rw [body] at noCheck
    cases noCheck
  · cases made

omit [Platform] in
/-- A growth by one event is one gain. -/
theorem Store.Grows.single {allowed : Allowed} {before after : Store} {event : Event}
    (grows : Store.Grows allowed before after) (logged : before.Logged)
    (log : after.events = before.events ++ [event]) : Store.Gains allowed before event after := by
  have split : after.events = before.events ++ ([] ++ event :: []) := log
  obtain ⟨middle, next, reaches, first, gains, -⟩ := grows.at_event split
  have start : middle = before :=
    (logged.grows reaches).unique logged (by rw [first, List.append_nil])
  have finish : next = after := by
    refine ((logged.grows reaches).gains gains).unique (logged.grows grows) ?_
    rw [gains.events, first, log, List.append_nil]
  rw [start, finish] at gains
  exact gains

/-- The recording of a check keeps the store in order. -/
theorem Core.checksOut_recordCheckpoint {ctx : Ctx} {reviewId : ReviewId}
    {targets : NonEmpty ResolvedTarget} {inReplyTo : Option ReviewRound}
    (consistent : Consistent core.store.views) (logged : core.store.Logged)
    (out : core.store.ChecksOut env) :
    ((Core.recordCheckpoint ctx reviewId targets inReplyTo env core).2).store.ChecksOut env := by
  have extends_ : Core.Extends (Admissible env) core
      (Core.recordCheckpoint ctx reviewId targets inReplyTo env core).2 := by
    have extends_ : Core.Extends (Permitted env _) core
        ((Operation.mutate (.recordCheckpoint reviewId targets inReplyTo)).perform ctx env
          core).2 := Operation.extends consistent _
    rw [Operation.perform, Core.applyMutation, Program.discard_snd] at extends_
    exact ⟨extends_.grows.mono fun _ _ permitted => permitted.admissible, extends_.consistent,
      extends_.reported⟩
  have ends : (Core.recordCheckpoint ctx reviewId targets inReplyTo).Ends env core _ _ :=
    Core.ends_recordCheckpoint
  unfold Program.Ends at ends
  rcases run : Core.recordCheckpoint ctx reviewId targets inReplyTo env core with ⟨outcome, last⟩
  rw [run] at ends extends_
  cases outcome with
  | ok id =>
    obtain ⟨validated, event, reviewer, log, body⟩ := ends
    have gains := extends_.grows.single logged log
    exact out.gains consistent gains fun made =>
      validated.checked consistent out logged gains body made
  | error error =>
    have same : last.store = core.store := ends
    rw [same]
    exact out

/-- A step of the daemon keeps the store in order. -/
theorem Core.checksOut_step (consistent : Consistent core.store.views)
    (logged : core.store.Logged) (out : core.store.ChecksOut env) (step : Step) :
    (core.step env step).store.ChecksOut env := by
  have extends_ : Core.Extends (Admissible env) core (core.step env step) :=
    core.step_extends consistent step
  have other : Core.Unchecked core (core.step env step) →
      (core.step env step).store.ChecksOut env :=
    fun unchecked => Core.checksOut_checkless consistent extends_ unchecked out
  cases step with
  | restart => exact out
  | perform ctx operation =>
    by_cases records : ∃ reviewId targets round,
        operation = .mutate (.recordCheckpoint reviewId targets round)
    · obtain ⟨reviewId, targets, round, rfl⟩ := records
      rw [Core.step, Operation.perform, Core.applyMutation, Program.discard_snd]
      exact Core.checksOut_recordCheckpoint consistent logged out
    · refine other (Core.checkless_perform ?_ env core)
      rintro reviewId targets round rfl
      exact records ⟨reviewId, targets, round, rfl⟩

/-- A run of the daemon keeps the store in order. -/
theorem Core.checksOut_run (consistent : Consistent core.store.views) (logged : core.store.Logged)
    (out : core.store.ChecksOut env) (steps : List Step) :
    (core.run env steps).store.ChecksOut env := by
  induction steps generalizing core with
  | nil => exact out
  | cons step steps ih =>
    have extends_ : Core.Extends (Admissible env) core (core.step env step) :=
      core.step_extends consistent step
    exact ih extends_.consistent (logged.grows extends_.grows)
      (Core.checksOut_step consistent logged out step)

/-- Every check that a daemon has recorded is as it should be. -/
theorem Reachable.checksOut (reachable : Reachable env core) : core.store.ChecksOut env := by
  obtain ⟨steps, rfl⟩ := reachable
  exact Core.checksOut_run .empty .empty (.empty env) steps

end Running

end Nits.ReviewCore
