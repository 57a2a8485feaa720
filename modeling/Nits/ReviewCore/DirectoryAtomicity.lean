import Nits.ReviewCore.Appends

/-!
# Failed directory requests

A directory request that fails before its first commit leaves the log alone. From
there on only the database may stop it: a new workspace's attachment must resolve
again, a new review must refresh, and the comments of a reused one must follow its
new targets.
-/

namespace Nits.ReviewCore

open Logical Protocol

namespace Core

/-! ## Programs that leave a log -/

/-- Unless the database stops it, a program that fails leaves this log. -/
def Spares {α : Type} (env : Environment) (log : List Event) (program : CoreM α)
    (core : Core) : Prop :=
  program.Ends env core (fun _ _ => True)
    fun error last => error.isStorage = false → last.store.events = log

section Sparing

variable {env : Environment} {core : Core} {log : List Event} {α β : Type}
  {program : CoreM α}

theorem spares_bind {next : α → CoreM β} : Spares env log (program >>= next) core ↔
    Spares env log program core ∧ ∀ value last,
      program env core = (.ok value, last) → Spares env log (next value) last := by
  unfold Spares
  rw [Program.ends_bind, Program.ends_iff, @Program.ends_iff _ _ _ _ _ _ _ fun _ _ => True]
  constructor
  · exact fun ⟨returns, stops⟩ => ⟨⟨fun _ _ _ => trivial, stops⟩, returns⟩
  · exact fun ⟨⟨_, stops⟩, returns⟩ => ⟨returns, stops⟩

theorem spares_bind_of_eq {value : α} {last : Core} {next : α → CoreM β}
    (run : program env core = (.ok value, last)) :
    Spares env log (program >>= next) core ↔ Spares env log (next value) last := by
  unfold Spares
  rw [Program.ends_bind, Program.ends_iff, run]
  simp

theorem spares_require_bind {condition : Prop} [Decidable condition] {error : CoreError}
    {next : Unit → CoreM β} (held : core.store.events = log) :
    Spares env log (Program.require condition error >>= next) core ↔
      (condition → Spares env log (next ()) core) := by
  unfold Spares
  rw [Program.ends_bind, Program.ends_require]
  exact and_iff_left fun _ _ => held

theorem spares_pure {value : α} : Spares env log (pure value) core := trivial

/-- A program that commits nothing leaves the log it found. -/
theorem Quiet.spares (quiet : Quiet program) (held : core.store.events = log) :
    Spares env log program core :=
  quiet.ends.imp (fun _ _ _ => trivial)
    fun _ _ rests _ => by rw [rests.store, held]

theorem Withstands.spares (withstands : Withstands env core program) :
    Spares env log program core := by
  refine Program.Ends.imp withstands (fun _ _ _ => trivial) fun error last storage outside => ?_
  exact absurd (outside.symm.trans storage) Bool.false_ne_true

theorem spares_append {ctx : Ctx} {body : EventBody} : Spares env log (append ctx body) core :=
  withstands_append.spares

/-- What starts in a longer log does not lead back to a shorter one. -/
theorem spares_iff_withstands {event : Event}
    (longer : ∃ rest, core.store.events = log ++ event :: rest) (grows : program.Ends env core
      (fun _ last => ∃ suffix, last.store.events = core.store.events ++ suffix)
      fun _ last => ∃ suffix, last.store.events = core.store.events ++ suffix) :
    Spares env log program core ↔ Withstands env core program := by
  refine ⟨fun spares => ?_, Withstands.spares⟩
  refine (Program.Ends.and spares grows).imp (fun _ _ _ => trivial) fun error last stopped => ?_
  obtain ⟨left, suffix, grown⟩ := stopped
  by_contra other
  obtain ⟨rest, held⟩ := longer
  rw [left (Bool.eq_false_iff.mpr other), held, List.append_assoc] at grown
  exact absurd (List.self_eq_append_right.mp grown) (by simp)

end Sparing

/-! ## Resolving a reused review -/

variable [Platform]

/-- Once new targets of a review are committed, every comment can follow them. -/
def CommentsFollow (env : Environment) (ctx : Ctx) (record : ReviewRecord) (core : Core) :
    Prop :=
  ∀ old resolved looked kept event recorded progress comment state,
    resolveReviewTargets record.review env core = (.ok resolved, looked) →
    record.resolved = some old → old ≠ resolved →
    retainTargets record.review.id resolved env looked = (.ok (), kept) →
    append ctx (.reviewTargetsResolved record.review.id resolved) env kept =
      (.ok event, recorded) →
    Program.Arrives env (reanchorComment ctx record.review.id old resolved) (∅, [])
      (recorded.store.comments record.review.id) recorded progress comment state →
    Movable env record.review.id old resolved progress.1 comment state

section Resolving

variable {env : Environment} {core start : Core} {ctx : Ctx}

/-- What only advances keeps the log. -/
theorem Advances.log {α : Type} {guarded : Prop} {program : CoreM α}
    (advances : Advances env guarded core program core) : program.Ends env core
      (fun _ last => ∃ suffix, last.store.events = core.store.events ++ suffix)
      fun _ last => ∃ suffix, last.store.events = core.store.events ++ suffix :=
  advances.ends.imp (fun _ _ growth => growth.grows.events) fun _ _ growth => growth.grows.events

omit [Platform] in
theorem review_eq {reviewId : ReviewId} {record : ReviewRecord}
    (live : LiveReview core.store.views reviewId record) :
    review reviewId env core = (.ok record, core) := by
  have ends : (review reviewId).Ends env core
      (fun found last => found = record ∧ last = core) fun _ _ => False := by
    refine ends_review.mpr ⟨fun other again => ?_, fun gone => gone record live⟩
    exact ⟨Option.some.inj (again.found.symm.trans live.found), rfl⟩
  unfold Program.Ends at ends
  rcases run : review reviewId env core with ⟨outcome, last⟩
  rw [run] at ends
  cases outcome with
  | ok found => rw [ends.1, ends.2]
  | error error => exact ends.elim

/-- A resolution leaves the log it found exactly if the comments can follow it. -/
theorem spares_resolveTargets {reviewId : ReviewId} {record : ReviewRecord}
    (consistent : Consistent core.store.views)
    (live : LiveReview core.store.views reviewId record) :
    Spares env core.store.events (resolveTargets ctx reviewId) core ↔
      CommentsFollow env ctx record core := by
  have own : record.review.id = reviewId := consistent.review live.found
  unfold resolveTargets
  rw [spares_bind_of_eq (review_eq live), spares_bind, and_iff_right (quiet_resolveReviewTargets.spares rfl)]
  have recorded {resolved : NonEmpty ResolvedTarget} {looked : Core}
      (run : resolveReviewTargets record.review env core = (.ok resolved, looked)) :
      Spares env core.store.events (do
        let changed ← recordResolvedTargets ctx record resolved
        pure (resolved, changed)) looked ↔
        ∀ old kept event recorded progress comment state, record.resolved = some old →
          old ≠ resolved →
          retainTargets record.review.id resolved env looked = (.ok (), kept) →
          append ctx (.reviewTargetsResolved record.review.id resolved) env kept =
            (.ok event, recorded) →
          Program.Arrives env (reanchorComment ctx record.review.id old resolved) (∅, [])
            (recorded.store.comments record.review.id) recorded progress comment state →
          Movable env record.review.id old resolved progress.1 comment state := by
    rw [spares_bind, and_iff_left fun _ _ _ => spares_pure]
    have rests : Rests core looked := quiet_resolveReviewTargets.ends.of_returned run
    unfold recordResolvedTargets
    by_cases same : record.resolved = some resolved
    · rw [if_pos same]
      refine iff_of_true spares_pure fun old _ _ _ _ _ _ was new => ?_
      exact absurd (Option.some.inj (was.symm.trans same)) new
    rw [if_neg same, spares_bind,
      and_iff_right (quiet_retainTargets.spares (congrArg Store.events rests.store))]
    have moved {kept recorded : Core} {event : Event}
        (retained : retainTargets record.review.id resolved env looked = (.ok (), kept))
        (appended : append ctx (.reviewTargetsResolved record.review.id resolved) env kept =
          (.ok event, recorded)) {old : NonEmpty ResolvedTarget} :
        Spares env core.store.events (do
          let _ ← reanchorReview ctx record.review.id old resolved
          pure true) recorded ↔
          Withstands env recorded (reanchorReview ctx record.review.id old resolved) := by
      have keeps : Rests looked kept := quiet_retainTargets.ends.of_returned retained
      have still : kept.store = core.store := keeps.store.trans rests.store
      have consistent : Consistent kept.store.views := by rwa [still]
      have live : ∃ found, LiveReview kept.store.views record.review.id found := by
        rw [still, own]
        exact ⟨record, live⟩
      have admissible : Admissible env kept.store.views
          (.reviewTargetsResolved record.review.id resolved) := live
      obtain ⟨gained, _⟩ := (ends_append consistent admissible).of_returned appended
      have after : Consistent recorded.store.views :=
        consistent.step (gained.body_eq ▸ admissible) gained.applied
      have growth : Extends (Permitted env False) recorded recorded := .refl after
      have longer : recorded.store.events = core.store.events ++ [event] := by
        rw [gained.committed, ← still]
        rfl
      rw [spares_bind, and_iff_left fun _ _ _ => spares_pure]
      refine spares_iff_withstands ⟨[], longer⟩ (advances_reanchorReview growth ?_).log
      exact gained.live_kept consistent (by simp) live
    constructor
    · intro spares old kept event recorded progress comment state was _ retained appended
      have after := (spares_bind.mp (spares () kept retained)).2 event recorded appended
      rw [was] at after
      exact withstands_reanchorReview.mp ((moved retained appended).mp after) progress comment state
    · intro follow _ kept retained
      refine spares_bind.mpr ⟨spares_append, fun event recorded appended => ?_⟩
      cases was : record.resolved with
      | none => exact spares_pure
      | some old =>
        have new : old ≠ resolved := fun unchanged => same (by rw [was, unchanged])
        refine (moved retained appended).mpr (withstands_reanchorReview.mpr ?_)
        intro progress comment state
        exact follow old kept event recorded progress comment state was new retained appended
  constructor
  · intro spares old resolved looked kept event recorded' progress comment state run
    exact (recorded run).mp (spares resolved looked run) old kept event recorded' progress comment
      state
  · intro follow resolved looked run
    refine (recorded run).mpr fun old kept event recorded' progress comment state => ?_
    exact follow old resolved looked kept event recorded' progress comment state run

end Resolving

/-! ## Creating a review -/

section Creating

variable {env : Environment} {core created : Core} {ctx : Ctx} {id : ReviewId}
  {workspaceId : WorkspaceId} {title : String} {targets : NonEmpty ReviewTarget} {review : Review}

/-- The review was committed, unresolved. -/
structure Created (ctx : Ctx) (id : ReviewId) (workspaceId : WorkspaceId) (title : String)
    (targets : NonEmpty ReviewTarget) (before : Core) (review : Review) (after : Core) : Prop where
  opened : review = {
    id, workspaceId, title, targets, created := ctx.now, status := .opened }
  committed : ∃ checked event, Rests before checked ∧
    Appended ctx (.reviewCreated review) checked event after
  free : before.store.views.reviews[id]? = none

omit [Platform] in
theorem Created.longer (done : Created ctx id workspaceId title targets core review created) :
    ∃ event, created.store.events = core.store.events ++ [event] := by
  obtain ⟨checked, event, rests, appended⟩ := done.committed
  refine ⟨event, ?_⟩
  rw [appended.committed, ← rests.store]
  rfl

omit [Platform] in
theorem Created.live (done : Created ctx id workspaceId title targets core review created)
    (consistent : Consistent core.store.views) :
    LiveReview created.store.views id ⟨review, none, .live⟩ := by
  obtain ⟨checked, event, rests, appended⟩ := done.committed
  rw [← rests.store] at consistent
  refine ⟨?_, rfl⟩
  rw [(appended.follows consistent).review, Rows.review, appended.body_eq, done.opened]
  exact if_pos rfl

theorem Created.consistent (env : Environment)
    (done : Created ctx id workspaceId title targets core review created)
    (consistent : Consistent core.store.views) : Consistent created.store.views := by
  obtain ⟨checked, event, rests, appended⟩ := done.committed
  rw [← rests.store] at consistent
  have free : checked.store.views.reviews[review.id]? = none := by
    rw [rests.store, done.opened]
    exact done.free
  have admissible : Admissible env checked.store.views (.reviewCreated review) := free
  exact consistent.step (appended.body_eq ▸ admissible) appended.applied

omit [Platform] in
theorem CreateReviewTargets.targets_eq {created : CreateReviewTargets}
    (parsed : CreateReviewTargets.ofTargets targets = .ok created) : created.targets = targets := by
  unfold CreateReviewTargets.ofTargets at parsed
  split at parsed
  · cases parsed
    rfl
  · cases parsed

theorem ends_openReview (consistent : Consistent core.store.views) :
    (openReview ctx id workspaceId title targets).Ends env core
      (fun review last => Created ctx id workspaceId title targets core review last)
      (fun _ last => Rests core last) := by
  unfold openReview
  cases parsed : CreateReviewTargets.ofTargets targets with
  | error reason => exact refl_of Rests core
  | ok request =>
    have same := CreateReviewTargets.targets_eq parsed
    dsimp only
    rw [Program.pure_bind, Program.ends_bind, ends_workspace]
    refine ⟨fun workspace _ => ?_, fun _ => refl_of Rests core⟩
    rw [Program.ends_bind, Program.ends_read, Program.ends_bind, Program.ends_require]
    refine ⟨fun free => ?_, fun _ => refl_of Rests core⟩
    rw [Program.ends_bind]
    refine (Quiet.forEach (fun _ _ => quiet_require)).ends.imp ?_ fun _ _ rests => rests
    intro _ members rests
    rw [Program.ends_bind]
    refine (Quiet.forEach (fun _ _ => quiet_resolveTarget)).ends.imp ?_
      fun _ _ further => trans_of Rests rests further
    intro _ checked further
    replace rests := trans_of Rests rests further
    rw [← rests.store] at consistent
    have unused : checked.store.views.reviews[id]? = none := by
      rw [rests.store]
      exact free
    rw [Program.ends_bind]
    have admissible : Admissible env checked.store.views (.reviewCreated {
      id, workspaceId, title, targets := request.targets, created := ctx.now,
      status := .opened }) := unused
    refine (ends_append consistent admissible).imp ?_
      fun _ _ refused => trans_of Rests rests refused.rests
    rintro event last ⟨appended, _⟩
    exact ⟨by rw [same], ⟨checked, event, rests, appended⟩, free⟩

/-- A creation leaves the log it found exactly if what it committed refreshes. -/
theorem spares_createReview (consistent : Consistent core.store.views) :
    Spares env core.store.events (createReview ctx id workspaceId title targets) core ↔
      ∀ review created,
        openReview ctx id workspaceId title targets env core = (.ok review, created) →
        Refreshes env ctx ⟨review, none, .live⟩ created := by
  have opens : Spares env core.store.events
      (openReview ctx id workspaceId title targets) core :=
    (ends_openReview consistent).imp (fun _ _ _ => trivial)
      fun _ _ rests _ => congrArg Store.events rests.store
  rw [createReview_eq, spares_bind, and_iff_right opens]
  refine forall_congr' fun review => forall_congr' fun created => imp_congr_right fun run => ?_
  have done := (ends_openReview consistent).of_returned run
  have after := done.consistent env consistent
  obtain ⟨event, longer⟩ := done.longer
  rw [spares_bind, and_iff_left fun _ _ _ => spares_pure]
  have growth : Extends (Permitted env False) created created := .refl after
  rw [spares_iff_withstands ⟨[], longer⟩ (advances_resolveTargets growth).log]
  exact withstands_resolveTargets (done.live consistent)

theorem withstands_createReview (consistent : Consistent core.store.views) :
    Withstands env core (createReview ctx id workspaceId title targets) ↔
      Withstands env core (openReview ctx id workspaceId title targets) ∧
        ∀ review created,
          openReview ctx id workspaceId title targets env core = (.ok review, created) →
          Refreshes env ctx ⟨review, none, .live⟩ created := by
  rw [createReview_eq, withstands_bind]
  refine and_congr_right fun _ => forall_congr' fun review => forall_congr' fun created =>
    imp_congr_right fun run => ?_
  have done := (ends_openReview consistent).of_returned run
  rw [withstands_bind, and_iff_left fun _ _ _ => withstands_pure]
  exact withstands_resolveTargets (done.live consistent)

omit [Platform] in
theorem withstands_bind_of_eq {α β : Type} {program : CoreM α} {next : α → CoreM β} {value : α}
    {last : Core} (run : program env core = (.ok value, last)) :
    Withstands env core (program >>= next) ↔ Withstands env last (next value) := by
  unfold Withstands Program.FailsOnly
  rw [Program.ends_bind, Program.ends_iff, run]
  simp

omit [Platform] in
/-- One target names no repository twice. -/
theorem CreateReviewTargets.ofTargets_singleton {target : ReviewTarget} :
    ∃ request, CreateReviewTargets.ofTargets (.singleton target) = .ok request ∧
      request.targets = .singleton target := by
  unfold CreateReviewTargets.ofTargets
  split
  · exact ⟨_, rfl, rfl⟩
  · next repeated =>
    simp [NonEmpty.singleton, firstDuplicate] at repeated

omit [Platform] in
/-- What a free review of one attached repository needs before its commit. -/
theorem withstands_openReview {target : ReviewTarget} {workspace : Workspace}
    (found : core.store.views.workspaces[workspaceId]? = some workspace)
    (mem : workspace.repos.any fun repo => repo.id = target.repoId)
    (free : core.store.review id = none) :
    Withstands env core (openReview ctx id workspaceId title (.singleton target)) ↔
      Resolvable env workspaceId target core := by
  obtain ⟨request, parsed, same⟩ := @CreateReviewTargets.ofTargets_singleton target
  have checked : Program.forEach (requireMember workspaceId workspace) [target] env core =
      (.ok [()], core) := by
    have holds : requireMember workspaceId workspace target env core = (.ok (), core) :=
      Program.require_eq mem
    rw [Program.forEach, Program.bind_eq holds]
    rfl
  have resolving : Withstands env core
      (Program.forEach (resolveTarget workspaceId) [target]) ↔
        Resolvable env workspaceId target core := by
    rw [← withstands_resolveTarget, Program.forEach, withstands_bind]
    exact and_iff_left fun _ _ _ => withstands_pure
  unfold openReview
  rw [parsed]
  dsimp only
  rw [Program.pure_bind, withstands_bind_of_eq (workspace_eq found),
    withstands_bind_of_eq Program.read_eq, withstands_bind_of_eq (Program.require_eq free), same]
  change Withstands env core (Program.forEach (requireMember workspaceId workspace) [target]
    >>= _) ↔ _
  rw [withstands_bind_of_eq checked]
  refine withstands_bind.trans (Iff.trans (and_iff_left fun _ _ _ => ?_) resolving)
  exact withstands_bind.mpr ⟨withstands_append, fun _ _ _ => withstands_pure⟩

end Creating

/-! ## Creating a workspace -/

section Bootstrapping

variable {env : Environment} {core last : Core} {ctx : Ctx} {workspaceId : WorkspaceId}
  {repoId : RepoId} {path name : String}

/-- A workspace was committed, and then its only repository. -/
structure Bootstrapped (workspaceId : WorkspaceId) (repoId : RepoId) (name : String)
    (before after : Core) : Prop where
  log : ∃ created attached, after.store.events = before.store.events ++ [created, attached]
  consistent : Consistent after.store.views
  workspace : ∃ path, after.store.views.workspaces[workspaceId]? =
    some ⟨workspaceId, name, [⟨repoId, path, name⟩]⟩
  reviews : ∀ id : ReviewId, after.store.views.reviews[id]? = before.store.views.reviews[id]?

theorem ends_createWorkspaceWithRepo (consistent : Consistent core.store.views) :
    (createWorkspaceWithRepo ctx workspaceId repoId path name).Ends env core
      (fun _ last => Bootstrapped workspaceId repoId name core last)
      (fun error last => error.isStorage = false → last.store.events = core.store.events) := by
  unfold createWorkspaceWithRepo
  rw [Program.ends_bind]
  refine quiet_openRepo.ends.imp ?_ fun _ _ rests _ => congrArg Store.events rests.store
  intro opened looked rests
  rw [Program.ends_bind]
  refine quiet_checkRepoOwner.ends.imp ?_
    fun _ _ further _ => congrArg Store.events (further.store.trans rests.store)
  intro _ owned further
  replace rests : Rests core owned := trans_of Rests rests further
  rw [← rests.store] at consistent
  unfold createWorkspace
  simp only [Program.ends_bind, Program.ends_read, Program.ends_require, Program.ends_pure]
  have same : owned.store.events = core.store.events := congrArg Store.events rests.store
  refine ⟨fun free => ⟨fun _ => ?_, fun _ _ => same⟩, fun _ _ => same⟩
  have admissible : Admissible env owned.store.views
    (.workspaceCreated ⟨workspaceId, name, []⟩) := ⟨free, rfl⟩
  refine (ends_append consistent admissible).imp ?_
    fun _ _ refused _ => (congrArg Store.events refused.rests.store).trans same
  rintro created begun ⟨appended, _⟩
  have after : Consistent begun.store.views :=
    consistent.step (appended.body_eq ▸ admissible) appended.applied
  have found : begun.store.views.workspaces[workspaceId]? = some ⟨workspaceId, name, []⟩ := by
    rw [(appended.follows consistent).workspace, Rows.workspace, appended.body_eq]
    exact if_pos rfl
  have grown : begun.store.events = core.store.events ++ [created] := by
    rw [appended.committed, ← same]
    rfl
  unfold publishAttachment
  simp only [Program.ends_bind, Program.ends_pure]
  have attachable : Admissible env begun.store.views
      (.repoAttached workspaceId ⟨repoId, opened.checkout, name⟩) := ⟨_, found, by simp⟩
  refine (ends_append after attachable).imp ?_ fun error _ refused outside => ?_
  · rintro attached joined ⟨appended', _⟩
    refine ⟨⟨created, attached, ?_⟩, ?_, ⟨opened.checkout, ?_⟩, fun id => ?_⟩
    · change joined.store.events = _
      rw [appended'.committed, Store.commit, grown, List.append_assoc]
      rfl
    · exact after.step (appended'.body_eq ▸ attachable) appended'.applied
    · change joined.store.views.workspaces[workspaceId]? = _
      rw [(appended'.follows after).workspace, Rows.workspace, appended'.body_eq, found]
      simp [Rows.changeAt, Rows.attached]
    · change joined.store.views.reviews[id]? = _
      rw [(appended'.follows after).review, Rows.review, appended'.body_eq,
        (appended.follows consistent).review, Rows.review, appended.body_eq, rests.store]
  · obtain ⟨message, rfl⟩ := refused.storage
    cases outside

end Bootstrapping

omit [Platform] in
/-- The events after a log's last position are those it has grown by. -/
theorem eventsAfter_lastSeq {before after : Store} {suffix : List Event} (logged : after.Logged)
    (grown : after.events = before.events ++ suffix) :
    after.eventsAfter before.lastSeq = suffix := by
  have ascending : after.events.Pairwise fun left right => left.seq < right.seq := by
    have numbers : (after.events.map Event.seq).Pairwise (· < ·) := by
      rw [logged.numbered]
      exact List.pairwise_lt_range'
    exact List.pairwise_map.mp numbers
  unfold Store.eventsAfter Store.lastSeq
  rw [grown] at ascending ⊢
  rcases before.events.eq_nil_or_concat with none | ⟨rest, final, held⟩
  · simp [none]
  rw [held, List.concat_eq_append] at ascending ⊢
  rw [List.getLast?_append_cons, List.getLast?_singleton, List.filter_append]
  obtain ⟨earlier, _, later⟩ := List.pairwise_append.mp ascending
  have bounded : ∀ event ∈ rest ++ [final], event.seq ≤ final.seq := by
    intro event mem
    rcases List.mem_append.mp mem with before | last
    · exact ((List.pairwise_append.mp earlier).2.2 event before final (by simp)).le
    · rw [List.mem_singleton.mp last]
  have none : (rest ++ [final]).filter (fun event => final.seq < event.seq) = [] := by
    rw [List.filter_eq_nil_iff]
    intro event mem
    simpa using bounded event mem
  have all : suffix.filter (fun event => final.seq < event.seq) = suffix := by
    rw [List.filter_eq_self]
    intro event mem
    simpa using later final (by simp) event mem
  change (rest ++ [final]).filter (fun event => final.seq < event.seq) ++
    suffix.filter (fun event => final.seq < event.seq) = suffix
  rw [none, all, List.nil_append]

/-! ## Carrying out a plan -/

section CarryingOut

variable {env : Environment} {core planned joined : Core} {ctx : Ctx}
  {options : EnsureDirectoryReview} {root : String} {located : Option (WorkspaceId × RepoId)}
  {base headSpec : RefSpec}

/-- The target of a new directory review. -/
abbrev directoryTarget (repoId : RepoId) (base headSpec : RefSpec) : ReviewTarget :=
  { repoId, base, head := headSpec }

/-- A creation that returned is in the log. -/
theorem ends_createReview {id : ReviewId} {workspaceId : WorkspaceId} {title : String}
    {targets : NonEmpty ReviewTarget} (consistent : Consistent core.store.views)
    (logged : core.store.Logged) : (createReview ctx id workspaceId title targets).Ends env core
      (fun _ last => last.store.Logged ∧
        ∃ event rest, last.store.events = core.store.events ++ event :: rest)
      (fun _ _ => True) := by
  have growth : Extends (Permitted env False) core core := .refl consistent
  have numbered : Advances env False core (createReview ctx id workspaceId title targets)
      core :=
    advances_createReview growth
  have longer : (createReview ctx id workspaceId title targets).Ends env core
      (fun _ last => ∃ event rest, last.store.events = core.store.events ++ event :: rest)
      fun _ _ => True := by
    rw [createReview_eq, Program.ends_bind]
    refine (ends_openReview consistent).imp ?_ fun _ _ _ => trivial
    intro review created done
    obtain ⟨event, held⟩ := done.longer
    rw [Program.ends_bind]
    refine ((plain_resolveTargets.sees env).ends created).imp ?_ fun _ _ _ => trivial
    intro resolved last looks
    obtain ⟨rest, grown, _⟩ := looks.log
    exact ⟨event, rest, by rw [grown, held, List.append_assoc]; rfl⟩
  exact (numbered.ends.and longer).imp (fun _ _ both => ⟨logged.grows both.1.grows, both.2⟩)
    fun _ _ _ => trivial

/-- What a directory request does once it has an attachment. -/
def reviewAttached (ctx : Ctx) (options : EnsureDirectoryReview) (root : String)
    (base headSpec : RefSpec) (before : Option Seq) (ids : WorkspaceId × RepoId) :
    CoreM DirectoryReview := do
  let _ ← createReview ctx options.reviewId ids.1 (fileName root)
    (.singleton (directoryTarget ids.2 base headSpec))
  let store ← Program.read Core.store
  let first ← Program.orStop (.invalid "bootstrap committed no event")
    (store.eventsAfter before).head?
  pure {
    workspaceId := ids.1, repoId := ids.2, reviewId := options.reviewId, base, head := headSpec,
    outcome := .created, seq := first.seq }

theorem createDirectoryReview_eq :
    createDirectoryReview ctx options root located base headSpec = (do
      let store ← Program.read Core.store
      Program.require (store.review options.reviewId = none)
        (.invalid s!"review {options.reviewId} already exists")
      let ids ← directoryMembership ctx options root (fileName root) located
      reviewAttached ctx options root base headSpec store.lastSeq ids) :=
  rfl

/-- The first event of a creation that returned is found. -/
theorem withstands_answered {before : Store} {more : List Event} {ids : WorkspaceId × RepoId}
    {record : ReviewRecord} {last : Core} (consistent : Consistent joined.store.views)
    (logged : joined.store.Logged) (grown : joined.store.events = before.events ++ more)
    (run : createReview ctx options.reviewId ids.1 (fileName root)
      (.singleton (directoryTarget ids.2 base headSpec)) env joined = (.ok record, last)) :
    Withstands env last (do
      let store ← Program.read Core.store
      let first ← Program.orStop (.invalid "bootstrap committed no event")
        (store.eventsAfter before.lastSeq).head?
      pure {
        workspaceId := ids.1, repoId := ids.2, reviewId := options.reviewId, base,
        head := headSpec, outcome := .created, seq := first.seq : DirectoryReview }) := by
  obtain ⟨numbered, event, rest, longer⟩ := (ends_createReview consistent logged).of_returned run
  rw [grown, List.append_assoc] at longer
  rw [withstands_bind_of_eq Program.read_eq, eventsAfter_lastSeq numbered longer]
  cases more <;> exact withstands_pure

theorem withstands_reviewAttached {before : Store} {more : List Event} {ids : WorkspaceId × RepoId}
    (consistent : Consistent joined.store.views) (logged : joined.store.Logged)
    (grown : joined.store.events = before.events ++ more) : Withstands env joined
        (reviewAttached ctx options root base headSpec before.lastSeq ids) ↔
      Withstands env joined (createReview ctx options.reviewId ids.1 (fileName root)
        (.singleton (directoryTarget ids.2 base headSpec))) :=
  withstands_bind.trans (and_iff_left fun _ _ run =>
    withstands_answered consistent logged grown run)

/-- On a located attachment a request is a creation. -/
theorem spares_located {ids : WorkspaceId × RepoId} (consistent : Consistent planned.store.views)
    (logged : planned.store.Logged) : Spares env planned.store.events
        (reviewAttached ctx options root base headSpec planned.store.lastSeq ids) planned ↔
      ∀ review created,
        openReview ctx options.reviewId ids.1 (fileName root)
          (.singleton (directoryTarget ids.2 base headSpec)) env planned =
            (.ok review, created) →
        Refreshes env ctx ⟨review, none, .live⟩ created := by
  rw [← spares_createReview consistent]
  exact spares_bind.trans (and_iff_left fun _ _ run =>
    (withstands_answered consistent logged (List.append_nil _).symm run).spares)

/-- A new workspace leaves a longer log, from which only the database stops the rest. -/
theorem spares_bootstrapped {before : Store} {ids : WorkspaceId × RepoId} {log : List Event}
    (boot : Bootstrapped ids.1 ids.2 (fileName root) planned joined)
    (logged : joined.store.Logged) (held : planned.store.events = log)
    (same : planned.store = before) (free : planned.store.review options.reviewId = none) :
    Spares env log (reviewAttached ctx options root base headSpec before.lastSeq ids) joined ↔
      Resolvable env ids.1 (directoryTarget ids.2 base headSpec) joined ∧
        ∀ review created,
          openReview ctx options.reviewId ids.1 (fileName root)
            (.singleton (directoryTarget ids.2 base headSpec)) env joined =
              (.ok review, created) →
          Refreshes env ctx ⟨review, none, .live⟩ created := by
  obtain ⟨created, attached, grown⟩ := boot.log
  obtain ⟨path, workspace⟩ := boot.workspace
  have growth : Extends (Permitted env False) joined joined := .refl boot.consistent
  have grows : Advances env False joined
      (reviewAttached ctx options root base headSpec before.lastSeq ids) joined := by
    refine .bind (advances_createReview growth) fun _ _ growth => ?_
    exact .read_bind (.orStop_bind growth fun _ _ => .pure growth)
  have longer : joined.store.events = log ++ created :: [attached] := by rw [grown, held]
  rw [spares_iff_withstands ⟨[attached], longer⟩ grows.log]
  rw [withstands_reviewAttached boot.consistent logged (same ▸ grown)]
  rw [withstands_createReview boot.consistent]
  refine and_congr_left fun _ => withstands_openReview workspace (by simp) ?_
  exact (boot.reviews options.reviewId).trans free

/-- A new membership is that of a new workspace. -/
theorem ends_directoryMembership {name : String} (consistent : Consistent planned.store.views)
    (logged : planned.store.Logged) :
    (directoryMembership ctx options root name none).Ends env planned
      (fun ids last => Bootstrapped ids.1 ids.2 name planned last ∧ last.store.Logged)
      (fun error last => error.isStorage = false → last.store.events = planned.store.events) := by
  have growth : Extends (Permitted env False) planned planned := .refl consistent
  have grows : Advances env False planned
      (createWorkspaceWithRepo ctx options.workspaceId options.repoId root name) planned :=
    advances_createWorkspaceWithRepo growth
  unfold directoryMembership
  rw [Program.ends_bind]
  exact ((ends_createWorkspaceWithRepo consistent).and grows.ends).imp
    (fun _ _ both => ⟨both.1, logged.grows both.2.grows⟩) fun _ _ both => both.1

/-- Carrying out a creation leaves the log it found exactly if, once the review has an
attachment, a new attachment resolves and the committed review refreshes. -/
theorem spares_createDirectoryReview (consistent : Consistent planned.store.views)
    (logged : planned.store.Logged) : Spares env planned.store.events
        (createDirectoryReview ctx options root located base headSpec) planned ↔
      (planned.store.review options.reviewId = none → ∀ ids joined,
        directoryMembership ctx options root (fileName root) located env planned =
          (.ok ids, joined) →
        (located = none →
          Resolvable env ids.1 (directoryTarget ids.2 base headSpec) joined) ∧
        ∀ review created,
          openReview ctx options.reviewId ids.1 (fileName root)
            (.singleton (directoryTarget ids.2 base headSpec)) env joined =
              (.ok review, created) →
          Refreshes env ctx ⟨review, none, .live⟩ created) := by
  rw [createDirectoryReview_eq, spares_bind_of_eq Program.read_eq, spares_require_bind rfl]
  refine imp_congr_right fun free => ?_
  cases located with
  | some ids =>
    have given : directoryMembership ctx options root (fileName root) (some ids) env
        planned = (.ok ids, planned) := rfl
    rw [spares_bind_of_eq given]
    rw [spares_located consistent logged]
    constructor
    · intro refreshes ids' joined run
      rw [given] at run
      cases run
      exact ⟨(fun none => nomatch none), refreshes⟩
    · exact fun all => (all ids planned given).2
  | none =>
    have joins : (directoryMembership ctx options root (fileName root) none).Ends env planned
        (fun ids last => Bootstrapped ids.1 ids.2 (fileName root) planned last ∧ last.store.Logged)
        (fun error last => error.isStorage = false → last.store.events = planned.store.events) :=
      ends_directoryMembership consistent logged
    have bootstraps : Spares env planned.store.events
        (directoryMembership ctx options root (fileName root) none) planned :=
      joins.imp (fun _ _ _ => trivial) fun _ _ left => left
    rw [spares_bind, and_iff_right bootstraps]
    refine forall_congr' fun ids => forall_congr' fun joined => imp_congr_right fun run => ?_
    obtain ⟨boot, numbered⟩ := joins.of_returned run
    rw [spares_bootstrapped boot numbered rfl rfl free]
    exact and_congr_left fun _ => by simp

/-- Carrying out a reuse leaves the log it found exactly if the comments of the reused
review can follow its targets. -/
theorem spares_reuse {review : DirectoryReview} {record : ReviewRecord}
    (consistent : Consistent planned.store.views)
    (live : LiveReview planned.store.views review.reviewId record) :
    Spares env planned.store.events (carryOut ctx options (.reuse review)) planned ↔
      CommentsFollow env ctx record planned := by
  rw [← spares_resolveTargets consistent live]
  refine spares_bind.trans (and_iff_left fun resolved last run => ?_)
  have looks : Looks env planned last := by
    have plain : Plain (resolveTargets ctx review.reviewId) := plain_resolveTargets
    have sees := plain.sees env planned
    rwa [run] at sees
  obtain ⟨events, grown, _⟩ := looks.log
  refine spares_bind.mpr ⟨?_, fun _ _ _ => spares_pure⟩
  unfold Spares logPosition
  rw [Program.ends_bind, Program.ends_read, Program.ends_orStop]
  refine ⟨fun _ _ => trivial, fun empty _ => ?_⟩
  -- A log without a last position is empty, and so was the one before it.
  have none : last.store.events = [] := by
    unfold Store.lastSeq at empty
    simpa using empty
  rw [none] at grown ⊢
  exact (List.append_eq_nil_iff.mp grown.symm).1.symm

end CarryingOut

/-! ## Whole requests -/

/-- Once a directory request has committed anything, it needs nothing but the database. -/
structure DirectoryCompletes (env : Environment) (ctx : Ctx)
    (options : EnsureDirectoryReview) (core : Core) : Prop where
  /-- The comments of a reused review can follow its new targets. -/
  moves : ∀ review planned record,
    directoryPlan options env core = (.ok (.reuse review), planned) →
    LiveReview planned.store.views review.reviewId record →
    CommentsFollow env ctx record planned
  /-- A new attachment opens, and git resolves both refs in it again. -/
  resolves : ∀ root base headSpec planned ids joined,
    directoryPlan options env core = (.ok (.create root none base headSpec), planned) →
    planned.store.review options.reviewId = none →
    directoryMembership ctx options root (fileName root) none env planned =
      (.ok ids, joined) →
    Resolvable env ids.1 (directoryTarget ids.2 base headSpec) joined
  /-- A new review resolves once more and git keeps what it resolved to. -/
  refreshes : ∀ root located base headSpec planned ids joined review created,
    directoryPlan options env core = (.ok (.create root located base headSpec), planned) →
    planned.store.review options.reviewId = none →
    directoryMembership ctx options root (fileName root) located env planned =
      (.ok ids, joined) →
    openReview ctx options.reviewId ids.1 (fileName root)
      (.singleton (directoryTarget ids.2 base headSpec)) env joined = (.ok review, created) →
    Refreshes env ctx ⟨review, none, .live⟩ created

section Requests

variable {env : Environment} {core planned : Core} {ctx : Ctx}
  {options : EnsureDirectoryReview}

omit [Platform] in
theorem directoryPlan_rests {plan : DirectoryPlan}
    (run : directoryPlan options env core = (.ok plan, planned)) : Rests core planned :=
  quiet_directoryPlan.ends.of_returned run

omit [Platform] in
/-- A matching review is live and stored. -/
theorem live_of_directoryMatch {store : Store} {base : Option RefSpec} {headSpec : RefSpec}
    {located : Option (WorkspaceId × RepoId)} {reviewId : ReviewId} {target : ReviewTarget}
    (consistent : Consistent store.views)
    (matched : directoryMatch store base headSpec located = some (reviewId, target)) :
    ∃ record, LiveReview store.views reviewId record := by
  cases located with
  | none => cases matched
  | some ids =>
    obtain ⟨record, mem, found⟩ := List.exists_of_findSome?_eq_some matched
    obtain ⟨_, _, same⟩ := Option.map_eq_some_iff.mp found
    obtain ⟨rfl, _⟩ := Prod.mk.inj same
    obtain ⟨listed, held⟩ := List.mem_filter.mp mem
    obtain ⟨⟨key, _⟩, stored, rfl⟩ := List.mem_map.mp listed
    have stored := Std.ExtTreeMap.mem_toList_iff_getElem?_eq_some.mp stored
    obtain rfl := consistent.review stored
    exact ⟨_, stored, by simpa using (Bool.and_eq_true_iff.mp held).2⟩

omit [Platform] in
/-- Which review a plan reuses is a live one. -/
theorem directoryPlan_live {review : DirectoryReview} (consistent : Consistent core.store.views)
    (run : directoryPlan options env core = (.ok (.reuse review), planned)) :
    ∃ record, LiveReview planned.store.views review.reviewId record := by
  rw [(directoryPlan_rests run).store]
  obtain ⟨root, git, located, _, decides⟩ := directoryPlan_eq_ok_iff.mp run
  cases matched : directoryMatch core.store (options.base.map BaseRefSpec.toRefSpec)
      (options.head.getD .workingTree) located with
  | none =>
    rw [matched] at decides
    obtain ⟨_, _, _, _, other⟩ := decides
    cases other
  | some match_ =>
    obtain ⟨reviewId, target⟩ := match_
    rw [matched] at decides
    obtain ⟨_, _, _, _, _, same⟩ := decides
    cases same
    exact live_of_directoryMatch consistent matched

/-- A directory request leaves the log it found exactly if it completes whatever it begins. -/
theorem spares_ensureDirectoryReview (consistent : Consistent core.store.views)
    (logged : core.store.Logged) :
    Spares env core.store.events (ensureDirectoryReview ctx options) core ↔
      DirectoryCompletes env ctx options core := by
  rw [ensureDirectoryReview_eq, spares_bind, and_iff_right (quiet_directoryPlan.spares rfl)]
  have kept {plan : DirectoryPlan} {planned : Core}
      (run : directoryPlan options env core = (.ok plan, planned)) :
      Consistent planned.store.views ∧ planned.store.Logged ∧
        core.store.events = planned.store.events := by
    rw [(directoryPlan_rests run).store]
    exact ⟨consistent, logged, rfl⟩
  constructor
  · intro spares
    constructor
    · intro review planned record run live
      obtain ⟨consistent, _, same⟩ := kept run
      have carried := spares _ planned run
      rw [same] at carried
      exact (spares_reuse consistent live).mp carried
    · intro root base headSpec planned ids joined run free membership
      obtain ⟨consistent, logged, same⟩ := kept run
      have carried := spares _ planned run
      rw [same] at carried
      exact ((spares_createDirectoryReview consistent logged).mp carried free ids joined
        membership).1 rfl
    · intro root located base headSpec planned ids joined review created run free membership
      obtain ⟨consistent, logged, same⟩ := kept run
      have carried := spares _ planned run
      rw [same] at carried
      exact ((spares_createDirectoryReview consistent logged).mp carried free ids joined
        membership).2 review created
  · intro completes plan planned run
    obtain ⟨consistent', logged', same⟩ := kept run
    rw [same]
    cases plan with
    | reuse review =>
      obtain ⟨record, live⟩ := directoryPlan_live consistent run
      exact (spares_reuse consistent' live).mpr (completes.moves review planned record run live)
    | create root located base headSpec =>
      refine (spares_createDirectoryReview consistent' logged').mpr fun free ids joined mem => ?_
      refine ⟨?_, fun review created => ?_⟩
      · rintro rfl
        exact completes.resolves root base headSpec planned ids joined run free mem
      · exact completes.refreshes root located base headSpec planned ids joined review created run
          free mem

/-- So it is in every state that a daemon reaches. -/
theorem directory_spares (reachable : Reachable env core) :
    Spares env core.store.events (ensureDirectoryReview ctx options) core ↔
      DirectoryCompletes env ctx options core :=
  spares_ensureDirectoryReview reachable.consistent reachable.logged

end Requests

/-- The refs of the first session's checkout are lost once a second review of it is created. -/
def refsForgotten : Environment :=
  .failing fun number call =>
    match call with
    | .resolve .. => 26 ≤ number
    | _ => false

/-- A request for that checkout's working tree. -/
def secondReview : EnsureDirectoryReview := ⟨⟨8⟩, ⟨9⟩, ⟨6⟩, "/repo", none, none⟩

omit [Platform] in
/-- The request fails and leaves its review, so one of its later steps could fail. -/
theorem directory_spares_lost : ¬ @DirectoryCompletes .plain refsForgotten
    (Session.by_ Session.user) secondReview (@run .plain refsForgotten .initial Session.opening) := by
  let _ : Platform := .plain
  obtain ⟨core, began, held, failed, left⟩ : ∃ core,
      core = run refsForgotten .initial Session.opening ∧ core.store.events.length = 4 ∧
        (ensureDirectoryReview (Session.by_ Session.user) secondReview refsForgotten core).1.map
          (fun _ => ()) = .error (.git "unavailable") ∧
        (ensureDirectoryReview (Session.by_ Session.user) secondReview refsForgotten
          core).2.store.events.length = 5 :=
    ⟨_, rfl, by decide +kernel, by decide +kernel, by decide +kernel⟩
  rw [← began]
  intro completes
  have spares := (directory_spares ⟨Session.opening, began⟩).mpr completes
  rcases ran : ensureDirectoryReview (Session.by_ Session.user) secondReview refsForgotten core
    with ⟨outcome, last⟩
  rw [ran] at failed left
  cases outcome with
  | ok review => cases failed
  | error error =>
    cases failed
    rw [(Program.ends_iff.mp spares).2 _ last ran rfl, held] at left
    cases left

end Core

end Nits.ReviewCore
