import Nits.ReviewCore.Journal
import Nits.ReviewCore.Lookups
import Nits.ReviewCore.Operation

/-!
# Operations append validated events only

Every operation of the core extends its store by admissible events, however it
ends, and the store never reports one of them. Six comment operations reach their
comment or thread without looking at the review; all the others append events of
undeleted reviews only.
-/

namespace Nits.ReviewCore

open Logical Protocol

/-- The store grew by allowed events to consistent views, and nothing was
reported. -/
structure Core.Extends (allowed : Allowed) (before after : Core) : Prop where
  grows : before.store.Grows allowed after.store
  consistent : Consistent after.store.views
  reported : after.reported = before.reported

/-- The database commits when it is asked as question `number`. -/
def Environment.Commits (env : Environment) (number : Nat) : Prop :=
  env.answer number .commit = .ok ()

/-- The database refused to commit. -/
structure Core.Refused (env : Environment) (before : Core) (error : CoreError)
    (after : Core) : Prop where
  rests : Rests before after
  denied : ¬ env.Commits before.calls
  storage : ∃ message, error = .store (.redb message)

/-- One event was committed to the store. -/
structure Core.Appended (ctx : Ctx) (body : EventBody) (before : Core) (event : Event)
    (after : Core) : Prop where
  stamped : event = NewEvent.at_ ⟨ctx.now, ctx.author, ctx.clientId, ctx.clientSeq, body⟩
    before.store.nextSeq
  applied : before.store.views.apply event = .ok after.store.views
  committed : after.store = before.store.commit event after.store.views
  reported : after.reported = before.reported

namespace Core

section Growing

variable {allowed : Allowed} {origin start last : Core} {ctx : Ctx} {body : EventBody}
  {event : Event}

theorem Extends.refl (consistent : Consistent start.store.views) : Extends allowed start start :=
  ⟨.refl, consistent, rfl⟩

theorem Extends.rests (growth : Extends allowed origin start) (rests : Rests start last) :
    Extends allowed origin last := by
  obtain ⟨grows, consistent, reported⟩ := growth
  rw [← rests.store] at grows consistent
  exact ⟨grows, consistent, rests.reported.trans reported⟩

theorem Extends.trans (first : Extends allowed origin start) (second : Extends allowed start last) :
    Extends allowed origin last :=
  ⟨first.grows.trans second.grows, second.consistent, second.reported.trans first.reported⟩

theorem Appended.body_eq (appended : Appended ctx body start event last) : event.body = body := by
  rw [appended.stamped]
  rfl

theorem Appended.gains (appended : Appended ctx body start event last)
    (permitted : allowed start.store.views body) :
    start.store.Gains allowed event last.store where
  allowed := by
    rw [appended.body_eq]
    exact permitted
  numbered := by
    rw [appended.stamped]
    rfl
  applied := appended.applied
  committed := appended.committed

theorem Appended.follows (appended : Appended ctx body start event last)
    (consistent : Consistent start.store.views) :
    Follows event start.store.views last.store.views :=
  Views.follows_of_apply consistent.toKeyed appended.applied

/-- Only its deletion ends a review. -/
theorem Appended.live_kept {id : ReviewId} (appended : Appended ctx body start event last)
    (consistent : Consistent start.store.views) (other : body ≠ .reviewDeleted id)
    (live : ∃ record, LiveReview start.store.views id record) :
    ∃ record, LiveReview last.store.views id record := by
  obtain ⟨record, found, live⟩ := live
  have now := (appended.follows consistent).review id
  rw [Rows.review, found, appended.body_eq] at now
  have stored {key : ReviewId} {stored : ReviewRecord} (fresh : stored.lifecycle = .live)
      (now : last.store.views.reviews[id]? = Rows.storeAt key id stored (some record)) :
      ∃ record, LiveReview last.store.views id record := by
    unfold Rows.storeAt at now
    split at now
    · exact ⟨stored, now, fresh⟩
    · exact ⟨record, now, live⟩
  have changed {key : ReviewId} {change : ReviewRecord → ReviewRecord}
      (kept : (change record).lifecycle = record.lifecycle)
      (now : last.store.views.reviews[id]? = Rows.changeAt key id change (some record)) :
      ∃ record, LiveReview last.store.views id record := by
    unfold Rows.changeAt at now
    split at now
    · exact ⟨change record, now, kept.trans live⟩
    · exact ⟨record, now, live⟩
  split at now
  · exact stored rfl now
  · exact changed rfl now
  · exact changed rfl now
  · next deleted =>
    rw [Rows.changeAt, if_neg fun same => other (by rw [same])] at now
    exact ⟨record, now, live⟩
  · exact changed rfl now
  · exact ⟨record, now, live⟩

end Growing

end Core

variable [Platform]

/-- An admissible event. Where a guard is kept, the event's review, if it is
stored, has not been deleted. -/
structure Permitted (env : Environment) (guarded : Prop) (views : Views)
    (body : EventBody) : Prop where
  admissible : Admissible env views body
  undeleted : guarded → ∀ {id record}, body.reviewId = some id →
    views.reviews[id]? = some record → record.lifecycle = .live

section Permitting

variable {env : Environment} {guarded : Prop} {views : Views} {body : EventBody}

theorem Permitted.of_live {id : ReviewId} (admissible : Admissible env views body)
    (names : body.reviewId = some id) (live : ∃ record, LiveReview views id record) :
    Permitted env guarded views body where
  admissible := admissible
  undeleted := by
    rintro _ other record same found
    obtain rfl := Option.some.inj (names.symm.trans same)
    obtain ⟨stored, present, lifecycle⟩ := live
    rw [found] at present
    obtain rfl := Option.some.inj present
    exact lifecycle

theorem Permitted.of_none (admissible : Admissible env views body)
    (names : body.reviewId = none) : Permitted env guarded views body where
  admissible := admissible
  undeleted := by
    rintro _ id record same
    rw [names] at same
    cases same

theorem Permitted.unguarded (admissible : Admissible env views body) :
    Permitted env False views body :=
  ⟨admissible, False.elim⟩

end Permitting

namespace Core

/-! ## Rules for operations -/

/-- However the program ends, it ends in an extension of `origin` by permitted
events. -/
structure Advances {α : Type} (env : Environment) (guarded : Prop) (origin : Core)
    (program : CoreM α) (start : Core) : Prop where
  ends : program.Ends env start
    (fun _ last => Extends (Permitted env guarded) origin last)
    (fun _ last => Extends (Permitted env guarded) origin last)

namespace Advances

variable {env : Environment} {guarded : Prop} {origin start last : Core} {α β : Type}
  {program : CoreM α} {next : α → CoreM β}

section Rules

variable (growth : Extends (Permitted env guarded) origin start) {error : CoreError}
include growth

theorem pure {value : α} : Advances env guarded origin (Pure.pure value) start := ⟨growth⟩

theorem stop_bind :
    Advances env guarded origin ((Program.stop error : CoreM α) >>= next) start := by
  constructor
  rw [Program.ends_bind]
  exact growth

theorem quiet_bind (quiet : Quiet program)
    (then_ : ∀ value last, Rests start last → Extends (Permitted env guarded) origin last →
      Advances env guarded origin (next value) last) :
    Advances env guarded origin (program >>= next) start := by
  constructor
  rw [Program.ends_bind]
  exact quiet.ends.imp
    (fun value last rests => (then_ value last rests (growth.rests rests)).ends)
    fun _ _ => growth.rests

theorem require_bind {condition : Prop} [Decidable condition] {next : Unit → CoreM β}
    (then_ : condition → Advances env guarded origin (next ()) start) :
    Advances env guarded origin (Program.require condition error >>= next) start := by
  constructor
  rw [Program.ends_bind, Program.ends_require]
  exact ⟨fun holds => (then_ holds).ends, fun _ => growth⟩

theorem orStop_bind {value : Option α}
    (then_ : ∀ found, value = some found → Advances env guarded origin (next found) start) :
    Advances env guarded origin (Program.orStop error value >>= next) start := by
  constructor
  rw [Program.ends_bind, Program.ends_orStop]
  exact ⟨fun _ found => (then_ _ found).ends, fun _ => growth⟩

theorem review_bind {id : ReviewId} {next : ReviewRecord → CoreM β}
    (then_ : ∀ record, LiveReview start.store.views id record →
      Advances env guarded origin (next record) start) :
    Advances env guarded origin (review id >>= next) start := by
  constructor
  rw [Program.ends_bind, ends_review]
  exact ⟨fun _ found => (then_ _ found).ends, fun _ => growth⟩

theorem workspace_bind {id : WorkspaceId} {next : Workspace → CoreM β}
    (then_ : ∀ workspace, start.store.views.workspaces[id]? = some workspace →
      Advances env guarded origin (next workspace) start) :
    Advances env guarded origin (workspace id >>= next) start := by
  constructor
  rw [Program.ends_bind, ends_workspace]
  exact ⟨fun _ found => (then_ _ found).ends, fun _ => growth⟩

theorem comment_bind {reviewId : ReviewId} {id : CommentId} {next : Comment → CoreM β}
    (then_ : ∀ comment, LiveComment start.store.views reviewId id comment →
      Advances env guarded origin (next comment) start) :
    Advances env guarded origin (comment reviewId id >>= next) start := by
  constructor
  rw [Program.ends_bind, ends_comment]
  exact ⟨fun _ found => (then_ _ found).ends, fun _ => growth⟩

theorem thread_bind {reviewId : ReviewId} {id : ThreadId} {next : Thread → CoreM β}
    (then_ : ∀ thread, start.store.views.threads[(reviewId, id)]? = some thread →
      Advances env guarded origin (next thread) start) :
    Advances env guarded origin (thread reviewId id >>= next) start := by
  constructor
  rw [Program.ends_bind, ends_thread growth.consistent.toKeyed]
  exact ⟨fun _ found => (then_ _ found).ends, fun _ => growth⟩

theorem reviewSnapshot_bind {id : ReviewId} {next : ReviewSnapshot → CoreM β}
    (then_ : ∀ snapshot, start.store.reviewSnapshot id = some snapshot →
      Advances env guarded origin (next snapshot) start) :
    Advances env guarded origin (reviewSnapshot id >>= next) start := by
  constructor
  rw [Program.ends_bind, ends_reviewSnapshot]
  exact ⟨fun _ found => (then_ _ found).ends, fun _ => growth⟩

end Rules

/-- Go on from a program known to return in an extension. -/
theorem bind_of_ends {returned : α → Core → Prop} (first : program.Ends env start returned
      fun _ last => Extends (Permitted env guarded) origin last)
    (then_ : ∀ value last, returned value last →
      Advances env guarded origin (next value) last) :
    Advances env guarded origin (program >>= next) start := by
  constructor
  rw [Program.ends_bind]
  exact first.imp (fun value last reached => (then_ value last reached).ends) fun _ _ growth => growth

theorem bind (first : Advances env guarded origin program start)
    (then_ : ∀ value last, Extends (Permitted env guarded) origin last →
      Advances env guarded origin (next value) last) :
    Advances env guarded origin (program >>= next) start :=
  bind_of_ends first.ends then_

theorem read_bind {view : Core → α}
    (then_ : Advances env guarded origin (next (view start)) start) :
    Advances env guarded origin (Program.read view >>= next) start :=
  ⟨then_.ends⟩

end Advances

section Appending

variable {env : Environment} {guarded : Prop} {origin start : Core} {ctx : Ctx}
  {body : EventBody}

/-- An admissible event is committed, or the database refuses the commit. -/
theorem ends_append (consistent : Consistent start.store.views)
    (admissible : Admissible env start.store.views body) : (append ctx body).Ends env start
      (fun event last => Appended ctx body start event last ∧ env.Commits start.calls)
      (Refused env start) := by
  set event := NewEvent.at_ ⟨ctx.now, ctx.author, ctx.clientId, ctx.clientSeq, body⟩
    start.store.nextSeq
  have applies : ∃ views, start.store.views.apply event = .ok views :=
    consistent.applies admissible
  obtain ⟨views, applied⟩ := applies
  have appended := Store.append_eq_ok.mpr ⟨rfl, views, applied, rfl⟩
  unfold append
  simp only [Program.ends_bind, Program.ends_read, appended]
  cases answer : env.answer start.calls .commit with
  | ok committed =>
    simp only [Program.Ends, ask, answer]
    exact ⟨⟨rfl, applied, rfl, rfl⟩, answer⟩
  | error error =>
    simp only [Program.Ends, ask, answer]
    refine ⟨⟨rfl, rfl⟩, ?_, error.toCore.toString, rfl⟩
    rw [Environment.Commits, answer]
    simp

theorem Appended.extends {event : Event} {last : Core}
    (appended : Appended ctx body start event last)
    (growth : Extends (Permitted env guarded) origin start)
    (permitted : Permitted env guarded start.store.views body) :
    Extends (Permitted env guarded) origin last where
  grows := growth.grows.trans (appended.gains permitted).grows
  consistent := growth.consistent.step (appended.body_eq ▸ permitted.admissible) appended.applied
  reported := appended.reported.trans growth.reported

theorem Advances.append_bind {β : Type} {next : Event → CoreM β}
    (growth : Extends (Permitted env guarded) origin start)
    (permitted : Permitted env guarded start.store.views body)
    (then_ : ∀ event last, Appended ctx body start event last →
      Extends (Permitted env guarded) origin last →
      Advances env guarded origin (next event) last) :
    Advances env guarded origin (append ctx body >>= next) start := by
  constructor
  rw [Program.ends_bind]
  refine (ends_append growth.consistent permitted.admissible).imp ?_
    fun _ _ refused => growth.rests refused.rests
  rintro event last ⟨appended, _⟩
  exact (then_ event last appended (appended.extends growth permitted)).ends

end Appending

/-! ## Workspaces -/

section Workspaces

variable {env : Environment} {guarded : Prop} {origin start : Core} {ctx : Ctx}
  {workspaceId : WorkspaceId} {repoId : RepoId}
variable (growth : Extends (Permitted env guarded) origin start)
include growth

/-- A created workspace has no repositories. -/
theorem ends_createWorkspace {name : String} : (createWorkspace ctx workspaceId name).Ends env start
      (fun _ last => Extends (Permitted env guarded) origin last ∧
        last.store.views.workspaces[workspaceId]? = some ⟨workspaceId, name, []⟩)
      (fun _ last => Extends (Permitted env guarded) origin last) := by
  unfold createWorkspace
  simp only [Program.ends_bind, Program.ends_read, Program.ends_require, Program.ends_pure]
  refine ⟨fun free => ⟨fun _ => ?_, fun _ => growth⟩, fun _ => growth⟩
  have admissible : Admissible env start.store.views
    (.workspaceCreated ⟨workspaceId, name, []⟩) := ⟨free, rfl⟩
  refine (ends_append growth.consistent admissible).imp ?_
    fun _ _ refused => growth.rests refused.rests
  rintro event last ⟨appended, _⟩
  refine ⟨appended.extends growth (.of_none admissible rfl), ?_⟩
  rw [(appended.follows growth.consistent).workspace, Rows.workspace, appended.body_eq]
  exact if_pos rfl

theorem advances_createWorkspace {name : String} :
    Advances env guarded origin (createWorkspace ctx workspaceId name) start :=
  ⟨(ends_createWorkspace growth).imp (fun _ _ created => created.1) fun _ _ growth => growth⟩

theorem advances_renameWorkspace {name : String} :
    Advances env guarded origin (renameWorkspace ctx workspaceId name) start := by
  refine .workspace_bind growth fun workspace found => ?_
  exact .append_bind growth (.of_none ⟨workspace, found⟩ rfl) fun _ _ _ growth => .pure growth

theorem advances_publishAttachment {opened : OpenedRepo} {displayName : String}
    (free : ∃ workspace, start.store.views.workspaces[workspaceId]? = some workspace ∧
      ∀ mem ∈ workspace.repos, mem.id ≠ repoId) : Advances env guarded origin
      (publishAttachment ctx workspaceId repoId opened displayName) start := by
  refine .append_bind growth (.of_none free rfl) fun _ _ _ growth => ?_
  exact ⟨growth.rests ⟨rfl, rfl⟩⟩

theorem advances_attachRepo {path displayName : String} :
    Advances env guarded origin (attachRepo ctx workspaceId repoId path displayName) start := by
  refine .workspace_bind growth fun workspace found => .require_bind growth fun free => ?_
  have unattached : ∀ mem ∈ workspace.repos, mem.id ≠ repoId := by
    simpa [List.any_eq_false] using free
  refine .quiet_bind growth quiet_openRepo fun opened last rests growth => ?_
  rw [← rests.store] at found
  refine .quiet_bind growth quiet_checkRepoOwner fun _ last rests growth => ?_
  rw [← rests.store] at found
  refine .quiet_bind growth (.forEach fun _ _ => quiet_refuseSharedCheckout)
    fun _ last rests growth => ?_
  rw [← rests.store] at found
  exact advances_publishAttachment growth ⟨workspace, found, unattached⟩

theorem advances_createWorkspaceWithRepo {path name : String} : Advances env guarded origin
      (createWorkspaceWithRepo ctx workspaceId repoId path name) start := by
  refine .quiet_bind growth quiet_openRepo fun opened last _ growth => ?_
  refine .quiet_bind growth quiet_checkRepoOwner fun _ last _ growth => ?_
  refine .bind_of_ends (ends_createWorkspace growth) fun _ last ⟨growth, created⟩ => ?_
  exact Advances.bind (advances_publishAttachment growth ⟨_, created, by simp⟩)
    fun _ _ growth => .pure growth

theorem advances_detachRepo :
    Advances env guarded origin (detachRepo ctx workspaceId repoId) start := by
  refine .workspace_bind growth fun workspace found => .require_bind growth fun mem => ?_
  have attached : ∃ repo ∈ workspace.repos, repo.id = repoId := by
    simpa [List.any_eq_true] using mem
  refine .append_bind growth (.of_none ⟨workspace, found, attached⟩ rfl) fun _ _ _ growth => ?_
  exact ⟨growth.rests ⟨rfl, rfl⟩⟩

end Workspaces

/-! ## Comments -/

section Comments

variable {env : Environment} {guarded : Prop} {origin start : Core} {ctx : Ctx}
  {reviewId : ReviewId} {id : CommentId} {threadId : ThreadId}

omit [Platform] in
/-- The content of an anchored blob is what git answered. -/
theorem ends_anchoredBlob {record : ReviewRecord} {repoId : RepoId} {blobOid : BlobOid} :
    (anchoredBlob reviewId record repoId blobOid).Ends env start
      (fun bytes last => Rests start last ∧
        ∃ number repo, env.content number repo blobOid = some bytes)
      (fun _ last => Rests start last) := by
  unfold anchoredBlob
  simp only [Program.ends_bind, Program.ends_require]
  refine ⟨fun _ => ?_, fun _ => refl_of Rests start⟩
  refine quiet_reviewRepo.ends.imp ?_ fun _ _ rests => rests
  intro repo last rests
  rw [ends_outside]
  refine ⟨fun bytes answered => ?_, fun _ _ => ⟨rests.store, rests.reported⟩⟩
  refine ⟨⟨rests.store, rests.reported⟩, last.calls, repo, ?_⟩
  rw [Environment.content, answered]
  rfl

/-- A validated anchor is stamped, and its review was live. -/
theorem ends_validateAnchor {anchor : Anchor} : (validateAnchor reviewId anchor).Ends env start
      (fun stamped last => Rests start last ∧ Stamped env stamped ∧
        (∃ record, LiveReview start.store.views reviewId record) ∧
        (anchor = .review → stamped = .review) ∧ browsable stamped = browsable anchor)
      (fun _ last => Rests start last) := by
  unfold validateAnchor
  rw [Program.ends_bind, ends_review]
  refine ⟨fun record live => ?_, fun _ => refl_of Rests start⟩
  cases anchor with
  | review =>
    exact ⟨refl_of Rests start, .review, ⟨record, live⟩, fun _ => rfl, rfl⟩
  | file repoId path blobOid =>
    rw [Program.ends_bind]
    refine ends_anchoredBlob.imp ?_ fun _ _ rests => rests
    rintro bytes last ⟨rests, _⟩
    exact ⟨rests, .file, ⟨record, live⟩, fun review => (by cases review), rfl⟩
  | lines repoId path side blobOid range hash =>
    rw [Program.ends_bind]
    refine ends_anchoredBlob.imp ?_ fun _ _ rests => rests
    rintro bytes last ⟨rests, number, repo, answered⟩
    rw [Program.ends_bind, Program.ends_require]
    refine ⟨fun inside => ?_, fun _ => rests⟩
    refine ⟨rests, .lines answered inside, ⟨record, live⟩, fun review => (by cases review), ?_⟩
    cases side <;> rfl

omit [Platform] in
/-- A suggestion is looked up in a live review. -/
theorem ends_suggestion : (suggestion reviewId id).Ends env start
      (fun suggestion last => last = start ∧
        (∃ record, LiveReview start.store.views reviewId record) ∧
        start.store.views.suggestions[(reviewId, id)]? = some suggestion)
      (fun _ last => Rests start last) := by
  unfold suggestion
  rw [Program.ends_bind, ends_review]
  refine ⟨fun record live => ?_, fun _ => refl_of Rests start⟩
  rw [Program.ends_bind, ends_comment]
  refine ⟨fun comment _ => ?_, fun _ => refl_of Rests start⟩
  rw [Program.ends_bind, Program.ends_read, Program.ends_orStop]
  exact ⟨fun suggestion found => ⟨rfl, ⟨record, live⟩, found⟩, fun _ => refl_of Rests start⟩

variable (growth : Extends (Permitted env guarded) origin start)
include growth

theorem advances_addComment {kind : CommentKind} {anchor : Anchor} {body : String}
    {context : Option CommentContext} : Advances env guarded origin
      (addComment ctx reviewId id kind anchor body context) start := by
  refine .read_bind (.require_bind growth fun free => .require_bind growth fun informational =>
    .require_bind growth fun browse => ?_)
  refine .bind_of_ends (ends_validateAnchor.imp (fun _ _ valid => valid) fun _ _ => growth.rests)
    fun stamped last ⟨rests, stamps, live, review, browses⟩ => ?_
  have free : last.store.views.comments[(reviewId, id)]? = none := by
    rw [rests.store]
    exact free
  rw [← rests.store] at live
  refine Advances.append_bind (growth.rests rests) (.of_live ⟨free, .inl ?_⟩ rfl live)
    fun _ _ _ growth => .pure growth
  exact {
    review := live
    thread := rfl
    state := rfl
    informational := fun note => review (informational note)
    browse := fun context => browses.trans (browse context)
    stamped := stamps }

omit growth in
theorem advances_reply (growth : Extends (Permitted env False) origin start)
    {kind : CommentKind} {body : String} :
    Advances env False origin (reply ctx reviewId threadId id kind body) start := by
  refine .read_bind (.require_bind growth fun free => .thread_bind growth fun thread found =>
    .comment_bind growth fun root live => ?_)
  refine .append_bind growth (.unguarded ⟨free, .inr ?_⟩) fun _ _ _ growth => .pure growth
  exact ⟨thread, root, found, live, rfl, rfl, rfl⟩

omit growth in
theorem advances_editComment (growth : Extends (Permitted env False) origin start) {body : String} :
    Advances env False origin (editComment ctx reviewId id body) start := by
  refine .comment_bind growth fun comment live => .require_bind growth fun _ => ?_
  exact .append_bind growth (.unguarded ⟨comment, live⟩) fun _ _ _ growth => .pure growth

omit growth in
theorem advances_deleteComment (growth : Extends (Permitted env False) origin start) :
    Advances env False origin (deleteComment ctx reviewId id) start := by
  refine .comment_bind growth fun comment live => .require_bind growth fun _ => ?_
  exact .append_bind growth (.unguarded ⟨comment, live⟩) fun _ _ _ growth => .pure growth

omit growth in
theorem advances_deferThread (growth : Extends (Permitted env False) origin start)
    {reason : DeferralReason} {trackingUrl : Option TrackingUrl} :
    Advances env False origin (deferThread ctx reviewId threadId reason trackingUrl) start := by
  refine .thread_bind growth fun thread found => ?_
  cases resolution : thread.resolution with
  | opened =>
    exact .append_bind growth (.unguarded ⟨thread, found, resolution⟩)
      fun _ _ _ growth => .pure growth
  | informational => exact .stop_bind growth
  | deferred => exact .stop_bind growth
  | resolved => exact .stop_bind growth

omit growth in
theorem advances_resolveThread (growth : Extends (Permitted env False) origin start) :
    Advances env False origin (resolveThread ctx reviewId threadId) start := by
  refine .thread_bind growth fun thread found => .require_bind growth fun actionable =>
    .require_bind growth fun unresolved => ?_
  exact .append_bind growth (.unguarded ⟨thread, found, actionable, unresolved⟩)
    fun _ _ _ growth => .pure growth

omit growth in
theorem advances_unresolveThread (growth : Extends (Permitted env False) origin start) :
    Advances env False origin (unresolveThread ctx reviewId threadId) start := by
  refine .thread_bind growth fun thread found => .require_bind growth fun actionable =>
    .require_bind growth fun settled => ?_
  exact .append_bind growth (.unguarded ⟨thread, found, actionable, settled⟩)
    fun _ _ _ growth => .pure growth

theorem advances_applySuggestion :
    Advances env guarded origin (applySuggestion ctx reviewId id) start := by
  refine .bind_of_ends (ends_suggestion.imp (fun _ _ found => found) fun _ _ => growth.rests)
    fun suggestion last ⟨same, live, found⟩ => ?_
  rw [same]
  cases outcome : suggestion.outcome with
  | applied receipt => exact Advances.stop_bind growth
  | unapplied =>
    refine Advances.orStop_bind growth ?_
    rintro ⟨repoId, path, blobOid⟩ _
    refine .quiet_bind growth quiet_reviewRepo fun repo _ opened growth => ?_
    refine .quiet_bind growth quiet_outside fun _ _ checked growth => ?_
    refine .quiet_bind growth quiet_outside fun current _ read growth => ?_
    refine .quiet_bind growth quiet_outside fun expected _ compared growth => ?_
    refine .require_bind growth fun _ => ?_
    cases Patch.apply current suggestion.patch with
    | error error => exact .stop_bind growth
    | ok patched =>
      refine .quiet_bind growth quiet_pure fun patched _ kept growth => ?_
      refine .quiet_bind growth quiet_outside fun resultBlob _ hashed growth => ?_
      refine .quiet_bind growth quiet_outside fun metadata _ located growth => ?_
      refine .quiet_bind growth quiet_outside fun _ last replaced growth => ?_
      have same : last.store = start.store := by
        rw [replaced.store, located.store, hashed.store, kept.store, compared.store, read.store,
          checked.store, opened.store]
      rw [← same] at live found
      refine .append_bind growth (.of_live ⟨live, suggestion, found, outcome⟩ rfl live)
        fun _ _ _ growth => .pure growth

end Comments

/-! ## Re-anchoring -/

section Reanchoring

variable {env : Environment} {guarded : Prop} {origin start : Core} {ctx : Ctx}
  {reviewId : ReviewId} {rest : List Comment}

theorem ends_askReanchor {repo : GitRepo} {comment : Comment} {fate : PathFate} :
    (askReanchor repo comment fate).Ends env start
      (fun outcome last => Rests start last ∧ ∃ number, reanchor comment.anchor comment.state fate
        (env.content number repo) (env.content (number + 1) repo) = .ok outcome)
      (fun _ last => Rests start last) := by
  unfold Program.Ends askReanchor
  dsimp only
  split
  · next answered returned =>
    split at returned
    · next outcome computed =>
      cases returned
      exact ⟨⟨rfl, rfl⟩, start.calls, computed⟩
    · cases returned
  · next answered stopped =>
    split at stopped
    · cases stopped
    · cases stopped
      exact ⟨rfl, rfl⟩

/-- What re-anchoring keeps while comments remain: the review is live and the
remaining comments stand in the views as they were read. -/
structure Remaining (reviewId : ReviewId) (rest : List Comment) (core : Core) : Prop where
  live : ∃ record, LiveReview core.store.views reviewId record
  stored : ∀ comment ∈ rest, core.store.views.comments[(reviewId, comment.id)]? = some comment
  distinct : (rest.map Comment.id).Nodup

omit [Platform] in
theorem Remaining.rests {last : Core} (remaining : Remaining reviewId rest start)
    (rests : Rests start last) : Remaining reviewId rest last := by
  obtain ⟨live, stored, distinct⟩ := remaining
  rw [← rests.store] at live stored
  exact ⟨live, stored, distinct⟩

omit [Platform] in
theorem Remaining.tail {comment : Comment}
    (remaining : Remaining reviewId (comment :: rest) start) : Remaining reviewId rest start where
  live := remaining.live
  stored := fun other mem => remaining.stored other (List.mem_cons_of_mem _ mem)
  distinct := (List.nodup_cons.mp remaining.distinct).2

omit [Platform] in
/-- Moving one comment leaves the comments that remain. -/
theorem Remaining.appended {comment : Comment} {anchor : Anchor} {state : CommentState}
    {event : Event} {last : Core} (remaining : Remaining reviewId (comment :: rest) start)
    (consistent : Consistent start.store.views)
    (appended : Appended ctx (.commentReanchored reviewId comment.id anchor state) start event
      last) : Remaining reviewId rest last where
  live := appended.live_kept consistent (by simp) remaining.live
  stored := by
    intro other mem
    rw [(appended.follows consistent).comment, Rows.comment, appended.body_eq]
    have moved : comment.id ≠ other.id := by
      rintro same
      exact (List.nodup_cons.mp remaining.distinct).1 (List.mem_map.mpr ⟨other, mem, same.symm⟩)
    simp only [Rows.changeAt, Prod.mk.injEq, moved, and_false, if_false]
    exact remaining.stored other (List.mem_cons_of_mem _ mem)
  distinct := (List.nodup_cons.mp remaining.distinct).2

omit [Platform] in
/-- Comments on a browsed revision are no subject of re-anchoring. -/
theorem reanchorSubject_browse {new : NonEmpty ResolvedTarget} {comment : Comment}
    {subject : ResolvedTarget × Side × RepoPath}
    (found : reanchorSubject new comment = some subject) : isBrowse comment.context = false := by
  unfold reanchorSubject at found
  split at found
  · cases found
  · next diff => simpa using diff

variable {old new : NonEmpty ResolvedTarget}

/-- At most one event was committed, and it moved the comment. -/
inductive Reanchored (env : Environment) (ctx : Ctx) (reviewId : ReviewId)
    (comment : Comment) (before after : Core) : Prop
  | kept (rests : Rests before after)
  | moved {asked : Core} {event : Event} {anchor : Anchor} {state : CommentState}
      (rests : Rests before asked)
      (moves : Admissible env asked.store.views
        (.commentReanchored reviewId comment.id anchor state))
      (appended : Appended ctx (.commentReanchored reviewId comment.id anchor state) asked event
        after)

theorem ends_reanchorComment {comment : Comment} {progress : FateCache × List CommentId}
    (consistent : Consistent start.store.views)
    (remaining : Remaining reviewId (comment :: rest) start) :
    (reanchorComment ctx reviewId old new progress comment).Ends env start
      (fun _ last => Reanchored env ctx reviewId comment start last)
      (fun _ last => Rests start last) := by
  obtain ⟨cache, moved⟩ := progress
  unfold reanchorComment
  dsimp only
  split
  · exact .kept (refl_of Rests start)
  next target side path subject =>
  rw [Program.ends_bind]
  refine quiet_reviewRepo.ends.imp ?_ fun _ _ rests => rests
  intro repo opened rests
  rw [Program.ends_bind]
  refine quiet_fatesFor.ends.imp ?_ fun _ _ => trans_of Rests rests
  rintro ⟨cache, fates⟩ looked further
  replace rests := trans_of Rests rests further
  rw [Program.ends_bind]
  refine ends_askReanchor.imp ?_ fun _ _ => trans_of Rests rests
  rintro outcome asked ⟨further, number, computed⟩
  replace rests := trans_of Rests rests further
  cases outcome with
  | unchanged => exact .kept rests
  | moved anchor state =>
    have remaining := remaining.rests rests
    have moves : Admissible env asked.store.views
        (.commentReanchored reviewId comment.id anchor state) :=
      ⟨remaining.live, comment, _, number, repo,
        remaining.stored comment List.mem_cons_self, reanchorSubject_browse subject, computed⟩
    rw [← rests.store] at consistent
    rw [Program.ends_bind]
    refine (ends_append consistent moves).imp ?_
      fun _ _ refused => trans_of Rests rests refused.rests
    rintro event last ⟨appended, _⟩
    exact .moved rests moves appended

theorem Reanchored.extends {comment : Comment} {last : Core}
    (reanchored : Reanchored env ctx reviewId comment start last)
    (growth : Extends (Permitted env guarded) origin start)
    (remaining : Remaining reviewId (comment :: rest) start) :
    Extends (Permitted env guarded) origin last ∧ Remaining reviewId rest last := by
  cases reanchored with
  | kept rests => exact ⟨growth.rests rests, remaining.tail.rests rests⟩
  | moved rests moves appended =>
    replace growth := growth.rests rests
    replace remaining := remaining.rests rests
    exact ⟨appended.extends growth (.of_live moves rfl remaining.live),
      remaining.appended growth.consistent appended⟩

omit [Platform] in
/-- The stored comments of a live review all remain before re-anchoring starts. -/
theorem remaining_comments (consistent : Consistent start.store.views)
    (live : ∃ record, LiveReview start.store.views reviewId record) :
    Remaining reviewId (start.store.comments reviewId) start := by
  have held := consistent.comments_held reviewId
  exact ⟨live, fun comment mem => (held.mem_iff comment).mp mem, held.nodup⟩

theorem advances_reanchorReview (growth : Extends (Permitted env guarded) origin start)
    (live : ∃ record, LiveReview start.store.views reviewId record) :
    Advances env guarded origin (reanchorReview ctx reviewId old new) start := by
  refine .read_bind ?_
  constructor
  rw [Program.ends_bind]
  refine (Program.ends_foldEach (fun _ rest last =>
    Extends (Permitted env guarded) origin last ∧ Remaining reviewId rest last)
    ⟨growth, remaining_comments growth.consistent live⟩ ?_).imp (fun _ _ kept => kept.1)
    fun _ _ growth => growth
  rintro progress comment rest state ⟨growth, remaining⟩
  exact (ends_reanchorComment growth.consistent remaining).imp
    (fun _ _ reanchored => reanchored.extends growth remaining) fun _ _ => growth.rests

theorem advances_recordResolvedTargets {record : ReviewRecord} {resolved : NonEmpty ResolvedTarget}
    (growth : Extends (Permitted env guarded) origin start)
    (live : ∃ kept, LiveReview start.store.views record.review.id kept) :
    Advances env guarded origin (recordResolvedTargets ctx record resolved) start := by
  unfold recordResolvedTargets
  split
  · exact .pure growth
  · refine .quiet_bind growth quiet_retainTargets fun _ last rests growth => ?_
    rw [← rests.store] at live
    refine .append_bind growth (.of_live live rfl live) fun event next appended growth' => ?_
    replace live := appended.live_kept growth.consistent (by simp) live
    cases record.resolved with
    | none => exact .pure growth'
    | some old =>
      refine .bind (advances_reanchorReview growth' live) fun _ _ growth => ?_
      exact .pure growth

/-- A stored review is found under its own id. -/
theorem advances_resolveTargets (growth : Extends (Permitted env guarded) origin start) :
    Advances env guarded origin (resolveTargets ctx reviewId) start := by
  refine .review_bind growth fun record live => ?_
  refine .quiet_bind growth quiet_resolveReviewTargets fun resolved last rests growth => ?_
  have own : record.review.id = reviewId := by
    rw [← rests.store] at live
    exact growth.consistent.review live.found
  refine .bind (advances_recordResolvedTargets growth ?_) fun _ _ growth => .pure growth
  rw [own, rests.store]
  exact ⟨record, live⟩

end Reanchoring

/-! ## Reviews -/

section Reviews

variable {env : Environment} {guarded : Prop} {origin start : Core} {ctx : Ctx}
  {reviewId : ReviewId}
variable (growth : Extends (Permitted env guarded) origin start)
include growth

theorem advances_createReview {workspaceId : WorkspaceId} {title : String}
    {targets : NonEmpty ReviewTarget} :
    Advances env guarded origin (createReview ctx reviewId workspaceId title targets) start := by
  unfold createReview
  cases CreateReviewTargets.ofTargets targets with
  | error reason => exact .stop_bind growth
  | ok created =>
    refine .quiet_bind growth quiet_pure fun created _ kept growth => ?_
    refine .workspace_bind growth fun workspace _ => ?_
    refine .read_bind (.require_bind growth fun free => ?_)
    refine .quiet_bind growth (.forEach fun _ _ => quiet_require) fun _ _ members growth => ?_
    refine .quiet_bind growth (.forEach fun _ _ => quiet_resolveTarget)
      fun _ last resolved growth => ?_
    have free : last.store.views.reviews[reviewId]? = none := by
      rw [resolved.store, members.store]
      exact free
    refine .append_bind growth ⟨free, fun _ => ?_⟩ fun _ _ _ growth => ?_
    · rintro id record names found
      obtain rfl := Option.some.inj names
      rw [free] at found
      cases found
    · exact .bind (advances_resolveTargets growth) fun _ _ growth => .pure growth

theorem advances_updateReview {title : String} {status : ReviewStatus} :
    Advances env guarded origin (updateReview ctx reviewId title status) start := by
  refine .review_bind growth fun record live => ?_
  refine .quiet_bind growth quiet_reopenedTargets fun refreshed last rests growth => ?_
  rw [← rests.store] at live
  refine .append_bind growth (.of_live ⟨record, live⟩ rfl ⟨record, live⟩)
    fun event next appended growth' => ?_
  cases refreshed with
  | none => exact .pure growth'
  | some resolved =>
    have kept := appended.live_kept growth.consistent (by simp) ⟨record, live⟩
    rw [← growth.consistent.review live.found] at kept
    exact .bind (advances_recordResolvedTargets growth' kept) fun _ _ growth => .pure growth

omit [Platform] growth in
/-- An edited target replaces a target of its review. -/
theorem ends_editedTarget {record : ReviewRecord} {update : ReviewTargetUpdate} :
    (editedTarget record update).Ends env start (fun target last => Rests start last ∧
        ∃ stored ∈ record.review.targets.items, stored.repoId = target.repoId)
      (fun _ last => Rests start last) := by
  unfold editedTarget
  rw [Program.ends_bind, Program.ends_orStop]
  refine ⟨fun stored found => ?_, fun _ => refl_of Rests start⟩
  have mem : stored ∈ record.review.targets.items := List.mem_of_find?_eq_some found
  have edited : stored.repoId = (editTarget stored update.revision).repoId := by
    cases update.revision <;> rfl
  have quiet : Quiet (do
      let repo ← workspaceRepo record.review.workspaceId (editTarget stored update.revision).repoId
      requireResolvable repo (editTarget stored update.revision).base
      requireResolvable repo (editTarget stored update.revision).head) :=
    quiet_workspaceRepo.bind fun _ => quiet_requireResolvable.bind fun _ => quiet_requireResolvable
  have rests := ((quiet env).ends start).imp (fun _ _ => Peeks.rests) fun _ _ => Peeks.rests
  simp only [Program.ends_bind] at rests ⊢
  refine rests.imp (fun repo opened rests => rests.imp (fun _ based rests => rests.imp ?_ ?_) ?_) ?_
  · exact fun _ last rests => ⟨rests, stored, mem, edited⟩
  · exact fun _ _ rests => rests
  · exact fun _ _ rests => rests
  · exact fun _ _ rests => rests

theorem advances_updateReviewTarget {update : ReviewTargetUpdate} :
    Advances env guarded origin (updateReviewTarget ctx reviewId update) start := by
  refine .review_bind growth fun record live => ?_
  refine .bind_of_ends (ends_editedTarget.imp (fun _ _ edited => edited) fun _ _ => growth.rests)
    fun target last ⟨rests, stored, mem, same⟩ => ?_
  rw [← rests.store] at live
  refine .append_bind (growth.rests rests)
    (.of_live ⟨record, live, stored, mem, same⟩ rfl ⟨record, live⟩) fun _ _ _ growth => ?_
  exact .bind (advances_resolveTargets growth) fun _ _ growth => .pure growth

theorem advances_deleteReview : Advances env guarded origin (deleteReview ctx reviewId) start := by
  refine .review_bind growth fun record live => ?_
  exact .append_bind growth (.of_live ⟨record, live⟩ rfl ⟨record, live⟩)
    fun _ _ _ growth => .pure growth

theorem advances_fetchReview {repoId : Option RepoId} {remote : String} :
    Advances env guarded origin (fetchReview ctx reviewId repoId remote) start := by
  refine .review_bind growth fun record _ => ?_
  refine .quiet_bind growth quiet_fetchedRepo fun repoId _ _ growth => ?_
  refine .quiet_bind growth quiet_reviewRepo fun repo _ _ growth => ?_
  refine .quiet_bind growth quiet_outside fun refs last _ growth => ?_
  refine .bind ?_ fun resolution _ growth => .pure growth
  constructor
  unfold resolveFetched
  rw [Program.ends_bind, Program.ends_attempt]
  refine (advances_resolveTargets growth).ends.imp (fun _ _ growth => growth) ?_
  intro error last growth
  cases error <;> exact growth

variable {repoId : RepoId}

theorem advances_refreshWorkingTreeReview :
    Advances env guarded origin (refreshWorkingTreeReview ctx reviewId repoId) start := by
  refine .review_bind growth fun record _ => ?_
  split
  · exact .bind (advances_resolveTargets growth) fun _ _ growth => .pure growth
  · exact .pure growth

theorem advances_requestReview {agent note : String} :
    Advances env guarded origin (requestReview ctx reviewId agent note) start := by
  refine .require_bind growth fun _ => .review_bind growth fun record live => ?_
  refine .quiet_bind growth quiet_resolveReviewTargets fun targets _ resolved growth => ?_
  refine .quiet_bind growth quiet_retainTargets fun _ last retained growth => ?_
  refine .reviewSnapshot_bind growth fun snapshot _ => ?_
  have same : last.store = start.store := by rw [retained.store, resolved.store]
  rw [← same] at live
  refine .append_bind growth (.of_live ⟨record, live⟩ rfl ⟨record, live⟩)
    fun event next appended growth' => ?_
  have kept := appended.live_kept growth.consistent (by simp) ⟨record, live⟩
  rw [← growth.consistent.review live.found] at kept
  exact .bind (advances_recordResolvedTargets growth' kept) fun _ _ growth => .pure growth

/-- The head content of a file is looked up in a live review. -/
theorem ends_headContent {path : RepoPath} : (headContent reviewId repoId path).Ends env start
      (fun _ last => (∃ record, LiveReview last.store.views reviewId record) ∧
        Extends (Permitted env guarded) origin last)
      (fun _ last => Extends (Permitted env guarded) origin last) := by
  unfold headContent resolved
  simp only [Program.ends_bind, ends_review, Program.ends_orStop, Program.ends_pure]
  refine ⟨fun record live => ⟨fun targets _ => ⟨fun target _ => ?_, fun _ => growth⟩,
    fun _ => growth⟩, fun _ => growth⟩
  refine quiet_reviewRepo.ends.imp ?_ fun _ _ => growth.rests
  intro repo last rests
  rw [ends_outside]
  refine ⟨fun _ _ => ⟨⟨record, ?_⟩, ?_⟩, fun _ _ => ?_⟩
  · rw [← rests.store] at live
    exact live
  · exact growth.rests ⟨rests.store, rests.reported⟩
  · exact growth.rests ⟨rests.store, rests.reported⟩

theorem advances_markViewed {path : RepoPath} :
    Advances env guarded origin (markViewed ctx reviewId repoId path) start := by
  refine .orStop_bind growth fun viewer _ => ?_
  refine .bind_of_ends (ends_headContent growth) fun content last ⟨live, growth⟩ => ?_
  exact .append_bind growth (.of_live live rfl live) fun _ _ _ growth => .pure growth

theorem advances_unmarkViewed {path : RepoPath} :
    Advances env guarded origin (unmarkViewed ctx reviewId repoId path) start := by
  refine .orStop_bind growth fun viewer _ => .review_bind growth fun record live => ?_
  exact .append_bind growth (.of_live ⟨record, live⟩ rfl ⟨record, live⟩)
    fun _ _ _ growth => .pure growth

theorem advances_recordCheckpoint {targets : NonEmpty ResolvedTarget}
    {inReplyTo : Option ReviewRound} :
    Advances env guarded origin (recordCheckpoint ctx reviewId targets inReplyTo) start := by
  refine .reviewSnapshot_bind growth fun snapshot found => ?_
  have live := live_of_reviewSnapshot found
  refine .orStop_bind growth fun reviewer _ => .require_bind growth fun _ =>
    .require_bind growth fun _ => ?_
  refine .quiet_bind growth (.forEach fun _ _ => quiet_validateTarget) fun _ _ valid growth => ?_
  refine .quiet_bind growth quiet_retainTargets fun _ last retained growth => ?_
  have same : last.store = start.store := by rw [retained.store, valid.store]
  rw [← same] at live
  exact .append_bind growth (.of_live live rfl live) fun _ _ _ growth => .pure growth

end Reviews

/-! ## Directories -/

section Directories

variable {env : Environment} {guarded : Prop} {origin start : Core} {ctx : Ctx}
variable (growth : Extends (Permitted env guarded) origin start)
include growth

theorem advances_createDirectoryReview {options : EnsureDirectoryReview} {root : String}
    {located : Option (WorkspaceId × RepoId)} {base headSpec : RefSpec} :
    Advances env guarded origin
      (createDirectoryReview ctx options root located base headSpec) start := by
  refine .read_bind (.require_bind growth fun _ => ?_)
  refine .bind ?_ fun ids last growth => ?_
  · cases located with
    | some ids => exact .pure growth
    | none => exact .bind (advances_createWorkspaceWithRepo growth) fun _ _ growth => .pure growth
  · refine .bind (advances_createReview growth) fun _ _ growth => ?_
    exact .read_bind (.orStop_bind growth fun _ _ => .pure growth)

theorem advances_ensureDirectoryReview {options : EnsureDirectoryReview} :
    Advances env guarded origin (ensureDirectoryReview ctx options) start := by
  refine .quiet_bind growth quiet_directoryPath fun path _ _ growth => ?_
  refine .quiet_bind growth quiet_directoryRoot fun root _ _ growth => ?_
  refine .quiet_bind growth quiet_outsideOrInvalid fun git _ _ growth => ?_
  refine .quiet_bind growth quiet_directoryAttachment fun located _ _ growth => ?_
  refine .quiet_bind growth quiet_requireResolvable fun _ _ _ growth => ?_
  refine .quiet_bind growth quiet_requireRequestedBase fun _ _ _ growth => ?_
  refine .quiet_bind growth quiet_reusableReview fun reused _ _ growth => ?_
  cases reused with
  | some review =>
    refine .bind (advances_resolveTargets growth) fun _ _ growth => ?_
    exact .quiet_bind growth quiet_logPosition fun _ _ _ growth => .pure growth
  | none =>
    refine .quiet_bind growth quiet_chosenBase fun base _ _ growth => ?_
    refine .quiet_bind growth quiet_requireResolvable fun _ _ _ growth => ?_
    exact advances_createDirectoryReview growth

end Directories

end Core

/-! ## Operations and runs -/

/-- Whether a mutation looks at the review it names. The others go straight to a
comment or a thread. -/
def Mutation.guarded : Mutation → Bool
  | .reply .. | .editComment .. | .deleteComment .. | .deferThread .. | .resolveThread ..
  | .unresolveThread .. => false
  | _ => true

def Operation.guarded : Operation → Bool
  | .mutate mutation => Mutation.guarded mutation
  | _ => true

section Running

variable {env : Environment} {core : Core} {ctx : Ctx}

theorem Core.Advances.unguarded {α : Type} {guarded : Prop} (lax : ¬ guarded) {origin : Core}
    {program : CoreM α} (advances : Core.Advances env False origin program core) :
    Core.Advances env guarded origin program core := by
  rw [show guarded = False from eq_false lax]
  exact advances

/-- Mutations append permitted events only. -/
theorem Core.advances_applyMutation (consistent : Consistent core.store.views)
    (mutation : Mutation) :
    Core.Advances env (Mutation.guarded mutation) core (Core.applyMutation ctx mutation) core := by
  have growth {guarded : Prop} : Core.Extends (Permitted env guarded) core core :=
    .refl consistent
  cases mutation with
  | createWorkspace => exact .bind (Core.advances_createWorkspace growth) fun _ _ growth => .pure growth
  | renameWorkspace => exact Core.advances_renameWorkspace growth
  | attachRepo => exact .bind (Core.advances_attachRepo growth) fun _ _ growth => .pure growth
  | detachRepo => exact Core.advances_detachRepo growth
  | createReview => exact .bind (Core.advances_createReview growth) fun _ _ growth => .pure growth
  | updateReview => exact Core.advances_updateReview growth
  | updateReviewTarget => exact Core.advances_updateReviewTarget growth
  | deleteReview => exact Core.advances_deleteReview growth
  | addComment => exact .bind (Core.advances_addComment growth) fun _ _ growth => .pure growth
  | reply =>
    exact .unguarded (by simp [Mutation.guarded])
      (.bind (Core.advances_reply growth) fun _ _ growth => .pure growth)
  | editComment => exact .unguarded (by simp [Mutation.guarded]) (Core.advances_editComment growth)
  | deleteComment => exact .unguarded (by simp [Mutation.guarded]) (Core.advances_deleteComment growth)
  | deferThread => exact .unguarded (by simp [Mutation.guarded]) (Core.advances_deferThread growth)
  | resolveThread => exact .unguarded (by simp [Mutation.guarded]) (Core.advances_resolveThread growth)
  | unresolveThread =>
    exact .unguarded (by simp [Mutation.guarded]) (Core.advances_unresolveThread growth)
  | markViewed => exact .bind (Core.advances_markViewed growth) fun _ _ growth => .pure growth
  | unmarkViewed => exact Core.advances_unmarkViewed growth
  | requestReview => exact .bind (Core.advances_requestReview growth) fun _ _ growth => .pure growth
  | recordCheckpoint =>
    exact .bind (Core.advances_recordCheckpoint growth) fun _ _ growth => .pure growth
  | applySuggestion =>
    exact .bind (Core.advances_applySuggestion growth) fun _ _ growth => .pure growth

/-- Operations append permitted events only. -/
theorem Operation.advances (consistent : Consistent core.store.views) (operation : Operation) :
    Core.Advances env operation.guarded core (operation.perform ctx) core := by
  have growth {guarded : Prop} : Core.Extends (Permitted env guarded) core core :=
    .refl consistent
  cases operation with
  | mutate mutation => exact Core.advances_applyMutation consistent mutation
  | resolveTargets => exact .bind (Core.advances_resolveTargets growth) fun _ _ growth => .pure growth
  | fetchReview => exact .bind (Core.advances_fetchReview growth) fun _ _ growth => .pure growth
  | refreshWorkingTreeReview => exact Core.advances_refreshWorkingTreeReview growth
  | ensureDirectoryReview =>
    exact .bind (Core.advances_ensureDirectoryReview growth) fun _ _ growth => .pure growth

/-- An operation, however it ends, extends the store by permitted events. -/
theorem Operation.extends (consistent : Consistent core.store.views) (operation : Operation) :
    Core.Extends (Permitted env operation.guarded) core (operation.perform ctx env core).2 := by
  have advances : Core.Advances env operation.guarded core (operation.perform ctx) core :=
    operation.advances consistent
  obtain ⟨ends⟩ := advances
  unfold Program.Ends at ends
  rcases run : operation.perform ctx env core with ⟨outcome, last⟩
  rw [run] at ends
  cases outcome with
  | ok value => exact ends
  | error error => exact ends

/-- A step of the daemon extends the store by admissible events. -/
theorem Core.step_extends (consistent : Consistent core.store.views) (step : Step) :
    Core.Extends (Admissible env) core (core.step env step) := by
  cases step with
  | perform ctx operation =>
    have growth : Core.Extends (Permitted env operation.guarded) core
        (operation.perform ctx env core).2 := operation.extends consistent
    exact ⟨growth.grows.mono fun _ _ permitted => permitted.admissible, growth.consistent,
      growth.reported⟩
  | restart => exact (Core.Extends.refl consistent).rests ⟨rfl, rfl⟩

/-- A run of the daemon extends the store by admissible events. -/
theorem Core.run_extends (consistent : Consistent core.store.views) (steps : List Step) :
    Core.Extends (Admissible env) core (core.run env steps) := by
  induction steps generalizing core with
  | nil => exact .refl consistent
  | cons step rest ih =>
    have first : Core.Extends (Admissible env) core (core.step env step) :=
      core.step_extends consistent step
    exact first.trans (ih first.consistent)

theorem Reachable.extends (reachable : Reachable env core) :
    Core.Extends (Admissible env) .initial core := by
  obtain ⟨steps, rfl⟩ := reachable
  exact Core.run_extends .empty steps

/-- The views of a reachable daemon are consistent. -/
theorem Reachable.consistent (reachable : Reachable env core) : Consistent core.store.views :=
  reachable.extends.consistent

/-- The views of a reachable daemon are the fold of its log. -/
theorem Reachable.logged (reachable : Reachable env core) : core.store.Logged :=
  Store.Logged.empty.grows reachable.extends.grows

end Running

end Nits.ReviewCore
