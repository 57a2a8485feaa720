import Nits.ReviewCore.Invariants

/-!
# Deleted reviews

A mutation that looks at its review fails once the review was deleted. The six
comment mutations that go straight to a comment or a thread do not look, and still
append events of a deleted review whenever their own checks pass. A run whose
mutations avoid that appends nothing to a review after its deletion.
-/

namespace Nits.ReviewCore

open Logical Protocol

/-- The log has an event that deletes the review. -/
def Store.Deleted (store : Store) (review : ReviewId) : Prop :=
  ∃ event ∈ store.events, event.body = .reviewDeleted review

/-- What the comment mutations check that do not look at their review: the comment
or thread is there, in a state that admits the change, and the author may make it. -/
def PassesUnguarded (views : Views) (author : Author) : Mutation → Prop
  | .reply reviewId threadId commentId .. =>
    views.comments[(reviewId, commentId)]? = none ∧
      ∃ thread root, views.threads[(reviewId, threadId)]? = some thread ∧
        LiveComment views reviewId thread.root root
  | .editComment reviewId commentId _ | .deleteComment reviewId commentId =>
    ∃ comment, LiveComment views reviewId commentId comment ∧ comment.author = author
  | .deferThread reviewId threadId .. =>
    ∃ thread, views.threads[(reviewId, threadId)]? = some thread ∧ thread.resolution = .opened
  | .resolveThread reviewId threadId =>
    ∃ thread, views.threads[(reviewId, threadId)]? = some thread ∧
      thread.resolution ≠ .informational ∧ Core.isResolved thread.resolution = false
  | .unresolveThread reviewId threadId =>
    ∃ thread, views.threads[(reviewId, threadId)]? = some thread ∧
      thread.resolution ≠ .informational ∧ thread.resolution ≠ .opened
  | _ => False

/-- The mutation passes its own checks without looking at its review, and the
database commits. -/
def SlipsThrough (env : Environment) (core : Core) (ctx : Ctx) (mutation : Mutation) :
    Prop :=
  PassesUnguarded core.store.views ctx.author mutation ∧ env.Commits core.calls

/-- The mutation fails and appends nothing. -/
def Turned [Platform] (env : Environment) (core : Core) (ctx : Ctx)
    (mutation : Mutation) : Prop :=
  (∃ error, (Core.applyMutation ctx mutation env core).1 = .error error) ∧
    (Core.applyMutation ctx mutation env core).2.store = core.store

/-! ## Deletion in the log and in the views -/

section Deleting

variable {views : Views} {store : Store} {review : ReviewId}

/-- The views hold the review as deleted. -/
def Views.Deleted (views : Views) (review : ReviewId) : Prop :=
  ∃ record, views.reviews[review]? = some record ∧ record.lifecycle ≠ .live

theorem Views.Deleted.not_live (deleted : views.Deleted review) (record : ReviewRecord) :
    ¬ LiveReview views review record := by
  rintro ⟨found, live⟩
  obtain ⟨stored, present, ended⟩ := deleted
  rw [found] at present
  exact ended (Option.some.inj present ▸ live)

/-- How an event leaves the deletion of a review. -/
theorem Follows.deleted_iff {event : Event} {before after : Views}
    (follows : Follows event before after)
    (fresh : ∀ created, event.body = .reviewCreated created → before.reviews[created.id]? = none)
    (stored : ∀ id, event.body = .reviewDeleted id → ∃ record, before.reviews[id]? = some record) :
    after.Deleted review ↔ before.Deleted review ∨ event.body = .reviewDeleted review := by
  have changed {key : ReviewId} {change : ReviewRecord → ReviewRecord}
      (kept : ∀ record, (change record).lifecycle = record.lifecycle) :
      (∃ record, Rows.changeAt key review change before.reviews[review]? = some record ∧
        record.lifecycle ≠ .live) ↔ before.Deleted review := by
    unfold Rows.changeAt Views.Deleted
    split
    · simp [kept]
    · exact Iff.rfl
  rw [Views.Deleted, follows.review, Rows.review]
  cases body : event.body with
  | reviewCreated created =>
    rw [or_iff_left (by simp)]
    dsimp only [Rows.storeAt]
    split
    · next same =>
      subst same
      simp [Views.Deleted, fresh created body]
    · exact Iff.rfl
  | reviewUpdated id title status =>
    rw [or_iff_left (by simp)]
    exact changed fun _ => rfl
  | reviewTargetUpdated id target =>
    rw [or_iff_left (by simp)]
    exact changed fun _ => rfl
  | reviewTargetsResolved id targets =>
    rw [or_iff_left (by simp)]
    exact changed fun _ => rfl
  | reviewDeleted id =>
    dsimp only [Rows.changeAt]
    split
    · next same =>
      subst same
      obtain ⟨record, found⟩ := stored id body
      simp [found, Rows.tombstoned]
    · next other =>
      rw [or_iff_left fun same => other (EventBody.reviewDeleted.inj same)]
      exact Iff.rfl
  | _ =>
    rw [or_iff_left (by simp)]
    exact Iff.rfl

end Deleting

/-! ## Programs that stop at once -/

/-- The program fails and leaves the store alone. -/
structure Core.Stops {α : Type} (env : Environment) (core : Core) (program : CoreM α) :
    Prop where
  ends : program.Ends env core (fun _ _ => False) fun _ last => last.store = core.store

namespace Core.Stops

variable {env : Environment} {core : Core} {reviewId : ReviewId} {α β : Type}
  {program : CoreM α} {next : α → CoreM β}

theorem bind (stops : Stops env core program) : Stops env core (program >>= next) := by
  constructor
  rw [Program.ends_bind]
  exact stops.ends.imp (fun _ _ never => never.elim) fun _ _ same => same

theorem read_bind {view : Core → α} (stops : Stops env core (next (view core))) :
    Stops env core (Program.read view >>= next) :=
  ⟨stops.ends⟩

theorem require_bind {condition : Prop} [Decidable condition] {error : CoreError}
    {next : Unit → CoreM β} (stops : condition → Stops env core (next ())) :
    Stops env core (Program.require condition error >>= next) := by
  constructor
  rw [Program.ends_bind, Program.ends_require]
  exact ⟨fun holds => (stops holds).ends, fun _ => rfl⟩

theorem orStop_bind {value : Option α} {error : CoreError}
    (stops : ∀ found, Stops env core (next found)) :
    Stops env core (Program.orStop error value >>= next) := by
  constructor
  rw [Program.ends_bind, Program.ends_orStop]
  exact ⟨fun found _ => (stops found).ends, fun _ => rfl⟩

theorem workspace_bind {id : WorkspaceId} {next : Workspace → CoreM β}
    (stops : ∀ workspace, Stops env core (next workspace)) :
    Stops env core (Core.workspace id >>= next) := by
  constructor
  rw [Program.ends_bind, ends_workspace]
  exact ⟨fun workspace _ => (stops workspace).ends, fun _ => rfl⟩

theorem review (deleted : core.store.views.Deleted reviewId) :
    Stops env core (Core.review reviewId) :=
  ⟨ends_review.mpr ⟨fun record live => deleted.not_live record live, fun _ => rfl⟩⟩

theorem reviewSnapshot (deleted : core.store.views.Deleted reviewId) :
    Stops env core (Core.reviewSnapshot reviewId) := by
  refine ⟨ends_reviewSnapshot.mpr ⟨fun snapshot taken => ?_, fun _ => rfl⟩⟩
  obtain ⟨record, live⟩ := live_of_reviewSnapshot taken
  exact deleted.not_live record live

end Core.Stops

/-! ## Mutations of a deleted review -/

section Closing

variable [Platform] {env : Environment} {core : Core} {ctx : Ctx} {review : ReviewId}

/-- A grown store deleted a review in its log exactly when its views hold it so. -/
theorem Store.Grows.deleted_iff {store : Store} (grows : Grows (Admissible env) .empty store) :
    store.Deleted review ↔ store.views.Deleted review := by
  refine grows.keeps_consistent (fun store => store.Deleted review ↔ store.views.Deleted review)
    ?_ .empty ?_
  · intro before after event consistent same gains
    have follows := Views.follows_of_apply consistent.toKeyed gains.applied
    have log : after.Deleted review ↔
        before.Deleted review ∨ event.body = .reviewDeleted review := by
      simp only [Store.Deleted, gains.events, List.mem_append, List.mem_singleton, or_and_right,
        exists_or, exists_eq_left]
    rw [log, same, follows.deleted_iff]
    · intro created body
      have admissible := gains.allowed
      rw [body] at admissible
      exact admissible
    · intro id body
      have admissible := gains.allowed
      rw [body] at admissible
      obtain ⟨record, found, _⟩ := admissible
      exact ⟨record, found⟩
  · simp [Store.Deleted, Views.Deleted, Store.empty, Views.empty]

/-- A mutation that looks at its review stops once the review was deleted. -/
theorem Core.stops_guarded (deleted : core.store.views.Deleted review) {mutation : Mutation}
    (names : mutation.reviewId = some review) (guarded : Mutation.guarded mutation) :
    Stops env core (applyMutation ctx mutation) := by
  cases mutation with
  | createWorkspace | renameWorkspace | attachRepo | detachRepo => cases names
  | reply | editComment | deleteComment | deferThread | resolveThread | unresolveThread =>
    cases guarded
  | updateReview | updateReviewTarget | deleteReview =>
    cases names
    exact (Stops.review deleted).bind
  | createReview id workspaceId title targets =>
    cases names
    refine Stops.bind ?_
    unfold createReview
    cases CreateReviewTargets.ofTargets targets with
    | error reason => exact Stops.bind ⟨rfl⟩
    | ok created =>
      refine .workspace_bind fun workspace => .read_bind (.require_bind fun free => ?_)
      obtain ⟨record, found, _⟩ := deleted
      rw [Store.review, found] at free
      cases free
  | addComment =>
    cases names
    refine Stops.bind (.read_bind (.require_bind fun _ => .require_bind fun _ =>
      .require_bind fun _ => ?_))
    exact Stops.bind (Stops.review deleted).bind
  | markViewed =>
    cases names
    refine Stops.bind (.orStop_bind fun viewer => ?_)
    exact (Stops.review deleted).bind.bind.bind
  | unmarkViewed =>
    cases names
    exact .orStop_bind fun viewer => (Stops.review deleted).bind
  | requestReview =>
    cases names
    exact Stops.bind (.require_bind fun _ => (Stops.review deleted).bind)
  | recordCheckpoint =>
    cases names
    exact (Stops.reviewSnapshot deleted).bind.bind
  | applySuggestion =>
    cases names
    exact (Stops.review deleted).bind.bind.bind

/-- The state after a mutation that appended one event naming its review. -/
def Core.AppendsOne (env : Environment) (ctx : Ctx) (mutation : Mutation)
    (before after : Core) : Prop :=
  ∃ body event, body.reviewId = mutation.reviewId ∧
    Admissible env before.store.views body ∧ Appended ctx body before event after

section Unguarded

variable {mutation : Mutation} {body : EventBody}

/-- How a mutation ends that does not look at its review: it appends one event if it
slips through, and otherwise fails and appends nothing. -/
structure Core.EndsUnguarded {α : Type} (env : Environment) (ctx : Ctx)
    (mutation : Mutation) (core : Core) (program : CoreM α) : Prop where
  ends : program.Ends env core
    (fun _ last => SlipsThrough env core ctx mutation ∧
      AppendsOne env ctx mutation core last)
    (fun _ last => ¬ SlipsThrough env core ctx mutation ∧ last.store = core.store)

namespace Core.EndsUnguarded

variable {next : Unit → CoreM Unit}

/-- After its lookups passed, the mutation is one append. -/
theorem appends (consistent : Consistent core.store.views)
    (passes : PassesUnguarded core.store.views ctx.author mutation)
    (names : body.reviewId = mutation.reviewId)
    (admissible : Admissible env core.store.views body) :
    EndsUnguarded env ctx mutation core
      (do let _ ← append ctx body : CoreM Unit) := by
  constructor
  rw [Program.ends_bind]
  refine (ends_append consistent admissible).imp ?_ ?_
  · rintro event last ⟨appended, commits⟩
    exact ⟨⟨passes, commits⟩, body, event, names, admissible, appended⟩
  · rintro error last refused
    exact ⟨fun slips => refused.denied slips.2, refused.rests.store⟩

theorem stop_bind {error : CoreError}
    (fails : ¬ PassesUnguarded core.store.views ctx.author mutation) :
    EndsUnguarded env ctx mutation core ((Program.stop error : CoreM Unit) >>= next) := by
  constructor
  rw [Program.ends_bind]
  exact ⟨fun slips => fails slips.1, rfl⟩

/-- A check that passing mutations meet. -/
theorem require_bind {condition : Prop} [Decidable condition] {error : CoreError}
    (needs : PassesUnguarded core.store.views ctx.author mutation → condition)
    (then_ : condition → EndsUnguarded env ctx mutation core (next ())) :
    EndsUnguarded env ctx mutation core (Program.require condition error >>= next) := by
  constructor
  rw [Program.ends_bind, Program.ends_require]
  exact ⟨fun holds => (then_ holds).ends, fun fails => ⟨fun slips => fails (needs slips.1), rfl⟩⟩

/-- A comment that passing mutations find, and what they need of it. -/
theorem comment_bind {reviewId : ReviewId} {id : CommentId} {fits : Comment → Prop}
    {next : Comment → CoreM Unit} (needs : PassesUnguarded core.store.views ctx.author mutation →
      ∃ comment, LiveComment core.store.views reviewId id comment ∧ fits comment)
    (then_ : ∀ comment, LiveComment core.store.views reviewId id comment →
      (PassesUnguarded core.store.views ctx.author mutation → fits comment) →
        EndsUnguarded env ctx mutation core (next comment)) :
    EndsUnguarded env ctx mutation core (comment reviewId id >>= next) := by
  constructor
  rw [Program.ends_bind, ends_comment]
  refine ⟨fun comment live => (then_ comment live fun passes => ?_).ends,
    fun gone => ⟨fun slips => ?_, rfl⟩⟩
  · obtain ⟨other, again, fitting⟩ := needs passes
    exact live.eq again ▸ fitting
  · obtain ⟨comment, live, _⟩ := needs slips.1
    exact gone comment live

/-- A thread that passing mutations find, and what they need of it. -/
theorem thread_bind (consistent : Consistent core.store.views) {reviewId : ReviewId}
    {id : ThreadId} {fits : Thread → Prop} {next : Thread → CoreM Unit}
    (needs : PassesUnguarded core.store.views ctx.author mutation →
      ∃ thread, core.store.views.threads[(reviewId, id)]? = some thread ∧ fits thread)
    (then_ : ∀ thread, core.store.views.threads[(reviewId, id)]? = some thread →
      (PassesUnguarded core.store.views ctx.author mutation → fits thread) →
        EndsUnguarded env ctx mutation core (next thread)) :
    EndsUnguarded env ctx mutation core (thread reviewId id >>= next) := by
  constructor
  rw [Program.ends_bind, ends_thread consistent.toKeyed]
  refine ⟨fun thread found => (then_ thread found fun passes => ?_).ends,
    fun absent => ⟨fun slips => ?_, rfl⟩⟩
  · obtain ⟨other, again, fitting⟩ := needs passes
    obtain rfl := Option.some.inj (found.symm.trans again)
    exact fitting
  · obtain ⟨thread, found, _⟩ := needs slips.1
    rw [absent] at found
    cases found

end Core.EndsUnguarded

/-- Every mutation that does not look at its review ends so. -/
theorem Core.endsUnguarded (consistent : Consistent core.store.views)
    (lax : Mutation.guarded mutation = false) :
    EndsUnguarded env ctx mutation core (applyMutation ctx mutation) := by
  cases mutation with
  | reply reviewId threadId commentId kind text =>
    constructor
    unfold applyMutation reply
    simp only [Program.ends_bind, Program.ends_read, Program.ends_require, Program.ends_pure,
      ends_thread consistent.toKeyed, ends_comment, and_true]
    refine ⟨fun free => ⟨fun thread found => ⟨fun root live => ?_, fun gone => ?_⟩,
      fun absent => ?_⟩, fun taken => ?_⟩
    · have admissible : Admissible env core.store.views (.commentCreated {
          id := commentId, reviewId, threadId, author := ctx.author, kind, anchor := root.anchor,
          body := text, created := ctx.now, edited := none, state := root.state,
          context := root.context }) :=
        ⟨free, .inr ⟨thread, root, found, live, rfl, rfl, rfl⟩⟩
      have appends : EndsUnguarded env ctx (.reply reviewId threadId commentId kind text)
          core _ :=
        EndsUnguarded.appends consistent ⟨free, thread, root, found, live⟩ rfl admissible
      have ends := appends.ends
      rwa [Program.ends_bind] at ends
    · rintro ⟨⟨_, other, root, again, live⟩, _⟩
      obtain rfl := Option.some.inj (found.symm.trans again)
      exact gone root live
    · rintro ⟨⟨_, thread, _, found, _⟩, _⟩
      rw [absent] at found
      cases found
    · rintro ⟨⟨free, _⟩, _⟩
      exact taken free
  | editComment reviewId commentId text =>
    refine .comment_bind id fun comment live author => ?_
    refine .require_bind author fun own => ?_
    exact .appends consistent ⟨comment, live, own⟩ rfl ⟨comment, live⟩
  | deleteComment reviewId commentId =>
    refine .comment_bind id fun comment live author => ?_
    refine .require_bind author fun own => ?_
    exact .appends consistent ⟨comment, live, own⟩ rfl ⟨comment, live⟩
  | deferThread reviewId threadId reason trackingUrl =>
    refine .thread_bind consistent id fun thread found open_ => ?_
    have settled (resolution : thread.resolution ≠ .opened) : ¬ PassesUnguarded core.store.views
        ctx.author (.deferThread reviewId threadId reason trackingUrl) :=
      fun passes => resolution (open_ passes)
    cases resolution : thread.resolution with
    | opened =>
      exact .appends consistent ⟨thread, found, resolution⟩ rfl ⟨thread, found, resolution⟩
    | informational => exact .stop_bind (settled (by simp [resolution]))
    | deferred => exact .stop_bind (settled (by simp [resolution]))
    | resolved => exact .stop_bind (settled (by simp [resolution]))
  | resolveThread reviewId threadId =>
    refine .thread_bind consistent id fun thread found resolves => ?_
    refine .require_bind (fun passes => (resolves passes).1) fun actionable => ?_
    refine .require_bind (fun passes => (resolves passes).2) fun unresolved => ?_
    exact .appends consistent ⟨thread, found, actionable, unresolved⟩ rfl
      ⟨thread, found, actionable, unresolved⟩
  | unresolveThread reviewId threadId =>
    refine .thread_bind consistent id fun thread found reopens => ?_
    refine .require_bind (fun passes => (reopens passes).1) fun actionable => ?_
    refine .require_bind (fun passes => (reopens passes).2) fun settled => ?_
    exact .appends consistent ⟨thread, found, actionable, settled⟩ rfl
      ⟨thread, found, actionable, settled⟩
  | _ => cases lax

omit [Platform] in
theorem PassesUnguarded.lax {views : Views} {author : Author}
    (passes : PassesUnguarded views author mutation) : Mutation.guarded mutation = false := by
  cases mutation with
  | reply | editComment | deleteComment | deferThread | resolveThread | unresolveThread => rfl
  | _ => cases passes

theorem Core.Stops.turned (stops : Core.Stops env core (Core.applyMutation ctx mutation)) :
    Turned env core ctx mutation := by
  have ends := stops.ends
  unfold Program.Ends at ends
  unfold Turned
  rcases run : Core.applyMutation ctx mutation env core with ⟨outcome, last⟩
  rw [run] at ends
  cases outcome with
  | ok value => exact ends.elim
  | error error => exact ⟨⟨error, rfl⟩, ends⟩

/-- A mutation that does not look at its review either slips through and appends one
event, or is turned away. -/
theorem Core.slips_or_turned (consistent : Consistent core.store.views)
    (lax : Mutation.guarded mutation = false) :
    (SlipsThrough env core ctx mutation ∧ AppendsOne env ctx mutation core
        (applyMutation ctx mutation env core).2) ∨
      (¬ SlipsThrough env core ctx mutation ∧ Turned env core ctx mutation) := by
  have ends := (endsUnguarded consistent lax : EndsUnguarded env ctx mutation core _).ends
  unfold Program.Ends at ends
  unfold Turned
  rcases run : applyMutation ctx mutation env core with ⟨outcome, last⟩
  rw [run] at ends
  cases outcome with
  | ok value => exact .inl ends
  | error error => exact .inr ⟨ends.1, ⟨error, rfl⟩, ends.2⟩

/-- A mutation of a deleted review is turned away unless it slips through. -/
theorem Core.turned_iff (grows : Store.Grows (Admissible env) .empty core.store)
    (names : mutation.reviewId = some review) (deleted : core.store.Deleted review) :
    Turned env core ctx mutation ↔ ¬ SlipsThrough env core ctx mutation := by
  cases guard : Mutation.guarded mutation with
  | true =>
    have turned := (stops_guarded (grows.deleted_iff.mp deleted) names guard :
      Stops env core (applyMutation ctx mutation)).turned
    refine iff_of_true turned fun slips => ?_
    exact Bool.false_ne_true (slips.1.lax.symm.trans guard)
  | false =>
    rcases slips_or_turned (grows.consistent .empty) guard with ⟨slips, appends⟩ | ⟨fails, turned⟩
    · obtain ⟨body, event, _, admissible, appended⟩ := appends
      refine iff_of_false ?_ (not_not_intro slips)
      rintro ⟨_, same⟩
      have log := (appended.gains admissible).events
      rw [same] at log
      exact List.cons_ne_nil _ _ (List.self_eq_append_right.mp log)
    · exact iff_of_true turned fails

end Unguarded

/-! ## Runs -/

/-- No event of a review follows its deletion. -/
def ClosesReviews (events : List Event) : Prop :=
  events.Pairwise fun earlier later =>
    ∀ review, earlier.body = .reviewDeleted review → later.body.reviewId ≠ some review

/-- The step performs no mutation of a deleted review that slips through. -/
def Step.Heeds (env : Environment) (core : Core) : Step → Prop
  | .perform ctx (.mutate mutation) => ∀ review, mutation.reviewId = some review →
      core.store.Deleted review → ¬ SlipsThrough env core ctx mutation
  | _ => True

omit [Platform] in
theorem Store.Gains.closesReviews_iff {allowed : Allowed} {before after : Store} {event : Event}
    (gains : before.Gains allowed event after) : ClosesReviews after.events ↔
      ClosesReviews before.events ∧
        ∀ review, before.Deleted review → event.body.reviewId ≠ some review := by
  unfold ClosesReviews
  rw [gains.events, List.pairwise_append]
  simp only [List.pairwise_singleton, true_and, List.mem_singleton, forall_eq, Store.Deleted]
  refine and_congr_right fun _ => ?_
  constructor
  · rintro apart review ⟨earlier, mem, deletes⟩
    exact apart earlier mem review deletes
  · rintro apart earlier mem review deletes
    exact apart review ⟨earlier, mem, deletes⟩

/-- Events that are permitted under the guard keep the log closed. -/
theorem Core.Extends.closesReviews {after : Core}
    (grows : Store.Grows (Admissible env) .empty core.store)
    (extends_ : Core.Extends (Permitted env True) core after)
    (closes : ClosesReviews core.store.events) : ClosesReviews after.store.events := by
  refine (extends_.grows.keeps (fun store => Store.Grows (Admissible env) .empty store ∧
    ClosesReviews store.events) ?_ ⟨grows, closes⟩).2
  rintro before after event ⟨grows, closes⟩ gains
  refine ⟨grows.trans (gains.grows.mono fun _ _ permitted => permitted.admissible),
    gains.closesReviews_iff.mpr ⟨closes, fun review deleted names => ?_⟩⟩
  obtain ⟨record, found, ended⟩ := grows.deleted_iff.mp deleted
  exact ended (gains.allowed.undeleted trivial names found)

/-- A step that looks at the reviews it names keeps a closed log closed. -/
theorem Core.guarded_closesReviews_iff
    (grows : Store.Grows (Admissible env) .empty core.store) {operation : Operation}
    (guard : operation.guarded = true) :
    ClosesReviews (operation.perform ctx env core).2.store.events ↔
      ClosesReviews core.store.events := by
  have extends_ : Core.Extends (Permitted env operation.guarded) core
      (operation.perform ctx env core).2 :=
    operation.extends (grows.consistent .empty)
  simp only [guard] at extends_
  constructor
  · intro closes
    obtain ⟨suffix, log⟩ := extends_.grows.events
    rw [ClosesReviews, log] at closes
    exact (List.pairwise_append.mp closes).1
  · exact extends_.closesReviews grows

/-- A step keeps a closed log closed exactly when it heeds the deletions. -/
theorem Core.step_closesReviews_iff
    (grows : Store.Grows (Admissible env) .empty core.store) (step : Step) :
    ClosesReviews (core.step env step).store.events ↔
      ClosesReviews core.store.events ∧ step.Heeds env core := by
  cases step with
  | restart => exact (and_iff_left trivial).symm
  | perform ctx operation =>
    cases guard : operation.guarded with
    | true =>
      have heeds : (Step.perform ctx operation).Heeds env core := by
        cases operation with
        | mutate mutation =>
          intro review _ _ slips
          exact Bool.false_ne_true (slips.1.lax.symm.trans guard)
        | _ => exact trivial
      rw [and_iff_left heeds]
      exact guarded_closesReviews_iff grows guard
    | false =>
      cases operation with
      | mutate mutation =>
        rcases (slips_or_turned (grows.consistent .empty) guard :
            (SlipsThrough env core ctx mutation ∧ _) ∨ _) with ⟨slips, body, event, names, admissible, appended⟩ | ⟨fails, turned⟩
        · change ClosesReviews (applyMutation ctx mutation env core).2.store.events ↔ _
          rw [(appended.gains admissible).closesReviews_iff, appended.body_eq, names]
          refine and_congr_right fun _ => forall_congr' fun review => ?_
          simp only [slips, not_true_eq_false, imp_false]
          tauto
        · have heeds : (Step.perform ctx (.mutate mutation)).Heeds env core :=
            fun _ _ _ => fails
          rw [and_iff_left heeds]
          exact iff_of_eq (congrArg (fun store => ClosesReviews store.events) turned.2)
      | _ => cases guard

/-- A run keeps its log closed exactly when each of its steps heeds the deletions. -/
theorem Core.run_closesReviews_iff
    (grows : Store.Grows (Admissible env) .empty core.store) (steps : List Step) :
    ClosesReviews (core.run env steps).store.events ↔
      ClosesReviews core.store.events ∧ ∀ first step rest, steps = first ++ step :: rest →
        step.Heeds env (core.run env first) := by
  induction steps generalizing core with
  | nil => simp [Core.run]
  | cons head tail ih =>
    have advanced : Store.Grows (Admissible env) .empty
        (core.step env head).store :=
      grows.trans (core.step_extends (grows.consistent .empty) head).grows
    change ClosesReviews ((core.step env head).run env tail).store.events ↔ _
    rw [ih advanced, step_closesReviews_iff grows, and_assoc]
    refine and_congr_right fun _ => ?_
    simp only [List.cons_eq_append_iff]
    constructor
    · rintro ⟨heeds, later⟩ first step rest (⟨rfl, same⟩ | ⟨first, rfl, same⟩)
      · cases same
        exact heeds
      · exact later first step rest same
    · intro all
      refine ⟨all [] head tail (.inl ⟨rfl, rfl⟩), fun first step rest same => ?_⟩
      exact all (head :: first) step rest (.inr ⟨first, rfl, same⟩)

/-- In every state of a run, a mutation of a deleted review is turned away unless it
slips through, and no event follows the deletion of its review exactly when no
mutation of the run slipped through. -/
theorem run_closed_iff (env : Environment) (steps : List Step) :
    (∀ ctx mutation review, mutation.reviewId = some review →
        (Core.run env .initial steps).store.Deleted review →
        (Turned env (Core.run env .initial steps) ctx mutation ↔
          ¬ SlipsThrough env (Core.run env .initial steps) ctx mutation)) ∧
      (ClosesReviews (Core.run env .initial steps).store.events ↔
        ∀ first step rest, steps = first ++ step :: rest →
          step.Heeds env (Core.run env .initial first)) := by
  constructor
  · intro ctx mutation review names deleted
    exact Core.turned_iff (reachable_run env steps).extends.grows names deleted
  · have start : Store.Grows (Admissible env) .empty Core.initial.store := .refl
    rw [Core.run_closesReviews_iff start]
    exact and_iff_right .nil

end Closing

/-! ### A reply to a deleted review -/

/-- A session whose comment outlives its review. -/
def outlived : List Step :=
  Session.opening ++ [
    Session.mutate (.addComment Session.reviewId ⟨5⟩ .note .review "first" none),
    Session.mutate (.deleteReview Session.reviewId)]

/-- After the review was deleted its thread still takes a reply. -/
theorem outlived_not_closed :
    (@Core.run .plain .calm .initial outlived).store.Deleted Session.reviewId ∧
      ¬ @Turned .plain .calm (@Core.run .plain .calm .initial outlived) (Session.by_ Session.user)
        (.reply Session.reviewId ⟨5⟩ ⟨6⟩ .note "later") ∧
      ¬ ClosesReviews (@Core.run .plain .calm .initial (outlived ++ [Session.mutate
        (.reply Session.reviewId ⟨5⟩ ⟨6⟩ .note "later")])).store.events := by
  refine ⟨⟨⟨6, 0, Session.user, ⟨0⟩, 0, .reviewDeleted Session.reviewId⟩, ?_, rfl⟩, ?_, ?_⟩
  · decide +kernel
  · rintro ⟨_, same⟩
    have grown := congrArg (fun store => store.events.length) same
    revert grown
    decide +kernel
  · intro closes
    have apart := List.pairwise_iff_getElem.mp closes 5 6 (by decide +kernel) (by decide +kernel)
      (by decide) Session.reviewId (by decide +kernel)
    exact apart (by decide +kernel)

end Nits.ReviewCore
