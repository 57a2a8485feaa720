import Nits.ReviewCore.Invariants

/-!
# Interrupted re-anchoring

A resolution commits the new targets before it re-anchors the comments of the review
one by one. When it stops in between, later resolutions of the same targets find
nothing to do, and the comments it did not come to stay where they were.
-/

namespace Nits.ReviewCore

open Logical Protocol

/-! ## The log of a resolution -/

/-- The comment of a review that an event re-anchors. -/
def reanchoredIn (review : ReviewId) (event : Event) : Option CommentId :=
  match event.body with
  | .commentReanchored owner comment .. => if owner = review then some comment else none
  | _ => none

/-- Events that re-anchor comments of one review, each comment at most once. -/
structure ReanchorsOnce (review : ReviewId) (events : List Event) : Prop where
  only : ∀ event ∈ events, ∃ comment, reanchoredIn review event = some comment
  once : (events.filterMap (reanchoredIn review)).Nodup

/-- The review is live and these are its recorded targets. -/
def Store.Recorded (store : Store) (review : ReviewId) (targets : NonEmpty ResolvedTarget) : Prop :=
  ∃ record, LiveReview store.views review record ∧ record.resolved = some targets

theorem Store.recorded_iff {store : Store} {review : ReviewId} {targets : NonEmpty ResolvedTarget} :
    store.Recorded review targets ↔
      store.views.reviews[review]?.map (fun record => (record.lifecycle, record.resolved)) =
        some (.live, some targets) := by
  simp only [Option.map_eq_some_iff, Prod.mk.injEq]
  constructor
  · rintro ⟨record, ⟨found, live⟩, resolved⟩
    exact ⟨record, found, live, resolved⟩
  · rintro ⟨record, found, live, resolved⟩
    exact ⟨record, ⟨found, live⟩, resolved⟩

instance {store : Store} {review : ReviewId} {targets : NonEmpty ResolvedTarget} :
    Decidable (store.Recorded review targets) :=
  decidable_of_iff _ Store.recorded_iff.symm

section Logs

variable {review : ReviewId} {event : Event} {events rest : List Event}

theorem reanchoredIn_eq_some {comment : CommentId} : reanchoredIn review event = some comment ↔
    ∃ anchor state, event.body = .commentReanchored review comment anchor state := by
  unfold reanchoredIn
  split
  · next owner id anchor state body =>
    simp only [Option.ite_none_right_eq_some, Option.some.injEq, body,
      EventBody.commentReanchored.injEq]
    constructor
    · rintro ⟨rfl, rfl⟩
      exact ⟨anchor, state, rfl, rfl, rfl, rfl⟩
    · rintro ⟨_, _, rfl, rfl, _, _⟩
      exact ⟨rfl, rfl⟩
  · next other =>
    simp only [reduceCtorEq, false_iff, not_exists]
    exact fun anchor state => other review comment anchor state

theorem ReanchorsOnce.nil : ReanchorsOnce review [] := ⟨by simp, by simp⟩

theorem ReanchorsOnce.concat {comment : CommentId} (events_ : ReanchorsOnce review events)
    (moved : reanchoredIn review event = some comment)
    (fresh : comment ∉ events.filterMap (reanchoredIn review)) :
    ReanchorsOnce review (events ++ [event]) where
  only := by
    intro other mem
    rcases List.mem_append.mp mem with earlier | last
    · exact events_.only other earlier
    · obtain rfl := List.mem_singleton.mp last
      exact ⟨comment, moved⟩
  once := by
    rw [List.filterMap_append, List.filterMap_cons_some moved, List.filterMap_nil]
    exact events_.once.append (List.nodup_singleton comment) (by simpa using fresh)

theorem ReanchorsOnce.suffix (both : ReanchorsOnce review (events ++ rest)) :
    ReanchorsOnce review rest where
  only := fun event mem => both.only event (List.mem_append_right _ mem)
  once := by
    have once := both.once
    rw [List.filterMap_append] at once
    exact (List.nodup_append.mp once).2.1

end Logs

section Platform

variable [Platform]

section Resolving

variable {env : Environment} {core start last : Core} {ctx : Ctx} {review : ReviewId}

/-- Re-anchoring while some comments remain: the log gained moves of other comments,
and the review is as it was. -/
structure Core.Reanchoring (review : ReviewId) (rest : List Comment) (before after : Core) :
    Prop where
  log : ∃ events, after.store.events = before.store.events ++ events ∧
    ReanchorsOnce review events ∧
      ∀ comment ∈ rest, comment.id ∉ events.filterMap (reanchoredIn review)
  kept : after.store.views.reviews[review]? = before.store.views.reviews[review]?

theorem Core.Reanchoring.step {comment : Comment} {rest : List Comment} {state : Core}
    (reanchoring : Reanchoring review (comment :: rest) start state)
    (consistent : Consistent state.store.views)
    (distinct : ((comment :: rest).map Comment.id).Nodup)
    (reanchored : Reanchored env ctx review comment state last) :
    Reanchoring review rest start last := by
  obtain ⟨⟨events, log, once, fresh⟩, kept⟩ := reanchoring
  cases reanchored with
  | kept rests =>
    refine ⟨⟨events, by rw [rests.store, log], once, fun other mem => ?_⟩, ?_⟩
    · exact fresh other (List.mem_cons_of_mem _ mem)
    · rw [rests.store, kept]
  | moved rests moves appended =>
    next asked event anchor state' =>
    rw [← rests.store] at log kept consistent
    have moved : reanchoredIn review event = some comment.id :=
      reanchoredIn_eq_some.mpr ⟨anchor, state', appended.body_eq⟩
    refine ⟨⟨events ++ [event], ?_, once.concat moved (fresh comment List.mem_cons_self), ?_⟩, ?_⟩
    · rw [(appended.gains moves).events, log, List.append_assoc]
    · intro other mem
      rw [List.filterMap_append, List.filterMap_cons_some moved, List.filterMap_nil]
      intro again
      rcases List.mem_append.mp again with earlier | last
      · exact fresh other (List.mem_cons_of_mem _ mem) earlier
      · have same : other.id = comment.id := List.mem_singleton.mp last
        exact (List.nodup_cons.mp distinct).1 (List.mem_map.mpr ⟨other, mem, same⟩)
    · rw [(appended.follows consistent).review, Rows.review, appended.body_eq, ← kept]

theorem Core.ends_reanchorReview {old new : NonEmpty ResolvedTarget}
    (consistent : Consistent start.store.views)
    (live : ∃ record, LiveReview start.store.views review record) :
    (reanchorReview ctx review old new).Ends env start
      (fun _ last => Reanchoring review [] start last)
      (fun _ last => Reanchoring review [] start last) := by
  have growth : Extends (Permitted env False) start start := .refl consistent
  have none : Reanchoring review (start.store.comments review) start start :=
    ⟨⟨[], by simp, .nil, by simp⟩, rfl⟩
  unfold reanchorReview
  rw [Program.ends_bind, Program.ends_read, Program.ends_bind]
  refine (Program.ends_foldEach (fun _ rest last =>
    Extends (Permitted env False) start last ∧ Remaining review rest last ∧
      Reanchoring review rest start last)
    ⟨growth, remaining_comments consistent live, none⟩ ?_).imp (fun _ _ kept => kept.2.2)
    fun _ _ stopped => stopped
  rintro progress comment rest state ⟨growth, remaining, reanchoring⟩
  refine (ends_reanchorComment growth.consistent remaining).imp ?_ ?_
  · intro _ last reanchored
    obtain ⟨growth', remaining'⟩ := reanchored.extends growth remaining
    exact ⟨growth', remaining',
      reanchoring.step growth.consistent remaining.distinct reanchored⟩
  · rintro _ last rests
    obtain ⟨events, log, once, _⟩ := reanchoring.log
    exact ⟨⟨events, by rw [rests.store, log], once, by simp⟩, by rw [rests.store, reanchoring.kept]⟩

/-- What a resolution leaves behind, however it ends: nothing new, or other recorded
targets and then moves of the review's comments. -/
inductive Core.Resolution (review : ReviewId) (before after : Core) : Prop
  | rests (rests : Rests before after)
  | records {event : Event} {events : List Event} {targets : NonEmpty ResolvedTarget}
      (other : ¬ before.store.Recorded review targets)
      (log : after.store.events = before.store.events ++ event :: events)
      (body : event.body = .reviewTargetsResolved review targets)
      (moves : ReanchorsOnce review events)
      (recorded : after.store.Recorded review targets)

/-- How a resolution ends; one that returns has the targets it returns recorded. -/
theorem Core.ends_resolveTargets (consistent : Consistent start.store.views) :
    (resolveTargets ctx review).Ends env start
      (fun returned last => Resolution review start last ∧ last.store.Recorded review returned.1)
      (fun _ last => Resolution review start last) := by
  unfold resolveTargets
  rw [Program.ends_bind, ends_review]
  refine ⟨fun record live => ?_, fun _ => .rests (refl_of Rests start)⟩
  have own : record.review.id = review := consistent.review live.found
  rw [Program.ends_bind]
  refine quiet_resolveReviewTargets.ends.imp ?_ fun _ _ => .rests
  intro resolved looked rests
  unfold recordResolvedTargets
  by_cases same : record.resolved = some resolved
  · rw [if_pos same]
    refine ⟨.rests rests, record, ?_, same⟩
    rw [rests.store]
    exact live
  rw [if_neg same]
  simp only [Program.ends_bind]
  refine quiet_retainTargets.ends.imp ?_ fun _ _ further => .rests (trans_of Rests rests further)
  intro _ kept further
  replace rests := trans_of Rests rests further
  rw [← rests.store] at live consistent
  have admissible : Admissible env kept.store.views
      (.reviewTargetsResolved record.review.id resolved) := by
    rw [own]
    exact ⟨record, live⟩
  refine (ends_append consistent admissible).imp ?_
    fun _ _ refused => .rests (trans_of Rests rests refused.rests)
  rintro event recorded ⟨appended, _⟩
  have follows := appended.follows consistent
  have stored : recorded.store.Recorded review resolved := by
    refine ⟨Rows.resolvedTo resolved record, ⟨?_, live.live⟩, rfl⟩
    rw [follows.review, Rows.review, appended.body_eq, live.found]
    simp [Rows.changeAt, own]
  have new : ¬ start.store.Recorded review resolved := by
    rintro ⟨other, again, resolved⟩
    rw [← rests.store] at again
    obtain rfl := Option.some.inj (live.found.symm.trans again.found)
    exact same resolved
  have log : recorded.store.events = start.store.events ++ [event] := by
    rw [(appended.gains admissible).events, rests.store]
  have body : event.body = .reviewTargetsResolved review resolved := by
    rw [appended.body_eq, own]
  cases record.resolved with
  | none =>
    exact ⟨.records new log body .nil stored, stored⟩
  | some old =>
    have consistent' : Consistent recorded.store.views :=
      consistent.step (appended.body_eq ▸ admissible) appended.applied
    have live' : ∃ record, LiveReview recorded.store.views review record := by
      obtain ⟨stored, live, _⟩ := stored
      exact ⟨stored, live⟩
    have records {last : Core} (moves : Reanchoring review [] recorded last) :
        Resolution review start last ∧ last.store.Recorded review resolved := by
      obtain ⟨⟨events, log', once, _⟩, kept'⟩ := moves
      have stored' : last.store.Recorded review resolved := by
        obtain ⟨record, live, resolved⟩ := stored
        exact ⟨record, ⟨kept'.trans live.found, live.live⟩, resolved⟩
      refine ⟨.records new ?_ body once stored', stored'⟩
      rw [log', log, List.append_assoc]
      rfl
    dsimp only
    rw [own, Program.ends_bind]
    exact (ends_reanchorReview consistent' live').imp (fun _ _ moves => records moves)
      fun _ _ moves => (records moves).1

end Resolving

/-! ## What a resolution leaves alone -/

section Frames

variable {env : Environment} {core before after : Core} {review other : ReviewId}
  {event : Event} {targets found : NonEmpty ResolvedTarget}

omit [Platform] in
theorem Store.Recorded.unique {store : Store} (first : store.Recorded review targets)
    (second : store.Recorded review found) : targets = found := by
  obtain ⟨record, live, resolved⟩ := first
  obtain ⟨other, again, recorded⟩ := second
  obtain rfl := Option.some.inj (live.found.symm.trans again.found)
  exact Option.some.inj (resolved.symm.trans recorded)

/-- A comment that no event of a growth creates, changes or moves keeps its row. -/
theorem Store.Grows.comment_kept {start last : Store} {id : CommentId} {events : List Event}
    (grows : Store.Grows (Admissible env) start last) (consistent : Consistent start.views)
    (log : last.events = start.events ++ events)
    (kept : ∀ event ∈ events, ∀ row, Rows.comment event (review, id) row = row) :
    last.views.comments[(review, id)]? = start.views.comments[(review, id)]? := by
  refine (grows.along (fun store => Consistent store.views ∧
    store.views.comments[(review, id)]? = start.views.comments[(review, id)]?) log ?_
    ⟨consistent, rfl⟩).2
  rintro store next event mem gains ⟨consistent, same⟩
  have follows := Views.follows_of_apply consistent.toKeyed gains.applied
  refine ⟨consistent.step gains.allowed gains.applied, ?_⟩
  rw [follows.comment, kept event mem, same]

omit [Platform] in
/-- Moving a comment leaves every other comment's row. -/
theorem reanchored_elsewhere {moved id : CommentId} {row : Option Comment}
    (moves : reanchoredIn other event = some moved) (different : other ≠ review ∨ moved ≠ id) :
    Rows.comment event (review, id) row = row := by
  obtain ⟨anchor, state, body⟩ := reanchoredIn_eq_some.mp moves
  rw [Rows.comment, body]
  refine if_neg fun same => ?_
  obtain ⟨rfl, rfl⟩ := Prod.mk.inj same
  exact different.elim (· rfl) (· rfl)

/-- Unless a resolution records other targets for a review, it moves none of the
review's comments. -/
theorem Core.Resolution.comment_kept (resolution : Resolution other before after)
    (consistent : Consistent before.store.views)
    (grows : Store.Grows (Admissible env) before.store after.store)
    (was : before.store.Recorded review targets) (still : after.store.Recorded review targets)
    (id : CommentId) :
    after.store.views.comments[(review, id)]? = before.store.views.comments[(review, id)]? := by
  cases resolution with
  | rests rests => rw [rests.store]
  | records new log body moves recorded =>
    next resolved events found =>
    have different : other ≠ review := by
      rintro rfl
      exact new (recorded.unique still ▸ was)
    refine grows.comment_kept consistent log fun event mem row => ?_
    rcases List.mem_cons.mp mem with rfl | later
    · rw [Rows.comment, body]
    · obtain ⟨moved, moves⟩ := moves.only event later
      exact reanchored_elsewhere moves (.inl different)

theorem Core.resolution_of_run {ctx : Ctx} (consistent : Consistent core.store.views) :
    Resolution other core (resolveTargets ctx other env core).2 := by
  have ends := @ends_resolveTargets _ env _ ctx other consistent
  unfold Program.Ends at ends
  rcases run : resolveTargets ctx other env core with ⟨outcome, last⟩
  rw [run] at ends
  cases outcome with
  | ok value => exact ends.1
  | error error => exact ends

end Frames

/-! ## Interruptions -/

section Interrupting

variable {env completing : Environment} {ctx : Ctx} {review : ReviewId}
  {core stopped completed last : Core} {targets : NonEmpty ResolvedTarget} {rest : List Event}
  {later : List Step}

/-- A step of a sequence of target resolutions. -/
def Step.Resolves : Step → Prop
  | .perform _ (.resolveTargets _) | .restart => True
  | _ => False

/-- A resolution recorded its targets and stopped. Given answers that let it return,
the same call goes on from the same log by the events `rest`. -/
structure Interruption (env completing : Environment) (ctx : Ctx) (review : ReviewId)
    (core stopped completed : Core) (targets : NonEmpty ResolvedTarget) (rest : List Event) :
    Prop where
  stops : ∃ error, Core.resolveTargets ctx review env core = (.error error, stopped)
  recorded : stopped.store.Recorded review targets
  completes : ∃ changed,
    Core.resolveTargets ctx review completing core = (.ok (targets, changed), completed)
  continues : completed.store.events = stopped.store.events ++ rest

/-- Resolutions that follow, and may stop anywhere but record no other targets, up to
one that returns the targets. -/
structure Retried (env : Environment) (review : ReviewId) (stopped last : Core)
    (targets : NonEmpty ResolvedTarget) (later : List Step) : Prop where
  resolutions : ∀ step ∈ later, step.Resolves
  kept : ∀ first rest, later = first ++ rest →
    (stopped.run env first).store.Recorded review targets
  returns : ∃ ctx changed, Core.resolveTargets ctx review env
    (stopped.run env later) = (.ok (targets, changed), last)

/-- Every comment of the review that was not deleted and is not on a browsed revision
has the anchor and the state expected of it. -/
def Store.AnchoredAs (actual expected : Store) (review : ReviewId) : Prop :=
  ∀ (id : CommentId) (comment : Comment), expected.views.comments[(review, id)]? = some comment →
    comment.state ≠ .deleted → Core.isBrowse comment.context = false →
    ∃ held : Comment, actual.views.comments[(review, id)]? = some held ∧
      held.anchor = comment.anchor ∧ held.state = comment.state

/-- The event outdates a comment that is outdated already. -/
def Store.StaysOutdated (store : Store) (review : ReviewId) (event : Event) : Prop :=
  ∀ id anchor state, event.body = .commentReanchored review id anchor state →
    (∃ good, state = .outdated good) ∧ ∃ (comment : Comment) (good : Anchor),
      store.views.comments[(review, id)]? = some comment ∧ comment.state = .outdated good

theorem Core.step_resolveTargets : core.step env (.perform ctx (.resolveTargets review)) =
    (resolveTargets ctx review env core).2 :=
  Program.discard_snd

theorem Core.resolveTargets_extends (consistent : Consistent core.store.views) :
    Extends (Admissible env) core (resolveTargets ctx review env core).2 := by
  rw [← step_resolveTargets]
  exact step_extends consistent _

/-- Resolutions that record no other targets leave the comments where they are. -/
theorem Core.run_comment_kept (consistent : Consistent core.store.views)
    (resolutions : ∀ step ∈ later, step.Resolves) (kept : ∀ first rest, later = first ++ rest →
      (core.run env first).store.Recorded review targets) (id : CommentId) :
    (core.run env later).store.views.comments[(review, id)]? =
      core.store.views.comments[(review, id)]? := by
  induction later generalizing core with
  | nil => rfl
  | cons step later ih =>
    have extends_ : Extends (Admissible env) core (core.step env step) :=
      core.step_extends consistent step
    have after := ih extends_.consistent
      (fun step mem => resolutions step (List.mem_cons_of_mem _ mem))
      (fun first rest same => kept (step :: first) rest (by rw [same]; rfl))
    refine Eq.trans after ?_
    cases step with
    | restart => rfl
    | perform ctx operation =>
      cases operation with
      | resolveTargets other =>
        have resolution : Resolution other core
            (core.step env (.perform ctx (.resolveTargets other))) := by
          rw [step_resolveTargets]
          exact resolution_of_run consistent
        exact resolution.comment_kept consistent extends_.grows (kept [] _ rfl)
          (kept [.perform ctx (.resolveTargets other)] _ rfl) id
      | _ => exact (resolutions _ List.mem_cons_self).elim

/-- A retried resolution leaves the comments where the interruption left them. -/
theorem Retried.comment_kept (retried : Retried env review stopped last targets later)
    (consistent : Consistent stopped.store.views) (id : CommentId) :
    last.store.views.comments[(review, id)]? = stopped.store.views.comments[(review, id)]? := by
  obtain ⟨resolutions, kept, ctx, changed, run⟩ := retried
  have before : Core.Extends (Admissible env) stopped (stopped.run env later) :=
    Core.run_extends consistent later
  obtain ⟨resolution, recorded⟩ :=
    (Core.ends_resolveTargets before.consistent).of_returned run
  have extends_ : Core.Extends (Admissible env) (stopped.run env later)
      (Core.resolveTargets ctx review env (stopped.run env later)).2 :=
    Core.resolveTargets_extends before.consistent
  rw [run] at extends_
  rw [resolution.comment_kept before.consistent extends_.grows (kept later [] (by simp)) recorded]
  exact Core.run_comment_kept consistent resolutions kept id

/-- An interrupted call and its completion part where the interruption was, and the
completion only moves comments from there on. -/
theorem Interruption.continues_once
    (interruption : Interruption env completing ctx review core stopped completed targets rest)
    (consistent : Consistent core.store.views) (logged : core.store.Logged) :
    Consistent stopped.store.views ∧
      Store.Grows (Admissible completing) stopped.store completed.store ∧
      ReanchorsOnce review rest := by
  obtain ⟨⟨error, stops⟩, recorded, ⟨changed, completes⟩, continues⟩ := interruption
  have stopped_ : Core.Extends (Admissible env) core
      (Core.resolveTargets ctx review env core).2 := Core.resolveTargets_extends consistent
  have completed_ : Core.Extends (Admissible completing) core
      (Core.resolveTargets ctx review completing core).2 := Core.resolveTargets_extends consistent
  rw [stops] at stopped_
  rw [completes] at completed_
  obtain ⟨suffix, log⟩ := stopped_.grows.events
  obtain ⟨middle, reaches, cut, grows⟩ : ∃ middle, Store.Grows (Admissible completing) core.store
      middle ∧ middle.events = core.store.events ++ suffix ∧
        Store.Grows (Admissible completing) middle completed.store :=
    completed_.grows.cut (by rw [continues, log, List.append_assoc])
  obtain rfl : middle = stopped.store :=
    (logged.grows reaches).unique (logged.grows stopped_.grows) (cut.trans log.symm)
  refine ⟨stopped_.consistent, grows, ?_⟩
  obtain ⟨resolution, returned⟩ := (Core.ends_resolveTargets consistent).of_returned completes
  cases resolution with
  | rests rests =>
    rw [rests.store, log, List.append_assoc] at continues
    have none := List.append_eq_nil_iff.mp (List.self_eq_append_right.mp continues)
    rw [none.2]
    exact .nil
  | records other log' body moves recorded' =>
    rw [log', log, List.append_assoc] at continues
    have parts := List.append_cancel_left continues
    cases suffix with
    | nil =>
      -- Nothing was appended, so the targets were recorded all along.
      have same : stopped.store = core.store :=
        (logged.grows stopped_.grows).unique logged (by rw [log, List.append_nil])
      rw [recorded'.unique returned, ← same] at other
      exact absurd recorded other
    | cons first suffix =>
      obtain ⟨_, parts⟩ := List.cons.inj parts
      rw [parts] at moves
      exact moves.suffix

/-- Among events that re-anchor each comment at most once, the one that moves a
comment decides where it is afterwards. -/
theorem Store.Grows.comment_moved {start last : Store} {event : Event} {id : CommentId}
    {anchor : Anchor} {state : CommentState}
    (grows : Store.Grows (Admissible env) start last) (consistent : Consistent start.views)
    (log : last.events = start.events ++ rest) (once : ReanchorsOnce review rest)
    (mem : event ∈ rest) (body : event.body = .commentReanchored review id anchor state) :
    ∃ comment fate oldBlob newBlob, start.views.comments[(review, id)]? = some comment ∧
      Core.isBrowse comment.context = false ∧
      reanchor comment.anchor comment.state fate oldBlob newBlob = .ok (.moved anchor state) ∧
      last.views.comments[(review, id)]? = some (Rows.reanchored anchor state comment) := by
  obtain ⟨first, later, rfl⟩ := List.append_of_mem mem
  obtain ⟨middle, next, reaches, cut, gains, continues⟩ := grows.at_event log
  have moved : reanchoredIn review event = some id := reanchoredIn_eq_some.mpr ⟨_, _, body⟩
  -- The comment is moved neither before nor after.
  have apart := once.once
  rw [List.filterMap_append, List.filterMap_cons_some moved] at apart
  have fresh := (List.nodup_middle.mp apart)
  rw [List.nodup_cons, List.mem_append, not_or] at fresh
  have elsewhere {events : List Event} (part : events ⊆ first ++ event :: later)
      (absent : id ∉ events.filterMap (reanchoredIn review)) :
      ∀ other ∈ events, ∀ row, Rows.comment other (review, id) row = row := by
    intro other mem row
    obtain ⟨comment, moves⟩ := once.only other (part mem)
    refine reanchored_elsewhere moves (.inr ?_)
    rintro rfl
    exact absent (List.mem_filterMap.mpr ⟨other, mem, moves⟩)
  have before := reaches.comment_kept consistent cut
    (elsewhere (List.subset_append_left _ _) fresh.1.1)
  have consistent' := reaches.consistent consistent
  have consistent'' := consistent'.step gains.allowed gains.applied
  have log' : last.events = next.events ++ later := by
    rw [log, gains.events, cut]
    simp
  have after := continues.comment_kept consistent'' log'
    (elsewhere (fun _ mem => by simp [mem]) fresh.1.2)
  have allowed := gains.allowed
  rw [body] at allowed
  obtain ⟨comment, fate, number, repo, found, diff, computed⟩ := allowed.computed
  refine ⟨comment, fate, _, _, before ▸ found, diff, computed, ?_⟩
  rw [after, (Views.follows_of_apply consistent'.toKeyed gains.applied).comment, Rows.comment, body,
    found]
  exact if_pos rfl

/-- Once a resolution stopped after it recorded its targets, and a later call returns
the same targets, the comments are where the completed call would have left them
exactly when each move it still had to make outdates a comment that is outdated. -/
theorem run_reanchoring_kept_iff {steps : List Step}
    (interruption : Interruption env completing ctx review
      (Core.run env .initial steps) stopped completed targets rest)
    (retried : Retried env review stopped last targets later) :
    last.store.AnchoredAs completed.store review ↔
      ∀ event ∈ rest, stopped.store.StaysOutdated review event := by
  have reachable := reachable_run env steps
  obtain ⟨consistent, grows, once⟩ :=
    interruption.continues_once reachable.consistent reachable.logged
  have kept := retried.comment_kept consistent
  have log := interruption.continues
  constructor
  · intro anchored event mem id anchor state body
    obtain ⟨comment, fate, oldBlob, newBlob, found, diff, computed, moved⟩ :=
      grows.comment_moved consistent log once mem body
    obtain ⟨held, present, sameAnchor, sameState⟩ :=
      anchored id _ moved (moved_of_reanchor computed).kept.2 diff
    rw [kept, found] at present
    obtain rfl := Option.some.inj present
    obtain rfl : comment.anchor = anchor := sameAnchor
    obtain rfl : comment.state = state := sameState
    obtain ⟨good, outdated⟩ := outdated_of_reanchor_same computed
    exact ⟨⟨good, outdated⟩, comment, good, found, outdated⟩
  · intro outdated id comment present _ _
    by_cases moved : id ∈ rest.filterMap (reanchoredIn review)
    · obtain ⟨event, mem, moves⟩ := List.mem_filterMap.mp moved
      obtain ⟨anchor, state, body⟩ := reanchoredIn_eq_some.mp moves
      obtain ⟨before, fate, oldBlob, newBlob, found, _, computed, after⟩ :=
        grows.comment_moved consistent log once mem body
      obtain ⟨⟨good, rfl⟩, stored, last, again, was⟩ := outdated event mem id anchor state body
      obtain rfl := Option.some.inj (found.symm.trans again)
      obtain rfl := Option.some.inj (after.symm.trans present)
      obtain ⟨lastGood, sameAnchor⟩ := (moved_of_reanchor computed).lastGood rfl
      refine ⟨before, by rw [kept, found], sameAnchor.symm, ?_⟩
      change before.state = .outdated good
      rw [lastGood, was, effectiveAnchor]
    · refine ⟨comment, ?_, rfl, rfl⟩
      rw [kept, ← present]
      refine (grows.comment_kept consistent log fun event mem row => ?_).symm
      obtain ⟨other, moves⟩ := once.only event mem
      refine reanchored_elsewhere moves (.inr ?_)
      rintro rfl
      exact moved (List.mem_filterMap.mpr ⟨event, mem, moves⟩)

end Interrupting

end Platform

/-! ### A comment left behind -/

/-- A review with a comment on a file that the trees do not have. -/
def noted : List Step :=
  Session.opening ++ [Session.mutate (.addComment Session.reviewId ⟨5⟩ .note
    (.file Session.repoId ⟨"a", RepoPath.valid_a⟩ ⟨0⟩) "first" none)]

/-- The refs move once the comment was made, and git may fail to list trees. -/
def headMoved (lists : Bool) : Environment where
  answer number call :=
    match call with
    | .resolve .. => .ok (if number < 18 then ⟨⟨0⟩, .commit ⟨0⟩⟩ else ⟨⟨1⟩, .commit ⟨1⟩⟩)
    | .treeSnapshot .. => if lists then .ok [] else .error (.git "unavailable")
    | other => Environment.calm.answer number other

/-- The state in which the moved refs are resolved. -/
def beforeMove : Core := @Core.run .plain (headMoved false) .initial noted

/-- One resolution after the refs moved. -/
def moveHead (lists : Bool) (core : Core) :
    Except CoreError (NonEmpty ResolvedTarget × Bool) × Core :=
  @Core.resolveTargets .plain (Session.by_ Session.user) Session.reviewId (headMoved lists) core

def movedTargets : NonEmpty ResolvedTarget :=
  .singleton ⟨Session.repoId, ⟨⟨1⟩, .commit ⟨1⟩⟩, ⟨⟨1⟩, .commit ⟨1⟩⟩⟩

theorem moveHead_interrupted : @Interruption .plain (headMoved false) (headMoved true)
    (Session.by_ Session.user) Session.reviewId beforeMove (moveHead false beforeMove).2
    (moveHead true beforeMove).2 movedTargets
    ((moveHead true beforeMove).2.store.events.drop 6) := by
  let _ : Platform := .plain
  exact {
    stops := ⟨.git "unavailable", Program.run_eq (by decide +kernel)⟩
    recorded := by decide +kernel
    completes := ⟨true, Program.run_eq (by decide +kernel)⟩
    continues := by decide +kernel }

theorem moveHead_retried : @Retried .plain (headMoved false) Session.reviewId
    (moveHead false beforeMove).2 (moveHead false (moveHead false beforeMove).2).2 movedTargets
    [] := by
  let _ : Platform := .plain
  refine ⟨by simp, ?_, Session.by_ Session.user, false, Program.run_eq (by decide +kernel)⟩
  intro first rest same
  obtain ⟨rfl, rfl⟩ := List.append_eq_nil_iff.mp same.symm
  decide +kernel

/-- What the completed call would have left is where the retried one leaves the
comments exactly when the move still to be made changes nothing. -/
theorem moveHead_kept_iff : (moveHead false (moveHead false beforeMove).2).2.store.AnchoredAs
        (moveHead true beforeMove).2.store Session.reviewId ↔
      ∀ event ∈ (moveHead true beforeMove).2.store.events.drop 6,
        (moveHead false beforeMove).2.store.StaysOutdated Session.reviewId event := by
  let _ : Platform := .plain
  exact run_reanchoring_kept_iff moveHead_interrupted moveHead_retried

/-- The interrupted move is never made up for: the comment would be outdated by now. -/
theorem moveHead_left_behind :
    (@Interruption .plain (headMoved false) (headMoved true) (Session.by_ Session.user)
        Session.reviewId beforeMove (moveHead false beforeMove).2 (moveHead true beforeMove).2
        movedTargets ((moveHead true beforeMove).2.store.events.drop 6)) ∧
      (@Retried .plain (headMoved false) Session.reviewId (moveHead false beforeMove).2
        (moveHead false (moveHead false beforeMove).2).2 movedTargets []) ∧
      ¬ (moveHead false (moveHead false beforeMove).2).2.store.AnchoredAs
        (moveHead true beforeMove).2.store Session.reviewId := by
  refine ⟨moveHead_interrupted, moveHead_retried, fun anchored => ?_⟩
  have expected : ((moveHead true beforeMove).2.store.views.comments[
      (Session.reviewId, (⟨5⟩ : CommentId))]?).map
        (fun comment => (comment.state, Core.isBrowse comment.context)) =
      some (.outdated (.file Session.repoId ⟨"a", RepoPath.valid_a⟩ ⟨0⟩), false) := by decide +kernel
  have actual : ((moveHead false (moveHead false beforeMove).2).2.store.views.comments[
      (Session.reviewId, (⟨5⟩ : CommentId))]?).map Comment.state = some .live := by decide +kernel
  obtain ⟨comment, found, same⟩ := Option.map_eq_some_iff.mp expected
  obtain ⟨outdated, diff⟩ := Prod.mk.inj same
  obtain ⟨held, present, _, state⟩ := anchored ⟨5⟩ comment found (by simp [outdated]) diff
  rw [present, Option.map_some, state, outdated] at actual
  cases actual

end Nits.ReviewCore
