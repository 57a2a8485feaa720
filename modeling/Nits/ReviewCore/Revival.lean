import Nits.Logical.Run
import Nits.ReviewCore.RealMoves

/-!
# Comments that come back

A resolution looks up where the file of each comment is now, and what it holds. As long
as no rename happens under a comment that cannot follow it, the last good anchor names
the file by its current path, and a comment is live again once the file holds the
content of its last good anchor.
-/

namespace Nits.ReviewCore

open Logical Protocol

/-! ## What is looked up -/

/-- What re-anchoring looks up for a comment: where the paths of its repository and side
have gone, and the contents of blobs. -/
structure Look where
  fates : Core.Fates
  oldBlob : BlobOid → Option (List UInt8)
  newBlob : BlobOid → Option (List UInt8)

namespace Look

def fate (look : Look) (path : RepoPath) : PathFate := look.fates[path]?.getD .gone

/-- The path that the file at a path has now. A file that is gone is expected where it
was last. -/
def follow (look : Look) (path : RepoPath) : RepoPath :=
  match look.fate path with
  | .present path _ => path
  | .gone => path

end Look

section Platform

variable [Platform]

namespace Core

/-- The look that re-anchoring is about to base its outcome on. -/
def lookWith (repo : GitRepo) (fates : Fates) : CoreM (Option Look) := fun env core =>
  (.ok (some {
    fates
    oldBlob := env.content core.calls repo
    newBlob := env.content (core.calls + 1) repo }), core)

/-- Re-anchor the comments of a review up to one of them, and look it up. -/
def lookInReview (ctx : Ctx) (review : ReviewId) (old new : NonEmpty ResolvedTarget)
    (id : CommentId) : CoreM (Option Look) := do
  let store ← Program.read Core.store
  let (cache, _) ← Program.foldEach (reanchorComment ctx review old new) (∅, [])
    ((store.comments review).takeWhile fun comment => comment.id ≠ id)
  match (store.comments review).find? fun comment => comment.id = id with
  | none => pure none
  | some comment =>
    match reanchorSubject new comment with
    | none => pure none
    | some (target, side, _) =>
      let repo ← reviewRepo review target.repoId
      let (_, fates) ← fatesFor cache repo old target side
      lookWith repo fates

/-- A resolution up to where it re-anchors a comment, and what it looks up for it. A
resolution that finds the recorded targets looks up nothing. -/
def lookUp (ctx : Ctx) (review : ReviewId) (id : CommentId) : CoreM (Option Look) := do
  let record ← Core.review review
  let resolved ← resolveReviewTargets record.review
  if record.resolved = some resolved then pure none
  else
    retainTargets record.review.id resolved
    let _ ← append ctx (.reviewTargetsResolved record.review.id resolved)
    match record.resolved with
    | none => pure none
    | some old => lookInReview ctx record.review.id old resolved id

/-- What a resolution looks up for a comment, if it comes to it. -/
def looked (env : Environment) (ctx : Ctx) (review : ReviewId) (id : CommentId)
    (core : Core) : Option Look :=
  (lookUp ctx review id env core).1.toOption.join

end Core

/-! ## One resolution -/

/-- What an outcome makes of a comment. -/
def Reanchor.apply : Reanchor → Comment → Comment
  | .unchanged, comment => comment
  | .moved anchor state, comment => Rows.reanchored anchor state comment

section Resolving

variable {env : Environment} {core start last : Core} {ctx : Ctx} {review : ReviewId}
  {comment : Comment}

theorem Core.askReanchor_eq_ok {repo : GitRepo} {fate : PathFate} {outcome : Reanchor}
    (run : askReanchor repo comment fate env start = (.ok outcome, last)) :
    reanchor comment.anchor comment.state fate (env.content start.calls repo)
        (env.content (start.calls + 1) repo) = .ok outcome ∧ Rests start last := by
  unfold askReanchor at run
  dsimp only at run
  split at run
  · next computed =>
    cases run
    exact ⟨computed, rfl, rfl⟩
  · cases run

/-- Where re-anchoring a comment was about it, it looked up what the outcome is based on. -/
theorem Core.reanchorComment_looks {old new : NonEmpty ResolvedTarget} {rest : List Comment}
    {progress next : FateCache × List CommentId} (consistent : Consistent start.store.views)
    (remaining : Remaining review (comment :: rest) start)
    (run : reanchorComment ctx review old new progress comment env start = (.ok next, last)) :
    (reanchorSubject new comment = none ∧ last = start) ∨
      ∃ target side path repo cache fates opened found outcome,
        reanchorSubject new comment = some (target, side, path) ∧
        reviewRepo review target.repoId env start = (.ok repo, opened) ∧
        fatesFor progress.1 repo old target side env opened = (.ok (cache, fates), found) ∧
        reanchor comment.anchor comment.state (fates[path]?.getD .gone)
          (env.content found.calls repo) (env.content (found.calls + 1) repo) =
            .ok outcome ∧
        last.store.views.comments[(review, comment.id)]? = some (outcome.apply comment) := by
  obtain ⟨cache, moved⟩ := progress
  unfold reanchorComment at run
  dsimp only at run
  cases subject : reanchorSubject new comment with
  | none =>
    rw [subject] at run
    obtain ⟨_, same⟩ := Program.pure_eq_ok_iff.mp run
    exact .inl ⟨rfl, same⟩
  | some about =>
    obtain ⟨target, side, path⟩ := about
    rw [subject] at run
    dsimp only at run
    obtain ⟨repo, opened, opens, run⟩ := Program.bind_eq_ok_iff.mp run
    obtain ⟨⟨cache', fates⟩, found, finds, run⟩ := Program.bind_eq_ok_iff.mp run
    dsimp only at run
    obtain ⟨outcome, asked, asks, run⟩ := Program.bind_eq_ok_iff.mp run
    refine .inr ⟨target, side, path, repo, cache', fates, opened, found, outcome, rfl, opens, finds,
      ?_⟩
    have opening : Rests start opened := quiet_reviewRepo.ends.of_returned opens
    have finding : Rests opened found := quiet_fatesFor.ends.of_returned finds
    obtain ⟨computed, still⟩ : reanchor comment.anchor comment.state (fates[path]?.getD .gone)
        (env.content found.calls repo) (env.content (found.calls + 1) repo) =
          .ok outcome ∧ Rests found asked := askReanchor_eq_ok asks
    have rests : Rests start asked := trans_of Rests (trans_of Rests opening finding) still
    refine ⟨computed, ?_⟩
    cases outcome with
    | unchanged =>
      obtain ⟨_, rfl⟩ := Program.pure_eq_ok_iff.mp run
      rw [rests.store]
      exact remaining.stored comment List.mem_cons_self
    | moved anchor state =>
      dsimp only at run
      obtain ⟨event, reached, appends, run⟩ := Program.bind_eq_ok_iff.mp run
      obtain ⟨_, rfl⟩ := Program.pure_eq_ok_iff.mp run
      have moves : Admissible env asked.store.views
          (.commentReanchored review comment.id anchor state) :=
        ⟨(remaining.rests rests).live, comment, _, found.calls, repo,
          (remaining.rests rests).stored comment List.mem_cons_self,
          reanchorSubject_browse subject, computed⟩
      rw [← rests.store] at consistent
      have appended := ((ends_append consistent moves).of_returned appends).1
      rw [(appended.follows consistent).comment, Rows.comment, appended.body_eq,
        (remaining.rests rests).stored comment List.mem_cons_self]
      exact if_pos rfl

theorem Core.Reanchored.elsewhere {id : CommentId} (consistent : Consistent start.store.views)
    (other : comment.id ≠ id) (reanchored : Reanchored env ctx review comment start last) :
    last.store.views.comments[(review, id)]? = start.store.views.comments[(review, id)]? := by
  cases reanchored with
  | kept rests => rw [rests.store]
  | moved rests moves appended =>
    next asked event anchor state =>
    rw [← rests.store] at consistent ⊢
    rw [(appended.follows consistent).comment]
    exact reanchored_elsewhere (reanchoredIn_eq_some.mpr ⟨anchor, state, appended.body_eq⟩)
      (.inr other)

/-- Re-anchoring some comments leaves the others where they are, those that remain too. -/
theorem Core.ends_reanchorComments {old new : NonEmpty ResolvedTarget} {items later : List Comment}
    {progress : FateCache × List CommentId} (consistent : Consistent start.store.views)
    (remaining : Remaining review (items ++ later) start) :
    (Program.foldEach (reanchorComment ctx review old new) progress items).Ends env start
      (fun _ last => Consistent last.store.views ∧ Remaining review later last ∧
        ∀ id, id ∉ items.map Comment.id →
          last.store.views.comments[(review, id)]? = start.store.views.comments[(review, id)]?)
      fun _ _ => True := by
  have growth : Extends (Permitted env False) start start := .refl consistent
  refine (Program.ends_foldEach (fun _ rest state =>
    Extends (Permitted env False) start state ∧ Remaining review (rest ++ later) state ∧
      rest ⊆ items ∧ ∀ id, id ∉ items.map Comment.id →
        state.store.views.comments[(review, id)]? = start.store.views.comments[(review, id)]?)
    ⟨growth, remaining, List.Subset.refl _, fun _ _ => rfl⟩ ?_).imp
      (fun _ _ held => ⟨held.1.consistent, held.2.1, held.2.2.2⟩) fun _ _ (_ : True) => trivial
  rintro progress comment rest state ⟨growth, remaining, part, same⟩
  refine (ends_reanchorComment growth.consistent remaining).imp ?_ fun _ _ _ => trivial
  intro _ reached reanchored
  obtain ⟨growth', remaining'⟩ := reanchored.extends growth remaining
  refine ⟨growth', remaining', fun _ mem => part (List.mem_cons_of_mem _ mem), ?_⟩
  intro id absent
  have other : comment.id ≠ id := by
    rintro rfl
    exact absent (List.mem_map_of_mem (part List.mem_cons_self))
  rw [reanchored.elsewhere growth.consistent other, same id absent]

omit [Platform] in
/-- The subject of re-anchoring is the path that the effective anchor follows. -/
theorem Core.reanchorSubject_followed {new : NonEmpty ResolvedTarget} {target : ResolvedTarget}
    {side : Side} {path : RepoPath} (subject : reanchorSubject new comment = some (target, side, path)) :
    followed (effectiveAnchor comment.anchor comment.state) = some (target.repoId, path) := by
  unfold reanchorSubject at subject
  split at subject
  · cases subject
  · obtain ⟨side', _, subject⟩ := Option.bind_eq_some_iff.mp subject
    obtain ⟨⟨repoId, path'⟩, follows, subject⟩ := Option.bind_eq_some_iff.mp subject
    obtain ⟨found, search, same⟩ := Option.map_eq_some_iff.mp subject
    cases same
    have own := List.find?_some search
    rw [follows, of_decide_eq_true own]

omit [Platform] in
/-- A stored comment is the one with its id, and those before it are those that a search
passes over. -/
theorem Store.comments_split {store : Store} {id : CommentId} (consistent : Consistent store.views)
    (found : store.views.comments[(review, id)]? = some comment) :
    comment.id = id ∧ (store.comments review).find? (fun comment => comment.id = id) = some comment ∧
      ∃ later, store.comments review =
        (store.comments review).takeWhile (fun comment => comment.id ≠ id) ++ comment :: later := by
  have held := consistent.comments_held review
  have search := (held.find? id).trans found
  refine ⟨held.own found, search, ?_⟩
  obtain ⟨here, early, later, split, before⟩ := List.find?_eq_some_iff_append.mp search
  refine ⟨later, ?_⟩
  have split : store.comments review = early ++ comment :: later := split
  have passed : ∀ other ∈ early, decide (other.id ≠ id) = true := by
    intro other mem
    simpa using before other mem
  have stops : decide (comment.id ≠ id) = false := by simpa using here
  rw [split, List.takeWhile_append_of_pos passed, List.takeWhile_cons_of_neg (by rw [stops]; simp),
    List.append_nil]

/-- Re-anchoring a review moves a comment as what was looked up for it has it, or leaves
a comment that nothing was looked up for. -/
theorem Core.reanchorReview_looked {old new : NonEmpty ResolvedTarget} {id : CommentId}
    {moved : List CommentId} (consistent : Consistent start.store.views)
    (live : ∃ record, LiveReview start.store.views review record)
    (found : start.store.views.comments[(review, id)]? = some comment)
    (run : reanchorReview ctx review old new env start = (.ok moved, last)) :
    ∃ look reached, lookInReview ctx review old new id env start = (.ok look, reached) ∧
      match look with
      | none => last.store.views.comments[(review, id)]? = some comment
      | some look => ∃ repoId path outcome,
          followed (effectiveAnchor comment.anchor comment.state) = some (repoId, path) ∧
          reanchor comment.anchor comment.state (look.fate path) look.oldBlob look.newBlob =
            .ok outcome ∧
          last.store.views.comments[(review, id)]? = some (outcome.apply comment) := by
  obtain ⟨rfl, search, later, split⟩ := Store.comments_split consistent found
  unfold reanchorReview at run
  obtain ⟨store, _, reads, run⟩ := Program.bind_eq_ok_iff.mp run
  obtain ⟨rfl, rfl⟩ := Program.read_eq_ok_iff.mp reads
  obtain ⟨⟨cache', moved'⟩, _, folds, run⟩ := Program.bind_eq_ok_iff.mp run
  obtain ⟨_, rfl⟩ := Program.pure_eq_ok_iff.mp run
  have remaining := remaining_comments consistent live
  rw [split] at folds remaining
  rw [Program.foldEach_append] at folds
  obtain ⟨progress, arrived, early, folds⟩ := Program.bind_eq_ok_iff.mp folds
  obtain ⟨consistent', remaining', _⟩ :=
    (ends_reanchorComments consistent remaining).of_returned early
  obtain ⟨next, reached, once, rest⟩ := Program.bind_eq_ok_iff.mp folds
  have growth : Extends (Permitted env False) arrived arrived := .refl consistent'
  obtain ⟨growth', remaining''⟩ := ((ends_reanchorComment consistent' remaining').of_returned
    once).extends growth remaining'
  -- The comments that remain leave this one where its own re-anchoring left it.
  have kept : last.store.views.comments[(review, comment.id)]? =
      reached.store.views.comments[(review, comment.id)]? := by
    rw [← List.append_nil later] at remaining''
    refine ((ends_reanchorComments growth'.consistent remaining'').of_returned rest).2.2 _ ?_
    exact (List.nodup_cons.mp remaining'.distinct).1
  unfold lookInReview
  rw [Program.bind_eq Program.read_eq, Program.bind_eq early]
  dsimp only
  rw [search]
  dsimp only
  rcases reanchorComment_looks consistent' remaining' once with ⟨subject, rfl⟩ |
    ⟨target, side, path, repo, cache, fates, opened, found', outcome, subject, opens, finds,
      computed, row⟩
  · rw [subject]
    refine ⟨none, reached, rfl, ?_⟩
    dsimp only
    rw [kept, remaining'.stored comment List.mem_cons_self]
  · rw [subject]
    dsimp only
    rw [Program.bind_eq opens, Program.bind_eq finds]
    refine ⟨_, _, rfl, target.repoId, path, outcome, reanchorSubject_followed subject, computed, ?_⟩
    rw [kept, row]

/-- What a resolution that returns does to a comment. -/
theorem Core.resolveTargets_looked {id : CommentId} {result : NonEmpty ResolvedTarget × Bool}
    (consistent : Consistent core.store.views)
    (found : core.store.views.comments[(review, id)]? = some comment)
    (run : resolveTargets ctx review env core = (.ok result, last)) :
    match looked env ctx review id core with
    | none => last.store.views.comments[(review, id)]? = some comment
    | some look => ∃ repoId path outcome,
        followed (effectiveAnchor comment.anchor comment.state) = some (repoId, path) ∧
        reanchor comment.anchor comment.state (look.fate path) look.oldBlob look.newBlob =
          .ok outcome ∧
        last.store.views.comments[(review, id)]? = some (outcome.apply comment) := by
  unfold resolveTargets at run
  obtain ⟨record, started, reviews, resolving⟩ := Program.bind_eq_ok_iff.mp run
  have reviewed : (Core.review review).Ends env core
      (fun record last => LiveReview core.store.views review record ∧ last = core)
      fun _ _ => True := ends_review.mpr ⟨fun record live => ⟨live, rfl⟩, fun _ => trivial⟩
  obtain ⟨live, rfl⟩ := reviewed.of_returned reviews
  have own : record.review.id = review := consistent.review live.found
  obtain ⟨resolved, asked, resolves, recording⟩ := Program.bind_eq_ok_iff.mp resolving
  obtain ⟨changed, recorded, records, returns⟩ := Program.bind_eq_ok_iff.mp recording
  obtain ⟨_, rfl⟩ := Program.pure_eq_ok_iff.mp returns
  have resolving : Rests started asked :=
    quiet_resolveReviewTargets.ends.of_returned resolves
  unfold looked lookUp
  rw [Program.bind_eq reviews, Program.bind_eq resolves]
  unfold recordResolvedTargets at records
  by_cases same : record.resolved = some resolved
  · rw [if_pos same] at records ⊢
    obtain ⟨_, rfl⟩ := Program.pure_eq_ok_iff.mp records
    change last.store.views.comments[(review, id)]? = some comment
    rw [resolving.store, found]
  · rw [if_neg same] at records ⊢
    obtain ⟨_, retained, retains, records⟩ := Program.bind_eq_ok_iff.mp records
    have retaining : Rests asked retained :=
      quiet_retainTargets.ends.of_returned retains
    have rests : Rests started retained := trans_of Rests resolving retaining
    obtain ⟨event, stored, appends, records⟩ := Program.bind_eq_ok_iff.mp records
    rw [← rests.store] at consistent found live
    have admissible : Admissible env retained.store.views
        (.reviewTargetsResolved record.review.id resolved) := by
      rw [own]
      exact ⟨record, live⟩
    have appended := ((ends_append consistent admissible).of_returned appends).1
    have follows := appended.follows consistent
    have kept : stored.store.views.comments[(review, id)]? = some comment := by
      rw [follows.comment, Rows.comment, appended.body_eq]
      exact found
    rw [Program.bind_eq retains, Program.bind_eq appends]
    cases before : record.resolved with
    | none =>
      rw [before] at records
      obtain ⟨_, rfl⟩ := Program.pure_eq_ok_iff.mp records
      exact kept
    | some old =>
      rw [before] at records
      dsimp only at records ⊢
      obtain ⟨moved, _, reanchors, records⟩ := Program.bind_eq_ok_iff.mp records
      obtain ⟨_, rfl⟩ := Program.pure_eq_ok_iff.mp records
      rw [own] at reanchors ⊢
      have live' : ∃ record, LiveReview stored.store.views review record :=
        appended.live_kept consistent (by simp) ⟨record, live⟩
      obtain ⟨look, reached, looks, outcome⟩ := reanchorReview_looked
        (consistent.step (appended.body_eq ▸ admissible) appended.applied) live' kept reanchors
      rw [looks]
      exact outcome

end Resolving

/-! ## A run of resolutions -/

/-- The blob that an anchor is on. -/
def onBlob : Anchor → Option BlobOid
  | .file _ _ blob | .lines _ _ _ blob .. => some blob
  | .review => none

/-- The same place, the file being at another path. -/
def movedTo (path : RepoPath) : Anchor → Anchor
  | .file repoId _ blob => .file repoId path blob
  | .lines repoId _ side blob lines hash => .lines repoId path side blob lines hash
  | .review => .review

section Following

variable {comment : Comment} {outcome : Reanchor} {look : Look} {repoId : RepoId} {path : RepoPath}

/-- Unless its lines could not be followed to where git found the file, the last good
anchor names the file by the path it has now. -/
theorem Reanchor.follows (kept : comment.state ≠ .deleted)
    (based : Core.followed (effectiveAnchor comment.anchor comment.state) = some (repoId, path))
    (computed : reanchor comment.anchor comment.state (look.fate path) look.oldBlob look.newBlob =
      .ok outcome) (followable : look.follow path ≠ path → ¬ Unfollowed look.oldBlob look.newBlob
      (effectiveAnchor comment.anchor comment.state) (look.fate path)) :
    (outcome.apply comment).state ≠ .deleted ∧
      Core.followed (effectiveAnchor (outcome.apply comment).anchor (outcome.apply comment).state) =
        some (repoId, look.follow path) := by
  unfold Look.follow at *
  generalize fated : look.fate path = fate at *
  generalize base_ : effectiveAnchor comment.anchor comment.state = base at based followable
  have kind := pursuit look.oldBlob look.newBlob base fate
  cases kind with
  | review => cases based
  | gone anchored =>
    rw [reanchor_gone kept (base_ ▸ anchored)] at computed
    split at computed
    · cases computed
      exact ⟨by simp [Reanchor.apply, Rows.reanchored], (congrArg Core.followed base_).trans based⟩
    · cases computed
      exact ⟨kept, (congrArg Core.followed base_).trans based⟩
  | file =>
    obtain ⟨rfl, rfl⟩ := Prod.mk.inj (Option.some.inj based)
    rw [reanchor_file kept base_] at computed
    split at computed
    · next still =>
      cases computed
      refine ⟨kept, ?_⟩
      change Core.followed (effectiveAnchor comment.anchor comment.state) = _
      rw [still.2, effectiveAnchor, ← still.1]
      rfl
    · cases computed
      exact ⟨by simp [Reanchor.apply, Rows.reanchored], rfl⟩
  | sameBlob =>
    obtain ⟨rfl, rfl⟩ := Prod.mk.inj (Option.some.inj based)
    rw [reanchor_sameBlob kept base_] at computed
    split at computed
    · next still =>
      cases computed
      refine ⟨kept, ?_⟩
      change Core.followed (effectiveAnchor comment.anchor comment.state) = _
      rw [still.1, effectiveAnchor] at base_ ⊢
      rw [still.2, base_]
      rfl
    · cases computed
      exact ⟨by simp [Reanchor.apply, Rows.reanchored], rfl⟩
  | unfollowed unfollowed =>
    rw [reanchor_unfollowed kept (base_ ▸ unfollowed)] at computed
    cases computed
    refine ⟨by simp [Reanchor.apply, Rows.reanchored], ?_⟩
    have stays := not_not.mp fun renamed => followable renamed unfollowed
    rw [stays]
    exact (congrArg Core.followed base_).trans based
  | mapped other oldContent newContent range hashed =>
    obtain ⟨rfl, rfl⟩ := Prod.mk.inj (Option.some.inj based)
    rw [reanchor_mapped kept base_ other oldContent newContent range hashed] at computed
    cases computed
    exact ⟨by simp [Reanchor.apply, Rows.reanchored], rfl⟩
  | aborted other oldContent newContent range =>
    rw [reanchor_aborted kept base_ other oldContent newContent range] at computed
    cases computed

/-- Where the file holds the blob of the last good anchor, the comment is live there. -/
theorem Reanchor.revives {path' : RepoPath} {blob : BlobOid} (kept : comment.state ≠ .deleted)
    (computed : reanchor comment.anchor comment.state (look.fate path) look.oldBlob look.newBlob =
      .ok outcome) (present : look.fate path = .present path' blob)
    (same : onBlob (effectiveAnchor comment.anchor comment.state) = some blob) :
    outcome.apply comment = Rows.reanchored
      (movedTo path' (effectiveAnchor comment.anchor comment.state)) .live comment := by
  have stands : ∀ {anchor : Anchor}, anchor = comment.anchor → comment.state = .live →
      comment = Rows.reanchored anchor .live comment := by
    rintro _ rfl live
    rw [← live]
    rfl
  rw [present] at computed
  cases based : effectiveAnchor comment.anchor comment.state with
  | review =>
    rw [based] at same
    cases same
  | file repoId oldPath old =>
    rw [based] at same
    obtain rfl := Option.some.inj same
    rw [reanchor_file kept based] at computed
    split at computed
    · next still =>
      cases computed
      exact stands still.1 still.2
    · cases computed
      rfl
  | lines repoId oldPath side old lines hash =>
    rw [based] at same
    obtain rfl := Option.some.inj same
    rw [reanchor_sameBlob kept based] at computed
    split at computed
    · next still =>
      cases computed
      refine stands ?_ still.1
      rw [still.1, effectiveAnchor] at based
      rw [still.2, based]
      rfl
    · cases computed
      rfl

end Following

section Running

variable (env : Environment) (review : ReviewId) (id : CommentId)

/-- A resolution, and the path that the file of a comment has by it: git is asked by the
resolutions that return. -/
def Core.resolveFollowing (followed : Core × RepoPath) (ctx : Ctx) : Core × RepoPath :=
  match resolveTargets ctx review env followed.1 with
  | (.error _, last) => (last, followed.2)
  | (.ok _, last) =>
    match looked env ctx review id followed.1 with
    | none => (last, followed.2)
    | some look => (last, look.follow followed.2)

/-- The resolution returns or changes nothing, and where git found the file renamed the
comment's lines can be followed to it. -/
structure Core.Followable (followed : Core × RepoPath) (ctx : Ctx) : Prop where
  completes : (∃ result last, resolveTargets ctx review env followed.1 =
    (.ok result, last)) ∨ (resolveTargets ctx review env followed.1).2.store =
      followed.1.store
  follows : ∀ comment look, followed.1.store.views.comments[(review, id)]? = some comment →
    looked env ctx review id followed.1 = some look → look.follow followed.2 ≠ followed.2 →
      ¬ Unfollowed look.oldBlob look.newBlob (effectiveAnchor comment.anchor comment.state)
        (look.fate followed.2)

/-- If the file of the comment holds the blob of its last good anchor by the resolution,
the comment is live there afterwards, on its last good lines. -/
def Core.Revives (followed : Core × RepoPath) (ctx : Ctx) : Prop :=
  ∀ comment look path blob, followed.1.store.views.comments[(review, id)]? = some comment →
    (∃ result last, resolveTargets ctx review env followed.1 = (.ok result, last)) →
      looked env ctx review id followed.1 = some look →
        look.fate followed.2 = .present path blob →
          onBlob (effectiveAnchor comment.anchor comment.state) = some blob →
            (resolveFollowing env review id followed ctx).1.store.views.comments[
              (review, id)]? = some (Rows.reanchored
                (movedTo path (effectiveAnchor comment.anchor comment.state)) .live comment)

/-- The last good anchor of the comment names its file by the path the file has. -/
structure Core.Named (repoId : RepoId) (followed : Core × RepoPath) : Prop where
  consistent : Consistent followed.1.store.views
  named : ∃ comment, followed.1.store.views.comments[(review, id)]? = some comment ∧
    comment.state ≠ .deleted ∧
      Core.followed (effectiveAnchor comment.anchor comment.state) = some (repoId, followed.2)

variable {env review id} {repoId : RepoId} {followed : Core × RepoPath} {ctx : Ctx}

theorem Core.resolveFollowing_core : (resolveFollowing env review id followed ctx).1 =
    (resolveTargets ctx review env followed.1).2 := by
  unfold resolveFollowing
  rcases resolveTargets ctx review env followed.1 with ⟨outcome, last⟩
  cases outcome with
  | error error => rfl
  | ok result =>
    dsimp only
    cases looked env ctx review id followed.1 <;> rfl

/-- The last good anchor goes on naming the file by its path. -/
theorem Core.Named.step (named : Named review id repoId followed)
    (followable : Followable env review id followed ctx) :
    Named review id repoId (resolveFollowing env review id followed ctx) := by
  obtain ⟨consistent, comment, stored, kept, based⟩ := named
  have extends_ : Extends (Admissible env) followed.1
      (resolveTargets ctx review env followed.1).2 := resolveTargets_extends consistent
  refine ⟨by rw [resolveFollowing_core]; exact extends_.consistent, ?_⟩
  unfold resolveFollowing
  rcases run : resolveTargets ctx review env followed.1 with ⟨outcome, last⟩
  cases outcome with
  | error error =>
    refine ⟨comment, ?_, kept, based⟩
    rcases followable.completes with ⟨result, reached, returns⟩ | same
    · rw [run] at returns
      cases returns
    · rw [run] at same
      exact same ▸ stored
  | ok result =>
    have did := resolveTargets_looked consistent stored run
    dsimp only
    cases look_ : looked env ctx review id followed.1 with
    | none =>
      rw [look_] at did
      exact ⟨comment, did, kept, based⟩
    | some look =>
      rw [look_] at did
      obtain ⟨repoId', path, outcome, based', computed, row⟩ := did
      obtain ⟨rfl, rfl⟩ := Prod.mk.inj (Option.some.inj (based.symm.trans based'))
      obtain ⟨kept', based'⟩ :=
        Reanchor.follows kept based computed (followable.follows comment look stored look_)
      exact ⟨outcome.apply comment, row, kept', based'⟩

/-- Where the file is named by its path, a comment whose content is back is live. -/
theorem Core.Named.revives (named : Named review id repoId followed) :
    Revives env review id followed ctx := by
  obtain ⟨consistent, comment, stored, kept, based⟩ := named
  rintro other look path blob found ⟨result, last, run⟩ look_ present same
  obtain rfl := Option.some.inj (stored.symm.trans found)
  have did := resolveTargets_looked consistent stored run
  unfold resolveFollowing
  rw [run]
  dsimp only
  rw [look_] at did ⊢
  obtain ⟨repoId', path', outcome, based', computed, row⟩ := did
  obtain ⟨rfl, rfl⟩ := Prod.mk.inj (Option.some.inj (based.symm.trans based'))
  dsimp only
  rw [row, Reanchor.revives kept computed present same]

/-- In a run of resolutions in which no rename happens under a comment that cannot follow
it, a comment is live after each resolution by which its file holds the blob of its last
good anchor. -/
theorem run_revives (env : Environment) (steps : List Step) (review : ReviewId)
    (id : CommentId) {comment : Comment} {repoId : RepoId} {path : RepoPath}
    (stored : (Core.run env .initial steps).store.views.comments[(review, id)]? =
      some comment) (kept : comment.state ≠ .deleted)
    (based : Core.followed (effectiveAnchor comment.anchor comment.state) = some (repoId, path))
    (ctxs : List Ctx) (followable : Run.Steps (Core.resolveFollowing env review id)
      (Core.Followable env review id) (Core.run env .initial steps, path) ctxs) :
    Run.Steps (Core.resolveFollowing env review id)
      (Core.Revives env review id) (Core.run env .initial steps, path) ctxs := by
  have consistent := (reachable_run env steps).consistent
  have named : Run.Always (Core.resolveFollowing env review id)
      (Core.Named review id repoId) (Core.run env .initial steps, path) ctxs :=
    Run.steps_always _ (fun _ _ named met => named.step met)
      ⟨consistent, comment, stored, kept, based⟩ followable
  intro early ctx part
  exact (named early ((List.prefix_append early [ctx]).trans part)).revives

end Running

end Platform

/-! ### Edited, renamed and restored -/

namespace Restoring

def pathA : RepoPath := ⟨"a", RepoPath.valid_a⟩
def pathB : RepoPath := ⟨"b", by decide⟩

/-- The line as it was, and as it is after an edit. -/
def original : BlobEntry := ⟨⟨0⟩, .regular⟩
def edited : BlobEntry := ⟨⟨1⟩, .regular⟩

/-- One file whose line is edited, which is then renamed if it `renames`, and whose line
is then restored, each before some question. -/
def restoring (renames : Bool) : Environment where
  answer number call :=
    let late := if renames then pathB else pathA
    match call with
    | .resolve .. =>
      let stage := if number < 18 then 0 else if number < 31 then 1 else if number < 44 then 2 else 3
      .ok ⟨⟨stage⟩, .commit ⟨stage⟩⟩
    | .blob _ oid => .ok (if oid = original.oid then [120, 10] else [121, 10])
    | .treeSnapshot _ tree =>
      .ok (if tree = ⟨0⟩ then [⟨pathA, .file original.oid 2 false⟩]
        else if tree = ⟨1⟩ then [⟨pathA, .file edited.oid 2 false⟩]
        else if tree = ⟨2⟩ then [⟨late, .file edited.oid 2 false⟩]
        else [⟨late, .file original.oid 2 false⟩])
    | .changedFiles _ base _ =>
      .ok (if base = ⟨0⟩ then [⟨pathA, .modified original edited⟩]
        else if base = ⟨1⟩ then (if renames then [⟨pathB, .renamed pathA edited edited⟩] else [])
        else [⟨late, .modified edited original⟩])
    | other => Environment.calm.answer number other

/-- A review with a comment on the file's line. -/
def commented : List Step :=
  Session.opening ++ [Session.mutate (.addComment Session.reviewId ⟨5⟩ .note
    (.lines Session.repoId pathA .head original.oid (.single .FIRST) ⟨0⟩) "first" none)]

def commentOf (core : Core) : Option Comment :=
  core.store.views.comments[(Session.reviewId, (⟨5⟩ : CommentId))]?

def resolution : Ctx := Session.by_ Session.user

/-- The state, and the file's path, after some of the resolutions. -/
def restored (renames : Bool) (resolutions : Nat) : Core × RepoPath :=
  (List.replicate resolutions resolution).foldl
    (@Core.resolveFollowing .plain (restoring renames) Session.reviewId ⟨5⟩)
    (@Core.run .plain (restoring renames) .initial commented, pathA)

theorem restored_succ (renames : Bool) (resolutions : Nat) : restored renames (resolutions + 1) =
    @Core.resolveFollowing .plain (restoring renames) Session.reviewId ⟨5⟩
      (restored renames resolutions) resolution := by
  unfold restored
  rw [List.replicate_succ', List.foldl_append, List.foldl_cons, List.foldl_nil]

theorem returns_of_isOk [Platform] {env : Environment} {core : Core}
    (ok : (Core.resolveTargets resolution Session.reviewId env core).1.isOk) :
    ∃ result last, Core.resolveTargets resolution Session.reviewId env core =
      (.ok result, last) := by
  rcases run : Core.resolveTargets resolution Session.reviewId env core with ⟨outcome, last⟩
  rw [run] at ok
  cases outcome with
  | ok result => exact ⟨result, last, rfl⟩
  | error error => cases ok

/-- The resolution returns, and the file by it holds what the comment's last good anchor
is on. -/
theorem restored_holds (renames : Bool) :
    (@Core.resolveTargets .plain resolution Session.reviewId (restoring renames)
        (restored renames 2).1).1.isOk ∧
      (@Core.looked .plain (restoring renames) resolution Session.reviewId ⟨5⟩
        (restored renames 2).1).map (fun look => look.fate (restored renames 2).2) =
          some (.present (if renames then pathB else pathA) original.oid) ∧
      (commentOf (restored renames 2).1).map (fun comment =>
        onBlob (effectiveAnchor comment.anchor comment.state)) = some (some original.oid) := by
  cases renames <;> decide +kernel

/-- If the comment comes back as it should by the third resolution, it is live. -/
theorem restored_live {renames : Bool}
    (revives : @Core.Revives .plain (restoring renames) Session.reviewId ⟨5⟩
      (restored renames 2) resolution) :
    (commentOf (restored renames 3).1).map Comment.state = some .live := by
  obtain ⟨returns, looks, on⟩ := restored_holds renames
  obtain ⟨look, looked, fate⟩ := Option.map_eq_some_iff.mp looks
  obtain ⟨comment, found, blob⟩ := Option.map_eq_some_iff.mp on
  have run := @returns_of_isOk .plain (restoring renames) (restored renames 2).1 returns
  have row := revives comment look _ _ found run looked fate blob
  rw [← restored_succ renames 2] at row
  unfold commentOf
  rw [row]
  rfl

/-- The renamed file holds the line again, and the comment stays outdated. -/
theorem renamed_stays_outdated :
    ∃ ctxs, ¬ @Run.Steps _ _ (@Core.resolveFollowing .plain (restoring true) Session.reviewId ⟨5⟩)
      (@Core.Revives .plain (restoring true) Session.reviewId ⟨5⟩)
      (@Core.run .plain (restoring true) .initial commented, pathA) ctxs := by
  refine ⟨List.replicate 2 resolution ++ [resolution], fun steps => ?_⟩
  have revives : @Core.Revives .plain (restoring true) Session.reviewId ⟨5⟩ (restored true 2)
      resolution := steps (List.replicate 2 resolution) resolution (List.prefix_refl _)
  have live := restored_live revives
  have outdated : (commentOf (restored true 3).1).map (fun comment => comment.state == .live) =
      some false := by decide +kernel
  obtain ⟨comment, found, same⟩ := Option.map_eq_some_iff.mp outdated
  rw [found, Option.map_some, Option.some.injEq] at live
  rw [live] at same
  simp at same

/-- Where nothing is renamed, each resolution returns and finds the file where it was. -/
theorem restored_followable : ∀ resolutions < 3,
    (@Core.resolveTargets .plain resolution Session.reviewId (restoring false)
        (restored false resolutions).1).1.isOk ∧
      (@Core.looked .plain (restoring false) resolution Session.reviewId ⟨5⟩
        (restored false resolutions).1).all (fun look =>
          look.follow (restored false resolutions).2 = (restored false resolutions).2) := by
  decide +kernel

/-- Where nothing is renamed the comment is live again. -/
theorem restored_revives : (commentOf (restored false 3).1).map Comment.state = some .live := by
  let _ : Platform := .plain
  have opened : (commentOf (Core.run (restoring false) .initial commented)).map (fun comment =>
      (comment.state, Core.followed (effectiveAnchor comment.anchor comment.state))) =
        some (.live, some (Session.repoId, pathA)) := by
    decide +kernel
  obtain ⟨comment, stored, same⟩ := Option.map_eq_some_iff.mp opened
  obtain ⟨live, based⟩ := Prod.mk.inj same
  have followable : Run.Steps (Core.resolveFollowing (restoring false) Session.reviewId ⟨5⟩)
      (Core.Followable (restoring false) Session.reviewId ⟨5⟩)
      (Core.run (restoring false) .initial commented, pathA) (List.replicate 3 resolution) := by
    intro early ctx part
    have many : early ++ [ctx] = List.replicate (early.length + 1) resolution := by
      rw [List.eq_replicate_iff]
      exact ⟨by simp, fun other mem => List.eq_of_mem_replicate (part.subset mem)⟩
    rw [List.replicate_succ'] at many
    obtain ⟨shape, last⟩ := List.append_inj' many rfl
    obtain rfl := (List.cons.inj last).1
    have few : early.length < 3 := by
      have longer := part.length_le
      rw [List.length_append, List.length_replicate] at longer
      exact longer
    obtain ⟨returns, still⟩ := restored_followable early.length few
    rw [shape]
    refine ⟨.inl (returns_of_isOk returns), fun _ look _ looks renamed => absurd ?_ renamed⟩
    change Core.looked _ _ _ _ (restored false early.length).1 = some look at looks
    rw [looks, Option.all_some] at still
    exact of_decide_eq_true still
  have revives := run_revives (restoring false) commented Session.reviewId ⟨5⟩ stored
    (by rw [live]; simp) based (List.replicate 3 resolution) followable
  exact restored_live (revives (List.replicate 2 resolution) resolution (List.prefix_refl _))

end Restoring

end Nits.ReviewCore
