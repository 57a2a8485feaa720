import Nits.ReviewCore.Checked
import Nits.ReviewCore.Files

/-!
# Diff scopes

Which targets a scope selects, starting from the resolved targets of a review. Since a
check, each target is diffed against the head that the check names for its repository;
where the check is current nothing has changed since.
-/

namespace Nits.ReviewCore

open Logical Protocol

namespace Core

def target (resolved : NonEmpty ResolvedTarget) (repoId : RepoId) : CoreM ResolvedTarget :=
  Program.orStop (.notFound .repo (toString repoId))
    (resolved.items.find? fun target => target.repoId = repoId)

def requireTargets (targets : List ResolvedTarget) : CoreM (NonEmpty ResolvedTarget) :=
  match NonEmpty.new targets with
  | .ok targets => pure targets
  | .error _ => invalid "review has no targets"

/-- A target against the head that a check names for its repository. -/
def sinceTarget (checked : NonEmpty ResolvedTarget) (current : ResolvedTarget) :
    CoreM ResolvedTarget := do
  let known ← target checked current.repoId
  pure { current with base := known.head }

/-- A target whose head, if it is a working tree, stops at its captured commit. -/
def committedTarget (id : ReviewId) (current : ResolvedTarget) : CoreM ResolvedTarget := do
  match current.head.source with
  | .commit _ => pure current
  | .workingTree _ _ none => invalid "snapshot has no captured HEAD commit"
  | .workingTree _ _ (some oid) =>
    let repo ← reviewRepo id current.repoId
    let head ← outside (.resolve repo (.commit oid))
    pure { current with head }

/-- The working tree of one repository against its captured commit. A target that is a
fixed commit is inspected at its live checkout. -/
def worktreeTarget (id : ReviewId) (current : ResolvedTarget) : CoreM ResolvedTarget := do
  let repo ← reviewRepo id current.repoId
  match current.head.source with
  | .workingTree _ _ none => invalid "snapshot has no captured working-tree HEAD commit"
  | .workingTree _ _ (some oid) =>
    let base ← outside (.resolve repo (.commit oid))
    pure { current with base }
  | .commit _ =>
    let base ← outside (.resolve repo .head)
    let head ← outside (.resolve repo .workingTree)
    pure { current with base, head }

/-- The targets that a scope selects. How a commit is diffed against its first parent is
a parameter. -/
def scopedTargets (commitStep : RepoId → CommitOid → CoreM ResolvedTarget) (scope : DiffScope)
    (id : ReviewId) : CoreM (NonEmpty ResolvedTarget) := do
  let (_, resolved) ← resolved id
  match scope with
  | .all => pure resolved
  | .requested requestId =>
    let snapshot ← reviewSnapshot id
    let request ← Program.orStop (.invalid "request does not belong to this review")
      (snapshot.requests.find? fun request => request.id = requestId)
    match request.targets with
    | .unknown => invalid "historical request has unknown targets"
    | .captured targets => pure targets
  | .sinceCheckpoint checkpointId =>
    let snapshot ← reviewSnapshot id
    let checkpoint ← Program.orStop (.invalid "checkpoint does not belong to this review")
      (snapshot.checkpoints.find? fun checkpoint => checkpoint.id = checkpointId)
    Program.require (checkpoint.targets.items.length = resolved.items.length)
      (.invalid "checkpoint repository set differs from current review")
    let targets ← Program.forEach (sinceTarget checkpoint.targets) resolved.items
    requireTargets targets
  | .committed =>
    let targets ← Program.forEach (committedTarget id) resolved.items
    requireTargets targets
  | .commit repoId oid =>
    let _ ← target resolved repoId
    let _ ← reviewRepo id repoId
    let step ← commitStep repoId oid
    pure (.singleton step)
  | .worktree repoId =>
    let current ← target resolved repoId
    let selected ← worktreeTarget id current
    pure (.singleton selected)

end Core

/-- Diffing a tree with itself gives no change. -/
def Environment.SameTreeUnchanged (env : Environment) : Prop :=
  ∀ number git tree changes,
    env.answer number (.changedFiles git tree tree) = .ok changes → changes = []

/-! ## Since a current check -/

/-- The targets diffed since a check: each against the head that the check names. -/
def sinceTargets (checked : NonEmpty ResolvedTarget) (current : List ResolvedTarget) :
    List ResolvedTarget :=
  current.map fun target =>
    match checked.items.find? fun known => known.repoId = target.repoId with
    | none => target
    | some known => { target with base := known.head }

/-- What is collected came from some element. -/
theorem exists_of_forall₂ {α β : Type} {relation : α → β → Prop} {left : List α} {right : List β}
    (related : List.Forall₂ relation left right) {value : β} (mem : value ∈ right) :
    ∃ item ∈ left, relation item value := by
  induction related with
  | nil => cases mem
  | cons first rest ih =>
    obtain rfl | later := List.mem_cons.mp mem
    · exact ⟨_, List.mem_cons_self, first⟩
    · obtain ⟨item, held, related⟩ := ih later
      exact ⟨item, List.mem_cons_of_mem _ held, related⟩

section Since

variable {env : Environment} {core last : Core} {id : ReviewId}
  {checked resolved : NonEmpty ResolvedTarget}

/-- A loop over targets that the check names asks nothing. -/
theorem sinceTargets_eq {targets : List ResolvedTarget}
    (named : ∀ target ∈ targets, ∃ known ∈ checked.items, known.repoId = target.repoId) :
    Program.forEach (Core.sinceTarget checked) targets env core =
      (.ok (sinceTargets checked targets), core) := by
  induction targets with
  | nil => rfl
  | cons target targets ih =>
    obtain ⟨known, mem, repo⟩ := named target List.mem_cons_self
    have rest := ih fun other later => named other (List.mem_cons_of_mem _ later)
    have found : ∃ first, checked.items.find? (fun known => known.repoId = target.repoId) =
        some first := by
      rw [← Option.isSome_iff_exists, List.find?_isSome]
      exact ⟨known, mem, by simpa using repo⟩
    obtain ⟨first, found⟩ := found
    have one : Core.sinceTarget checked target env core =
        (.ok { target with base := first.head }, core) := by
      unfold Core.sinceTarget Core.target
      rw [found]
      rfl
    rw [Program.forEach, Program.bind_eq one, Program.bind_eq rest]
    simp only [sinceTargets, List.map_cons, found]
    rfl

theorem eventSeq_injective : Function.Injective ReviewCheckpointId.eventSeq := by
  rintro ⟨left⟩ ⟨right⟩ same
  rw [show left = right from same]

/-- A live review is read without a question. -/
theorem review_eq {record : ReviewRecord} (live : LiveReview core.store.views id record) :
    Core.review id env core = (.ok record, core) := by
  unfold Core.review
  rw [Program.bind_eq Program.read_eq, Store.review, live.found, Program.orStop,
    Program.pure_bind, live.live]
  rfl

theorem requireTargets_eq {targets : List ResolvedTarget} (nonempty : targets ≠ []) :
    Core.requireTargets targets env core = (.ok ⟨targets, nonempty⟩, core) := by
  cases targets with
  | nil => exact absurd rfl nonempty
  | cons head tail => rfl

/-- Where a check is current, every target is diffed between equal trees. -/
theorem sinceTargets_same (distinct : Distinct checked)
    (current : sameTargets checked resolved = true) {target : ResolvedTarget}
    (mem : target ∈ sinceTargets checked resolved.items) : target.base.tree = target.head.tree := by
  obtain ⟨now, held, rfl⟩ := List.mem_map.mp mem
  obtain ⟨known, listed, partner⟩ := exists_partner distinct current held
  rw [distinct.find? listed partner.repo]
  exact partner.head_tree

/-- The scope since a current check selects targets with equal trees on both sides. -/
theorem scopedTargets_current {commitStep : RepoId → CommitOid → CoreM ResolvedTarget}
    {snapshot : ReviewSnapshot} (found : core.store.reviewSnapshot id = some snapshot)
    (keyed : Keyed core.store.views) {checkpoint : ReviewCheckpoint}
    (listed : checkpoint ∈ snapshot.checkpoints) (distinct : Distinct checkpoint.targets)
    (recorded : snapshot.resolved = some resolved)
    (current : sameTargets checkpoint.targets resolved = true) :
    ∃ targets, Core.scopedTargets commitStep (.sinceCheckpoint checkpoint.id) id env core =
        (.ok targets, core) ∧ targets.items = sinceTargets checkpoint.targets resolved.items := by
  obtain ⟨record, stored, live, rfl⟩ := Store.reviewSnapshot_eq_some.mp found
  have looked : Core.resolved id env core = (.ok (record, resolved), core) := by
    have recorded : record.resolved = some resolved := recorded
    rw [Core.resolved, Program.bind_eq (review_eq ⟨stored, live⟩), recorded]
    rfl
  have snapshotted : Core.reviewSnapshot id env core =
      (.ok (core.store.snapshotOf id record), core) := by
    unfold Core.reviewSnapshot
    rw [Program.bind_eq Program.read_eq, found]
    rfl
  have chosen : (core.store.snapshotOf id record).checkpoints.find?
      (fun known => known.id = checkpoint.id) = some checkpoint := by
    have held := keyed.checkpoints_held id
    have mem : core.store.views.checkpoints[(id, checkpoint.id.eventSeq)]? = some checkpoint :=
      (held.mem_iff checkpoint).mp listed
    have same := held.find? checkpoint.id.eventSeq
    rw [mem] at same
    rw [← same]
    congr 1
    funext known
    exact decide_eq_decide.mpr (eventSeq_injective.eq_iff).symm
  have lengths : checkpoint.targets.items.length = resolved.items.length :=
    (sameTargets_iff.mp current).1
  have named : ∀ target ∈ resolved.items, ∃ known ∈ checkpoint.targets.items,
      known.repoId = target.repoId := by
    intro target mem
    obtain ⟨known, listed, partner⟩ := exists_partner distinct current mem
    exact ⟨known, listed, partner.repo⟩
  have nonempty : sinceTargets checkpoint.targets resolved.items ≠ [] := by
    simpa [sinceTargets] using resolved.nonempty
  refine ⟨⟨_, nonempty⟩, ?_, rfl⟩
  unfold Core.scopedTargets
  rw [Program.bind_eq looked]
  dsimp only
  rw [Program.bind_eq snapshotted, chosen, Program.orStop, Program.pure_bind,
    Program.bind_eq (Program.require_eq lengths), Program.bind_eq (sinceTargets_eq named),
    requireTargets_eq nonempty]

/-- Since a current check no file has changed, if git finds none between equal trees. -/
theorem filesScoped_current {commitStep : RepoId → CommitOid → CoreM ResolvedTarget}
    (unchanged : env.SameTreeUnchanged)
    {snapshot : ReviewSnapshot} (found : core.store.reviewSnapshot id = some snapshot)
    (keyed : Keyed core.store.views) {checkpoint : ReviewCheckpoint}
    (listed : checkpoint ∈ snapshot.checkpoints) (distinct : Distinct checkpoint.targets)
    (recorded : snapshot.resolved = some resolved)
    (current : sameTargets checkpoint.targets resolved = true) {files : List FileChange}
    {targets : NonEmpty ResolvedTarget}
    (run : Core.filesScoped (Core.scopedTargets commitStep (.sinceCheckpoint checkpoint.id)) id
      env core = (.ok (files, targets), last)) : files = [] := by
  obtain ⟨record, stored, live, -⟩ := Store.reviewSnapshot_eq_some.mp found
  obtain ⟨selected, selects, rebased⟩ := @scopedTargets_current env core id resolved
    commitStep snapshot found keyed checkpoint listed distinct recorded current
  unfold Core.filesScoped at run
  rw [Program.bind_eq (review_eq ⟨stored, live⟩), Program.bind_eq selects] at run
  obtain ⟨workspace, _, -, run⟩ := Program.bind_eq_ok_iff.mp run
  obtain ⟨listings, _, looped, run⟩ := Program.bind_eq_ok_iff.mp run
  obtain ⟨same, -⟩ := Program.pure_eq_ok_iff.mp run
  obtain rfl := (Prod.mk.inj same).1
  have collected := Program.forEach_eq_ok looped
  rw [List.flatten_eq_nil_iff]
  intro listing mem
  obtain ⟨target, held, before, after, ran⟩ := exists_of_forall₂ collected mem
  obtain ⟨number, git, changes, answered, rfl⟩ := Core.targetFiles_eq_ok ran
  have equal : target.base.tree = target.head.tree := by
    refine sinceTargets_same distinct current ?_
    rw [← rebased]
    exact (byName_perm workspace selected.items).mem_iff.mp held
  rw [equal] at answered
  rw [unchanged _ _ _ _ answered]
  rfl

end Since

/-! ## Checks are complete -/

/-- What holds of the checks that a core has recorded. -/
structure Core.ChecksComplete (env : Environment)
    (commitStep : RepoId → CommitOid → CoreM ResolvedTarget) (core : Core) : Prop where
  /-- Every check names each repository of its review once, and valid revisions only. -/
  recorded : ∀ {key : ReviewId × Seq} {checkpoint},
    core.store.views.checkpoints[key]? = some checkpoint → Checked env core.store checkpoint
  /-- Each reviewer has one latest check, its check of highest identity. -/
  latest : ∀ {id snapshot}, core.store.reviewSnapshot id = some snapshot → ∀ current,
    ((latestCheckpoints snapshot.checkpoints current).map fun entry =>
        entry.checkpoint.reviewer).Nodup ∧
      ∀ checkpoint, (∃ entry ∈ latestCheckpoints snapshot.checkpoints current,
        entry.checkpoint = checkpoint) ↔ LatestOf snapshot.checkpoints checkpoint
  /-- Lists that name no repository twice are compared by an equivalence that ignores their
  order. -/
  compares : ∀ {a b c}, Distinct a → sameTargets a a = true ∧
    (sameTargets a b = true → sameTargets b a = true) ∧
    (sameTargets a b = true → sameTargets b c = true → sameTargets a c = true) ∧
    (a.items.Perm b.items → sameTargets a b = true)
  /-- Since a current check no file has changed. -/
  fresh : ∀ {id snapshot checkpoint}, core.store.reviewSnapshot id = some snapshot →
    ⟨checkpoint, .current⟩ ∈ latestCheckpoints snapshot.checkpoints snapshot.resolved →
    (∃ targets, Core.scopedTargets commitStep (.sinceCheckpoint checkpoint.id) id env core =
        (.ok targets, core)) ∧
      ∀ files targets last,
        Core.filesScoped (Core.scopedTargets commitStep (.sinceCheckpoint checkpoint.id)) id
          env core = (.ok (files, targets), last) → files = []
  /-- A request is said to repeat a check only if the targets compare equal and every working
  tree's head is known on both sides, and the same. -/
  repeats : ∀ {key : ReviewId × Seq} {checkpoint targets id},
    core.store.views.checkpoints[key]? = some checkpoint →
    RequestCheckpointComparison.against (some checkpoint) targets = .compared id .sameTargets →
    sameTargets checkpoint.targets targets = true ∧ ∀ old ∈ checkpoint.targets.items,
      ∀ new ∈ targets.items, new.repoId = old.repoId →
        SameCapture old.base new.base ∧ SameCapture old.head new.head

/-- Checks are complete and freshness means content, in every state that a daemon reaches. -/
theorem Reachable.checksComplete [Platform] {env : Environment} (unchanged : env.SameTreeUnchanged)
    (commitStep : RepoId → CommitOid → CoreM ResolvedTarget) {core : Core}
    (reachable : Reachable env core) : Core.ChecksComplete env commitStep core := by
  have keyed : Keyed core.store.views := reachable.consistent.toKeyed
  have out : core.store.ChecksOut env := reachable.checksOut
  constructor
  · exact out.checks
  · intro id snapshot found current
    obtain ⟨record, -, -, rfl⟩ := Store.reviewSnapshot_eq_some.mp found
    exact ⟨latestCheckpoints_nodup _ _,
      fun checkpoint => latestCheckpoints_iff (keyed.checkpoints_held id).nodup⟩
  · intro a b c distinct
    exact ⟨sameTargets_refl a, sameTargets_symm distinct, sameTargets_trans, sameTargets_perm⟩
  · intro id snapshot checkpoint found current
    obtain ⟨kept, fresh⟩ := mem_latestCheckpoints.mp current
    have listed := ((KeepsLatest.folded snapshot.checkpoints).sound kept).2.listed
    have distinct : Distinct checkpoint.targets := by
      obtain ⟨record, -, -, rfl⟩ := Store.reviewSnapshot_eq_some.mp found
      obtain ⟨seq, stored⟩ := Table.mem_under.mp listed
      exact (out.checks stored).distinct
    cases resolved : snapshot.resolved with
    | none =>
      rw [resolved] at fresh
      cases fresh
    | some targets =>
      rw [resolved, Option.elim_some] at fresh
      have same : sameTargets checkpoint.targets targets = true := by
        by_contra apart
        rw [if_neg apart] at fresh
        cases fresh
      obtain ⟨selected, selects, -⟩ := @scopedTargets_current env core id targets
        commitStep snapshot found keyed checkpoint listed distinct resolved same
      exact ⟨⟨selected, selects⟩, fun files _ last run =>
        filesScoped_current unchanged found keyed listed distinct resolved same run⟩
  · intro key checkpoint targets id stored repeats
    exact against_same (out.checks stored).distinct repeats

namespace Session

/-- What the calm world resolves the review of two repositories to. -/
def calmTargets : NonEmpty ResolvedTarget where
  items := [repoId, ⟨9⟩].map fun id => ⟨id, ⟨⟨0⟩, .commit ⟨0⟩⟩, ⟨⟨0⟩, .commit ⟨0⟩⟩⟩
  nonempty := by decide

/-- The session's user checks the review. -/
def checking : List Step := paired ++ [mutate (.recordCheckpoint reviewId calmTargets none)]

end Session

open Session in
/-- The check of a session is complete, and current: nothing has changed since. -/
theorem checking_complete :
    @Core.ChecksComplete .calm (fun _ _ => Program.stop (.invalid "no commits"))
        (@Core.run .plain .calm .initial checking) ∧
      (@Core.run .plain .calm .initial checking).store.views.checkpoints[(reviewId,
        (6 : Seq))]?.isSome := by
  let _ : Platform := .plain
  refine ⟨Reachable.checksComplete ?_ _ ⟨checking, rfl⟩, by decide +kernel⟩
  intro number git tree changes answered
  exact (Except.ok.inj answered).symm

end Nits.ReviewCore
