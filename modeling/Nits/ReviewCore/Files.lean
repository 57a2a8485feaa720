import Nits.Protocol.TreeOrder
import Nits.ReviewCore.DirectoryPlan

/-!
# Changed files

The flat form of the merged tree: every changed file across the targets of a scope, by
the display names of the repositories and then in tree order. Which targets a scope
selects is a parameter.
-/

namespace Nits.ReviewCore

open Logical Protocol

/-! ## The listing -/

/-- The display name that a workspace gives a repository; blank if it has none. -/
def repoName (workspace : Workspace) (repoId : RepoId) : String :=
  ((workspace.repos.find? fun repo => repo.id = repoId).map Repo.displayName).getD ""

/-- What targets sort by. -/
def nameKey (workspace : Workspace) (repoId : RepoId) : String × RepoId :=
  (repoName workspace repoId, repoId)

def byName (workspace : Workspace) (targets : List ResolvedTarget) : List ResolvedTarget :=
  sortWith (fun left right => TableKey.order (nameKey workspace left.repoId)
    (nameKey workspace right.repoId)) targets

/-- Tree display order (dirs first), so every client shows and steps files in the same
order without re-sorting. -/
def inTreeOrder (repoId : RepoId) (changes : List FileChangeRaw) : List FileChange :=
  (sortWith (fun left right => left.path.treeOrder right.path) changes).map fun change =>
    ⟨repoId, change.path, change.kind⟩

namespace Core

def targetFiles (workspaceId : WorkspaceId) (target : ResolvedTarget) : CoreM (List FileChange) := do
  let repo ← workspaceRepo workspaceId target.repoId
  let changes ← outside (.changedFiles repo target.base.tree target.head.tree)
  pure (inTreeOrder target.repoId changes)

/-- The changed files under a scope, with the targets they were diffed between. -/
def filesScoped (scopedTargets : ReviewId → CoreM (NonEmpty ResolvedTarget)) (id : ReviewId) :
    CoreM (List FileChange × NonEmpty ResolvedTarget) := do
  let record ← review id
  let resolved ← scopedTargets id
  let workspace ← workspace record.review.workspaceId
  let files ← Program.forEach (targetFiles record.review.workspaceId)
    (byName workspace resolved.items)
  pure (files.flatten, resolved)

/-- Every changed file across all targets, ordered by repo display name then path. -/
def files (id : ReviewId) : CoreM (List FileChange) := do
  let (files, _) ← filesScoped (fun id => do let (_, targets) ← resolved id; pure targets) id
  pure files

end Core

/-! ## What is listed -/

/-- The targets of a workspace, each repository once, and what git says changed in each
repository, each path once. -/
structure Listing where
  workspace : Workspace
  targets : List ResolvedTarget
  changed : RepoId → List FileChangeRaw
  unique : (targets.map ResolvedTarget.repoId).Nodup
  distinct : ∀ repoId, ((changed repoId).map FileChangeRaw.path).Nodup

namespace Listing

/-- The changed files by the names of the repositories, then in tree order. -/
def files (listing : Listing) : List FileChange :=
  (byName listing.workspace listing.targets).flatMap fun target =>
    inTreeOrder target.repoId (listing.changed target.repoId)

/-- Git gave the changes of each target in answer to a question about its two trees. -/
def Answered (env : Environment) (listing : Listing) : Prop :=
  ∀ target ∈ listing.targets, ∃ number git,
    env.answer number (.changedFiles git target.base.tree target.head.tree) =
      .ok (listing.changed target.repoId)

end Listing

/-- Git lists every changed path once. -/
def Environment.ListsOnce (env : Environment) : Prop :=
  ∀ number git base head changes,
    env.answer number (.changedFiles git base head) = .ok changes →
      (changes.map FileChangeRaw.path).Nodup

theorem byName_perm (workspace : Workspace) (targets : List ResolvedTarget) :
    (byName workspace targets).Perm targets :=
  sortWith_perm _ targets

namespace Core

variable {env : Environment} {core last : Core}

theorem targetFiles_eq_ok {workspaceId : WorkspaceId} {target : ResolvedTarget}
    {files : List FileChange} (run : targetFiles workspaceId target env core = (.ok files, last)) :
    ∃ number git changes,
      env.answer number (.changedFiles git target.base.tree target.head.tree) =
          .ok changes ∧
        files = inTreeOrder target.repoId changes := by
  obtain ⟨git, looked, -, run⟩ := Program.bind_eq_ok_iff.mp run
  obtain ⟨changes, _, asked, run⟩ := Program.bind_eq_ok_iff.mp run
  obtain ⟨answered, rfl⟩ := outside_eq_ok_iff.mp asked
  obtain ⟨rfl, -⟩ := Program.pure_eq_ok_iff.mp run
  exact ⟨looked.calls, git, changes, answered, rfl⟩

/-- A loop over targets of different repositories lists what git answered for each. -/
theorem exists_changed {env : Environment} {targets : List ResolvedTarget}
    {files : List (List FileChange)} (unique : (targets.map ResolvedTarget.repoId).Nodup)
    (lists : env.ListsOnce) (collected : List.Forall₂ (fun target files => ∃ number git changes,
      env.answer number (.changedFiles git target.base.tree target.head.tree) =
          .ok changes ∧
        files = inTreeOrder target.repoId changes) targets files) :
    ∃ changed : RepoId → List FileChangeRaw,
      (∀ repoId, ((changed repoId).map FileChangeRaw.path).Nodup) ∧
      (∀ target ∈ targets, ∃ number git,
        env.answer number (.changedFiles git target.base.tree target.head.tree) =
          .ok (changed target.repoId)) ∧
      files = targets.map fun target => inTreeOrder target.repoId (changed target.repoId) := by
  induction collected with
  | nil => exact ⟨fun _ => [], fun _ => List.nodup_nil, by simp, rfl⟩
  | @cons target listed targets rest first others ih =>
    obtain ⟨number, git, changes, answered, rfl⟩ := first
    obtain ⟨fresh, unique⟩ := List.nodup_cons.mp unique
    obtain ⟨changed, once, given, rfl⟩ := ih unique
    have elsewhere : ∀ other ∈ targets, other.repoId ≠ target.repoId := by
      intro other mem same
      exact fresh (List.mem_map.mpr ⟨other, mem, same⟩)
    refine ⟨fun repoId => if repoId = target.repoId then changes else changed repoId, ?_, ?_, ?_⟩
    · intro repoId
      by_cases here : repoId = target.repoId
      · simpa only [if_pos here] using lists _ _ _ _ _ answered
      · simpa only [if_neg here] using once repoId
    · intro other mem
      obtain rfl | later := List.mem_cons.mp mem
      · exact ⟨number, git, by simpa using answered⟩
      · simpa only [if_neg (elsewhere other later)] using given other later
    · have rest : targets.map (fun other => inTreeOrder other.repoId (changed other.repoId)) =
          targets.map fun other => inTreeOrder other.repoId
            (if other.repoId = target.repoId then changes else changed other.repoId) :=
        List.map_congr_left fun other mem => by rw [if_neg (elsewhere other mem)]
      simp only [List.map_cons, ↓reduceIte, rest]

/-- A listing that returns shows what git answered for the targets it names. -/
theorem filesScoped_eq_ok {scopedTargets : ReviewId → CoreM (NonEmpty ResolvedTarget)}
    {id : ReviewId} {files : List FileChange} {resolved : NonEmpty ResolvedTarget}
    (run : filesScoped scopedTargets id env core = (.ok (files, resolved), last))
    (lists : env.ListsOnce) (unique : (resolved.items.map ResolvedTarget.repoId).Nodup) :
    ∃ listing : Listing, listing.targets = resolved.items ∧ listing.Answered env ∧
      (∃ record before after, review id env core = (.ok record, before) ∧
        workspace record.review.workspaceId env after =
          (.ok listing.workspace, after)) ∧
      files = listing.files := by
  obtain ⟨record, before, found, run⟩ := Program.bind_eq_ok_iff.mp run
  obtain ⟨targets, middle, -, run⟩ := Program.bind_eq_ok_iff.mp run
  obtain ⟨workspace_, after, stored, run⟩ := Program.bind_eq_ok_iff.mp run
  obtain ⟨collected, reached, looped, run⟩ := Program.bind_eq_ok_iff.mp run
  obtain ⟨same, -⟩ := Program.pure_eq_ok_iff.mp run
  obtain ⟨rfl, rfl⟩ := Prod.mk.inj same
  have uniqueByName : ((byName workspace_ resolved.items).map ResolvedTarget.repoId).Nodup :=
    ((byName_perm workspace_ resolved.items).map _).nodup_iff.mpr unique
  have answers := (Program.forEach_eq_ok looped).imp fun target files ⟨_, _, one⟩ =>
    targetFiles_eq_ok one
  obtain ⟨changed, once, given, rfl⟩ := exists_changed uniqueByName lists answers
  refine ⟨⟨workspace_, resolved.items, changed, unique, once⟩, rfl, ?_, ?_, ?_⟩
  · intro target mem
    exact given target ((byName_perm workspace_ resolved.items).mem_iff.mpr mem)
  · have kept : after = middle := by
      obtain ⟨store, _, looked, found⟩ := Program.bind_eq_ok_iff.mp stored
      obtain ⟨-, rfl⟩ := Program.read_eq_ok_iff.mp looked
      exact (Program.orStop_eq_ok_iff.mp found).2
    exact ⟨record, before, middle, found, kept ▸ stored⟩
  · rw [Listing.files, List.flatMap_def]

end Core

end Nits.ReviewCore
