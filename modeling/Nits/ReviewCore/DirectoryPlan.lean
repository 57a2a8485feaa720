import Nits.ReviewCore.Registry
import Nits.ReviewCore.TargetUpdate

/-!
# Plans of directory requests

A directory request first looks, and then carries out what it decided: it resolves a
review that matches, or creates one, with its workspace where the checkout has none.
Everything up to the first commit is a look.
-/

namespace Nits.ReviewCore.Core

open Logical Protocol

/-- What a directory request decided, before anything was committed. -/
inductive DirectoryPlan
  | reuse (review : DirectoryReview)
  | create (root : String) (located : Option (WorkspaceId × RepoId)) (base headSpec : RefSpec)

/-- The look of a directory request. -/
def directoryPlan (options : EnsureDirectoryReview) : CoreM DirectoryPlan := do
  let path ← directoryPath options.path
  let root ← directoryRoot path
  let git ← outsideOrInvalid (.openRepo root)
  let located ← directoryAttachment root
  let headSpec := options.head.getD .workingTree
  let requestedBase := options.base.map BaseRefSpec.toRefSpec
  requireResolvable git headSpec
  requireRequestedBase git requestedBase
  match ← reusableReview requestedBase headSpec located with
  | some review => pure (.reuse review)
  | none =>
    let base ← chosenBase git requestedBase
    requireResolvable git base
    pure (.create root located base headSpec)

/-! ## What a plan comes from -/

/-- The core after a number of questions. -/
def after (core : Core) (questions : Nat) : Core := { core with calls := core.calls + questions }

@[simp] theorem after_calls {core : Core} {questions : Nat} :
    (core.after questions).calls = core.calls + questions :=
  rfl

@[simp] theorem after_store {core : Core} {questions : Nat} :
    (core.after questions).store = core.store :=
  rfl

/-- Every membership of every workspace. -/
def attachments (store : Store) : List (WorkspaceId × Repo) :=
  store.workspaces.flatMap fun workspace => workspace.repos.map fun repo => (workspace.id, repo)

/-- The attachments that are found at the checkout `root`, when they are asked for one
after the other from question `number` on. -/
def attachmentsAt (env : Environment) (root : String) :
    Nat → List (WorkspaceId × Repo) → List (WorkspaceId × RepoId)
  | _, [] => []
  | number, (workspaceId, repo) :: rest =>
    if env.answer number (.resolveCheckout repo.path) = .ok root then
      (workspaceId, repo.id) :: attachmentsAt env root (number + 1) rest
    else attachmentsAt env root (number + 1) rest

/-- The first open review of the located attachment that matches the requested refs. -/
def directoryMatch (store : Store) (base : Option RefSpec) (headSpec : RefSpec) :
    Option (WorkspaceId × RepoId) → Option (ReviewId × ReviewTarget)
  | none => none
  | some (workspaceId, repoId) => (store.reviews workspaceId).findSome? fun record =>
    (matchingTarget repoId base headSpec record.review).map fun target => (record.review.id, target)

section Inverting

variable {env : Environment} {core last : Core} {path root : String} {git : GitRepo}
  {base : Option RefSpec} {headSpec : RefSpec} {located : Option (WorkspaceId × RepoId)}

/-- What follows a question depends on its answer. -/
theorem ask_bind_eq {call : Call} {α : Type} {next : Except ExternalError call.Answer → CoreM α} :
    (ask call >>= next) env core =
      next (env.answer core.calls call) env (core.after 1) :=
  rfl

theorem workspace_eq {workspaceId : WorkspaceId} {workspace : Workspace}
    (found : core.store.views.workspaces[workspaceId]? = some workspace) :
    Core.workspace workspaceId env core = (.ok workspace, core) := by
  have ran : Core.workspace workspaceId env core =
      Program.orStop (.notFound .workspace (toString workspaceId))
        core.store.views.workspaces[workspaceId]? env core := rfl
  rw [ran, found]
  rfl

theorem outside_eq_ok_iff {call : Call} {answer : call.Answer} :
    outside call env core = (.ok answer, last) ↔
      env.answer core.calls call = .ok answer ∧ last = core.after 1 := by
  unfold outside
  rw [ask_bind_eq]
  cases env.answer core.calls call with
  | ok found => rw [Program.pure_eq_ok_iff, Except.ok.injEq, eq_comm]
  | error error => simp [Program.stop_eq_ok_iff]

theorem outsideOrInvalid_eq_ok_iff {call : Call} {answer : call.Answer} :
    outsideOrInvalid call env core = (.ok answer, last) ↔
      env.answer core.calls call = .ok answer ∧ last = core.after 1 := by
  unfold outsideOrInvalid
  rw [ask_bind_eq]
  cases env.answer core.calls call with
  | ok found => rw [Program.pure_eq_ok_iff, Except.ok.injEq, eq_comm]
  | error error => simp [invalid, Program.stop_eq_ok_iff]

theorem requireResolvable_eq_ok_iff : requireResolvable git headSpec env core = (.ok (), last) ↔
      (∃ revision, env.answer core.calls (.resolve git headSpec) = .ok revision) ∧
        last = core.after 1 := by
  unfold requireResolvable
  rw [ask_bind_eq]
  cases env.answer core.calls (.resolve git headSpec) with
  | ok found => simp [Program.pure_eq_ok_iff]
  | error error => simp [invalid, Program.stop_eq_ok_iff]

theorem directoryPath_eq_ok_iff {found : String} : directoryPath path env core = (.ok found, last) ↔
      env.answer core.calls (.canonicalize path) = .ok found ∧ last = core.after 1 := by
  unfold directoryPath
  rw [ask_bind_eq]
  cases env.answer core.calls (.canonicalize path) with
  | ok found => rw [Program.pure_eq_ok_iff, Except.ok.injEq, eq_comm]
  | error error => simp [invalid, Program.stop_eq_ok_iff]

theorem directoryRoot_eq_ok_iff : directoryRoot path env core = (.ok root, last) ↔
      env.answer core.calls (.gitRoot path) = .ok (some root) ∧ last = core.after 1 := by
  unfold directoryRoot
  rw [ask_bind_eq]
  rcases env.answer core.calls (.gitRoot path) with error | _ | found
  · simp [invalid, Program.stop_eq_ok_iff]
  · simp [invalid, Program.stop_eq_ok_iff]
  · simp only [Except.ok.injEq, Option.some.injEq]
    rw [Program.pure_eq_ok_iff, eq_comm]

/-- The attachments are asked one after the other. -/
theorem forEach_attachedAt {items : List (WorkspaceId × Repo)} :
    ∃ located, Program.forEach (attachedAt root) items env core =
        (.ok located, core.after items.length) ∧
      located.filterMap id = attachmentsAt env root core.calls items := by
  induction items generalizing core with
  | nil => exact ⟨[], rfl, rfl⟩
  | cons item rest ih =>
    obtain ⟨workspaceId, repo⟩ := item
    obtain ⟨located, run, found⟩ := @ih (core.after 1)
    have asked : attachedAt root (workspaceId, repo) env core =
        (.ok (if env.answer core.calls (.resolveCheckout repo.path) = .ok root then
          some (workspaceId, repo.id) else none), core.after 1) := by
      unfold attachedAt
      rw [ask_bind_eq]
      dsimp only
      cases env.answer core.calls (.resolveCheckout repo.path) with
      | ok checkout =>
        simp only [Except.ok.injEq]
        rfl
      | error error => rfl
    have counted : (core.after 1).after rest.length = core.after (rest.length + 1) := by
      unfold after
      rw [Nat.add_assoc, Nat.add_comm 1]
    refine ⟨(if env.answer core.calls (.resolveCheckout repo.path) = .ok root then
      some (workspaceId, repo.id) else none) :: located, ?_, ?_⟩
    · rw [Program.forEach, Program.bind_eq asked, Program.bind_eq run, counted]
      rfl
    · rw [attachmentsAt]
      split
      · simpa using found
      · simpa using found

theorem directoryAttachment_eq_ok_iff : directoryAttachment root env core = (.ok located, last) ↔
      attachmentsAt env root core.calls (attachments core.store) = located.toList ∧
        last = core.after (attachments core.store).length := by
  obtain ⟨answers, run, found⟩ : ∃ answers,
      Program.forEach (attachedAt root) (attachments core.store) env core =
        (.ok answers, core.after (attachments core.store).length) ∧
      answers.filterMap id = attachmentsAt env root core.calls (attachments core.store) :=
    forEach_attachedAt
  unfold directoryAttachment
  unfold attachments at run found ⊢
  rw [Program.bind_eq Program.read_eq, Program.bind_eq run, ← found]
  rcases answers.filterMap id with _ | ⟨⟨workspaceId, repoId⟩, _ | ⟨second, others⟩⟩
  · rw [Program.pure_eq_ok_iff]
    cases located <;> simp
  · rw [Program.pure_eq_ok_iff]
    cases located <;> simp [eq_comm]
  · have several : ((workspaceId, repoId) :: second :: others) ≠ located.toList := by
      cases located <;> simp
    simp only [several, false_and, iff_false]
    split
    · exact fun returns => Program.stop_eq_ok_iff.mp returns
    · exact fun returns => Program.stop_eq_ok_iff.mp returns

theorem requireRequestedBase_eq_ok_iff : requireRequestedBase git base env core = (.ok (), last) ↔
      (∀ spec, base = some spec →
        ∃ revision, env.answer core.calls (.resolve git spec) = .ok revision) ∧
        last = core.after base.toList.length := by
  cases base with
  | none =>
    unfold requireRequestedBase
    rw [Program.pure_eq_ok_iff]
    simp [after]
  | some spec =>
    unfold requireRequestedBase
    rw [requireResolvable_eq_ok_iff]
    simp

theorem reusableReview_eq_ok_iff {found : Option DirectoryReview} :
    reusableReview base headSpec located env core = (.ok found, last) ↔
      last = core ∧ match directoryMatch core.store base headSpec located with
        | none => found = none
        | some (reviewId, target) => ∃ ids seq, located = some ids ∧
          core.store.lastSeq = some seq ∧ found = some {
            workspaceId := ids.1, repoId := ids.2, reviewId, base := target.base, head := headSpec,
            outcome := .reused, seq } := by
  cases located with
  | none =>
    unfold reusableReview directoryMatch
    rw [Program.pure_eq_ok_iff]
    exact and_comm
  | some ids =>
    obtain ⟨workspaceId, repoId⟩ := ids
    unfold reusableReview matchingDirectoryReview directoryMatch
    dsimp only
    rw [Program.bind_eq Program.read_eq]
    cases (core.store.reviews workspaceId).findSome? fun record =>
        (matchingTarget repoId base headSpec record.review).map fun target =>
          (record.review.id, target) with
    | none => exact Program.pure_eq_ok_iff.trans and_comm
    | some match_ =>
      obtain ⟨reviewId, target⟩ := match_
      have position {seq : Seq} {middle : Core} :
          logPosition env core = (.ok seq, middle) ↔
            core.store.lastSeq = some seq ∧ middle = core := by
        unfold logPosition
        rw [Program.bind_eq Program.read_eq, Program.orStop_eq_ok_iff]
      refine Program.bind_eq_ok_iff.trans ?_
      simp only [position]
      constructor
      · rintro ⟨seq, _, ⟨stood, rfl⟩, run⟩
        obtain ⟨rfl, rfl⟩ := Program.pure_eq_ok_iff.mp run
        exact ⟨rfl, (workspaceId, repoId), seq, rfl, stood, rfl⟩
      · rintro ⟨rfl, ids, seq, same, stood, rfl⟩
        obtain rfl := Option.some.inj same
        exact ⟨seq, _, ⟨stood, rfl⟩, rfl⟩

end Inverting

/-- What the look of a request has established before it decides. -/
structure Surveyed (env : Environment) (options : EnsureDirectoryReview) (core : Core)
    (root : String) (git : GitRepo) (located : Option (WorkspaceId × RepoId)) : Prop where
  rooted : ∃ path, env.answer core.calls (.canonicalize options.path) = .ok path ∧
    env.answer (core.calls + 1) (.gitRoot path) = .ok (some root)
  opens : env.answer (core.calls + 2) (.openRepo root) = .ok git
  found : attachmentsAt env root (core.calls + 3) (attachments core.store) =
    located.toList
  head : ∃ revision, env.answer (core.calls + 3 + (attachments core.store).length)
    (.resolve git (options.head.getD .workingTree)) = .ok revision
  base : ∀ spec, options.base.map BaseRefSpec.toRefSpec = some spec → ∃ revision,
    env.answer (core.calls + 4 + (attachments core.store).length) (.resolve git spec) =
      .ok revision

/-- How many questions a look puts before it decides. -/
def surveyQuestions (options : EnsureDirectoryReview) (core : Core) : Nat :=
  4 + (attachments core.store).length + (options.base.map BaseRefSpec.toRefSpec).toList.length

/-- A look that returns has surveyed the checkout, and reuses the review that matches. -/
theorem directoryPlan_eq_ok_iff {options : EnsureDirectoryReview} {env : Environment}
    {core planned : Core} {plan : DirectoryPlan} :
    directoryPlan options env core = (.ok plan, planned) ↔
      ∃ root git located, Surveyed env options core root git located ∧
        match directoryMatch core.store (options.base.map BaseRefSpec.toRefSpec)
            (options.head.getD .workingTree) located with
        | some (reviewId, target) => ∃ ids seq, located = some ids ∧
          core.store.lastSeq = some seq ∧ planned = core.after (surveyQuestions options core) ∧
          plan = .reuse {
            workspaceId := ids.1, repoId := ids.2, reviewId, base := target.base,
            head := options.head.getD .workingTree, outcome := .reused, seq }
        | none => ∃ base based,
          chosenBase git (options.base.map BaseRefSpec.toRefSpec) env
            (core.after (surveyQuestions options core)) = (.ok base, based) ∧
          requireResolvable git base env based = (.ok (), planned) ∧
          plan = .create root located base (options.head.getD .workingTree) := by
  have counted : ((((((core.after 1).after 1).after 1).after
      (attachments core.store).length).after 1).after
        (options.base.map BaseRefSpec.toRefSpec).toList.length) =
      core.after (surveyQuestions options core) := by
    unfold after surveyQuestions
    simp only [Core.mk.injEq, true_and, and_true]
    omega
  constructor
  · intro run
    obtain ⟨path, _, first, run⟩ := Program.bind_eq_ok_iff.mp run
    obtain ⟨canonical, rfl⟩ := directoryPath_eq_ok_iff.mp first
    obtain ⟨root, _, second, run⟩ := Program.bind_eq_ok_iff.mp run
    obtain ⟨rooted, rfl⟩ := directoryRoot_eq_ok_iff.mp second
    obtain ⟨git, _, third, run⟩ := Program.bind_eq_ok_iff.mp run
    obtain ⟨opens, rfl⟩ := outsideOrInvalid_eq_ok_iff.mp third
    obtain ⟨located, _, fourth, run⟩ := Program.bind_eq_ok_iff.mp run
    obtain ⟨found, rfl⟩ := directoryAttachment_eq_ok_iff.mp fourth
    obtain ⟨_, _, fifth, run⟩ := Program.bind_eq_ok_iff.mp run
    obtain ⟨head, rfl⟩ := requireResolvable_eq_ok_iff.mp fifth
    obtain ⟨_, _, sixth, run⟩ := Program.bind_eq_ok_iff.mp run
    obtain ⟨base, rfl⟩ := requireRequestedBase_eq_ok_iff.mp sixth
    obtain ⟨reused, _, seventh, run⟩ := Program.bind_eq_ok_iff.mp run
    obtain ⟨rfl, matched⟩ := reusableReview_eq_ok_iff.mp seventh
    simp only [after_calls, after_store] at rooted opens found head base matched run counted
    refine ⟨root, git, located, ⟨⟨path, canonical, rooted⟩, ?_, ?_, ?_, ?_⟩, ?_⟩
    · exact opens
    · exact found
    · obtain ⟨revision, resolved⟩ := head
      exact ⟨revision, by simpa [Nat.add_assoc] using resolved⟩
    · intro spec requested
      obtain ⟨revision, resolved⟩ := base spec requested
      refine ⟨revision, ?_⟩
      rw [← resolved]
      congr 1
      omega
    · rw [counted] at run
      cases choice : directoryMatch core.store (options.base.map BaseRefSpec.toRefSpec)
          (options.head.getD .workingTree) located with
      | none =>
        rw [choice] at matched
        subst matched
        obtain ⟨base, based, chosen, run⟩ := Program.bind_eq_ok_iff.mp run
        obtain ⟨_, _, resolves, run⟩ := Program.bind_eq_ok_iff.mp run
        obtain ⟨rfl, rfl⟩ := Program.pure_eq_ok_iff.mp run
        exact ⟨base, based, chosen, resolves, rfl⟩
      | some match_ =>
        obtain ⟨reviewId, target⟩ := match_
        rw [choice] at matched
        obtain ⟨ids, seq, same, position, rfl⟩ := matched
        obtain ⟨rfl, rfl⟩ := Program.pure_eq_ok_iff.mp run
        exact ⟨ids, seq, same, position, rfl, rfl⟩
  · rintro ⟨root, git, located, surveyed, decides⟩
    obtain ⟨path, canonical, rooted⟩ := surveyed.rooted
    have head : ∃ revision, env.answer ((((core.after 1).after 1).after 1).after
        (attachments core.store).length).calls
          (.resolve git (options.head.getD .workingTree)) = .ok revision := by
      obtain ⟨revision, resolved⟩ := surveyed.head
      exact ⟨revision, by simpa [Nat.add_assoc] using resolved⟩
    have base : ∀ spec, options.base.map BaseRefSpec.toRefSpec = some spec → ∃ revision,
        env.answer (((((core.after 1).after 1).after 1).after
          (attachments core.store).length).after 1).calls (.resolve git spec) = .ok revision := by
      intro spec requested
      obtain ⟨revision, resolved⟩ := surveyed.base spec requested
      refine ⟨revision, ?_⟩
      rw [← resolved]
      congr 1
      simp only [after_calls]
      omega
    have found : attachmentsAt env root (((core.after 1).after 1).after 1).calls
        (attachments (((core.after 1).after 1).after 1).store) = located.toList := surveyed.found
    have opens : env.answer ((core.after 1).after 1).calls (.openRepo root) = .ok git :=
      surveyed.opens
    unfold directoryPlan
    refine Program.bind_eq_ok_iff.mpr ⟨path, _, directoryPath_eq_ok_iff.mpr ⟨canonical, rfl⟩, ?_⟩
    refine Program.bind_eq_ok_iff.mpr ⟨root, _, directoryRoot_eq_ok_iff.mpr ⟨rooted, rfl⟩, ?_⟩
    refine Program.bind_eq_ok_iff.mpr ⟨git, _, outsideOrInvalid_eq_ok_iff.mpr ⟨opens, rfl⟩, ?_⟩
    refine Program.bind_eq_ok_iff.mpr
      ⟨located, _, directoryAttachment_eq_ok_iff.mpr ⟨found, rfl⟩, ?_⟩
    refine Program.bind_eq_ok_iff.mpr ⟨(), _, requireResolvable_eq_ok_iff.mpr ⟨head, rfl⟩, ?_⟩
    refine Program.bind_eq_ok_iff.mpr ⟨(), _, requireRequestedBase_eq_ok_iff.mpr ⟨base, rfl⟩, ?_⟩
    simp only [after_store]
    rw [counted]
    cases choice : directoryMatch core.store (options.base.map BaseRefSpec.toRefSpec)
        (options.head.getD .workingTree) located with
    | none =>
      rw [choice] at decides
      obtain ⟨base, based, chosen, resolves, rfl⟩ := decides
      refine Program.bind_eq_ok_iff.mpr ⟨none, _, reusableReview_eq_ok_iff.mpr ⟨rfl, ?_⟩, ?_⟩
      · rw [after_store, choice]
      · refine Program.bind_eq_ok_iff.mpr ⟨base, based, chosen, ?_⟩
        exact Program.bind_eq_ok_iff.mpr ⟨(), planned, resolves, Program.pure_eq_ok_iff.mpr ⟨rfl, rfl⟩⟩
    | some match_ =>
      obtain ⟨reviewId, target⟩ := match_
      rw [choice] at decides
      obtain ⟨ids, seq, same, position, rfl, rfl⟩ := decides
      refine Program.bind_eq_ok_iff.mpr ⟨some _, _, reusableReview_eq_ok_iff.mpr ⟨rfl, ?_⟩,
        Program.pure_eq_ok_iff.mpr ⟨rfl, rfl⟩⟩
      rw [after_store, choice]
      exact ⟨ids, seq, same, position, rfl⟩

/-! ## Looking -/

section Looking

variable {options : EnsureDirectoryReview} {root : String} {base : Option RefSpec}

/-- The look of a directory request commits nothing. -/
theorem quiet_directoryPlan : Quiet (directoryPlan options) := by
  refine quiet_directoryPath.bind fun path => quiet_directoryRoot.bind fun root => ?_
  refine quiet_outsideOrInvalid.bind fun git => quiet_directoryAttachment.bind fun located => ?_
  refine quiet_requireResolvable.bind fun _ => quiet_requireRequestedBase.bind fun _ => ?_
  refine quiet_reusableReview.bind ?_
  rintro (_ | review)
  · exact quiet_chosenBase.bind fun _ => quiet_requireResolvable.bind fun _ => quiet_pure
  · exact quiet_pure

end Looking

/-! ## Carrying out a plan -/

variable [Platform]

/-- The rest of a directory request. -/
def carryOut (ctx : Ctx) (options : EnsureDirectoryReview) : DirectoryPlan → CoreM DirectoryReview
  | .reuse review => do
    let _ ← resolveTargets ctx review.reviewId
    let seq ← logPosition
    pure { review with seq }
  | .create root located base headSpec =>
    createDirectoryReview ctx options root located base headSpec

theorem ensureDirectoryReview_eq {ctx : Ctx} {options : EnsureDirectoryReview} :
    ensureDirectoryReview ctx options = directoryPlan options >>= carryOut ctx options := by
  unfold ensureDirectoryReview directoryPlan
  simp only [Program.bind_assoc]
  refine Program.bind_congr fun path => Program.bind_congr fun root => ?_
  refine Program.bind_congr fun git => Program.bind_congr fun located => ?_
  refine Program.bind_congr fun _ => Program.bind_congr fun _ => Program.bind_congr fun reused => ?_
  cases reused with
  | some review => rfl
  | none =>
    simp only [Program.bind_assoc]
    rfl

/-! ## Creation -/

/-- A creation up to its commit. -/
def openReview (ctx : Ctx) (id : ReviewId) (workspaceId : WorkspaceId) (title : String)
    (targets : NonEmpty ReviewTarget) : CoreM Review := do
  let created ← match CreateReviewTargets.ofTargets targets with
    | .ok created => pure created
    | .error reason => invalid reason
  let workspace ← workspace workspaceId
  let store ← Program.read Core.store
  Program.require (store.review id = none) (.invalid s!"review {id} already exists")
  let _ ← Program.forEach (requireMember workspaceId workspace) created.targets.items
  let _ ← Program.forEach (resolveTarget workspaceId) created.targets.items
  let review : Review := {
    id, workspaceId, title, targets := created.targets, created := ctx.now, status := .opened }
  let _ ← append ctx (.reviewCreated review)
  pure review

theorem createReview_eq {ctx : Ctx} {id : ReviewId} {workspaceId : WorkspaceId} {title : String}
    {targets : NonEmpty ReviewTarget} : createReview ctx id workspaceId title targets = (do
      let review ← openReview ctx id workspaceId title targets
      let (resolved, _) ← resolveTargets ctx id
      pure { review, resolved := some resolved, lifecycle := .live }) := by
  unfold createReview openReview
  cases CreateReviewTargets.ofTargets targets with
  | ok created =>
    simp only [Program.bind_assoc]
    rfl
  | error reason => rfl

end Nits.ReviewCore.Core
