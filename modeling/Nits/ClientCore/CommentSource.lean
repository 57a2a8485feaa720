import Nits.ClientCore.Frames.Handle

/-!
# What a comment's context records

A draft on lines or on a file names a blob and the source that the blob was read from: a
change, or a ref that the client resolved to a tree.
-/

set_option linter.dupNamespace false

namespace Nits.ClientCore

open Logical Logical.Handler Protocol

/-! ## Sources -/

/-- The tree that the client has resolved a ref of a repository to: the picked one, or the
head of the repository in the scope. -/
def ClientCore.resolvedTree (core : ClientCore) (repoId : RepoId) (reference : RefSpec) :
    Option TreeOid :=
  match core.browse.filter fun browse =>
      browse.target.repoId = repoId ∧ browse.target.refSpec = reference with
  | some browse => some browse.root
  | none => do
    let review ← core.view.review
    let target ← review.currentTargets.find? fun target => target.repoId = repoId
    if refSpecOf target.head = reference then some target.head.tree else none

/-- The blob at a path of a tree that is on hand. -/
def ContentCache.blobAt (cache : ContentCache) (tree : TreeKey) (path : RepoPath) :
    Option BlobOid :=
  match cache.peek (.tree tree) with
  | some (.tree snapshot) => do
    let entry ← snapshot.entries.find? fun entry => entry.path = path
    let blob ← entry.kind.blobEntry
    some blob.oid
  | _ => none

/-- The client has resolved a ref to a tree with this blob at the path. -/
def ClientCore.Browsed (core : ClientCore) (repoId : RepoId) (path : RepoPath) (blob : BlobOid)
    (reference : RefSpec) : Prop :=
  ∃ root, core.resolvedTree repoId reference = some root ∧
    core.content.cache.blobAt ⟨repoId, root⟩ path = some blob

/-- A context holds what is anchored: the change's blob on the anchor's side, or the blob at
the anchor's path of the ref. -/
def ClientCore.Holds (core : ClientCore) : CommentContext → Anchor → Prop
  | .diff change, .lines _ _ .base blob _ _ => change.oldBlob = some blob
  | .diff change, .lines _ _ .head blob _ _ => change.newBlob = some blob
  | .diff change, .file _ _ blob => change.newBlob = some blob ∨ change.oldBlob = some blob
  | .browse reference, .lines repoId path _ blob _ _ => core.Browsed repoId path blob reference
  | .browse reference, .file repoId path blob => core.Browsed repoId path blob reference
  | _, .review => False

/-- The context that a draft records, if any, holds what the draft is anchored to. -/
def ClientCore.Records (core : ClientCore) (draft : Draft) : Prop :=
  match draft.purpose with
  | .comment _ (some context) => core.Holds context draft.anchor
  | _ => True

/-- The state with the Browse tab in front. -/
def ClientCore.browsing (core : ClientCore) : ClientCore :=
  { core with panels := { core.panels with tab := .browse } }

/-- The context of the comment that a pinned original came from. -/
def ClientCore.pinnedContext (core : ClientCore) (key : RenderKey) : Option CommentContext :=
  core.view.review.bind fun review => ClientCore.contextForRender.originalContext review key

/-- The repository is neither browsed nor part of the scope. -/
def ClientCore.Unbrowsed (core : ClientCore) (repoId : RepoId) : Prop :=
  (core.browse.filter fun browse => browse.target.repoId = repoId) = none ∧
    ∀ review, core.view.review = some review →
      (review.currentTargets.find? fun target => target.repoId = repoId) = none

/-- A render is a change; or a pinned blob of a ref that still leads to it; or the blob that
its file has on the Browse tab. -/
def ClientCore.Sourced (core : ClientCore) (key : RenderKey) : Prop :=
  match key.target with
  | .diff _ => True
  | .blob entry => match core.pinnedContext key with
    | some (.browse reference) => core.Browsed key.repoId key.path entry.oid reference
    | _ => (core.browsing.blobRenderOf ⟨key.repoId, key.path⟩).bind (·.blobOf .head) =
        some entry.oid ∨ core.Unbrowsed key.repoId

/-- The file that an action comments on. -/
def commentedFile : Action → Option FileRef
  | .commentLines file .. | .commentFile file => some file
  | _ => none

/-! ## The drafts that comments open -/

section Drafts

variable [Presentation] {core : ClientCore} {file : FileRef} {draft : Draft}

omit [Presentation] in
/-- A composer opens on its draft. -/
theorem composed (core : ClientCore) (draft : Draft) : ((do
    clearVisual
    always (compose draft) : Risky Unit) core).state.view.draft = some draft :=
  rfl

omit [Presentation] in
/-- A guard in front of a composer leaves the state as it is. -/
theorem requireCommentableContext_state : (requireCommentableContext core).state = core := by
  rw [requireCommentableContext, read_bind]
  cases core.view.review with
  | none => rfl
  | some review => cases readOnly : review.originalIsReadOnly <;> simp only [readOnly] <;> rfl

omit [Presentation] in
theorem requireNoDraft_state : (requireNoDraft core).state = core := by
  rw [requireNoDraft, read_bind]
  cases core.view.draft.isSome <;> rfl

omit [Presentation] in
/-- What comes after the guards of a composer has run, if a draft is open that was not. -/
theorem of_guards {next : Risky Unit} (closed : core.view.draft = none)
    (opened : ((do
      requireCommentableContext
      requireNoDraft
      next) core).state.view.draft = some draft) : (next core).state.view.draft = some draft := by
  cases allowed : (requireCommentableContext core).result with
  | error error =>
    rw [bind_error core allowed, requireCommentableContext_state, closed] at opened
    cases opened
  | ok =>
    rw [bind_ok core allowed, requireCommentableContext_state] at opened
    cases free : (requireNoDraft core).result with
    | error error =>
      rw [bind_error core free, requireNoDraft_state, closed] at opened
      cases opened
    | ok =>
      rw [bind_ok core free, requireNoDraft_state] at opened
      exact opened

omit [Presentation] in
/-- The draft on a file. -/
theorem commentFile_draft (closed : core.view.draft = none)
    (opened : (commentFile file core).state.view.draft = some draft) :
    ∃ key blob, core.commentRender file = some key ∧ key.blobOf .head = some blob ∧
      draft = ⟨none, .file file.repoId file.path blob,
        .comment .finding (core.contextForRender key)⟩ := by
  have ran := of_guards closed opened
  rw [read_bind] at ran
  cases rendered : core.commentRender file with
  | none =>
    simp only [rendered, fail, closed] at ran
    cases ran
  | some key =>
    simp only [rendered] at ran
    cases shown : key.blobOf .head with
    | none =>
      simp only [shown, fail, closed] at ran
      cases ran
    | some blob =>
      simp only [shown] at ran
      have same := (composed core _).symm.trans ran
      cases same
      exact ⟨key, blob, rfl, shown, rfl⟩

omit [Presentation] in
/-- Lines are picked on the render that a comment on their file is about. -/
theorem commentRender_of_linesRender {review : OpenReview} {key : RenderKey}
    (shown : core.view.review = some review) (picked : core.linesRender review file = some key) :
    core.commentRender file = some key := by
  have openFile : core.openFile = review.openFile := by rw [ClientCore.openFile, shown]; rfl
  rw [ClientCore.commentRender, shown, openFile]
  rw [ClientCore.linesRender] at picked
  cases on_ : (review.openFile.map OpenFile.render).filter fun key =>
      key.repoId = file.repoId ∧ key.path = file.path with
  | some shownKey =>
    rw [on_] at picked
    exact picked
  | none =>
    rw [on_] at picked
    have off : (review.originalRender.filter fun key =>
        key.repoId = file.repoId ∧ key.path = file.path) = none := by
      rw [Option.filter_eq_none_iff] at on_ ⊢
      intro original pinned same
      obtain ⟨-, open_⟩ := Option.filter_eq_some_iff.mp pinned
      obtain ⟨opened, opened_, matches_⟩ := (Option.any_eq_true _ _).mp open_
      refine on_ original ?_ same
      rw [opened_, Option.map_some, of_decide_eq_true matches_]
    dsimp only at picked
    split at picked
    · cases picked
    next elsewhere =>
      simp only [ClientCore.renderOfFile, shown, off, elsewhere, picked, Option.bind_eq_bind,
        Option.bind_some, if_false]

theorem commentLines_draft {side : Side} {startLine endLine : UInt32}
    (closed : core.view.draft = none)
    (opened : (commentLines file side startLine endLine core).state.view.draft = some draft) :
    ∃ key blob lines, core.commentRender file = some key ∧ key.blobOf side = some blob ∧
      draft = ⟨none, .lines file.repoId file.path side blob lines ⟨0⟩,
        .comment .finding (core.contextForRender key)⟩ := by
  have ran := of_guards closed opened
  rw [read_bind] at ran
  cases shown : core.view.review with
  | none =>
    simp only [shown, fail, closed] at ran
    cases ran
  | some review =>
    simp only [shown] at ran
    cases anchored : core.linesAnchor review file side startLine endLine with
    | none =>
      simp only [anchored, fail, closed] at ran
      cases ran
    | some anchor =>
      simp only [anchored] at ran
      have same := (composed core _).symm.trans ran
      cases same
      simp only [ClientCore.linesAnchor, Option.bind_eq_bind, Option.bind_eq_some_iff,
        Option.ite_none_right_eq_some] at anchored
      obtain ⟨key, picked, blob, side_, -, low, -, high, -, lines, -, same⟩ := anchored
      cases same
      have rendered := commentRender_of_linesRender shown picked
      refine ⟨key, blob, lines, rendered, side_, ?_⟩
      rw [ClientCore.commentContext, rendered]
      rfl

/-- Deriving leaves the draft as it is. -/
theorem derive_draft (core : ClientCore) : core.derive.view.draft = core.view.draft := by
  have followed (core : ClientCore) : core.followRow.view = core.view := by
    unfold ClientCore.followRow
    dsimp only
    split <;> rfl
  have realigned (core : ClientCore) : core.realigned.view.draft = core.view.draft := by
    unfold ClientCore.realigned
    split
    · split
      · rfl
      · dsimp only
        split <;> rfl
    · rfl
  have last : core.derive.view.draft =
      core.listUncertain.followRow.selectWorkspace.realigned.view.draft := rfl
  have first := congrArg View.draft (followed core.listUncertain)
  rw [last, realigned]
  exact first

/-- A draft is opened on the render that its file has. -/
theorem commented_draft {action : Action} (comments : commentedFile action = some file)
    (closed : core.view.draft = none)
    (opened : (handle (.user action) core).state.view.draft = some draft) :
    ∃ key side blob, core.commentRender file = some key ∧ key.blobOf side = some blob ∧
      draft.purpose = .comment .finding (core.contextForRender key) ∧
      ((∃ lines hash, draft.anchor = .lines file.repoId file.path side blob lines hash) ∨
        side = .head ∧ draft.anchor = .file file.repoId file.path blob) := by
  have ran : (user action core).state.view.draft = some draft := by
    unfold handle at opened
    split at opened
    next ran =>
      rw [route] at ran
      rw [ran]
      exact opened
    next ran =>
      rw [route] at ran
      rw [ran]
      exact (derive_draft _).symm.trans opened
  cases action with
  | commentFile =>
    cases comments
    obtain ⟨key, blob, rendered, shown, rfl⟩ := commentFile_draft closed ran
    exact ⟨key, .head, blob, rendered, shown, rfl, .inr ⟨rfl, rfl⟩⟩
  | commentLines =>
    cases comments
    obtain ⟨key, blob, lines, rendered, shown, rfl⟩ := commentLines_draft closed ran
    exact ⟨key, _, blob, rendered, shown, rfl, .inl ⟨lines, _, rfl⟩⟩
  | _ => cases comments

end Drafts

/-! ## When a context holds what is anchored -/

section Sources

variable {core : ClientCore} {key : RenderKey}

/-- The tree of a repository on the Browse tab. -/
def ClientCore.browseRoot (core : ClientCore) (repoId : RepoId) : Option TreeOid :=
  match core.browse.filter fun browse => browse.target.repoId = repoId with
  | some browse => some browse.root
  | none => core.view.review.bind fun review =>
      (review.currentTargets.find? fun target => target.repoId = repoId).map fun target =>
        target.head.tree

theorem blobRenderOf_browsing {review : OpenReview} (shown : core.view.review = some review)
    (file : FileRef) : (core.browsing.blobRenderOf file).bind (·.blobOf .head) =
      (core.browseRoot file.repoId).bind fun root =>
        core.content.cache.blobAt ⟨file.repoId, root⟩ file.path := by
  have blob (root : TreeOid) : ((match core.content.cache.peek (.tree ⟨file.repoId, root⟩) with
      | some (.tree snapshot) => do
        let entry ← snapshot.entries.find? fun entry => entry.path = file.path
        let blob ← entry.kind.blobEntry
        some ⟨file.repoId, file.path, .blob blob, {}⟩
      | _ => none : Option RenderKey)).bind (·.blobOf .head) =
      core.content.cache.blobAt ⟨file.repoId, root⟩ file.path := by
    unfold ContentCache.blobAt
    split
    next snapshot _ =>
      cases snapshot.entries.find? fun entry => entry.path = file.path with
      | none => rfl
      | some entry => cases made : entry.kind.blobEntry <;> simp [made, RenderKey.blobOf]
    next => rfl
  have reviewed : core.browsing.view.review = some review := shown
  rw [ClientCore.blobRenderOf, reviewed, ClientCore.browseRoot, shown]
  simp only [Option.bind_eq_bind, Option.bind_some, ClientCore.browsing]
  cases core.browse.filter fun browse => browse.target.repoId = file.repoId with
  | some browse => exact blob browse.root
  | none =>
    cases review.currentTargets.find? fun target => target.repoId = file.repoId with
    | none => rfl
    | some target => exact blob target.head.tree

/-- The render that a comment on a file is about is a render of that file. -/
theorem commentRender_names {file : FileRef} (rendered : core.commentRender file = some key) :
    ∃ review, core.view.review = some review ∧ key.repoId = file.repoId ∧ key.path = file.path := by
  have blob {key : RenderKey} (made : core.blobRenderOf file = some key) :
      key.repoId = file.repoId ∧ key.path = file.path := by
    rw [ClientCore.blobRenderOf] at made
    simp only [Option.bind_eq_bind] at made
    obtain ⟨review, -, made⟩ := Option.bind_eq_some_iff.mp made
    obtain ⟨root, made⟩ : ∃ root, (match core.content.cache.peek (.tree ⟨file.repoId, root⟩) with
        | some (.tree snapshot) =>
          (snapshot.entries.find? fun entry => entry.path = file.path).bind fun entry =>
            entry.kind.blobEntry.bind fun blob =>
              some (⟨file.repoId, file.path, .blob blob, {}⟩ : RenderKey)
        | _ => none) = some key := by
      split at made
      · obtain ⟨root, -, made⟩ := Option.bind_eq_some_iff.mp made
        exact ⟨root, made⟩
      · obtain ⟨root, -, made⟩ := Option.bind_eq_some_iff.mp made
        exact ⟨root, made⟩
    split at made
    · simp only [Option.bind_eq_some_iff, Option.some.injEq] at made
      obtain ⟨entry, -, blob, -, rfl⟩ := made
      exact ⟨rfl, rfl⟩
    · cases made
  simp only [ClientCore.commentRender, Option.bind_eq_bind, Option.bind_eq_some_iff] at rendered
  obtain ⟨review, reviewed, rendered⟩ := rendered
  refine ⟨review, reviewed, ?_⟩
  split at rendered
  next displayed on_ =>
    cases rendered
    exact of_decide_eq_true (Option.filter_eq_some_iff.mp on_).2
  · simp only [ClientCore.renderOfFile, reviewed, Option.bind_eq_bind, Option.bind_some] at rendered
    split at rendered
    next original on_ =>
      cases rendered
      exact of_decide_eq_true (Option.filter_eq_some_iff.mp on_).2
    · split at rendered
      · exact blob rendered
      · split at rendered
        next changed found =>
          cases rendered
          rw [OpenReview.fileAt] at found
          have same := List.find?_some found
          exact of_decide_eq_true same
        · exact blob rendered

/-- What a pinned original records is a ref, and the original is a blob. -/
theorem pinnedContext_eq {context : CommentContext} (pinned : core.pinnedContext key = some context) :
    ∃ reference entry, context = .browse reference ∧ key.target = .blob entry := by
  simp only [ClientCore.pinnedContext, ClientCore.contextForRender.originalContext,
    Option.bind_eq_some_iff, Option.ite_none_right_eq_some] at pinned
  obtain ⟨review, -, -, comment, found, recorded⟩ := pinned
  have fits := List.find?_some found
  rw [recorded, Bool.and_eq_true] at fits
  obtain ⟨browses, names⟩ := fits
  cases context with
  | diff => cases browses
  | browse reference =>
    cases target : key.target with
    | blob entry => exact ⟨reference, entry, rfl, rfl⟩
    | diff change =>
      cases anchor : comment.anchor <;> rw [anchor] at names <;>
        simp [ClientCore.contextForRender.names, target] at names

theorem resolvedTree_picked {repoId : RepoId} {browse : Browse}
    (picked : (core.browse.filter fun browse => browse.target.repoId = repoId) = some browse) :
    core.resolvedTree repoId browse.target.refSpec = some browse.root := by
  obtain ⟨browsed, mine⟩ := Option.filter_eq_some_iff.mp picked
  have same : (core.browse.filter fun other => other.target.repoId = repoId ∧
      other.target.refSpec = browse.target.refSpec) = some browse :=
    Option.filter_eq_some_iff.mpr ⟨browsed, by simpa using mine⟩
  rw [ClientCore.resolvedTree, same]

theorem resolvedTree_head {repoId : RepoId} {review : OpenReview} {target : ResolvedTarget}
    (picked : (core.browse.filter fun browse => browse.target.repoId = repoId) = none)
    (shown : core.view.review = some review)
    (found : (review.currentTargets.find? fun target => target.repoId = repoId) = some target) :
    core.resolvedTree repoId (refSpecOf target.head) = some target.head.tree := by
  have unpicked : (core.browse.filter fun other => other.target.repoId = repoId ∧
      other.target.refSpec = refSpecOf target.head) = none := by
    rw [Option.filter_eq_none_iff] at picked ⊢
    intro browse browsed both
    exact picked browse browsed (by simpa using (of_decide_eq_true both).1)
  rw [ClientCore.resolvedTree, unpicked, shown]
  simp only [Option.bind_eq_bind, Option.bind_some, found, if_true]

/-- Without a pinned original a blob is said to be of the ref that its repository has on the
Browse tab. -/
theorem browsed_iff {review : OpenReview} (shown : core.view.review = some review)
    (blob : BlobOid) :
    (∀ reference, ClientCore.contextForRender.browsed core key review = some reference →
      core.Browsed key.repoId key.path blob reference) ↔
      (core.browsing.blobRenderOf ⟨key.repoId, key.path⟩).bind (·.blobOf .head) = some blob ∨
        core.Unbrowsed key.repoId := by
  rw [blobRenderOf_browsing shown]
  cases picked : core.browse.filter fun browse => browse.target.repoId = key.repoId with
  | some browse =>
    have root : core.browseRoot key.repoId = some browse.root := by
      rw [ClientCore.browseRoot, picked]
    have reference : ClientCore.contextForRender.browsed core key review =
        some browse.target.refSpec := by
      rw [ClientCore.contextForRender.browsed, picked]
    have tree := resolvedTree_picked picked
    simp only [root, reference, Option.bind_some, Option.some.injEq, forall_eq', ClientCore.Browsed,
      tree, ClientCore.Unbrowsed, picked, exists_eq_left', reduceCtorEq, false_and, or_false]
  | none =>
    cases found : review.currentTargets.find? fun target => target.repoId = key.repoId with
    | none =>
      have reference : ClientCore.contextForRender.browsed core key review = none := by
        rw [ClientCore.contextForRender.browsed, picked, found]
        rfl
      have unbrowsed : core.Unbrowsed key.repoId := by
        refine ⟨picked, fun other reviewed => ?_⟩
        rw [shown, Option.some.injEq] at reviewed
        rw [← reviewed, found]
      simp only [reference, reduceCtorEq, false_implies, implies_true, unbrowsed, or_true]
    | some target =>
      have root : core.browseRoot key.repoId = some target.head.tree := by
        rw [ClientCore.browseRoot, picked, shown]
        simp only [Option.bind_some, found, Option.map_some]
      have reference : ClientCore.contextForRender.browsed core key review =
          some (refSpecOf target.head) := by
        rw [ClientCore.contextForRender.browsed, picked, found]
        rfl
      have tree := resolvedTree_head picked shown found
      have browsed : ¬ core.Unbrowsed key.repoId := fun unbrowsed => by
        rw [unbrowsed.2 review shown] at found
        cases found
      simp only [root, reference, Option.bind_some, Option.some.injEq, forall_eq',
        ClientCore.Browsed, tree, exists_eq_left', browsed, or_false]

end Sources

/-- A draft records what it is anchored to exactly when it is opened on a change, or on the
blob that the file has on the Browse tab. -/
theorem records_iff [Presentation] {core : ClientCore} {action : Action} {file : FileRef}
    {draft : Draft} (comments : commentedFile action = some file) (closed : core.view.draft = none)
    (opened : (handle (.user action) core).state.view.draft = some draft) :
    core.Records draft ↔ ∀ key ∈ core.commentRender file, core.Sourced key := by
  obtain ⟨key, side, blob, rendered, shown, purpose, anchored⟩ :=
    commented_draft comments closed opened
  obtain ⟨review, reviewed, repo, path⟩ := commentRender_names rendered
  have only : (∀ key ∈ core.commentRender file, core.Sourced key) ↔ core.Sourced key := by
    rw [rendered]
    simp
  have recorded : core.Records draft ↔
      ∀ context, core.contextForRender key = some context → core.Holds context draft.anchor := by
    rw [ClientCore.Records, purpose]
    cases core.contextForRender key with
    | none => simp
    | some context => simp
  have holds (reference : RefSpec) : core.Holds (.browse reference) draft.anchor ↔
      core.Browsed key.repoId key.path blob reference := by
    rcases anchored with ⟨lines, hash, anchor⟩ | ⟨-, anchor⟩ <;>
      rw [anchor, ClientCore.Holds, repo, path]
  rw [only, recorded, ClientCore.contextForRender, reviewed]
  simp only [Option.bind_eq_bind, Option.bind_some]
  have pinned_ : core.pinnedContext key =
      ClientCore.contextForRender.originalContext review key := by
    rw [ClientCore.pinnedContext, reviewed, Option.bind_some]
  rw [← pinned_, ClientCore.Sourced]
  cases pinned : core.pinnedContext key with
  | some context =>
    obtain ⟨reference, entry, rfl, target⟩ := pinnedContext_eq pinned
    have blobs : blob = entry.oid := by
      cases side <;> simp [RenderKey.blobOf, target] at shown
      exact shown.symm
    rw [target]
    simp only [Option.some.injEq, forall_eq', holds, blobs]
  | none =>
    cases target : key.target with
    | diff change =>
      simp only [Option.some.injEq, forall_eq', iff_true]
      rcases anchored with ⟨lines, hash, anchor⟩ | ⟨rfl, anchor⟩
      · rw [anchor]
        cases side <;> simpa [RenderKey.blobOf, target, ClientCore.Holds] using shown
      · rw [anchor]
        simp only [RenderKey.blobOf, target] at shown
        exact .inl shown
    | blob entry =>
      have blobs : blob = entry.oid := by
        cases side <;> simp [RenderKey.blobOf, target] at shown
        exact shown.symm
      dsimp only
      rw [← blobs, ← browsed_iff reviewed blob]
      simp only [Option.map_eq_some_iff, forall_exists_index, and_imp, forall_apply_eq_imp_iff₂,
        holds]

/-! ## A head file recorded as another revision's -/

namespace PickedElsewhere

def path : RepoPath := ⟨"a", RepoPath.valid_a⟩

def file : FileRef := ⟨⟨3⟩, path⟩

def snapshot : ReviewSnapshot :=
  { plainReview 0 with
    resolved := some (.singleton ⟨⟨3⟩, ⟨⟨1⟩, .commit ⟨1⟩⟩, ⟨⟨2⟩, .commit ⟨2⟩⟩⟩) }

/-- A tree of the one file. -/
def tree (root : TreeOid) (blob : BlobOid) : TreeSnapshot :=
  ⟨⟨3⟩, root, [⟨path, .file blob 1 false⟩]⟩

/-- The head tree is on hand and another revision is picked for Browse. -/
def inputs : List Input :=
  ClientCore.visit snapshot ++
    [.server (.streamItem 3 (.treeSnapshot (tree ⟨2⟩ ⟨12⟩))),
      .user (.setBrowseRef ⟨3⟩ (some (.branch "old"))),
      .server (.response 5 (.treeSnapshot (tree ⟨9⟩ ⟨19⟩)))]

/-- A comment on the head's file. -/
def draft : Draft :=
  ⟨none, .file ⟨3⟩ path ⟨12⟩, .comment .finding (some (.browse (.branch "old")))⟩

def core : ClientCore := @ClientCore.run Presentation.plain ClientCore.fresh inputs

theorem closed : core.view.draft = none := by
  decide +kernel

theorem opened :
    (@handle Presentation.plain (.user (.commentFile file)) core).state.view.draft = some draft := by
  decide +kernel

theorem browsed_of_records {core : ClientCore} (records : core.Records draft) :
    core.Browsed ⟨3⟩ path ⟨12⟩ (.branch "old") :=
  records

/-- Outside the Browse tab the head's file is commented on, as content of the picked ref. -/
theorem head_recorded :
    (@handle Presentation.plain (.user (.commentFile file)) core).state.view.draft = some draft ∧
      ¬ core.Records draft := by
  refine ⟨opened, fun records => ?_⟩
  obtain ⟨root, resolved, found⟩ := browsed_of_records records
  have picked : core.resolvedTree ⟨3⟩ (.branch "old") = some ⟨9⟩ := by
    decide +kernel
  rw [picked, Option.some.injEq] at resolved
  subst resolved
  have other : core.content.cache.blobAt ⟨⟨3⟩, ⟨9⟩⟩ path = some ⟨19⟩ := by
    decide +kernel
  rw [other] at found
  exact absurd found (by decide)

/-- Another ref was picked. -/
theorem records_iff_picked :
    core.Records draft ↔ ∀ key ∈ core.commentRender file, core.Sourced key :=
  @records_iff Presentation.plain core (.commentFile file) file draft rfl closed opened

end PickedElsewhere

end Nits.ClientCore
