import Nits.ClientCore.Frames

/-!
# What each user action touches

One instance for each group of actions, and `within_act` for all of them.
-/

namespace Nits.ClientCore

open Logical Logical.Handler Protocol

section Instances

variable [Presentation] {R : ClientCore → List Effect → ClientCore → Prop}

/-! ## Connection and lists -/

instance [Interface R] : Within R loadPrefs := by
  unfold loadPrefs
  refine within_next fun core => ?_
  split
  · infer_instance
  · exact within_then _ _ (within_interface _ fun _ => rfl) fun _ => inferInstance

instance [Interface R] [Connects R] (lastSeq : Option Seq) : Within R (dial lastSeq) := by
  unfold dial
  refine within_next fun _ => ?_
  infer_instance

instance [Interface R] [Connects R] : Within R connect := by
  unfold connect
  refine within_next fun core => ?_
  split <;> infer_instance

instance [Interface R] : Within R disconnect := by
  unfold disconnect
  refine within_next fun core => ?_
  split <;> infer_instance

instance [Interface R] [Asks R] (asking : Request) (waiting : InFlight) [Unkeyed waiting] :
    Within R (ask asking waiting) := by
  unfold ask
  infer_instance

instance [Interface R] (workspaceId : WorkspaceId) : Within R (selectWorkspace workspaceId) := by
  unfold selectWorkspace
  refine within_next fun core => ?_
  split <;> infer_instance

instance [Interface R] (workspaceId : WorkspaceId) : Within R (toggleWorkspace workspaceId) := by
  unfold toggleWorkspace
  infer_instance

instance [Interface R] [Forgets R] [Closes R] [Pins R] : Within R goHome := by
  unfold goHome
  infer_instance

instance [Interface R] [Mutates R] (workspaceId : WorkspaceId)
    (title : String) (targets : NonEmpty ReviewTarget) :
    Within R (createReview workspaceId title targets) := by
  unfold createReview createReview.send
  refine within_next fun _ => ?_
  split <;> infer_instance

/-! ## Opening -/

instance [Course R] [Forgets R] [Asks R] (reviewId : ReviewId) : Within R (askReview reviewId) := by
  unfold askReview
  refine within_next fun core =>
    within_then _ _ (within_write _ Forgets.reference) fun _ => ?_
  split <;> infer_instance

instance [Interface R] [Forgets R] [Asks R] (reviewId : ReviewId) :
    Within R (openReview reviewId) := by
  unfold openReview
  infer_instance

instance [Interface R] [Refers R] (text : String) : Within R (openReference text) := by
  unfold openReference
  refine within_next fun _ => within_next fun core => ?_
  split <;> infer_instance

instance [Interface R] [Forgets R] [Closes R] [Pins R] : Within R closeOpenReview := by
  unfold closeOpenReview closeOpenReview.leaveReview
  refine within_next fun core => ?_
  split <;> infer_instance

/-! ## Files and rows -/

instance [Interface R] [Files R] [Pins R] [Wants R] (file : FileRef)
    (row : Nat) (side : Side) (landing : Landing) :
    Within R (openFileAt file row side landing) := by
  unfold openFileAt
  infer_instance

instance [Interface R] (repoId : RepoId) (path : Option RepoPath) :
    Within R (toggleDir repoId path) := by
  unfold toggleDir
  infer_instance

instance [Interface R] (query : Option String) : Within R (fileSearch query) := by
  unfold fileSearch
  infer_instance

instance [Interface R] : Within R collapseParent := by
  unfold collapseParent
  refine within_next fun _ => within_next fun core => ?_
  split
  · split <;> infer_instance
  · infer_instance

instance [Interface R] : Within R collapseAll := by
  unfold collapseAll
  infer_instance

instance [Interface R] (file : FileRef) : Within R (toggleFileCollapse file) := by
  unfold toggleFileCollapse
  infer_instance

instance [Interface R] (align : ScrollAlign) : Within R (scrollView align) := by
  unfold scrollView
  refine within_next fun core => ?_
  split <;> infer_instance

instance [Interface R] [Files R] [Pins R] [Wants R] (file : FileRef) : Within R (reopen file) := by
  unfold reopen
  refine within_next fun _ => within_next fun core => within_next fun _ => ?_
  refine within_next fun _ => ?_
  split <;> infer_instance

instance [Interface R] [Files R] [Pins R] [Wants R] (tab : Tab) : Within R (setTab tab) := by
  unfold setTab
  refine within_next fun core => ?_
  split
  · infer_instance
  · refine within_next fun _ => ?_
    split
    · split <;> infer_instance
    · split <;> split <;> infer_instance

instance [Interface R] [Files R] [Pins R] [Wants R] (focus : Focus) :
    Within R (setFocus focus) := by
  unfold setFocus
  refine within_next fun core => ?_
  split
  · infer_instance
  · refine within_next fun _ => within_next fun core => ?_
    split
    · infer_instance
    · split
      · infer_instance
      · split <;> infer_instance
      · split <;> infer_instance

instance [Interface R] (old key : RenderKey) : Within R (rememberLine old key) := by
  unfold rememberLine
  infer_instance

instance [Interface R] [Files R] [Pins R] [Wants R] (file : FileRef)
    (opts : RenderOpts → RenderOpts) : Within R (reRender file opts) := by
  unfold reRender
  refine within_next fun _ => within_next fun core => ?_
  split
  · infer_instance
  · split <;> infer_instance

instance [Interface R] [Files R] [Pins R] [Wants R] (file : FileRef)
    (full : Bool) : Within R (expandContext file full) :=
  inferInstanceAs (Within R (reRender file _))

instance [Interface R] [Files R] [Pins R] [Wants R] (file : FileRef)
    (gap : Gap) (dir : ExpandDir) : Within R (expandGap file gap dir) :=
  inferInstanceAs (Within R (reRender file _))

/-! ## Comments -/

instance [Interface R] [Drafts R] (draft : Draft) : Within R (compose draft) := by
  unfold compose
  infer_instance

instance [Interface R] [Drafts R] (file : FileRef) (side : Side)
    (startLine endLine : UInt32) : Within R (commentLines file side startLine endLine) := by
  unfold commentLines
  refine within_next fun _ => within_next fun _ => within_next fun core => ?_
  split
  · infer_instance
  · split <;> infer_instance

instance [Interface R] [Drafts R] (file : FileRef) : Within R (commentFile file) := by
  unfold commentFile
  refine within_next fun _ => within_next fun _ => within_next fun core => ?_
  split
  · infer_instance
  · split <;> infer_instance

instance [Interface R] [Drafts R] (intent : CommentIntent) (anchor : Anchor) :
    Within R (draftOpened intent anchor) := by
  unfold draftOpened
  refine within_next fun _ => ?_
  infer_instance

instance [Interface R] [Drafts R] (threadId : ThreadId) : Within R (replyOpened threadId) := by
  unfold replyOpened
  refine within_next fun core => ?_
  split
  · infer_instance
  · refine within_next fun _ => ?_
    split <;> infer_instance

instance [Interface R] [Drafts R] (threadId : ThreadId) : Within R (deferOpened threadId) := by
  unfold deferOpened
  refine within_next fun core => ?_
  split
  · infer_instance
  · refine within_next fun _ => ?_
    split
    · infer_instance
    · split
      · infer_instance
      · infer_instance
      · infer_instance
      · split <;> infer_instance

instance [Interface R] [Mutates R] [Discards R] (body : String) :
    Within R (draftSubmitted body) := by
  unfold draftSubmitted
  refine within_next fun core => ?_
  split
  · infer_instance
  · infer_instance
  · refine within_next fun _ => within_next fun _ => ?_
    split <;> infer_instance

instance [Interface R] [Discards R] : Within R draftDiscarded := by
  unfold draftDiscarded
  infer_instance

instance [Interface R] [Mutates R] (threadId : ThreadId) (body : String) :
    Within R (reply threadId body) := by
  unfold reply
  infer_instance

instance [Interface R] [Mutates R] (commentId : CommentId) (body : String) :
    Within R (editComment commentId body) := by
  unfold editComment
  infer_instance

instance [Interface R] [Mutates R] (commentId : CommentId) :
    Within R (deleteComment commentId) := by
  unfold deleteComment
  infer_instance

instance [Interface R] [Mutates R] (threadId : ThreadId) : Within R (resolveThread threadId) := by
  unfold resolveThread
  infer_instance

instance [Interface R] [Mutates R] (threadId : ThreadId) : Within R (unresolveThread threadId) := by
  unfold unresolveThread
  infer_instance

/-! ## Suggestions -/

instance [Interface R] [Asks R] (reviewId : ReviewId) (commentId : CommentId) :
    Within R (askPreview reviewId commentId) := by
  unfold askPreview
  refine within_next fun _ => within_next fun core => ?_
  dsimp only
  split <;> infer_instance

instance [Interface R] [Asks R] (commentId : CommentId) :
    Within R (previewSuggestion commentId) := by
  unfold previewSuggestion
  refine within_next fun _ => within_next fun core => ?_
  split <;> infer_instance

instance [Interface R] [Mutates R] (reviewId : ReviewId)
    (commentId : CommentId) : Within R (sendApplication reviewId commentId) := by
  unfold sendApplication
  infer_instance

instance [Interface R] [Mutates R] (commentId : CommentId) :
    Within R (applySuggestion commentId) := by
  unfold applySuggestion
  refine within_next fun _ => within_next fun core => ?_
  split
  · infer_instance
  · split <;> infer_instance

/-! ## Checks and scopes -/

instance [Interface R] [Mutates R] : Within R checkCurrent := by
  unfold checkCurrent
  refine within_next fun _ => within_next fun core => ?_
  split
  · infer_instance
  · split
    · infer_instance
    · split <;> infer_instance

instance [Interface R] [Mutates R] : Within R checkRequested := by
  unfold checkRequested
  refine within_next fun _ => within_next fun core => ?_
  split
  · split
    · split <;> infer_instance
    · infer_instance
  · infer_instance

instance [Interface R] [Files R] [Supersedes R] [Rebases R] [Asks R] :
    Within R checkpointDelta := by
  unfold checkpointDelta
  refine within_next fun _ => within_next fun core => ?_
  split
  · dsimp only
    split <;> infer_instance
  · dsimp only
    split <;> infer_instance

instance [Interface R] [Files R] [Supersedes R] [Rebases R] [Asks R]
    (selected : Option Nat) : Within R (stepCommit selected) := by
  unfold stepCommit
  refine within_next fun core => ?_
  split
  · infer_instance
  · split
    · infer_instance
    · split <;> infer_instance

instance [Interface R] [Asks R] (reviewId : ReviewId) (repoId : RepoId) :
    Within R (awaitCommits reviewId repoId) := by
  unfold awaitCommits
  infer_instance

instance [Interface R] [Files R] [Pins R] [Wants R] [Supersedes R] [Rebases R]
    [Asks R] (scope : ScopeChoice) : Within R (setScope scope) := by
  unfold setScope
  refine within_next fun _ => within_next fun core => ?_
  split
  · infer_instance
  · split <;> infer_instance

/-! ## Originals and searches -/

instance [Interface R] [Files R] [Pins R] [Wants R] (threadId : ThreadId) :
    Within R (openOriginal threadId) := by
  unfold openOriginal openOriginal.show_
  refine within_next fun _ => within_next fun core => ?_
  split
  · infer_instance
  · split <;> infer_instance

instance [Interface R] [Latest R] [Asks R] (query : Option String)
    (allFiles : Bool) : Within R (contentSearch query allFiles) := by
  unfold contentSearch
  refine within_next fun core => ?_
  cases core.view.review with
  | none => infer_instance
  | some review =>
    cases query with
    | none =>
      infer_instance
    | some query =>
      dsimp only
      split
      all_goals
        refine within_next fun _ => ?_
        infer_instance

instance [Interface R] (search : SearchKind) : Within R (searchFirst search) := by
  unfold searchFirst
  refine within_next fun core => ?_
  split
  · infer_instance
  · split <;> infer_instance

instance [Interface R] (search : SearchKind) (delta : Int) :
    Within R (searchStep search delta) := by
  unfold searchStep
  refine within_next fun core => ?_
  split <;> split <;> infer_instance

instance [Interface R] [Files R] [Pins R] [Wants R] [Latest R]
    (search : SearchKind) (query : String) : Within R (openSearchResult search query) := by
  unfold openSearchResult
  refine within_next fun core => ?_
  split <;> infer_instance

/-! ## Selectors and modes -/

instance [Interface R] (change : RefSelector → RefSelector) : Within R (changeSelector change) := by
  unfold changeSelector
  refine within_next fun core => ?_
  split <;> infer_instance

instance [Interface R] : Within R closeRefSelector := by
  unfold closeRefSelector
  refine within_next fun core => ?_
  split <;> infer_instance

instance [Interface R] [Asks R] (repoId : RepoId) (refSpec : RefSpec) :
    Within R (askBrowseTree repoId refSpec) := by
  unfold askBrowseTree
  infer_instance

instance [Interface R] [Files R] [Pins R] [Wants R] (repoId : RepoId) :
    Within R (leaveBrowse repoId) := by
  unfold leaveBrowse
  infer_instance

instance [Interface R] [Files R] [Pins R] [Wants R] [Asks R]
    (repoId : RepoId) (refSpec : Option RefSpec) : Within R (setBrowseRef repoId refSpec) := by
  unfold setBrowseRef
  refine within_next fun _ => within_next fun core => ?_
  split
  · infer_instance
  · split <;> infer_instance

instance [Interface R] [Files R] [Pins R] [Wants R] [Asks R] [Mutates R]
    (index : Nat) : Within R (selectRef index) := by
  unfold selectRef
  refine within_next fun core => ?_
  split
  · infer_instance
  · split
    · infer_instance
    · infer_instance
    · refine within_next fun _ => ?_
      split
      · infer_instance
      · dsimp only
        split <;> infer_instance

instance [Interface R] [Files R] [Pins R] [Wants R] [Asks R]
    [Mutates R] : Within R selectCurrentRef := by
  unfold selectCurrentRef
  refine within_next fun core => ?_
  split <;> infer_instance

instance [Interface R] (repoId : RepoId) : Within R (selectBrowseRepo repoId) := by
  unfold selectBrowseRepo
  infer_instance

instance [Interface R] [Files R] [Pins R] [Wants R] [Asks R] : Within R resetBrowse := by
  unfold resetBrowse
  refine within_next fun core => ?_
  split <;> infer_instance

instance [Interface R] [Asks R] (repoId : RepoId) (repoName : String)
    (purpose : RefSelectorPurpose) (current : RefSpec) :
    Within R (askRefs repoId repoName purpose current) := by
  unfold askRefs
  infer_instance

instance [Interface R] [Asks R] (repoId : RepoId)
    (purpose : RefSelectorPurpose) : Within R (openRefSelector repoId purpose) := by
  unfold openRefSelector
  refine within_next fun _ => within_next fun _ => within_next fun core => ?_
  split
  · infer_instance
  · split
    · infer_instance
    · split <;> infer_instance

instance [Interface R] : Within R enterVisual := by
  unfold enterVisual
  refine within_next fun _ => within_next fun core => ?_
  split <;> infer_instance

instance [Interface R] : Within R leaveVisual := by
  unfold leaveVisual
  infer_instance

instance [Interface R] : Within R toggleHelp := by
  unfold toggleHelp
  infer_instance

instance [Interface R] (shown : Bool) : Within R (actionPalette shown) := by
  unfold actionPalette
  infer_instance

instance [Interface R] [Asks R] (repoId : RepoId) : Within R (listCommits repoId) := by
  unfold listCommits
  infer_instance

instance [Interface R] [Files R] [Options R] [Asks R]
    (change : ViewPrefs → ViewPrefs) : Within R (changePrefs change) := by
  unfold changePrefs
  infer_instance

/-! ## Routing -/

/-- A relation that lets all the parts change that user actions change. -/
class Acts (R : ClientCore → List Effect → ClientCore → Prop) : Prop extends
    Interface R, Asks R, Pins R, Wants R, Files R, Latest R, Options R, Rebases R, Mutates R,
    Closes R, Forgets R, Refers R, Supersedes R, Connects R, Contexts R, Drafts R, Discards R,
    Creates R

instance within_act [Acts R] (action : Action) : Within R (act action) := by
  cases action <;> simp only [act] <;> infer_instance

instance [Acts R] (command : Command) : Within R (runCommand command) := by
  unfold runCommand
  refine within_next fun core => ?_
  split <;> infer_instance

instance [Acts R] (action : Action) : Within R (user action) := by
  unfold user
  split <;> infer_instance

end Instances

end Nits.ClientCore
