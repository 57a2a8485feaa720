import Nits.ClientCore.Frames.Handle

/-!
# Rejected inputs

What a rejected input leaves of the state. Each routine that may fail checks before it
writes, or fails only in what comes before its first write.
-/

set_option linter.dupNamespace false

namespace Nits.ClientCore

open Logical Logical.Handler Protocol

/-! ## What a rejected input must leave -/

/-- The panels as the view shows them: what the core keeps for itself is left out. -/
def Panels.shown (panels : Panels) : Panels :=
  { panels with
    expandedFolders := []
    collapsedFolders := []
    fileQuery := none
    fileSelected := 0
    stepper := none
    byCommitPending := false
    fileCollapse := []
    browseAttempt := none
    browseRepo := none
    visualAnchor := none
    realign := none
    refSelector := none
    helpReturn := none
    focusReturn := none }

/-- What a rejected input is to leave as it was: the view, the connection, the committed
snapshot, the pending mutations, the requests in flight and the content. -/
structure Pledged where
  view : View
  panels : Panels
  connection : Connection
  committed : Option ReviewSnapshot
  pending : List Pending
  inFlight : Requests
  content : Content

def ClientCore.pledged (core : ClientCore) : Pledged where
  view := core.view
  panels := core.panels.shown
  connection := core.connection
  committed := core.committed
  pending := core.pending
  inFlight := core.inFlight
  content := core.content

section Guards

variable {ε : Type}

theorem still_write (change : ClientCore → ClientCore)
    (same : ∀ core, (change core).pledged = core.pledged) :
    Still ClientCore.pledged (write change : Handler ClientCore Effect ε Unit) where
  still := same

instance : Still ClientCore.pledged requireSubscribed := by
  unfold requireSubscribed
  infer_instance

instance : Still ClientCore.pledged requireReview := by
  unfold requireReview
  infer_instance

instance : Still ClientCore.pledged requireNoDraft := by
  unfold requireNoDraft
  infer_instance

instance : Still ClientCore.pledged requireCommentableContext := by
  unfold requireCommentableContext
  refine still_next fun core => ?_
  split <;> infer_instance

instance : Still ClientCore.pledged openReviewId := by
  unfold openReviewId
  refine still_next fun core => ?_
  split <;> infer_instance

instance [Presentation] (repoId : RepoId) :
    Still ClientCore.pledged (requireBrowseRepo repoId) := by
  unfold requireBrowseRepo
  refine still_next fun core => ?_
  split <;> infer_instance

instance : Still ClientCore.pledged clearVisual :=
  still_write _ fun _ => rfl

instance : Still ClientCore.pledged mintId :=
  still_write _ fun _ => rfl

instance (id : RequestId) : Still ClientCore.pledged (forgetBuffer id) :=
  still_write _ fun _ => rfl

instance (commentId : CommentId) (state : Suggestion.State) :
    Still ClientCore.pledged (setSuggestion commentId state) :=
  still_write _ fun _ => rfl

instance (requestId : RequestId) (reviewId : ReviewId) (commentId : CommentId) :
    Still ClientCore.pledged (applicationEnded requestId reviewId commentId) := by
  unfold applicationEnded
  refine still_next fun core => ?_
  split <;> infer_instance

end Guards

section Routines

variable [Presentation]

/-! ## User actions -/

instance (file : FileRef) (firstRow lastRow : Nat) :
    Atomic ClientCore.pledged (viewport file firstRow lastRow) := by
  unfold viewport
  refine atomic_next fun core => ?_
  split
  · infer_instance
  · split <;> infer_instance

instance : Atomic ClientCore.pledged connect := by
  unfold connect
  refine atomic_next fun core => ?_
  split <;> infer_instance

instance : Atomic ClientCore.pledged disconnect := by
  unfold disconnect
  refine atomic_next fun core => ?_
  split <;> infer_instance

instance (asking : Request) (waiting : InFlight) :
    Atomic ClientCore.pledged (ask asking waiting) := by
  unfold ask
  infer_instance

instance (workspaceId : WorkspaceId) : Atomic ClientCore.pledged (selectWorkspace workspaceId) := by
  unfold selectWorkspace
  refine atomic_next fun core => ?_
  split <;> infer_instance

instance (workspaceId : WorkspaceId) : Atomic ClientCore.pledged (toggleWorkspace workspaceId) := by
  unfold toggleWorkspace
  infer_instance

instance (workspaceId : WorkspaceId) : Atomic ClientCore.pledged (startCreation workspaceId) := by
  unfold startCreation
  refine atomic_next fun core => ?_
  split
  · infer_instance
  · split <;> infer_instance

instance (workspaceId : WorkspaceId) (title : String) (targets : NonEmpty ReviewTarget) :
    Atomic ClientCore.pledged (createReview workspaceId title targets) := by
  unfold createReview
  refine atomic_next fun _ => ?_
  split <;> infer_instance

instance (reviewId : ReviewId) : Atomic ClientCore.pledged (openReview reviewId) := by
  unfold openReview
  infer_instance

instance (text : String) : Atomic ClientCore.pledged (openReference text) := by
  unfold openReference
  refine atomic_next fun _ => atomic_next fun core => ?_
  split <;> infer_instance

instance (commentId : CommentId) : Atomic ClientCore.pledged (focusComment commentId) := by
  unfold focusComment
  refine atomic_next fun core => ?_
  split
  · infer_instance
  · split
    · infer_instance
    · split
      · infer_instance
      · split <;> infer_instance

instance : Atomic ClientCore.pledged closeOpenReview := by
  unfold closeOpenReview
  refine atomic_next fun core => ?_
  split <;> infer_instance

instance : Atomic ClientCore.pledged closeFile := by
  unfold closeFile
  refine atomic_next fun core => ?_
  split <;> infer_instance

instance (file : FileRef) (row : Nat) (side : Side) (landing : Landing) :
    Atomic ClientCore.pledged (openFileAt file row side landing) := by
  unfold openFileAt
  infer_instance

instance (repoId : RepoId) (path : Option RepoPath) :
    Atomic ClientCore.pledged (toggleDir repoId path) := by
  unfold toggleDir
  infer_instance

instance (query : Option String) : Atomic ClientCore.pledged (fileSearch query) := by
  unfold fileSearch
  infer_instance

instance : Atomic ClientCore.pledged collapseParent := by
  unfold collapseParent
  refine atomic_next fun _ => atomic_next fun core => ?_
  split
  · split <;> infer_instance
  · infer_instance

instance : Atomic ClientCore.pledged collapseAll := by
  unfold collapseAll
  infer_instance

instance (file : FileRef) : Atomic ClientCore.pledged (toggleFileCollapse file) := by
  unfold toggleFileCollapse
  infer_instance

instance (align : ScrollAlign) : Atomic ClientCore.pledged (scrollView align) := by
  unfold scrollView
  refine atomic_next fun core => ?_
  split <;> infer_instance

instance (file : FileRef) (opts : RenderOpts → RenderOpts) :
    Atomic ClientCore.pledged (reRender file opts) := by
  unfold reRender
  refine atomic_next fun _ => atomic_next fun core => ?_
  split
  · infer_instance
  · split <;> infer_instance

instance (file : FileRef) (side : Side) (startLine endLine : UInt32) :
    Atomic ClientCore.pledged (commentLines file side startLine endLine) := by
  unfold commentLines
  refine atomic_next fun _ => atomic_next fun _ => atomic_next fun core => ?_
  split
  · infer_instance
  · split <;> infer_instance

instance (file : FileRef) : Atomic ClientCore.pledged (commentFile file) := by
  unfold commentFile
  refine atomic_next fun _ => atomic_next fun _ => atomic_next fun core => ?_
  split
  · infer_instance
  · split <;> infer_instance

instance (intent : CommentIntent) (anchor : Anchor) :
    Atomic ClientCore.pledged (draftOpened intent anchor) := by
  unfold draftOpened
  infer_instance

instance (threadId : ThreadId) : Atomic ClientCore.pledged (replyOpened threadId) := by
  unfold replyOpened
  refine atomic_next fun core => ?_
  split
  · infer_instance
  · refine atomic_next fun _ => ?_
    split <;> infer_instance

instance (threadId : ThreadId) : Atomic ClientCore.pledged (deferOpened threadId) := by
  unfold deferOpened
  refine atomic_next fun core => ?_
  split
  · infer_instance
  · refine atomic_next fun _ => ?_
    split
    · infer_instance
    · split
      · infer_instance
      · infer_instance
      · infer_instance
      · split <;> infer_instance

instance (mutation : Mutation) : Atomic ClientCore.pledged (mutate mutation) := by
  unfold mutate
  refine atomic_next fun _ => atomic_next fun core => ?_
  split
  · infer_instance
  · split <;> infer_instance

instance (body : String) : Atomic ClientCore.pledged (draftSubmitted body) := by
  unfold draftSubmitted
  refine atomic_next fun core => ?_
  split
  · infer_instance
  · infer_instance
  · refine atomic_next fun _ => atomic_next fun _ => ?_
    split <;> infer_instance

instance : Atomic ClientCore.pledged draftDiscarded := by
  unfold draftDiscarded
  infer_instance

instance (threadId : ThreadId) (body : String) :
    Atomic ClientCore.pledged (reply threadId body) := by
  unfold reply
  infer_instance

instance (commentId : CommentId) (body : String) :
    Atomic ClientCore.pledged (editComment commentId body) := by
  unfold editComment
  infer_instance

instance (commentId : CommentId) : Atomic ClientCore.pledged (deleteComment commentId) := by
  unfold deleteComment
  infer_instance

instance (threadId : ThreadId) (reason : DeferralReason) (trackingUrl : Option TrackingUrl) :
    Atomic ClientCore.pledged (deferThread threadId reason trackingUrl) := by
  unfold deferThread
  infer_instance

instance (threadId : ThreadId) : Atomic ClientCore.pledged (resolveThread threadId) := by
  unfold resolveThread
  infer_instance

instance (threadId : ThreadId) : Atomic ClientCore.pledged (unresolveThread threadId) := by
  unfold unresolveThread
  infer_instance

instance (commentId : CommentId) : Atomic ClientCore.pledged (previewSuggestion commentId) := by
  unfold previewSuggestion
  refine atomic_next fun _ => atomic_next fun core => ?_
  split <;> infer_instance

instance (commentId : CommentId) : Atomic ClientCore.pledged (applySuggestion commentId) := by
  unfold applySuggestion
  refine atomic_next fun _ => atomic_next fun core => ?_
  split
  · infer_instance
  · split <;> infer_instance

instance (file : FileRef) (viewed : Bool) : Atomic ClientCore.pledged (markViewed file viewed) := by
  unfold markViewed
  refine atomic_next fun _ => atomic_next fun core => ?_
  split
  · infer_instance
  · split
    · infer_instance
    · split <;> infer_instance

instance : Atomic ClientCore.pledged checkCurrent := by
  unfold checkCurrent
  refine atomic_next fun _ => atomic_next fun core => ?_
  split
  · infer_instance
  · split
    · infer_instance
    · split <;> infer_instance

instance : Atomic ClientCore.pledged checkRequested := by
  unfold checkRequested
  refine atomic_next fun _ => atomic_next fun core => ?_
  split
  · split
    · split <;> infer_instance
    · infer_instance
  · infer_instance

instance : Atomic ClientCore.pledged checkpointDelta := by
  unfold checkpointDelta
  refine atomic_next fun _ => atomic_next fun core => ?_
  split
  · dsimp only
    split <;> infer_instance
  · dsimp only
    split <;> infer_instance

instance (selected : Option Nat) : Atomic ClientCore.pledged (stepCommit selected) := by
  unfold stepCommit
  refine atomic_next fun core => ?_
  split
  · infer_instance
  · split
    · infer_instance
    · split <;> infer_instance

instance (threadId : ThreadId) : Atomic ClientCore.pledged (openOriginal threadId) := by
  unfold openOriginal
  refine atomic_next fun _ => atomic_next fun core => ?_
  split
  · infer_instance
  · split <;> infer_instance

instance (query : Option String) (allFiles : Bool) :
    Atomic ClientCore.pledged (contentSearch query allFiles) := by
  unfold contentSearch
  refine atomic_next fun core => ?_
  split
  · infer_instance
  · split
    · exact @atomic_of_sure _ _ _ _ _ _ _ inferInstance
    · dsimp only
      split
      · refine atomic_next fun _ => ?_
        exact @atomic_of_sure _ _ _ _ _ _ _ inferInstance
      · exact @atomic_of_sure _ _ _ _ _ _ _ inferInstance

instance (search : SearchKind) : Atomic ClientCore.pledged (searchFirst search) := by
  unfold searchFirst
  refine atomic_next fun core => ?_
  split
  · infer_instance
  · split <;> infer_instance

instance (search : SearchKind) (delta : Int) :
    Atomic ClientCore.pledged (searchStep search delta) := by
  unfold searchStep
  refine atomic_next fun core => ?_
  split <;> split <;> infer_instance

instance (search : SearchKind) (query : String) :
    Atomic ClientCore.pledged (openSearchResult search query) := by
  unfold openSearchResult
  refine atomic_next fun core => ?_
  split <;> infer_instance

instance (change : RefSelector → RefSelector) :
    Atomic ClientCore.pledged (changeSelector change) := by
  unfold changeSelector
  refine atomic_next fun core => ?_
  split <;> infer_instance

instance : Atomic ClientCore.pledged closeRefSelector := by
  unfold closeRefSelector
  refine atomic_next fun core => ?_
  split <;> infer_instance

instance (repoId : RepoId) (refSpec : Option RefSpec) :
    Atomic ClientCore.pledged (setBrowseRef repoId refSpec) := by
  unfold setBrowseRef
  refine atomic_next fun _ => atomic_next fun core => ?_
  split
  · infer_instance
  · split <;> infer_instance

instance (index : Nat) : Atomic ClientCore.pledged (selectRef index) := by
  unfold selectRef
  refine atomic_next fun core => ?_
  split
  · infer_instance
  · split
    · infer_instance
    · infer_instance
    · refine atomic_next fun _ => ?_
      split
      · infer_instance
      · dsimp only
        split <;> infer_instance

instance : Atomic ClientCore.pledged selectCurrentRef := by
  unfold selectCurrentRef
  refine atomic_next fun core => ?_
  split <;> infer_instance

instance (repoId : RepoId) : Atomic ClientCore.pledged (selectBrowseRepo repoId) := by
  unfold selectBrowseRepo
  infer_instance

instance : Atomic ClientCore.pledged resetBrowse := by
  unfold resetBrowse
  refine atomic_next fun core => ?_
  split <;> infer_instance

instance (repoId : RepoId) (purpose : RefSelectorPurpose) :
    Atomic ClientCore.pledged (openRefSelector repoId purpose) := by
  unfold openRefSelector
  refine atomic_next fun _ => atomic_next fun _ => atomic_next fun core => ?_
  split
  · infer_instance
  · split
    · infer_instance
    · split <;> infer_instance

instance : Atomic ClientCore.pledged enterVisual := by
  unfold enterVisual
  refine atomic_next fun _ => atomic_next fun core => ?_
  split <;> infer_instance

instance : Atomic ClientCore.pledged leaveVisual := by
  unfold leaveVisual
  infer_instance

instance (repoId : RepoId) : Atomic ClientCore.pledged (listCommits repoId) := by
  unfold listCommits
  infer_instance

/-- A viewport that cannot be shown is of a file that has no render. -/
theorem viewport_failure {core : ClientCore} {file : FileRef} {firstRow lastRow : Nat}
    {error : CoreError} (failed : (viewport file firstRow lastRow core).result = .error error)
    (opened : core.view.review.isSome) :
    error = .unknownFile file ∧ core.renderOfFile file = none := by
  obtain ⟨review, shown⟩ := Option.isSome_iff_exists.mp opened
  cases rendered : core.renderOfFile file with
  | none =>
    simp only [viewport, bind_run, Handler.bind, Handler.read, shown, rendered, Handler.fail] at failed
    cases failed
    exact ⟨rfl, rfl⟩
  | some key =>
    simp only [viewport, bind_run, Handler.bind, Handler.read, shown, rendered] at failed
    exact absurd failed ((sure_always _).sure core error)

/-- A file on screen can be closed. -/
theorem closeFile_taken {core : ClientCore} (shown : core.openFile.isSome) (error : CoreError) :
    (closeFile core).result ≠ .error error := by
  obtain ⟨file, on⟩ := Option.isSome_iff_exists.mp shown
  obtain ⟨review, opened, named⟩ := Option.bind_eq_some_iff.mp on
  intro failed
  simp only [closeFile, bind_run, Handler.bind, Handler.read, opened, named, Option.isNone_some,
    Bool.false_eq_true, if_false] at failed
  exact absurd failed ((sure_always _).sure core error)

/-- A file on screen is reopened for another tab, or closes. -/
theorem reopen_taken {core : ClientCore} (shown : core.openFile.isSome) (file : FileRef)
    (error : CoreError) : (reopen file core).result ≠ .error error := by
  obtain ⟨on, named⟩ := Option.isSome_iff_exists.mp shown
  obtain ⟨review, opened, _⟩ := Option.bind_eq_some_iff.mp named
  intro failed
  let kept : ClientCore := { core with
    panels := { core.panels with visualAnchor := none }
    view.review := some { review with openFile := some on, original := none } }
  have same : { core with
      panels := { core.panels with visualAnchor := none }
      view.review := core.view.review.map fun review =>
        { review with openFile := core.openFile, original := none } } = kept := by
    rw [opened, named]
    rfl
  rw [reopen_result, same] at failed
  obtain early | ⟨outcome, attempted, failed⟩ := bind_fails _ failed
  · exact Sure.sure kept error early
  rw [attempt_result] at attempted
  rw [attempt_state] at failed
  cases attempted
  cases ended : (viewport file 0 (PAGE_ROWS - 1) kept).result with
  | ok value =>
    rw [ended] at failed
    exact (sure_always _).sure _ error failed
  | error fault =>
    obtain ⟨rfl, _⟩ := viewport_failure ended rfl
    have left : (viewport file 0 (PAGE_ROWS - 1) kept).state = kept :=
      (inferInstance : Atomic id (viewport file 0 (PAGE_ROWS - 1))).atomic kept _ ended
    rw [ended, left] at failed
    exact closeFile_taken rfl error failed

/-- Showing a tab is never rejected. -/
instance (tab : Tab) : Sure (setTab tab) where
  sure core error failed := by
    have rest : ∀ later : ClientCore, later.openFile = core.openFile →
        ((if tab = .conversation then always (render [.focus])
          else match core.openFile with
            | none => always (render [.focus])
            | some file => reopen file.file : Risky Unit) later).result ≠ .error error := by
      intro later same failed
      split at failed
      · exact (sure_always _).sure _ error failed
      · cases shown : core.openFile with
        | none =>
          rw [shown] at failed
          exact (sure_always _).sure _ error failed
        | some file =>
          rw [shown] at failed same
          exact reopen_taken (by rw [same]; rfl) _ error failed
    unfold setTab at failed
    obtain early | ⟨_, read_, failed⟩ := bind_fails _ failed
    · cases early
    cases read_
    split at failed
    · cases failed
    obtain early | ⟨_, _, failed⟩ := bind_fails _ failed
    · exact Sure.sure _ error early
    dsimp only at failed
    cases focused : core.panels.focus with
    | reviewRequest index =>
      rw [focused] at failed
      dsimp only at failed
      by_cases leaving : tab ≠ .conversation
      · rw [if_pos leaving] at failed
        obtain early | ⟨_, _, failed⟩ := bind_fails _ failed
        · cases early
        obtain early | ⟨_, _, failed⟩ := bind_fails _ failed
        · exact Sure.sure _ error early
        refine rest _ ?_ failed
        rfl
      · rw [if_neg leaving] at failed
        refine rest _ ?_ failed
        rfl
    | _ =>
      rw [focused] at failed
      refine rest _ ?_ failed
      rfl

instance (scope : ScopeChoice) : Atomic ClientCore.pledged (setScope scope) := by
  unfold setScope
  refine atomic_next fun _ => atomic_next fun core => ?_
  split
  · infer_instance
  · split <;> infer_instance

/-! ## The focus -/

/-- A focus on a row outside the viewport whose file has no render any more. -/
def ClientCore.losesFile (core : ClientCore) (focus : Focus) : Prop :=
  match focus, core.openFile with
  | .diff row _, some file =>
    (row < file.firstRow ∨ file.lastRow < row) ∧ core.renderOfFile file.file = none
  | _, _ => False

/-- A focus is rejected before it changes anything, unless its file is lost. -/
theorem setFocus_atomic {core : ClientCore} {focus : Focus} {error : CoreError}
    (failed : (setFocus focus core).result = .error error) (kept : ¬ core.losesFile focus) :
    (setFocus focus core).state = core := by
  by_cases inRange : Presentation.clamp core focus ≠ focus
  · simp only [setFocus, bind_run, Handler.bind, Handler.read, if_pos inRange, Handler.fail]
  · exfalso
    apply kept
    clear kept
    revert failed
    unfold setFocus
    intro failed
    obtain early | ⟨_, read_, failed⟩ := bind_fails _ failed
    · cases early
    cases read_
    rw [if_neg inRange] at failed
    obtain early | ⟨_, _, failed⟩ := bind_fails _ failed
    · exact absurd early (Sure.sure _ error)
    obtain early | ⟨focused, read_, failed⟩ := bind_fails _ failed
    · cases early
    have here : focused.openFile = core.openFile := by
      cases read_
      rfl
    obtain early | ⟨_, _, failed⟩ := bind_fails _ failed
    · exact absurd early (Sure.sure _ error)
    dsimp only at failed
    have taken : ∀ later : ClientCore, ((always (render [.focus]) : Risky Unit) later).result ≠
        .error error := fun later => Sure.sure later error
    cases focus with
    | diff row side =>
      cases shown : core.openFile with
      | none =>
        rw [here, shown] at failed
        exact absurd failed (taken _)
      | some file =>
        rw [here, shown] at failed
        dsimp only at failed
        by_cases outside : row < file.firstRow ∨ file.lastRow < row
        · rw [if_pos outside] at failed
          obtain early | ⟨_, _, failed⟩ := bind_fails _ failed
          · obtain ⟨review, opened, _⟩ := Option.bind_eq_some_iff.mp shown
            obtain ⟨_, missing⟩ := viewport_failure early (Option.isSome_of_mem opened)
            unfold ClientCore.losesFile
            rw [shown]
            exact ⟨outside, missing⟩
          · exact absurd failed (taken _)
        · rw [if_neg outside] at failed
          exact absurd failed (taken _)
    | _ => exact absurd failed (taken _)

/-! ## Daemon messages -/

instance (requestId : RequestId) (reviewId : ReviewId) (commentId : CommentId)
    (preview : SuggestionPreview) :
    Atomic ClientCore.pledged (suggestionPreviewed requestId reviewId commentId preview) := by
  unfold suggestionPreviewed
  refine atomic_next fun core => ?_
  split
  · infer_instance
  · split
    · infer_instance
    · split
      · infer_instance
      · split <;> infer_instance

instance (requestId : RequestId) (reviewId : ReviewId) (commentId : CommentId) (event : Event) :
    Atomic ClientCore.pledged (suggestionApplied requestId reviewId commentId event) := by
  unfold suggestionApplied
  split
  · infer_instance
  · refine atomic_next fun _ => atomic_next fun core => ?_
    split <;> infer_instance

instance (id : RequestId) (repoId : RepoId) (snapshot : TreeSnapshot) :
    Atomic ClientCore.pledged (browseAnswer id repoId snapshot) := by
  unfold browseAnswer
  refine atomic_next fun core => ?_
  split <;> infer_instance

instance (clientSeq : ClientSeq) (event : Event) :
    Atomic ClientCore.pledged (mutationCommitted clientSeq event) := by
  unfold mutationCommitted
  refine atomic_next fun core => ?_
  split <;> infer_instance

instance : Atomic ClientCore.pledged welcome := by
  unfold welcome
  refine atomic_next fun core => ?_
  split <;> infer_instance

instance (id : RequestId) (waiting : InFlight) (answer : Response) :
    Atomic ClientCore.pledged (routed id waiting answer) := by
  unfold routed
  split
  · dsimp only
    refine atomic_next fun core => ?_
    split <;> infer_instance
  all_goals infer_instance

instance (id : RequestId) (answer : Response) : Atomic ClientCore.pledged (response id answer) := by
  unfold response
  refine atomic_next fun core => ?_
  split
  · infer_instance
  · split <;> infer_instance

instance (id : RequestId) (waiting : InFlight) (item : StreamItem) :
    Atomic ClientCore.pledged (streamed id waiting item) := by
  unfold streamed
  split
  · infer_instance
  · infer_instance
  · infer_instance
  · dsimp only
    refine atomic_next fun core => ?_
    split <;> infer_instance
  all_goals infer_instance

instance (id : RequestId) (item : StreamItem) : Atomic ClientCore.pledged (streamItem id item) := by
  unfold streamItem
  refine atomic_next fun core => ?_
  split <;> infer_instance

instance (id : RequestId) : Atomic ClientCore.pledged (streamEnd id) := by
  unfold streamEnd
  refine atomic_next fun core => ?_
  split <;> infer_instance

instance (id : RequestId) (failure : RpcError) : Atomic ClientCore.pledged (error id failure) := by
  unfold error
  refine atomic_next fun _ => atomic_next fun core => ?_
  split <;> infer_instance

instance (live : Event) : Atomic ClientCore.pledged (event live) := by
  unfold event
  refine atomic_next fun core => ?_
  split <;> infer_instance

instance (delta : TreeDelta) : Atomic ClientCore.pledged (liveTree delta) := by
  unfold liveTree
  refine atomic_next fun core => ?_
  split <;> infer_instance

instance (key : Key) (value : Option Bytes) : Atomic ClientCore.pledged (stored key value) := by
  unfold stored
  refine atomic_next fun core => ?_
  split
  · infer_instance
  · dsimp only
    split <;> infer_instance

/-! ## Refused handshakes -/

/-- The core after the daemon refused its handshake for good: the connection is down, with
the newest event still known, what was under way is lost, and the refusal is shown. -/
def ClientCore.refusedBy (core : ClientCore) (refusal : RpcError) : ClientCore :=
  { core.lost with
    connection := .disconnected core.connection.lastSeq
    recovery := .idle
    view.connection := .rejected refusal }

omit [Presentation] in
/-- A refusal that is reported as an error leaves the core refused. -/
theorem refused_error {core : ClientCore} {refusal : RpcError} {error : CoreError}
    (failed : (refused refusal core).result = .error error) :
    (refused refusal core).state = core.refusedBy refusal := by
  cases recovering : core.recovery <;> cases refusal <;>
    simp only [refused, bind_run, Handler.bind, Handler.read, recovering] at failed ⊢ <;>
    first
      | rfl
      | cases failed

omit [Presentation] in
theorem rejected_error {core : ClientCore} {refusal : RpcError} {error : CoreError}
    (failed : (rejected refusal core).result = .error error) :
    (rejected refusal core).state =
      if core.connection.kind = .connecting then core.refusedBy refusal else core := by
  cases connected : core.connection with
  | connecting helloSent lastSeq =>
    have ran : rejected refusal core = refused refusal core := by
      simp only [rejected, bind_run, Handler.bind, Handler.read, connected, List.nil_append]
    rw [ran] at failed ⊢
    exact refused_error failed
  | _ => simp only [rejected, bind_run, Handler.bind, Handler.read, connected, Handler.fail,
      Connection.kind, reduceCtorEq, if_false]

/-! ## Every input -/

/-- The action moves the focus out of a lost file's viewport. -/
def ClientCore.slipsOn (core : ClientCore) : Action → Prop
  | .setFocus focus => core.losesFile focus
  | _ => False

/-- The command resolves to such an action. -/
def ClientCore.slipsBy (core : ClientCore) (command : Command) : Prop :=
  match Presentation.resolve core command with
  | .ok resolved => core.slipsOn resolved.action
  | .error _ => False

/-- The core with no chords in progress. -/
def ClientCore.unchorded (core : ClientCore) : ClientCore :=
  { core with keys := { core.keys with chords := [] } }

/-- The input moves the focus out of a lost file's viewport. -/
def ClientCore.slips (core : ClientCore) : Input → Prop
  | .user (.runCommand command) => core.slipsBy command
  | .user action => core.slipsOn action
  | .key chord =>
    match Presentation.lookup core.counted (core.keys.chords ++ [chord]) with
    | .command command => core.counted.unchorded.slipsBy command
    | _ => False
  | _ => False

theorem act_error {core : ClientCore} {action : Action} {error : CoreError}
    (failed : (act action core).result = .error error) (kept : ¬ core.slipsOn action) :
    (act action core).state.pledged = core.pledged := by
  cases action with
  | setFocus focus => exact congrArg ClientCore.pledged (setFocus_atomic failed kept)
  | closeFile =>
    have whole : Atomic ClientCore.pledged (act .closeFile) :=
      atomic_next fun _ => inferInstance
    exact whole.atomic core error failed
  | _ =>
    simp only [act, expandContext, expandGap] at failed ⊢
    exact Atomic.atomic _ error failed

theorem runCommand_error {core : ClientCore} {command : Command} {error : CoreError}
    (failed : (runCommand command core).result = .error error) (kept : ¬ core.slipsBy command) :
    (runCommand command core).state.pledged = core.pledged := by
  unfold ClientCore.slipsBy at kept
  cases resolved : Presentation.resolve core command with
  | error reason =>
    simp only [runCommand, bind_run, Handler.bind, Handler.read, resolved, Handler.fail]
  | ok found =>
    rw [resolved] at kept
    have ran : (runCommand command core).result = (act found.action core).result ∧
        (runCommand command core).state = (act found.action core).state := by
      simp only [runCommand, bind_run, Handler.bind, Handler.read, resolved, and_self]
    rw [ran.1] at failed
    rw [ran.2]
    exact act_error failed kept

theorem key_error {core : ClientCore} {chord : KeyChord} {error : CoreError}
    (failed : (key chord core).result = .error error)
    (kept : ∀ command, Presentation.lookup core (core.keys.chords ++ [chord]) = .command command →
      ¬ core.unchorded.slipsBy command) : (key chord core).state.pledged = core.pledged := by
  cases looked : Presentation.lookup core (core.keys.chords ++ [chord]) with
  | prefix_ =>
    simp only [key, bind_run, Handler.bind, Handler.read, looked] at failed
    cases failed
  | command command =>
    have ran : key chord core = (runCommand command >>= fun _ =>
        pure (some command) : Risky (Option Command)) core.unchorded := by
      simp only [key, bind_run, Handler.bind, Handler.read, looked, List.nil_append]
      rfl
    rw [ran] at failed ⊢
    obtain early | ⟨_, _, late⟩ := bind_fails _ failed
    · rw [bind_error _ early]
      exact runCommand_error early (kept command looked)
    · cases late
  | none =>
    have ran : (key chord core).state = core.unchorded := by
      by_cases kept : Presentation.inComposer core.panels.focus ∨ core.keys.chords ≠ []
      · simp only [key, bind_run, Handler.bind, Handler.read, looked, if_pos kept]
        rfl
      · simp only [key, bind_run, Handler.bind, Handler.read, looked, if_neg kept]
        rfl
    rw [ran]
    rfl

/-- A key press fails only with its key, and leaves what the key left, noted as unbound. -/
theorem keyPressed_fails {core : ClientCore} {chord : KeyChord} {error : CoreError}
    (failed : (keyPressed chord core).result = .error error) :
    ∃ fault, (key chord core.counted).result = .error fault ∧
      (keyPressed chord core).state = (setLastKey none (key chord core.counted).state).state := by
  rw [keyPressed_eq] at failed ⊢
  cases pressed : (key chord core.counted).result with
  | ok command =>
    obtain early | ⟨outcome, attempted, late⟩ := bind_fails _ failed
    · exact absurd early (Sure.sure _ error)
    · rw [attempt_result, pressed] at attempted
      cases attempted
      exact absurd late ((sure_always _).sure _ error)
  | error fault =>
    refine ⟨fault, rfl, ?_⟩
    rw [bind_ok _ (by rw [attempt_result, pressed]), attempt_state]
    rfl

theorem keyPressed_error {core : ClientCore} {chord : KeyChord} {error : CoreError}
    (failed : (keyPressed chord core).result = .error error) (kept : ¬ core.slips (.key chord)) :
    (keyPressed chord core).state.pledged = core.pledged := by
  obtain ⟨fault, pressed, left⟩ := keyPressed_fails failed
  have unmoved : (key chord core.counted).state.pledged = core.counted.pledged := by
    refine key_error pressed fun command looked => ?_
    have pressed : Presentation.lookup core.counted (core.keys.chords ++ [chord]) =
      .command command := looked
    simp only [ClientCore.slips, pressed] at kept
    exact kept
  rw [left]
  exact unmoved

theorem user_error {core : ClientCore} {action : Action} {error : CoreError}
    (failed : (user action core).result = .error error) (kept : ¬ core.slips (.user action)) :
    (user action core).state.pledged = core.pledged := by
  cases action with
  | runCommand command => exact runCommand_error failed kept
  | _ => exact act_error failed kept

/-- The refusal that an input brings to a core that is shaking hands. -/
def ClientCore.refusal (core : ClientCore) : Input → Option RpcError
  | .server (.rejected error) => if core.connection.kind = .connecting then some error else none
  | _ => none

theorem route_error {core : ClientCore} {input : Input} {error : CoreError}
    (failed : (route input core).result = .error error) (kept : ¬ core.slips input) :
    match core.refusal input with
    | none => (route input core).state.pledged = core.pledged
    | some refusal => (route input core).state = core.refusedBy refusal := by
  have taken : ∀ safe : Client Unit, ((always safe : Risky Unit) core).result ≠ .error error :=
    fun _ => Sure.sure core error
  cases input with
  | user action => exact user_error failed kept
  | key chord => exact keyPressed_error failed kept
  | server msg =>
    cases msg with
    | rejected refusal =>
      have left := rejected_error failed
      by_cases connecting : core.connection.kind = .connecting
      · rw [if_pos connecting] at left
        simp only [ClientCore.refusal, if_pos connecting]
        exact left
      · rw [if_neg connecting] at left
        simp only [ClientCore.refusal, if_neg connecting]
        exact congrArg ClientCore.pledged left
    | restarting operation => exact absurd failed (taken _)
    | _ =>
      simp only [route, server] at failed ⊢
      exact Atomic.atomic _ error failed
  | stored key value =>
    have whole : Atomic ClientCore.pledged (loadAnswered key value) := by
      unfold loadAnswered
      infer_instance
    exact whole.atomic core error failed
  | _ => exact absurd failed (taken _)

/-- A rejected input leaves the view, the connection, the committed snapshot, the pending
mutations, the requests in flight and the content as they were; a refused handshake leaves
the core refused. -/
theorem handle_error {core : ClientCore} {input : Input} {error : CoreError}
    (failed : (handle input core).result = .error error) (kept : ¬ core.slips input) :
    (handle input core).orders = [] ∧
      match core.refusal input with
      | none => (handle input core).state.pledged = core.pledged
      | some refusal => (handle input core).state = core.refusedBy refusal := by
  unfold handle at failed ⊢
  split at failed
  next fault _ left ran =>
    have routed := route_error (by rw [ran]) kept
    rw [ran] at routed
    exact ⟨rfl, routed⟩
  · cases failed

end Routines

/-- What opens a review and leaves a comment pending on it, with requests in flight. -/
def ClientCore.commenting : List Input :=
  visit (plainReview 0) ++ [.user (.draftOpened .review), .user (.draftSubmitted "why?")]

/-- An unbound key is rejected once it was counted and the chords were cleared. -/
theorem handle_error_unbound :
    let _ : Presentation := .plain
    let core := ClientCore.fresh.run ClientCore.commenting
    core.pending.length = 1 ∧ core.inFlight.length = 4 ∧
      (handle (.key "x") core).result = .error (.unboundKey ["x"]) ∧
      (handle (.key "x") core).state.pledged = core.pledged := by
  intro _ core
  have pending : core.pending.length = 1 := by decide +kernel
  have waiting : core.inFlight.length = 4 := by decide +kernel
  have chords : core.keys.chords = [] := by decide +kernel
  have typing : ¬ core.panels.focus = .composer := by decide +kernel
  clear_value core
  have unbound : (key "x" core.counted).result = .error (.unboundKey ["x"]) := by
    have fresh : core.counted.keys.chords = [] := chords
    have looked : Presentation.lookup core.counted ["x"] = .none := rfl
    have resting : Presentation.inComposer core.counted.panels.focus = false :=
      decide_eq_false typing
    simp only [key, bind_run, Handler.bind, Handler.read, fresh, List.nil_append, looked, resting]
    rfl
  have routed : (route (.key "x") core).result = .error (.unboundKey ["x"]) := by
    change (keyPressed "x" core).result = .error (.unboundKey ["x"])
    rw [keyPressed_eq, bind_ok _ (by rw [attempt_result, unbound])]
    rfl
  have failed : (handle (.key "x") core).result = .error (.unboundKey ["x"]) := by
    unfold handle
    split
    next left =>
      rw [left] at routed
      exact routed
    next left =>
      rw [left] at routed
      cases routed
  exact ⟨pending, waiting, failed, (handle_error failed id).2⟩

/-- A refused handshake is an error that takes the connection down. -/
theorem handle_error_refused :
    let _ : Presentation := .plain
    let core := ClientCore.fresh.run ClientCore.greeting
    let refused := handle (.server (.rejected (.forbidden "closed"))) core
    refused.result = .error (.rejected (.forbidden "closed")) ∧
      core.connection = .connecting true none ∧
      refused.state.connection = .disconnected none :=
  ⟨rfl, rfl, rfl⟩

end Nits.ClientCore
