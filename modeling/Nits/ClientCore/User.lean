import Nits.ClientCore.Navigation

/-!
# User actions

One definition for each group of actions, and `user` that routes an action to its own.
-/

set_option linter.dupNamespace false

namespace Nits.ClientCore

open Logical Logical.Handler Protocol

section User

variable [Presentation]

/-! ## Connection and lists -/

/-- Load the preferences and the keymap, once per core. -/
def loadPrefs : Client Unit := do
  let core ← read
  if core.prefsLoaded then pure ()
  else do
    write fun core => { core with prefsLoaded := true }
    order (.load ViewPrefs.KEY)
    order (.load Presentation.keysKey)

/-- Dial the daemon. -/
def dial (lastSeq : Option Seq) : Client Unit := do
  setConnection (.connecting false lastSeq)
  setRecovery .idle
  setConnectionView .connecting
  order .connect
  render [.connection]
  loadPrefs

/-- Dial, from a disconnected core alone. -/
def connect : Risky Unit := do
  let core ← read
  match core.connection with
  | .disconnected lastSeq => always (dial lastSeq)
  | .connecting .. | .subscribed _ => fail (core.wrongState .user)

/-- Hang up; the state follows with the transport's event. -/
def disconnect : Risky Unit := do
  let core ← read
  match core.connection with
  | .disconnected _ => fail (core.wrongState .user)
  | .connecting .. | .subscribed _ => always (order .disconnect)

/-- Make a request while subscribed. -/
def ask (asking : Request) (waiting : InFlight) : Risky Unit := do
  requireSubscribed
  always (request asking waiting)

/-- The command has nothing to act on. -/
def nothingFor (command : Command) : CoreError := .noTarget (.nothing command)

/-- Move the focus and show where it is. -/
def focusOn (focus : Focus) : Client Unit := do
  panels fun panels => { panels with focus }
  render [.focus]

/-- Focus the first row of a workspace. -/
def selectWorkspace (workspaceId : WorkspaceId) : Risky Unit := do
  let core ← read
  match core.panels.derived.homeRows.findIdx? fun row => row.workspaceId = workspaceId with
  | none => fail (nothingFor .openTarget)
  | some index => always (focusOn (.reviewList index))

/-- Fold or unfold a known workspace of the home list. -/
def toggleWorkspace (workspaceId : WorkspaceId) : Risky Unit := do
  let core ← read
  if core.view.workspaces.any fun workspace => workspace.id = workspaceId then do
    panels fun panels => { panels with
      expandedWorkspaces :=
        if panels.expandedWorkspaces.contains workspaceId then
          panels.expandedWorkspaces.filter fun id => id ≠ workspaceId
        else panels.expandedWorkspaces ++ [workspaceId] }
    always (render [.reviewList])
  else fail (nothingFor .openTarget)

/-- An attempt whose outcome is open keeps its form. -/
def cancelNewReview : Client Unit := do
  let core ← read
  if core.view.creating.any fun creation =>
      ¬ creation.editable ∧ creation.status ≠ .succeeded then pure ()
  else do
    setCreating none
    render [.reviewList]

/-- No snapshot that is under way will be opened. -/
def forgetOpening : Client Unit :=
  write fun core => { core with pendingReference := none, latestOpen := none }

/-- Close the review and focus its workspace. -/
def goHome : Client Unit := do
  forgetOpening
  let core ← read
  if core.view.review.isSome then closeReview else pure ()
  let index := core.panels.derived.homeRows.findIdx? fun row =>
    some row.workspaceId = core.panels.selectedWorkspace
  focusOn (.reviewList (index.getD 0))
  render [.reviewList, .focus, .draft]

/-- Create a review; not shown before the daemon's event. -/
def createReview (workspaceId : WorkspaceId) (title : String)
    (targets : NonEmpty ReviewTarget) : Risky Unit := do
  requireSubscribed
  match ReviewCreation.checkRepositories (targets.items.map ReviewTarget.repoId) with
  | .error message => always (referenceError message)
  | .ok () => always (send workspaceId title targets)
where
  send (workspaceId : WorkspaceId) (title : String) (targets : NonEmpty ReviewTarget) :
      Client Unit := do
    let core ← read
    mintId
    mutateUnshown (.createReview core.minted workspaceId title targets) .mutate

/-! ## Opening -/

/-- Ask for a review: streamed, or piecewise when a disk tier may hold its content. -/
def askReview (reviewId : ReviewId) : Client Unit := do
  let core ← read
  write fun core => { core with pendingReference := none }
  match core.content.config.disk with
  | .disabled =>
    request (.openReview reviewId core.content.config.renderOpts)
      (.openReview reviewId .awaitingSnapshot)
  | .enabled _ => request (.reviewSnapshot reviewId) (.reviewSnapshot reviewId)

/-- Ask for a review while subscribed. -/
def openReview (reviewId : ReviewId) : Risky Unit := do
  requireSubscribed
  always (askReview reviewId)

/-- Open what a reference names, in this daemon's context only. -/
def openReference (text : String) : Risky Unit := do
  requireSubscribed
  let core ← read
  match Presentation.parseReference text with
  | .error message => always (referenceError message)
  | .ok reference =>
    if core.referenceContext ≠ some reference.context then
      always (referenceError ("This reference belongs to another daemon context. Open it " ++
        "with `nits open <reference>` or select that context explicitly."))
    else always (askReference reference)
where
  askReference (reference : ReviewReference) : Client Unit := do
    askReview reference.reviewId
    write fun core => { core with
      view.lastError := none
      pendingReference := some ⟨reference, []⟩ }

/-- The host says which daemon this is. -/
def setReferenceContext (context : ReferenceContext) : Client Unit := do
  write fun core => { core with
    view.daemonContext := Presentation.locate context
    referenceContext := some context }
  render [.focus, .threads, .reviewList]

/-- Close the review on screen. -/
def closeOpenReview : Risky Unit := do
  let core ← read
  match core.view.review with
  | none => fail .noOpenReview
  | some _ => always leaveReview
where
  leaveReview : Client Unit := do
    forgetOpening
    closeReview
    render [.reviewList, .draft]

/-! ## Files and rows -/

/-- Record where the view should sit around a row. -/
def scrollTo (row : Nat) (align : ScrollAlign) : Client Unit :=
  panels fun panels =>
    let seq := match panels.scroll with
      | some scroll => scroll.seq
      | none => 0
    { panels with scroll := some ⟨row, align, (seq + 1) % 2 ^ 32⟩ }

/-- Open a file around a row and put the focus on that row. -/
def openFileAt (file : FileRef) (row : Nat) (side : Side) (landing : Landing) : Risky Unit := do
  let firstRow := row - PAGE_ROWS / 2
  viewport file firstRow (firstRow + PAGE_ROWS - 1)
  panels fun panels => { panels with focus := .diff row side }
  if landing = .pin then always (scrollTo row .top) else pure ()
  always (render [.focus])

/-- End the selection of lines. -/
def clearVisual : Client Unit := panels fun panels => { panels with visualAnchor := none }

/-- Guard: a review is open. -/
def requireReview : Risky Unit := do
  let core ← read
  if core.view.review.isSome then pure () else fail .noOpenReview

/-- Add a folder, or take it out. -/
def toggled (folders : List Folder) (folder : Folder) : List Folder :=
  if folders.contains folder then folders.filter fun known => known ≠ folder
  else folder :: folders

/-- Each tab keeps its own folds: Browse what is open, the others what is closed. -/
def toggleDir (repoId : RepoId) (path : Option RepoPath) : Risky Unit := do
  requireReview
  panels fun panels =>
    let panels := { panels with browseRepo := some repoId }
    if panels.tab = .browse then
      { panels with expandedFolders := toggled panels.expandedFolders (repoId, path) }
    else { panels with collapsedFolders := toggled panels.collapsedFolders (repoId, path) }

/-- Set the file search's query; its first hit is selected. -/
def fileSearch (query : Option String) : Risky Unit := do
  requireReview
  panels fun panels => { panels with fileQuery := query, fileSelected := 0 }

/-- Fold the folder above the focused row and focus it. -/
def collapseParent : Risky Unit := do
  requireReview
  let core ← read
  match core.panels.focus with
  | .tree index => match Presentation.collapseTarget core index with
    | none => pure ()
    | some (folder, row) =>
      panels fun panels =>
        let panels :=
          if panels.tab = .browse then
            { panels with
              expandedFolders := panels.expandedFolders.filter fun known => known ≠ folder }
          else { panels with collapsedFolders := folder :: panels.collapsedFolders }
        match row with
        | none => panels
        | some row => { panels with focus := .tree row }
  | _ => pure ()

/-- Fold every folder of the tab. -/
def collapseAll : Risky Unit := do
  requireReview
  panels fun panels =>
    let panels :=
      if panels.tab = .browse then { panels with expandedFolders := [] }
      else { panels with collapsedFolders := panels.derived.folders ++ panels.collapsedFolders }
    match panels.focus with
    | .tree _ => { panels with focus := .tree 0 }
    | _ => panels

/-- Fold or unfold a file's diff; a viewed one starts folded. -/
def toggleFileCollapse (file : FileRef) : Risky Unit := do
  requireReview
  panels fun panels =>
    let folded := (panels.fileCollapse.lookup file).getD (panels.derived.viewedFiles.contains file)
    { panels with
      fileCollapse := (file, ¬ folded) :: panels.fileCollapse.filter fun entry => entry.1 ≠ file }

/-- Scroll the focused diff row to the center, top or bottom. -/
def scrollView (align : ScrollAlign) : Risky Unit := do
  let core ← read
  match core.panels.focus with
  | .diff row _ => do
    scrollTo row align
    always (render [.focus])
  | _ => fail (nothingFor .centerView)

/-- Reopen the file on screen for another tab; one that the tab does not have closes. -/
def reopen (file : FileRef) : Risky Unit := do
  clearVisual
  let core ← read
  showFile core.openFile none
  match ← attempt (viewport file 0 (PAGE_ROWS - 1)) with
  | .ok () => always (render [.focus])
  | .error (.unknownFile _) => closeFile
  | .error error => fail error

/-- What reopening comes to: the viewport's outcome, from the state with the selection ended. -/
theorem reopen_result (file : FileRef) (core : ClientCore) : (reopen file core).result =
    ((attempt (viewport file 0 (PAGE_ROWS - 1)) >>= fun shown => match shown with
      | .ok () => always (render [.focus])
      | .error (.unknownFile _) => closeFile
      | .error error => fail error : Risky Unit) { core with
        panels := { core.panels with visualAnchor := none }
        view.review := core.view.review.map fun review =>
          { review with openFile := core.openFile, original := none } }).result :=
  rfl

/-- Show a center tab. -/
def setTab (tab : Tab) : Risky Unit := do
  let core ← read
  if core.panels.tab = tab then pure ()
  else do
    panels fun panels => { panels with tab }
    match core.panels.focus with
    | .reviewRequest _ =>
      if tab ≠ .conversation then do
        let core ← read
        panels fun panels => { panels with focus := Presentation.clamp core (.diff 0 .head) }
      else pure ()
    | _ => pure ()
    if tab = .conversation then always (render [.focus])
    else match core.openFile with
      | none => always (render [.focus])
      | some file => reopen file.file

/-- Focus a row; one outside the viewport scrolls the viewport. -/
def setFocus (focus : Focus) : Risky Unit := do
  let core ← read
  if Presentation.clamp core focus ≠ focus then fail (.focusOutOfRange focus)
  else do
    panels fun panels => { panels with focus }
    let core ← read
    let repo := Presentation.targetRepoOf core focus
    panels fun panels => { panels with
      browseRepo := match focus with
        | .tree _ | .diff .. => repo
        | _ => panels.browseRepo
      tab := match focus with
        | .reviewRequest _ => .conversation
        | _ => panels.tab
      focusedComment := none }
    match focus, core.openFile with
    | .diff row _, some file =>
      if row < file.firstRow ∨ file.lastRow < row then
        viewport file.file (row - PAGE_ROWS / 2) (row - PAGE_ROWS / 2 + PAGE_ROWS - 1)
      else pure ()
    | _, _ => pure ()
    always (render [.focus])

/-! ## Re-rendering -/

/-- How much one step adds to a file's context lines. -/
def EXPAND_STEP : Nat := 20

/-- Context that shows the whole file. -/
def FULL_CONTEXT : Nat := 1000000

/-- The render of a file that an expansion changes: the original on screen, else the
review's own. -/
def OpenReview.rerendered (review : OpenReview) (file : FileRef) : Option RenderKey :=
  match review.originalRender.filter fun key =>
      key.repoId = file.repoId ∧ key.path = file.path with
  | some key => some key
  | none => review.fileAt file

/-- The open review with one render re-keyed. A historical pane owns its options. -/
def OpenReview.rekeyed (review : OpenReview) (old key : RenderKey) : OpenReview :=
  let historical := review.originalRender = some old
  { review with
    original := if historical then some key else review.original
    files := if historical then review.files
      else modifyFirst (fun render => render = old) (fun _ => key) review.files
    openFile := review.openFile.map fun file =>
      if file.render = old then { file with render := key } else file }

/-- Whether the render is a submodule's, which has no options. -/
def isSubmodule (key : RenderKey) : Bool :=
  match key.target with
  | .diff (.submodule _) => true
  | _ => false

/-- Put a render in another's place. -/
def rekey (old key : RenderKey) : Client Unit :=
  write fun core => { core with
    view.review := core.view.review.map fun review => review.rekeyed old key }

/-- Remember the cursor's line, or carry the line of an expansion still under way. -/
def rememberLine (old key : RenderKey) : Client Unit := do
  let core ← read
  let remembered := match Presentation.focusedLine core old key with
    | some realign => some realign
    | none => (core.panels.realign.filter fun pending => pending.render = old).map fun pending =>
        { pending with render := key }
  panels fun panels => { panels with realign := remembered }

/-- Re-key one file's render under new options and refetch it. -/
def reRender (file : FileRef) (opts : RenderOpts → RenderOpts) : Risky Unit := do
  requireSubscribed
  let core ← read
  match core.view.review with
  | none => fail .noOpenReview
  | some review => match review.rerendered file with
    | none => fail (.unknownFile file)
    | some old => do
      let key := { old with opts := opts old.opts }
      if isSubmodule old ∨ key = old then pure ()
      else do
        rememberLine old key
        rekey old key
        wantOpenRender review.snapshot.review.id key
        always (render [.diff])

/-- Widen the whole file's context; the recorded gaps are subsumed. -/
def expandContext (file : FileRef) (full : Bool) : Risky Unit :=
  reRender file fun opts => { opts with
    contextLines := if full then FULL_CONTEXT
      else Expansions.saturatingAdd opts.contextLines EXPAND_STEP
    expanded := ⟨[]⟩ }

/-- Open one hidden run by a step. -/
def expandGap (file : FileRef) (gap : Gap) (dir : ExpandDir) : Risky Unit :=
  reRender file fun opts => { opts with expanded := opts.expanded.opened gap dir EXPAND_STEP }

/-! ## Comments -/

/-- Move the focus into a modal panel, remembering where to come back to. -/
def enter (focus : Focus) : Client Unit :=
  panels fun panels => { panels with
    focusReturn := match panels.focusReturn with
      | some focus => some focus
      | none => some panels.focus
    focus }

/-- Give the focus back to where the panel was entered from. -/
def leave : Client Unit :=
  panels fun panels => match panels.focusReturn with
    | some focus => { panels with focusReturn := none, focus }
    | none => panels

/-- Set or close the composer's draft. -/
def setDraft (draft : Option Draft) : Client Unit :=
  write fun core => { core with view.draft := draft }

/-- The context that a comment on a render records: a change, or the ref that is
browsed. A pinned original keeps the context of the comment it came from. -/
def ClientCore.contextForRender (core : ClientCore) (key : RenderKey) :
    Option CommentContext := do
  let review ← core.view.review
  match originalContext review key with
  | some context => some context
  | none => match key.target with
    | .diff change => some (.diff change)
    | .blob _ => (browsed core key review).map .browse
where
  originalContext (review : OpenReview) (key : RenderKey) : Option CommentContext :=
    if review.original = some key then
      (review.snapshot.comments.find? fun comment =>
        browses comment.context && names key comment.anchor).bind Comment.context
    else none
  browses : Option CommentContext → Bool
    | some (.browse _) => true
    | _ => false
  names (key : RenderKey) : Anchor → Bool
    | .file repoId path blobOid | .lines repoId path _ blobOid _ _ =>
      repoId = key.repoId && path = key.path && match key.target with
        | .blob entry => decide (entry.oid = blobOid)
        | .diff _ => false
    | .review => false
  browsed (core : ClientCore) (key : RenderKey) (review : OpenReview) : Option RefSpec :=
    match core.browse.filter fun browse => browse.target.repoId = key.repoId with
    | some browse => some browse.target.refSpec
    | none => (review.currentTargets.find? fun target => target.repoId = key.repoId).map
        fun target => refSpecOf target.head

/-- The content already displayed for a file, else what the file resolves to. -/
def ClientCore.commentRender (core : ClientCore) (file : FileRef) : Option RenderKey := do
  let _ ← core.view.review
  match (core.openFile.map OpenFile.render).filter fun key =>
      key.repoId = file.repoId ∧ key.path = file.path with
  | some key => some key
  | none => core.renderOfFile file

/-- The visible content that a comment at an anchor is about. -/
def ClientCore.commentContext (core : ClientCore) : Anchor → Option CommentContext
  | .review => none
  | .file repoId path _ | .lines repoId path _ _ _ _ =>
    (core.commentRender ⟨repoId, path⟩).bind core.contextForRender

/-- Historical diffs cannot open composers. -/
def requireCommentableContext : Risky Unit := do
  let core ← read
  match core.view.review with
  | none => fail .noOpenReview
  | some review =>
    if review.originalIsReadOnly then fail (.noTarget .readOnlyOriginal) else pure ()

/-- Guard: no draft is open. -/
def requireNoDraft : Risky Unit := do
  let core ← read
  if core.view.draft.isSome then fail .draftAlreadyOpen else pure ()

/-- Open the composer on a draft. -/
def compose (draft : Draft) : Client Unit := do
  setDraft (some draft)
  enter .composer
  render [.draft, .focus]

/-- The blob of a render's side. -/
def RenderKey.blobOf (key : RenderKey) : Side → Option BlobOid
  | .head => match key.target with
    | .diff change => change.newBlob
    | .blob entry => some entry.oid
  | .base => match key.target with
    | .diff change => change.oldBlob
    | .blob _ => none

/-- The render that lines of a file are picked on. -/
def ClientCore.linesRender (core : ClientCore) (review : OpenReview) (file : FileRef) :
    Option RenderKey :=
  match (review.openFile.map OpenFile.render).filter fun key =>
      key.repoId = file.repoId ∧ key.path = file.path with
  | some key => some key
  | none => if core.panels.tab = .browse then none else review.fileAt file

/-- The anchor of a range of visible lines. -/
def ClientCore.linesAnchor (core : ClientCore) (review : OpenReview) (file : FileRef)
    (side : Side) (startLine endLine : UInt32) : Option Anchor := do
  let key ← core.linesRender review file
  let blob ← key.blobOf side
  let rows := Presentation.lineRows core.content.cache review.snapshot key side
  let (low, high) := (min startLine endLine, max startLine endLine)
  if [low, high].all fun line => rows.any fun row => row.2 = line.toNat then do
    let low ← LineNo.new low
    let high ← LineNo.new high
    let lines ← (LineRange.new low high).toOption
    -- The daemon hashes the context itself.
    some (.lines file.repoId file.path side blob lines ⟨0⟩)
  else none

/-- Open a draft on a line range of a file. -/
def commentLines (file : FileRef) (side : Side) (startLine endLine : UInt32) : Risky Unit := do
  requireCommentableContext
  requireNoDraft
  let core ← read
  match core.view.review with
  | none => fail .noOpenReview
  | some review => match core.linesAnchor review file side startLine endLine with
    | none => fail (.unknownFile file)
    | some anchor => do
      clearVisual
      always (compose ⟨none, anchor, .comment .finding (core.commentContext anchor)⟩)

/-- Open a draft on a whole file. -/
def commentFile (file : FileRef) : Risky Unit := do
  requireCommentableContext
  requireNoDraft
  let core ← read
  match core.commentRender file with
  | none => fail (.unknownFile file)
  | some source => match source.blobOf .head with
    | none => fail (.unknownFile file)
    | some blob => do
      clearVisual
      always (compose ⟨none, .file file.repoId file.path blob,
        .comment .finding (core.contextForRender source)⟩)

/-- Start a comment; findings record their context. -/
def draftOpened (intent : CommentIntent) (anchor : Anchor) : Risky Unit := do
  requireReview
  if anchor = .review then pure () else requireCommentableContext
  requireNoDraft
  let core ← read
  clearVisual
  let context := match intent with
    | .finding => core.commentContext anchor
    | .informational => none
  always (compose ⟨none, anchor, .comment intent context⟩)

/-- The thread of an id and its root. -/
def threadRoot (snapshot : ReviewSnapshot) (threadId : ThreadId) : Option (Thread × Comment) := do
  let thread ← snapshot.threads.find? fun thread => thread.id = threadId
  let root ← snapshot.comments.find? fun comment => comment.id = thread.root
  return (thread, root)

/-- Start a reply, at the anchor of the thread's root. -/
def replyOpened (threadId : ThreadId) : Risky Unit := do
  let core ← read
  match core.view.review with
  | none => fail .noOpenReview
  | some review => do
    requireNoDraft
    match threadRoot review.snapshot threadId with
    | none => fail (.unknownThread threadId)
    | some (_, root) => always (compose ⟨none, root.anchor, .reply threadId⟩)

/-- Start a deferral of an open thread. -/
def deferOpened (threadId : ThreadId) : Risky Unit := do
  let core ← read
  match core.view.review with
  | none => fail .noOpenReview
  | some review => do
    requireNoDraft
    match review.snapshot.threads.find? fun thread => thread.id = threadId with
    | none => fail (.unknownThread threadId)
    | some thread => match thread.resolution with
      | .informational => fail (.mutation (.informationalThread threadId))
      | .resolved .. | .deferred .. => fail (.mutation (.notOpen threadId))
      | .opened =>
        match review.snapshot.comments.find? fun comment => comment.id = thread.root with
        | none => fail (.unknownThread threadId)
        | some root => always (compose ⟨none, root.anchor, .defer threadId⟩)

/-- The draft closes: the keys return and the refreshes it held back are applied. -/
def closeDraft : Client Unit := do
  setDraft none
  clearVisual
  leave
  drainDeferred

/-- What submitting a draft asks for. A deferral is not submitted as text. -/
def Draft.mutation (draft : Draft) (reviewId : ReviewId) (commentId : CommentId)
    (body : String) : Option Mutation :=
  match draft.purpose with
  | .defer _ => none
  | .reply threadId => some (.reply reviewId threadId commentId .note body)
  | .comment intent context =>
    let kind := match intent with
      | .finding => CommentKind.note
      | .informational => .informational
    some (.addComment reviewId commentId kind draft.anchor body context)

/-- Send the draft's comment or reply, and close it. -/
def draftSubmitted (body : String) : Risky Unit := do
  let core ← read
  match core.view.review, core.view.draft with
  | none, _ => fail .noOpenReview
  | some _, none => fail .noDraft
  | some review, some draft => do
    requireSubscribed
    mintId
    match draft.mutation review.snapshot.review.id core.minted body with
    | none => fail .noDraft
    | some mutation => do
      mutate mutation
      always closeDraft

/-- Close the draft unsent. -/
def draftDiscarded : Risky Unit := do
  let core ← read
  if core.view.draft.isNone then fail .noDraft else always closeDraft

/-- Reply to a thread. -/
def reply (threadId : ThreadId) (body : String) : Risky Unit := do
  let reviewId ← openReviewId
  let core ← read
  mintId
  mutate (.reply reviewId threadId core.minted .note body)

/-- Replace a comment's text. -/
def editComment (commentId : CommentId) (body : String) : Risky Unit := do
  let reviewId ← openReviewId
  mutate (.editComment reviewId commentId body)

/-- Delete a comment. -/
def deleteComment (commentId : CommentId) : Risky Unit := do
  let reviewId ← openReviewId
  mutate (.deleteComment reviewId commentId)

/-- Defer a thread; a draft of that deferral closes. -/
def deferThread (threadId : ThreadId) (reason : DeferralReason)
    (trackingUrl : Option TrackingUrl) : Risky Unit := do
  let reviewId ← openReviewId
  mutate (.deferThread reviewId threadId reason trackingUrl)
  let core ← read
  if core.view.draft.any fun draft => draft.purpose = .defer threadId then do
    setDraft none
    leave
    always drainDeferred
  else pure ()

/-- Resolve a thread. -/
def resolveThread (threadId : ThreadId) : Risky Unit := do
  let reviewId ← openReviewId
  mutate (.resolveThread reviewId threadId)

/-- Open a thread again. -/
def unresolveThread (threadId : ThreadId) : Risky Unit := do
  let reviewId ← openReviewId
  mutate (.unresolveThread reviewId threadId)

/-! ## Checks and scopes -/

/-- Record a check of the current targets. -/
def checkCurrent : Risky Unit := do
  requireSubscribed
  let core ← read
  if ¬ core.checkCurrentReady then fail .currentChangesRefreshing
  else match core.committed with
    | none => fail .noOpenReview
    | some committed => match committed.resolved with
      | none => fail .noOpenReview
      | some targets =>
        let round := match core.panels.derived.scope with
          | .requested requestId => some (ReviewRound.request requestId)
          | .sinceCheckpoint checkpointId => some (ReviewRound.checkpoint checkpointId)
          | _ => none
        always (mutateUnshown (.recordCheckpoint committed.review.id targets round) .mutate)

/-- Record a check of what the focused request captured. -/
def checkRequested : Risky Unit := do
  requireSubscribed
  let core ← read
  match core.committed, core.panels.focus with
  | some committed, .reviewRequest index => match committed.requests[index]? with
    | some request => match request.targets with
      | .captured targets =>
        always (mutateUnshown
          (.recordCheckpoint committed.review.id targets (some (.request request.id))) .mutate)
      | _ => fail .noOpenReview
    | none => fail .noOpenReview
  | _, _ => fail .noOpenReview

/-- Compare with the next recorded check. -/
def checkpointDelta : Risky Unit := do
  requireSubscribed
  let core ← read
  let checkpoints := core.panels.derived.checkpoints
  let next := match core.panels.derived.scope with
    | .sinceCheckpoint checkpointId =>
      match checkpoints.findIdx? fun known : ReviewerCheckpoint => known.checkpoint.id = checkpointId with
      | some index => (index + 1) % max checkpoints.length 1
      | none => 0
    | _ => 0
  match checkpoints[next]? with
  | none => fail .noOpenReview
  | some known => do
    panels fun panels => { panels with tab := .filesChanged }
    always (applyScope (.sinceCheckpoint known.checkpoint.id))

/-- The step that by-commit mode enters at. -/
def ClientCore.defaultByCommitScope (core : ClientCore) (repoId : RepoId) : Option DiffScope := do
  let review ← core.view.review
  let headWorktree := review.snapshot.resolved.any fun targets => targets.items.any fun target =>
    target.repoId = repoId && match target.head.source with
      | .workingTree .. => true
      | .commit _ => false
  if headWorktree then some (.worktree repoId)
  else do
    let stepper ← core.panels.stepper.filter fun stepper => stepper.repoId = repoId
    let first ← stepper.commits.head?
    some (.commit repoId first.oid)

/-- Show a commit of the stepper, or the working tree when none is chosen. -/
def stepCommit (selected : Option Nat) : Risky Unit := do
  let core ← read
  match core.panels.stepper with
  | none => fail .noStepper
  | some stepper =>
    let byCommit := core.view.review.any fun review => match review.scope with
      | .commit .. | .worktree _ => true
      | _ => false
    match selected with
    | none =>
      if byCommit then always (applyScope (.worktree stepper.repoId)) else pure ()
    | some index => match stepper.commits[index]? with
      | none => fail (.commitOutOfRange index)
      | some commit =>
        if byCommit then always (applyScope (.commit stepper.repoId commit.oid)) else pure ()

/-- What a choice of scope comes to; none when the commits must be listed first. -/
def ClientCore.chosenScope (core : ClientCore) (review : OpenReview) :
    ScopeChoice → Except CoreError (Option DiffScope)
  | .all => .ok (some .all)
  | .committed => .ok (some .committed)
  | .commit repoId oid => .ok (some (.commit repoId oid))
  | .worktree repoId => .ok (some (.worktree repoId))
  | .requested requestId => .ok (some (.requested requestId))
  | .sinceCheckpoint checkpointId => .ok (some (.sinceCheckpoint checkpointId))
  | .byCommit =>
    let repoId := review.snapshot.review.targets.first.repoId
    if core.panels.stepper.any fun stepper => stepper.repoId = repoId then
      match core.defaultByCommitScope repoId with
      | some scope => .ok (some scope)
      | none => .error .noStepper
    else .ok none

/-- Enter by-commit mode when the commit list answers. -/
def awaitCommits (reviewId : ReviewId) (repoId : RepoId) : Client Unit := do
  panels fun panels => { panels with byCommitPending := true }
  request (.listCommits reviewId repoId) (.listCommits repoId)

/-- Show another scope of the review. -/
def setScope (scope : ScopeChoice) : Risky Unit := do
  requireSubscribed
  let core ← read
  match core.view.review with
  | none => fail .noOpenReview
  | some review => match core.chosenScope review scope with
    | .error error => fail error
    | .ok none =>
      always (awaitCommits review.snapshot.review.id review.snapshot.review.targets.first.repoId)
    | .ok (some scope) => do
      setTab .filesChanged
      always (applyScope scope)

/-! ## Originals and searches -/

/-- The source that a thread's root recorded as its context. -/
def ClientCore.originalOf (core : ClientCore) (review : OpenReview) (threadId : ThreadId) :
    Except CoreError (RenderKey × Nat × Side × Tab) :=
  match threadRoot review.snapshot threadId with
  | none => .error (.unknownThread threadId)
  | some (_, root) => match root.context, root.anchor with
    | none, _ | some _, .review => .error (.noOriginalDiff threadId)
    | some (.diff change), .file repoId path _ =>
      .ok (⟨repoId, path, .diff change, core.content.config.renderOpts⟩, 0, .head, .filesChanged)
    | some (.diff change), .lines repoId path side _ _ _ =>
      .ok (⟨repoId, path, .diff change, core.content.config.renderOpts⟩, 0, side, .filesChanged)
    | some (.browse _), .file repoId path blobOid =>
      .ok (⟨repoId, path, .blob ⟨blobOid, .unknown⟩, {}⟩, 0, .head, .browse)
    | some (.browse _), .lines repoId path side blobOid lines _ =>
      .ok (⟨repoId, path, .blob ⟨blobOid, .unknown⟩, {}⟩, lines.finish.index, side, .browse)

/-- Open the source a comment was written against. It does not join the file list. -/
def openOriginal (threadId : ThreadId) : Risky Unit := do
  requireSubscribed
  let core ← read
  match core.view.review with
  | none => fail .noOpenReview
  | some review => match core.originalOf review threadId with
    | .error error => fail error
    | .ok (key, row, side, tab) =>
      always (show_ review.snapshot.review.id key row side tab)
where
  show_ (reviewId : ReviewId) (key : RenderKey) (row : Nat) (side : Side) (tab : Tab) :
      Client Unit := do
    panels fun panels => { panels with tab, focus := .diff row side }
    showFile (some ⟨key, row - PAGE_ROWS / 2, row + PAGE_ROWS / 2⟩) (some key)
    wantOpenRender reviewId key
    render [.focus, .diff]

/-- No answer to a content search is awaited. -/
def forgetSearch : Client Unit := write fun core => { core with latestSearch := none }

/-- Open, re-query or close the content search. A blank query asks nothing. -/
def contentSearch (query : Option String) (allFiles : Bool) : Risky Unit := do
  let core ← read
  match core.view.review with
  | none => fail .noOpenReview
  | some review => match query with
    | none => do
      forgetSearch
      panels fun panels => { panels with contentSearch := none }
      always (render [.search])
    | some query => do
      let asks := ¬ isBlank query
      if asks then requireSubscribed else pure ()
      forgetSearch
      panels fun panels => { panels with
        contentSearch := some ⟨query, allFiles, [], false, asks, 0⟩ }
      if asks then
        always (request (.search review.snapshot.review.id query allFiles review.scope) .search)
      else pure ()
      always (render [.search])

/-- A selection moved by some rows and kept within the list. -/
def stepped (selected length : Nat) (delta : Int) : Nat :=
  if length = 0 then 0
  else (max 0 (min ((min selected (length - 1) : Nat) + delta) ((length - 1 : Nat) : Int))).toNat

/-- Select the first hit. -/
def searchFirst (search : SearchKind) : Risky Unit := do
  let core ← read
  match search with
  | .files =>
    if core.panels.fileQuery.isNone then fail (nothingFor .moveDown)
    else panels fun panels => { panels with fileSelected := 0 }
  | .content => match core.panels.contentSearch with
    | none => fail (nothingFor .moveDown)
    | some found => do
      panels fun panels => { panels with contentSearch := some { found with selected := 0 } }
      always (render [.search])

/-- Move the selection among the hits. -/
def searchStep (search : SearchKind) (delta : Int) : Risky Unit := do
  let core ← read
  match search with
  | .files => match core.panels.derived.fileSearch with
    | none => fail (nothingFor .moveDown)
    | some (_, hits, selected) =>
      panels fun panels => { panels with fileSelected := stepped selected hits.length delta }
  | .content => match core.panels.contentSearch with
    | none => fail (nothingFor .moveDown)
    | some found => do
      panels fun panels => { panels with
        contentSearch := some { found with
          selected := stepped found.selected found.hits.length delta } }
      always (render [.search])

/-- The file and rows of the selected hit, if it is a hit of this query. -/
def ClientCore.searchTarget (core : ClientCore) (query : String) :
    SearchKind → Option (FileRef × Nat × Nat)
  | .files => do
    let (asked, hits, selected) ← core.panels.derived.fileSearch
    if asked = query then (hits[selected]?).map fun file => (file, 0, 59) else none
  | .content => do
    let found ← core.panels.contentSearch
    if found.query = query ∧ ¬ found.pending then
      (found.hits[found.selected]?).map fun hit =>
        (⟨hit.repoId, hit.path⟩, hit.line.get - 30, hit.line.get + 30)
    else none

/-- Open the selected hit of a query. -/
def openSearchResult (search : SearchKind) (query : String) : Risky Unit := do
  let core ← read
  match core.searchTarget query search with
  | none => pure ()
  | some (file, firstRow, lastRow) => do
    viewport file firstRow lastRow
    if search = .content then do
      panels fun panels => { panels with contentSearch := none }
      forgetSearch
      always (render [.search])
    else pure ()

/-! ## Selectors and modes -/

/-- Change the open ref selector. -/
def changeSelector (change : RefSelector → RefSelector) : Risky Unit := do
  let core ← read
  match core.panels.refSelector with
  | none => fail .noRefSelector
  | some selector => do
    panels fun panels => { panels with refSelector := some (change selector) }
    always (render [.refSelector])

/-- Close the ref selector, with the browse attempt it was for. -/
def closeRefSelector : Risky Unit := do
  let core ← read
  match core.panels.refSelector with
  | none => fail .noRefSelector
  | some selector => do
    panels fun panels => { panels with
      refSelector := none
      browseAttempt := if selector.purpose = .browse then none else panels.browseAttempt }
    always (render [.refSelector])

/-- Choose the selected ref. -/
def selectCurrentRef : Risky Unit := do
  let core ← read
  match core.panels.refSelector with
  | none => fail .noRefSelector
  | some selector => selectRef selector.selected

/-- Browse another repository. -/
def selectBrowseRepo (repoId : RepoId) : Risky Unit := do
  requireBrowseRepo repoId
  panels fun panels => { panels.withoutBrowseSelector with
    browseRepo := some repoId, browseAttempt := none }

/-- Browse the review's own ref again. -/
def resetBrowse : Risky Unit := do
  let core ← read
  match core.browseRepo with
  | none => fail .noOpenReview
  | some repoId => setBrowseRef repoId none

/-- Start a selection of lines at the focused row. -/
def enterVisual : Risky Unit := do
  requireReview
  let core ← read
  match core.panels.focus with
  | .diff row side =>
    if core.panels.derived.diff.any fun diff => diff.1 then fail (nothingFor .visualMode)
    else panels fun panels => { panels with visualAnchor := some ⟨row, side⟩ }
  | _ => fail (nothingFor .visualMode)

/-- End the selection that is open. -/
def leaveVisual : Risky Unit := do
  let core ← read
  if core.panels.visualAnchor.isNone then fail (nothingFor .visualMode)
  else always clearVisual

/-- Help may cover a composer, whose own return stays remembered. -/
def toggleHelp : Client Unit := do
  panels fun panels => match panels.helpReturn with
    | some focus => { panels with helpReturn := none, focus }
    | none => { panels with helpReturn := some panels.focus, focus := .help }
  render [.help, .focus]

/-- Show or hide the palette. -/
def actionPalette (shown : Bool) : Client Unit := do
  let core ← read
  if core.panels.actionPalette = shown then pure ()
  else do
    panels fun panels => { panels with actionPalette := shown }
    render [.search]

/-- List the commits of a repository. -/
def listCommits (repoId : RepoId) : Risky Unit := do
  let reviewId ← openReviewId
  ask (.listCommits reviewId repoId) (.listCommits repoId)

/-- Change the preferences and keep them. -/
def changePrefs (change : ViewPrefs → ViewPrefs) : Client Unit := do
  let core ← read
  applyPrefs (change core.view.prefs) true

/-! ## Routing -/

/-- Carry out an action. A command is resolved by `user`. -/
def act : Action → Risky Unit
  | .inspectDaemon => always (manageDaemon .inspect)
  | .upgradeDaemon => always (manageDaemon .upgrade)
  | .connect => connect
  | .disconnect => disconnect
  | .listWorkspaces => ask .listWorkspaces .listWorkspaces
  | .toggleWorkspace workspaceId => toggleWorkspace workspaceId
  | .selectWorkspace workspaceId => selectWorkspace workspaceId
  | .startReview workspaceId => startCreation workspaceId
  | .cancelNewReview => always cancelNewReview
  | .selectCreationTarget reviewId targetId => always (selectCreationTarget reviewId targetId)
  | .editCreationDraft reviewId edit => always (editCreationField reviewId edit)
  | .addCreationTarget reviewId => always (addCreationTarget reviewId)
  | .removeCreationTarget reviewId => always (removeCreationTarget reviewId)
  | .submitReviewCreation reviewId => always (submitCreation reviewId)
  | .retryReviewCreation reviewId => always (reconcileCreation reviewId .retry)
  | .restoreReviewCreation creation resume => always (restoreCreation creation resume)
  | .copyCheckout _ | .copyPath _ | .copyReference _ => pure ()
  | .goHome => always goHome
  | .listReviews workspaceId => ask (.listReviews workspaceId) (.listReviews workspaceId)
  | .createReview workspaceId title targets => createReview workspaceId title targets
  | .openReview reviewId => openReview reviewId
  | .setReferenceContext context => always (setReferenceContext context)
  | .openReference reference => openReference reference
  | .focusComment commentId => focusComment commentId
  | .closeReview => closeOpenReview
  | .checkCurrent => checkCurrent
  | .checkRequested => checkRequested
  | .checkpointDelta => checkpointDelta
  | .informationalNoteOpened => draftOpened .informational .review
  | .draftOpened anchor => draftOpened .finding anchor
  | .draftSubmitted body => draftSubmitted body
  | .draftDiscarded => draftDiscarded
  | .replyOpened threadId => replyOpened threadId
  | .setFocus focus => setFocus focus
  | .toggleHelp => always toggleHelp
  | .reply threadId body => reply threadId body
  | .editComment commentId body => editComment commentId body
  | .deleteComment commentId => deleteComment commentId
  | .deferOpened threadId => deferOpened threadId
  | .deferThread threadId reason trackingUrl => deferThread threadId reason trackingUrl
  | .resolveThread threadId => resolveThread threadId
  | .unresolveThread threadId => unresolveThread threadId
  | .applySuggestion commentId => applySuggestion commentId
  | .previewSuggestion commentId => previewSuggestion commentId
  | .viewport file firstRow lastRow => viewport file firstRow lastRow
  | .openFileAt file row side landing => openFileAt file row side landing
  | .closeFile => do
    clearVisual
    closeFile
  | .toggleDir repoId path => toggleDir repoId path
  | .fileSearch query => fileSearch query
  | .setLayout layout => always (changePrefs fun prefs => { prefs with layout })
  | .commentLines file side startLine endLine => commentLines file side startLine endLine
  | .commentFile file => commentFile file
  | .setTab tab => setTab tab
  | .scrollView align => scrollView align
  | .toggleSidebar =>
    always (changePrefs fun prefs => { prefs with sidebarHidden := ¬ prefs.sidebarHidden })
  | .toggleFileCollapse file => toggleFileCollapse file
  | .collapseParent => collapseParent
  | .collapseAll => collapseAll
  | .setRenderOpts ignoreWhitespace contextLines =>
    always (changePrefs fun prefs => { prefs with ignoreWhitespace, contextLines })
  | .markViewed file => markViewed file true
  | .unmarkViewed file => markViewed file false
  | .listCommits repoId => listCommits repoId
  | .stepCommit selected => stepCommit selected
  | .setScope scope => setScope scope
  | .openOriginalDiff threadId => openOriginal threadId
  | .expandGap file gap dir => expandGap file gap dir
  | .expandContext file full => expandContext file full
  | .setBrowseRef repoId refSpec => setBrowseRef repoId refSpec
  | .selectBrowseRepo repoId => selectBrowseRepo repoId
  | .openBrowseRefSelector repoId => openRefSelector repoId .browse
  | .resetBrowse => resetBrowse
  | .contentSearch query allFiles => contentSearch query allFiles
  | .actionPalette shown => always (actionPalette shown)
  | .runCommand _ => pure ()
  | .enterVisual => enterVisual
  | .leaveVisual => leaveVisual
  | .searchFirst search => searchFirst search
  | .searchStep search delta => searchStep search delta
  | .openSearchResult search query => openSearchResult search query
  | .openRefSelector repoId side => openRefSelector repoId (.review side)
  | .refSelectorQuery query =>
    changeSelector fun selector => RefSelector.filtered { selector with query }
  | .refSelectorStep delta => changeSelector fun selector => selector.stepped delta
  | .selectRef index => selectRef index
  | .selectCurrentRef => selectCurrentRef
  | .closeRefSelector => closeRefSelector

/-- Run a command by name, resolved against the current focus. -/
def runCommand (command : Command) : Risky Unit := do
  let core ← read
  match Presentation.resolve core command with
  | .error reason => fail (.noTarget reason)
  | .ok resolved => act resolved.action

/-- Carry out what the user did; commands are resolved first. -/
def user : Action → Risky Unit
  | .runCommand command => runCommand command
  | action => act action

end User

end Nits.ClientCore
