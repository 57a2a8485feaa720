import Nits.ClientCore.Cache
import Nits.ClientCore.Events
import Nits.Logical.Handler
import Nits.Protocol.Rpc

/-!
# The client core's state

What the core remembers between inputs, the inputs it takes and the effects it asks
its host for. `ClientCore` holds what the daemon confirmed, what the client sent and
waits for, and the content it fetched; `View` is what the interface shows of it and
`Panels` where the user is: focus, tabs, overlays and selections.
-/

set_option linter.dupNamespace false

namespace Nits.ClientCore

open Logical Protocol

/-- Unix time in milliseconds, as the host's clock gives it. -/
abbrev Millis := Nat

/-- Key in the host's key-value store. -/
abbrev Key := String

/-- A stored value or a frame, as bytes. -/
abbrev Bytes := List UInt8

/-! ## Connection -/

/-- Where the connection to the daemon is. `lastSeq` survives disconnects, so that a
reconnect subscribes after it and misses nothing. -/
inductive Connection
  | disconnected (lastSeq : Option Seq)
  /-- `helloSent` flips when the transport comes up and the hello goes out; the
  welcome then triggers the subscribe. -/
  | connecting (helloSent : Bool) (lastSeq : Option Seq)
  /-- Handshake done and subscribed; `lastSeq` is the newest event seen. -/
  | subscribed (lastSeq : Seq)

namespace Connection

/-- The state without its data, as errors name it. -/
inductive Kind
  | disconnected | connecting | subscribed
  deriving DecidableEq

/-- Which state the connection is in. -/
def kind : Connection → Kind
  | .disconnected _ => .disconnected
  | .connecting .. => .connecting
  | .subscribed _ => .subscribed

/-- The newest sequence number this client has seen, if any. -/
def lastSeq : Connection → Option Seq
  | .disconnected lastSeq | .connecting _ lastSeq => lastSeq
  | .subscribed lastSeq => some lastSeq

/-- Whether the handshake is done. -/
def isSubscribed : Connection → Bool
  | .subscribed _ => true
  | .disconnected _ | .connecting .. => false

end Connection

/-- A planned replacement of the daemon that the client is following. -/
inductive Recovery
  | idle
  | restarting (operation : UpgradeOperation) (deadline nextAttempt : Millis) (attempts : Nat)

/-- What the interface shows of the connection. -/
inductive ConnectionView
  | disconnected
  | connecting
  | subscribed
  | restarting (operation : UpgradeOperation)
  | upgradeRequired (client : ProtocolVersion) (supported : List ProtocolVersion)
  | rejected (error : RpcError)

/-- Numbers the requests about the daemon itself. -/
abbrev ManagementRequestId := Nat

/-- What the host is asked about its daemon. -/
inductive ManagementRequest
  | inspect | upgrade

/-- What the host says of its daemon; the texts are the host's. -/
inductive ManagementReply
  | status (answer : Except String String)
  | upgrade (answer : Except String String)

/-- How far a question about the daemon is. -/
inductive DaemonManagement
  | idle
  | inspecting
  | status (status : String)
  | upgrading
  | outcome (result : String)
  | unavailable (message : String)

/-! ## Requests and fetches under way -/

/-- Opening content belongs to the snapshot generation that began its stream. -/
inductive OpeningContent
  | awaitingSnapshot
  | streaming
  | superseded
  deriving DecidableEq

/-- What a request id is waiting for, so that the reply can be routed. -/
inductive InFlight
  | creationDefault (reviewId : ReviewId) (repoId : RepoId)
  | createReview (reviewId : ReviewId) (clientSeq : ClientSeq)
  | reconcileCreation (reviewId : ReviewId)
  | checkFailedCreation (reviewId : ReviewId) (error : RpcError)
  | subscribe
  | listWorkspaces
  | listReviews (workspaceId : WorkspaceId)
  | openReview (reviewId : ReviewId) (content : OpeningContent)
  | reviewSnapshot (reviewId : ReviewId)
  | listFiles (reviewId : ReviewId) (scope : DiffScope)
  | listCommits (repoId : RepoId)
  | listRefs (repoId : RepoId)
  | search
  | treeSnapshot (tree : TreeKey)
  | browseTree (repoId : RepoId)
  | fileRender (render : RenderKey) (stopAfter : ChunkIndex)
  | renderChunk (key : CacheKey)
  | mutate (clientSeq : ClientSeq)
  | previewSuggestion (reviewId : ReviewId) (commentId : CommentId)
  | applySuggestion (reviewId : ReviewId) (commentId : CommentId)
  deriving DecidableEq

namespace InFlight

/-- Whether the request counts against the limit of content requests. -/
def isContent : InFlight → Bool
  | .treeSnapshot _ | .fileRender .. | .renderChunk _ => true
  | _ => false

/-- The cache key the request fills, if it is a single-key fetch. -/
def key : InFlight → Option CacheKey
  | .treeSnapshot tree => some (.tree tree)
  | .fileRender render _ => some (.header render)
  | .renderChunk key => some key
  | _ => none

/-- What a reply to the request must be. -/
def expected : InFlight → String
  | .previewSuggestion .. => "SuggestionPreview"
  | .subscribe => "Subscribed"
  | .creationDefault .. => "DefaultBase"
  | .createReview .. | .mutate _ | .applySuggestion .. => "Committed"
  | .reconcileCreation _ | .checkFailedCreation .. => "Review"
  | .listWorkspaces => "Workspaces"
  | .listReviews _ => "Reviews"
  | .openReview .. | .fileRender .. => "StreamItem"
  | .reviewSnapshot _ => "ReviewSnapshot"
  | .listFiles .. => "Files"
  | .listCommits _ => "Commits"
  | .listRefs _ => "Refs"
  | .search => "Search"
  | .treeSnapshot _ | .browseTree _ => "TreeSnapshot"
  | .renderChunk _ => "RenderChunk"

end InFlight

/-- The requests under way, oldest first. -/
abbrev Requests := List (RequestId × InFlight)

/-- A content request the core knows how to issue. -/
inductive Fetch
  | tree (tree : TreeKey) (refSpec : RefSpec)
  /-- Header, then chunks from `firstChunk`; cancelled once past `stopAfter`. -/
  | render (reviewId : ReviewId) (render : RenderKey) (firstChunk stopAfter : ChunkIndex)
  | chunk (render : RenderKey) (index : ChunkIndex)
  deriving DecidableEq

/-- The cache key a fetch fills. -/
def Fetch.key : Fetch → CacheKey
  | .tree key _ => .tree key
  | .render _ key _ _ => .header key
  | .chunk key index => .chunk key index

/-- Where a wanted key currently is. -/
inductive Wanted
  /-- Load ordered from the host; the fetch follows if the host has nothing. -/
  | loading (fetch : Fetch)
  | queued
  | requested
  deriving DecidableEq

/-- Whether content is also kept by the host, and how much of it. -/
inductive DiskTier
  | disabled
  | enabled (budget : Nat)

/-- The budgets of the cache, and how many fetches may run at once. -/
structure CacheConfig where
  memoryBudget : Nat
  disk : DiskTier
  maxInFlight : Nat
  renderOpts : RenderOpts

/-- Content-side state of the core. -/
structure Content where
  config : CacheConfig
  cache : ContentCache
  disk : Option DiskIndex
  pending : List (CacheKey × Wanted)
  /-- Storage key → cache key of the outstanding loads. -/
  loads : List (Key × CacheKey)
  queue : List Fetch
  inFlight : Nat

/-- Nothing is held or wanted. -/
def Content.new (config : CacheConfig) : Content where
  config
  cache := .new config.memoryBudget
  disk := match config.disk with
    | .disabled => none
    | .enabled budget => some (.new budget)
  pending := []
  loads := []
  queue := []
  inFlight := 0

/-! ## Mutations under way -/

/-- A lost reply is not proof that the mutation was rejected. Only an explicit
admission rejection permits an automatic retry with the original identity. -/
inductive PendingDelivery
  | awaitingReceipt
  | outcomeUnknown
  | notAdmitted
  deriving DecidableEq

/-- A mutation applied locally and awaiting the daemon's echo. `ts` is when it was
applied: the optimistic event's timestamp. -/
structure Pending where
  clientSeq : ClientSeq
  ts : Timestamp
  mutation : Mutation
  body : EventBody
  delivery : PendingDelivery

namespace Suggestion

/-- How far a suggestion is; one that may have been applied is uncertain. -/
inductive Stage
  | idle
  | checking (requestId : RequestId)
  | applying (requestId : RequestId)
  | uncertain (message : String)
  | rejected (message : String)
  deriving DecidableEq

/-- What is known of one suggestion. -/
structure State where
  inspection : Option SuggestionInspection := none
  notice : Option String := none
  stage : Stage := .idle

/-- What the interface shows of a suggestion. -/
inductive Status
  | unloaded | loading | ready | stale
  | rejected (message : String)
  | applying
  | uncertain (message : String)
  | applied

end Suggestion

/-! ## Review creation -/

/-- Names a row of the form, whatever its repository becomes. -/
abbrev CreationTargetId := Nat

/-- Counts the edits of a form. -/
abbrev CreationRevision := Nat

/-- The base of a row: the default of its repository, or typed. -/
inductive CreationBase
  | automatic
  | manual (text : String)

/-- A row of the form: a repository with its base and head. -/
structure CreationTarget where
  id : CreationTargetId
  repoId : RepoId
  base : CreationBase
  head : String

/-- The form's title and rows. -/
structure CreationDraft where
  title : String
  targets : List CreationTarget

/-- A field edit cannot replace unrelated target rows that changed in flight. -/
inductive CreationEdit
  | title (text : String)
  | repository (targetId : CreationTargetId) (repoId : RepoId)
  | base (targetId : CreationTargetId) (text : String)
  | head (targetId : CreationTargetId) (text : String)

/-- How far the default base of a repository is. -/
inductive CreationDefaultState
  | loading
  | ready (base : RefSpec)
  | failed (message : String)
  deriving DecidableEq

/-- The default base of one repository. -/
structure CreationDefault where
  repoId : RepoId
  state : CreationDefaultState

/-- What was submitted, kept unchanged through uncertain replies. -/
structure CreationSubmission where
  title : String
  targets : NonEmpty ReviewTarget
  deriving DecidableEq

/-- What follows once the daemon has told whether the review exists. -/
inductive CreationReconcile
  | inspect | retry
  deriving DecidableEq

/-- Where a restored form goes on. -/
inductive CreationResume
  | editing | submitted
  deriving DecidableEq

/-- How far an attempt to create a review is. -/
inductive CreationStatus
  | editing
  | failed (message : String)
  | pending (submission : CreationSubmission)
  | interrupted (submission : CreationSubmission) (message : String)
  | reconciling (submission : CreationSubmission) (next : CreationReconcile)
  | succeeded
  deriving DecidableEq

/-- How the daemon is reached. -/
inductive DaemonContext
  | named (name : String)
  | socket (path : String)
  | webSocket (url : String)
  deriving DecidableEq

/-- The id is allocated when the form opens. It is also the generation of the
defaults, the form's edits and its recovery snapshots. -/
structure ReviewCreation where
  reviewId : ReviewId
  workspaceId : WorkspaceId
  context : Option DaemonContext
  draft : CreationDraft
  defaults : List CreationDefault
  selected : Option CreationTargetId
  revision : CreationRevision
  status : CreationStatus

/-! ## View -/

/-- A file of a repository. -/
structure FileRef where
  repoId : RepoId
  path : RepoPath
  deriving DecidableEq

/-- Whether the comment asks for something. -/
inductive CommentIntent
  | finding | informational
  deriving DecidableEq

/-- What the composer is writing. -/
inductive DraftPurpose
  /-- The context is captured when the editor opens. -/
  | comment (intent : CommentIntent) (context : Option CommentContext)
  | reply (threadId : ThreadId)
  | defer (threadId : ThreadId)
  deriving DecidableEq

/-- The open composer: where its comment goes and why its last submission failed. -/
structure Draft where
  submissionError : Option String
  anchor : Anchor
  purpose : DraftPurpose
  deriving DecidableEq

/-- The file the user is looking at, and which of its rows. -/
structure OpenFile where
  render : RenderKey
  firstRow : Nat
  lastRow : Nat
  deriving DecidableEq

/-- The file without its render options. -/
def OpenFile.file (file : OpenFile) : FileRef := ⟨file.render.repoId, file.render.path⟩

/-- A mutation's event, shown before the daemon's own. -/
structure PendingEvent where
  clientSeq : ClientSeq
  body : EventBody

/-- The review on screen. Content lives in the cache; this names what of it belongs
to the review. -/
structure OpenReview where
  /-- Committed state plus every pending mutation applied on top. -/
  snapshot : ReviewSnapshot
  pending : List PendingEvent
  trees : List TreeKey
  /-- Changed files, in the daemon's order. -/
  files : List RenderKey
  openFile : Option OpenFile
  scope : DiffScope
  /-- A comment's recorded original diff that is open. -/
  original : Option RenderKey
  /-- What `scope` resolved to; empty until answered, and always for `all`. -/
  scopedTargets : List ResolvedTarget

namespace OpenReview

/-- A review just opened: no content, no open file. -/
def new (snapshot : ReviewSnapshot) : OpenReview where
  snapshot
  pending := []
  trees := []
  files := []
  openFile := none
  scope := .all
  original := none
  scopedTargets := []

/-- The targets of the current scope. -/
def currentTargets (review : OpenReview) : List ResolvedTarget :=
  match review.scope with
  | .all => match review.snapshot.resolved with
    | some targets => targets.items
    | none => []
  | _ => review.scopedTargets

/-- The historical source, only while it is the open viewport. -/
def originalRender (review : OpenReview) : Option RenderKey :=
  review.original.filter fun original => review.openFile.any fun file => file.render = original

/-- Historical diffs are read-only; a pinned blob supports composition. -/
def originalIsReadOnly (review : OpenReview) : Bool :=
  review.originalRender.any fun render => match render.target with
    | .diff _ => true
    | .blob _ => false

/-- The first changed file entry of a path. -/
def fileAt (review : OpenReview) (file : FileRef) : Option RenderKey :=
  review.files.find? fun render => render.repoId = file.repoId ∧ render.path = file.path

end OpenReview

/-- The center tabs. -/
inductive Tab
  | filesChanged | conversation | browse
  deriving DecidableEq

/-- One column or two. -/
inductive Layout
  | unified | split
  deriving DecidableEq

/-- The preferences that are kept, with their defaults. -/
structure ViewPrefs where
  layout : Layout := .unified
  ignoreWhitespace : Bool := false
  contextLines : Nat := 3
  sidebarHidden : Bool := false
  deriving DecidableEq

namespace ViewPrefs

/-- Where the preferences are stored. -/
def KEY : Key := "nits/prefs"

/-- The options under which files are asked for. -/
def renderOpts (prefs : ViewPrefs) : RenderOpts where
  ignoreWhitespace := prefs.ignoreWhitespace
  contextLines := prefs.contextLines
  expanded := ⟨[]⟩

end ViewPrefs

/-- The home form's state, the lists and the open review, as the interface gets them. -/
structure View where
  connection : ConnectionView := .disconnected
  daemonContext : Option DaemonContext := none
  daemonManagement : DaemonManagement := .idle
  uncertainMutations : List ClientSeq := []
  lastError : Option RpcError := none
  workspaces : List Workspace := []
  reviews : List Review := []
  creating : Option ReviewCreation := none
  openReview : Option ReviewId := none
  review : Option OpenReview := none
  resolvedTargets : List ResolvedTarget := []
  draft : Option Draft := none
  /-- A refresh of the targets is held back while `draft` is open. -/
  pendingRefresh : Bool := false
  prefs : ViewPrefs := {}

/-! ## Panels -/

/-- Where keys go. -/
inductive Focus
  | reviewList (index : Nat)
  | tree (index : Nat)
  | diff (row : Nat) (side : Side)
  | thread (index : Nat)
  | reviewRequest (index : Nat)
  | composer
  | commitStepper (index : Nat)
  | help
  deriving DecidableEq

/-- Where a selection of lines began. -/
structure VisualAnchor where
  row : Nat
  side : Side

/-- The line to keep the cursor on while a re-render of its file is under way. -/
structure Realign where
  render : RenderKey
  side : Side
  line : Nat
  row : Nat

/-- Where in the viewport a row is to sit. -/
inductive ScrollAlign
  | center | top | bottom

/-- Whether opening a file scrolls as the cursor does, or puts its row on top. -/
inductive Landing
  | follow | pin
  deriving DecidableEq

/-- A scroll to carry out; `seq` tells one from the next. -/
structure ScrollIntent where
  row : Nat
  align : ScrollAlign
  seq : Nat

/-- The content search: its query, its hits and the selected one. -/
structure ContentSearchView where
  query : String
  allFiles : Bool
  hits : List ContentHit
  truncated : Bool
  pending : Bool
  selected : Nat

/-- The commits a review is stepped through. -/
structure CommitStepper where
  repoId : RepoId
  commits : List CommitInfo
  hasWorktree : Bool

/-- Which end of a target is chosen. -/
inductive RefSelectorSide
  | base | head
  deriving DecidableEq

/-- What a ref is chosen for. -/
inductive RefSelectorPurpose
  | review (side : RefSelectorSide)
  | browse
  deriving DecidableEq

/-- How far the ref selector is. -/
inductive RefSelectorStatus
  | loading | ready | saving
  | invalidRef (message : String)
  | daemonError (message : String)
  deriving DecidableEq

/-- A ref that the selector offers. -/
structure RefOption where
  refSpec : RefSpec
  subject : Option String
  current : Bool

/-- The open selector: every ref, the query and the options it leaves. -/
structure RefSelector where
  catalog : List RefCandidate
  requestId : RequestId
  repoId : RepoId
  repoName : String
  purpose : RefSelectorPurpose
  current : RefSpec
  query : String
  options : List RefOption
  selected : Nat
  status : RefSelectorStatus

/-- Whether an answer is for this selector. -/
def RefSelector.matchesRequest (selector : RefSelector) (repoId : RepoId)
    (requestId : RequestId) : Bool :=
  selector.repoId = repoId ∧ selector.requestId = requestId

/-- The repository and ref to browse. -/
structure BrowseTarget where
  repoId : RepoId
  refSpec : RefSpec

/-- The tree that is browsed. -/
structure Browse where
  target : BrowseTarget
  root : TreeOid

/-- How far a change of the browsed ref is. -/
inductive BrowseAttemptState
  | loading (requestId : RequestId)
  | failed (message : String)
  deriving DecidableEq

/-- A change of the browsed ref under way. -/
structure BrowseAttempt where
  target : BrowseTarget
  state : BrowseAttemptState

/-- A folder of the explorer; no path is the repository's root. -/
abbrev Folder := RepoId × Option RepoPath

/-- The commands that bindings name; the two that errors name are told apart. -/
inductive Command
  | openTarget | newReview | centerView | visualMode | moveDown
  | other (name : String)

/-- A chord as the host spells it. -/
abbrev KeyChord := String

/-- The last key and the command it ran. -/
structure LastKey where
  seq : Nat
  command : Option Command

/-- A row of the home list: a workspace, a review or a repository. -/
structure HomeRow where
  workspaceId : WorkspaceId
  reviewId : Option ReviewId
  repoId : Option RepoId
  deriving DecidableEq

/-- What the interface derives from the rest and navigation reads back. -/
structure Derived where
  homeRows : List HomeRow := []
  checkpoints : List ReviewerCheckpoint := []
  checkCurrentReady : Bool := false
  scope : DiffScope := .all
  /-- The threads on screen with their comments. -/
  threads : List (ThreadId × List CommentId) := []
  /-- Every folder of the explorer. -/
  folders : List Folder := []
  /-- The file search's query, hits and selection. -/
  fileSearch : Option (String × List FileRef × Nat) := none
  /-- The open diff: whether it is a submodule's, and the chunks it still lacks. -/
  diff : Option (Bool × List ChunkIndex) := none
  /-- The files whose diff is marked viewed. -/
  viewedFiles : List FileRef := []

/-- What is focused, folded and open around the review. -/
structure Panels where
  focus : Focus := .reviewList 0
  tab : Tab := .filesChanged
  focusedComment : Option CommentId := none
  scroll : Option ScrollIntent := none
  contentSearch : Option ContentSearchView := none
  actionPalette : Bool := false
  expandedWorkspaces : List WorkspaceId := []
  selectedWorkspace : Option WorkspaceId := none
  expandedFolders : List Folder := []
  collapsedFolders : List Folder := []
  fileQuery : Option String := none
  fileSelected : Nat := 0
  stepper : Option CommitStepper := none
  byCommitPending : Bool := false
  fileCollapse : List (FileRef × Bool) := []
  browseAttempt : Option BrowseAttempt := none
  browseRepo : Option RepoId := none
  visualAnchor : Option VisualAnchor := none
  realign : Option Realign := none
  refSelector : Option RefSelector := none
  helpReturn : Option Focus := none
  focusReturn : Option Focus := none
  derived : Derived := {}

/-- The keymap in force, the chords of a sequence in progress and the keys counted. -/
structure Keys where
  /-- The stored configuration in force; the defaults when there is none. -/
  config : Option Bytes := none
  chords : List KeyChord := []
  chordStarted : Millis := 0
  keysHandled : Nat := 0
  lastKey : Option LastKey := none

/-! ## References -/

/-- A daemon's identity as references spell it. -/
structure ReferenceContext where
  spelling : String
  deriving DecidableEq

/-- What within its review a reference names. -/
inductive ReferenceTarget
  | review
  | thread (threadId : ThreadId)
  | comment (commentId : CommentId)

/-- A review, or a thread or comment of it, in one daemon's context. -/
structure ReviewReference where
  context : ReferenceContext
  reviewId : ReviewId
  target : ReferenceTarget

/-- Events received while a reference's snapshot is in flight. -/
structure PendingReference where
  reference : ReviewReference
  events : List Event

/-! ## The core -/

/-- Fixed for the life of a core. -/
structure Config where
  clientId : ClientId
  author : Author
  idSeed : BitVec 128
  cache : CacheConfig

/-- The client state machine. -/
structure ClientCore where
  config : Config
  connection : Connection
  recovery : Recovery
  nextManagement : ManagementRequestId
  managementRequest : Option ManagementRequestId
  view : View
  panels : Panels
  keys : Keys
  now : Millis
  nextRequest : RequestId
  nextClientSeq : ClientSeq
  inFlight : Requests
  /-- How many ids were minted. -/
  ids : Nat
  /-- `ReviewTargetsResolved` events held back while a draft is open. -/
  deferred : List Event
  content : Content
  /-- The open review as the daemon last confirmed it. -/
  committed : Option ReviewSnapshot
  /-- Live revision events that arrive while a snapshot is in flight. -/
  snapshotEvents : List (RequestId × ReviewId × List Event)
  latestFiles : Option RequestId
  latestCommits : Option RequestId
  latestSearch : Option RequestId
  latestOpen : Option RequestId
  /-- Mutations sent and not yet echoed by the daemon, in send order. -/
  pending : List Pending
  suggestions : Table CommentId Suggestion.State
  referenceContext : Option ReferenceContext
  pendingReference : Option PendingReference
  prefsLoaded : Bool
  browse : Option Browse

/-- A core before its first input. -/
def ClientCore.new (config : Config) : ClientCore where
  config
  connection := .disconnected none
  recovery := .idle
  nextManagement := 0
  managementRequest := none
  view := {}
  panels := {}
  keys := {}
  now := 0
  nextRequest := 1
  nextClientSeq := 1
  inFlight := []
  ids := 0
  deferred := []
  content := .new config.cache
  committed := none
  snapshotEvents := []
  latestFiles := none
  latestCommits := none
  latestSearch := none
  latestOpen := none
  pending := []
  suggestions := ∅
  referenceContext := none
  pendingReference := none
  prefsLoaded := false
  browse := none

/-! ## Inputs, effects and errors -/

/-- The transport came up or went down. -/
inductive TransportEvent
  | connected | disconnected

/-- Searches by file name or by content. -/
inductive SearchKind
  | files | content
  deriving DecidableEq

/-- What the user asked the scope to become. -/
inductive ScopeChoice
  | all | committed | byCommit
  | commit (repoId : RepoId) (oid : CommitOid)
  | worktree (repoId : RepoId)
  | requested (requestId : ReviewRequestId)
  | sinceCheckpoint (checkpointId : ReviewCheckpointId)

/-- A user intent. -/
inductive Action
  | inspectDaemon | upgradeDaemon | connect | disconnect | listWorkspaces
  | toggleWorkspace (workspaceId : WorkspaceId)
  | selectWorkspace (workspaceId : WorkspaceId)
  | startReview (workspaceId : WorkspaceId)
  | cancelNewReview
  | selectCreationTarget (reviewId : ReviewId) (targetId : CreationTargetId)
  | editCreationDraft (reviewId : ReviewId) (edit : CreationEdit)
  | addCreationTarget (reviewId : ReviewId)
  | removeCreationTarget (reviewId : ReviewId)
  | submitReviewCreation (reviewId : ReviewId)
  | retryReviewCreation (reviewId : ReviewId)
  | restoreReviewCreation (creation : ReviewCreation) (resume : CreationResume)
  | copyCheckout (repoId : RepoId)
  | goHome
  | listReviews (workspaceId : WorkspaceId)
  | createReview (workspaceId : WorkspaceId) (title : String) (targets : NonEmpty ReviewTarget)
  | openReview (reviewId : ReviewId)
  | setReferenceContext (context : ReferenceContext)
  | openReference (reference : String)
  | copyReference (reference : ReviewReference)
  | focusComment (commentId : CommentId)
  | closeReview | checkCurrent | checkRequested | checkpointDelta | informationalNoteOpened
  | draftOpened (anchor : Anchor)
  | draftSubmitted (body : String)
  | draftDiscarded
  | replyOpened (threadId : ThreadId)
  | setFocus (focus : Focus)
  | toggleHelp
  | reply (threadId : ThreadId) (body : String)
  | editComment (commentId : CommentId) (body : String)
  | deleteComment (commentId : CommentId)
  | deferOpened (threadId : ThreadId)
  | deferThread (threadId : ThreadId) (reason : DeferralReason) (trackingUrl : Option TrackingUrl)
  | resolveThread (threadId : ThreadId)
  | unresolveThread (threadId : ThreadId)
  | applySuggestion (commentId : CommentId)
  | previewSuggestion (commentId : CommentId)
  | viewport (file : FileRef) (firstRow lastRow : Nat)
  | openFileAt (file : FileRef) (row : Nat) (side : Side) (landing : Landing)
  | closeFile
  | toggleDir (repoId : RepoId) (path : Option RepoPath)
  | fileSearch (query : Option String)
  | setLayout (layout : Layout)
  | commentLines (file : FileRef) (side : Side) (startLine endLine : UInt32)
  | commentFile (file : FileRef)
  | setTab (tab : Tab)
  | copyPath (path : RepoPath)
  | scrollView (align : ScrollAlign)
  | toggleSidebar
  | toggleFileCollapse (file : FileRef)
  | collapseParent | collapseAll
  | setRenderOpts (ignoreWhitespace : Bool) (contextLines : Nat)
  | markViewed (file : FileRef)
  | unmarkViewed (file : FileRef)
  | listCommits (repoId : RepoId)
  | stepCommit (selected : Option Nat)
  | setScope (scope : ScopeChoice)
  | openOriginalDiff (threadId : ThreadId)
  | expandGap (file : FileRef) (gap : Gap) (dir : ExpandDir)
  | expandContext (file : FileRef) (full : Bool)
  | setBrowseRef (repoId : RepoId) (refSpec : Option RefSpec)
  | selectBrowseRepo (repoId : RepoId)
  | openBrowseRefSelector (repoId : RepoId)
  | resetBrowse
  | contentSearch (query : Option String) (allFiles : Bool)
  | actionPalette (shown : Bool)
  | runCommand (command : Command)
  | enterVisual | leaveVisual
  | searchFirst (search : SearchKind)
  | searchStep (search : SearchKind) (delta : Int)
  | openSearchResult (search : SearchKind) (query : String)
  | openRefSelector (repoId : RepoId) (side : RefSelectorSide)
  | refSelectorQuery (query : String)
  | refSelectorStep (delta : Int)
  | selectRef (index : Nat)
  | selectCurrentRef | closeRefSelector

/-- Something the host tells the core. -/
inductive Input
  | user (action : Action)
  /-- An adapter rejected an action before it existed. -/
  | invalidAction (reason : String)
  | server (msg : ServerMsg)
  | transport (event : TransportEvent)
  | daemonManaged (id : ManagementRequestId) (reply : ManagementReply)
  /-- Answer to a load; no value when the key is absent. -/
  | stored (key : Key) (value : Option Bytes)
  /-- The host's clock advanced. -/
  | tick (now : Millis)
  | key (chord : KeyChord)

/-- Something the host must do for the core. -/
inductive Effect
  | manageDaemon (id : ManagementRequestId) (request : ManagementRequest)
  | connect
  | disconnect
  | send (msg : ClientMsg)
  | persist (key : Key) (value : Bytes)
  | load (key : Key)
  | remove (key : Key)
  | render (sections : List ViewSection)

/-- Whose input was rejected. -/
inductive InputKind
  | user | server

/-- Why a command means nothing right now. -/
inductive NoTarget
  | nothing (command : Command)
  | atEdge | noOpenFile | noOpenReview | readOnlyOriginal
  | other (reason : String)

/-- Why an input was rejected. -/
inductive CoreError
  | wrongConnectionState (input : InputKind) (state : Connection.Kind)
  | unknownRequest (id : RequestId)
  | unexpectedResponse (id : RequestId) (expected got : String)
  | noOpenReview
  | currentChangesRefreshing
  | unknownFile (file : FileRef)
  | noOpenFile
  | draftAlreadyOpen
  | noDraft
  | mutation (error : MutationError)
  | notHuman
  | noStepper
  | unknownRepo (repoId : RepoId)
  | noRefSelector
  | noSelectedRef
  | unknownThread (threadId : ThreadId)
  | suggestionNotReady (commentId : CommentId)
  | noOriginalDiff (threadId : ThreadId)
  | focusOutOfRange (focus : Focus)
  | unboundKey (sequence : List KeyChord)
  | noTarget (reason : NoTarget)
  | commitOutOfRange (index : Nat)
  | unknownKey (key : Key)
  | rejected (error : RpcError)
  | staleEvent (seq lastSeq : Seq)

/-- A routine of the core that cannot fail. -/
abbrev Client := Handler ClientCore Effect Empty

/-- A routine of the core that may reject its input. -/
abbrev Risky := Handler ClientCore Effect CoreError

/-! ## What the core is run with -/

/-- What a sequence of chords means where the focus is. -/
inductive Lookup
  | prefix_
  | command (command : Command)
  | none

/-- What a command resolves to: an action, never another command. -/
structure Resolved where
  action : Action
  direct : ∀ command, action ≠ .runCommand command

/-- The codecs, and the interface's own readings of the core: which rows, folders and
threads are on screen, where a command leads and where the focus may be. The core
changes by the same rules whatever these answer. -/
class Presentation where
  encode : CacheValue → Bytes
  decode : Bytes → Option CacheValue
  storageKey : CacheKey → Key
  encodePrefs : ViewPrefs → Bytes
  decodePrefs : Bytes → Option ViewPrefs
  keysKey : Key
  keysAccepted : Bytes → Bool
  /-- The random part of the n-th minted id. -/
  random : BitVec 128 → Nat → BitVec 128
  parseRef : String → Except String RefSpec
  parseReference : String → Except String ReviewReference
  locate : ReferenceContext → Option DaemonContext
  /-- The comment a reference leads to, or why there is none. -/
  referred : ReviewReference → ReviewSnapshot → Except String (Option CommentId)
  lookup : ClientCore → List KeyChord → Lookup
  inComposer : Focus → Bool
  resolve : ClientCore → Command → Except NoTarget Resolved
  clamp : ClientCore → Focus → Focus
  targetRepoOf : ClientCore → Focus → Option RepoId
  threads : ReviewSnapshot → List (ThreadId × List CommentId)
  /-- The rows of a render that are on hand, with each one's line on a side. -/
  lineRows : ContentCache → ReviewSnapshot → RenderKey → Side → List (Nat × Nat)
  /-- The line of the focused row. -/
  focusedLine : ClientCore → RenderKey → RenderKey → Option Realign
  refOptions : RefSelector → List RefOption × Nat
  /-- The folder that collapsing at a row folds, and the row it is in. -/
  collapseTarget : ClientCore → Nat → Option (Folder × Option Nat)
  /-- The parts of the view that are read off the rest. -/
  derived : ClientCore → Derived
  /-- The sections that differ between two states. -/
  changed : ClientCore → ClientCore → List ViewSection

end Nits.ClientCore
