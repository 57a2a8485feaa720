import Nits.ClientCore.Handle

/-!
# What each routine touches

A relation on the core's states that composes is kept by a whole routine once it is
kept by the routine's own writes. The classes here say, one part of the state at a time,
that a relation lets that part change; each routine's instance names the parts that the
routine changes and the messages that it may send, and no others.
-/

set_option linter.dupNamespace false

namespace Nits.ClientCore

open Logical Logical.Handler Protocol

/-! ## Parts of the state -/

namespace ClientCore

/-- Everything but what only the interface reads and the clocks, counters and requests
of the host. -/
def essence (core : ClientCore) : ClientCore :=
  { core with
    recovery := .idle
    nextManagement := 0
    managementRequest := none
    panels := {}
    keys := {}
    now := 0
    ids := 0
    suggestions := ∅
    prefsLoaded := false
    browse := none
    view.connection := .disconnected
    view.daemonManagement := .idle
    view.uncertainMutations := []
    view.lastError := none }

/-- Everything but the lists of the home screen. -/
def homeless (core : ClientCore) : ClientCore :=
  { core with view.workspaces := [], view.reviews := [] }

/-- Everything but which listings and searches are the latest. -/
def unasked (core : ClientCore) : ClientCore :=
  { core with latestFiles := none, latestCommits := none, latestSearch := none }

end ClientCore

/-- A message to the daemon. -/
def Effect.isSend : Effect → Bool
  | .send _ => true
  | _ => false

/-- A write or a removal of a stored value. -/
def Effect.isStorage : Effect → Bool
  | .persist .. | .remove _ => true
  | _ => false

/-- What waits for the answer fills no content key. -/
class Unkeyed (waiting : InFlight) : Prop where
  unkeyed : waiting.key = none

section Unkeyed

variable (reviewId : ReviewId) (repoId : RepoId) (clientSeq : ClientSeq)

instance : Unkeyed (.creationDefault reviewId repoId) := ⟨rfl⟩

instance : Unkeyed (.createReview reviewId clientSeq) := ⟨rfl⟩

instance : Unkeyed (.reconcileCreation reviewId) := ⟨rfl⟩

instance (error : RpcError) : Unkeyed (.checkFailedCreation reviewId error) := ⟨rfl⟩

instance : Unkeyed .subscribe := ⟨rfl⟩

instance : Unkeyed .listWorkspaces := ⟨rfl⟩

instance (workspaceId : WorkspaceId) : Unkeyed (.listReviews workspaceId) := ⟨rfl⟩

instance (content : OpeningContent) : Unkeyed (.openReview reviewId content) := ⟨rfl⟩

instance : Unkeyed (.reviewSnapshot reviewId) := ⟨rfl⟩

instance (scope : DiffScope) : Unkeyed (.listFiles reviewId scope) := ⟨rfl⟩

instance : Unkeyed (.listCommits repoId) := ⟨rfl⟩

instance : Unkeyed (.listRefs repoId) := ⟨rfl⟩

instance : Unkeyed .search := ⟨rfl⟩

instance : Unkeyed (.browseTree repoId) := ⟨rfl⟩

instance : Unkeyed (.mutate clientSeq) := ⟨rfl⟩

instance (commentId : CommentId) : Unkeyed (.previewSuggestion reviewId commentId) := ⟨rfl⟩

instance (commentId : CommentId) : Unkeyed (.applySuggestion reviewId commentId) := ⟨rfl⟩

end Unkeyed

/-! ## What a relation lets change -/

section Classes

variable [Presentation] (R : ClientCore → List Effect → ClientCore → Prop)

/-- The interface's own state may change, and the host may be asked for anything but
to send or to store. -/
class Interface : Prop extends Course R where
  interface {before after : ClientCore} : before.essence = after.essence → R before [] after
  hosted (core : ClientCore) (effect : Effect) :
    ¬ effect.isSend → ¬ effect.isStorage → R core [effect] core

/-- A request that fills no key may be sent. -/
class Asks : Prop where
  asks (asking : Request) (waiting : InFlight) [Unkeyed waiting] : Within R (request asking waiting)

/-- Content may be pinned and unpinned, and queued fetches dropped. -/
class Pins : Prop where
  pins (key : CacheKey) : Within R (pin key)
  repins (key : RenderKey) : Within R (pinChunks key)
  retains : Within R retainReviewPins
  releases : Within R reviewClosed
  prunes (keep : Fetch → Bool) : Within R (pruneQueue keep)

/-- A want may be given up. -/
class Yields : Prop where
  yields (key : CacheKey) : Within R (contentFailed key)

/-- Content may be wanted, and fetched from wherever it is. -/
class Wants : Prop where
  wants (fetch : Fetch) : Within R (want fetch)

/-- Content may reach the cache. -/
class Stores : Prop where
  stores (key : CacheKey) (value : CacheValue) (via : Arrival) : Within R (arrived key value via)

/-- A slot may become free. -/
class Frees : Prop where
  frees : Within R contentDone

/-- The open review may name other content. -/
class Files : Prop where
  files (core : ClientCore) (change : OpenReview → OpenReview) :
    (∀ review, (change review).snapshot = review.snapshot) →
    (∀ review, (change review).pending = review.pending) →
    R core [] { core with view.review := core.view.review.map change }

/-- Which listing and search is the latest may change. -/
class Latest : Prop where
  latest {before after : ClientCore} : before.unasked = after.unasked → R before [] after

/-- Preferences and render options may change and be kept. -/
class Options : Prop where
  prefers (prefs : ViewPrefs) : Within R (putPrefs prefs)
  renders (opts : RenderOpts) : Within R (putRenderOpts opts)
  keeps (core : ClientCore) (bytes : Bytes) : R core [.persist ViewPrefs.KEY bytes] core

/-- The committed snapshot may be shown again. -/
class Rebases : Prop where
  rebases : Within R rebase

/-- Mutations may be sent. -/
class Mutates : Prop where
  shown (mutation : Mutation) (body : EventBody) : Within R (mutateWith mutation body)
  unshown (mutation : Mutation) (waiting : ClientSeq → InFlight)
    [∀ clientSeq, Unkeyed (waiting clientSeq)] : Within R (mutateUnshown mutation waiting)

/-- The open review may be closed. -/
class Closes : Prop where
  closes (core : ClientCore) : R core [] core.closed

/-- A snapshot may be forgotten before it comes. -/
class Forgets : Prop where
  reference (core : ClientCore) : R core [] { core with pendingReference := none }
  opening (core : ClientCore) :
    R core [] { core with pendingReference := none, latestOpen := none }

/-- A reference may be followed. -/
class Refers : Prop where
  refers (reference : ReviewReference) : Within R (openReference.askReference reference)

/-- The streams of an older generation may be told so. -/
class Supersedes : Prop where
  supersedes (reviewId : ReviewId) : Within R (supersedeOpeningContent reviewId)

/-- The connection may change. -/
class Connects : Prop where
  connects (connection : Connection) : Within R (setConnection connection)

/-- The host may be told of another daemon context. -/
class Contexts : Prop where
  contexts (context : ReferenceContext) : Within R (setReferenceContext context)

/-- A draft may be opened. -/
class Drafts : Prop where
  drafts (draft : Option Draft) : Within R (setDraft draft)

/-- A draft may be closed, with what it held back. -/
class Discards : Prop where
  discards : Within R closeDraft
  postpones (threadId : ThreadId) (reason : DeferralReason) (trackingUrl : Option TrackingUrl) :
    Within R (deferThread threadId reason trackingUrl)

/-- The user may work on the creation form. -/
class Creates : Prop where
  starts (workspaceId : WorkspaceId) : Within R (startCreation workspaceId)
  cancels : Within R cancelNewReview
  selects (reviewId : ReviewId) (targetId : CreationTargetId) :
    Within R (selectCreationTarget reviewId targetId)
  edits (reviewId : ReviewId) (edit : CreationEdit) : Within R (editCreationField reviewId edit)
  adds (reviewId : ReviewId) : Within R (addCreationTarget reviewId)
  removes (reviewId : ReviewId) : Within R (removeCreationTarget reviewId)
  submits (reviewId : ReviewId) : Within R (submitCreation reviewId)
  reconciles (reviewId : ReviewId) (next : CreationReconcile) :
    Within R (reconcileCreation reviewId next)
  restores (creation : ReviewCreation) (resume : CreationResume) :
    Within R (restoreCreation creation resume)
  rejects (reviewId : ReviewId) (message : String) : Within R (creationFailure reviewId message)

attribute [instance] Asks.asks Pins.pins Pins.repins Pins.retains Pins.releases Pins.prunes
  Yields.yields Wants.wants Stores.stores Frees.frees Options.prefers Options.renders
  Rebases.rebases Mutates.shown Mutates.unshown Refers.refers Supersedes.supersedes
  Connects.connects Contexts.contexts Drafts.drafts Discards.discards Discards.postpones
  Creates.starts Creates.cancels Creates.selects Creates.edits Creates.adds Creates.removes
  Creates.submits Creates.reconciles Creates.restores Creates.rejects

end Classes

section Instances

variable [Presentation] {R : ClientCore → List Effect → ClientCore → Prop} {ε : Type}

omit [Presentation] in
theorem within_then {α β : Type} [Course R] (first : Handler ClientCore Effect ε α)
    (next : α → Handler ClientCore Effect ε β) (early : Within R first)
    (late : ∀ value, Within R (next value)) : Within R (first >>= next) :=
  inferInstance

omit [Presentation] in
theorem within_safely {α : Type} (safe : Handler ClientCore Effect Empty α)
    (inner : Within R safe) : Within R (always safe : Handler ClientCore Effect ε α) :=
  inferInstance

omit [Presentation] in
theorem within_write (change : ClientCore → ClientCore) (moves : ∀ core, R core [] (change core)) :
    Within R (write change : Handler ClientCore Effect ε Unit) where
  moves

/-! ## The interface -/

omit [Presentation] in
theorem within_interface [Interface R] (change : ClientCore → ClientCore)
    (same : ∀ core, core.essence = (change core).essence) :
    Within R (write change : Handler ClientCore Effect ε Unit) where
  moves core := Interface.interface (same core)

omit [Presentation] in
theorem within_hosted [Interface R] (effect : Effect) (unsent : ¬ effect.isSend)
    (unstored : ¬ effect.isStorage) :
    Within R (order effect : Handler ClientCore Effect ε Unit) where
  moves core := Interface.hosted core effect unsent unstored

instance [Interface R] (change : Panels → Panels) : Within R (panels change) :=
  within_interface _ fun _ => rfl

instance [Interface R] (sections : List ViewSection) : Within R (render sections) :=
  within_hosted _ (by simp [Effect.isSend]) (by simp [Effect.isStorage])

instance [Interface R] (key : Key) :
    Within R (order (.load key) : Handler ClientCore Effect ε Unit) :=
  within_hosted _ (by simp [Effect.isSend]) (by simp [Effect.isStorage])

instance [Interface R] : Within R (order .connect : Handler ClientCore Effect ε Unit) :=
  within_hosted _ (by simp [Effect.isSend]) (by simp [Effect.isStorage])

instance [Interface R] : Within R (order .disconnect : Handler ClientCore Effect ε Unit) :=
  within_hosted _ (by simp [Effect.isSend]) (by simp [Effect.isStorage])

instance [Interface R] (commentId : CommentId) (state : Suggestion.State) :
    Within R (setSuggestion commentId state) :=
  within_interface _ fun _ => rfl

instance [Interface R] (browse : Option Browse) : Within R (setBrowse browse) :=
  within_interface _ fun _ => rfl

instance [Interface R] (recovery : Recovery) : Within R (setRecovery recovery) :=
  within_interface _ fun _ => rfl

instance [Interface R] (shown : ConnectionView) : Within R (setConnectionView shown) :=
  within_interface _ fun _ => rfl

instance [Interface R] : Within R mintId :=
  within_interface _ fun _ => rfl

instance [Interface R] (message : String) : Within R (referenceError message) :=
  within_then _ _ (within_interface _ fun _ => rfl) fun _ => inferInstance

instance [Interface R] : Within R focusComposer :=
  inferInstanceAs (Within R (panels _))

instance [Interface R] : Within R changed :=
  inferInstanceAs (Within R (render _))

instance [Interface R] : Within R invalidateDaemonStatus :=
  within_interface _ fun core => by
    cases managed : core.view.daemonManagement <;> rfl

instance [Interface R] (request : ManagementRequest) : Within R (manageDaemon request) := by
  unfold manageDaemon
  refine within_next fun core => within_then _ _ ?_ fun _ =>
    within_then _ _ ?_ fun _ => inferInstance
  · exact within_interface _ fun _ => rfl
  · exact within_hosted _ (by simp [Effect.isSend]) (by simp [Effect.isStorage])

instance [Interface R] (id : ManagementRequestId)
    (reply : ManagementReply) : Within R (managedDaemon id reply) := by
  unfold managedDaemon
  refine within_next fun core => ?_
  split
  · infer_instance
  · exact within_then _ _ (within_interface _ fun _ => rfl) fun _ => inferInstance

instance [Interface R] (operation : UpgradeOperation) : Within R (restartNotice operation) := by
  unfold restartNotice
  refine within_next fun _ => within_then _ _ ?_ fun _ => inferInstance
  exact within_interface _ fun _ => rfl

instance [Interface R] (otherwise : ConnectionView) : Within R (showLost otherwise) :=
  within_interface _ fun _ => rfl

instance [Interface R] : Within R suggestionsDisconnected :=
  within_interface _ fun _ => rfl

instance [Interface R] : Within R requireSubscribed := by
  unfold requireSubscribed
  infer_instance

instance [Interface R] : Within R requireReview := by
  unfold requireReview
  infer_instance

instance [Interface R] : Within R requireNoDraft := by
  unfold requireNoDraft
  infer_instance

instance [Interface R] : Within R requireCommentableContext := by
  unfold requireCommentableContext
  refine within_next fun core => ?_
  split <;> infer_instance

instance [Interface R] (repoId : RepoId) : Within R (requireBrowseRepo repoId) := by
  unfold requireBrowseRepo
  refine within_next fun core => ?_
  split <;> infer_instance

instance [Interface R] : Within R openReviewId := by
  unfold openReviewId
  refine within_next fun core => ?_
  split <;> infer_instance

instance [Interface R] (focus : Focus) : Within R (focusOn focus) := by
  unfold focusOn
  infer_instance

instance [Interface R] : Within R clearVisual :=
  inferInstanceAs (Within R (panels _))

instance [Interface R] (focus : Focus) : Within R (enter focus) :=
  inferInstanceAs (Within R (panels _))

instance [Interface R] : Within R leave :=
  inferInstanceAs (Within R (panels _))

instance [Interface R] (row : Nat) (align : ScrollAlign) : Within R (scrollTo row align) :=
  inferInstanceAs (Within R (panels _))

instance [Interface R] (commentId : CommentId) : Within R (focusSuggestion commentId) :=
  inferInstanceAs (Within R (panels _))

instance [Interface R] (index : Nat) : Within R (markSaving index) :=
  inferInstanceAs (Within R (panels _))

instance [Interface R] (message : String) (which : RefSelector → Bool)
    (status : RefSelectorStatus) : Within R (failAttempt message which status) :=
  inferInstanceAs (Within R (panels _))

instance [Interface R] (commentId : CommentId) : Within R (focusComment commentId) := by
  unfold focusComment focusComment.focusThread
  refine within_next fun core => ?_
  split
  · infer_instance
  · split
    · infer_instance
    · split
      · infer_instance
      · split <;> infer_instance

/-- Focusing a comment is rejected before it changes anything. -/
instance (commentId : CommentId) : Atomic id (focusComment commentId) := by
  unfold focusComment
  refine atomic_next fun core => ?_
  split
  · infer_instance
  · split
    · infer_instance
    · split
      · infer_instance
      · split <;> infer_instance

instance [Interface R] {δ : Type} (commentId : CommentId) :
    Within R (attempt (focusComment commentId) :
      Handler ClientCore Effect δ (Except CoreError Unit)) :=
  within_attempt_atomic _ inferInstance inferInstance

/-! ## Content -/

instance [Course R] [Wants R] (fetches : List Fetch) : Within R (wantEach fetches) := by
  unfold wantEach
  infer_instance

instance [Course R] [Wants R] (key : RenderKey) : Within R (wantViewportChunks key) := by
  unfold wantViewportChunks
  refine within_next fun core => ?_
  split <;> infer_instance

instance [Course R] [Wants R] (key : RenderKey) (header : FileRenderHeader) :
    Within R (wantChunksFor key header) := by
  unfold wantChunksFor
  refine within_next fun core => ?_
  split <;> infer_instance

instance [Files R] (openFile : Option OpenFile) (original : Option RenderKey) :
    Within R (showFile openFile original) :=
  within_write _ fun core => Files.files core _ (fun _ => rfl) fun _ => rfl

instance [Files R] (trees : List TreeKey) : Within R (setTrees trees) :=
  within_write _ fun core => Files.files core _ (fun _ => rfl) fun _ => rfl

instance [Files R] (files : List RenderKey) : Within R (setFiles files) :=
  within_write _ fun core => Files.files core _ (fun _ => rfl) fun _ => rfl

instance [Files R] (scope : DiffScope) : Within R (enterScope scope) :=
  within_write _ fun core => Files.files core _ (fun _ => rfl) fun _ => rfl

instance [Files R] : Within R dropFiles :=
  within_write _ fun core => Files.files core _ (fun _ => rfl) fun _ => rfl

instance [Files R] : Within R dropMovedFiles :=
  within_write _ fun core => Files.files core _ (fun _ => rfl) fun _ => rfl

instance [Files R] (old key : RenderKey) : Within R (rekey old key) :=
  within_write _ fun core => Files.files core _ (fun _ => rfl) fun _ => rfl

instance [Course R] [Files R] [Pins R] [Wants R] (wanting : Bool) :
    Within R (reviewTrees wanting) := by
  unfold reviewTrees
  refine within_next fun core => ?_
  split <;> infer_instance

instance [Course R] [Files R] [Pins R] [Wants R] : Within R wantReviewTrees :=
  inferInstanceAs (Within R (reviewTrees true))

instance [Course R] [Files R] [Pins R] [Wants R] : Within R expectStreamedTrees :=
  inferInstanceAs (Within R (reviewTrees false))

instance [Course R] [Files R] [Pins R] [Wants R] [Asks R]
    (reviewId : ReviewId) : Within R (reviewOpenedPiecewise reviewId) := by
  unfold reviewOpenedPiecewise
  infer_instance

instance [Interface R] [Files R] [Pins R] [Wants R] (reviewId : ReviewId)
    (key : RenderKey) (firstRow lastRow : Nat) :
    Within R (showRender reviewId key firstRow lastRow) := by
  unfold showRender focusOpened
  refine within_next fun core => ?_
  dsimp only
  split
  · refine within_next fun _ => within_next fun _ => within_next fun _ => ?_
    refine within_next fun _ => within_next fun _ => ?_
    infer_instance
  · refine within_next fun _ => ?_
    infer_instance

instance [Interface R] [Files R] [Pins R] [Wants R] (file : FileRef)
    (firstRow lastRow : Nat) : Within R (viewport file firstRow lastRow) := by
  unfold viewport
  refine within_next fun core => ?_
  split
  · infer_instance
  · split <;> infer_instance

/-- A viewport is rejected before it changes anything. -/
instance (file : FileRef) (firstRow lastRow : Nat) :
    Atomic id (viewport file firstRow lastRow) := by
  unfold viewport
  refine atomic_next fun core => ?_
  split
  · infer_instance
  · split <;> infer_instance

instance [Interface R] [Files R] [Pins R] [Wants R] {δ : Type}
    (file : FileRef) (firstRow lastRow : Nat) : Within R (attempt (viewport file firstRow lastRow) :
      Handler ClientCore Effect δ (Except CoreError Unit)) :=
  within_attempt_atomic _ inferInstance inferInstance

instance [Interface R] [Files R] [Pins R] [Wants R] : Within R autoOpenFirst := by
  unfold autoOpenFirst
  refine within_next fun core => ?_
  split
  · infer_instance
  · split
    · refine within_next fun _ => ?_
      split <;> infer_instance
    · infer_instance

instance [Course R] [Pins R] [Wants R] (reviewId : ReviewId) (key : RenderKey) :
    Within R (prefetch reviewId key) := by
  unfold prefetch
  refine within_next fun _ => within_next fun _ => within_next fun core => ?_
  split <;> infer_instance

instance [Interface R] [Files R] [Pins R] [Wants R] (reviewId : ReviewId)
    (files : List FileChange) : Within R (reviewFiles reviewId files) := by
  unfold reviewFiles
  refine within_next fun core => ?_
  split <;> infer_instance

instance [Course R] [Pins R] [Wants R] (reviewId : ReviewId)
    (key : RenderKey) : Within R (wantOpenRender reviewId key) := by
  unfold wantOpenRender
  infer_instance

instance [Interface R] [Files R] [Pins R] : Within R closeFile := by
  unfold closeFile closeFile.leaveFile
  refine within_next fun core => ?_
  split <;> infer_instance

/-! ## The open review -/

instance [Course R] [Closes R] [Pins R] : Within R closeReview := by
  unfold closeReview
  exact within_then _ _ (within_write _ Closes.closes) fun _ => inferInstance

instance [Latest R] : Within R forgetSearch :=
  within_write _ fun _ => Latest.latest rfl

instance [Forgets R] : Within R forgetOpening :=
  within_write _ Forgets.opening

instance [Interface R] [Files R] [Supersedes R] [Rebases R] [Asks R]
    (scope : DiffScope) : Within R (applyScope scope) := by
  unfold applyScope
  refine within_next fun core => ?_
  split <;> infer_instance

instance [Options R] (bytes : Bytes) :
    Within R (order (.persist ViewPrefs.KEY bytes) : Handler ClientCore Effect ε Unit) where
  moves core := Options.keeps core bytes

instance [Interface R] [Files R] [Options R] [Asks R] (prefs : ViewPrefs)
    (save : Bool) : Within R (applyPrefs prefs save) := by
  unfold applyPrefs
  refine within_next fun core => within_next fun _ => ?_
  split
  · split <;> infer_instance
  · infer_instance

instance [Interface R] [Files R] [Options R] [Asks R] (value : Option Bytes) :
    Within R (prefsStored value) := by
  unfold prefsStored
  refine within_then _ _ (within_interface _ fun _ => rfl) fun _ => ?_
  refine within_next fun core => ?_
  split <;> infer_instance

instance [Interface R] (value : Option Bytes) : Within R (keymapStored value) :=
  within_interface _ fun core => by
    cases value.filter Presentation.keysAccepted <;> rfl

instance [Interface R] [Mutates R] (mutation : Mutation) : Within R (mutate mutation) := by
  unfold mutate
  refine within_next fun _ => within_next fun core => ?_
  split
  · infer_instance
  · split <;> infer_instance

instance [Interface R] [Mutates R] (file : FileRef) (viewed : Bool) :
    Within R (markViewed file viewed) := by
  unfold markViewed
  refine within_next fun _ => within_next fun core => ?_
  split
  · infer_instance
  · split
    · infer_instance
    · split <;> infer_instance

end Instances

end Nits.ClientCore
