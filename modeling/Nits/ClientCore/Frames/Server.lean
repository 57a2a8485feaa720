import Nits.ClientCore.Frames.User

/-!
# What each daemon message touches

The parts of the state that only messages and the transport change, an instance for each
routine that they reach, and `within_route` for every input.
-/

namespace Nits.ClientCore

open Logical Logical.Handler Protocol

section Classes

variable [Presentation] (R : ClientCore → List Effect → ClientCore → Prop)

/-- The lists of the home screen may change. -/
class Lists : Prop where
  lists {before after : ClientCore} : before.homeless = after.homeless → R before [] after

/-- Everything under way may be lost. -/
class Loses : Prop where
  loses : Within R clearInFlight

/-- The greeting may be sent. -/
class Greets : Prop where
  greets (clientId : ClientId) (author : Author) :
    Within R (order (.send (.hello clientId author)) : Client Unit)

/-- A stream may be cancelled. -/
class Cancels : Prop where
  cancels (id : RequestId) : Within R (order (.send (.cancel id)) : Client Unit)

/-- Rejected mutations may be sent again. -/
class Resends : Prop where
  resends : Within R resend

/-- A request may be over, with the events kept for it, or stand differently. -/
class Drops : Prop where
  drops (id : RequestId) : Within R (dropRequest id)
  forgets (id : RequestId) : Within R (forgetBuffer id)
  stands (id : RequestId) (reviewId : ReviewId) (content : OpeningContent) :
    Within R (setOpening id reviewId content)

/-- A snapshot may be opened, and a reference landed on. -/
class Opens : Prop where
  installs (id : RequestId) (snapshot : ReviewSnapshot) : Within R (installSnapshot id snapshot)
  lands : Within R landReference

/-- A mutation may be settled without its event. -/
class Settles : Prop where
  acknowledges (clientSeq : ClientSeq) : Within R (mutationCommitted.acknowledge clientSeq)
  rejects (clientSeq : ClientSeq) (error : RpcError) : Within R (mutationFailed clientSeq error)

/-- A receipt may be discovered. -/
class Discovers : Prop where
  discovers (commentId : CommentId) (receipt : SuggestionReceipt) :
    Within R (discoverReceipt commentId receipt)

/-- An event may be folded in. -/
class Applies : Prop where
  applies (event : Event) : Within R (ClientCore.applyEvent event)

/-- The daemon may answer what the creation form asked. -/
class Answers : Prop where
  disconnected : Within R creationDisconnected
  reconnected : Within R creationReconnected
  defaults (reviewId : ReviewId) (repoId : RepoId) (answer : Except String RefSpec) :
    Within R (creationDefaultAnswer reviewId repoId answer)
  refuses (reviewId : ReviewId) (error : RpcError) : Within R (creationWriteFailed reviewId error)
  misses (reviewId : ReviewId) (error : RpcError) : Within R (creationLookupFailed reviewId error)
  checks (reviewId : ReviewId) (original lookup : RpcError) :
    Within R (creationFailureChecked reviewId original lookup)
  finds (review : Review) : Within R (creationFound review)
  observes (event : Event) : Within R (creationObserve event)

attribute [instance] Loses.loses Greets.greets Cancels.cancels Resends.resends Drops.drops
  Drops.forgets Drops.stands Opens.installs Opens.lands Settles.acknowledges Settles.rejects
  Discovers.discovers Applies.applies Answers.disconnected Answers.reconnected Answers.defaults
  Answers.refuses Answers.misses Answers.checks Answers.finds Answers.observes

end Classes

section Instances

variable [Presentation] {R : ClientCore → List Effect → ClientCore → Prop}

/-! ## Transport -/

instance [Interface R] : Within R selectorDisconnected := by
  unfold selectorDisconnected
  infer_instance

instance [Interface R] : Within R browseDisconnected := by
  unfold browseDisconnected
  refine within_next fun core => ?_
  split <;> infer_instance

instance [Interface R] [Connects R] [Greets R] : Within R connected := by
  unfold connected
  refine within_next fun core => ?_
  split <;> infer_instance

instance [Interface R] [Connects R] [Loses R] [Answers R] : Within R disconnected := by
  unfold disconnected disconnected.ended
  refine within_next fun core => within_next fun _ => within_next fun _ => ?_
  refine within_next fun _ => within_next fun _ => ?_
  split
  · infer_instance
  · refine within_next fun _ => within_next fun _ => within_next fun _ => ?_
    split <;> infer_instance
  · refine within_next fun _ => within_next fun _ => within_next fun _ => ?_
    split <;> infer_instance

instance [Interface R] [Connects R] [Greets R] [Loses R] [Answers R]
    (event : TransportEvent) : Within R (transport event) := by
  cases event <;> simp only [transport] <;> infer_instance

instance [Interface R] [Connects R] [Loses R] : Within R restartTick := by
  unfold restartTick
  refine within_next fun core => ?_
  split
  · infer_instance
  · split
    · refine within_next fun _ => ?_
      infer_instance
    · split <;> infer_instance

/-! ## Handshake -/

instance [Interface R] [Asks R] : Within R welcome := by
  unfold welcome
  refine within_next fun core => ?_
  split <;> infer_instance

instance [Interface R] [Connects R] [Loses R] (error : RpcError) : Within R (refused error) := by
  unfold refused
  refine within_next fun core => within_next fun _ => within_next fun _ => ?_
  split <;> infer_instance

instance [Interface R] [Connects R] [Loses R] (error : RpcError) : Within R (rejected error) := by
  unfold rejected
  refine within_next fun core => ?_
  split <;> infer_instance

omit [Presentation] in
/-- A preview is rejected before it changes anything. -/
instance (commentId : CommentId) : Atomic id (previewSuggestion commentId) := by
  unfold previewSuggestion requireSubscribed
  refine atomic_next fun _ => atomic_next fun core => ?_
  split <;> infer_instance

instance [Interface R] [Asks R] : Within R suggestionsReconnected := by
  have previews : ∀ commentId, Within R
      (attempt (previewSuggestion commentId) : Client (Except CoreError Unit)) := fun commentId =>
    within_attempt_atomic _ inferInstance inferInstance
  unfold suggestionsReconnected
  infer_instance

instance [Interface R] [Connects R] [Resends R] [Asks R] [Answers R]
    (seq : Seq) : Within R (subscribed seq) := by
  unfold subscribed
  refine within_next fun _ => within_next fun _ => within_next fun _ => within_next fun _ => ?_
  refine within_next fun _ => ?_
  refine within_then _ _ (within_interface _ fun _ => rfl) fun _ => ?_
  infer_instance

/-! ## Answers -/

instance [Course R] [Drops R] (id : RequestId) : Within R (finished id) := by
  unfold finished
  infer_instance

instance [Interface R] [Lists R] [Asks R] (workspaces : List Workspace) :
    Within R (workspacesListed workspaces) := by
  unfold workspacesListed
  exact within_then _ _ (within_write _ fun _ => Lists.lists rfl) fun _ => inferInstance

instance [Interface R] [Lists R] (workspaceId : WorkspaceId)
    (reviews : List Review) : Within R (reviewsListed workspaceId reviews) := by
  unfold reviewsListed
  exact within_then _ _ (within_write _ fun _ => Lists.lists rfl) fun _ => inferInstance

instance [Interface R] [Lists R] [Answers R] (review : Review) : Within R (reviewFound review) := by
  unfold reviewFound
  exact within_next fun _ =>
    within_then _ _ (within_write _ fun _ => Lists.lists rfl) fun _ => inferInstance

instance [Interface R] [Answers R] [Connects R] [Applies R]
    (event : Event) : Within R (creationCommitted event) := by
  unfold creationCommitted
  refine within_next fun _ => ?_
  split
  · dsimp only
    refine within_next fun _ => within_next fun core => ?_
    split <;> infer_instance
  · dsimp only
    refine within_next fun core => ?_
    split <;> infer_instance

instance [Interface R] [Latest R] [Files R] [Rebases R] [Pins R] [Wants R]
    (id : RequestId) (reviewId : ReviewId) (scope : DiffScope) (files : List FileChange)
    (resolved : List ResolvedTarget) : Within R (filesListed id reviewId scope files resolved) := by
  unfold filesListed filesListed.scopeTargets
  refine within_next fun _ => ?_
  split
  · dsimp only
    split
    · refine within_then _ _ (within_write _ fun _ => Latest.latest rfl) fun _ => ?_
      infer_instance
    · infer_instance
  · dsimp only
    split
    · refine within_then _ _ (within_write _ fun _ => Latest.latest rfl) fun _ => ?_
      refine within_then _ _ ?_ fun _ => ?_
      · refine within_then _ _ (within_write _ fun core => Files.files core _ (fun _ => rfl) fun _ => rfl) fun _ => ?_
        infer_instance
      · infer_instance
    · infer_instance

instance [Interface R] [Latest R] [Files R] [Supersedes R] [Rebases R]
    [Asks R] (repoId : RepoId) (commits : List CommitInfo) :
    Within R (commitsListed repoId commits) := by
  unfold commitsListed
  refine within_then _ _ (within_write _ fun _ => Latest.latest rfl) fun _ => ?_
  refine within_next fun _ => ?_
  split
  · infer_instance
  · refine within_next fun _ => ?_
    split
    · refine within_next fun _ => within_next fun _ => ?_
      split <;> infer_instance
    · infer_instance

instance [Interface R] (id : RequestId) (repoId : RepoId)
    (refs : List RefCandidate) : Within R (refsListed id repoId refs) := by
  unfold refsListed
  infer_instance

instance [Interface R] [Latest R] (id : RequestId) (hits : List ContentHit)
    (truncated : Bool) : Within R (hitsFound id hits truncated) := by
  unfold hitsFound
  refine within_next fun _ => ?_
  split
  · refine within_then _ _ (within_write _ fun _ => Latest.latest rfl) fun _ => ?_
    infer_instance
  · infer_instance

instance [Course R] [Stores R] [Frees R] (key : CacheKey)
    (value : CacheValue) : Within R (contentAnswered key value) := by
  unfold contentAnswered
  infer_instance

instance [Interface R] [Settles R] [Connects R] [Applies R]
    (clientSeq : ClientSeq) (event : Event) : Within R (mutationCommitted clientSeq event) := by
  unfold mutationCommitted
  refine within_next fun core => ?_
  split <;> infer_instance

instance [Interface R] [Opens R] [Files R] [Pins R] [Wants R] [Asks R]
    (id : RequestId) (reviewId : ReviewId) (snapshot : ReviewSnapshot) :
    Within R (snapshotAnswered id reviewId snapshot) := by
  unfold snapshotAnswered
  infer_instance

instance [Interface R] [Files R] [Pins R] [Wants R] [Stores R]
    (attempt : BrowseAttempt) (snapshot : TreeSnapshot) :
    Within R (takeBrowse attempt snapshot) := by
  unfold takeBrowse
  dsimp only
  refine within_next fun _ => within_next fun _ => ?_
  infer_instance

instance [Interface R] [Files R] [Pins R] [Wants R] [Stores R]
    (id : RequestId) (repoId : RepoId) (snapshot : TreeSnapshot) :
    Within R (browseAnswer id repoId snapshot) := by
  unfold browseAnswer
  refine within_next fun core => ?_
  split <;> infer_instance

instance [Interface R] [Discovers R] (requestId : RequestId)
    (reviewId : ReviewId) (commentId : CommentId) (preview : SuggestionPreview) :
    Within R (suggestionPreviewed requestId reviewId commentId preview) := by
  unfold suggestionPreviewed suggestionPreviewed.previewTaken
  refine within_next fun core => ?_
  split
  · infer_instance
  · split
    · infer_instance
    · split
      · infer_instance
      · split
        · infer_instance
        · split
          · infer_instance
          · split <;> infer_instance

instance [Interface R] (requestId : RequestId) (reviewId : ReviewId)
    (commentId : CommentId) (error : RpcError) :
    Within R (suggestionFailed requestId reviewId commentId error) := by
  unfold suggestionFailed
  refine within_next fun core => ?_
  split
  · infer_instance
  · split
    · infer_instance
    · split
      · infer_instance
      · split
        · infer_instance
        · split <;> infer_instance

instance [Interface R] (requestId : RequestId) (reviewId : ReviewId)
    (commentId : CommentId) : Within R (applicationEnded requestId reviewId commentId) := by
  unfold applicationEnded
  refine within_next fun core => ?_
  split <;> infer_instance

instance [Interface R] [Connects R] [Applies R] (requestId : RequestId)
    (reviewId : ReviewId) (commentId : CommentId) (event : Event) :
    Within R (suggestionApplied requestId reviewId commentId event) := by
  unfold suggestionApplied
  split
  · infer_instance
  · refine within_next fun _ => within_next fun core => ?_
    split <;> infer_instance

/-- A relation that lets all the parts change that answers change, an event apart. -/
class Receives (R : ClientCore → List Effect → ClientCore → Prop) : Prop extends
    Interface R, Asks R, Pins R, Wants R, Stores R, Frees R, Files R, Latest R, Rebases R,
    Supersedes R, Connects R, Lists R, Resends R, Drops R, Opens R, Settles R, Discovers R,
    Answers R

/-- An answer that brings no event touches no more than these parts. -/
theorem within_routed_quiet [Receives R] (id : RequestId) (waiting : InFlight)
    (answer : Response) (quiet : ∀ event, answer ≠ .committed event) :
    Within R (routed id waiting answer) := by
  cases answer with
  | committed event => exact absurd rfl (quiet event)
  | _ =>
    unfold routed
    dsimp only
    split
    all_goals first
      | contradiction
      | infer_instance
      | exact within_next fun _ => by split <;> infer_instance

instance within_routed [Receives R] [Applies R] (id : RequestId) (waiting : InFlight)
    (answer : Response) : Within R (routed id waiting answer) := by
  cases answer with
  | committed event =>
    unfold routed
    dsimp only
    split
    · refine within_next fun _ => ?_
      split <;> infer_instance
    · infer_instance
    · infer_instance
    · infer_instance
    · infer_instance
    · infer_instance
    · infer_instance
    · infer_instance
    · infer_instance
    · infer_instance
    · infer_instance
    · infer_instance
    · infer_instance
    · infer_instance
    · infer_instance
    · infer_instance
    · infer_instance
    · infer_instance
    · infer_instance
    · infer_instance
  | _ =>
    refine within_routed_quiet id waiting _ fun event same => ?_
    cases same

theorem within_response_of [Interface R] [Drops R] (id : RequestId) (answer : Response)
    (routes : ∀ waiting, Within R (routed id waiting answer)) : Within R (response id answer) := by
  unfold response
  refine within_next fun core => ?_
  split
  · infer_instance
  · split <;> infer_instance

instance [Receives R] [Applies R] (id : RequestId) (answer : Response) :
    Within R (response id answer) :=
  within_response_of id answer fun waiting => within_routed id waiting answer

/-! ## Streams -/

instance [Interface R] [Opens R] [Drops R] [Files R] [Pins R] [Wants R]
    [Asks R] (id : RequestId) (reviewId : ReviewId) (snapshot : ReviewSnapshot) :
    Within R (openingSnapshot id reviewId snapshot) := by
  unfold openingSnapshot
  refine within_next fun _ => within_next fun _ => ?_
  infer_instance

instance [Course R] [Files R] [Stores R] (reviewId : ReviewId)
    (header : FileRenderHeader) : Within R (openingHeader reviewId header) := by
  unfold openingHeader
  refine within_then _ _ (within_write _ fun core => Files.files core _ ?_ ?_) fun _ =>
    inferInstance
  all_goals
    intro review
    unfold openingHeader.discover
    split
    · split <;> rfl
    · rfl

instance [Course R] [Stores R] [Cancels R] (id : RequestId) (key : RenderKey)
    (stopAfter : ChunkIndex) (chunk : RenderChunk) :
    Within R (streamChunk id key stopAfter chunk) := by
  unfold streamChunk
  infer_instance

/-- A relation that lets all the parts change that stream items change. -/
class Streams (R : ClientCore → List Effect → ClientCore → Prop) : Prop extends
    Interface R, Asks R, Pins R, Wants R, Stores R, Files R, Drops R, Opens R, Cancels R

instance [Streams R] (id : RequestId) (waiting : InFlight) (item : StreamItem) :
    Within R (streamed id waiting item) := by
  unfold streamed
  dsimp only
  split
  · infer_instance
  · infer_instance
  · infer_instance
  · refine within_next fun core => ?_
    split <;> infer_instance
  all_goals infer_instance

instance [Streams R] (id : RequestId) (item : StreamItem) : Within R (streamItem id item) := by
  unfold streamItem
  refine within_next fun core => ?_
  split <;> infer_instance

instance [Interface R] [Drops R] [Files R] [Pins R] [Wants R]
    (id : RequestId) (reviewId : ReviewId) (content : OpeningContent) :
    Within R (openingEnded id reviewId content) := by
  unfold openingEnded
  refine within_next fun _ => ?_
  infer_instance

instance [Course R] [Drops R] [Yields R] [Frees R] (id : RequestId)
    (render : RenderKey) : Within R (renderEnded id render) := by
  unfold renderEnded
  infer_instance

instance [Interface R] [Drops R] [Files R] [Pins R] [Yields R] [Wants R] [Frees R]
    (id : RequestId) : Within R (streamEnd id) := by
  unfold streamEnd
  refine within_next fun core => ?_
  split <;> infer_instance

/-! ## Errors -/

instance [Interface R] (error : RpcError) : Within R (refsFailed error) := by
  unfold refsFailed
  infer_instance

instance [Interface R] [Settles R] [Yields R] [Frees R] (waiting : InFlight)
    (error : RpcError) : Within R (requestFailed waiting error) := by
  unfold requestFailed
  refine within_then _ _ (within_interface _ fun _ => rfl) fun _ => ?_
  refine within_next fun _ => ?_
  split
  · split
    · split <;> infer_instance
    · split <;> infer_instance
  · split
    · split <;> infer_instance
    · split <;> infer_instance

instance [Interface R] (id : RequestId) (error : RpcError) : Within R (browseFailed id error) := by
  unfold browseFailed
  refine within_next fun core => ?_
  split <;> infer_instance

/-- A relation that lets all the parts change that errors change. -/
class Fails (R : ClientCore → List Effect → ClientCore → Prop) : Prop extends
    Interface R, Yields R, Frees R, Forgets R, Drops R, Settles R, Answers R

instance [Fails R] (id : RequestId) (waiting : InFlight) (error : RpcError) :
    Within R (failed id waiting error) := by
  unfold failed
  refine within_next fun _ => ?_
  split
  · split
    · refine within_then _ _ (within_write _ Forgets.reference) fun _ => ?_
      infer_instance
    · infer_instance
  · split
    · refine within_then _ _ (within_write _ Forgets.reference) fun _ => ?_
      infer_instance
    · infer_instance
  · infer_instance
  · infer_instance
  · infer_instance
  · infer_instance
  · infer_instance
  · infer_instance
  · infer_instance
  · infer_instance
  · infer_instance

instance [Fails R] (id : RequestId) (failure : RpcError) : Within R (error id failure) := by
  unfold error
  refine within_next fun _ => within_next fun core => ?_
  split <;> infer_instance

/-! ## Events -/

instance [Interface R] [Connects R] [Applies R] (live : Event) : Within R (event live) := by
  unfold event
  refine within_next fun core => ?_
  split <;> infer_instance

instance [Course R] [Stores R] (delta : TreeDelta) : Within R (treeDelta delta) := by
  unfold treeDelta
  refine within_next fun core => ?_
  split <;> infer_instance

instance [Interface R] [Stores R] (delta : TreeDelta) : Within R (liveTree delta) := by
  unfold liveTree
  refine within_next fun core => ?_
  split <;> infer_instance

/-- The event that a message brings. -/
def delivery : ServerMsg → Option Event
  | .event event => some event
  | .response _ (.committed event) => some event
  | _ => none

theorem within_server_quiet [Receives R] [Streams R] [Fails R] [Loses R] (msg : ServerMsg)
    (quiet : delivery msg = none) : Within R (server msg) := by
  cases msg with
  | event event => cases quiet
  | response id answer =>
    refine within_response_of id answer fun waiting => within_routed_quiet id waiting answer ?_
    intro event same
    subst same
    cases quiet
  | _ =>
    simp only [server]
    infer_instance

instance [Receives R] [Applies R] [Streams R] [Fails R] [Loses R]
    (msg : ServerMsg) : Within R (server msg) := by
  cases msg <;> simp only [server] <;> infer_instance

end Instances

end Nits.ClientCore
