import Nits.ClientCore.Frames.Handle

/-!
# Whole parts of the state

A relation that lets a whole part of the state change lets every routine on that part
run: the content and its fetches, what is shown of the open review, the creation form.
-/

set_option linter.dupNamespace false

namespace Nits.ClientCore

open Logical Logical.Handler Protocol

namespace ClientCore

/-- Everything but the cached content. -/
def uncached (core : ClientCore) : ClientCore :=
  { core with content.cache := .new 0, content.disk := none }

/-- Everything but which keys are wanted and which wait for a slot. -/
def unwanted (core : ClientCore) : ClientCore :=
  { core with
    content.pending := []
    content.queue := []
    content.inFlight := 0 }

/-- The core that waits for the load of a fetch. -/
def loading [Presentation] (core : ClientCore) (fetch : Fetch) : ClientCore :=
  let storage := Presentation.storageKey fetch.key
  { core with
    content.loads :=
      (storage, fetch.key) :: core.content.loads.filter fun entry => entry.1 ≠ storage
    content.pending := markWanted core.content.pending fetch.key (.loading fetch) }

/-- The core whose load was answered. -/
def unloaded (core : ClientCore) (storage : Key) (key : CacheKey) : ClientCore :=
  { core with
    content.loads := core.content.loads.filter fun entry => entry.1 ≠ storage
    content.pending := core.content.pending.filter fun entry => entry.1 ≠ key }

/-- Everything but what is committed, pending and shown of the open review. -/
def unshown (core : ClientCore) : ClientCore × Option (List TreeKey × List RenderKey ×
    Option OpenFile × DiffScope × Option RenderKey × List ResolvedTarget) :=
  ({ core with
      committed := none
      pending := []
      nextClientSeq := 0
      view.review := none
      view.resolvedTargets := [] },
    core.view.review.map fun review => (review.trees, review.files, review.openFile,
      review.scope, review.original, review.scopedTargets))

/-- Everything but the creation form. -/
def formless (core : ClientCore) : ClientCore := { core with view.creating := none }

/-- Everything but the draft and what it holds back. -/
def undeferred (core : ClientCore) : ClientCore :=
  { core with view.draft := none, view.pendingRefresh := false, deferred := [] }

/-- Everything but the events kept for snapshots under way. -/
def unbuffered (core : ClientCore) : ClientCore :=
  { core with snapshotEvents := [], pendingReference := none }

end ClientCore

/-! ## What a relation lets change -/

section Classes

variable [Presentation] (R : ClientCore → List Effect → ClientCore → Prop)

/-- The cache and the disk tier may change, and values may be stored and removed. -/
class Caching : Prop where
  cached {before after : ClientCore} : before.uncached = after.uncached → R before [] after
  persisted (core : ClientCore) (key : CacheKey) (value : CacheValue) :
    R core [.persist (Presentation.storageKey key) (Presentation.encode value)] core
  removed (core : ClientCore) (key : Key) : R core [.remove key] core

/-- Wants, loads and slots may change, and fetches be sent. -/
class Fetching : Prop where
  fetched {before after : ClientCore} : before.unwanted = after.unwanted → R before [] after
  loads (core : ClientCore) (fetch : Fetch) : R core [] (core.loading fetch)
  answered (core : ClientCore) (storage : Key) (key : CacheKey) :
    R core [] (core.unloaded storage key)
  issued (fetch : Fetch) (later : List Fetch) : Within R (issue fetch later)

/-- What is committed, pending and shown may change. -/
class Showing : Prop where
  showed {before after : ClientCore} : before.unshown = after.unshown → R before [] after

/-- The creation form may change. -/
class Forming : Prop where
  formed {before after : ClientCore} : before.formless = after.formless → R before [] after

/-- The draft may change, and hold back events. -/
class Deferring : Prop where
  deferred {before after : ClientCore} : before.undeferred = after.undeferred → R before [] after

/-- Events may be kept for snapshots under way. -/
class Buffering : Prop where
  buffered {before after : ClientCore} : before.unbuffered = after.unbuffered → R before [] after

/-- A snapshot may become the open review. -/
class Opening : Prop where
  opened (core : ClientCore) (snapshot : ReviewSnapshot) (pending : List Pending)
    (suggestions : Table CommentId Suggestion.State) :
    R core [] (core.opened snapshot pending suggestions)

attribute [instance] Fetching.issued

end Classes

section Instances

variable [Presentation] {R : ClientCore → List Effect → ClientCore → Prop} {ε : Type}

/-! ## Content -/

theorem within_fetched [Fetching R] (change : ClientCore → ClientCore)
    (same : ∀ core, core.unwanted = (change core).unwanted) :
    Within R (write change : Handler ClientCore Effect ε Unit) where
  moves core := Fetching.fetched (same core)

theorem within_cached [Caching R] (change : ClientCore → ClientCore)
    (same : ∀ core, core.uncached = (change core).uncached) :
    Within R (write change : Handler ClientCore Effect ε Unit) where
  moves core := Caching.cached (same core)

instance [Caching R] (key : Key) :
    Within R (order (.remove key) : Handler ClientCore Effect ε Unit) where
  moves core := Caching.removed core key

instance [Interface R] [Caching R] (touched : DiskIndex × List CacheKey) :
    Within R (putDisk touched) :=
  within_then _ _ (within_cached _ fun _ => rfl) fun _ => inferInstance

instance [Caching R] (key : CacheKey) (value : CacheValue) :
    Within R (order (.persist (Presentation.storageKey key) (Presentation.encode value)) :
      Handler ClientCore Effect ε Unit) where
  moves core := Caching.persisted core key value

instance [Interface R] [Caching R] (key : CacheKey) (value : CacheValue) :
    Within R (persist key value) := by
  unfold persist
  refine within_next fun core => ?_
  split <;> infer_instance

instance [Interface R] [Caching R] (evicted : List Evicted) : Within R (writeThrough evicted) := by
  unfold writeThrough
  refine @within_each _ _ _ _ R _ _ _ fun gone => within_next fun core => ?_
  split <;> infer_instance

instance [Interface R] [Caching R] (changed : ContentCache × List Evicted) :
    Within R (putCache changed) :=
  within_then _ _ (within_cached _ fun _ => rfl) fun _ => inferInstance

instance [Fetching R] (fetch : Fetch) : Within R (queueUp fetch) :=
  within_fetched _ fun _ => rfl

instance [Course R] [Fetching R] (count : Nat) : Within R (drainUpTo count) := by
  induction count with
  | zero =>
    unfold drainUpTo
    infer_instance
  | succ count rest =>
    unfold drainUpTo
    refine within_next fun _ => ?_
    split
    · split <;> infer_instance
    · infer_instance

instance [Course R] [Fetching R] : Within R drain := by
  unfold drain
  infer_instance

instance [Course R] [Fetching R] (fetch : Fetch) : Within R (enqueue fetch) := by
  unfold enqueue
  infer_instance

instance [Interface R] [Fetching R] (fetch : Fetch) : Within R (load fetch) :=
  within_then _ _ ⟨fun core => Fetching.loads core fetch⟩ fun _ => inferInstance

instance [Fetching R] (storage : Key) (key : CacheKey) :
    Within R (stored.forgetLoad storage key) where
  moves core := Fetching.answered core storage key

instance [Interface R] [Caching R] [Fetching R] : Pins R where
  pins _ := within_cached _ fun _ => rfl
  repins _ := within_cached _ fun _ => rfl
  retains := by
    unfold retainReviewPins
    infer_instance
  releases := by
    unfold reviewClosed
    exact within_then _ _ (within_fetched _ fun _ => rfl) fun _ => inferInstance
  prunes _ := within_fetched _ fun _ => rfl

instance [Fetching R] : Yields R where
  yields _ := within_fetched _ fun _ => rfl

instance [Interface R] [Fetching R] : Wants R where
  wants fetch := by
    unfold want
    infer_instance

instance [Interface R] [Fetching R] : Frees R where
  frees := by
    unfold contentDone
    exact within_then _ _ (within_fetched _ fun _ => rfl) fun _ => inferInstance

instance [Interface R] [Caching R] (key : CacheKey) (value : CacheValue) :
    Within R (insertArrived key value) := by
  unfold insertArrived
  infer_instance

instance [Interface R] [Caching R] [Pins R] [Yields R] [Wants R] : Stores R where
  stores key value via := by
    unfold arrived
    refine within_next fun _ => within_next fun _ => ?_
    split
    · split <;> infer_instance
    · split
      · infer_instance
      · split <;> infer_instance
    · infer_instance

instance [Interface R] [Caching R] [Fetching R] [Stores R] : Restores R where
  recalls key value := by
    unfold stored
    refine within_next fun core => ?_
    split
    · infer_instance
    · refine within_next fun _ => ?_
      · unfold stored.loaded
        split
        · apply within_safely
          split
          · infer_instance
          · refine within_next fun _ => ?_
            split
            · dsimp only
              split <;> infer_instance
            · dsimp only
              split <;> infer_instance
        · infer_instance

/-! ## What is shown -/

omit [Presentation] in
theorem rebased_unshown (core : ClientCore) : core.unshown = core.rebased.unshown := by
  unfold ClientCore.rebased
  split
  next _ shown => simp only [ClientCore.unshown, shown, Option.map_some]
  · rfl

instance [Showing R] : Rebases R where
  rebases := ⟨fun core => Showing.showed (rebased_unshown core)⟩

omit [Presentation] in
theorem within_showed [Showing R] (change : ClientCore → ClientCore)
    (same : ∀ core, core.unshown = (change core).unshown) :
    Within R (write change : Handler ClientCore Effect ε Unit) where
  moves core := Showing.showed (same core)

instance [Showing R] (clientSeq : ClientSeq) : Within R (retirePending clientSeq) :=
  within_showed _ fun _ => rfl

instance [Showing R] (clientSeq : ClientSeq) (delivery : PendingDelivery) :
    Within R (setDelivery clientSeq delivery) :=
  within_showed _ fun _ => rfl

instance [Course R] [Showing R] [Asks R] (pending : Pending) :
    Within R (mutateWith.sent pending) where
  moves core := by
    have noted : R core [] { core with
        nextClientSeq := pending.clientSeq + 1
        pending := core.pending ++ [pending] } := Showing.showed rfl
    exact Course.join noted
      ((Asks.asks (.mutate pending.clientSeq pending.mutation) (.mutate pending.clientSeq)).moves _)

instance [Interface R] [Showing R] [Asks R] : Mutates R where
  shown mutation body := by
    unfold mutateWith
    refine within_next fun _ => within_next fun _ => ?_
    infer_instance
  unshown mutation waiting := ⟨fun core => by
    have numbered : R core [] { core with nextClientSeq := core.nextClientSeq + 1 } :=
      Showing.showed rfl
    exact Course.join numbered ((Asks.asks (.mutate core.nextClientSeq mutation)
      (waiting core.nextClientSeq)).moves _)⟩

instance [Interface R] [Showing R] : Settles R where
  acknowledges clientSeq := by
    unfold mutationCommitted.acknowledge
    infer_instance
  rejects clientSeq error := by
    unfold mutationFailed
    refine within_next fun _ => ?_
    split <;> infer_instance

instance [Interface R] [Showing R] : Discovers R where
  discovers commentId receipt := by
    unfold discoverReceipt
    refine within_next fun _ => ?_
    split
    · infer_instance
    · split
      · refine within_then _ _ (within_showed _ fun _ => rfl) fun _ => ?_
        infer_instance
      · infer_instance

instance [Interface R] [Showing R] [Asks R] : Resends R where
  resends := by
    unfold resend
    refine within_next fun core =>
      within_then _ _ (within_showed _ fun _ => rfl) fun _ => inferInstance

/-! ## The creation form -/

instance [Forming R] (creation : Option ReviewCreation) :
    Within R (setCreating creation) where
  moves _ := Forming.formed rfl

instance [Interface R] [Forming R] [Asks R] : Within R creationDefaults := by
  unfold creationDefaults
  refine within_next fun core => ?_
  split
  · split <;> infer_instance
  · infer_instance

instance [Interface R] [Forming R] [Asks R] (creation : ReviewCreation) :
    Within R (creationEdited creation) := by
  unfold creationEdited
  infer_instance

instance [Interface R] [Forming R] [Mutates R] (reviewId : ReviewId)
    (submission : CreationSubmission) : Within R (sendCreation reviewId submission) := by
  unfold sendCreation
  refine within_next fun core => ?_
  split <;> infer_instance

instance [Interface R] [Forming R] (reviewId : ReviewId)
    (message : String) : Within R (creationFailure reviewId message) := by
  unfold creationFailure
  refine within_next fun core => ?_
  split <;> infer_instance

instance [Interface R] [Forgets R] [Closes R] [Pins R] : Within R showCreation := by
  unfold showCreation
  exact within_then _ _ (within_write _ Forgets.opening) fun _ => inferInstance

instance [Interface R] [Forming R] [Asks R] (reviewId : ReviewId)
    (next : CreationReconcile) : Within R (reconcileCreation reviewId next) := by
  unfold reconcileCreation
  refine within_next fun core => ?_
  split
  · infer_instance
  · split
    · split <;> infer_instance
    · infer_instance

instance [Interface R] [Forming R] [Asks R] : Within R creationReconnected := by
  unfold creationReconnected
  refine within_next fun core => ?_
  split
  · infer_instance
  · refine within_next fun _ => within_next fun core => ?_
    split <;> infer_instance

instance [Forming R] : Within R creationDisconnected where
  moves _ := Forming.formed rfl

instance [Interface R] [Forming R] [Mutates R] (reviewId : ReviewId)
    (error : RpcError) : Within R (creationLookupFailed reviewId error) := by
  unfold creationLookupFailed
  refine within_next fun core => ?_
  split
  · infer_instance
  · split
    · split
      · split <;> infer_instance
      · infer_instance
    · infer_instance

instance [Interface R] [Forming R] (review : Review) : Within R (creationFound review) := by
  unfold creationFound
  refine within_next fun core => ?_
  split
  · infer_instance
  · split <;> infer_instance

instance [Interface R] [Forming R] [Asks R] [Mutates R] [Forgets R] [Closes R]
    [Pins R] : Creates R where
  starts workspaceId := by
    unfold startCreation startCreation.openForm
    refine within_next fun _ => ?_
    split
    · infer_instance
    · split <;> infer_instance
  cancels := by
    unfold cancelNewReview
    infer_instance
  selects reviewId targetId := by
    unfold selectCreationTarget
    refine within_next fun _ => ?_
    split <;> infer_instance
  edits reviewId edit := by
    unfold editCreationField
    refine within_next fun _ => ?_
    split <;> infer_instance
  adds reviewId := by
    unfold addCreationTarget
    refine within_next fun _ => ?_
    split
    · infer_instance
    · dsimp only
      split <;> infer_instance
  removes reviewId := by
    unfold removeCreationTarget
    refine within_next fun _ => ?_
    split
    · infer_instance
    · dsimp only
      split <;> infer_instance
  submits reviewId := by
    unfold submitCreation
    refine within_next fun _ => ?_
    split
    · infer_instance
    · refine within_next fun _ => ?_
      split <;> infer_instance
  reconciles _ _ := inferInstance
  restores creation resume := by
    unfold restoreCreation
    refine within_next fun _ => ?_
    split
    · refine within_then _ _ (within_interface _ fun _ => rfl) fun _ => ?_
      infer_instance
    · infer_instance
  rejects _ _ := inferInstance

instance [Interface R] [Forming R] [Asks R] [Mutates R] : Answers R where
  disconnected := inferInstance
  reconnected := inferInstance
  defaults reviewId repoId answer := by
    unfold creationDefaultAnswer
    refine within_next fun _ => ?_
    split
    · infer_instance
    · split
      · split <;> infer_instance
      · infer_instance
  refuses reviewId error := by
    unfold creationWriteFailed
    refine within_next fun _ => ?_
    split
    · infer_instance
    · split
      · split <;> infer_instance
      · infer_instance
  misses _ _ := inferInstance
  checks reviewId original lookup := by
    unfold creationFailureChecked
    split
    · refine within_next fun _ => ?_
      split
      · infer_instance
      · split <;> infer_instance
    · infer_instance
  finds _ := inferInstance
  observes event := by
    unfold creationObserve
    split <;> infer_instance

/-! ## Events and snapshots -/

instance [Deferring R] : Drafts R where
  drafts _ := ⟨fun _ => Deferring.deferred rfl⟩

instance [Lists R] (body : EventBody) : Within R (listEvent body) where
  moves core := Lists.lists (by cases body <;> rfl)

instance [Buffering R] (event : Event) : Within R (bufferEvent event) where
  moves _ := Buffering.buffered rfl

instance [Buffering R] (id : RequestId) : Within R (forgetBuffer id) where
  moves _ := Buffering.buffered rfl

instance [Interface R] [Deferring R] (event : Event) : Within R (deferEvent event) := by
  unfold deferEvent
  exact within_next fun core =>
    within_then _ _ (within_write _ fun _ => Deferring.deferred rfl) fun _ => inferInstance

instance [Course R] [Showing R] (event : Event) :
    Within R (commitEvent event) where
  moves core := by
    unfold commitEvent
    split
    · exact Course.stay core
    · exact Showing.showed rfl

instance [Interface R] (reviewId : ReviewId) (repoId : RepoId) :
    Within R (closeTargetSelector reviewId repoId) := by
  unfold closeTargetSelector
  infer_instance

instance [Course R] [Files R] [Pins R] [Wants R] [Asks R]
    (reviewId : ReviewId) : Within R (refetchMoved reviewId) := by
  unfold refetchMoved
  refine within_next fun _ => within_next fun core => ?_
  split
  · dsimp only
    refine within_next fun _ => within_next fun core => ?_
    split <;> infer_instance
  · dsimp only
    refine within_next fun _ => within_next fun core => ?_
    split <;> infer_instance

instance [Interface R] [Supersedes R] [Files R] [Showing R] [Pins R] [Wants R]
    [Asks R] (event : Event) : Within R (foldOpen event) := by
  unfold foldOpen
  split
  · dsimp only
    refine within_next fun _ => within_next fun _ => ?_
    infer_instance
  · infer_instance

instance [Interface R] [Lists R] [Closes R] [Supersedes R] [Files R] [Showing R]
    [Pins R] [Wants R] [Asks R] (event : Event) : Within R (foldEvent event) := by
  unfold foldEvent
  refine within_next fun core => within_next fun _ => ?_
  split
  · split <;> infer_instance
  · split
    · split
      · dsimp only
        refine within_next fun _ => within_next fun _ => ?_
        infer_instance
      · infer_instance
    · infer_instance
  · infer_instance

instance [Interface R] [Lists R] [Closes R] [Supersedes R] [Files R] [Showing R]
    [Pins R] [Wants R] [Asks R] [Buffering R] [Deferring R] [Answers R] : Applies R where
  applies event := by
    unfold ClientCore.applyEvent
    refine within_next fun _ => within_next fun _ => ?_
    split
    · refine within_next fun _ => within_next fun _ => ?_
      infer_instance
    · refine within_next fun _ => ?_
      infer_instance

instance [Interface R] [Deferring R] [Applies R] : Within R drainDeferred := by
  unfold drainDeferred
  exact within_next fun core =>
    within_then _ _ (within_write _ fun _ => Deferring.deferred rfl) fun _ => inferInstance

instance [Interface R] [Deferring R] [Mutates R] [Applies R] : Discards R where
  discards := by
    unfold closeDraft
    infer_instance
  postpones threadId reason trackingUrl := by
    unfold deferThread
    refine within_next fun _ => within_next fun _ => ?_
    infer_instance

instance [Interface R] [Buffering R] [Closes R] [Pins R] [Opening R]
    [Showing R] [Asks R] (id : RequestId) (snapshot : ReviewSnapshot) :
    Within R (installSnapshot id snapshot) := by
  unfold installSnapshot
  refine within_next fun _ => within_next fun _ => within_next fun _ => ?_
  refine within_then _ _ (within_write _ fun core => Opening.opened core _ _ _) fun _ => ?_
  infer_instance

instance [Interface R] [Forgets R] [Closes R] [Pins R] [Showing R] : Within R landReference := by
  unfold landReference landReference.land
  refine within_next fun _ => ?_
  split
  · infer_instance
  · refine within_then _ _ (within_write _ Forgets.reference) fun _ => ?_
    split
    · refine within_next fun _ => within_next fun _ => ?_
      split
      · infer_instance
      · split
        · infer_instance
        · infer_instance
        · refine within_next fun _ => ?_
          split <;> infer_instance
    · split
      · infer_instance
      · refine within_then _ _ (within_showed _ fun _ => rfl) fun _ => ?_
        refine within_next fun _ => within_next fun _ => ?_
        split
        · infer_instance
        · split
          · infer_instance
          · infer_instance
          · refine within_next fun _ => ?_
            split <;> infer_instance

instance [Interface R] [Buffering R] [Closes R] [Pins R] [Opening R] [Forgets R]
    [Showing R] [Asks R] : Opens R where
  installs _ _ := inferInstance
  lands := inferInstance

end Instances

end Nits.ClientCore
