import Nits.Logical.Run
import Nits.ClientCore.Overlay
import Nits.ClientCore.Frames.Delivery

/-!
# What is shown is committed plus pending

Every input keeps the overlay sound but one kind: an own event that retires a pending
mutation and is then held back, or is about no open review. It leaves the retired
mutation on screen.
-/

set_option linter.dupNamespace false

namespace Nits.ClientCore

open Logical Logical.Handler Protocol

/-! ## The operations on the core -/

theorem showPending_fst (author : Author) (committed : ReviewSnapshot) (pending : List Pending) :
    (showPending author committed pending).1 =
      overlaid author (pending.map Pending.bare) committed := by
  suffices ∀ touched : Touched, (pending.foldl (fun shown mutation =>
      let touched := applyBody shown.1 ⟨author, mutation.ts⟩ mutation.body
      (touched.1, shown.2 ++ touched.2)) touched).1 =
      overlaid author (pending.map Pending.bare) touched.1 from this (committed, [])
  induction pending with
  | nil => exact fun _ => rfl
  | cons mutation later rest => exact fun touched => rest _

theorem overlay_rebased (core : ClientCore) : core.rebased.overlay = core.overlay.rebased := by
  unfold ClientCore.rebased
  split
  next committed review isCommitted isShown =>
    have shown : core.overlay.shown = some (review.snapshot, review.pending) := by
      simp only [ClientCore.overlay, isShown, Option.map_some]
    rw [Overlay.rebased_some isCommitted shown]
    simp only [ClientCore.overlay, Option.map_some, showPending_fst, Overlay.mirrored,
      List.map_map]
    rfl
  next unpaired =>
    unfold Overlay.rebased
    split
    next committed shown isCommitted isShown =>
      obtain ⟨review, isReview, _⟩ := Option.map_eq_some_iff.mp isShown
      exact absurd isReview (unpaired committed review isCommitted)
    · rfl

theorem overlay_retired (core : ClientCore) (clientSeq : ClientSeq) :
    (retirePending clientSeq core).state.overlay = core.overlay.retired clientSeq := by
  have same : (core.pending.filter fun pending => pending.clientSeq ≠ clientSeq).map Pending.bare =
      (core.pending.map Pending.bare).filter fun mutation => mutation.1 ≠ clientSeq := by
    rw [List.filter_map]
    rfl
  simp only [retirePending, write, ClientCore.overlay, Overlay.retired, same]

theorem overlay_sent (core : ClientCore) (mutation : Mutation) (ts : Timestamp) (body : EventBody) :
    (mutateWith.sent ⟨core.nextClientSeq, ts, mutation, body, .awaitingReceipt⟩ core).state.overlay =
      core.overlay.sent ts body := by
  simp only [mutateWith.sent, request, ClientCore.overlay, ClientCore.asked, Overlay.sent,
    List.map_append]
  rfl

theorem overlay_commitEvent (core : ClientCore) (event : Event) :
    (commitEvent event core).state.overlay =
      core.overlay.recommitted fun committed => (applyEvent committed event).1 := by
  unfold commitEvent
  split
  next none_ => simp only [ClientCore.overlay, Overlay.recommitted, none_, Option.map_none]
  next committed some_ =>
    simp only [ClientCore.overlay, Overlay.recommitted, some_, Option.map_some]

theorem overlay_opened (core : ClientCore) (snapshot : ReviewSnapshot) (pending : List Pending)
    (suggestions : Table CommentId Suggestion.State) :
    (core.opened snapshot pending suggestions).overlay =
      core.overlay.opened snapshot (pending.map Pending.bare) :=
  rfl

/-! ## The relation -/

def ClientCore.Grounded (core : ClientCore) : Prop := core.overlay.Grounded

def ClientCore.Sound (core : ClientCore) : Prop := core.overlay.Sound

/-- A sound overlay stays sound. -/
def KeepsShown (before : ClientCore) (_ : List Effect) (after : ClientCore) : Prop :=
  before.Sound → after.Sound

theorem keepsShown_of_same {before after : ClientCore} {orders : List Effect}
    (same : before.overlay = after.overlay) : KeepsShown before orders after := by
  unfold KeepsShown ClientCore.Sound
  rw [same]
  exact id

/-- What is the same behind a mask that the overlay sees through keeps it sound. -/
theorem keepsShown_behind {before after : ClientCore} (mask : ClientCore → ClientCore)
    (clear : ∀ core, (mask core).overlay = core.overlay) (same : mask before = mask after) :
    KeepsShown before [] after :=
  keepsShown_of_same ((clear before).symm.trans ((congrArg ClientCore.overlay same).trans
    (clear after)))

instance : Course KeepsShown where
  stay _ sound := sound
  join early late sound := late (early sound)

instance : Blind KeepsShown where
  blind kept := kept

theorem within_sameOverlay {ε α : Type} {handler : Handler ClientCore Effect ε α}
    (same : ∀ core, core.overlay = (handler core).state.overlay) : Within KeepsShown handler where
  moves core := keepsShown_of_same (same core)

/-- Changing how far the delivery of pending mutations got leaves them as they are shown. -/
theorem bare_map (change : Pending → Pending) (same : ∀ pending, (change pending).bare = pending.bare)
    (pending : List Pending) : (pending.map change).map Pending.bare = pending.map Pending.bare := by
  rw [List.map_map]
  exact List.map_congr_left fun mutation _ => same mutation

theorem bare_modifyFirst (which : Pending → Bool) (change : Pending → Pending)
    (same : ∀ pending, (change pending).bare = pending.bare) (pending : List Pending) :
    (modifyFirst which change pending).map Pending.bare = pending.map Pending.bare := by
  induction pending with
  | nil => rfl
  | cons mutation later rest =>
    rw [modifyFirst]
    split
    · rw [List.map_cons, List.map_cons, same]
    · rw [List.map_cons, List.map_cons, rest]

section Instances

variable [Presentation]

instance : Interface KeepsShown where
  interface same := keepsShown_behind ClientCore.essence (fun _ => rfl) same
  hosted _ _ _ _ sound := sound

instance : Caching KeepsShown where
  cached same := keepsShown_behind ClientCore.uncached (fun _ => rfl) same
  persisted _ _ _ sound := sound
  removed _ _ sound := sound

instance : Fetching KeepsShown where
  fetched same := keepsShown_behind ClientCore.unwanted (fun _ => rfl) same
  loads _ _ := keepsShown_of_same rfl
  answered _ _ _ := keepsShown_of_same rfl
  issued _ _ := within_sameOverlay fun _ => rfl

instance : Forming KeepsShown where
  formed same := keepsShown_behind ClientCore.formless (fun _ => rfl) same

instance : Buffering KeepsShown where
  buffered same := keepsShown_behind ClientCore.unbuffered (fun _ => rfl) same

instance : Lists KeepsShown where
  lists same := keepsShown_behind ClientCore.homeless (fun _ => rfl) same

instance : Latest KeepsShown where
  latest same := keepsShown_behind ClientCore.unasked (fun _ => rfl) same

instance : Asks KeepsShown where
  asks _ _ := within_sameOverlay fun _ => rfl

instance : Files KeepsShown where
  files core change sameSnapshot samePending := keepsShown_of_same <| by
    simp only [ClientCore.overlay, Option.map_map]
    congr 1
    exact Option.map_congr fun review _ => by
      rw [Function.comp_apply, sameSnapshot, samePending]

instance : Options KeepsShown where
  prefers _ := within_sameOverlay fun _ => rfl
  renders _ := within_sameOverlay fun _ => rfl
  keeps _ _ sound := sound

instance : Forgets KeepsShown where
  reference _ sound := sound
  opening _ sound := sound

instance : Refers KeepsShown where
  refers reference := by
    unfold openReference.askReference
    exact within_next fun _ => within_sameOverlay fun _ => rfl

instance : Supersedes KeepsShown where
  supersedes _ := within_sameOverlay fun _ => rfl

instance : Connects KeepsShown where
  connects _ := within_sameOverlay fun _ => rfl

instance : Contexts KeepsShown where
  contexts context := by
    unfold setReferenceContext
    exact within_then _ _ (within_write _ fun _ sound => sound) fun _ => inferInstance

instance : Drafts KeepsShown where
  drafts _ := within_sameOverlay fun _ => rfl

instance : Drops KeepsShown where
  drops _ := within_sameOverlay fun _ => rfl
  forgets _ := inferInstance
  stands _ _ _ := within_sameOverlay fun _ => rfl

instance : Greets KeepsShown where
  greets _ _ := within_sameOverlay fun _ => rfl

instance : Cancels KeepsShown where
  cancels _ := within_sameOverlay fun _ => rfl

instance : Loses KeepsShown where
  loses := within_sameOverlay fun core => by
    have same := bare_map (fun pending => if pending.delivery = .awaitingReceipt then
      { pending with delivery := .outcomeUnknown } else pending)
      (fun pending => by split <;> rfl) core.pending
    simp only [clearInFlight, write, ClientCore.lost, ClientCore.overlay, same]

instance : Resends KeepsShown where
  resends := by
    unfold resend
    refine within_next fun core => within_then _ _ ?_ fun _ => inferInstance
    refine within_sameOverlay fun core => ?_
    have same := bare_map (fun pending => if pending.delivery = .notAdmitted then
      { pending with delivery := .awaitingReceipt } else pending)
      (fun pending => by split <;> rfl) core.pending
    simp only [write, ClientCore.overlay, same]

instance : Closes KeepsShown where
  closes core _ := core.overlay.closed_sound

instance : Rebases KeepsShown where
  rebases := ⟨fun core sound => by
    have rebuilt : core.rebased.overlay.Sound := by
      rw [overlay_rebased]
      exact sound.toGrounded.rebased
    exact rebuilt⟩

/-! ## Routines that rebuild what is shown -/

omit [Presentation] in
/-- Whatever keeps the overlay sound leads from a sound one to a sound one. -/
theorem leads_kept {α : Type} {handler : Client α} (within : Within KeepsShown handler) :
    Leads ClientCore.Sound handler ClientCore.Sound :=
  leads_within KeepsShown within fun _ _ _ kept => kept

omit [Presentation] in
theorem leads_rebase : Leads ClientCore.Grounded rebase ClientCore.Sound := by
  intro core grounded
  have rebuilt := grounded.rebased
  rwa [← overlay_rebased] at rebuilt

omit [Presentation] in
/-- What changes under a sound overlay shows when it is rebuilt. -/
theorem within_rebuilt {mark : Client Unit} {next : Unit → List ViewSection → Client Unit}
    (marks : Leads ClientCore.Sound mark ClientCore.Grounded)
    (later : ∀ done sections, Within KeepsShown (next done sections)) :
    Within KeepsShown (mark >>= fun done => rebase >>= next done) :=
  ⟨leads_then _ marks fun done => leads_then _ leads_rebase fun sections =>
    leads_kept (later done sections)⟩

omit [Presentation] in
theorem leads_retirePending (clientSeq : ClientSeq) :
    Leads ClientCore.Grounded (retirePending clientSeq) ClientCore.Grounded := by
  intro core grounded
  unfold ClientCore.Grounded
  rw [overlay_retired]
  exact grounded.retired clientSeq

instance : Mutates KeepsShown where
  shown mutation body := by
    have sends (core : ClientCore) : Leads (fun state => state = core ∧ state.Sound)
        (mutateWith.sent ⟨core.nextClientSeq, core.metaNow.ts, mutation, body, .awaitingReceipt⟩)
        ClientCore.Grounded := by
      rintro _ ⟨rfl, sound⟩
      unfold ClientCore.Grounded
      rw [overlay_sent]
      exact sound.toGrounded.sent _ body
    unfold mutateWith
    exact ⟨leads_read fun core sound => leads_then _
      ((sends core).mono (fun _ same => ⟨same, same ▸ sound⟩) fun _ grounded => grounded)
      fun _ => leads_then _ leads_rebase fun _ => leads_kept inferInstance⟩
  unshown mutation waiting := ⟨fun core sound => {
    ordered := sound.ordered
    numbered := fun pending isPending => Nat.lt_succ_of_lt (sound.numbered pending isPending)
    based := sound.based
    moving := sound.moving
    shows := sound.shows }⟩

instance (clientSeq : ClientSeq) (delivery : PendingDelivery) :
    Within KeepsShown (setDelivery clientSeq delivery) :=
  within_sameOverlay fun core => by
    have same := bare_modifyFirst (fun pending => pending.clientSeq = clientSeq)
      (fun pending => { pending with delivery }) (fun _ => rfl) core.pending
    simp only [setDelivery, write, ClientCore.overlay, same]

instance : Settles KeepsShown where
  acknowledges clientSeq := by
    unfold mutationCommitted.acknowledge
    exact within_rebuilt ((leads_retirePending clientSeq).mono (fun _ sound => sound.toGrounded)
      fun _ grounded => grounded) fun _ _ => inferInstance
  rejects clientSeq failure := by
    unfold mutationFailed
    refine within_next fun core => ?_
    dsimp only
    have marked (delivery : PendingDelivery) :
        Leads ClientCore.Sound (setDelivery clientSeq delivery) ClientCore.Grounded :=
      (leads_kept inferInstance).mono (fun _ sound => sound) fun _ sound => sound.toGrounded
    split
    · exact within_rebuilt (marked _) fun _ _ => inferInstance
    · exact within_rebuilt (marked _) fun _ _ => inferInstance
    · exact within_rebuilt ((leads_retirePending clientSeq).mono (fun _ sound => sound.toGrounded)
        fun _ grounded => grounded) fun _ _ => inferInstance

omit [Presentation] in
/-- Putting a changed committed snapshot of the same review grounds the overlay. -/
theorem grounded_recommitted {core : ClientCore} (sound : core.Sound) {committed next : ReviewSnapshot}
    (isCommitted : core.committed = some committed) (same : next.review.id = committed.review.id) :
    ({ core with committed := some next } : ClientCore).Grounded where
  ordered := sound.ordered
  numbered := sound.numbered
  based := by
    intro shown isShown
    obtain ⟨other, isOther, named⟩ := sound.based shown isShown
    obtain rfl := Option.some.inj (isOther.symm.trans isCommitted)
    exact ⟨next, rfl, same.trans named⟩
  moving := sound.moving

instance : Discovers KeepsShown where
  discovers commentId receipt := by
    unfold discoverReceipt
    refine ⟨leads_read fun core sound => ?_⟩
    split
    · exact leads_pure _ fun _ same => same ▸ sound
    next committed isCommitted =>
      refine leads_ite (fun _ => ?_) fun _ => leads_pure _ fun _ same => same ▸ sound
      refine leads_then _ (leads_write _ ?_) fun _ => leads_then _ leads_rebase fun _ =>
        leads_kept inferInstance
      rintro _ rfl
      exact grounded_recommitted sound isCommitted rfl

/-! ## Snapshots -/

/-- The overlay and what decides how an event is taken. -/
def ClientCore.stake (core : ClientCore) : Overlay × Option Draft × ClientId :=
  (core.overlay, core.view.draft, core.config.clientId)

/-- Nothing that is at stake changes. -/
def SameStake (before : ClientCore) (_ : List Effect) (after : ClientCore) : Prop :=
  before.stake = after.stake

omit [Presentation] in
theorem sameStake_behind {before after : ClientCore} (mask : ClientCore → ClientCore)
    (clear : ∀ core, (mask core).stake = core.stake) (same : mask before = mask after) :
    SameStake before [] after :=
  (clear before).symm.trans ((congrArg ClientCore.stake same).trans (clear after))

instance : Course SameStake where
  stay _ := rfl
  join early late := early.trans late

instance : Interface SameStake where
  interface same := sameStake_behind ClientCore.essence (fun _ => rfl) same
  hosted _ _ _ _ := rfl

instance : Caching SameStake where
  cached same := sameStake_behind ClientCore.uncached (fun _ => rfl) same
  persisted _ _ _ := rfl
  removed _ _ := rfl

instance : Fetching SameStake where
  fetched same := sameStake_behind ClientCore.unwanted (fun _ => rfl) same
  loads _ _ := rfl
  answered _ _ _ := rfl
  issued _ _ := ⟨fun _ => rfl⟩

instance : Lists SameStake where
  lists same := sameStake_behind ClientCore.homeless (fun _ => rfl) same

instance : Forming SameStake where
  formed same := sameStake_behind ClientCore.formless (fun _ => rfl) same

instance : Buffering SameStake where
  buffered same := sameStake_behind ClientCore.unbuffered (fun _ => rfl) same

instance : Asks SameStake where
  asks _ _ := ⟨fun _ => rfl⟩

instance : Supersedes SameStake where
  supersedes _ := ⟨fun _ => rfl⟩

instance : Files SameStake where
  files core change sameSnapshot samePending := by
    simp only [SameStake, ClientCore.stake, ClientCore.overlay, Option.map_map]
    congr 2
    exact Option.map_congr fun review _ => by
      rw [Function.comp_apply, sameSnapshot, samePending]

omit [Presentation] in
/-- What changes nothing at stake keeps whatever depends on the stake only. -/
theorem leads_sameStake {α : Type} {handler : Client α} (within : Within SameStake handler)
    (property : Overlay × Option Draft × ClientId → Prop) :
    Leads (fun core => property core.stake) handler fun core => property core.stake :=
  leads_within SameStake within fun _ _ _ same held => Eq.mp (congrArg property same) held

/-- Closing the review leaves nothing of it. -/
theorem leads_closeReview (overlay : Overlay) :
    Leads (fun core => core.overlay = overlay) closeReview
      fun core => core.overlay = overlay.closed := by
  refine leads_then (fun core => core.overlay = overlay.closed) ?_ fun _ =>
    leads_sameStake inferInstance fun stake => stake.1 = overlay.closed
  rintro core rfl
  rfl

theorem within_shown_installSnapshot (id : RequestId) (snapshot : ReviewSnapshot) :
    Within KeepsShown (installSnapshot id snapshot) := by
  unfold installSnapshot
  refine ⟨leads_read fun core sound => ?_⟩
  refine leads_then (fun state => state.overlay = core.overlay) (by rintro _ rfl; rfl) fun _ =>
    leads_then _ (leads_closeReview core.overlay) fun _ =>
    leads_then ClientCore.Grounded (leads_write _ ?_) fun _ =>
    leads_then _ leads_rebase fun _ => leads_kept inferInstance
  intro state closed
  unfold ClientCore.Grounded
  rw [overlay_opened, closed]
  have replaced := sound.toGrounded.replaced (core.arriving id snapshot)
    (core.committed.any fun committed =>
      committed.review.id = (core.arriving id snapshot).review.id)
  have same : ∀ survives : Bool, (if survives then core.pending else []).map Pending.bare =
      if survives then core.overlay.pending else [] := by
    rintro (_ | _) <;> rfl
  rwa [same]

omit [Presentation] in
/-- Advancing a snapshot keeps the identity of its review. -/
theorem advanced_review_id {committed next : ReviewSnapshot} {events : List Event}
    (advances : advanced committed events = some next) : next.review.id = committed.review.id := by
  induction events generalizing committed with
  | nil =>
    obtain rfl := Option.some.inj advances
    rfl
  | cons event later rest =>
    unfold advanced at advances
    split at advances
    · split at advances
      · cases advances
      · exact (rest advances).trans (applyEvent_review_id committed event)
    · exact rest advances

theorem leads_land (reference : ReviewReference) :
    Leads ClientCore.Grounded (landReference.land reference) ClientCore.Sound := by
  unfold landReference.land
  exact leads_then _ leads_rebase fun _ => leads_kept (by
    refine within_next fun _ => ?_
    split
    · infer_instance
    · split
      · infer_instance
      · infer_instance
      · refine within_next fun _ => ?_
        split <;> infer_instance)

theorem within_shown_landReference : Within KeepsShown landReference := by
  unfold landReference
  refine ⟨leads_read fun core sound => ?_⟩
  have forgotten : ({ core with pendingReference := none } : ClientCore).Sound := sound
  split
  · exact leads_pure _ fun _ same => same ▸ sound
  next reference events _ =>
    refine leads_then (fun state => state = { core with pendingReference := none })
      (leads_write _ (by rintro _ rfl; rfl)) fun _ => ?_
    split
    · exact (leads_land reference).mono (fun _ same => same ▸ forgotten.toGrounded) fun _ => id
    next committed isCommitted =>
      split
      · exact (leads_kept inferInstance).mono (fun _ same => same ▸ forgotten) fun _ => id
      next next advances =>
        refine leads_then _ (leads_write _ ?_) fun _ => leads_land reference
        rintro _ rfl
        exact grounded_recommitted forgotten isCommitted (advanced_review_id advances)

instance : Opens KeepsShown where
  installs := within_shown_installSnapshot
  lands := within_shown_landReference

/-! ## Events -/

end Instances

namespace ClientCore

/-- An own event that retires a pending mutation of the open review without being folded
into it: it is held back, or is about no open review. -/
def Strands (core : ClientCore) (event : Event) : Prop :=
  event.clientId = core.config.clientId ∧
    (∃ pending ∈ core.pending, pending.clientSeq = event.clientSeq) ∧
    core.view.review.isSome ∧ (core.defers event.body ∨ ¬ core.concernsOpen event.body)

end ClientCore

/-! ## How an event is taken depends on the stake -/

theorem isOpen_stake {core other : ClientCore} (same : core.stake = other.stake)
    (reviewId : ReviewId) : core.isOpen reviewId = other.isOpen reviewId := by
  have seen (core : ClientCore) : core.isOpen reviewId =
      core.stake.1.shown.any fun shown => shown.1.review.id = reviewId := by
    simp only [ClientCore.isOpen, ClientCore.stake, ClientCore.overlay, Option.any_map]
  rw [seen, seen, same]

theorem defers_stake {core other : ClientCore} (same : core.stake = other.stake)
    (body : EventBody) : core.defers body = other.defers body := by
  have draft : core.view.draft = other.view.draft := congrArg (fun stake => stake.2.1) same
  cases body with
  | reviewTargetsResolved reviewId targets =>
    simp only [ClientCore.defers, isOpen_stake same, draft]
  | _ => rfl

theorem concernsOpen_stake {core other : ClientCore} (same : core.stake = other.stake)
    (body : EventBody) : core.concernsOpen body = other.concernsOpen body := by
  have committed : core.committed = other.committed :=
    congrArg (fun stake => stake.1.committed) same
  simp only [ClientCore.concernsOpen, committed]

theorem strands_stake {core other : ClientCore} (same : core.stake = other.stake)
    {event : Event} (strands : core.Strands event) : other.Strands event := by
  obtain ⟨own, ⟨pending, isPending, retires⟩, shown, unfolded⟩ := strands
  have clientId : core.config.clientId = other.config.clientId :=
    congrArg (fun stake => stake.2.2) same
  have bare : core.pending.map Pending.bare = other.pending.map Pending.bare :=
    congrArg (fun stake => stake.1.pending) same
  have both : (core.view.review.map fun review => (review.snapshot, review.pending)) =
      other.view.review.map fun review => (review.snapshot, review.pending) :=
    congrArg (fun stake => stake.1.shown) same
  refine ⟨own.trans clientId, ?_, ?_, ?_⟩
  · have among : pending.bare ∈ other.pending.map Pending.bare :=
      bare ▸ List.mem_map_of_mem isPending
    obtain ⟨twin, isTwin, alike⟩ := List.mem_map.mp among
    exact ⟨twin, isTwin, (congrArg Prod.fst alike).trans retires⟩
  · rw [← Option.isSome_map, ← both, Option.isSome_map]
    exact shown
  · rwa [← defers_stake same, ← concernsOpen_stake same]

/-! ## Folding an event in -/

section Folding

variable [Presentation] {reviewId : ReviewId}

omit [Presentation] in
theorem stake_commitEvent (core : ClientCore) (event : Event) :
    (commitEvent event core).state.stake =
      (core.overlay.recommitted fun committed => (applyEvent committed event).1, core.stake.2) := by
  rw [← overlay_commitEvent]
  unfold commitEvent
  split <;> rfl

omit [Presentation] in
theorem stake_rebase (core : ClientCore) :
    (rebase core).state.stake = (core.overlay.rebased, core.stake.2) := by
  rw [← overlay_rebased]
  unfold rebase ClientCore.rebased
  dsimp only
  split <;> rfl

/-- Folding an event of the open review commits it and shows it. -/
theorem leads_foldOpen (event : Event) (stake : Overlay × Option Draft × ClientId) :
    Leads (fun core => core.stake = stake) (foldOpen event)
      fun core => core.stake = (stake.1.folded event, stake.2) := by
  have unmoved {α : Type} {handler : Client α} (stake : Overlay × Option Draft × ClientId)
      (within : Within SameStake handler) :
      Leads (fun core => core.stake = stake) handler fun core => core.stake = stake :=
    leads_sameStake within fun other => other = stake
  have rest {ending : Client Unit} (still : Within SameStake ending) :
      Leads (fun core => core.stake = stake) (do
        let touched ← commitEvent event
        let shown ← rebase
        render (touched ++ shown)
        ending) fun core => core.stake = (stake.1.folded event, stake.2) := by
    refine leads_then (fun core => core.stake =
      (stake.1.recommitted fun committed => (applyEvent committed event).1, stake.2)) ?_
      fun touched => leads_then _ ?_ fun shown =>
        unmoved _ (within_next fun _ => still)
    · rintro core rfl
      exact stake_commitEvent core event
    · intro core committed
      rw [stake_rebase, congrArg Prod.snd committed]
      exact congrArg (fun overlay => (overlay, stake.2))
        (congrArg Overlay.rebased (congrArg Prod.fst committed))
  unfold foldOpen
  dsimp only
  split
  · refine leads_then _ (unmoved _ inferInstance) fun _ => leads_then _ (unmoved _ ?_) fun _ =>
      leads_then _ (unmoved _ inferInstance) fun _ => rest inferInstance
    exact ⟨fun core => Files.files core _ (fun _ => rfl) fun _ => rfl⟩
  · refine rest ?_
    split <;> infer_instance

/-- An event may be folded in when it is about the open review, or finds everything
shown. -/
def ClientCore.Ready (core : ClientCore) (body : EventBody) : Prop :=
  core.Grounded ∧ (core.concernsOpen body ∨ core.Sound)

omit [Presentation] in
theorem ready_stake {core other : ClientCore} (same : core.stake = other.stake)
    (body : EventBody) (ready : core.Ready body) : other.Ready body := by
  have overlay : core.overlay = other.overlay := congrArg Prod.fst same
  unfold ClientCore.Ready ClientCore.Grounded ClientCore.Sound at ready ⊢
  rwa [← overlay, ← concernsOpen_stake same]

omit [Presentation] in
theorem leads_ready {α : Type} {handler : Client α} (within : Within SameStake handler)
    (body : EventBody) : Leads (fun core => core.Ready body) handler fun core => core.Ready body :=
  leads_within SameStake within fun _ _ _ same ready => ready_stake same body ready

theorem leads_ready_closeReview (body : EventBody) :
    Leads (fun core => core.Ready body) closeReview fun core => core.Ready body := by
  intro core _
  have closed : (closeReview core).state.overlay = core.overlay.closed :=
    leads_closeReview core.overlay core rfl
  have sound : (closeReview core).state.Sound := by
    unfold ClientCore.Sound
    rw [closed]
    exact core.overlay.closed_sound
  exact ⟨sound.toGrounded, .inr sound⟩

theorem leads_foldEvent (event : Event) :
    Leads (fun core => core.Ready event.body) (foldEvent event) ClientCore.Sound := by
  have rest : Leads (fun core => core.Ready event.body) (do
      let core ← read
      if core.concernsOpen event.body then foldOpen event else pure () : Client Unit)
      ClientCore.Sound := by
    refine leads_read fun core ready => leads_ite (fun _ => ?_) fun unconcerned => ?_
    · refine (leads_foldOpen event core.stake).mono (fun _ same => same ▸ rfl) fun _ folds => ?_
      exact Eq.mpr (congrArg Overlay.Sound (congrArg Prod.fst folds)) (ready.1.folded event)
    · exact leads_pure _ fun _ same => same ▸ ready.2.resolve_left unconcerned
  unfold foldEvent
  refine leads_read fun core ready => ?_
  refine leads_then (fun core : ClientCore => core.Ready event.body) ?_ fun _ => ?_
  · exact (leads_ready inferInstance event.body).mono (fun _ same => same ▸ ready) fun _ => id
  · refine leads_when (fun core : ClientCore => core.Ready event.body)
      (fun _ => leads_ready inferInstance _) (fun _ _ ready => ready) ?_
    split
    · exact leads_then _ (leads_ready inferInstance _) fun _ => rest
    · refine leads_ite (fun _ => ?_) fun _ => rest
      exact leads_then _ (leads_ready_closeReview _) fun _ =>
        leads_then _ (leads_ready inferInstance _) fun _ => rest
    · exact rest

/-- An event may be taken when everything is shown, or when it will be folded in. -/
def ClientCore.Takes (core : ClientCore) (body : EventBody) : Prop :=
  core.Grounded ∧ (core.Sound ∨ ¬ core.defers body ∧ core.concernsOpen body)

omit [Presentation] in
theorem isOpen_open {core : ClientCore} (opened : core.isOpen reviewId) :
    core.overlay.Open reviewId := by
  unfold ClientCore.isOpen at opened
  cases isShown : core.view.review with
  | none =>
    rw [isShown] at opened
    cases opened
  | some review =>
    rw [isShown] at opened
    refine ⟨(review.snapshot, review.pending), ?_, of_decide_eq_true opened⟩
    simp only [ClientCore.overlay, isShown, Option.map_some]

omit [Presentation] in
/-- Only a moved target of the open review is held back. -/
theorem defers_moves {core : ClientCore} {event : Event} (defers : core.defers event.body) :
    core.overlay.Moves event := by
  cases body : event.body with
  | reviewTargetsResolved reviewId targets =>
    rw [body] at defers
    have both : core.isOpen reviewId ∧ core.view.draft.isSome := by
      simpa [ClientCore.defers] using defers
    exact ⟨reviewId, targets, body, isOpen_open both.1⟩
  | _ =>
    rw [body] at defers
    cases defers

omit [Presentation] in
theorem leads_deferEvent {event : Event} {core : ClientCore} (sound : core.Sound)
    (defers : core.defers event.body) :
    Leads (fun state => state = core) (deferEvent event) ClientCore.Sound := by
  unfold deferEvent
  refine leads_read fun now same => ?_
  subst same
  refine leads_then _ (leads_write _ ?_) fun _ => leads_kept inferInstance
  rintro _ rfl
  exact sound.held (defers_moves defers)

/-- The stake once an event of this client has retired what it answers. -/
def ClientCore.answeredStake (core : ClientCore) (event : Event) :
    Overlay × Option Draft × ClientId :=
  (core.overlay.answered core.config.clientId event, core.stake.2)

/-- Taking an event retires what it answers, and then either holds it back or folds it in. -/
theorem applyEvent_answered {event : Event} {core : ClientCore} (post : ClientCore → Prop)
    (taken : Leads (fun state => state.stake = core.answeredStake event) (do
      let core ← read
      if core.defers event.body then deferEvent event else foldEvent event : Client Unit) post) :
    post (ClientCore.applyEvent event core).state := by
  have observes : Within SameStake (creationObserve event) := by
    unfold creationObserve
    split <;> infer_instance
  have unmoved {α : Type} {handler : Client α} (within : Within SameStake handler) :
      Leads (fun state => state.stake = core.stake) handler fun state => state.stake = core.stake :=
    leads_sameStake within fun stake => stake = core.stake
  have whole : Leads (fun state => state.stake = core.stake) (ClientCore.applyEvent event) post := by
    unfold ClientCore.applyEvent
    refine leads_then _ (unmoved inferInstance) fun _ => leads_then _ (unmoved observes)
      fun observed => ?_
    refine leads_when _ (fun _ => unmoved inferInstance) (fun _ _ => id) ?_
    refine leads_read fun now same => ?_
    have clientId : now.config.clientId = core.config.clientId :=
      congrArg (fun stake => stake.2.2) same
    have overlay : now.overlay = core.overlay := congrArg Prod.fst same
    refine leads_when _ (fun own => ?_) (fun foreign => ?_) taken
    · rintro state rfl
      have retired := overlay_retired state event.clientSeq
      rw [overlay] at retired
      unfold ClientCore.answeredStake Overlay.answered
      rw [if_pos (own.trans clientId), ← retired]
      exact congrArg (fun rest => (_, rest)) (congrArg Prod.snd same)
    · rintro state rfl
      unfold ClientCore.answeredStake Overlay.answered
      rw [if_neg fun own => foreign (own.trans clientId.symm)]
      exact same
  exact whole core rfl

omit [Presentation] in
/-- How an event is taken does not depend on the mutation it retires. -/
theorem answered_decides {event : Event} {core state : ClientCore}
    (same : state.stake = core.answeredStake event) :
    state.defers event.body = core.defers event.body ∧
      state.concernsOpen event.body = core.concernsOpen event.body := by
  have rest := congrArg Prod.snd same
  have retired : (retirePending event.clientSeq core).state.defers event.body =
      core.defers event.body := by
    cases event.body <;> rfl
  by_cases own : event.clientId = core.config.clientId
  · have stake : state.stake = (retirePending event.clientSeq core).state.stake := by
      rw [same, ClientCore.answeredStake, Overlay.answered, if_pos own, ← overlay_retired]
      rfl
    exact ⟨(defers_stake stake _).trans retired, concernsOpen_stake stake _⟩
  · have stake : state.stake = core.stake := by
      rw [same, ClientCore.answeredStake, Overlay.answered, if_neg own]
      rfl
    exact ⟨defers_stake stake _, concernsOpen_stake stake _⟩

omit [Presentation] in
/-- An event that strands nothing is ready to be taken once it has retired its mutation. -/
theorem answered_takes {event : Event} {core state : ClientCore} (sound : core.Sound)
    (kept : ¬ core.Strands event) (same : state.stake = core.answeredStake event) :
    state.Takes event.body := by
  have overlay : state.overlay = core.overlay.answered core.config.clientId event :=
    congrArg Prod.fst same
  have grounded : state.Grounded := by
    unfold ClientCore.Grounded
    rw [overlay]
    exact sound.toGrounded.answered core.config.clientId event
  have soundly (still : core.overlay.answered core.config.clientId event = core.overlay) :
      state.Takes event.body := by
    refine ⟨grounded, .inl ?_⟩
    unfold ClientCore.Sound
    rw [overlay, still]
    exact sound
  obtain ⟨defers, concerns⟩ := answered_decides same
  by_cases own : event.clientId = core.config.clientId
  swap
  · exact soundly (if_neg own)
  by_cases retires : ∃ pending ∈ core.pending, pending.clientSeq = event.clientSeq
  swap
  · refine soundly ((if_pos own).trans (Overlay.retired_absent ?_))
    intro mutation isPending same
    obtain ⟨pending, isOld, rfl⟩ := List.mem_map.mp isPending
    exact retires ⟨pending, isOld, same⟩
  cases isShown : core.view.review with
  | none =>
    refine ⟨grounded, .inl (grounded.unshown ?_)⟩
    rw [overlay, Overlay.answered, if_pos own]
    simp only [Overlay.retired, ClientCore.overlay, isShown, Option.map_none]
  | some review =>
    have shown : core.view.review.isSome := by rw [isShown]; rfl
    refine ⟨grounded, .inr ?_⟩
    rw [defers, concerns]
    by_contra folds
    refine kept ⟨own, retires, shown, ?_⟩
    by_cases holds : core.defers event.body
    · exact .inl holds
    · exact .inr fun concerned => folds ⟨holds, concerned⟩

/-- An event that finds everything shown leaves everything shown, unless it strands a
pending mutation. -/
theorem applyEvent_sound {event : Event} {core : ClientCore} (sound : core.Sound)
    (kept : ¬ core.Strands event) : (ClientCore.applyEvent event core).state.Sound := by
  refine applyEvent_answered ClientCore.Sound (leads_read fun now same => ?_)
  have takes := answered_takes sound kept same
  refine leads_ite (fun defers => ?_) fun undeferred => ?_
  · exact leads_deferEvent (takes.2.resolve_right fun folds => folds.1 defers) defers
  · refine (leads_foldEvent event).mono (fun _ same => ?_) fun _ => id
    subst same
    exact ⟨takes.1, takes.2.symm.imp_left And.right⟩

/-! ## Closing a draft -/

/-- A moved target of the open review is committed and shown when no draft is open. -/
theorem leads_foldEvent_moved {event : Event} {targets : NonEmpty ResolvedTarget}
    (body : event.body = .reviewTargetsResolved reviewId targets)
    (stake : Overlay × Option Draft × ClientId)
    (concerns : ∃ committed, stake.1.committed = some committed ∧ committed.review.id = reviewId) :
    Leads (fun core => core.stake = stake) (foldEvent event)
      fun core => core.stake = (stake.1.folded event, stake.2) := by
  have unmoved {handler : Client Unit} (within : Within SameStake handler) :
      Leads (fun core => core.stake = stake) handler fun core => core.stake = stake :=
    leads_sameStake within fun other => other = stake
  have rest : Leads (fun core => core.stake = stake) (do
      let core ← read
      if core.concernsOpen event.body then foldOpen event else pure () : Client Unit)
      fun core => core.stake = (stake.1.folded event, stake.2) := by
    refine leads_read fun core same => leads_ite (fun _ => ?_) fun unconcerned => ?_
    · exact (leads_foldOpen event stake).mono (fun _ now => now ▸ same) fun _ => id
    · obtain ⟨committed, isCommitted, named⟩ := concerns
      have isHere : core.committed = some committed :=
        (congrArg (fun stake => stake.1.committed) same).trans isCommitted
      refine absurd ?_ unconcerned
      simp [ClientCore.concernsOpen, isHere, body, EventBody.reviewId, named]
  unfold foldEvent
  refine leads_read fun core same => ?_
  refine leads_then (fun core => core.stake = stake)
    ((unmoved inferInstance).mono (fun _ now => now ▸ same) fun _ => id) fun _ => ?_
  refine leads_when (fun core => core.stake = stake) (fun _ => unmoved inferInstance)
    (fun _ _ => id) ?_
  rw [body] at rest ⊢
  exact rest

theorem applyEvent_moved {event : Event} {core : ClientCore} (sound : core.Sound)
    (closed : core.view.draft = none) (moves : core.overlay.Moves event) :
    (ClientCore.applyEvent event core).state.stake =
      ((core.overlay.answered core.config.clientId event).folded event, core.stake.2) := by
  obtain ⟨reviewId, targets, body, shown, isShown, named⟩ := moves
  obtain ⟨committed, isCommitted, based⟩ := sound.based shown isShown
  refine applyEvent_answered (fun state => state.stake =
      ((core.overlay.answered core.config.clientId event).folded event, core.stake.2))
    (leads_read fun now same => leads_ite (fun defers => ?_) fun _ => ?_)
  · have draft : now.view.draft = none :=
      (congrArg (fun stake => stake.2.1) same).trans closed
    simp [ClientCore.defers, body, draft] at defers
  · refine (leads_foldEvent_moved body (core.answeredStake event) ?_).mono
      (fun _ now => now ▸ same) fun _ => id
    refine ⟨committed, ?_, based.trans named⟩
    unfold ClientCore.answeredStake Overlay.answered
    dsimp only
    split <;> exact isCommitted

theorem drained_sound (events : List Event) : ∀ core : ClientCore, core.Sound →
    core.view.draft = none → (∀ event ∈ events, core.overlay.Moves event) →
    (each ClientCore.applyEvent events core).state.Sound := by
  induction events with
  | nil => exact fun _ sound _ _ => sound
  | cons event later rest =>
    intro core sound closed moves
    have stake := applyEvent_moved sound closed (moves event List.mem_cons_self)
    have overlay := congrArg Prod.fst stake
    have grounded := sound.toGrounded.answered core.config.clientId event
    rw [each_cons_state]
    refine rest (ClientCore.applyEvent event core).state ?_ ?_ ?_
    · exact Eq.mpr (congrArg Overlay.Sound overlay) (grounded.folded event)
    · exact (congrArg (fun stake => stake.2.1) stake).trans closed
    · intro other isLater
      obtain ⟨reviewId, targets, body, opened⟩ := moves other (List.mem_cons_of_mem _ isLater)
      refine ⟨reviewId, targets, body, ?_⟩
      exact Eq.mpr (congrArg (fun overlay => Overlay.Open overlay reviewId) overlay)
        (Overlay.Open.folded grounded event (Overlay.answered_open.mpr opened))

/-- What a draft held back is folded in once it is closed. -/
theorem leads_drainDeferred :
    Leads (fun core => core.Sound ∧ core.view.draft = none) drainDeferred ClientCore.Sound := by
  unfold drainDeferred
  refine leads_read fun core ⟨sound, closed⟩ => ?_
  have emptied : ({ core with deferred := [], view.pendingRefresh := false } : ClientCore).Sound :=
    ⟨⟨sound.ordered, sound.numbered, sound.based, fun _ isHeld => nomatch isHeld⟩, sound.shows⟩
  refine leads_then (fun state => state = { core with deferred := [], view.pendingRefresh := false })
    (leads_write _ (by rintro _ rfl; rfl)) fun _ => ?_
  refine leads_then (fun state => state = { core with deferred := [], view.pendingRefresh := false })
    (leads_order _ fun _ => id) fun _ => ?_
  rintro _ rfl
  exact drained_sound core.deferred _ emptied closed sound.moving

omit [Presentation] in
theorem leads_undrafted {handler : Client Unit} (within : Within SameStake handler) :
    Leads (fun core => core.Sound ∧ core.view.draft = none) handler
      fun core => core.Sound ∧ core.view.draft = none :=
  leads_sameStake within fun stake => stake.1.Sound ∧ stake.2.1 = none

omit [Presentation] in
theorem leads_setDraft_none :
    Leads ClientCore.Sound (setDraft none) fun core => core.Sound ∧ core.view.draft = none :=
  leads_write _ fun _ sound => ⟨sound, rfl⟩

theorem within_shown_closeDraft : Within KeepsShown closeDraft := by
  unfold closeDraft
  exact ⟨leads_then _ leads_setDraft_none fun _ => leads_then _ (leads_undrafted inferInstance)
    fun _ => leads_then _ (leads_undrafted inferInstance) fun _ => leads_drainDeferred⟩

theorem within_shown_deferThread (threadId : ThreadId) (reason : DeferralReason)
    (trackingUrl : Option TrackingUrl) :
    Within KeepsShown (deferThread threadId reason trackingUrl) := by
  have closes : Within KeepsShown (do
      setDraft none
      leave
      drainDeferred : Client Unit) :=
    ⟨leads_then _ leads_setDraft_none fun _ => leads_then _ (leads_undrafted inferInstance)
      fun _ => leads_drainDeferred⟩
  unfold deferThread
  refine within_next fun reviewId => within_next fun _ =>
    within_next fun core => ?_
  split
  · refine ⟨fun core sound => ?_⟩
    have same : ((do
        setDraft none
        leave
        always drainDeferred : Risky Unit) core).state = ((do
        setDraft none
        leave
        drainDeferred : Client Unit) core).state :=
      always_state _ drainDeferred
    exact Eq.mpr (congrArg ClientCore.Sound same) (closes.moves core sound)
  · infer_instance

instance : Discards KeepsShown where
  discards := within_shown_closeDraft
  postpones := within_shown_deferThread

/-! ## Inputs -/

instance : Receives KeepsShown where

instance : Streams KeepsShown where

instance : Fails KeepsShown where

instance : Acts KeepsShown where

instance : Hosts KeepsShown where

theorem server_sound {msg : ServerMsg} {core : ClientCore} (sound : core.Sound)
    (kept : ∀ event, core.folds msg = some event → ¬ core.Strands event) :
    (server msg core).state.Sound := by
  cases folded : core.folds msg with
  | none => exact server_unfolded (R := KeepsShown) folded sound
  | some event =>
    obtain ⟨ready, same, _, _, folds⟩ := server_folded folded
    have stake : core.stake = ready.stake := (congrArg ClientCore.stake same :)
    have soundReady : ready.Sound := Eq.mp (congrArg Overlay.Sound (congrArg Prod.fst stake)) sound
    have after := applyEvent_sound soundReady fun strands =>
      kept event folded (strands_stake stake.symm strands)
    have left : (server msg core).state.overlay = (ClientCore.applyEvent event ready).state.overlay :=
      (congrArg ClientCore.overlay folds :)
    exact Eq.mpr (congrArg Overlay.Sound left) after

/-- A step that strands a pending mutation: the event it folds in does. -/
def ClientCore.StrandsBy (core : ClientCore) (input : Input) : Prop :=
  ∃ msg event, input = .server msg ∧ core.folds msg = some event ∧ core.Strands event

theorem handle_sound {core : ClientCore} {input : Input} (sound : core.Sound)
    (kept : ¬ core.StrandsBy input) : (handle input core).state.Sound := by
  refine handle_blind (R := KeepsShown) input core ?_ sound
  cases input with
  | server msg =>
    intro sound
    exact server_sound sound fun event folded strands =>
      kept ⟨msg, event, rfl, folded, strands⟩
  | _ =>
    refine (within_route_of _ ?_).moves core
    intro msg same
    cases same

/-! ## A stranded mutation stays on screen -/

/-- Nothing is about to bring a stale view up to date. -/
def ClientCore.Abandoned (core : ClientCore) (body : EventBody) : Prop :=
  core.overlay.Stale ∧ core.Grounded ∧ ¬ core.concernsOpen body

omit [Presentation] in
theorem leads_abandoned {handler : Client Unit} (within : Within SameStake handler)
    (body : EventBody) :
    Leads (fun core => core.Abandoned body) handler fun core => core.Abandoned body :=
  leads_within SameStake within fun before _ after same held => by
    have overlay : before.overlay = after.overlay := congrArg Prod.fst same
    unfold ClientCore.Abandoned ClientCore.Grounded at held ⊢
    rwa [← overlay, ← concernsOpen_stake same]

omit [Presentation] in
/-- The open review is the committed one. -/
theorem concernsOpen_of_isOpen {core : ClientCore} (grounded : core.Grounded) {body : EventBody}
    (about : body.reviewId = some reviewId) (opened : core.isOpen reviewId) :
    core.concernsOpen body := by
  obtain ⟨shown, isShown, named⟩ := isOpen_open opened
  obtain ⟨committed, isCommitted, same⟩ := grounded.based shown isShown
  have isHere : core.committed = some committed := isCommitted
  simp [ClientCore.concernsOpen, isHere, about, same.trans named]

theorem leads_foldEvent_abandoned (event : Event) :
    Leads (fun core => core.Abandoned event.body) (foldEvent event)
      fun core => core.overlay.Stale := by
  have rest : Leads (fun core => core.Abandoned event.body) (do
      let core ← read
      if core.concernsOpen event.body then foldOpen event else pure () : Client Unit)
      fun core => core.overlay.Stale := by
    refine leads_read fun core abandoned => leads_ite (fun concerned => ?_) fun _ => ?_
    · exact absurd concerned abandoned.2.2
    · exact leads_pure _ fun _ same => same ▸ abandoned.1
  unfold foldEvent
  refine leads_read fun core abandoned => ?_
  refine leads_then (fun core : ClientCore => core.Abandoned event.body) ?_ fun _ => ?_
  · exact (leads_abandoned inferInstance _).mono (fun _ same => same ▸ abandoned) fun _ => id
  refine leads_when (fun core : ClientCore => core.Abandoned event.body)
    (fun _ => leads_abandoned inferInstance _) (fun _ _ => id) ?_
  dsimp only
  split
  · exact leads_then _ (leads_abandoned inferInstance _) fun _ => rest
  next reviewId body =>
    refine leads_ite (fun opened => ?_) fun _ => rest
    refine absurd (concernsOpen_of_isOpen abandoned.2.1 ?_ opened) abandoned.2.2
    rw [body]
    rfl
  · exact rest

/-- A stranded mutation stays on screen. -/
theorem applyEvent_stale {event : Event} {core : ClientCore} (sound : core.Sound)
    (strands : core.Strands event) : (ClientCore.applyEvent event core).state.overlay.Stale := by
  obtain ⟨own, ⟨pending, isPending, retires⟩, shown, unfolded⟩ := strands
  have opened : core.overlay.shown.isSome := by
    simpa only [ClientCore.overlay, Option.isSome_map] using shown
  have stale : (core.overlay.answered core.config.clientId event).Stale := by
    rw [Overlay.answered, if_pos own]
    exact sound.stale opened ⟨pending.bare, List.mem_map_of_mem isPending, retires⟩
  refine applyEvent_answered (fun state => state.overlay.Stale) (leads_read fun now same => ?_)
  have staleNow : now.overlay.Stale := Eq.mpr (congrArg Overlay.Stale (congrArg Prod.fst same)) stale
  obtain ⟨defers, concerns⟩ := answered_decides same
  refine leads_ite (fun _ => ?_) fun undeferred => ?_
  · unfold deferEvent
    refine leads_read fun core here => ?_
    subst here
    refine leads_then (fun state => state.overlay.Stale) (leads_write _ ?_) fun _ => ?_
    · rintro _ rfl
      exact staleNow
    · exact leads_sameStake inferInstance fun stake => stake.1.Stale
  · refine (leads_foldEvent_abandoned event).mono (fun _ here => ?_) fun _ => id
    subst here
    refine ⟨staleNow, ?_, ?_⟩
    · have grounded := sound.toGrounded.answered core.config.clientId event
      exact Eq.mpr (congrArg Overlay.Grounded (congrArg Prod.fst same)) grounded
    · rw [concerns]
      exact unfolded.resolve_left (defers ▸ undeferred)

/-- What is derived from the state is not at stake. -/
theorem handle_stake (core : ClientCore) (input : Input) :
    (handle input core).state.stake = (route input core).state.stake := by
  unfold handle
  split
  next ran => rw [ran]
  next orders left ran =>
    rw [ran]
    exact (derive_moves (R := SameStake) left).symm

theorem handle_stale {core : ClientCore} {input : Input} (sound : core.Sound)
    (strands : core.StrandsBy input) : (handle input core).state.overlay.Stale := by
  obtain ⟨msg, event, rfl, folded, strands⟩ := strands
  obtain ⟨ready, same, _, _, folds⟩ := server_folded folded
  have stake : core.stake = ready.stake := (congrArg ClientCore.stake same :)
  have soundReady : ready.Sound := Eq.mp (congrArg Overlay.Sound (congrArg Prod.fst stake)) sound
  have stale := applyEvent_stale soundReady (strands_stake stake strands)
  have left : (server msg core).state.overlay = (ClientCore.applyEvent event ready).state.overlay :=
    (congrArg ClientCore.overlay folds :)
  have derived : (handle (.server msg) core).state.overlay = (server msg core).state.overlay :=
    congrArg Prod.fst (handle_stake core (.server msg))
  exact Eq.mpr (congrArg Overlay.Stale (derived.trans left)) stale

/-! ## Runs -/

/-- The open review is the committed snapshot with the bodies of the pending mutations on
top, in the order of their sending, and its pending list is exactly theirs. -/
structure ClientCore.Shows (core : ClientCore) : Prop where
  ordered : core.pending.Pairwise fun early late => early.clientSeq < late.clientSeq
  shown : ∀ review, core.view.review = some review →
    ∃ committed, core.committed = some committed ∧
      review.snapshot = core.pending.foldl (fun shown pending =>
        (applyBody shown ⟨core.config.author, pending.ts⟩ pending.body).1) committed ∧
      review.pending = core.pending.map Pending.event ∧
      (core.pending = [] → review.snapshot = committed)

omit [Presentation] in
theorem shows_of_sound {core : ClientCore} (sound : core.Sound) : core.Shows where
  ordered := by
    have ordered := List.pairwise_map.mp sound.ordered
    exact ordered
  shown := by
    intro review isShown
    obtain ⟨committed, isCommitted, same⟩ := sound.shows (review.snapshot, review.pending) (by
      simp only [ClientCore.overlay, isShown, Option.map_some])
    have snapshot : review.snapshot = overlaid core.config.author
        (core.pending.map Pending.bare) committed := congrArg Prod.fst same
    have pending : review.pending = (core.pending.map Pending.bare).map fun mutation =>
        ⟨mutation.1, mutation.2.2⟩ := congrArg Prod.snd same
    refine ⟨committed, isCommitted, ?_, ?_, fun empty => ?_⟩
    · rw [snapshot, overlaid, List.foldl_map]
      rfl
    · rw [pending, List.map_map]
      rfl
    · rw [snapshot, empty]
      rfl

omit [Presentation] in
theorem not_shows_of_stale {core : ClientCore} (stale : core.overlay.Stale) : ¬ core.Shows := by
  intro shows
  obtain ⟨shown, isShown, listed, isListed, unlike⟩ := stale
  obtain ⟨review, isReview, rfl⟩ := Option.map_eq_some_iff.mp isShown
  obtain ⟨committed, _, _, pending, _⟩ := shows.shown review isReview
  rw [pending] at isListed
  obtain ⟨mutation, isPending, rfl⟩ := List.mem_map.mp isListed
  exact unlike mutation.bare (List.mem_map_of_mem isPending) rfl

omit [Presentation] in
theorem new_sound (config : Config) : (ClientCore.new config).Sound where
  ordered := List.Pairwise.nil
  numbered _ isPending := nomatch isPending
  based _ isShown := nomatch isShown
  moving _ isHeld := nomatch isHeld
  shows _ isShown := nomatch isShown

/-- In a run the open review is shown as committed plus pending in every state exactly when
no step strands a pending mutation. -/
theorem run_shows_iff (config : Config) (inputs : List Input) :
    (∀ early, early <+: inputs → ((ClientCore.new config).run early).Shows) ↔
      ∀ early input, early ++ [input] <+: inputs →
        ¬ ((ClientCore.new config).run early).StrandsBy input :=
  Run.always_iff_steps (fun core input => (handle input core).state)
    (fun _ _ sound kept => handle_sound sound kept) (fun _ sound => shows_of_sound sound)
    (fun _ _ sound shows strands => not_shows_of_stale (handle_stale sound strands) shows)
    (new_sound config)

end Folding

/-- A note is pending and another one is being written when an own event moves the targets. -/
def strandingRun : List Input :=
  ClientCore.visit (plainReview 4) ++
    [.user .informationalNoteOpened, .user (.draftSubmitted "note"),
      .user .informationalNoteOpened,
      .server (.event {
        seq := 5, ts := 0, author := ClientCore.fresh.config.author
        clientId := ClientCore.fresh.config.clientId, clientSeq := 1
        body := .reviewTargetsResolved ⟨7⟩
          (.singleton ⟨⟨3⟩, ⟨⟨1⟩, .commit ⟨1⟩⟩, ⟨⟨1⟩, .commit ⟨1⟩⟩⟩) })]

/-- How many mutations are pending, and how many the view lists. -/
def ClientCore.pendingCounts (core : ClientCore) : Nat × Option Nat :=
  (core.pending.length, core.view.review.map fun review => review.pending.length)

theorem pendingCounts_of_shows {core : ClientCore} (shows : core.Shows) {count : Nat}
    (listed : core.pendingCounts.2 = some count) : core.pendingCounts.1 = count := by
  obtain ⟨review, isShown, lists⟩ := Option.map_eq_some_iff.mp listed
  obtain ⟨_, _, _, pending, _⟩ := shows.shown review isShown
  rwa [pending, List.length_map] at lists

/-- The note is not pending any more, and is still shown as if it were. -/
theorem strandingRun_not_shown :
    let _ : Presentation := .plain
    ¬ (ClientCore.fresh.run strandingRun).Shows := by
  intro _ shows
  have counts : (ClientCore.fresh.run strandingRun).pendingCounts = (0, some 1) := by
    decide +kernel
  have same := pendingCounts_of_shows shows (congrArg Prod.snd counts)
  rw [counts] at same
  cases same

end Nits.ClientCore
