import Mathlib.Data.List.Dedup
import Nits.ClientCore.Frames.Delivery

/-!
# One fetch for each key

A wanted key is marked until its value arrives, and a marked key is not wanted again. The
mark stands for the fetch only as long as nothing else removes it: a value that comes by
another way removes the mark of a fetch that still waits for a slot, and an evicted value
can be wanted while its fetch is out. On runs in which neither happens, each key has at
most one fetch under way.
-/

set_option linter.dupNamespace false

namespace Nits.ClientCore

open Logical Logical.Handler Protocol

namespace ClientCore

/-! ## The fetches under way -/

/-- The keys that the host was asked to load. -/
def loadingKeys (core : ClientCore) : List CacheKey :=
  core.content.pending.filterMap fun entry => match entry.2 with
    | .loading fetch => some fetch.key
    | .queued | .requested => none

/-- The keys whose fetches wait for a slot. -/
def queuedKeys (core : ClientCore) : List CacheKey := core.content.queue.map Fetch.key

/-- The keys that the requests under way fill. -/
def sentKeys (core : ClientCore) : List CacheKey :=
  core.inFlight.filterMap fun entry => entry.2.key

/-- The key of each fetch that is loading, queued, or sent and unanswered. -/
def fetchedKeys (core : ClientCore) : List CacheKey :=
  core.loadingKeys ++ core.queuedKeys ++ core.sentKeys

/-- Each key is fetched once at most, none that is on hand waits to be fetched, and there
are no more requests than keys. -/
structure Collapsed (core : ClientCore) : Prop where
  once : core.fetchedKeys.Nodup
  needed : ∀ key ∈ core.loadingKeys ++ core.queuedKeys, ¬ core.content.cache.contains key
  few : core.content.queue.length + core.sentKeys.length ≤ core.fetchedKeys.dedup.length

section Condition

variable [Presentation]

/-- What an input sends for is not on hand once it was handled. -/
def Forgoes (core : ClientCore) (input : Input) : Prop :=
  ∀ entry ∈ (handle input core).state.inFlight, entry ∉ core.inFlight →
    ∀ key ∈ entry.2.key, ¬ (handle input core).state.content.cache.contains key

/-! ## What an input brings -/

/-- The key that an answer brings a value for. -/
def answers (core : ClientCore) (id : RequestId) : Response → Option CacheKey
  | .treeSnapshot snapshot => match core.inFlight.lookup id with
    | some (.treeSnapshot tree) =>
      if TreeKey.ofSnapshot snapshot = tree then some (.tree tree) else none
    | some (.browseTree repoId) => match core.panels.browseAttempt with
      | none => none
      | some attempt =>
        if attempt.state = .loading id ∧ attempt.target.repoId = repoId ∧
            snapshot.repoId = repoId ∧ core.view.draft.isNone then
          some (.tree (.ofSnapshot snapshot))
        else none
    | _ => none
  | .renderChunk chunk => match core.inFlight.lookup id with
    | some (.renderChunk (.chunk render index)) =>
      if chunk.index = index then some (.chunk render index) else none
    | _ => none
  | _ => none

/-- The key that a stream item brings a value for. -/
def streams (core : ClientCore) (id : RequestId) (item : StreamItem) : Option CacheKey :=
  match core.inFlight.lookup id with
  | none => none
  | some waiting =>
    if core.supersedes id waiting then none
    else match waiting, item with
      | .openReview .., .treeSnapshot snapshot => some (.tree (.ofSnapshot snapshot))
      | .openReview .., .header header => some (.header (.ofHeader header))
      | .openReview .., .chunk repoId path chunk =>
        (core.view.review.bind fun review => review.fileAt ⟨repoId, path⟩).map fun render =>
          .chunk render chunk.index
      | .fileRender render _, .header header =>
        if RenderKey.ofHeader header = render then some (.header render) else none
      | .fileRender render _, .chunk repoId path chunk =>
        if repoId = render.repoId ∧ path = render.path then some (.chunk render chunk.index)
        else none
      | _, _ => none

/-- The key of the tree that a delta leads to. -/
def derives (core : ClientCore) (delta : TreeDelta) : Option CacheKey :=
  match core.connection, core.content.cache.peek (.tree ⟨delta.repoId, delta.fromRoot⟩) with
  | .subscribed _, some (.tree snapshot) => some (.tree (.ofSnapshot (applyDelta snapshot delta)))
  | _, _ => none

/-- The key that a stored value is for, when it is still loading and the value is good. -/
def recalls (core : ClientCore) (key : Key) (value : Option Bytes) : Option CacheKey :=
  if key = ViewPrefs.KEY ∨ key = Presentation.keysKey then none
  else match core.content.loads.lookup key with
    | none => none
    | some cacheKey => match core.content.pending.lookup cacheKey with
      | some (.loading _) =>
        if (value.bind Presentation.decode).any fun found => found.matches cacheKey then
          some cacheKey
        else none
      | _ => none

/-- The key that an input brings a value for. -/
def brings (core : ClientCore) : Input → Option CacheKey
  | .server (.response id answer) => core.answers id answer
  | .server (.streamItem id item) => core.streams id item
  | .server (.treeDelta delta) => core.derives delta
  | .stored key value => core.recalls key value
  | _ => none

/-- No value comes for a fetch that waits for a slot, and no value is let go of while a
request for it is under way. -/
structure Timely (core : ClientCore) (input : Input) : Prop where
  unqueued : ∀ key ∈ core.brings input, key ∉ core.queuedKeys
  kept : ∀ entry ∈ core.inFlight, entry ∈ (handle input core).state.inFlight →
    ∀ key ∈ entry.2.key, core.content.cache.contains key ∨ core.brings input = some key →
      (handle input core).state.content.cache.contains key

instance (core : ClientCore) (input : Input) : Decidable (core.Timely input) :=
  decidable_of_iff
    ((∀ key ∈ core.brings input, key ∉ core.queuedKeys) ∧
      ∀ entry ∈ core.inFlight, entry ∈ (handle input core).state.inFlight →
        ∀ key ∈ entry.2.key, core.content.cache.contains key ∨ core.brings input = some key →
          (handle input core).state.content.cache.contains key)
    ⟨fun both => ⟨both.1, both.2⟩, fun timely => ⟨timely.unqueued, timely.kept⟩⟩

end Condition

/-! ## The invariant -/

/-- The requests under way that fill a key. -/
def keyed (core : ClientCore) : Requests := core.inFlight.filter fun entry => entry.2.key.isSome

end ClientCore

/-- The marks stand for the fetches. Of the requests under way only the `lasting` ones are
looked at; a `held` key is one whose value is on hand although its request is under way. -/
structure Tidy [Presentation] (lasting : RequestId × InFlight → Prop) (held : CacheKey → Prop)
    (core : ClientCore) : Prop where
  marked : (core.content.pending.map Prod.fst).Nodup
  named : ∀ key fetch, core.content.pending.lookup key = some (.loading fetch) → fetch.key = key
  queued : core.queuedKeys.Nodup
  waits : ∀ key ∈ core.queuedKeys, core.content.pending.lookup key = some .queued
  sent : core.keyed.Pairwise fun one other => lasting one → lasting other →
    one.2.key ≠ other.2.key
  out : ∀ entry ∈ core.keyed, lasting entry → ∀ key ∈ entry.2.key,
    core.content.pending.lookup key = some .requested ∨ held key
  still : ∀ key, held key → core.content.pending.lookup key = none
  absent : ∀ key, core.content.pending.lookup key ≠ none → ¬ core.content.cache.contains key
  loads : ∀ entry ∈ core.content.loads, entry.1 = Presentation.storageKey entry.2 ∧
    ∀ wanted, core.content.pending.lookup entry.2 = some wanted → ∃ fetch, wanted = .loading fetch
  diskless : core.content.disk = none → core.content.loads = []

/-! ## What leaves the fetches alone -/

/-- No fetch is started or marked otherwise, and no content comes in; requests may end. -/
structure Sheds (before after : ClientCore) : Prop where
  pending : after.content.pending = before.content.pending
  queue : after.content.queue = before.content.queue
  loads : after.content.loads = before.content.loads
  disk : after.content.disk = none → before.content.disk = none
  keyed : after.keyed.Sublist before.keyed
  content (key : CacheKey) : after.content.cache.contains key → before.content.cache.contains key

theorem sheds_same {before after : ClientCore} (content : after.content = before.content)
    (inFlight : after.inFlight = before.inFlight) : Sheds before after where
  pending := by rw [content]
  queue := by rw [content]
  loads := by rw [content]
  disk none_ := by rwa [content] at none_
  keyed := by
    unfold ClientCore.keyed
    rw [inFlight]
  content key contained := by rwa [content] at contained

/-- The relation of leaving the fetches alone. -/
def Shedding (before : ClientCore) (_ : List Effect) (after : ClientCore) : Prop :=
  Sheds before after

instance : Course Shedding where
  stay _ := sheds_same rfl rfl
  join early late := {
    pending := late.pending.trans early.pending
    queue := late.queue.trans early.queue
    loads := late.loads.trans early.loads
    disk := fun none_ => early.disk (late.disk none_)
    keyed := late.keyed.trans early.keyed
    content := fun key contained => early.content key (late.content key contained) }

instance : Interface Shedding where
  interface same := sheds_same
    (congrArg ClientCore.content same).symm (congrArg ClientCore.inFlight same).symm
  hosted _ _ _ _ := sheds_same rfl rfl

instance : Files Shedding where
  files _ _ _ _ := sheds_same rfl rfl

instance : Buffering Shedding where
  buffered same := sheds_same
    (congrArg ClientCore.content same).symm (congrArg ClientCore.inFlight same).symm

/-- What comes after `before` keeps the marks, as long as the held values stay on hand, and
sends for nothing that is on hand. -/
structure Fetches [Presentation] (lasting : RequestId × InFlight → Prop) (held : CacheKey → Prop)
    (before : ClientCore) (_ : List Effect) (after : ClientCore) : Prop where
  content (key : CacheKey) : after.content.cache.contains key → before.content.cache.contains key
  tidy : (∀ key, held key → after.content.cache.contains key) →
    Tidy lasting held before → Tidy lasting held after
  fresh : (∀ key, held key → after.content.cache.contains key) → Tidy lasting held before →
    ∀ entry ∈ after.keyed, entry ∉ before.keyed → ∀ key ∈ entry.2.key,
      ¬ after.content.cache.contains key

section Fetches

variable [Presentation] {lasting : RequestId × InFlight → Prop} {held : CacheKey → Prop}

instance : Course (Fetches lasting held) where
  stay _ := ⟨fun _ contained => contained, fun _ tidy => tidy,
    fun _ _ _ mem absent => absurd mem absent⟩
  join {first second third _ _} early late := by
    have holds (kept : ∀ key, held key → third.content.cache.contains key) (key : CacheKey)
        (isHeld : held key) : second.content.cache.contains key :=
      late.content key (kept key isHeld)
    refine ⟨fun key contained => early.content key (late.content key contained),
      fun kept tidy => late.tidy kept (early.tidy (holds kept) tidy), ?_⟩
    intro kept tidy entry mem absent key names contained
    by_cases earlier : entry ∈ second.keyed
    · exact early.fresh (holds kept) tidy entry earlier absent key names
        (late.content key contained)
    · exact late.fresh kept (early.tidy (holds kept) tidy) entry mem earlier key names contained

instance : Blind (Fetches lasting held) where
  blind fetches := ⟨fetches.content, fetches.tidy, fetches.fresh⟩

/-- Marks stand as they are when the fetches are left alone. -/
theorem Tidy.shed {before after : ClientCore} (sheds : Sheds before after)
    (tidy : Tidy lasting held before) : Tidy lasting held after where
  marked := by rw [sheds.pending]; exact tidy.marked
  named := by rw [sheds.pending]; exact tidy.named
  queued := by
    unfold ClientCore.queuedKeys
    rw [sheds.queue]
    exact tidy.queued
  waits := by
    unfold ClientCore.queuedKeys
    rw [sheds.queue, sheds.pending]
    exact tidy.waits
  sent := tidy.sent.sublist sheds.keyed
  out entry mem := by
    rw [sheds.pending]
    exact tidy.out entry (sheds.keyed.subset mem)
  still := by rw [sheds.pending]; exact tidy.still
  absent key marked contained := by
    rw [sheds.pending] at marked
    exact tidy.absent key marked (sheds.content key contained)
  loads := by rw [sheds.loads, sheds.pending]; exact tidy.loads
  diskless none_ := by rw [sheds.loads]; exact tidy.diskless (sheds.disk none_)

theorem fetches_of_sheds {before after : ClientCore} {orders : List Effect}
    (sheds : Sheds before after) : Fetches lasting held before orders after where
  content := sheds.content
  tidy _ tidy := tidy.shed sheds
  fresh _ _ _ mem absent := absurd (sheds.keyed.subset mem) absent

theorem within_sheds {ε α : Type} {handler : Handler ClientCore Effect ε α}
    (sheds : ∀ core, Sheds core (handler core).state) : Within (Fetches lasting held) handler where
  moves core := fetches_of_sheds (sheds core)

/-- What is the same behind a mask that the fetches see through leaves them alone. -/
theorem fetches_behind {before after : ClientCore} (mask : ClientCore → ClientCore)
    (content : ∀ core, (mask core).content = core.content)
    (inFlight : ∀ core, (mask core).inFlight = core.inFlight) (same : mask before = mask after) :
    Fetches lasting held before [] after :=
  fetches_of_sheds (sheds_same
    ((content after).symm.trans ((congrArg ClientCore.content same).symm.trans (content before)))
    ((inFlight after).symm.trans
      ((congrArg ClientCore.inFlight same).symm.trans (inFlight before))))

instance : Interface (Fetches lasting held) where
  interface same := fetches_behind ClientCore.essence (fun _ => rfl) (fun _ => rfl) same
  hosted _ _ _ _ := fetches_of_sheds (sheds_same rfl rfl)

instance : Forming (Fetches lasting held) where
  formed same := fetches_behind ClientCore.formless (fun _ => rfl) (fun _ => rfl) same

instance : Deferring (Fetches lasting held) where
  deferred same := fetches_behind ClientCore.undeferred (fun _ => rfl) (fun _ => rfl) same

instance : Buffering (Fetches lasting held) where
  buffered same := fetches_behind ClientCore.unbuffered (fun _ => rfl) (fun _ => rfl) same

instance : Lists (Fetches lasting held) where
  lists same := fetches_behind ClientCore.homeless (fun _ => rfl) (fun _ => rfl) same

instance : Latest (Fetches lasting held) where
  latest same := fetches_behind ClientCore.unasked (fun _ => rfl) (fun _ => rfl) same

instance : Showing (Fetches lasting held) where
  showed same := fetches_behind (fun core => core.unshown.1) (fun _ => rfl) (fun _ => rfl)
    (congrArg Prod.fst same)

instance : Opening (Fetches lasting held) where
  opened _ _ _ _ := fetches_of_sheds (sheds_same rfl rfl)

instance : Closes (Fetches lasting held) where
  closes _ := fetches_of_sheds (sheds_same rfl rfl)

instance : Files (Fetches lasting held) where
  files _ _ _ _ := fetches_of_sheds (sheds_same rfl rfl)

instance : Forgets (Fetches lasting held) where
  reference _ := fetches_of_sheds (sheds_same rfl rfl)
  opening _ := fetches_of_sheds (sheds_same rfl rfl)

instance : Options (Fetches lasting held) where
  prefers _ := within_sheds fun _ => sheds_same rfl rfl
  renders _ := within_sheds fun _ => ⟨rfl, rfl, rfl, id, .refl _, fun _ => id⟩
  keeps _ _ := fetches_of_sheds (sheds_same rfl rfl)

instance : Connects (Fetches lasting held) where
  connects _ := within_sheds fun _ => sheds_same rfl rfl

instance : Contexts (Fetches lasting held) where
  contexts context := by
    unfold setReferenceContext
    exact within_then _ _ (within_sheds fun _ => sheds_same rfl rfl) fun _ => inferInstance

instance : Greets (Fetches lasting held) where
  greets _ _ := within_sheds fun _ => sheds_same rfl rfl

instance : Cancels (Fetches lasting held) where
  cancels _ := within_sheds fun _ => sheds_same rfl rfl

omit [Presentation] in
/-- A request that fills no key is not looked at. -/
theorem sheds_asked (core : ClientCore) (asking : Request) (waiting : InFlight)
    (unkeyed : waiting.key = none) : Sheds core (core.asked asking waiting) where
  pending := rfl
  queue := rfl
  loads := rfl
  disk := id
  keyed := by
    unfold ClientCore.keyed ClientCore.asked
    rw [List.filter_append, List.filter_cons_of_neg (by simp [unkeyed]), List.filter_nil,
      List.append_nil]
  content _ := id

instance : Asks (Fetches lasting held) where
  asks asking waiting unkeyed := within_sheds fun core =>
    sheds_asked core asking waiting unkeyed.unkeyed

instance : Refers (Fetches lasting held) where
  refers reference := by
    unfold openReference.askReference
    exact within_next fun _ => within_sheds fun _ => sheds_same rfl rfl

omit [Presentation] in
/-- Changing requests that fill no key, into such, leaves those that do. -/
theorem keyed_map_sublist (change : RequestId × InFlight → RequestId × InFlight)
    (unkeyed : ∀ entry, change entry = entry ∨ (change entry).2.key = none) (inFlight : Requests) :
    ((inFlight.map change).filter fun entry => entry.2.key.isSome).Sublist
      (inFlight.filter fun entry => entry.2.key.isSome) := by
  induction inFlight with
  | nil => exact .slnil
  | cons entry later ih =>
    rw [List.map_cons]
    rcases unkeyed entry with same | gone
    · rw [same, List.filter_cons, List.filter_cons]
      split
      · exact ih.cons_cons _
      · exact ih
    · rw [List.filter_cons_of_neg (by simp [gone]), List.filter_cons]
      split
      · exact ih.cons _
      · exact ih

instance : Supersedes (Fetches lasting held) where
  supersedes reviewId := within_sheds fun core => {
    pending := rfl
    queue := rfl
    loads := rfl
    disk := id
    keyed := keyed_map_sublist _ (fun entry => by
      split
      · split
        · exact .inr rfl
        · exact .inl rfl
      · exact .inl rfl) core.inFlight
    content := fun _ => id }

instance : Drops (Fetches lasting held) where
  drops id := within_sheds fun core => {
    pending := rfl
    queue := rfl
    loads := rfl
    disk := fun none_ => none_
    keyed := List.filter_sublist.filter _
    content := fun _ contained => contained }
  forgets _ := inferInstance
  stands id reviewId content := within_sheds fun core => {
    pending := rfl
    queue := rfl
    loads := rfl
    disk := fun none_ => none_
    keyed := keyed_map_sublist _ (fun entry => by
      split
      · exact .inr rfl
      · exact .inl rfl) core.inFlight
    content := fun _ contained => contained }

/-! ## Marks -/

omit [Presentation] in
theorem lookup_markWanted (pending : List (CacheKey × Wanted)) (key other : CacheKey)
    (wanted : Wanted) : (markWanted pending key wanted).lookup other =
      if other = key then some wanted else pending.lookup other := by
  unfold markWanted
  split
  next same =>
    rw [same]
    exact List.lookup_cons_self
  next different =>
    rw [List.lookup_cons, beq_eq_false_iff_ne.mpr different]
    exact (Association.lookup_filter fun entry => entry ≠ key).trans
      (if_pos (decide_eq_true different))

omit [Presentation] in
theorem once_markWanted {pending : List (CacheKey × Wanted)} (key : CacheKey) (wanted : Wanted)
    (once : (pending.map Prod.fst).Nodup) :
    ((markWanted pending key wanted).map Prod.fst).Nodup := by
  refine List.nodup_cons.mpr ⟨fun mem => ?_, Association.once_filter _ once⟩
  obtain ⟨entry, kept, same⟩ := List.mem_map.mp mem
  exact of_decide_eq_true (List.mem_filter.mp kept).2 same

omit [Presentation] in
theorem requestFor_key (core : ClientCore) (fetch : Fetch) :
    (core.requestFor fetch).2.key = some fetch.key := by
  cases fetch <;> rfl

omit [Presentation] in
theorem issue_state (core : ClientCore) (fetch : Fetch) (later : List Fetch) :
    (issue fetch later core).state =
      ({ core with
        content.queue := later
        content.pending := markWanted core.content.pending fetch.key .requested
        content.inFlight := core.content.inFlight + 1 } : ClientCore).asked
        (core.requestFor fetch).1 (core.requestFor fetch).2 :=
  rfl

omit [Presentation] in
theorem keyed_issue (core : ClientCore) (fetch : Fetch) (later : List Fetch) :
    (issue fetch later core).state.keyed =
      core.keyed ++ [(core.nextRequest, (core.requestFor fetch).2)] := by
  rw [issue_state]
  unfold ClientCore.keyed ClientCore.asked
  dsimp only
  rw [List.filter_append, List.filter_cons_of_pos (by simp [requestFor_key]), List.filter_nil]

section Marks

variable {core : ClientCore} {key : CacheKey} {fetch : Fetch} {later : List Fetch}

/-- A queued key is marked as such, so no request for it is looked at and it is not held. -/
theorem Tidy.unsent (tidy : Tidy lasting held core) (waits : key ∈ core.queuedKeys) :
    ¬ held key ∧ ∀ entry ∈ core.keyed, lasting entry → entry.2.key ≠ some key := by
  have mark := tidy.waits key waits
  have unheld : ¬ held key := fun isHeld => by
    rw [tidy.still key isHeld] at mark
    cases mark
  refine ⟨unheld, fun entry mem lasts names => ?_⟩
  rcases tidy.out entry mem lasts key names with requested | isHeld
  · rw [mark] at requested
    cases requested
  · exact unheld isHeld

theorem Tidy.issued (tidy : Tidy lasting held core) (queue : core.content.queue = fetch :: later) :
    Tidy lasting held (issue fetch later core).state := by
  have queuedKeys : core.queuedKeys = fetch.key :: later.map Fetch.key := by
    rw [ClientCore.queuedKeys, queue, List.map_cons]
  have first : fetch.key ∈ core.queuedKeys := queuedKeys ▸ List.mem_cons_self
  obtain ⟨unheld, unsent⟩ := tidy.unsent first
  have mark := tidy.waits _ first
  have once := tidy.queued
  rw [queuedKeys] at once
  obtain ⟨fresh, once⟩ := List.nodup_cons.mp once
  have marks (other : CacheKey) : (issue fetch later core).state.content.pending.lookup other =
      if other = fetch.key then some .requested else core.content.pending.lookup other :=
    lookup_markWanted _ _ _ _
  refine {
    marked := once_markWanted _ _ tidy.marked
    named := ?_
    queued := once
    waits := ?_
    sent := ?_
    out := ?_
    still := ?_
    absent := ?_
    loads := ?_
    diskless := tidy.diskless }
  · intro other loading names
    rw [marks] at names
    split at names
    · cases names
    · exact tidy.named other loading names
  · intro other waits
    have different : other ≠ fetch.key := fun same => fresh (same ▸ waits)
    rw [marks, if_neg different]
    exact tidy.waits other (queuedKeys ▸ List.mem_cons_of_mem _ waits)
  · rw [keyed_issue]
    refine List.pairwise_append.mpr ⟨tidy.sent, List.pairwise_singleton _ _, ?_⟩
    intro entry mem sent isSent lasts _
    rw [List.mem_singleton.mp isSent, requestFor_key]
    exact unsent entry mem lasts
  · intro entry mem lasts other names
    rw [marks]
    split
    · exact .inl rfl
    next different =>
      rw [keyed_issue] at mem
      rcases List.mem_append.mp mem with mem | isSent
      · exact tidy.out entry mem lasts other names
      · rw [List.mem_singleton.mp isSent, requestFor_key] at names
        exact absurd (Option.some.inj names).symm different
  · intro other isHeld
    have different : other ≠ fetch.key := fun same => unheld (same ▸ isHeld)
    rw [marks, if_neg different]
    exact tidy.still other isHeld
  · intro other isMarked
    refine tidy.absent other ?_
    rw [marks] at isMarked
    split at isMarked
    next same =>
      rw [same, mark]
      exact Option.some_ne_none _
    · exact isMarked
  · intro entry mem
    obtain ⟨stored, loading⟩ := tidy.loads entry mem
    refine ⟨stored, fun wanted names => ?_⟩
    rw [marks] at names
    split at names
    next same =>
      obtain ⟨_, queued⟩ := loading .queued (by rw [same, mark])
      cases queued
    · exact loading wanted names

/-- Sending a queued fetch sends for a key that is not on hand. -/
theorem issue_fetches (queue : core.content.queue = fetch :: later) :
    Moves (Fetches lasting held) core (issue fetch later) where
  content _ contained := contained
  tidy _ tidy := tidy.issued queue
  fresh _ tidy entry mem absent key names := by
    rw [keyed_issue] at mem
    rcases List.mem_append.mp mem with mem | isSent
    · exact absurd mem absent
    rw [List.mem_singleton.mp isSent, requestFor_key] at names
    obtain rfl := Option.some.inj names
    refine tidy.absent fetch.key ?_
    rw [tidy.waits fetch.key (by simp [ClientCore.queuedKeys, queue])]
    exact Option.some_ne_none _

end Marks

instance (count : Nat) : Within (Fetches lasting held) (drainUpTo count) := by
  induction count with
  | zero =>
    unfold drainUpTo
    infer_instance
  | succ count rest =>
    refine ⟨fun core => ?_⟩
    unfold drainUpTo
    refine moves_read ?_
    split
    · split
      · exact Course.stay core
      next queue => exact moves_then (issue_fetches queue) fun _ _ => rest.moves _
    · exact Course.stay core

instance : Within (Fetches lasting held) drain := by
  unfold drain
  infer_instance

instance : Frees (Fetches lasting held) where
  frees := by
    unfold contentDone
    refine within_then _ _ (within_sheds fun _ => ?_) fun _ => inferInstance
    exact ⟨rfl, rfl, rfl, id, .refl _, fun _ => id⟩

/-! ## Wanting -/

section Wanting

variable {core after : ClientCore} {key : CacheKey} {fetch : Fetch} {wanted : Wanted}

/-- A key without a mark can be marked, when it is not on hand although it is sent for. -/
theorem Tidy.marking (tidy : Tidy lasting held core)
    (unmarked : core.content.pending.lookup fetch.key = none) (unheld : ¬ held fetch.key)
    (away : ¬ core.content.cache.contains fetch.key)
    (pending : after.content.pending = markWanted core.content.pending fetch.key wanted)
    (keyed : after.keyed = core.keyed) (cache : after.content.cache = core.content.cache)
    (named : ∀ loading, wanted = .loading loading → loading.key = fetch.key)
    (queued : after.queuedKeys.Nodup)
    (waits : ∀ key ∈ after.queuedKeys, key ∈ core.queuedKeys ∨ key = fetch.key ∧ wanted = .queued)
    (loads : ∀ entry ∈ after.content.loads, entry.1 = Presentation.storageKey entry.2 ∧
      (entry ∈ core.content.loads ∧ entry.2 ≠ fetch.key ∨ ∃ loading, wanted = .loading loading ∧
        (entry.2 = fetch.key ∨ entry ∈ core.content.loads)))
    (diskless : after.content.disk = none → after.content.loads = []) :
    Tidy lasting held after := by
  have marks (other : CacheKey) : after.content.pending.lookup other =
      if other = fetch.key then some wanted else core.content.pending.lookup other := by
    rw [pending]
    exact lookup_markWanted _ _ _ _
  refine {
    marked := pending ▸ once_markWanted _ _ tidy.marked
    named := ?_
    queued
    waits := ?_
    sent := keyed ▸ tidy.sent
    out := ?_
    still := ?_
    absent := ?_
    loads := ?_
    diskless }
  · intro other loading names
    rw [marks] at names
    split at names
    next same => exact (named loading (Option.some.inj names)).trans same.symm
    · exact tidy.named other loading names
  · intro other mem
    rw [marks]
    split
    next same =>
      rcases waits other mem with before | ⟨_, isQueued⟩
      · have mark := tidy.waits other before
        rw [same, unmarked] at mark
        cases mark
      · rw [isQueued]
    next different =>
      rcases waits other mem with before | ⟨same, _⟩
      · exact tidy.waits other before
      · exact absurd same different
  · intro entry mem lasts other names
    rw [keyed] at mem
    rw [marks]
    rcases tidy.out entry mem lasts other names with requested | isHeld
    · left
      split
      next same =>
        rw [same, unmarked] at requested
        cases requested
      · exact requested
    · exact .inr isHeld
  · intro other isHeld
    have different : other ≠ fetch.key := fun same => unheld (same ▸ isHeld)
    rw [marks, if_neg different]
    exact tidy.still other isHeld
  · intro other isMarked
    rw [cache]
    rw [marks] at isMarked
    split at isMarked
    next same =>
      rw [same]
      exact away
    · exact tidy.absent other isMarked
  · intro entry mem
    obtain ⟨stored, origin⟩ := loads entry mem
    refine ⟨stored, fun mark names => ?_⟩
    rw [marks] at names
    rcases origin with ⟨before, different⟩ | ⟨loading, isLoading, from_⟩
    · rw [if_neg different] at names
      exact (tidy.loads entry before).2 mark names
    · split at names
      · exact ⟨loading, (Option.some.inj names).symm.trans isLoading⟩
      next different =>
        rcases from_ with same | before
        · exact absurd same different
        · exact (tidy.loads entry before).2 mark names

theorem Tidy.queue (tidy : Tidy lasting held core)
    (unmarked : core.content.pending.lookup fetch.key = none) (unheld : ¬ held fetch.key)
    (away : ¬ core.content.cache.contains fetch.key)
    (unloaded : ∀ entry ∈ core.content.loads, entry.2 ≠ fetch.key) :
    Tidy lasting held (queueUp fetch core).state := by
  have queuedKeys : (queueUp fetch core).state.queuedKeys = core.queuedKeys ++ [fetch.key] :=
    List.map_append
  have fresh : fetch.key ∉ core.queuedKeys := by
    intro waits
    have mark := tidy.waits _ waits
    rw [unmarked] at mark
    cases mark
  refine tidy.marking unmarked unheld away rfl rfl rfl (fun _ loading => ?_) ?_ ?_ ?_ tidy.diskless
  · cases loading
  · rw [queuedKeys]
    refine List.nodup_append.mpr ⟨tidy.queued, List.nodup_singleton _, ?_⟩
    intro other waits _ last same
    rw [List.mem_singleton.mp last] at same
    exact fresh (same ▸ waits)
  · intro other mem
    rw [queuedKeys] at mem
    rcases List.mem_append.mp mem with before | last
    · exact .inl before
    · exact .inr ⟨List.mem_singleton.mp last, rfl⟩
  · exact fun entry mem => ⟨(tidy.loads entry mem).1, .inl ⟨mem, unloaded entry mem⟩⟩

/-- Queueing a key that can be marked, and sending what there are slots for. -/
theorem enqueue_fetches
    (ready : (∀ key, held key → core.content.cache.contains key) → Tidy lasting held core →
      core.content.pending.lookup fetch.key = none ∧ ¬ held fetch.key ∧
        ¬ core.content.cache.contains fetch.key ∧
        ∀ entry ∈ core.content.loads, entry.2 ≠ fetch.key) :
    Moves (Fetches lasting held) core (enqueue fetch) := by
  unfold enqueue
  refine moves_then ⟨fun _ contained => contained, fun kept tidy => ?_,
    fun _ _ _ mem absent => absurd mem absent⟩ fun _ _ => Within.moves _
  obtain ⟨unmarked, unheld, away, unloaded⟩ := ready kept tidy
  exact tidy.queue unmarked unheld away unloaded

theorem load_fetches (unmarked : core.content.pending.lookup fetch.key = none)
    (away : ¬ core.content.cache.contains fetch.key) (disk : core.content.disk.isSome) :
    Moves (Fetches lasting held) core (load fetch) := by
  unfold load
  refine moves_then ⟨fun _ contained => contained, fun kept tidy => ?_,
    fun _ _ _ mem absent => absurd mem absent⟩ fun _ _ => Within.moves _
  refine tidy.marking unmarked (fun isHeld => away (kept _ isHeld)) away rfl rfl rfl ?_
    tidy.queued (fun _ => .inl) ?_ fun none_ => ?_
  · intro loading same
    cases same
    rfl
  · intro entry mem
    rcases List.mem_cons.mp mem with rfl | mem
    · exact ⟨rfl, .inr ⟨fetch, rfl, .inl rfl⟩⟩
    · have before := List.mem_of_mem_filter mem
      exact ⟨(tidy.loads entry before).1, .inr ⟨fetch, rfl, .inr before⟩⟩
  · exact absurd (Option.isSome_iff_ne_none.mp disk) (not_not.mpr none_)

end Wanting

instance : Wants (Fetches lasting held) where
  wants fetch := ⟨fun core => by
    unfold want
    refine moves_read ?_
    split
    · exact Course.stay core
    next away =>
      split
      · exact Course.stay core
      next unwanted =>
        have unmarked : core.content.pending.lookup fetch.key = none := by
          rw [List.lookup_eq_none_iff]
          intro entry mem
          rw [bne_iff_ne]
          intro same
          exact unwanted (List.any_eq_true.mpr ⟨entry, mem, decide_eq_true same.symm⟩)
        split
        next disk => exact moves_then (load_fetches unmarked away disk) fun _ _ => Course.stay _
        next diskless =>
          refine moves_then (enqueue_fetches fun kept tidy => ?_) fun _ _ => Course.stay _
          refine ⟨unmarked, fun isHeld => away (kept _ isHeld), away, ?_⟩
          rw [tidy.diskless (by simpa using diskless)]
          exact fun _ mem => absurd mem List.not_mem_nil⟩

/-! ## Pins and drops -/

omit [Presentation] in
theorem sheds_cache (core : ClientCore) {cache : ContentCache}
    (content : ∀ key value, cache.peek key = some value →
      core.content.cache.peek key = some value) :
    Sheds core { core with content.cache := cache } where
  pending := rfl
  queue := rfl
  loads := rfl
  disk := id
  keyed := .refl _
  content key contained := by
    obtain ⟨value, found⟩ := ContentCache.contains_iff_peek.mp contained
    exact ContentCache.contains_iff_peek.mpr ⟨value, content key value found⟩

instance (key : Key) :
    Within Shedding (order (.remove key) : Client Unit) where
  moves _ := sheds_same rfl rfl

instance (touched : DiskIndex × List CacheKey) : Within Shedding (putDisk touched) :=
  within_then _ _ (within_write _ fun _ => ⟨rfl, rfl, rfl, nofun, .refl _, fun _ => id⟩)
    fun _ => inferInstance

instance (key : Key) (value : Bytes) :
    Within Shedding (order (.persist key value) : Client Unit) where
  moves _ := sheds_same rfl rfl

instance (key : CacheKey) (value : CacheValue) : Within Shedding (persist key value) := by
  unfold persist
  refine within_next fun core => ?_
  split <;> infer_instance

instance within_shedding_writeThrough (evicted : List Evicted) :
    Within Shedding (writeThrough evicted) := by
  unfold writeThrough
  refine @within_each _ _ _ _ Shedding _ _ _ fun gone =>
    within_next fun core => ?_
  split <;> infer_instance

instance within_shedding_pin (key : CacheKey) : Within Shedding (pin key) :=
  within_write _ fun core => sheds_cache core fun _ _ found => found

/-- Letting content go from the cache. -/
theorem putCache_fetches {core : ClientCore} {changed : ContentCache × List Evicted}
    (content : ∀ key value, changed.1.peek key = some value →
      core.content.cache.peek key = some value) :
    Moves (Fetches lasting held) core (putCache changed) := by
  have sheds : Moves Shedding core (putCache changed) :=
    moves_then (sheds_cache core content) fun _ _ => Within.moves _
  exact fetches_of_sheds sheds

/-- Dropped fetches take their marks with them, and no other marks. -/
theorem Tidy.pruned {core : ClientCore} (tidy : Tidy lasting held core) (keep : Fetch → Bool) :
    Tidy lasting held (pruneQueue keep core).state := by
  let stays (key : CacheKey) : Bool :=
    ¬ (core.content.queue.filter fun fetch => ¬ keep fetch).any fun fetch => fetch.key = key
  have marks (key : CacheKey) : (pruneQueue keep core).state.content.pending.lookup key =
      if stays key then core.content.pending.lookup key else none :=
    Association.lookup_filter stays
  have leaves (key : CacheKey) (gone : ¬ stays key) : key ∈ core.queuedKeys := by
    have some_ := not_not.mp (fun none_ => gone (decide_eq_true none_))
    obtain ⟨fetch, mem, same⟩ := List.any_eq_true.mp some_
    exact List.mem_map.mpr ⟨fetch, List.mem_of_mem_filter mem, of_decide_eq_true same⟩
  have unless_queued (key : CacheKey) (unqueued : core.content.pending.lookup key ≠ some .queued) :
      (pruneQueue keep core).state.content.pending.lookup key =
        core.content.pending.lookup key := by
    rw [marks, if_pos]
    exact not_not.mp fun gone => unqueued (tidy.waits key (leaves key gone))
  have fewer (key : CacheKey) (wanted : Wanted)
      (names : (pruneQueue keep core).state.content.pending.lookup key = some wanted) :
      core.content.pending.lookup key = some wanted := by
    rw [marks] at names
    split at names
    · exact names
    · cases names
  have kept : (pruneQueue keep core).state.queuedKeys.Sublist core.queuedKeys :=
    List.filter_sublist.map Fetch.key
  refine {
    marked := Association.once_filter _ tidy.marked
    named := fun key loading names => tidy.named key loading (fewer key _ names)
    queued := tidy.queued.sublist kept
    waits := ?_
    sent := tidy.sent
    out := ?_
    still := ?_
    absent := ?_
    loads := fun entry mem => ⟨(tidy.loads entry mem).1, fun wanted names =>
      (tidy.loads entry mem).2 wanted (fewer _ _ names)⟩
    diskless := tidy.diskless }
  · intro key mem
    rw [marks, if_pos]
    · exact tidy.waits key (kept.subset mem)
    obtain ⟨fetch, isKept, rfl⟩ := List.mem_map.mp mem
    obtain ⟨waits, keeps⟩ := List.mem_filter.mp isKept
    -- A dropped fetch of the same key would be this one.
    refine decide_eq_true fun some_ => ?_
    obtain ⟨other, isDropped, same⟩ := List.any_eq_true.mp some_
    obtain ⟨otherWaits, drops⟩ := List.mem_filter.mp isDropped
    obtain rfl := List.inj_on_of_nodup_map tidy.queued otherWaits waits (of_decide_eq_true same)
    exact of_decide_eq_true drops keeps
  · intro entry mem lasts key names
    rcases tidy.out entry mem lasts key names with requested | isHeld
    · left
      rw [unless_queued key (by rw [requested]; simp), requested]
    · exact .inr isHeld
  · intro key isHeld
    have none_ := tidy.still key isHeld
    rw [unless_queued key (by rw [none_]; exact nofun), none_]
  · intro key marked
    refine tidy.absent key fun none_ => marked ?_
    rw [unless_queued key (by rw [none_]; exact nofun), none_]

instance (keep : Fetch → Bool) :
    Within (Fetches lasting held) (pruneQueue keep) where
  moves _ := ⟨fun _ contained => contained, fun _ tidy => tidy.pruned keep,
    fun _ _ _ mem absent => absurd mem absent⟩

instance : Pins (Fetches lasting held) where
  pins key := within_sheds fun core => (within_shedding_pin key).moves core
  repins key := within_sheds fun core => sheds_cache core fun other value found => by
    rwa [ContentCache.peek_foldl] at found
    intro cache found
    cases found with
    | chunk of =>
      dsimp only
      split <;> rfl
    | _ => rfl
  retains := ⟨fun core => moves_read (putCache_fetches fun _ _ => ContentCache.peek_retainPins)⟩
  releases := by
    unfold reviewClosed
    exact within_next fun _ => ⟨fun core =>
      moves_read (putCache_fetches fun _ _ => ContentCache.peek_clearPins)⟩
  prunes _ := inferInstance

instance : Acts (Fetches lasting held) where

end Fetches

end Nits.ClientCore
