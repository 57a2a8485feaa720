import Nits.Logical.Run
import Nits.ClientCore.Arrivals

/-!
# Runs with one fetch for each key

The marks stay in order under every input at which no value comes for a queued fetch and no
value is let go of while a request for it is out. `overtaken_sent` shows runs with either.
-/

namespace Nits.ClientCore

open Logical Logical.Handler Protocol

section Collapse

variable [Presentation] {lasting : RequestId × InFlight → Prop} {held : CacheKey → Prop}
  {core before after : ClientCore} {key : CacheKey} {value : CacheValue}

/-! ## Losing the connection -/

/-- Marks go with the requests that they stand for. -/
theorem Tidy.lost (tidy : Tidy (fun _ => True) held core) :
    Tidy (fun _ => True) held core.lost := by
  have looked (other : CacheKey) : core.lost.content.pending.lookup other =
      if (¬ core.inFlight.any fun waiting => waiting.2.key = some other : Bool) = true then
        core.content.pending.lookup other else none :=
    Association.lookup_filter fun other =>
      ¬ core.inFlight.any fun waiting => waiting.2.key = some other
  have fewer (other : CacheKey) (wanted : Wanted)
      (names : core.lost.content.pending.lookup other = some wanted) :
      core.content.pending.lookup other = some wanted := by
    rw [looked] at names
    split at names
    · exact names
    · cases names
  refine {
    marked := Association.once_filter _ tidy.marked
    named := fun other loading names => tidy.named other loading (fewer other _ names)
    queued := tidy.queued
    waits := ?_
    sent := .nil
    out := fun _ mem => absurd mem List.not_mem_nil
    still := ?_
    absent := ?_
    loads := fun entry mem => ⟨(tidy.loads entry mem).1, fun wanted names =>
      (tidy.loads entry mem).2 wanted (fewer _ _ names)⟩
    diskless := tidy.diskless }
  · intro other waits
    rw [looked, if_pos]
    · exact tidy.waits other waits
    refine decide_eq_true fun some_ => ?_
    obtain ⟨entry, mem, same⟩ := List.any_eq_true.mp some_
    have fills := of_decide_eq_true same
    refine (tidy.unsent waits).2 entry ?_ trivial fills
    exact List.mem_filter.mpr ⟨mem, by rw [fills]; rfl⟩
  · intro other isHeld
    rw [looked, tidy.still other isHeld, ite_self]
  · intro other marked
    refine tidy.absent other fun none_ => marked ?_
    rw [looked, none_, ite_self]

instance : Loses (Fetches (fun _ => True) held) where
  loses := ⟨fun _ => ⟨fun _ contained => contained, fun _ tidy => tidy.lost,
    fun _ _ _ mem => absurd mem List.not_mem_nil⟩⟩

/-- The cache stays as it is. -/
def KeepsCache (before : ClientCore) (_ : List Effect) (after : ClientCore) : Prop :=
  before.content.cache = after.content.cache

omit [Presentation] in
theorem keepsCache_behind {before after : ClientCore} (mask : ClientCore → ClientCore)
    (clear : ∀ core, (mask core).content.cache = core.content.cache)
    (same : mask before = mask after) : KeepsCache before [] after :=
  ((clear before).symm.trans (congrArg (fun core => core.content.cache) same)).trans (clear after)

instance : Course KeepsCache where
  stay _ := rfl
  join early late := early.trans late

instance : Blind KeepsCache where
  blind same := same

instance : Interface KeepsCache where
  interface same := keepsCache_behind ClientCore.essence (fun _ => rfl) same
  hosted _ _ _ _ := rfl

instance : Files KeepsCache where
  files _ _ _ _ := rfl

instance : Forming KeepsCache where
  formed same := keepsCache_behind ClientCore.formless (fun _ => rfl) same

instance : Showing KeepsCache where
  showed same := keepsCache_behind (fun core => core.unshown.1) (fun _ => rfl)
    (congrArg Prod.fst same)

instance : Asks KeepsCache where
  asks _ _ _ := ⟨fun _ => rfl⟩

instance : Connects KeepsCache where
  connects _ := ⟨fun _ => rfl⟩

instance : Greets KeepsCache where
  greets _ _ := ⟨fun _ => rfl⟩

instance : Loses KeepsCache where
  loses := ⟨fun _ => rfl⟩

/-! ## Routes -/

/-- The inputs that may end all requests at once. -/
def Input.cuts : Input → Bool
  | .transport _ | .tick _ | .server (.rejected _) => true
  | _ => false

theorem within_cuts {R : ClientCore → List Effect → ClientCore → Prop} [Interface R] [Connects R]
    [Greets R] [Loses R] [Answers R] {input : Input} (cuts : input.cuts) :
    Within R (route input) := by
  cases input with
  | transport event =>
    simp only [route]
    infer_instance
  | tick now =>
    simp only [route]
    infer_instance
  | server msg =>
    cases msg with
    | rejected refusal =>
      simp only [route, server]
      infer_instance
    | _ => cases cuts
  | _ => cases cuts

theorem server_reaches {msg : ServerMsg} (uncut : (Input.server msg).cuts = false)
    (awaits : Awaits lasting held core (core.brings (.server msg))) :
    Moves (Reaching lasting held core) core (server msg) := by
  cases msg with
  | rejected refusal => cases uncut
  | response id answer => exact response_reaches awaits
  | streamItem id item => exact streamItem_reaches awaits
  | streamEnd id => exact streamEnd_reaches awaits
  | error id failure => exact error_reaches awaits
  | treeDelta delta => exact liveTree_reaches awaits
  | _ =>
    simp only [server]
    exact Awaits.nothing awaits

theorem route_reaches {input : Input} (uncut : input.cuts = false)
    (awaits : Awaits lasting held core (core.brings input)) :
    Moves (Reaching lasting held core) core (route input) := by
  cases input with
  | transport | tick => cases uncut
  | server msg => exact server_reaches uncut awaits
  | stored key value => exact loadAnswered_reaches awaits
  | _ =>
    simp only [route]
    exact Awaits.nothing awaits

/-! ## One input -/

/-- The marks are in order again, and nothing that is on hand was sent for. -/
structure Collapses (core after : ClientCore) : Prop where
  steady : Steady after
  fresh : ∀ entry ∈ after.keyed, entry ∉ core.keyed → ∀ key ∈ entry.2.key,
    ¬ after.content.cache.contains key

/-- What was kept in order with a view to the requests that are left is in order. -/
theorem Reaches.collapses (reaches : Reaches (fun entry => entry ∈ after.inFlight) held core after)
    (kept : ∀ key, held key → after.content.cache.contains key) : Collapses core after := by
  obtain ⟨mid, ready, keyed, fetches⟩ := reaches
  have tidy := fetches.tidy kept ready
  refine ⟨?_, fun entry mem absent => fetches.fresh kept ready entry mem fun earlier =>
    absent (keyed earlier)⟩
  exact {
    marked := tidy.marked
    named := tidy.named
    queued := tidy.queued
    waits := tidy.waits
    sent := tidy.sent.imp_of_mem fun one other apart _ _ =>
      apart (List.mem_of_mem_filter one) (List.mem_of_mem_filter other)
    out := fun entry mem _ key names =>
      (tidy.out entry mem (List.mem_of_mem_filter mem) key names).imp_right (kept key)
    still := fun key contained => by
      by_contra marked
      exact tidy.absent key marked contained
    absent := tidy.absent
    loads := tidy.loads
    diskless := tidy.diskless }

/-- When all requests may end, the cache stays as it is. -/
theorem Steady.cut (steady : Steady core) {orders : List Effect}
    (fetches : Fetches (fun _ => True) (fun key => core.content.cache.contains key) core orders after)
    (same : KeepsCache core orders after) : Collapses core after := by
  have kept (key : CacheKey) (contained : core.content.cache.contains key) :
      after.content.cache.contains key := by rwa [← same]
  have tidy := fetches.tidy kept steady
  refine ⟨?_, fetches.fresh kept steady⟩
  unfold Steady
  rwa [← same]

theorem Reaches.handled {input : Input}
    (reaches : Reaches lasting held core (route input core).state) :
    Reaches lasting held core (handle input core).state := by
  unfold handle
  split
  next ran =>
    rw [ran] at reaches
    exact reaches
  next left ran =>
    rw [ran] at reaches
    exact reaches.further (derive_moves left)

/-- The steady states are kept by the inputs that are timely. -/
theorem handle_collapses (steady : Steady core) {input : Input} (timely : core.Timely input) :
    Collapses core (handle input core).state := by
  cases cuts : input.cuts with
  | true =>
    have fetches : Within (Fetches (fun _ => True) fun key => core.content.cache.contains key)
        (route input) := within_cuts cuts
    have keeps : Within KeepsCache (route input) := within_cuts cuts
    exact Steady.cut steady (handle_blind input core (fetches.moves core))
      (handle_blind input core (keeps.moves core))
  | false =>
    let held (key : CacheKey) : Prop :=
      (∃ entry ∈ core.inFlight, entry ∈ (handle input core).state.inFlight ∧
        entry.2.key = some key) ∧
      (core.content.cache.contains key ∨ core.brings input = some key)
    have grasps : Grasps (fun entry => entry ∈ (handle input core).state.inFlight) held core
        (core.brings input) :=
      ⟨fun entry mem lasts key names back =>
        ⟨⟨entry, List.mem_of_mem_filter mem, lasts, names⟩, back⟩, fun _ isHeld => isHeld.2⟩
    refine (Reaches.handled (route_reaches cuts ⟨steady, timely.unqueued, grasps⟩)).collapses ?_
    rintro key ⟨⟨entry, mem, lasts, names⟩, back⟩
    exact timely.kept entry mem lasts key names back

/-! ## Runs -/

/-- Where nothing is wanted, the marks are in order. -/
theorem steady_of_empty (pending : core.content.pending = []) (queue : core.content.queue = [])
    (loads : core.content.loads = []) (inFlight : core.inFlight = []) : Steady core := by
  have queued : core.queuedKeys = [] := by rw [ClientCore.queuedKeys, queue, List.map_nil]
  have keyed : core.keyed = [] := by rw [ClientCore.keyed, inFlight, List.filter_nil]
  have unmarked (key : CacheKey) : core.content.pending.lookup key = none := by
    rw [pending, List.lookup_nil]
  exact {
    marked := by rw [pending]; exact .nil
    named := fun key fetch names => by rw [unmarked] at names; cases names
    queued := by rw [queued]; exact .nil
    waits := fun key mem => by rw [queued] at mem; cases mem
    sent := by rw [keyed]; exact .nil
    out := fun entry mem => by rw [keyed] at mem; cases mem
    still := fun key _ => unmarked key
    absent := fun key marked => absurd (unmarked key) marked
    loads := fun entry mem => by rw [loads] at mem; cases mem
    diskless := fun _ => loads }

theorem steady_new (config : Config) : Steady (.new config) :=
  steady_of_empty rfl rfl rfl rfl

omit [Presentation] in
theorem mem_sentKeys : key ∈ core.sentKeys ↔ ∃ entry ∈ core.keyed, entry.2.key = some key := by
  unfold ClientCore.sentKeys ClientCore.keyed
  rw [List.mem_filterMap]
  constructor
  · rintro ⟨entry, mem, names⟩
    exact ⟨entry, List.mem_filter.mpr ⟨mem, by rw [names]; rfl⟩, names⟩
  · rintro ⟨entry, mem, names⟩
    exact ⟨entry, List.mem_of_mem_filter mem, names⟩

/-- A loading key is marked as loading. -/
theorem Tidy.loadingKeys_marked (tidy : Tidy lasting held core) (mem : key ∈ core.loadingKeys) :
    ∃ fetch, core.content.pending.lookup key = some (.loading fetch) := by
  obtain ⟨⟨marked, wanted⟩, isPending, names⟩ := List.mem_filterMap.mp mem
  have looked := Association.lookup_of_mem tidy.marked isPending
  cases wanted with
  | loading fetch =>
    obtain rfl := Option.some.inj names
    obtain rfl := tidy.named _ _ looked
    exact ⟨fetch, looked⟩
  | _ => cases names

theorem Tidy.nodup_loadingKeys (tidy : Tidy lasting held core) : core.loadingKeys.Nodup := by
  have named : core.loadingKeys = (core.content.pending.filter fun entry =>
      entry.2 ≠ .queued ∧ entry.2 ≠ .requested).map Prod.fst := by
    unfold ClientCore.loadingKeys
    rw [← List.filterMap_eq_map, List.filterMap_filter]
    refine List.filterMap_congr fun entry mem => ?_
    obtain ⟨marked, wanted⟩ := entry
    cases wanted with
    | loading fetch =>
      exact congrArg some (tidy.named _ _ (Association.lookup_of_mem tidy.marked mem))
    | _ => rfl
  rw [named]
  exact Association.once_filter _ tidy.marked

theorem Steady.collapsed (steady : Steady core) : core.Collapsed := by
  have tidy : Tidy (fun _ => True) (fun key => core.content.cache.contains key) core := steady
  have sent : core.sentKeys.Nodup := by
    have filled : core.sentKeys = core.keyed.filterMap fun entry => entry.2.key := by
      unfold ClientCore.sentKeys ClientCore.keyed
      rw [List.filterMap_filter]
      refine List.filterMap_congr fun entry _ => ?_
      cases entry.2.key <;> rfl
    rw [filled]
    refine tidy.sent.filterMap _ fun one other apart key names key' names' same => ?_
    exact apart trivial trivial (names.trans (same ▸ names'.symm))
  have once : core.fetchedKeys.Nodup := by
    refine List.nodup_append.mpr ⟨List.nodup_append.mpr ⟨tidy.nodup_loadingKeys, tidy.queued, ?_⟩,
      sent, ?_⟩
    · intro key loads other waits same
      obtain ⟨fetch, loading⟩ := tidy.loadingKeys_marked loads
      have queued := tidy.waits other waits
      rw [← same, loading] at queued
      cases queued
    · intro key waits other isSent same
      subst same
      obtain ⟨entry, mem, names⟩ := mem_sentKeys.mp isSent
      rcases List.mem_append.mp waits with loads | queued
      · obtain ⟨fetch, loading⟩ := tidy.loadingKeys_marked loads
        rcases tidy.out entry mem trivial key names with requested | contained
        · rw [loading] at requested
          cases requested
        · rw [tidy.still key contained] at loading
          cases loading
      · exact (tidy.unsent queued).2 entry mem trivial names
  refine ⟨once, ?_, ?_⟩
  · intro key waits
    refine tidy.absent key ?_
    rcases List.mem_append.mp waits with loads | queued
    · obtain ⟨fetch, loading⟩ := tidy.loadingKeys_marked loads
      rw [loading]
      exact Option.some_ne_none _
    · rw [tidy.waits key queued]
      exact Option.some_ne_none _
  · rw [once.dedup]
    unfold ClientCore.fetchedKeys ClientCore.queuedKeys
    rw [List.length_append, List.length_append, List.length_map]
    omega

/-- In a run whose steps are timely, each key is fetched once at most in every state, and no
step sends for what is on hand. -/
theorem timely_collapsed (config : Config) (inputs : List Input)
    (timely : Run.Steps (fun core input => (handle input core).state) ClientCore.Timely
      (.new config) inputs) :
    Run.Always (fun core input => (handle input core).state) ClientCore.Collapsed (.new config)
        inputs ∧
      Run.Steps (fun core input => (handle input core).state) ClientCore.Forgoes (.new config)
        inputs := by
  have steady : Run.Always (fun core input => (handle input core).state) Steady (.new config)
      inputs :=
    Run.steps_always _ (fun _ _ steady timely => (handle_collapses steady timely).steady)
      (steady_new config) timely
  refine ⟨fun early part => (steady early part).collapsed, fun early input part => ?_⟩
  have before := steady early ((List.prefix_append early [input]).trans part)
  intro entry mem absent key names
  have fills : entry.2.key.isSome := Option.isSome_iff_exists.mpr ⟨key, names⟩
  refine (handle_collapses before (timely early input part)).fresh entry
    (List.mem_filter.mpr ⟨mem, fills⟩) (fun earlier => absent ?_) key names
  exact List.mem_of_mem_filter earlier

end Collapse

/-! ## A tree that comes as a delta while its fetch waits -/

namespace Overtaken

/-- One slot, so that the second tree of a target waits for the first. -/
def config : Config :=
  { ClientCore.fresh.config with
    cache := { memoryBudget := 1000, disk := .disabled, maxInFlight := 1, renderOpts := {} } }

def resolved (root : BitVec 160) : ResolvedRef := ⟨⟨root⟩, .workingTree [] none none⟩

/-- Another client's event moves the targets. -/
def moved (seq : Seq) (base head : BitVec 160) : Input :=
  .server (.event {
    seq, ts := 0, author := .human "bob" "desk", clientId := ⟨9⟩, clientSeq := seq
    body := .reviewTargetsResolved ⟨7⟩ (.singleton ⟨⟨3⟩, resolved base, resolved head⟩) })

/-- The daemon answers the fetch of a tree. -/
def answered (id : RequestId) (root : BitVec 160) : Input :=
  .server (.response id (.treeSnapshot ⟨⟨3⟩, ⟨root⟩, []⟩))

/-- A review is opened, its targets resolve, and both trees arrive as they are asked for. -/
def quiet : List Input :=
  ClientCore.visit (plainReview 0) ++ [moved 1 1 2, answered 5 1, answered 8 2]

/-- The working tree moves from one root to another, without any change of its paths. -/
def delta (fromRoot toRoot : BitVec 160) : Input :=
  .server (.treeDelta ⟨⟨3⟩, ⟨fromRoot⟩, ⟨toRoot⟩, [], [], []⟩)

/-- The targets move on, and the new head's tree comes as a delta while its fetch waits. -/
def overtaken : List Input := quiet ++ [moved 2 3 4, delta 2 4]

/-- A presentation in which every value weighs one byte. -/
@[reducible] def weighing : Presentation := { Presentation.plain with encode := fun _ => [0] }

/-- Room for two trees. -/
def cramped : Config := { config with cache.memoryBudget := 2 }

/-- The new base's tree comes as a delta while its fetch is out; other trees push it out of
the cache, and then the targets move back to it. -/
def evicted : List Input :=
  quiet ++ [moved 2 3 4, delta 2 3, moved 3 5 6, delta 3 5, delta 5 6, moved 4 3 6]

end Overtaken

/-- The fetch of a tree that came as a delta still waits, and is sent when a slot is free.
When the tree is let go of while its fetch is out, it is fetched a second time. -/
theorem overtaken_sent : (¬ ∀ (config : Config) (inputs : List Input),
      Run.Steps (fun core input => (@handle Presentation.plain input core).state)
        (@ClientCore.Forgoes Presentation.plain) (.new config) inputs) ∧
    ¬ ∀ (config : Config) (inputs : List Input),
      Run.Always (fun core input => (@handle Overtaken.weighing input core).state)
        (fun core => core.fetchedKeys.Nodup) (.new config) inputs := by
  constructor
  · intro always
    have forgoes := always Overtaken.config (Overtaken.overtaken ++ [Overtaken.answered 9 3])
      Overtaken.overtaken (Overtaken.answered 9 3) (List.prefix_refl _)
    have sent : ¬ @ClientCore.Forgoes Presentation.plain
        (@ClientCore.run Presentation.plain (.new Overtaken.config) Overtaken.overtaken)
        (Overtaken.answered 9 3) := by
      unfold ClientCore.Forgoes
      decide +kernel
    exact sent forgoes
  · intro always
    have once := always Overtaken.cramped Overtaken.evicted Overtaken.evicted (List.prefix_refl _)
    have twice : ¬ (@ClientCore.run Overtaken.weighing (.new Overtaken.cramped)
        Overtaken.evicted).fetchedKeys.Nodup := by decide +kernel
    exact twice once

/-- Trees that come as they are asked for are timely. -/
theorem quiet_collapsed :
    Run.Always (fun core input => (@handle Presentation.plain input core).state)
        ClientCore.Collapsed (.new Overtaken.config) Overtaken.quiet ∧
      Run.Steps (fun core input => (@handle Presentation.plain input core).state)
        (@ClientCore.Forgoes Presentation.plain) (.new Overtaken.config) Overtaken.quiet :=
  @timely_collapsed Presentation.plain Overtaken.config Overtaken.quiet (by decide +kernel)

end Nits.ClientCore
