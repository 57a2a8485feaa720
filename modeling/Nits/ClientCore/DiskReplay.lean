import Nits.ClientCore.Accounting
import Nits.ClientCore.Atomicity
import Nits.ClientCore.Fetches
import Nits.ClientCore.StorageKeys
import Nits.Logical.Run

/-!
# The disk tier's index

The index stands for what the session has ordered: what it wrote, removed and loaded. An
index changes before its orders are given, so the two agree after each whole input, and a
rejected input touches neither. They part where a load's value is taken after the core has
ordered the key's removal: the index then lists a key that the host has dropped.
-/

set_option linter.dupNamespace false

namespace Nits.ClientCore

open Logical Logical.Handler Protocol

/-! ## What was ordered -/

/-- What was done with the host's store. A load has an answer once the host gave one:
whether its value was taken. -/
inductive Deed
  | wrote (key : Key)
  | removed (key : Key)
  | loaded (key : Key) (taken : Option Bool)
  deriving DecidableEq

def Effect.deed : Effect → Option Deed
  | .persist key _ => some (.wrote key)
  | .remove key => some (.removed key)
  | .load key => some (.loaded key none)
  | _ => none

/-- Whether a key is on disk after a deed. -/
def Deed.leaves (storage : Key) (held : Bool) : Deed → Bool
  | .wrote key => if key = storage then true else held
  | .removed key => if key = storage then false else held
  | .loaded key taken => if key = storage ∧ taken = some true then true else held

/-- Whether a key is on disk after some deeds, in their order. -/
def onDisk (storage : Key) (held : Bool) (deeds : List Deed) : Bool :=
  deeds.foldl (Deed.leaves storage) held

/-- The host answers the oldest load of a key that has no answer yet. -/
def answer (storage : Key) (taken : Bool) : List Deed → List Deed
  | [] => []
  | .loaded key none :: later =>
    if key = storage then .loaded key (some taken) :: later
    else .loaded key none :: answer storage taken later
  | deed :: later => deed :: answer storage taken later

section Replaying

variable {storage other : Key} {held : Bool} {early late deeds : List Deed}

theorem onDisk_append : onDisk storage held (early ++ late) =
    onDisk storage (onDisk storage held early) late :=
  List.foldl_append

/-- What is on disk stays there until it is removed. -/
theorem onDisk_kept (kept : .removed storage ∉ deeds) : onDisk storage true deeds = true := by
  induction deeds with
  | nil => rfl
  | cons deed later ih =>
    obtain ⟨first, kept⟩ := not_or.mp (List.mem_cons.not.mp kept)
    have stays : deed.leaves storage true = true := by
      cases deed with
      | removed key =>
        have other : key ≠ storage := fun same => first (same ▸ rfl)
        simp [Deed.leaves, other]
      | _ => simp [Deed.leaves]
    rw [onDisk, List.foldl_cons, stays]
    exact ih kept

theorem onDisk_answer_false : onDisk other held (answer storage false deeds) =
    onDisk other held deeds := by
  induction deeds generalizing held with
  | nil => rfl
  | cons deed later ih =>
    unfold answer
    split
    · next same => cases same
    · next same =>
      cases same
      split
      · simp [onDisk, Deed.leaves]
      · exact ih
    · next same =>
      cases same
      exact ih

theorem answer_append (fresh : .loaded storage none ∉ early) {taken : Bool} :
    answer storage taken (early ++ .loaded storage none :: late) =
      early ++ .loaded storage (some taken) :: late := by
  induction early with
  | nil => simp [answer]
  | cons deed later ih =>
    obtain ⟨first, fresh⟩ := not_or.mp (List.mem_cons.not.mp fresh)
    rw [List.cons_append, List.cons_append, ← ih fresh]
    cases deed with
    | loaded key answered =>
      cases answered with
      | none =>
        have other : key ≠ storage := fun same => first (same ▸ rfl)
        rw [answer, if_neg other]
      | some _ => rfl
    | _ => rfl

/-- Taking the value of a load whose key was not removed since puts the key, and no other,
on disk. -/
theorem onDisk_answer_true (fresh : .loaded storage none ∉ early) (kept : .removed storage ∉ late) :
    onDisk other held (answer storage true (early ++ .loaded storage none :: late)) =
      (onDisk other held (early ++ .loaded storage none :: late) || other = storage) := by
  rw [answer_append fresh, onDisk_append, onDisk_append]
  by_cases same : other = storage
  · subst same
    have stays := onDisk_kept kept
    simp only [onDisk, List.foldl_cons, Deed.leaves] at stays ⊢
    simp [stays]
  · have different : storage ≠ other := fun equal => same equal.symm
    simp [onDisk, Deed.leaves, same, different]

end Replaying

/-- The host's keys are those of the format. -/
class Presentation.Stores [Presentation] : Prop where
  storageKey : Presentation.storageKey = CacheKey.storageKey
  keysKey : Presentation.keysKey = "nits/keymap"

section Indexing

variable [Presentation]

/-- The index stands for what it stood for and what was ordered since, and for a key that
came with the input. -/
structure Indexed (came : Option CacheKey) (before : ClientCore) (orders : List Effect)
    (after : ClientCore) : Prop where
  off : before.content.disk = none → after.content.disk = none
  on : ∀ disk, before.content.disk = some disk → disk.ledger.Balanced →
    ∃ later, after.content.disk = some later ∧ later.ledger.Balanced ∧
      ∀ key, (later.sizes.lookup key).isSome = onDisk (Presentation.storageKey key)
        ((disk.sizes.lookup key).isSome || came = some key) (orders.filterMap Effect.deed)
  loads : ∀ entry ∈ after.content.loads, entry ∈ before.content.loads ∨
    entry.1 = Presentation.storageKey entry.2

/-- The index is the same, and nothing was stored or removed. -/
theorem indexed_same {before after : ClientCore} {orders : List Effect}
    (same : after.content.disk = before.content.disk)
    (loads : after.content.loads = before.content.loads)
    (quiet : ∀ effect ∈ orders, ¬ effect.isStorage) : Indexed none before orders after where
  off none_ := same.trans none_
  on disk has balanced := by
    refine ⟨disk, same.trans has, balanced, fun key => ?_⟩
    have still (held : Bool) : onDisk (Presentation.storageKey key) held
        (orders.filterMap Effect.deed) = held := by
      induction orders with
      | nil => rfl
      | cons effect later ih =>
        obtain ⟨first, quiet⟩ := List.forall_mem_cons.mp quiet
        have rest := ih quiet
        cases effect with
        | persist => exact absurd rfl first
        | remove => exact absurd rfl first
        | load => simpa [Effect.deed, onDisk, Deed.leaves] using rest
        | _ => exact rest
    rw [still]
    simp
  loads entry mem := .inl (loads ▸ mem)

theorem indexed_kept {before after : ClientCore} (same : after.content.disk = before.content.disk)
    (loads : after.content.loads = before.content.loads) : Indexed none before [] after :=
  indexed_same same loads (List.forall_mem_nil _)

theorem Indexed.then {came : Option CacheKey} {first second third : ClientCore}
    {early late : List Effect} (before : Indexed came first early second)
    (after : Indexed none second late third) : Indexed came first (early ++ late) third where
  off none_ := after.off (before.off none_)
  on disk has balanced := by
    obtain ⟨middle, has, balanced, held⟩ := before.on disk has balanced
    obtain ⟨later, has, balanced, last⟩ := after.on middle has balanced
    refine ⟨later, has, balanced, fun key => ?_⟩
    rw [last, held, List.filterMap_append, onDisk_append]
    simp
  loads entry mem := (after.loads entry mem).elim (before.loads entry) .inr

instance : Course (Indexed none) where
  stay _ := indexed_kept rfl rfl
  join := Indexed.then

/-- What is the same behind a mask that shows the index and the loads leaves both alone. -/
theorem indexed_behind {before after : ClientCore} (mask : ClientCore → ClientCore)
    (clear : ∀ core, (mask core).content.disk = core.content.disk)
    (loads : ∀ core, (mask core).content.loads = core.content.loads)
    (same : mask before = mask after) : Indexed none before [] after :=
  indexed_kept
    ((clear after).symm.trans
      ((congrArg (fun core => core.content.disk) same).symm.trans (clear before)))
    ((loads after).symm.trans
      ((congrArg (fun core => core.content.loads) same).symm.trans (loads before)))

theorem within_kept {ε : Type} (change : ClientCore → ClientCore)
    (same : ∀ core, (change core).content.disk = core.content.disk)
    (loads : ∀ core, (change core).content.loads = core.content.loads) :
    Within (Indexed none) (write change : Handler ClientCore Effect ε Unit) where
  moves core := indexed_kept (same core) (loads core)

theorem within_indexed {ε α : Type} {handler : Handler ClientCore Effect ε α}
    (same : ∀ core, (handler core).state.content.disk = core.content.disk)
    (loads : ∀ core, (handler core).state.content.loads = core.content.loads)
    (quiet : ∀ core, ∀ effect ∈ (handler core).orders, ¬ effect.isStorage) :
    Within (Indexed none) handler where
  moves core := indexed_same (same core) (loads core) (quiet core)

instance : Interface (Indexed none) where
  interface same := indexed_behind ClientCore.essence (fun _ => rfl) (fun _ => rfl) same
  hosted _ effect _ unstored := indexed_same rfl rfl fun other mem => by
    rwa [List.mem_singleton.mp mem]

omit [Presentation] in
/-- A load says nothing before its answer. -/
theorem deeds_matter (orders : List Effect) (storage : Key) (held : Bool) :
    onDisk storage held (orders.filterMap Effect.deed) =
      onDisk storage held ((orders.filter Effect.matters).filterMap Effect.deed) := by
  induction orders generalizing held with
  | nil => rfl
  | cons effect later ih =>
    cases effect with
    | load => simpa [Effect.deed, onDisk, Deed.leaves, Effect.matters, Effect.isSend,
        Effect.isStorage] using ih held
    | persist => exact ih _
    | remove => exact ih _
    | _ => exact ih held

instance : Forming (Indexed none) where
  formed same := indexed_behind ClientCore.formless (fun _ => rfl) (fun _ => rfl) same

instance : Deferring (Indexed none) where
  deferred same := indexed_behind ClientCore.undeferred (fun _ => rfl) (fun _ => rfl) same

instance : Buffering (Indexed none) where
  buffered same := indexed_behind ClientCore.unbuffered (fun _ => rfl) (fun _ => rfl) same

instance : Lists (Indexed none) where
  lists same := indexed_behind ClientCore.homeless (fun _ => rfl) (fun _ => rfl) same

instance : Latest (Indexed none) where
  latest same := indexed_behind ClientCore.unasked (fun _ => rfl) (fun _ => rfl) same

instance : Showing (Indexed none) where
  showed same := indexed_behind (fun core => core.unshown.1) (fun _ => rfl) (fun _ => rfl)
    (congrArg Prod.fst same)

instance : Fetching (Indexed none) where
  fetched same := indexed_behind ClientCore.unwanted (fun _ => rfl) (fun _ => rfl) same
  loads core fetch := by
    refine ⟨id, fun disk has balanced => ⟨disk, has, balanced, fun key => ?_⟩, fun entry mem => ?_⟩
    · simp [onDisk]
    · rcases List.mem_cons.mp mem with rfl | other
      · exact .inr rfl
      · exact .inl (List.mem_of_mem_filter other)
  answered core storage key := by
    refine ⟨id, fun disk has balanced => ⟨disk, has, balanced, fun key => ?_⟩, fun entry mem => ?_⟩
    · simp [onDisk]
    · exact .inl (List.mem_of_mem_filter mem)
  issued _ _ := within_indexed (fun _ => rfl) (fun _ => rfl) fun _ effect mem => by
    rw [List.mem_singleton.mp mem]
    exact Bool.false_ne_true

instance : Opening (Indexed none) where
  opened _ _ _ _ := indexed_kept rfl rfl

instance : Closes (Indexed none) where
  closes _ := indexed_kept rfl rfl

instance : Files (Indexed none) where
  files _ _ _ _ := indexed_kept rfl rfl

instance : Forgets (Indexed none) where
  reference _ := indexed_kept rfl rfl
  opening _ := indexed_kept rfl rfl

instance : Connects (Indexed none) where
  connects _ := within_kept _ (fun _ => rfl) fun _ => rfl

instance : Contexts (Indexed none) where
  contexts context := by
    unfold setReferenceContext
    exact within_then _ _ (within_kept _ (fun _ => rfl) fun _ => rfl) fun _ => inferInstance

/-- What sends messages only leaves the index alone. -/
theorem within_sends {ε α : Type} {handler : Handler ClientCore Effect ε α}
    (same : ∀ core, (handler core).state.content.disk = core.content.disk)
    (loads : ∀ core, (handler core).state.content.loads = core.content.loads)
    (sends : ∀ core, ∃ msg, (handler core).orders = [.send msg]) : Within (Indexed none) handler :=
  within_indexed same loads fun core effect mem => by
    obtain ⟨msg, sent⟩ := sends core
    rw [sent] at mem
    rw [List.mem_singleton.mp mem]
    exact Bool.false_ne_true

instance : Asks (Indexed none) where
  asks _ _ _ := within_sends (fun _ => rfl) (fun _ => rfl) fun _ => ⟨_, rfl⟩

instance : Refers (Indexed none) where
  refers reference := by
    unfold openReference.askReference
    refine within_next fun _ => ?_
    exact within_kept _ (fun _ => rfl) fun _ => rfl

instance : Greets (Indexed none) where
  greets _ _ := within_sends (fun _ => rfl) (fun _ => rfl) fun _ => ⟨_, rfl⟩

instance : Cancels (Indexed none) where
  cancels _ := within_sends (fun _ => rfl) (fun _ => rfl) fun _ => ⟨_, rfl⟩

instance : Supersedes (Indexed none) where
  supersedes _ := within_kept _ (fun _ => rfl) fun _ => rfl

instance : Drops (Indexed none) where
  drops _ := within_kept _ (fun _ => rfl) fun _ => rfl
  forgets _ := inferInstance
  stands _ _ _ := within_kept _ (fun _ => rfl) fun _ => rfl

instance : Loses (Indexed none) where
  loses := within_kept _ (fun _ => rfl) fun _ => rfl

/-! ## Writing and removing -/

section Storing

variable [storing : Presentation.Stores] {core : ClientCore} {disk : DiskIndex} {key : CacheKey}

theorem storageKey_inj {left right : CacheKey} :
    Presentation.storageKey left = Presentation.storageKey right ↔ left = right := by
  rw [storing.storageKey]
  exact CacheKey.storageKey_injective.eq_iff

instance : Options (Indexed none) where
  prefers _ := within_kept _ (fun _ => rfl) fun _ => rfl
  renders _ := within_kept _ (fun _ => rfl) fun _ => rfl
  keeps core bytes := by
    refine ⟨id, fun disk has balanced => ⟨disk, has, balanced, fun key => ?_⟩, fun _ => .inl⟩
    have apart : ViewPrefs.KEY ≠ Presentation.storageKey key := by
      rw [storing.storageKey]
      exact (key.storageKey_ne rfl).symm
    simp [Effect.deed, onDisk, Deed.leaves, apart]

theorem onDisk_removed (key : CacheKey) (held : Bool) (gone : List CacheKey) :
    onDisk (Presentation.storageKey key) held
      (gone.map fun key => Deed.removed (Presentation.storageKey key)) = (held && key ∉ gone) := by
  induction gone generalizing held with
  | nil => simp [onDisk]
  | cons first later ih =>
    rw [List.map_cons, onDisk, List.foldl_cons]
    have rest := ih (Deed.leaves (Presentation.storageKey key) held
      (.removed (Presentation.storageKey first)))
    rw [onDisk] at rest
    rw [rest]
    simp only [Deed.leaves, storageKey_inj, List.mem_cons, not_or]
    by_cases same : first = key
    · simp [same]
    · have other : key ≠ first := fun equal => same equal.symm
      simp [same, other]

omit storing in
theorem putDisk_run (core : ClientCore) (touched : DiskIndex × List CacheKey) : putDisk touched core =
    ⟨.ok (), touched.2.map fun key => .remove (Presentation.storageKey key),
      { core with content.disk := some touched.1 }⟩ := by
  have removes : ∀ (keys : List CacheKey) (core : ClientCore),
      ((each (fun key => order (.remove (Presentation.storageKey key))) keys : Client Unit) core) =
        ⟨.ok (), keys.map fun key => .remove (Presentation.storageKey key), core⟩ := by
    intro keys
    induction keys with
    | nil => exact fun _ => rfl
    | cons key later ih =>
      intro core
      change Handler.bind _ _ core = _
      simp only [Handler.bind, order, ih, List.map_cons, List.singleton_append]
  have ran : putDisk touched core = Handler.bind (write fun core =>
      { core with content.disk := some touched.1 }) (fun _ =>
        each (fun key => order (.remove (Presentation.storageKey key))) touched.2) core := rfl
  rw [ran]
  simp only [Handler.bind, write, removes, List.nil_append]

/-- Touching a key removes what the budget lets go, and brings the key. -/
theorem putDisk_indexed (has : core.content.disk = some disk) (key : CacheKey) (size : Nat) :
    Indexed (some key) core (putDisk (disk.touch key size) core).orders
      (putDisk (disk.touch key size) core).state := by
  rw [putDisk_run]
  refine ⟨fun none_ => ?_, fun old again balanced => ?_, fun _ => .inl⟩
  · rw [has] at none_
    cases none_
  obtain rfl := Option.some.inj (has.symm.trans again)
  refine ⟨_, rfl, (DiskIndex.orderly_touch balanced).balanced, fun other => ?_⟩
  have deeds : ((disk.touch key size).2.map fun key =>
      Effect.remove (Presentation.storageKey key)).filterMap Effect.deed =
        (disk.touch key size).2.map fun key => .removed (Presentation.storageKey key) := by
    rw [List.filterMap_map]
    exact congrFun List.filterMap_eq_map _
  rw [deeds, onDisk_removed, DiskIndex.lookup_touch balanced, Bool.or_comm]
  simp only [Option.some.injEq, eq_comm]

variable {orders : List Effect}

/-- A key that came and is written is accounted for. -/
theorem Indexed.written {before after : ClientCore} {bytes : Bytes}
    (indexed : Indexed (some key) before orders after)
    (kept : .remove (Presentation.storageKey key) ∉ orders) :
    Indexed none before (orders ++ [.persist (Presentation.storageKey key) bytes]) after where
  off := indexed.off
  loads := indexed.loads
  on disk has balanced := by
    obtain ⟨later, has, balanced, held⟩ := indexed.on disk has balanced
    refine ⟨later, has, balanced, fun other => ?_⟩
    rw [held, List.filterMap_append, onDisk_append]
    by_cases same : other = key
    · subst same
      have stays : onDisk (Presentation.storageKey other) true
          (orders.filterMap Effect.deed) = true := by
        refine onDisk_kept fun mem => kept ?_
        obtain ⟨effect, ordered, deed⟩ := List.mem_filterMap.mp mem
        cases effect with
        | remove storage =>
          cases deed
          exact ordered
        | _ => cases deed
      have came : ((disk.sizes.lookup other).isSome || decide (some other = some other)) = true := by
        simp
      rw [came, stays]
      simp [Effect.deed, onDisk, Deed.leaves]
    · have apart : Presentation.storageKey key ≠ Presentation.storageKey other := fun equal =>
        same (storageKey_inj.mp equal).symm
      have other_ : key ≠ other := fun equal => same equal.symm
      simp [Effect.deed, onDisk, Deed.leaves, apart, other_]

variable {came : Option CacheKey}

omit storing in
/-- An index that is not balanced is not looked at. -/
theorem Indexed.balanced_of {before after : ClientCore} (has : before.content.disk = some disk)
    (loads : after.content.loads = before.content.loads)
    (indexed : disk.ledger.Balanced → Indexed came before orders after) :
    Indexed came before orders after where
  loads entry mem := .inl (loads ▸ mem)
  off none_ := by
    rw [has] at none_
    cases none_
  on old again balanced := by
    obtain rfl := Option.some.inj (has.symm.trans again)
    exact (indexed balanced).on disk has balanced

instance (key : CacheKey) (value : CacheValue) :
    Within (Indexed none) (persist key value) where
  moves core := by
    unfold persist
    rw [read_bind]
    cases has : core.content.disk with
    | none => exact Course.stay core
    | some disk =>
      dsimp only
      let touched := disk.touch key (Presentation.encode value).length
      have moved : Indexed (some key) core (putDisk touched core).orders (putDisk touched core).state :=
        putDisk_indexed has key _
      rw [bind_ok core (show (putDisk touched core).result = .ok () by rw [putDisk_run])]
      refine Indexed.balanced_of has (by rw [putDisk_run]; rfl) fun balanced => ?_
      have kept : .remove (Presentation.storageKey key) ∉ (putDisk touched core).orders := by
        rw [putDisk_run]
        intro mem
        obtain ⟨gone, isGone, same⟩ := List.mem_map.mp mem
        obtain rfl := storageKey_inj.mp (Effect.remove.inj same)
        exact DiskIndex.touch_kept balanced isGone
      exact moved.written kept

/-- A key that the index knows is touched again. -/
theorem putDisk_known (has : core.content.disk = some disk) (known : (disk.sizes.lookup key).isSome)
    {size : Nat} : Moves (Indexed none) core (putDisk (disk.touch key size)) := by
  have moved := putDisk_indexed has key size
  refine ⟨moved.off, fun old again balanced => ?_, moved.loads⟩
  obtain ⟨later, has', balanced', held⟩ := moved.on old again balanced
  obtain rfl := Option.some.inj (has.symm.trans again)
  refine ⟨later, has', balanced', fun other => (held other).trans ?_⟩
  by_cases same : other = key
  · subst same
    simp [known]
  · have apart : key ≠ other := fun equal => same equal.symm
    simp [apart]

instance (evicted : List Evicted) : Within (Indexed none) (writeThrough evicted) := by
  unfold writeThrough
  refine @within_each _ _ _ _ (Indexed none) _ _ _ fun gone => ⟨fun core => moves_read ?_⟩
  cases has : core.content.disk with
  | none => exact Course.stay core
  | some disk =>
    dsimp only
    split
    next known =>
      refine putDisk_known has ?_
      obtain ⟨entry, mem, same⟩ := List.any_eq_true.mp known
      have held : gone.key ∈ disk.sizes.map Prod.fst :=
        List.mem_map.mpr ⟨entry, mem, of_decide_eq_true same⟩
      have holds : disk.ledger.holds gone.key := Ledger.holds_iff.mpr held
      exact holds
    · exact Within.moves core

instance (changed : ContentCache × List Evicted) : Within (Indexed none) (putCache changed) :=
  within_then _ _ (within_kept _ (fun _ => rfl) fun _ => rfl) fun _ => inferInstance

instance : Pins (Indexed none) where
  pins _ := within_kept _ (fun _ => rfl) fun _ => rfl
  repins _ := within_kept _ (fun _ => rfl) fun _ => rfl
  retains := by
    unfold retainReviewPins
    infer_instance
  releases := by
    unfold reviewClosed
    exact within_then _ _ (within_kept _ (fun _ => rfl) fun _ => rfl) fun _ => inferInstance
  prunes _ := within_kept _ (fun _ => rfl) fun _ => rfl

instance : Stores (Indexed none) where
  stores key value via := by
    unfold arrived insertArrived
    refine within_next fun _ => within_next fun _ => ?_
    split
    · split <;> infer_instance
    · split
      · infer_instance
      · split <;> infer_instance
    · infer_instance

instance : Acts (Indexed none) where

instance : Receives (Indexed none) where

instance : Streams (Indexed none) where

instance : Fails (Indexed none) where

/-! ## Answers of the host -/

/-- Each load waits under its key's text. -/
def ClientCore.Keyed (core : ClientCore) : Prop :=
  ∀ entry ∈ core.content.loads, entry.1 = Presentation.storageKey entry.2

omit storing in
/-- Where there is no disk tier, orders are not looked at. -/
theorem indexed_off {before after : ClientCore} (off : before.content.disk = none)
    (still : after.content.disk = none)
    (loads : ∀ entry ∈ after.content.loads, entry ∈ before.content.loads ∨
      entry.1 = Presentation.storageKey entry.2) : Indexed came before orders after where
  off _ := still
  on disk has := by
    rw [off] at has
    cases has
  loads := loads

omit storing in
/-- Forgetting a load comes before what its value brings. -/
theorem Indexed.unloaded {after : ClientCore} (storage : Key) (key : CacheKey)
    (indexed : Indexed came (core.unloaded storage key) orders after) :
    Indexed came core orders after where
  off := indexed.off
  on := indexed.on
  loads entry mem := (indexed.loads entry mem).imp_left List.mem_of_mem_filter

/-- A key whose value is no good is forgotten and removed. -/
theorem forget_indexed (has : core.content.disk = some disk) :
    Indexed none core [.remove (Presentation.storageKey key)]
      { core with content.disk := some (disk.forget key) } where
  off none_ := by
    rw [has] at none_
    cases none_
  on old again balanced := by
    obtain rfl := Option.some.inj (has.symm.trans again)
    refine ⟨_, rfl, (DiskIndex.orderly balanced (.forget key)).balanced, fun other => ?_⟩
    rw [DiskIndex.lookup_forget]
    by_cases same : other = key
    · simp [same, Effect.deed, onDisk, Deed.leaves]
    · have apart : Presentation.storageKey key ≠ Presentation.storageKey other := fun equal =>
        same (storageKey_inj.mp equal).symm
      simp [same, apart, Effect.deed, onDisk, Deed.leaves]
  loads _ := .inl

/-- What a good value brings is in the index, with what it makes room for out of it. -/
theorem recalled_indexed {storage : Key} {fetch : Fetch} {bytes : Bytes} {found : CacheValue}
    (good : (Presentation.decode bytes).filter (fun found => found.matches key) = some found) :
    Indexed (some key) core (stored.loaded storage key fetch (some bytes) core).orders
      (stored.loaded storage key fetch (some bytes) core).state := by
  unfold stored.loaded
  dsimp only
  rw [read_bind, good]
  dsimp only
  cases has : core.content.disk with
  | none =>
    have arrives : Indexed none core (arrived key found .disk core).orders
        (arrived key found .disk core).state := Within.moves core
    exact indexed_off has (arrives.off has) arrives.loads
  | some disk =>
    dsimp only
    have ran := putDisk_run core (disk.touch key bytes.length)
    rw [bind_ok core (show (putDisk (disk.touch key bytes.length) core).result = .ok () by rw [ran])]
    have arrives : Within (Indexed none) (arrived key found .disk) := inferInstance
    exact (putDisk_indexed has key bytes.length).then (arrives.moves _)

/-- A value that is no good is removed, and none brings nothing. -/
theorem refused_indexed {fetch : Fetch} {value : Option Bytes} (bad : ∀ bytes, value = some bytes →
      (Presentation.decode bytes).filter (fun found => found.matches key) = none) :
    Indexed none core (stored.loaded (Presentation.storageKey key) key fetch value core).orders
      (stored.loaded (Presentation.storageKey key) key fetch value core).state := by
  cases value with
  | none =>
    have queues : Within (Indexed none) (enqueue fetch) := inferInstance
    exact queues.moves core
  | some bytes =>
    unfold stored.loaded
    dsimp only
    rw [read_bind, bad bytes rfl]
    dsimp only
    cases has : core.content.disk with
    | none =>
      have queues : Indexed none core (enqueue fetch core).orders (enqueue fetch core).state :=
        Within.moves core
      exact indexed_off has (queues.off has) queues.loads
    | some disk =>
      dsimp only
      have ran := putDisk_run core (disk.forget key, [])
      rw [bind_ok core (show (putDisk (disk.forget key, []) core).result = .ok () by rw [ran]), ran]
      have queues : Within (Indexed none) (enqueue fetch) := inferInstance
      exact (forget_indexed has).then (queues.moves _)

/-- The host's answer to a load brings the key that it recalls, if any. -/
theorem stored_indexed (keyed : core.Keyed) {storage : Key} {value : Option Bytes}
    (content : ¬ (storage = ViewPrefs.KEY ∨ storage = Presentation.keysKey)) :
    Indexed (core.recalls storage value) core (stored storage value core).orders
      (stored storage value core).state := by
  unfold ClientCore.recalls stored
  rw [if_neg content, read_bind]
  cases looked : core.content.loads.lookup storage with
  | none => exact Course.stay core
  | some key =>
    have named : storage = Presentation.storageKey key := keyed _ (Association.mem_of_lookup looked)
    dsimp only
    have ran (rest : Risky Unit) :
        ((always (stored.forgetLoad storage key) >>= fun _ => rest : Risky Unit) core) =
          rest (core.unloaded storage key) := rfl
    rw [ran]
    have nothing : Indexed none core
        ((pure () : Risky Unit) (core.unloaded storage key)).orders
        ((pure () : Risky Unit) (core.unloaded storage key)).state :=
      Indexed.unloaded storage key (Course.stay _)
    cases mark : core.content.pending.lookup key with
    | none => exact nothing
    | some wanted =>
      cases wanted with
      | loading fetch =>
        dsimp only
        rw [always_orders, always_state]
        refine Indexed.unloaded storage key ?_
        cases good : (value.bind Presentation.decode).filter fun found => found.matches key with
        | none =>
          rw [if_neg (by simp [← Option.isSome_filter, good]), named]
          refine refused_indexed fun bytes same => ?_
          subst same
          exact good
        | some found =>
          rw [if_pos (by rw [← Option.isSome_filter, good]; rfl)]
          cases value with
          | none => cases good
          | some bytes => exact recalled_indexed good
      | _ => exact nothing

end Storing

/-! ## Rejected inputs -/

section Rejecting

variable {core : ClientCore}

instance atomic_setFocus (focus : Focus) : Atomic ClientCore.content (setFocus focus) := by
  have viewed (file : FileRef) (firstRow lastRow : Nat) :
      Atomic ClientCore.content (viewport file firstRow lastRow) :=
    ⟨fun core error failed => congrArg ClientCore.content
      ((inferInstance : Atomic id (viewport file firstRow lastRow)).atomic core error failed)⟩
  have panelled (change : Panels → Panels) :
      Still ClientCore.content (liftM (panels change) : Risky Unit) :=
    have : Still ClientCore.content (panels change) := ⟨fun _ => rfl⟩
    still_lift _
  unfold setFocus
  refine atomic_next fun core => ?_
  split
  · infer_instance
  refine atomic_next fun _ => atomic_next fun core => ?_
  dsimp only
  refine atomic_next fun _ => ?_
  split
  · split <;> infer_instance
  · infer_instance

variable {error : CoreError}

theorem act_spares {action : Action} (failed : (act action core).result = .error error) :
    (act action core).state.content = core.content := by
  cases action with
  | setFocus focus => exact (atomic_setFocus focus).atomic core error failed
  | _ => exact congrArg Pledged.content (act_error failed id)

theorem runCommand_spares {command : Command}
    (failed : (runCommand command core).result = .error error) :
    (runCommand command core).state.content = core.content := by
  cases resolved : Presentation.resolve core command with
  | error reason =>
    simp only [runCommand, bind_run, Handler.bind, Handler.read, resolved, Handler.fail]
  | ok found =>
    have ran : (runCommand command core).result = (act found.action core).result ∧
        (runCommand command core).state = (act found.action core).state := by
      simp only [runCommand, bind_run, Handler.bind, Handler.read, resolved, and_self]
    rw [ran.1] at failed
    rw [ran.2]
    exact act_spares failed

theorem key_spares {chord : KeyChord} (failed : (key chord core).result = .error error) :
    (key chord core).state.content = core.content := by
  cases looked : Presentation.lookup core (core.keys.chords ++ [chord]) with
  | command command =>
    have ran : key chord core = (runCommand command >>= fun _ =>
        pure (some command) : Risky (Option Command)) core.unchorded := by
      simp only [key, bind_run, Handler.bind, Handler.read, looked, List.nil_append]
      rfl
    rw [ran] at failed ⊢
    obtain early | ⟨_, _, late⟩ := bind_fails _ failed
    · rw [bind_error _ early]
      exact runCommand_spares early
    · cases late
  | _ =>
    refine congrArg Pledged.content (key_error failed fun command found => ?_)
    rw [looked] at found
    cases found

theorem keyPressed_spares {chord : KeyChord}
    (failed : (keyPressed chord core).result = .error error) :
    (keyPressed chord core).state.content = core.content := by
  obtain ⟨fault, pressed, left⟩ := keyPressed_fails failed
  rw [left]
  exact key_spares pressed

/-- A rejected input leaves the index and the loads alone. -/
theorem route_spares {input : Input} (failed : (route input core).result = .error error) :
    (route input core).state.content.disk = core.content.disk ∧
      (route input core).state.content.loads = core.content.loads := by
  have both {left : ClientCore} (same : left.content = core.content) :
      left.content.disk = core.content.disk ∧ left.content.loads = core.content.loads := by
    rw [same]
    exact ⟨rfl, rfl⟩
  have pledged (kept : ¬ core.slips input) (plain : core.refusal input = none) :
      (route input core).state.content = core.content := by
    have left := route_error failed kept
    rw [plain] at left
    exact congrArg Pledged.content left
  cases input with
  | user action =>
    cases action with
    | runCommand command => exact both (runCommand_spares failed)
    | _ => exact both (act_spares failed)
  | key chord => exact both (keyPressed_spares failed)
  | server msg =>
    cases refused : core.refusal (.server msg) with
    | none => exact both (pledged id refused)
    | some refusal =>
      have left := route_error failed id
      rw [refused] at left
      rw [left]
      exact ⟨rfl, rfl⟩
  | _ => exact both (pledged id rfl)

end Rejecting

/-! ## One input -/

section Handling

variable [storing : Presentation.Stores] {core : ClientCore}

/-- The index follows what a key press orders. -/
theorem keyPressed_indexed {chord : KeyChord} (taken : (keyPressed chord core).result = .ok ()) :
    Indexed none core (keyPressed chord core).orders (keyPressed chord core).state := by
  have pressing : Within (Indexed none) (key chord) := inferInstance
  have moved := pressing.moves core.counted
  rw [keyPressed_eq] at taken ⊢
  cases pressed : key chord core.counted with
  | mk result orders left =>
    rw [pressed] at moved
    cases result with
    | error fault =>
      have ran : (attempt (key chord) core.counted :
          Handled ClientCore Effect CoreError (Except CoreError (Option Command))) =
            ⟨.ok (.error fault), [], left⟩ := by
        unfold attempt
        rw [pressed]
      rw [bind_ok _ (by rw [ran])] at taken
      cases taken
    | ok command =>
      have ran : (attempt (key chord) core.counted :
          Handled ClientCore Effect CoreError (Except CoreError (Option Command))) =
            ⟨.ok (.ok command), orders, left⟩ := by
        unfold attempt
        rw [pressed]
      rw [bind_ok _ (by rw [ran]), ran]
      have last : Within (Indexed none) (always (setLastKey command) : Risky Unit) := inferInstance
      have whole := moved.then (last.moves left)
      exact ⟨whole.off, whole.on, whole.loads⟩

namespace ClientCore

/-- The key whose value the core takes from a load. -/
def takes (core : ClientCore) : Input → Option CacheKey
  | .stored storage value => core.recalls storage value
  | _ => none

end ClientCore

/-- The index follows what an input orders, and what its value brings. -/
theorem route_indexed (keyed : core.Keyed) {input : Input}
    (taken : (route input core).result = .ok ()) :
    Indexed (core.takes input) core (route input core).orders (route input core).state := by
  cases input with
  | stored storage value =>
    simp only [route, loadAnswered, ClientCore.takes]
    split
    next prefs =>
      rw [ClientCore.recalls, if_pos (.inl prefs)]
      exact Within.moves core
    next notPrefs =>
      split
      next keys =>
        rw [ClientCore.recalls, if_pos (.inr keys)]
        exact Within.moves core
      next notKeys => exact stored_indexed keyed (not_or.mpr ⟨notPrefs, notKeys⟩)
  | key chord => exact keyPressed_indexed taken
  | _ =>
    simp only [route, ClientCore.takes]
    exact Within.moves core

omit storing in
/-- A value is taken by no rejected input. -/
theorem takes_rejected {input : Input} {error : CoreError}
    (failed : (route input core).result = .error error) : core.takes input = none := by
  cases input with
  | stored storage value =>
    simp only [route, loadAnswered] at failed
    change core.recalls storage value = none
    unfold ClientCore.recalls
    split
    next => rfl
    next content =>
      obtain ⟨notPrefs, notKeys⟩ := not_or.mp content
      rw [if_neg notPrefs, if_neg notKeys] at failed
      cases looked : core.content.loads.lookup storage with
      | none => rfl
      | some key =>
        unfold stored at failed
        rw [read_bind, looked] at failed
        dsimp only at failed
        obtain early | ⟨_, _, late⟩ := bind_fails _ failed
        · exact absurd early (Sure.sure core error)
        · cases mark : core.content.pending.lookup key with
          | none =>
            rw [mark] at late
            cases late
          | some wanted =>
            rw [mark] at late
            cases wanted with
            | loading fetch => exact absurd late (Sure.sure _ error)
            | _ => cases late
  | _ => rfl

theorem handle_indexed (keyed : core.Keyed) (input : Input) :
    Indexed (core.takes input) core (handle input core).orders (handle input core).state := by
  cases ran : (route input core).result with
  | error error =>
    obtain ⟨disk, loads⟩ := route_spares ran
    rw [takes_rejected ran]
    have handled : handle input core = ⟨.error error, [], (route input core).state⟩ := by
      unfold handle
      split
      next same =>
        rw [same] at ran ⊢
        cases ran
        rfl
      next same =>
        rw [same] at ran
        cases ran
    rw [handled]
    exact indexed_kept disk loads
  | ok value =>
    have handled : handle input core = ⟨.ok (), rendered (route input core).orders
        (Presentation.changed (route input core).state (route input core).state.derive),
          (route input core).state.derive⟩ := by
      unfold handle
      split
      next same =>
        rw [same] at ran
        cases ran
      next same => rw [same]
    rw [handled]
    have moved := (route_indexed keyed ran).then (derive_moves _)
    rw [List.append_nil] at moved
    refine ⟨moved.off, fun disk has balanced => ?_, moved.loads⟩
    obtain ⟨later, has, balanced, held⟩ := moved.on disk has balanced
    refine ⟨later, has, balanced, fun key => ?_⟩
    rw [held, deeds_matter, deeds_matter (rendered _ _), rendered_matters]

/-- Each load goes on waiting under its key's text. -/
theorem handle_keyed (keyed : core.Keyed) (input : Input) : (handle input core).state.Keyed := by
  intro entry mem
  exact ((handle_indexed keyed input).loads entry mem).elim (keyed entry) id

end Handling

/-! ## Sessions -/

/-- The input answers no load with a value. -/
def Input.empty : Input → Bool
  | .stored _ (some _) => false
  | _ => true

/-- A core, and what was ordered since it was new. -/
structure Session where
  core : ClientCore
  deeds : List Deed

namespace Session

omit [Presentation] in
def new (config : Config) : Session := ⟨.new config, []⟩

/-- The deeds, with the host's answer to a load noted. -/
def told (session : Session) (input : Input) : List Deed :=
  match input with
  | .stored storage _ => answer storage (session.core.takes input).isSome session.deeds
  | _ => session.deeds

/-- Take one input: note what it answers, then what it orders. -/
def step (session : Session) (input : Input) : Session where
  core := (handle input session.core).state
  deeds := session.told input ++ (handle input session.core).orders.filterMap Effect.deed

/-- The input brings no value of a key whose removal was ordered after the load that the
host answers. -/
def Current (session : Session) (input : Input) : Prop :=
  ∀ key ∈ session.core.takes input, ∃ early late,
    session.deeds = early ++ .loaded (Presentation.storageKey key) none :: late ∧
      .loaded (Presentation.storageKey key) none ∉ early ∧
        .removed (Presentation.storageKey key) ∉ late

/-- The index lists what is on disk after all that was ordered. -/
def Exact (session : Session) : Prop :=
  ∀ disk, session.core.content.disk = some disk → ∀ key,
    key ∈ disk.sizes.map Prod.fst ↔ onDisk (Presentation.storageKey key) false session.deeds

/-- The index is balanced and exact, and each load waits under its key's text. -/
structure Accounted (session : Session) : Prop where
  keyed : session.core.Keyed
  balanced : ∀ disk, session.core.content.disk = some disk → disk.ledger.Balanced
  exact_ : session.Exact

variable [storing : Presentation.Stores] {session : Session} {input : Input}

omit storing in
theorem Accounted.new (config : Config) : (Session.new config).Accounted := by
  have fresh {disk : DiskIndex} (has : (ClientCore.new config).content.disk = some disk) :
      ∃ budget, disk = .new budget := by
    simp only [ClientCore.new, Content.new] at has
    split at has
    · cases has
    · exact ⟨_, (Option.some.inj has).symm⟩
  refine ⟨fun entry mem => (by cases mem), fun disk has => ?_, fun disk has key => ?_⟩
  · obtain ⟨budget, rfl⟩ := fresh has
    exact DiskIndex.new_balanced budget
  · obtain ⟨budget, rfl⟩ := fresh has
    exact iff_of_false List.not_mem_nil Bool.false_ne_true

/-- What the deeds say once the host's answer is noted. -/
theorem Accounted.answered (accounted : session.Accounted) (current : session.Current input)
    (key : CacheKey) : onDisk (Presentation.storageKey key) false (session.told input) =
      (onDisk (Presentation.storageKey key) false session.deeds ||
        session.core.takes input = some key) := by
  cases input with
  | stored storage value =>
    dsimp only [told]
    cases takes : session.core.takes (.stored storage value) with
    | none =>
      rw [Option.isSome_none, onDisk_answer_false]
      simp
    | some taken =>
      obtain ⟨early, late, deeds, fresh, kept⟩ := current taken (by rw [takes]; rfl)
      have named : storage = Presentation.storageKey taken := by
        replace takes : session.core.recalls storage value = some taken := takes
        unfold ClientCore.recalls at takes
        split at takes
        · cases takes
        split at takes
        · cases takes
        next looked =>
          split at takes
          · split at takes
            · cases takes
              exact accounted.keyed _ (Association.mem_of_lookup looked)
            · cases takes
          · cases takes
      rw [Option.isSome_some, named, deeds, onDisk_answer_true fresh kept]
      congr 1
      simp [storageKey_inj, eq_comm]
  | _ => simp [told, ClientCore.takes]

theorem Accounted.step (accounted : session.Accounted) (current : session.Current input) :
    (session.step input).Accounted := by
  have indexed := handle_indexed accounted.keyed input
  have found {disk : DiskIndex} (has : (session.step input).core.content.disk = some disk) :
      ∃ before, session.core.content.disk = some before := by
    cases was : session.core.content.disk with
    | none =>
      have still := indexed.off was
      rw [show (handle input session.core).state.content.disk = some disk from has] at still
      cases still
    | some before => exact ⟨before, rfl⟩
  refine ⟨handle_keyed accounted.keyed input, fun disk has => ?_, fun disk has key => ?_⟩
  · obtain ⟨before, was⟩ := found has
    obtain ⟨later, is, balanced, _⟩ := indexed.on before was (accounted.balanced before was)
    obtain rfl := Option.some.inj (is.symm.trans has)
    exact balanced
  · obtain ⟨before, was⟩ := found has
    obtain ⟨later, is, _, held⟩ := indexed.on before was (accounted.balanced before was)
    obtain rfl := Option.some.inj (is.symm.trans has)
    have listed (disk : DiskIndex) :
        (disk.sizes.lookup key).isSome ↔ key ∈ disk.sizes.map Prod.fst :=
      Ledger.holds_iff.trans (a := disk.ledger.holds key) .rfl
    have earlier : (before.sizes.lookup key).isSome =
        onDisk (Presentation.storageKey key) false session.deeds :=
      Bool.eq_iff_iff.mpr ((listed before).trans (accounted.exact_ before was key))
    rw [← listed, held, earlier, ← accounted.answered current]
    simp only [Session.step, onDisk_append]

omit storing in
theorem current_of_empty (empty : input.empty) : session.Current input := by
  intro key taken
  cases input with
  | stored storage value =>
    cases value with
    | some bytes => cases empty
    | none =>
      simp only [ClientCore.takes, ClientCore.recalls, Option.bind_none, Option.any_none] at taken
      split at taken
      · cases taken
      · split at taken
        · cases taken
        · split at taken <;> cases taken
  | _ => cases taken

/-- Where each value is taken from a load that is still current, the index lists in every
state exactly what is on disk. -/
theorem current_exact (config : Config) (inputs : List Input)
    (current : Run.Steps step Current (.new config) inputs) :
    Run.Always step Exact (.new config) inputs := by
  intro early part
  exact (Run.steps_always step (fun _ _ accounted current => accounted.step current)
    (Accounted.new config) current early part).exact_

end Session

end Indexing

/-! ## Both tiers -/

/-- Each operation of either tier is orderly after any others, and an insertion or a release
into the memory tier fits exactly where no single unpinning leaves too much. Where each value
is taken from a load that is still current, the disk index lists what the session's deeds
leave. Byte counts are the source's `u64` within its range. -/
theorem cache_accounts (budget : Nat) :
    (∀ (operations : List ContentCache.Operation) (operation : ContentCache.Operation),
      ((ContentCache.new budget).performAll operations).ledger.Balanced ∧
        ((ContentCache.new budget).performAll operations).Orderly operation) ∧
    (∀ (operations : List DiskIndex.Operation) (operation : DiskIndex.Operation),
      ((DiskIndex.new budget).performAll operations).ledger.Balanced ∧
        ((DiskIndex.new budget).performAll operations).Orderly operation) ∧
    ∀ [Presentation] [Presentation.Stores] (config : Config) (inputs : List Input),
      Run.Steps Session.step Session.Current (.new config) inputs →
        Run.Always Session.step Session.Exact (.new config) inputs := by
  refine ⟨fun operations operation => ?_, fun operations operation => ?_, ?_⟩
  · have balanced := ContentCache.performAll_balanced (ContentCache.new_balanced budget) operations
    exact ⟨balanced, ContentCache.orderly balanced operation⟩
  · have balanced := DiskIndex.performAll_balanced (DiskIndex.new_balanced budget) operations
    exact ⟨balanced, DiskIndex.orderly balanced operation⟩
  · intro _ _ config inputs current
    exact Session.current_exact config inputs current

namespace Late

def key (root : BitVec 160) : CacheKey := .tree ⟨⟨3⟩, ⟨root⟩⟩

/-- A host whose keys are the format's, where every value weighs one byte and reads back as
the first tree. -/
@[reducible] def host : Presentation :=
  { Presentation.plain with
    storageKey := CacheKey.storageKey
    encode := fun _ => [0]
    decode := fun _ => some (.tree ⟨⟨3⟩, ⟨1⟩, []⟩) }

theorem host_stores : @Presentation.Stores host := @Presentation.Stores.mk host rfl rfl

/-- Room for one tree in memory and two on disk. -/
def config : Config :=
  { ClientCore.fresh.config with
    cache := { memoryBudget := 1, disk := .enabled 2, maxInFlight := 2, renderOpts := {} } }

def resolved (root : BitVec 160) : ResolvedRef := ⟨⟨root⟩, .workingTree [] none none⟩

/-- Another client's event moves the targets. -/
def moved (seq : Seq) (base head : BitVec 160) : Input :=
  .server (.event {
    seq, ts := 0, author := .human "bob" "desk", clientId := ⟨9⟩, clientSeq := seq
    body := .reviewTargetsResolved ⟨7⟩ (.singleton ⟨⟨3⟩, resolved base, resolved head⟩) })

/-- The host has no value for a tree, and the daemon sends it. -/
def fetched (id : RequestId) (root : BitVec 160) : List Input :=
  [.stored (key root).storageKey none, .server (.response id (.treeSnapshot ⟨⟨3⟩, ⟨root⟩, []⟩))]

/-- Two trees are fetched in turn, so that the first is on disk only. -/
def twice : List Input :=
  ClientCore.subscription 0 ++
    [.user (.openReview ⟨7⟩), .server (.response 3 (.reviewSnapshot (plainReview 0)))] ++
    moved 1 1 1 :: fetched 8 1 ++ moved 2 2 2 :: fetched 11 2

/-- The first tree is asked for once more. -/
def recalled : List Input := twice ++ [moved 3 1 1]

/-- The first tree is asked for once more, along with a third that comes first and takes its
room on disk. -/
def asked : List Input := twice ++ moved 3 3 1 :: fetched 14 3

/-- The host's answer to the load of the first tree, which it took before any removal. -/
def answered : Input := .stored (key 1).storageKey (some [0])

end Late

/-- A session whose load of a tree is answered while the tree is on disk. -/
theorem asked_exact : Run.Always (@Session.step Late.host) (@Session.Exact Late.host)
    (.new Late.config) (Late.recalled ++ [Late.answered]) := by
  obtain ⟨_, _, current⟩ := cache_accounts 0
  refine @current Late.host Late.host_stores Late.config (Late.recalled ++ [Late.answered]) ?_
  refine (Run.steps_append _).mpr ⟨?_, (Run.steps_cons _).mpr ⟨?_, Run.steps_nil _⟩⟩
  · refine Run.steps_of_forall _ fun input mem session => @Session.current_of_empty Late.host _ _ ?_
    have empty : ∀ input ∈ Late.recalled, input.empty = true := by decide +kernel
    exact empty input mem
  · generalize ran : Late.recalled.foldl (@Session.step Late.host) (.new Late.config) = session
    obtain ⟨taken, last, fresh⟩ : @ClientCore.takes Late.host session.core Late.answered =
        some (Late.key 1) ∧
      session.deeds.dropLast ++ [.loaded (Late.key 1).storageKey none] = session.deeds ∧
      .loaded (Late.key 1).storageKey none ∉ session.deeds.dropLast := by
      subst ran
      decide +kernel
    intro key mem
    obtain rfl : Late.key 1 = key := Option.some.inj (taken.symm.trans mem)
    exact ⟨_, [], last.symm, fresh, List.not_mem_nil⟩

/-- Releasing a single pin makes no room for what was pinned. And a value that was loaded
before its key was removed comes to be listed as if it were on disk. -/
theorem unpin_overfills_and_late_listed :
    (¬ ∀ (budget : Nat) (operations : List ContentCache.Operation)
      (operation : ContentCache.Operation), operation.presses →
        (((ContentCache.new budget).performAll operations).perform operation).1.Fits) ∧
    ¬ ∀ [Presentation] [Presentation.Stores] (config : Config) (inputs : List Input),
      Run.Always Session.step Session.Exact (.new config) inputs := by
  constructor
  · intro fits
    let tree : CacheValue := .tree ⟨⟨3⟩, ⟨1⟩, []⟩
    have concluded := fits 5 [.pin (Late.key 1), .insert (Late.key 1) tree 10] (.unpin (Late.key 1)) trivial
    rcases concluded with roomy | pinned
    · exact absurd roomy (by decide)
    · exact absurd (pinned _ List.mem_cons_self) List.not_mem_nil
  · intro always
    have exact_ := @always Late.host Late.host_stores Late.config (Late.asked ++ [Late.answered])
      (Late.asked ++ [Late.answered]) (List.prefix_refl _)
    have parts : (((Late.asked ++ [Late.answered]).foldl (@Session.step Late.host)
        (.new Late.config)).core.content.disk.any fun disk =>
          Late.key 1 ∈ disk.sizes.map Prod.fst) = true ∧
        onDisk (Late.key 1).storageKey false ((Late.asked ++ [Late.answered]).foldl
          (@Session.step Late.host) (.new Late.config)).deeds = false := by
      decide +kernel
    obtain ⟨listed, gone⟩ := parts
    obtain ⟨disk, has, mem⟩ := (Option.any_eq_true _ _).mp listed
    have there := (exact_ disk has (Late.key 1)).mp (of_decide_eq_true mem)
    exact Bool.false_ne_true (gone.symm.trans there)

end Nits.ClientCore
