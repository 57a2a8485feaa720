import Nits.ClientCore.Cache

/-!
# Cache accounting

Both tiers keep ledgers: the room taken is the sum of the sizes, and each key is listed
once, in the order of last use. Every operation keeps its ledger balanced, takes out what
it counted in, and makes room from the oldest on. Only releasing a single pin makes no
room.
-/

namespace Nits.ClientCore

open Logical Protocol

/-! ## The memory tier -/

namespace ContentCache

/-- What the cache counts. -/
def ledger (cache : ContentCache) : Ledger CacheKey where
  used := cache.used
  slots := cache.entries.map fun entry => (entry.1, ⟨entry.2.size, entry.2.tick⟩)
  order := cache.order
  next := cache.nextTick

/-- An operation on the cache. -/
inductive Operation
  | get (key : CacheKey)
  | insert (key : CacheKey) (value : CacheValue) (size : Nat)
  | remove (key : CacheKey)
  | pin (key : CacheKey)
  | unpin (key : CacheKey)
  | retainPins (keep : CacheKey → Bool)
  | clearPins

/-- The cache after an operation, and what it evicted. -/
def perform (cache : ContentCache) : Operation → ContentCache × List Evicted
  | .get key => ((cache.get key).1, [])
  | .insert key value size => cache.insert key value size
  | .remove key => ((cache.remove key).1, [])
  | .pin key => (cache.pin key, [])
  | .unpin key => (cache.unpin key, [])
  | .retainPins keep => cache.retainPins keep
  | .clearPins => cache.clearPins

/-- Operations one after another. -/
def performAll (cache : ContentCache) (operations : List Operation) : ContentCache :=
  operations.foldl (fun cache operation => (cache.perform operation).1) cache

/-- The operation inserts or releases pins. -/
def Operation.presses : Operation → Prop
  | .insert .. | .unpin _ | .retainPins _ | .clearPins => True
  | .get _ | .remove _ | .pin _ => False

/-- The budget holds, or only pinned entries remain. -/
def Fits (cache : ContentCache) : Prop :=
  cache.used ≤ cache.budget ∨ ∀ entry ∈ cache.entries, entry.1 ∈ cache.pinned

/-- Only unpinning may leave an entry that has to go: the budget must hold already, or all
else be pinned. -/
def Spares (cache : ContentCache) : Operation → Prop
  | .unpin key => cache.used ≤ cache.budget ∨
      ∀ entry ∈ cache.entries, entry.1 ∈ cache.pinned ∧ entry.1 ≠ key
  | _ => True

/-- The room that an entry takes. -/
def sizeOf (cache : ContentCache) (key : CacheKey) : Nat :=
  (cache.entries.lookup key).elim 0 Entry.size

/-- What an operation counts in. -/
def Operation.adds : Operation → Nat
  | .insert _ _ size => size
  | _ => 0

/-- What an operation takes out itself. -/
def takes (cache : ContentCache) : Operation → Nat
  | .insert key .. | .remove key => cache.sizeOf key
  | _ => 0

/-- The order with a key used now. -/
def usedNow (cache : ContentCache) (key : CacheKey) : List (Nat × CacheKey) :=
  (cache.order.filter fun use => use.2 ≠ key) ++ [(cache.nextTick, key)]

/-- The uses that an operation finds or makes. -/
def uses (cache : ContentCache) : Operation → List (Nat × CacheKey)
  | .get key => if cache.contains key then cache.usedNow key else cache.order
  | .insert key .. => cache.usedNow key
  | .remove key => cache.order.filter fun use => use.2 ≠ key
  | .pin _ | .unpin _ | .retainPins _ | .clearPins => cache.order

/-- What an operation does to the account. -/
structure Orderly (cache : ContentCache) (operation : Operation) : Prop where
  balanced : (cache.perform operation).1.ledger.Balanced
  conserved : (cache.perform operation).1.used +
    (((cache.perform operation).2.map Evicted.size).sum + cache.takes operation) =
      cache.used + operation.adds
  unpinned : ∀ evicted ∈ (cache.perform operation).2,
    evicted.key ∉ (cache.perform operation).1.pinned
  oldest : ∃ rest, ((cache.uses operation).map Prod.snd).filter
    (fun key => key ∉ (cache.perform operation).1.pinned) =
      (cache.perform operation).2.map Evicted.key ++ rest
  left : (cache.perform operation).1.order = (cache.uses operation).filter fun use =>
    use.2 ∉ (cache.perform operation).2.map Evicted.key
  fits : operation.presses → ((cache.perform operation).1.Fits ↔ cache.Spares operation)

variable {cache : ContentCache} {key other : CacheKey}

theorem lookup_ledger : cache.ledger.slots.lookup key =
    (cache.entries.lookup key).map fun entry => ⟨entry.size, entry.tick⟩ :=
  Association.lookup_map fun entry : Entry => (⟨entry.size, entry.tick⟩ : Slot)

theorem ledger_without : (cache.without key).ledger = cache.ledger.without key := by
  unfold without Ledger.without
  rw [lookup_ledger]
  cases cache.entries.lookup key with
  | none => rfl
  | some old =>
    simp only [ledger, Option.map_some, List.filter_map]
    rfl

theorem pinned_without : (cache.without key).pinned = cache.pinned := by
  unfold without
  split <;> rfl

theorem budget_without : (cache.without key).budget = cache.budget := by
  unfold without
  split <;> rfl

theorem holds_ledger : cache.ledger.holds key ↔ ∃ entry ∈ cache.entries, entry.1 = key := by
  rw [Ledger.holds_iff, ledger, List.map_map]
  simp

/-! ### Eviction -/

theorem pinned_evictFrom (cache : ContentCache) (order : List (Nat × CacheKey)) :
    (cache.evictFrom order).1.pinned = cache.pinned ∧
      (cache.evictFrom order).1.budget = cache.budget := by
  induction order generalizing cache with
  | nil => exact ⟨rfl, rfl⟩
  | cons use later ih =>
    obtain ⟨tick, key⟩ := use
    unfold evictFrom
    split
    · exact ⟨rfl, rfl⟩
    split
    · exact ih cache
    · dsimp only
      obtain ⟨pinned, budget⟩ := ih (cache.without key)
      rw [pinned_without] at pinned
      rw [budget_without] at budget
      split <;> exact ⟨pinned, budget⟩

/-- Evicting along the listed uses sheds unpinned entries. -/
theorem sheds_evictFrom (balanced : cache.ledger.Balanced) {order : List (Nat × CacheKey)}
    (listed : order.Sublist cache.order) :
    Ledger.Sheds cache.budget (fun key => key ∈ cache.pinned) cache.ledger order
      ((cache.evictFrom order).2.map Evicted.key) (cache.evictFrom order).1.ledger ∧
    ∀ evicted ∈ (cache.evictFrom order).2, cache.sizeOf evicted.key = evicted.size := by
  induction order generalizing cache with
  | nil =>
    rw [evictFrom]
    exact ⟨.stop (fun _ mem => by cases mem), fun _ mem => by cases mem⟩
  | cons use later ih =>
    obtain ⟨tick, key⟩ := use
    have tail := (List.sublist_cons_self (tick, key) later).trans listed
    unfold evictFrom
    split
    next fits => exact ⟨.roomy fits, fun _ mem => by cases mem⟩
    next full =>
    split
    next keeps =>
      obtain ⟨sheds, sizes⟩ := ih balanced tail
      exact ⟨.skip keeps sheds, sizes⟩
    next goes =>
      -- A listed key is held, and its later uses are none.
      obtain ⟨slot, found, _⟩ := balanced.mem_order.mp
        (show (tick, key) ∈ cache.ledger.order from listed.subset List.mem_cons_self)
      rw [lookup_ledger] at found
      obtain ⟨entry, found, _⟩ := Option.map_eq_some_iff.mp found
      have once : (cache.order.map Prod.snd).Nodup := balanced.keys_nodup
      obtain ⟨fresh, _⟩ := List.nodup_cons.mp (once.sublist (listed.map Prod.snd))
      have without : (cache.without key).ledger.Balanced := by
        rw [ledger_without]
        exact balanced.without key
      have remains : later.Sublist (cache.without key).order := by
        change later.Sublist (cache.without key).ledger.order
        rw [ledger_without, balanced.order_without]
        have others : later.filter (fun use => use.2 ≠ key) = later :=
          List.filter_eq_self.mpr fun use mem => decide_eq_true fun same =>
            fresh (List.mem_map.mpr ⟨use, mem, same⟩)
        have kept := tail.filter fun use => use.2 ≠ key
        rwa [others] at kept
      obtain ⟨sheds, sizes⟩ := ih without remains
      rw [pinned_without, budget_without, ledger_without] at sheds
      dsimp only
      rw [found]
      refine ⟨.drop (Nat.lt_of_not_le full) goes sheds, ?_⟩
      refine List.forall_mem_cons.mpr ⟨by rw [sizeOf, found]; rfl, fun evicted mem => ?_⟩
      rw [← sizes evicted mem]
      have different : evicted.key ≠ key := by
        rintro same
        obtain ⟨rest, named⟩ := sheds.oldest
        refine fresh (List.mem_of_mem_filter (p := fun key => ¬ key ∈ cache.pinned) ?_)
        rw [named]
        exact List.mem_append_left _ (List.mem_map.mpr ⟨evicted, mem, same⟩)
      have kept : (cache.without key).ledger.slots.lookup evicted.key =
          if evicted.key = key then none else cache.ledger.slots.lookup evicted.key := by
        rw [ledger_without]
        exact Ledger.lookup_without
      rw [lookup_ledger, lookup_ledger, if_neg different] at kept
      have sizes := congrArg (fun slot => slot.elim 0 Slot.size) kept
      simp only [Option.elim_map] at sizes
      exact sizes.symm

/-- Making room in a balanced cache. -/
structure MakesRoom (cache : ContentCache) : Prop where
  balanced : cache.evict.1.ledger.Balanced
  conserved : cache.evict.1.used + (cache.evict.2.map Evicted.size).sum = cache.used
  unpinned : ∀ evicted ∈ cache.evict.2, evicted.key ∉ cache.evict.1.pinned
  oldest : ∃ rest, (cache.order.map Prod.snd).filter (fun key => key ∉ cache.evict.1.pinned) =
    cache.evict.2.map Evicted.key ++ rest
  left : cache.evict.1.order = cache.order.filter fun use =>
    use.2 ∉ cache.evict.2.map Evicted.key
  fits : cache.evict.1.Fits

theorem makesRoom (balanced : cache.ledger.Balanced) : cache.MakesRoom := by
  obtain ⟨sheds, sizes⟩ := sheds_evictFrom balanced (.refl cache.order)
  obtain ⟨pinned, budget⟩ := pinned_evictFrom cache cache.order
  have counted : (cache.evict.2.map Evicted.key).map (fun key =>
      (cache.ledger.slots.lookup key).elim 0 Slot.size) = cache.evict.2.map Evicted.size := by
    rw [List.map_map]
    refine List.map_congr_left fun evicted mem => ?_
    rw [← sizes evicted mem, Function.comp_apply, lookup_ledger, sizeOf]
    cases cache.entries.lookup evicted.key <;> rfl
  refine {
    balanced := sheds.balanced balanced
    conserved := ?_
    unpinned := ?_
    oldest := ?_
    left := sheds.order balanced
    fits := ?_ }
  · rw [← counted]
    exact sheds.used balanced (.refl _)
  · rw [evict, pinned]
    exact fun evicted mem => sheds.unspared _ (List.mem_map_of_mem mem)
  · rw [evict, pinned]
    exact sheds.oldest
  · have settled := sheds.settled fun key held => .inr ?_
    · unfold Fits
      rw [evict, pinned, budget]
      exact settled.imp id fun all entry mem => all entry.1 (holds_ledger.mpr ⟨entry, mem, rfl⟩)
    · obtain ⟨slot, found⟩ := Option.isSome_iff_exists.mp held
      exact List.mem_map.mpr ⟨_, balanced.mem_order.mpr ⟨slot, found, rfl⟩, rfl⟩

/-! ### One operation -/

theorem used_without (balanced : cache.ledger.Balanced) (key : CacheKey) :
    (cache.without key).used + cache.sizeOf key = cache.used := by
  unfold sizeOf
  cases found : cache.entries.lookup key with
  | none => rw [without, found]; rfl
  | some entry =>
    have looked : cache.ledger.slots.lookup key = some ⟨entry.size, entry.tick⟩ := by
      rw [lookup_ledger, found]
      rfl
    have counted := balanced.used_without looked
    rw [← ledger_without] at counted
    exact counted

theorem order_without (balanced : cache.ledger.Balanced) (key : CacheKey) :
    (cache.without key).order = cache.order.filter fun use => use.2 ≠ key := by
  change (cache.without key).ledger.order = _
  rw [ledger_without]
  exact balanced.order_without

theorem nextTick_without : (cache.without key).nextTick = cache.nextTick := by
  unfold without
  split <;> rfl

/-- An operation that evicts nothing and releases no pin. -/
theorem orderly_of_quiet {operation : Operation} (balanced : (cache.perform operation).1.ledger.Balanced)
    (kept : (cache.perform operation).2 = [])
    (conserved : (cache.perform operation).1.used + cache.takes operation =
      cache.used + operation.adds)
    (order : (cache.perform operation).1.order = cache.uses operation)
    (fits : operation.presses → ((cache.perform operation).1.Fits ↔ cache.Spares operation)) :
    cache.Orderly operation where
  balanced := balanced
  conserved := by rw [kept]; simpa using conserved
  unpinned := by rw [kept]; exact fun _ mem => nomatch mem
  oldest := by rw [kept]; exact ⟨_, rfl⟩
  left := by rw [kept, order]; simp
  fits := fits

theorem orderly_get (balanced : cache.ledger.Balanced) : cache.Orderly (.get key) := by
  have whole : (cache.get key).1.ledger.Balanced ∧ (cache.get key).1.used = cache.used ∧
      (cache.get key).1.order = if cache.contains key then cache.usedNow key else cache.order := by
    unfold get contains
    cases found : cache.entries.lookup key with
    | none => exact ⟨balanced.bump, rfl, (if_neg Bool.false_ne_true).symm⟩
    | some entry =>
      have moved : ({ cache with
          nextTick := cache.nextTick + 1
          entries := (key, { entry with tick := cache.nextTick }) ::
            cache.entries.filter fun held => held.1 ≠ key
          order := (cache.order.filter fun use => use.1 ≠ entry.tick) ++
            [(cache.nextTick, key)] } : ContentCache).ledger =
          (cache.ledger.without key).put key entry.size := by
        have counted := used_without balanced key
        have size : cache.sizeOf key = entry.size := by rw [sizeOf, found]; rfl
        rw [← ledger_without]
        unfold without at counted ⊢
        rw [found] at counted ⊢
        dsimp only at counted
        simp only [ledger, Ledger.put, Ledger.mk.injEq, List.map_cons, and_true]
        omega
      have again := (balanced.without key).put Ledger.Balanced.not_holds_without entry.size
      rw [← moved] at again
      refine ⟨again, rfl, .trans ?_ (if_pos rfl).symm⟩
      have order := order_without balanced key
      unfold without at order
      rw [found] at order
      exact congrArg (· ++ [(cache.nextTick, key)]) order
  exact orderly_of_quiet whole.1 rfl whole.2.1 whole.2.2 False.elim

theorem orderly_remove (balanced : cache.ledger.Balanced) : cache.Orderly (.remove key) := by
  have whole : (cache.remove key).1.ledger = (cache.without key).ledger := by
    unfold remove
    cases found : cache.entries.lookup key with
    | none =>
      unfold without
      rw [found]
    | some entry => rfl
  refine orderly_of_quiet ?_ rfl ?_ ?_ False.elim
  · change (cache.remove key).1.ledger.Balanced
    rw [whole, ledger_without]
    exact balanced.without key
  · change (cache.remove key).1.ledger.used + _ = _
    rw [whole]
    exact used_without balanced key
  · change (cache.remove key).1.ledger.order = _
    rw [whole]
    exact order_without balanced key

theorem orderly_insert (balanced : cache.ledger.Balanced) {value : CacheValue} {size : Nat} :
    cache.Orderly (.insert key value size) := by
  let pressed : ContentCache := { cache.without key with
    nextTick := (cache.without key).nextTick + 1
    used := (cache.without key).used + size
    order := (cache.without key).order ++ [((cache.without key).nextTick, key)]
    entries := (key, ⟨value, size, (cache.without key).nextTick⟩) :: (cache.without key).entries }
  have put : pressed.ledger = (cache.ledger.without key).put key size := by
    rw [← ledger_without]
    rfl
  have room : pressed.MakesRoom := makesRoom (by
    rw [put]
    exact (balanced.without key).put Ledger.Balanced.not_holds_without size)
  have order : pressed.order = cache.usedNow key := by
    change (cache.without key).order ++ [((cache.without key).nextTick, key)] = _
    rw [order_without balanced key, nextTick_without]
    rfl
  exact {
    balanced := room.balanced
    conserved := by
      have conserved := room.conserved
      have taken := used_without balanced key
      change pressed.evict.1.used + ((pressed.evict.2.map Evicted.size).sum + cache.sizeOf key) =
        cache.used + size
      change _ = (cache.without key).used + size at conserved
      omega
    unpinned := room.unpinned
    oldest := by
      have oldest := room.oldest
      rw [order] at oldest
      exact oldest
    left := by
      have left := room.left
      rw [order] at left
      exact left
    fits := fun _ => iff_of_true room.fits trivial }

/-- Every operation keeps a balanced cache balanced. -/
theorem orderly (balanced : cache.ledger.Balanced) (operation : Operation) :
    cache.Orderly operation := by
  have releases {pinned : List CacheKey} (operation : Operation)
      (performed : cache.perform operation = ({ cache with pinned } : ContentCache).evict)
      (uses : cache.uses operation = cache.order) (takes : cache.takes operation = 0)
      (adds : operation.adds = 0) (spares : cache.Spares operation) : cache.Orderly operation := by
    have room : ({ cache with pinned } : ContentCache).MakesRoom := makesRoom balanced
    refine ⟨?_, ?_, ?_, ?_, ?_, fun _ => iff_of_true ?_ spares⟩
    · rw [performed]
      exact room.balanced
    · rw [performed, takes, adds]
      exact room.conserved
    · rw [performed]
      exact room.unpinned
    · rw [performed, uses]
      exact room.oldest
    · rw [performed, uses]
      exact room.left
    · rw [performed]
      exact room.fits
  cases operation with
  | get key => exact orderly_get balanced
  | insert key value size => exact orderly_insert balanced
  | remove key => exact orderly_remove balanced
  | pin key => exact orderly_of_quiet balanced rfl rfl rfl False.elim
  | unpin key =>
    refine orderly_of_quiet balanced rfl rfl rfl fun _ => or_congr Iff.rfl ?_
    simp [perform, unpin]
  | retainPins keep => exact releases _ rfl rfl rfl rfl trivial
  | clearPins => exact releases _ rfl rfl rfl rfl trivial

/-- In every run the ledger is balanced. -/
theorem performAll_balanced (balanced : cache.ledger.Balanced) (operations : List Operation) :
    (cache.performAll operations).ledger.Balanced := by
  induction operations generalizing cache with
  | nil => exact balanced
  | cons operation later ih =>
    exact ih (orderly balanced operation).balanced

theorem new_balanced (budget : Nat) : (ContentCache.new budget).ledger.Balanced :=
  Ledger.Balanced.empty

end ContentCache

/-! ## The disk tier -/

namespace DiskIndex

/-- What the index counts. -/
def ledger (disk : DiskIndex) : Ledger CacheKey where
  used := disk.used
  slots := disk.sizes
  order := disk.order
  next := disk.nextTick

/-- An operation on the disk index. -/
inductive Operation
  | touch (key : CacheKey) (size : Nat)
  | forget (key : CacheKey)

/-- The index after an operation, and the keys that must go. -/
def perform (disk : DiskIndex) : Operation → DiskIndex × List CacheKey
  | .touch key size => disk.touch key size
  | .forget key => (disk.forget key, [])

def performAll (disk : DiskIndex) (operations : List Operation) : DiskIndex :=
  operations.foldl (fun disk operation => (disk.perform operation).1) disk

/-- The room that a key takes. -/
def sizeOf (disk : DiskIndex) (key : CacheKey) : Nat :=
  (disk.sizes.lookup key).elim 0 Slot.size

def Operation.key : Operation → CacheKey
  | .touch key _ | .forget key => key

/-- The operation inserts. -/
def Operation.presses : Operation → Prop
  | .touch .. => True
  | .forget _ => False

/-- What an operation counts in. -/
def Operation.adds : Operation → Nat
  | .touch _ size => size
  | .forget _ => 0

/-- The use that an operation makes. -/
def uses (disk : DiskIndex) : Operation → List (Nat × CacheKey)
  | .touch key _ => [(disk.nextTick, key)]
  | .forget _ => []

/-- What an operation does to the account. -/
structure Orderly (disk : DiskIndex) (operation : Operation) : Prop where
  balanced : (disk.perform operation).1.ledger.Balanced
  conserved : (disk.perform operation).1.used +
    (((disk.perform operation).2.map disk.sizeOf).sum + disk.sizeOf operation.key) =
      disk.used + operation.adds
  kept : operation.key ∉ (disk.perform operation).2
  oldest : ∃ rest, (disk.order.filter fun use => use.2 ≠ operation.key).map Prod.snd =
    (disk.perform operation).2 ++ rest
  left : (disk.perform operation).1.order =
    (disk.order.filter fun use => use.2 ≠ operation.key ∧ use.2 ∉ (disk.perform operation).2) ++
      disk.uses operation
  fits : operation.presses → (disk.perform operation).1.used ≤ disk.budget ∨
    ∀ held ∈ (disk.perform operation).1.sizes, held.1 = operation.key

variable {disk : DiskIndex} {key other : CacheKey}

theorem ledger_forget : (disk.forget key).ledger = disk.ledger.without key := by
  unfold forget Ledger.without ledger
  dsimp only
  cases disk.sizes.lookup key <;> rfl

theorem budget_forget : (disk.forget key).budget = disk.budget := by
  unfold forget
  split <;> rfl

theorem nextTick_forget : (disk.forget key).nextTick = disk.nextTick := by
  unfold forget
  split <;> rfl

/-- Dropping the use of a key forgets the key. -/
theorem drop_eq (balanced : disk.ledger.Balanced) {tick : Nat} (listed : (tick, key) ∈ disk.order) :
    disk.drop tick key = disk.forget key := by
  obtain ⟨slot, found, rfl⟩ := balanced.mem_order.mp
    (show (tick, key) ∈ disk.ledger.order from listed)
  replace found : disk.sizes.lookup key = some slot := found
  unfold drop forget
  rw [found]
  rfl

/-- Trimming along the listed uses sheds all keys but the one to keep, which was used
last. -/
theorem sheds_trim (balanced : disk.ledger.Balanced) {keep : CacheKey} {tick : Nat}
    {front : List (Nat × CacheKey)} (listed : (front ++ [(tick, keep)]).Sublist disk.order) :
    Ledger.Sheds disk.budget (fun key => key = keep) disk.ledger (front ++ [(tick, keep)])
      (trim keep (front ++ [(tick, keep)]) disk).2
      (trim keep (front ++ [(tick, keep)]) disk).1.ledger := by
  induction front generalizing disk with
  | nil =>
    rw [List.nil_append, trim, if_pos (.inr rfl)]
    exact .stop (by simp)
  | cons use front ih =>
    obtain ⟨time, key⟩ := use
    have once : (disk.order.map Prod.snd).Nodup := balanced.keys_nodup
    have apart := once.sublist (listed.map Prod.snd)
    rw [List.cons_append, List.map_cons] at apart
    obtain ⟨fresh, _⟩ := List.nodup_cons.mp apart
    have different : key ≠ keep := by
      rintro rfl
      exact fresh (by simp)
    rw [List.cons_append, trim]
    split
    next stops => exact .roomy (stops.resolve_right different)
    next goes =>
      rw [drop_eq balanced (listed.subset List.mem_cons_self)]
      have forgotten : (disk.forget key).ledger.Balanced := by
        rw [ledger_forget]
        exact balanced.without key
      have remains : (front ++ [(tick, keep)]).Sublist (disk.forget key).order := by
        change (front ++ [(tick, keep)]).Sublist (disk.forget key).ledger.order
        rw [ledger_forget, balanced.order_without]
        have others : (front ++ [(tick, keep)]).filter (fun use => use.2 ≠ key) =
            front ++ [(tick, keep)] :=
          List.filter_eq_self.mpr fun use mem => decide_eq_true fun same =>
            fresh (List.mem_map.mpr ⟨use, mem, same⟩)
        have tail : (front ++ [(tick, keep)]).Sublist disk.order :=
          (List.sublist_cons_self _ _).trans listed
        have kept := tail.filter fun use => use.2 ≠ key
        rwa [others] at kept
      have sheds := ih forgotten remains
      rw [budget_forget, ledger_forget] at sheds
      exact .drop (Nat.lt_of_not_le fun fits => goes (.inl fits)) different sheds

/-- The index with a key used now, before any room is made. -/
def touched (disk : DiskIndex) (key : CacheKey) (size : Nat) : DiskIndex :=
  let disk := disk.forget key
  { disk with
    nextTick := disk.nextTick + 1
    used := disk.used + size
    order := disk.order ++ [(disk.nextTick, key)]
    sizes := (key, ⟨size, disk.nextTick⟩) :: disk.sizes }

theorem ledger_touched {size : Nat} :
    (disk.touched key size).ledger = (disk.ledger.without key).put key size := by
  rw [← ledger_forget]
  rfl

theorem sheds_touch (balanced : disk.ledger.Balanced) (key : CacheKey) (size : Nat) :
    Ledger.Sheds disk.budget (fun held => held = key) ((disk.ledger.without key).put key size)
      ((disk.forget key).order ++ [((disk.forget key).nextTick, key)]) (disk.touch key size).2
      (disk.touch key size).1.ledger := by
  have put : (disk.touched key size).ledger.Balanced := by
    rw [ledger_touched]
    exact (balanced.without key).put Ledger.Balanced.not_holds_without size
  have sheds := sheds_trim put (.refl (disk.touched key size).order)
  rw [ledger_touched, show (disk.touched key size).budget = disk.budget from budget_forget] at sheds
  exact sheds

theorem touch_put (balanced : disk.ledger.Balanced) (key : CacheKey) (size : Nat) :
    ((disk.ledger.without key).put key size).Balanced :=
  (balanced.without key).put Ledger.Balanced.not_holds_without size

theorem touch_kept (balanced : disk.ledger.Balanced) {size : Nat} :
    key ∉ (disk.touch key size).2 := fun mem =>
  (sheds_touch balanced key size).unspared key mem rfl

/-- The touched key is in the index, and only what must go is not any more. -/
theorem lookup_touch (balanced : disk.ledger.Balanced) {size : Nat} :
    ((disk.touch key size).1.sizes.lookup other).isSome =
      ((other = key || (disk.sizes.lookup other).isSome) && other ∉ (disk.touch key size).2) := by
  have left := (sheds_touch balanced key size).lookup other
  change (disk.touch key size).1.sizes.lookup other = _ at left
  rw [left, Ledger.lookup_put, Ledger.lookup_without]
  by_cases gone : other ∈ (disk.touch key size).2
  · simp [gone]
  · rw [if_neg gone]
    by_cases same : other = key
    · rw [if_pos same]
      simp [same] at *
      simp [gone]
    · simp [gone, same, ledger]

theorem lookup_forget : ((disk.forget key).sizes.lookup other).isSome =
      (other ≠ key && (disk.sizes.lookup other).isSome) := by
  change ((disk.forget key).ledger.slots.lookup other).isSome = _
  rw [ledger_forget, Ledger.lookup_without]
  by_cases same : other = key
  · simp [same]
  · simp [same, ledger]

theorem orderly_touch (balanced : disk.ledger.Balanced) {size : Nat} :
    disk.Orderly (.touch key size) := by
  have sheds := sheds_touch balanced key size
  have put := touch_put balanced key size
  have order : (disk.forget key).order = disk.order.filter fun use => use.2 ≠ key := by
    change (disk.forget key).ledger.order = _
    rw [ledger_forget]
    exact balanced.order_without
  have kept : ∀ gone ∈ (disk.touch key size).2, gone ≠ key := sheds.unspared
  have sizes : ∀ gone ∈ (disk.touch key size).2,
      (((disk.ledger.without key).put key size).slots.lookup gone).elim 0 Slot.size =
        disk.sizeOf gone := by
    intro gone mem
    rw [Ledger.lookup_put, if_neg (kept gone mem), Ledger.lookup_without,
      if_neg (kept gone mem)]
    rfl
  refine ⟨sheds.balanced put, ?_, fun mem => kept key mem rfl, ?_, ?_, fun _ => ?_⟩
  · have used := sheds.used put (by
      rw [← ledger_forget]
      exact .refl _)
    rw [List.map_congr_left sizes] at used
    have taken : (disk.ledger.without key).used + disk.sizeOf key = disk.used := by
      unfold sizeOf
      cases found : disk.sizes.lookup key with
      | none =>
        unfold Ledger.without
        rw [show disk.ledger.slots.lookup key = none from found]
        rfl
      | some slot => exact balanced.used_without found
    change (disk.touch key size).1.used + (((disk.touch key size).2.map disk.sizeOf).sum +
      disk.sizeOf key) = disk.used + size
    change (disk.touch key size).1.used + _ = (disk.ledger.without key).used + size at used
    omega
  · obtain ⟨rest, named⟩ := sheds.oldest
    rw [order, nextTick_forget, List.map_append, List.filter_append, List.map_singleton,
      List.filter_cons_of_neg (by simp), List.filter_nil, List.append_nil] at named
    have others : ((disk.order.filter fun use => use.2 ≠ key).map Prod.snd).filter
        (fun held => ¬ held = key) = (disk.order.filter fun use => use.2 ≠ key).map Prod.snd := by
      refine List.filter_eq_self.mpr fun held mem => ?_
      obtain ⟨use, isUse, rfl⟩ := List.mem_map.mp mem
      simpa using (List.mem_filter.mp isUse).2
    rw [others] at named
    exact ⟨rest, named⟩
  · have left := sheds.order put
    change (disk.touch key size).1.order = ((disk.ledger.without key).order ++
      [((disk.ledger.without key).next, key)]).filter _ at left
    change (disk.touch key size).1.order = (disk.order.filter fun use => use.2 ≠ key ∧
      use.2 ∉ (disk.touch key size).2) ++ [(disk.nextTick, key)]
    have next : (disk.ledger.without key).next = disk.nextTick := by
      rw [← ledger_forget]
      exact nextTick_forget
    rw [left, List.filter_append, balanced.order_without, List.filter_filter, next,
      List.filter_cons_of_pos (by simpa using fun mem => kept key mem rfl), List.filter_nil]
    congr 1
    refine List.filter_congr fun use _ => ?_
    rw [Bool.eq_iff_iff]
    simp [and_comm]
  · refine (sheds.settled fun held isHeld => .inr ?_).imp id fun all held mem => ?_
    · obtain ⟨slot, found⟩ := Option.isSome_iff_exists.mp isHeld
      refine List.mem_map.mpr ⟨(slot.tick, held), ?_, rfl⟩
      have listed := put.mem_order.mpr ⟨slot, found, rfl⟩
      rwa [← ledger_touched] at listed
    · exact all held.1 (Ledger.holds_iff.mpr (List.mem_map_of_mem mem))

theorem orderly (balanced : disk.ledger.Balanced) (operation : Operation) :
    disk.Orderly operation := by
  cases operation with
  | touch key size => exact orderly_touch balanced
  | forget key =>
    refine ⟨?_, ?_, (fun mem => nomatch mem), ⟨_, rfl⟩, ?_, False.elim⟩
    · change (disk.forget key).ledger.Balanced
      rw [ledger_forget]
      exact balanced.without key
    · change (disk.forget key).ledger.used + (0 + disk.sizeOf key) = disk.used
      rw [ledger_forget, Nat.zero_add]
      unfold sizeOf
      cases found : disk.sizes.lookup key with
      | none =>
        unfold Ledger.without
        rw [show disk.ledger.slots.lookup key = none from found]
        rfl
      | some slot => exact balanced.used_without found
    · change (disk.forget key).ledger.order = (disk.order.filter fun use => use.2 ≠ key ∧
        use.2 ∉ ([] : List CacheKey)) ++ []
      rw [ledger_forget, balanced.order_without, List.append_nil]
      simp [ledger]

theorem performAll_balanced (balanced : disk.ledger.Balanced) (operations : List Operation) :
    (disk.performAll operations).ledger.Balanced := by
  induction operations generalizing disk with
  | nil => exact balanced
  | cons operation later ih =>
    exact ih (orderly balanced operation).balanced

theorem new_balanced (budget : Nat) : (DiskIndex.new budget).ledger.Balanced :=
  Ledger.Balanced.empty

end DiskIndex

end Nits.ClientCore
