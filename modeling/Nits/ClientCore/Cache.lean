import Nits.Logical.Recency
import Nits.Protocol.Render

/-!
# Content cache

The memory tier: trees by repository and root, render headers and chunks by what they
are renders of. Entries leave by least-recent use under a byte budget, unless pinned.
The disk tier is the host's key-value store; `DiskIndex` knows what is in it.
-/

namespace Nits.ClientCore

open Logical Protocol

/-- What one render is of. -/
structure RenderKey where
  repoId : RepoId
  path : RepoPath
  target : RenderTarget
  opts : RenderOpts
  deriving DecidableEq

def RenderKey.ofHeader (header : FileRenderHeader) : RenderKey :=
  ⟨header.repoId, header.path, header.target, header.opts⟩

/-- A tree of a repository. -/
structure TreeKey where
  repoId : RepoId
  root : TreeOid
  deriving DecidableEq

def TreeKey.ofSnapshot (snapshot : TreeSnapshot) : TreeKey := ⟨snapshot.repoId, snapshot.rootOid⟩

/-- What content is kept under. -/
inductive CacheKey
  | tree (tree : TreeKey)
  | header (render : RenderKey)
  | chunk (render : RenderKey) (index : ChunkIndex)
  deriving DecidableEq

/-- The content under a key. -/
inductive CacheValue
  | tree (snapshot : TreeSnapshot)
  | header (header : FileRenderHeader)
  | chunk (chunk : RenderChunk)

/-- Whether a value has the shape and the identity that its key names. A chunk does
not say what it is a chunk of. -/
def CacheValue.matches : CacheValue → CacheKey → Bool
  | .tree snapshot, .tree key => TreeKey.ofSnapshot snapshot = key
  | .header found, .header render => RenderKey.ofHeader found = render
  | .chunk found, .chunk _ index => found.index = index
  | _, _ => false

/-- What had to go for new content. -/
structure Evicted where
  key : CacheKey
  value : CacheValue
  size : Nat

namespace ContentCache

/-- A value with its size and last use. -/
structure Entry where
  value : CacheValue
  size : Nat
  tick : Nat

end ContentCache

/-- `order` lists the ticks of the entries, oldest use first. -/
structure ContentCache where
  budget : Nat
  used : Nat
  entries : List (CacheKey × ContentCache.Entry)
  order : List (Nat × CacheKey)
  nextTick : Nat
  pinned : List CacheKey

namespace ContentCache

def new (budget : Nat) : ContentCache where
  budget
  used := 0
  entries := []
  order := []
  nextTick := 0
  pinned := []

def contains (cache : ContentCache) (key : CacheKey) : Bool := (cache.entries.lookup key).isSome

/-- The value of a key; looking does not count as use. -/
def peek (cache : ContentCache) (key : CacheKey) : Option CacheValue :=
  (cache.entries.lookup key).map Entry.value

/-- Take an entry out, pinned or not. -/
def without (cache : ContentCache) (key : CacheKey) : ContentCache :=
  match cache.entries.lookup key with
  | none => cache
  | some old => { cache with
      entries := cache.entries.filter fun entry => entry.1 ≠ key
      order := cache.order.filter fun entry => entry.1 ≠ old.tick
      used := cache.used - old.size }

/-- Drop unpinned entries in the order of their last use until the budget holds. -/
def evictFrom (cache : ContentCache) : List (Nat × CacheKey) → ContentCache × List Evicted
  | [] => (cache, [])
  | (_, key) :: later =>
    if cache.used ≤ cache.budget then (cache, [])
    else if key ∈ cache.pinned then cache.evictFrom later
    else
      let (rest, evicted) := (cache.without key).evictFrom later
      match cache.entries.lookup key with
      | none => (rest, evicted)
      | some entry => (rest, ⟨key, entry.value, entry.size⟩ :: evicted)

def evict (cache : ContentCache) : ContentCache × List Evicted := cache.evictFrom cache.order

def insert (cache : ContentCache) (key : CacheKey) (value : CacheValue) (size : Nat) :
    ContentCache × List Evicted :=
  let cache := cache.without key
  let tick := cache.nextTick
  evict { cache with
    nextTick := tick + 1
    used := cache.used + size
    order := cache.order ++ [(tick, key)]
    entries := (key, ⟨value, size, tick⟩) :: cache.entries }

/-- Look up and mark as most recently used. -/
def get (cache : ContentCache) (key : CacheKey) : ContentCache × Option CacheValue :=
  let tick := cache.nextTick
  match cache.entries.lookup key with
  | none => ({ cache with nextTick := tick + 1 }, none)
  | some entry => ({ cache with
      nextTick := tick + 1
      entries := (key, { entry with tick }) :: cache.entries.filter fun held => held.1 ≠ key
      order := (cache.order.filter fun use => use.1 ≠ entry.tick) ++ [(tick, key)] },
      some entry.value)

/-- Drop an entry and its pin. -/
def remove (cache : ContentCache) (key : CacheKey) : ContentCache × Option CacheValue :=
  match cache.entries.lookup key with
  | none => (cache, none)
  | some entry =>
    ({ cache.without key with pinned := cache.pinned.filter fun held => held ≠ key },
      some entry.value)

def pin (cache : ContentCache) (key : CacheKey) : ContentCache :=
  { cache with pinned := if key ∈ cache.pinned then cache.pinned else key :: cache.pinned }

def unpin (cache : ContentCache) (key : CacheKey) : ContentCache :=
  { cache with pinned := cache.pinned.filter fun held => held ≠ key }

/-- Keep only the pins that `keep` wants. -/
def retainPins (cache : ContentCache) (keep : CacheKey → Bool) : ContentCache × List Evicted :=
  evict { cache with pinned := cache.pinned.filter keep }

def clearPins (cache : ContentCache) : ContentCache × List Evicted :=
  evict { cache with pinned := [] }

end ContentCache

/-- What this session has written to or read from the disk tier. `order` lists the ticks,
oldest use first. -/
structure DiskIndex where
  budget : Nat
  used : Nat
  sizes : List (CacheKey × Slot)
  order : List (Nat × CacheKey)
  nextTick : Nat

namespace DiskIndex

def new (budget : Nat) : DiskIndex where
  budget
  used := 0
  sizes := []
  order := []
  nextTick := 0

def forget (disk : DiskIndex) (key : CacheKey) : DiskIndex :=
  match disk.sizes.lookup key with
  | none => disk
  | some old => { disk with
      sizes := disk.sizes.filter fun held => held.1 ≠ key
      order := disk.order.filter fun use => use.1 ≠ old.tick
      used := disk.used - old.size }

/-- Take the use at a tick out of the order, and its key out of the index. -/
def drop (disk : DiskIndex) (tick : Nat) (key : CacheKey) : DiskIndex :=
  { disk with
    order := disk.order.filter fun use => use.1 ≠ tick
    sizes := disk.sizes.filter fun held => held.1 ≠ key
    used := disk.used - (disk.sizes.lookup key).elim 0 Slot.size }

/-- Drop from the oldest on until the budget holds, but never `keep`. -/
def trim (keep : CacheKey) : List (Nat × CacheKey) → DiskIndex → DiskIndex × List CacheKey
  | [], disk => (disk, [])
  | (tick, key) :: later, disk =>
    if disk.used ≤ disk.budget ∨ key = keep then (disk, [])
    else
      let (rest, gone) := trim keep later (disk.drop tick key)
      (rest, key :: gone)

/-- Record that `key` is on disk, used now; the keys that must go are returned. -/
def touch (disk : DiskIndex) (key : CacheKey) (size : Nat) : DiskIndex × List CacheKey :=
  let disk := disk.forget key
  let tick := disk.nextTick
  let touched : DiskIndex := { disk with
    nextTick := tick + 1
    used := disk.used + size
    order := disk.order ++ [(tick, key)]
    sizes := (key, ⟨size, tick⟩) :: disk.sizes }
  trim key touched.order touched

end DiskIndex

/-! ## Content only leaves -/

namespace ContentCache

variable {cache : ContentCache} {key gone : CacheKey} {value : CacheValue}

theorem contains_iff_peek : cache.contains key ↔ ∃ value, cache.peek key = some value := by
  unfold contains peek
  cases cache.entries.lookup key <;> simp

theorem peek_without (found : (cache.without gone).peek key = some value) :
    cache.peek key = some value := by
  unfold without at found
  split at found
  · exact found
  · obtain ⟨entry, looked, value_⟩ := Option.map_eq_some_iff.mp found
    dsimp only at looked
    rw [Association.lookup_filter fun other => other ≠ gone] at looked
    split at looked
    · rw [peek, looked, Option.map_some, value_]
    · cases looked

theorem peek_evictFrom {order : List (Nat × CacheKey)}
    (found : (cache.evictFrom order).1.peek key = some value) : cache.peek key = some value := by
  induction order generalizing cache with
  | nil => exact found
  | cons oldest later ih =>
    obtain ⟨tick, old⟩ := oldest
    rw [evictFrom] at found
    split at found
    · exact found
    · split at found
      · exact ih found
      · dsimp only at found
        apply peek_without
        apply ih
        split at found <;> exact found

theorem peek_retainPins {keep : CacheKey → Bool}
    (found : (cache.retainPins keep).1.peek key = some value) : cache.peek key = some value := by
  have kept : ({ cache with pinned := cache.pinned.filter keep } : ContentCache).peek key =
      some value := peek_evictFrom found
  exact kept

theorem peek_clearPins (found : cache.clearPins.1.peek key = some value) :
    cache.peek key = some value := by
  have kept : ({ cache with pinned := [] } : ContentCache).peek key = some value :=
    peek_evictFrom found
  exact kept

/-- What an insertion leaves was there before, or is what came in. -/
theorem peek_insert {came : CacheKey} {put : CacheValue} {size : Nat}
    (found : (cache.insert came put size).1.peek key = some value) :
    key = came ∨ cache.peek key = some value := by
  rcases eq_or_ne key came with same | other
  · exact .inl same
  right
  have kept := peek_evictFrom found
  unfold peek at kept
  dsimp only at kept
  rw [List.lookup_cons, beq_eq_false_iff_ne.mpr other] at kept
  exact peek_without kept

/-- Pinning leaves the content as it is. -/
theorem peek_foldl {pinned : ContentCache → CacheKey → ContentCache}
    (same : ∀ cache found, (pinned cache found).peek key = cache.peek key) (keys : List CacheKey) :
    (keys.foldl pinned cache).peek key = cache.peek key := by
  induction keys generalizing cache with
  | nil => rfl
  | cons found later ih =>
    rw [List.foldl_cons, ih, same]

end ContentCache

end Nits.ClientCore
