import Nits.Logical.Json
import Nits.Logical.Positional
import Nits.Logical.Program
import Nits.Logical.Separated
import Nits.ReviewCore.Render.File

/-!
# Chunks and the render cache

A render is cut into chunks of a fixed number of rows. The cache keeps its header and each
chunk under a key that starts with the text of what was rendered, and puts them in one
transaction, only when the header is missing.
-/

/-! ## The text of a key -/

namespace Nits.Protocol

open Logical

def Oid.toJson {kind : ObjectKind} (oid : Oid kind) : Json := .string oid.toString

def RepoPath.toJson (path : RepoPath) : Json := .string path.asStr

def BlobMode.toJson : BlobMode → Json
  | .regular => .string "Regular"
  | .executable => .string "Executable"
  | .symlink => .string "Symlink"
  | .unknown => .string "Unknown"

def BlobEntry.toJson (entry : BlobEntry) : Json :=
  .object [("oid", entry.oid.toJson), ("mode", entry.mode.toJson)]

def SubmoduleChange.toJson : SubmoduleChange → Json
  | .added new => .object [("type", .string "Added"), ("new", new.toJson)]
  | .deleted old => .object [("type", .string "Deleted"), ("old", old.toJson)]
  | .updated old new =>
    .object [("type", .string "Updated"), ("old", old.toJson), ("new", new.toJson)]
  | .renamed path old new =>
    .object [("type", .string "Renamed"), ("from", path.toJson), ("old", old.toJson),
      ("new", new.toJson)]
  | .blobToSubmodule old new =>
    .object [("type", .string "BlobToSubmodule"), ("old", old.toJson), ("new", new.toJson)]
  | .submoduleToBlob old new =>
    .object [("type", .string "SubmoduleToBlob"), ("old", old.toJson), ("new", new.toJson)]

def ChangeKind.toJson : ChangeKind → Json
  | .submodule change => .object [("type", .string "Submodule"), ("change", change.toJson)]
  | .added new => .object [("type", .string "Added"), ("new", new.toJson)]
  | .deleted old => .object [("type", .string "Deleted"), ("old", old.toJson)]
  | .modified old new =>
    .object [("type", .string "Modified"), ("old", old.toJson), ("new", new.toJson)]
  | .renamed path old new =>
    .object [("type", .string "Renamed"), ("from", path.toJson), ("old", old.toJson),
      ("new", new.toJson)]

def RenderTarget.toJson : RenderTarget → Json
  | .diff change => .object [("type", .string "Diff"), ("change", change.toJson)]
  | .blob entry => .object [("type", .string "Blob"), ("entry", entry.toJson)]

def GapExpansion.toJson (expansion : GapExpansion) : Json :=
  .object [("gap", .number expansion.gap), ("up", .number expansion.up),
    ("down", .number expansion.down)]

def RenderOpts.toJson (opts : RenderOpts) : Json :=
  .object [("ignore_whitespace", .bool opts.ignoreWhitespace),
    ("context_lines", .number opts.contextLines),
    ("expanded", .array (opts.expanded.items.map GapExpansion.toJson))]

theorem Oid.toString_injective {kind : ObjectKind} :
    Function.Injective (Oid.toString : Oid kind → String) := by
  intro left right same
  have small (oid : Oid kind) : oid.bytes.toNat < 16 ^ 40 := oid.bytes.isLt
  have digits : (digitsOf 16 40 left.bytes.toNat).map Nat.digitChar =
      (digitsOf 16 40 right.bytes.toNat).map Nat.digitChar := by
    rw [digitsOf, digitsOf, List.map_map, List.map_map]
    exact String.ofList_injective same
  exact Oid.bytes_injective
    (BitVec.eq_of_toNat_eq (digitsOf_inj (by decide) (small left) (small right) digits))

theorem Oid.toJson_inj {kind : ObjectKind} {left right : Oid kind} :
    left.toJson = right.toJson ↔ left = right := by
  simp [toJson, Oid.toString_injective.eq_iff]

theorem RepoPath.toJson_inj {left right : RepoPath} : left.toJson = right.toJson ↔ left = right := by
  simp [toJson, RepoPath.asStr_injective.eq_iff]

theorem BlobMode.toJson_injective : Function.Injective BlobMode.toJson := by
  intro left right same
  cases left <;> cases right <;> first | rfl | simp [toJson] at same

theorem BlobEntry.toJson_inj {left right : BlobEntry} : left.toJson = right.toJson ↔ left = right := by
  cases left
  cases right
  simp [toJson, Oid.toJson_inj, BlobMode.toJson_injective.eq_iff]

theorem SubmoduleChange.toJson_inj {left right : SubmoduleChange} :
    left.toJson = right.toJson ↔ left = right := by
  cases left <;> cases right <;>
    simp [toJson, Oid.toJson_inj, RepoPath.toJson_inj, BlobEntry.toJson_inj]

theorem ChangeKind.toJson_inj {left right : ChangeKind} :
    left.toJson = right.toJson ↔ left = right := by
  cases left <;> cases right <;>
    simp [toJson, SubmoduleChange.toJson_inj, RepoPath.toJson_inj, BlobEntry.toJson_inj]

theorem RenderTarget.toJson_inj {left right : RenderTarget} :
    left.toJson = right.toJson ↔ left = right := by
  cases left <;> cases right <;> simp [toJson, ChangeKind.toJson_inj, BlobEntry.toJson_inj]

theorem GapExpansion.toJson_injective : Function.Injective GapExpansion.toJson := by
  rintro ⟨⟩ ⟨⟩ same
  simpa [toJson] using same

theorem RenderOpts.toJson_inj {left right : RenderOpts} : left.toJson = right.toJson ↔ left = right := by
  obtain ⟨_, _, ⟨_⟩⟩ := left
  obtain ⟨_, _, ⟨_⟩⟩ := right
  simp [toJson, (List.map_injective_iff.mpr GapExpansion.toJson_injective).eq_iff]

end Nits.Protocol

namespace Nits.ReviewCore

open Logical Protocol

/-! ## Chunks -/

namespace Rendered

def chunkCount (rendered : Rendered) : Nat := ReviewCore.chunkCount rendered.rows.length

/-- The rows from `start` to before `finish`. -/
def slice (rendered : Rendered) (start finish : Nat) : List Row :=
  (rendered.rows.take finish).drop start

/-- The chunk at an index, or `none` past the end. -/
def chunk (rendered : Rendered) (index : ChunkIndex) : Option RenderChunk :=
  let start := index * CHUNK_ROWS
  if rendered.rows.length ≤ start ∧ ¬ (rendered.rows = [] ∧ index = 0) then none
  else
    let finish := min (start + CHUNK_ROWS) rendered.rows.length
    some ⟨index, rendered.slice start finish⟩

def chunks (rendered : Rendered) : List RenderChunk :=
  (List.range rendered.chunkCount).map fun i =>
    ⟨i, rendered.slice (i * CHUNK_ROWS) (min ((i + 1) * CHUNK_ROWS) rendered.rows.length)⟩

/-- The rows whose chunks have an index. -/
def Counted (rendered : Rendered) : Prop := rendered.rows.length ≤ CHUNK_ROWS * (2 ^ 32 - 1)

theorem slice_eq (rendered : Rendered) (start : Nat) :
    rendered.slice start (min (start + CHUNK_ROWS) rendered.rows.length) =
      (rendered.rows.drop start).take CHUNK_ROWS := by
  rw [slice, ← List.take_take, List.take_length, List.drop_take, Nat.add_sub_cancel_left]

@[simp] theorem length_chunks (rendered : Rendered) : rendered.chunks.length = rendered.chunkCount := by
  simp [chunks]

theorem chunkCount_pos (rendered : Rendered) : 0 < rendered.chunkCount := by
  unfold chunkCount ReviewCore.chunkCount toU32
  split <;> omega

theorem chunkCount_lt (rendered : Rendered) : rendered.chunkCount < 2 ^ 32 := by
  unfold chunkCount ReviewCore.chunkCount toU32
  split <;> omega

theorem getElem?_chunks (rendered : Rendered) (index : Nat) : rendered.chunks[index]? =
    if index < rendered.chunkCount then
      some ⟨index, (rendered.rows.drop (index * CHUNK_ROWS)).take CHUNK_ROWS⟩
    else none := by
  rw [chunks, List.getElem?_map]
  split
  next inside =>
    rw [List.getElem?_range inside, Option.map_some, Nat.succ_mul, slice_eq]
  next outside =>
    rw [List.getElem?_eq_none (by rw [List.length_range]; omega), Option.map_none]

/-- Asking for a chunk that is counted gives it. -/
theorem chunk_eq (rendered : Rendered) {index : Nat} (inside : index < rendered.chunkCount) :
    rendered.chunk index = rendered.chunks[index]? := by
  rw [getElem?_chunks, if_pos inside, chunk]
  have held : ¬ (rendered.rows.length ≤ index * CHUNK_ROWS ∧
      ¬ (rendered.rows = [] ∧ index = 0)) := by
    rintro ⟨past, notFirst⟩
    unfold chunkCount ReviewCore.chunkCount toU32 CHUNK_ROWS at inside
    unfold CHUNK_ROWS at past
    have first : rendered.rows = [] ∧ index = 0 := by
      rw [← List.length_eq_zero_iff]
      split at inside <;> omega
    exact notFirst first
  rw [if_neg held]
  dsimp only
  rw [slice_eq]

/-- The rows of the first chunks are the first rows. -/
theorem flatMap_rows (rows : List Row) (count : Nat) :
    (List.range count).flatMap (fun i => (rows.drop (i * CHUNK_ROWS)).take CHUNK_ROWS) =
      rows.take (count * CHUNK_ROWS) := by
  induction count with
  | zero => simp
  | succ count ih =>
    rw [List.range_succ, List.flatMap_append, List.flatMap_singleton, ih,
      Nat.succ_mul, List.take_add]

/-- The rows of the chunks are the rows that the count of chunks reaches. -/
theorem chunks_rows (rendered : Rendered) : rendered.chunks.flatMap RenderChunk.rows =
    rendered.rows.take (rendered.chunkCount * CHUNK_ROWS) := by
  rw [chunks, List.flatMap_map, ← flatMap_rows]
  refine List.flatMap_congr fun i _ => ?_
  rw [Nat.succ_mul, slice_eq]

/-- The chunks hold every row exactly when there are indexes for all of them. -/
theorem chunks_rows_iff (rendered : Rendered) :
    rendered.chunks.flatMap RenderChunk.rows = rendered.rows ↔ rendered.Counted := by
  rw [chunks_rows, List.take_eq_self_iff]
  unfold Counted chunkCount ReviewCore.chunkCount toU32 CHUNK_ROWS
  split <;> omega

end Rendered

/-! ## The cache -/

def RENDER_CACHE_GENERATION : Nat := 1

/-- Identifies one render. -/
structure RenderKey where
  target : RenderTarget
  opts : RenderOpts
  lang : Option String
  deriving DecidableEq

namespace RenderKey

def toJson (key : RenderKey) : Json :=
  .object [("target", key.target.toJson), ("opts", key.opts.toJson),
    ("lang", match key.lang with
      | some lang => .string lang
      | none => .null)]

/-- The text that the keys of all entries start with. -/
def keyPrefix (key : RenderKey) : List Char :=
  Json.print (.array [.number RENDER_CACHE_GENERATION, key.toJson])

def headerKey (key : RenderKey) : String := String.ofList (key.keyPrefix ++ '/' :: ['h'])

def chunkKey (key : RenderKey) (index : ChunkIndex) : String :=
  String.ofList (key.keyPrefix ++ '/' :: Nat.toDigits 10 index)

/-- The text is the key of an entry of the render. -/
def Owns (key : RenderKey) (text : String) : Prop :=
  text = key.headerKey ∨ ∃ index, text = key.chunkKey index

theorem toJson_injective : Function.Injective toJson := by
  intro left right same
  obtain ⟨_, _, lang⟩ := left
  obtain ⟨_, _, lang'⟩ := right
  simp only [toJson, Json.object.injEq, List.cons.injEq, Prod.mk.injEq, true_and, and_true,
    RenderTarget.toJson_inj, RenderOpts.toJson_inj] at same
  obtain ⟨rfl, rfl, langs⟩ := same
  cases lang <;> cases lang' <;> simp_all

theorem keyPrefix_injective : Function.Injective keyPrefix := by
  intro left right same
  have equal := Json.print_injective same
  simp only [Json.array.injEq, List.cons.injEq, true_and, and_true] at equal
  exact toJson_injective equal

theorem slash_not_mem_digits (index : Nat) : '/' ∉ Nat.toDigits 10 index := fun mem =>
  absurd (Nat.isDigit_of_mem_toDigits (by decide) (by decide) mem) (by decide)

theorem headerKey_inj {key other : RenderKey} (same : key.headerKey = other.headerKey) :
    key = other :=
  keyPrefix_injective (behind_inj (by decide) (by decide) (String.ofList_injective same)).1

theorem chunkKey_inj {key other : RenderKey} {index index' : Nat}
    (same : key.chunkKey index = other.chunkKey index') : key = other ∧ index = index' := by
  obtain ⟨front, back⟩ := behind_inj (slash_not_mem_digits index) (slash_not_mem_digits index')
    (String.ofList_injective same)
  have values := congrArg (fun digits => Nat.ofDigitChars 10 digits 0) back
  simp only [Nat.ofDigitChars_ten_toDigits] at values
  exact ⟨keyPrefix_injective front, values⟩

theorem headerKey_ne_chunkKey (key other : RenderKey) (index : Nat) :
    key.headerKey ≠ other.chunkKey index := by
  intro same
  have back := (behind_inj (by decide) (slash_not_mem_digits index)
    (String.ofList_injective same)).2
  have digit := Nat.isDigit_of_mem_toDigits (by decide) (by decide)
    (show 'h' ∈ Nat.toDigits 10 index by rw [← back]; decide)
  exact absurd digit (by decide)

/-- Two keys that share an entry are one. -/
theorem eq_of_owns {key other : RenderKey} {text : String} (owns : key.Owns text)
    (owns' : other.Owns text) : key = other := by
  rcases owns with rfl | ⟨index, rfl⟩ <;> rcases owns' with same | ⟨index', same⟩
  · exact headerKey_inj same
  · exact absurd same (headerKey_ne_chunkKey key other index')
  · exact absurd same.symm (headerKey_ne_chunkKey other key index)
  · exact (chunkKey_inj same).1

end RenderKey

/-- What is kept under one key. -/
inductive Entry
  | header (content : RenderContent)
  | chunk (chunk : RenderChunk)

inductive CacheError
  /-- An entry of the other sort. -/
  | json
  /-- The index of a chunk counts 32 bits. -/
  | overflow
  deriving DecidableEq

abbrev RenderCache := String → Option Entry

namespace RenderCache

def insert (cache : RenderCache) (key : String) (entry : Entry) : RenderCache :=
  fun other => if other = key then some entry else cache other

def put (cache : RenderCache) (key : RenderKey) (rendered : Rendered) : RenderCache :=
  rendered.chunks.foldl (fun cache chunk => cache.insert (key.chunkKey chunk.index) (.chunk chunk))
    (cache.insert key.headerKey (.header rendered.content))

def header (cache : RenderCache) (key : RenderKey) : Except CacheError (Option RenderContent) :=
  match cache key.headerKey with
  | none => .ok none
  | some (.header content) => .ok (some content)
  | some (.chunk _) => .error .json

def chunk (cache : RenderCache) (key : RenderKey) (index : ChunkIndex) :
    Except CacheError (Option RenderChunk) :=
  match cache (key.chunkKey index) with
  | none => .ok none
  | some (.chunk chunk) => .ok (some chunk)
  | some (.header _) => .error .json

/-- The rows of the chunks from an index on, until one is missing. `fuel` more indexes can
be counted. -/
def readRows (cache : RenderCache) (key : RenderKey) :
    Nat → ChunkIndex → Except CacheError (List Row)
  | 0, _ => .error .overflow
  | fuel + 1, index => do
    match ← cache.chunk key index with
    | none => .ok []
    | some chunk =>
      let later ← readRows cache key fuel (index + 1)
      .ok (chunk.rows ++ later)

/-- Serve from the render cache, or compute `render` and store it. -/
def cachedRender (cache : RenderCache) (key : RenderKey) (render : Rendered) :
    Except CacheError (Rendered × RenderCache) := do
  match ← cache.header key with
  | some content =>
    let rows ← cache.readRows key (2 ^ 32) 0
    .ok (⟨content, rows⟩, cache)
  | none => .ok (render, cache.put key render)

/-- Calls one after the other, each with what its render would compute. -/
def run : RenderCache → List (RenderKey × Rendered) → Except CacheError RenderCache
  | cache, [] => .ok cache
  | cache, call :: calls => do
    let served ← cache.cachedRender call.1 call.2
    run served.2 calls

/-! ### What entries the cache has -/

/-- The entries of a render are those of what was kept under its key, or there are none. -/
structure Holds (cache : RenderCache) (kept : RenderKey → Option Rendered) : Prop where
  headers : ∀ key, cache key.headerKey = (kept key).map fun rendered => .header rendered.content
  chunks : ∀ key index, cache (key.chunkKey index) =
    (kept key).bind fun rendered => rendered.chunks[index]?.map Entry.chunk

/-- The kept renders, with one more. -/
def keep (kept : RenderKey → Option Rendered) (key : RenderKey) (rendered : Rendered) :
    RenderKey → Option Rendered :=
  fun other => if other = key then some rendered else kept other

/-- Inserting numbered chunks changes exactly their entries. -/
theorem insert_chunks (cache : RenderCache) (key : RenderKey) {chunkAt : Nat → RenderChunk}
    (numbered : ∀ i, (chunkAt i).index = i) (count : Nat) (text : String) :
    ((List.range count).map chunkAt).foldl
        (fun cache chunk => cache.insert (key.chunkKey chunk.index) (.chunk chunk)) cache text =
      ((List.range count).find? fun i => text = key.chunkKey i).elim (cache text)
        fun i => some (.chunk (chunkAt i)) := by
  induction count with
  | zero => rfl
  | succ count ih =>
    rw [List.range_succ, List.map_append, List.foldl_append, List.map_singleton, List.foldl_cons,
      List.foldl_nil, insert, numbered, ih, List.find?_append]
    by_cases here : text = key.chunkKey count
    · -- No earlier chunk has the entry, for the numbers are different.
      have none_ : ((List.range count).find? fun i => text = key.chunkKey i) = none := by
        rw [List.find?_eq_none]
        intro i mem same
        have equal := (RenderKey.chunkKey_inj (here.symm.trans (of_decide_eq_true same))).2
        have below := List.mem_range.mp mem
        omega
      rw [if_pos here, none_]
      simp [here]
    · rw [if_neg here]
      cases found : (List.range count).find? fun i => text = key.chunkKey i <;> simp [here]

/-- Putting a render changes exactly the entries of its key that it has. -/
theorem put_eq (cache : RenderCache) (key : RenderKey) (rendered : Rendered) (text : String) :
    cache.put key rendered text =
      ((List.range rendered.chunkCount).find? fun i => text = key.chunkKey i).elim
        (if text = key.headerKey then some (.header rendered.content) else cache text)
        fun i => rendered.chunks[i]?.map Entry.chunk := by
  have placed := insert_chunks (cache.insert key.headerKey (.header rendered.content)) key
    (fun _ => rfl : ∀ i, (RenderChunk.mk i (rendered.slice (i * CHUNK_ROWS)
      (min ((i + 1) * CHUNK_ROWS) rendered.rows.length))).index = i) rendered.chunkCount text
  rw [put, Rendered.chunks, placed]
  cases found : (List.range rendered.chunkCount).find? fun i => text = key.chunkKey i with
  | none => rfl
  | some i =>
    have inside := List.mem_range.mp (List.mem_of_find?_eq_some found)
    rw [Option.elim_some, Option.elim_some, List.getElem?_map, List.getElem?_range inside]
    rfl

theorem put_headerKey (cache : RenderCache) (key other : RenderKey) (rendered : Rendered) :
    cache.put key rendered other.headerKey =
      if other = key then some (.header rendered.content) else cache other.headerKey := by
  have none_ : ((List.range rendered.chunkCount).find? fun i => other.headerKey = key.chunkKey i) =
      none := by
    rw [List.find?_eq_none]
    intro i _ same
    exact RenderKey.headerKey_ne_chunkKey other key i (of_decide_eq_true same)
  rw [put_eq, none_, Option.elim_none]
  by_cases same : other = key
  · rw [if_pos (by rw [same]), if_pos same]
  · rw [if_neg fun equal => same (RenderKey.headerKey_inj equal), if_neg same]

theorem put_chunkKey (cache : RenderCache) (key other : RenderKey) (rendered : Rendered)
    (index : Nat) : cache.put key rendered (other.chunkKey index) =
      if other = key ∧ index < rendered.chunkCount then rendered.chunks[index]?.map Entry.chunk
      else cache (other.chunkKey index) := by
  have notHeader : other.chunkKey index ≠ key.headerKey := fun same =>
    RenderKey.headerKey_ne_chunkKey key other index same.symm
  rw [put_eq, if_neg notHeader]
  cases found : (List.range rendered.chunkCount).find? fun i => other.chunkKey index = key.chunkKey i with
  | none =>
    rw [if_neg, Option.elim_none]
    rintro ⟨rfl, inside⟩
    exact absurd (decide_eq_true rfl) (List.find?_eq_none.mp found index (List.mem_range.mpr inside))
  | some i =>
    have same := List.find?_some found
    obtain ⟨rfl, rfl⟩ := RenderKey.chunkKey_inj (of_decide_eq_true same)
    rw [Option.elim_some, if_pos ⟨rfl, List.mem_range.mp (List.mem_of_find?_eq_some found)⟩]

variable {cache : RenderCache} {kept : RenderKey → Option Rendered}

/-- Where nothing is kept under a key, putting a render keeps it. -/
theorem Holds.put (holds : cache.Holds kept) {key : RenderKey} (missing : kept key = none)
    (rendered : Rendered) : (cache.put key rendered).Holds (keep kept key rendered) := by
  constructor
  · intro other
    rw [put_headerKey, keep]
    split
    · rfl
    · exact holds.headers other
  · intro other index
    rw [put_chunkKey, keep]
    by_cases same : other = key
    · rw [if_pos same]
      by_cases inside : index < rendered.chunkCount
      · rw [if_pos ⟨same, inside⟩, Option.bind_some]
      · rw [if_neg fun both => inside both.2, holds.chunks, same, missing, Option.bind_some,
          Rendered.getElem?_chunks, if_neg inside]
        rfl
    · rw [if_neg fun both => same both.1, if_neg same]
      exact holds.chunks other index

/-- The rows that are read back are those of the chunks, from one on. -/
theorem Holds.readRows (holds : cache.Holds kept) {key : RenderKey} {rendered : Rendered}
    (held : kept key = some rendered) {fuel index : Nat}
    (enough : rendered.chunkCount < fuel + index) (inside : index ≤ rendered.chunkCount) :
    cache.readRows key fuel index =
      .ok ((rendered.chunks.drop index).flatMap RenderChunk.rows) := by
  induction fuel generalizing index with
  | zero => omega
  | succ fuel ih =>
    have served : cache.chunk key index = .ok rendered.chunks[index]? := by
      unfold RenderCache.chunk
      rw [holds.chunks, held, Option.bind_some]
      cases rendered.chunks[index]? <;> rfl
    rw [RenderCache.readRows, served, ok_bind]
    rcases Nat.eq_or_lt_of_le inside with rfl | before
    · have past := Rendered.length_chunks rendered
      rw [List.getElem?_eq_none (by omega), List.drop_eq_nil_of_le (by omega)]
      rfl
    · have within : index < rendered.chunks.length := by
        rw [Rendered.length_chunks]
        exact before
      rw [List.getElem?_eq_getElem within, List.drop_eq_getElem_cons within, List.flatMap_cons]
      dsimp only
      rw [ih (by omega) before, ok_bind]

/-- What a render is when it is read back. -/
def readBack (rendered : Rendered) : Rendered :=
  ⟨rendered.content, rendered.chunks.flatMap RenderChunk.rows⟩

theorem readBack_eq {rendered : Rendered} (counted : rendered.Counted) :
    readBack rendered = rendered := by
  rw [readBack, rendered.chunks_rows_iff.mpr counted]

/-- A call serves what is kept, or keeps what it computes. -/
theorem Holds.cachedRender (holds : cache.Holds kept) (key : RenderKey) (render : Rendered) :
    ∃ cache', cache.cachedRender key render = .ok ((kept key).elim render readBack, cache') ∧
      cache'.Holds (keep kept key ((kept key).getD render)) := by
  have header : cache.header key = .ok ((kept key).map Rendered.content) := by
    rw [RenderCache.header, holds.headers]
    cases kept key <;> rfl
  rw [RenderCache.cachedRender, header, ok_bind]
  cases held : kept key with
  | none => exact ⟨cache.put key render, rfl, holds.put held render⟩
  | some rendered =>
    have bound := rendered.chunkCount_lt
    have rows := holds.readRows held (show rendered.chunkCount < 2 ^ 32 + 0 by omega) (Nat.zero_le _)
    rw [List.drop_zero] at rows
    have same : keep kept key rendered = kept := by
      funext other
      rw [keep]
      split
      next equal => rw [equal, held]
      next => rfl
    rw [Option.map_some]
    dsimp only
    rw [rows, ok_bind, Option.elim_some, Option.getD_some, same]
    exact ⟨cache, rfl, holds⟩

/-- What the first call for a key computed. -/
def firstOf (calls : List (RenderKey × Rendered)) (key : RenderKey) : Option Rendered :=
  (calls.find? fun call => call.1 = key).map Prod.snd

/-- Calls keep what the first one for each key computed, unless something was kept before. -/
theorem Holds.run (holds : cache.Holds kept) (calls : List (RenderKey × Rendered)) :
    ∃ cache', cache.run calls = .ok cache' ∧
      cache'.Holds fun key => (kept key).or (firstOf calls key) := by
  induction calls generalizing cache kept with
  | nil =>
    refine ⟨cache, rfl, ?_⟩
    simpa [firstOf] using holds
  | cons call calls ih =>
    obtain ⟨next, served, held⟩ := holds.cachedRender call.1 call.2
    obtain ⟨last, reached, later⟩ := ih held
    refine ⟨last, ?_, ?_⟩
    · rw [RenderCache.run, served, ok_bind]
      exact reached
    · have same : (fun key => (keep kept call.1 ((kept call.1).getD call.2) key).or
          (firstOf calls key)) = fun key => (kept key).or (firstOf (call :: calls) key) := by
        funext key
        rw [keep, firstOf, firstOf, List.find?_cons]
        by_cases mine : key = call.1
        · subst mine
          rw [if_pos rfl, decide_eq_true rfl]
          cases kept call.1 <;> rfl
        · rw [if_neg mine, decide_eq_false fun equal => mine equal.symm]
      rwa [same] at later

end RenderCache

end Nits.ReviewCore
