import Nits.Protocol.Rpc
import Nits.ReviewCore.Render.Cache

/-!
# Renders on their way to a client

A render reaches a client as its header and its chunks, starting at the one on screen and
wrapping round. On the way it may have been kept in the cache and read back.
-/

namespace Nits.Nitsd

open Logical Protocol ReviewCore

/-- Header, then chunks starting at `first`, wrapping round to the start. -/
def streamRender (header : FileRenderHeader) (rendered : Rendered) (first : ChunkIndex) :
    List StreamItem :=
  let n := rendered.chunkCount
  let start := min first (n - 1)
  .header header :: (List.range' start (n - start) ++ List.range start).filterMap fun i =>
    (rendered.chunk i).map (.chunk header.repoId header.path)

/-- The chunks at indexes that are counted. -/
theorem filterMap_chunk {rendered : Rendered} {indexes : List Nat}
    (inside : ∀ i ∈ indexes, i < rendered.chunkCount) :
    indexes.filterMap rendered.chunk = indexes.filterMap fun i => rendered.chunks[i]? :=
  List.filterMap_congr fun i mem => rendered.chunk_eq (inside i mem)

theorem filterMap_getElem? {α : Type} (items : List α) (start count : Nat)
    (inside : start + count ≤ items.length) :
    (List.range' start count).filterMap (fun i => items[i]?) = (items.drop start).take count := by
  induction count generalizing start with
  | zero => simp
  | succ count ih =>
    have here : start < items.length := by omega
    rw [List.range'_succ, List.filterMap_cons, List.getElem?_eq_getElem here,
      ih (start + 1) (by omega), List.drop_eq_getElem_cons here, List.take_succ_cons]

/-- Going round from an index takes every chunk. -/
theorem wrapped_chunks (rendered : Rendered) {start : Nat} (inside : start < rendered.chunkCount) :
    (List.range' start (rendered.chunkCount - start) ++ List.range start).filterMap rendered.chunk =
      rendered.chunks.drop start ++ rendered.chunks.take start := by
  have length := rendered.length_chunks
  rw [filterMap_chunk, List.filterMap_append, List.range_eq_range',
    filterMap_getElem? _ _ _ (by omega), filterMap_getElem? _ _ _ (by omega), List.drop_zero,
    List.take_of_length_le (by rw [List.length_drop]; omega)]
  intro i mem
  rcases List.mem_append.mp mem with mem | mem
  · have bounds := List.mem_range'_1.mp mem
    omega
  · have below := List.mem_range.mp mem
    omega

/-- Every chunk is sent once, from the requested one on. -/
theorem streamRender_eq (header : FileRenderHeader) (rendered : Rendered) (first : ChunkIndex) :
    streamRender header rendered first = .header header ::
      (rendered.chunks.drop (min first (rendered.chunks.length - 1)) ++
        rendered.chunks.take (min first (rendered.chunks.length - 1))).map
          (.chunk header.repoId header.path) := by
  have inside : min first (rendered.chunkCount - 1) < rendered.chunkCount :=
    Nat.lt_of_le_of_lt (Nat.min_le_right _ _) (Nat.sub_lt rendered.chunkCount_pos Nat.one_pos)
  rw [streamRender, rendered.length_chunks, ← wrapped_chunks rendered inside, List.map_filterMap]

/-- What the two renders make. -/
inductive Produced : Rendered → Prop
  | file {diff : LineDiff} {highlighter : Highlighter} {changedRanges : ChangedRanges}
      {old new : Option (List UInt8)} {lang : Option String} {opts : RenderOpts} {rendered : Rendered}
      (emitted : renderFile diff highlighter changedRanges old new lang opts = some rendered) :
      Produced rendered
  | blob (highlighter : Highlighter) (bytes : List UInt8) (lang : Option String) :
      Produced (renderBlob highlighter bytes lang)

/-- The header of a render counts its chunks. -/
theorem Produced.counts {rendered : Rendered} (produced : Produced rendered)
    {total size count additions deletions : Nat} {highlighted : Bool} {gaps : GapTable}
    (content : rendered.content = .text total size count highlighted additions deletions gaps) :
    rendered.chunks.length = count := by
  rw [Rendered.length_chunks, Rendered.chunkCount]
  cases produced with
  | file emitted =>
    unfold renderFile at emitted
    split at emitted
    next =>
      obtain rfl := Option.some.inj emitted
      cases content
    next =>
      dsimp only at emitted
      split at emitted
      next =>
        obtain rfl := Option.some.inj emitted
        cases content
        rfl
      next =>
        obtain ⟨built, -, made⟩ := Option.bind_eq_some_iff.mp emitted
        obtain rfl := Option.some.inj made
        cases content
        rfl
  | blob highlighter bytes lang =>
    unfold renderBlob at content ⊢
    split at content
    next => cases content
    next text =>
      rw [if_neg text]
      cases content
      rfl

/-- Renders survive chunks, cache and stream. The rows of the chunks are the rows of a
render exactly when their chunks have indexes, and its header counts the chunks. Whatever
calls have been served since a cache had no entry of these keys, a call returns what the
first call for its key computed. Keys that share an entry are one. A stream is the header
and every chunk once, from the requested one on. -/
theorem render_survives : (∀ rendered, Produced rendered →
      (rendered.chunks.flatMap RenderChunk.rows = rendered.rows ↔
        rendered.rows.length ≤ CHUNK_ROWS * (2 ^ 32 - 1)) ∧
      ∀ total size count highlighted additions deletions gaps, rendered.content =
        .text total size count highlighted additions deletions gaps →
          rendered.chunks.length = count) ∧
    (∀ (start : RenderCache), (∀ (key : RenderKey) text, key.Owns text → start text = none) →
      ∀ calls : List (RenderKey × Rendered), (∀ call ∈ calls, call.2.Counted) →
        ∃ cache, start.run calls = .ok cache ∧ ∀ key render, ∃ cache',
          cache.cachedRender key render =
            .ok (((calls ++ [(key, render)]).find? fun call => call.1 = key).elim render Prod.snd,
              cache')) ∧
    (∀ (key other : RenderKey) text, key.Owns text → other.Owns text → key = other) ∧
    ∀ (header : FileRenderHeader) (rendered : Rendered) (first : ChunkIndex),
      streamRender header rendered first = .header header ::
        (rendered.chunks.drop (min first (rendered.chunks.length - 1)) ++
          rendered.chunks.take (min first (rendered.chunks.length - 1))).map
            (.chunk header.repoId header.path) := by
  refine ⟨fun rendered produced => ⟨rendered.chunks_rows_iff, ?_⟩, ?_, fun _ _ _ => RenderKey.eq_of_owns,
    streamRender_eq⟩
  · intro total size count highlighted additions deletions gaps content
    exact produced.counts content
  · intro start fresh calls counted
    have empty : start.Holds fun _ => none :=
      ⟨fun key => fresh key _ (.inl rfl), fun key index => fresh key _ (.inr ⟨index, rfl⟩)⟩
    obtain ⟨cache, reached, holds⟩ := empty.run calls
    refine ⟨cache, reached, fun key render => ?_⟩
    obtain ⟨cache', served, -⟩ := holds.cachedRender key render
    refine ⟨cache', ?_⟩
    rw [served, Option.none_or, RenderCache.firstOf, List.find?_append]
    cases found : calls.find? fun call => call.1 = key with
    | none => simp
    | some call =>
      have here := counted call (List.mem_of_find?_eq_some found)
      rw [Option.map_some, Option.elim_some, RenderCache.readBack_eq here, Option.some_or,
        Option.elim_some]

theorem length_splitLines_newlines (count : Nat) :
    (splitLines (List.replicate count 10)).length = count := by
  rw [splitLines, List.length_map]
  induction count with
  | zero => rfl
  | succ count ih =>
    rw [List.replicate_succ, splitInclusive, if_pos rfl, List.length_cons, ih]

/-- A blob of empty lines has a row for each. -/
theorem length_rows_newlines (count : Nat) :
    (renderBlob (fun _ _ => []) (List.replicate count 10) none).rows.length = count := by
  have text : isBinary (List.replicate count 10) = false := by
    rw [isBinary, List.any_eq_false]
    intro byte mem
    have newline := List.eq_of_mem_replicate (List.mem_of_mem_take mem)
    rw [newline]
    decide
  rw [renderBlob, if_neg (by rw [text]; decide)]
  dsimp only
  rw [List.length_mapIdx, length_splitLines_newlines]

/-- The chunks of a blob of more lines than there are indexes for lose rows. -/
theorem newlines_lose_rows : ¬ ∀ rendered, Produced rendered →
    rendered.chunks.flatMap RenderChunk.rows = rendered.rows := by
  intro all
  have whole := all _ (.blob (fun _ _ => []) (List.replicate (CHUNK_ROWS * (2 ^ 32 - 1) + 1) 10) none)
  rw [Rendered.chunks_rows_iff, Rendered.Counted, length_rows_newlines] at whole
  omega

end Nits.Nitsd
