import Nits.Ui.FileKey

/-!
# Rows already seen

Views are bounded to a window; the UI keeps every row a file has shown and drops them when
the file's key changes. A kept row outside the window is not looked at again.
-/

namespace Nits.Ui

open Logical Protocol ClientCore

/-! ## Merging -/

/-- The rows kept for a file, and the key they were kept under. -/
structure Seen where
  key : String
  rows : Table Nat DiffRow

def Seen.initial : Seen := ⟨"", ∅⟩

/-- Merge a view's rows into the rows seen so far. Clears when the file's key changes. -/
def mergeSeen (seen : Table Nat DiffRow) (prevKey key : String) (rows : List DiffRow) :
    Table Nat DiffRow :=
  rows.foldl (fun out row => out.insert row.index row) (if prevKey = key then seen else ∅)

theorem mem_foldl_insert {rows : List DiffRow} {start : Table Nat DiffRow} {index : Nat}
    {kept : DiffRow}
    (found : (rows.foldl (fun out row => out.insert row.index row) start)[index]? = some kept) :
    (kept ∈ rows ∧ kept.index = index) ∨
      (start[index]? = some kept ∧ ∀ row ∈ rows, row.index ≠ index) := by
  induction rows generalizing start with
  | nil => exact .inr ⟨found, by simp⟩
  | cons row rows ih =>
    rcases ih found with ⟨mem, place⟩ | ⟨earlier, apart⟩
    · exact .inl ⟨List.mem_cons_of_mem _ mem, place⟩
    · rw [Table.getElem?_insert] at earlier
      split at earlier
      · rename_i here
        cases earlier
        exact .inl ⟨List.mem_cons_self, here⟩
      · rename_i elsewhere
        refine .inr ⟨earlier, fun other mem => ?_⟩
        rcases List.mem_cons.mp mem with rfl | mem
        · exact elsewhere
        · exact apart other mem

theorem getElem?_foldl_insert {rows : List DiffRow} {start : Table Nat DiffRow} {index : Nat} :
    (rows.foldl (fun out row => out.insert row.index row) start)[index]?.isSome ↔
      (∃ row ∈ rows, row.index = index) ∨ start[index]?.isSome := by
  induction rows generalizing start with
  | nil => simp
  | cons row rows ih =>
    rw [List.foldl_cons, ih, Table.getElem?_insert]
    split <;> simp_all

/-! ## Runs -/

/-- The cache holds chunks of the rows of a render, and no others under its key. -/
def Caches (cache : ContentCache) (render : RenderKey) (rows : List Row) : Prop :=
  ∀ header totalRows chunkRows chunkCount highlighted additions deletions gaps,
    cache.header render = some header →
      header.content =
          .text totalRows chunkRows chunkCount highlighted additions deletions gaps →
        ∀ index chunk, cache.chunk render index = some chunk →
          chunk.rows = (rows.drop (index * chunkRows)).take chunkRows

/-- A state of an open review in which the core derives a view of the file. -/
structure Showing where
  cache : ContentCache
  snapshot : ReviewSnapshot
  viewer : Author
  render : RenderKey
  firstRow : Nat
  lastRow : Nat
  draft : Option Draft
  /-- The rows of the render. -/
  rows : List Row
  caches : Caches cache render rows
  view : DiffView
  derived : diffView cache snapshot viewer render firstRow lastRow draft = some view

namespace Showing

def key (showing : Showing) : String := fileKey showing.view

/-- The row that the state has at an index, with what is placed on it. -/
def rowAt (showing : Showing) (index : Nat) : Option DiffRow :=
  (overlay showing.snapshot showing.render showing.draft showing.rows)[index]?

/-- The view shows a row at the index. -/
def Shows (showing : Showing) (index : Nat) : Prop := ∃ row ∈ showing.view.rows, row.index = index

/-- What the state's header says of the file as a whole: what is compared in it, which file it
is, and how many rows, additions and deletions it has. -/
def identity (showing : Showing) : Option (RenderTarget × FileRef × RenderTotals) :=
  (showing.cache.header showing.render).map fun header =>
    (header.target, ⟨showing.render.repoId, showing.render.path⟩, .of header.content)

/-- The row of an index is in the state's viewport, which ends at the last row that the header
counts, and the chunk that it is in is cached. -/
def Visible (showing : Showing) (index : Nat) : Prop :=
  ∃ header totalRows chunkRows chunkCount highlighted additions deletions gaps,
    showing.cache.header showing.render = some header ∧
    header.content = .text totalRows chunkRows chunkCount highlighted additions deletions gaps ∧
    0 < chunkRows ∧ 0 < totalRows ∧
    min showing.firstRow (min showing.lastRow (totalRows - 1)) ≤ index ∧
    index ≤ min showing.lastRow (totalRows - 1) ∧ index < showing.rows.length ∧
    index / chunkRows < chunkCount ∧
    (showing.cache.chunk showing.render (index / chunkRows)).isSome

/-- Two states agree on a row: the line or lines it shows, the threads on these, and whether the
draft is on them. -/
structure AgreeAt (showing other : Showing) (index : Nat) : Prop where
  row : showing.rows[index]? = other.rows[index]?
  threads : ∀ row ∈ showing.rows[index]?,
    rowThreads (placements showing.snapshot showing.render) row =
      rowThreads (placements other.snapshot other.render) row
  draft : ∀ row ∈ showing.rows[index]?, rowDraft (draftRange showing.draft showing.render) row =
    rowDraft (draftRange other.draft other.render) row

end Showing

/-- What is kept after the views of a run, the newest one first. -/
def kept : List Showing → Seen
  | [] => .initial
  | showing :: earlier =>
    ⟨showing.key, mergeSeen (kept earlier).rows (kept earlier).key showing.key showing.view.rows⟩

/-- Every kept row is the row of the state. -/
def Current (seen : Seen) (showing : Showing) : Prop :=
  ∀ index row, seen.rows[index]? = some row → showing.rowAt index = some row

/-- Every row kept after each view of the run is the row of the state of that view. -/
def AlwaysCurrent : List Showing → Prop
  | [] => True
  | showing :: earlier => Current (kept (showing :: earlier)) showing ∧ AlwaysCurrent earlier

/-- In some state since the file last became another one, or its counts others, the row of the
index was in the viewport. -/
def SeenSince : List Showing → Nat → Prop
  | [], _ => False
  | [showing], index => showing.Visible index
  | showing :: prev :: earlier, index =>
    showing.Visible index ∨ (prev.identity = showing.identity ∧ SeenSince (prev :: earlier) index)

/-- From each state to the next the file becomes another one, or its counts others, or what was
in the viewport since and is no more stays as it is: its row, its threads and the draft on
it. -/
def Steady : List Showing → Prop
  | [] => True
  | [_] => True
  | showing :: prev :: earlier =>
    (prev.identity ≠ showing.identity ∨ ∀ index, SeenSince (prev :: earlier) index →
      ¬ showing.Visible index → showing.AgreeAt prev index) ∧ Steady (prev :: earlier)

theorem mem_placeRows_iff {firstRow lastRow start : Nat} {placements : List Placement}
    {draft : Option (Side × Nat × Nat)} {rows : List Row} {shown : DiffRow} :
    shown ∈ placeRows firstRow lastRow placements draft start rows ↔
      ∃ offset row, rows[offset]? = some row ∧ firstRow ≤ start + offset ∧ start + offset ≤ lastRow ∧
        shown = placeRow placements draft (start + offset) row := by
  induction rows generalizing start with
  | nil => simp [placeRows]
  | cons row rows ih =>
    have later : (∃ offset other, rows[offset]? = some other ∧ firstRow ≤ start + 1 + offset ∧
        start + 1 + offset ≤ lastRow ∧ shown = placeRow placements draft (start + 1 + offset) other) ↔
        ∃ offset other, (row :: rows)[offset + 1]? = some other ∧ firstRow ≤ start + (offset + 1) ∧
          start + (offset + 1) ≤ lastRow ∧
          shown = placeRow placements draft (start + (offset + 1)) other := by
      simp only [List.getElem?_cons_succ, Nat.add_assoc, Nat.add_comm 1]
    rw [← Nat.or_exists_add_one, ← later, ← ih, placeRows]
    simp only [List.getElem?_cons_zero, Option.some.injEq, exists_eq_left', Nat.add_zero]
    split
    · exact ⟨.inr, fun here => here.resolve_left fun inside => by omega⟩
    · rw [List.mem_cons]
      refine or_congr_left ⟨fun same => ⟨by omega, by omega, same⟩, fun inside => inside.2.2⟩

theorem rowAt_eq (showing : Showing) (index : Nat) : showing.rowAt index =
    showing.rows[index]?.map (placeRow (placements showing.snapshot showing.render)
      (draftRange showing.draft showing.render) index) := by
  rw [Showing.rowAt, overlay, List.getElem?_mapIdx]

/-- A view shows the rows of its state that are visible. -/
theorem mem_rows_iff {showing : Showing} {row : DiffRow} : row ∈ showing.view.rows ↔
    showing.Visible row.index ∧ showing.rowAt row.index = some row := by
  have derived := showing.derived
  simp only [diffView, Option.bind_eq_bind, Option.bind_eq_some_iff] at derived
  obtain ⟨header, held, derived⟩ := derived
  -- A state without text, or with a header of no rows, shows none.
  have none_ (rows : showing.view.rows = []) (empty : ∀ totalRows chunkRows chunkCount highlighted
      additions deletions gaps, header.content = .text totalRows chunkRows chunkCount highlighted
        additions deletions gaps → ¬ (0 < chunkRows ∧ 0 < totalRows ∧ 0 < chunkCount)) :
      row ∈ showing.view.rows ↔
        showing.Visible row.index ∧ showing.rowAt row.index = some row := by
    rw [rows]
    refine iff_of_false List.not_mem_nil ?_
    rintro ⟨⟨header', t, c, n, h, a, d, g, held', content, chunks, total, -, -, -, inside, -⟩, -⟩
    cases Option.some.inj (held.symm.trans held')
    exact empty t c n h a d g content ⟨chunks, total, Nat.zero_lt_of_lt inside⟩
  split at derived
  next binary =>
    refine none_ (by rw [← Option.some.inj derived]) fun t c n h a d g content => ?_
    cases binary.symm.trans content
  next submodule =>
    refine none_ (by rw [← Option.some.inj derived]) fun t c n h a d g content => ?_
    cases submodule.symm.trans content
  next totalRows chunkRows chunkCount highlighted additions deletions gaps content =>
    split at derived
    next empty =>
      refine none_ (by rw [← Option.some.inj derived]) fun t c n h a d g content' => ?_
      cases content.symm.trans content'
      omega
    next full =>
    have positive : 0 < chunkRows := by omega
    have view := Option.some.inj derived
    have chunked {index : Nat} {chunk : RenderChunk}
        (found : showing.cache.chunk showing.render index = some chunk) {offset : Nat} {line : Row} :
        chunk.rows[offset]? = some line ↔
          offset < chunkRows ∧ showing.rows[index * chunkRows + offset]? = some line := by
      rw [showing.caches _ _ _ _ _ _ _ _ held content _ _ found, List.getElem?_take,
        Option.ite_none_right_eq_some, List.getElem?_drop]
    have index_of {index offset : Nat} (small : offset < chunkRows) :
        (index * chunkRows + offset) / chunkRows = index := by
      rw [Nat.mul_comm, Nat.mul_add_div positive, Nat.div_eq_of_lt small, Nat.add_zero]
    rw [← view]
    simp only [List.mem_flatMap, List.mem_range'_1]
    constructor
    · rintro ⟨index, ⟨first, last⟩, mem⟩
      split at mem
      next => cases mem
      next chunk found =>
      obtain ⟨offset, line, listed, above, below, rfl⟩ := mem_placeRows_iff.mp mem
      obtain ⟨small, there⟩ := (chunked found).mp listed
      have inside := (List.getElem?_eq_some_iff.mp there).1
      dsimp only [placeRow]
      refine ⟨⟨header, _, _, _, _, _, _, _, held, content, positive, by omega, above, below, inside,
        ?_, ?_⟩, ?_⟩
      · rw [index_of small]
        omega
      · rw [index_of small, found]
        rfl
      · rw [rowAt_eq, there]
        rfl
    · rintro ⟨⟨header', t, c, n, h, a, d, g, held', content', -, -, above, below, inside, counted,
        cached⟩, placed⟩
      cases Option.some.inj (held.symm.trans held')
      cases content.symm.trans content'
      obtain ⟨chunk, found⟩ := Option.isSome_iff_exists.mp cached
      have parts := Nat.div_add_mod' row.index chunkRows
      have small := Nat.mod_lt row.index positive
      have low := Nat.div_le_div_right (c := chunkRows) above
      have high := Nat.div_le_div_right (c := chunkRows) below
      refine ⟨row.index / chunkRows, ⟨low, by omega⟩, ?_⟩
      rw [found]
      rw [rowAt_eq, Option.map_eq_some_iff] at placed
      obtain ⟨line, there, same⟩ := placed
      refine mem_placeRows_iff.mpr
        ⟨row.index % chunkRows, line, (chunked found).mpr ⟨small, ?_⟩, ?_, ?_, ?_⟩
      · rw [parts, there]
      · rwa [parts]
      · rwa [parts]
      · rw [parts, same]

/-- A view shows a row at the visible indexes. -/
theorem shows_iff {showing : Showing} {index : Nat} : showing.Shows index ↔ showing.Visible index := by
  constructor
  · rintro ⟨row, mem, rfl⟩
    exact (mem_rows_iff.mp mem).1
  · intro visible
    obtain ⟨_, _, _, _, _, _, _, _, _, _, _, _, _, _, inside, _⟩ := id visible
    refine ⟨placeRow (placements showing.snapshot showing.render)
      (draftRange showing.draft showing.render) index showing.rows[index], ?_, rfl⟩
    refine mem_rows_iff.mpr ⟨visible, ?_⟩
    rw [placeRow, rowAt_eq, List.getElem?_eq_getElem inside, Option.map_some, placeRow]

theorem rowAt_of_mem {showing : Showing} {row : DiffRow} (mem : row ∈ showing.view.rows) :
    showing.rowAt row.index = some row := (mem_rows_iff.mp mem).2

/-- The key of a state's view says what the state's header says of the file. -/
theorem key_eq_iff {showing other : Showing} :
    showing.key = other.key ↔ showing.identity = other.identity := by
  have said (showing : Showing) : showing.identity =
      some (showing.view.target, showing.view.file, .of showing.view.content) := by
    have derived := showing.derived
    simp only [diffView, Option.bind_eq_bind, Option.bind_eq_some_iff] at derived
    obtain ⟨header, held, derived⟩ := derived
    rw [Showing.identity, held, Option.map_some]
    split at derived
    · rw [← Option.some.inj derived]
    · rw [← Option.some.inj derived]
    · split at derived <;> rw [← Option.some.inj derived]
  rw [Showing.key, Showing.key, fileKey_eq_iff, said, said, Option.some.injEq, Prod.mk.injEq,
    Prod.mk.injEq]

/-- States that agree on a row show the same there. -/
theorem agreeAt_iff {showing other : Showing} {index : Nat} :
    showing.AgreeAt other index ↔ showing.rowAt index = other.rowAt index := by
  rw [rowAt_eq, rowAt_eq]
  constructor
  · rintro ⟨row, threads, draft⟩
    rw [← row]
    refine Option.map_congr fun line here => ?_
    rw [placeRow, placeRow, threads line here, draft line here]
  · intro same
    cases here : showing.rows[index]? with
    | none =>
      rw [here, Option.map_none, eq_comm, Option.map_eq_none_iff] at same
      exact ⟨here.trans same.symm, by simp [here], by simp [here]⟩
    | some line =>
      rw [here, Option.map_some, eq_comm, Option.map_eq_some_iff] at same
      obtain ⟨line', there, same⟩ := same
      obtain ⟨-, rfl, threads, draft⟩ := DiffRow.mk.inj same
      refine ⟨here.trans there.symm, ?_, ?_⟩
      · intro row mem
        cases Option.some.inj (here.symm.trans mem)
        exact threads.symm
      · intro row mem
        cases Option.some.inj (here.symm.trans mem)
        exact draft.symm

theorem current_single (showing : Showing) : Current (kept [showing]) showing := by
  intro index row found
  rw [kept, kept, Seen.initial, mergeSeen, ite_self] at found
  rcases mem_foldl_insert found with ⟨mem, rfl⟩ | ⟨absurd_, -⟩
  · exact rowAt_of_mem mem
  · rw [Table.getElem?_empty] at absurd_
    cases absurd_

/-- A row is kept for each index that was visible since the file became what it is. -/
theorem isSome_kept_iff (run : List Showing) (index : Nat) :
    (kept run).rows[index]?.isSome ↔ SeenSince run index := by
  match run with
  | [] => simp [kept, Seen.initial, SeenSince]
  | [showing] =>
    rw [kept, kept, Seen.initial, mergeSeen, ite_self, getElem?_foldl_insert, SeenSince, ← shows_iff,
      Showing.Shows]
    simp
  | showing :: prev :: earlier =>
    have ih := isSome_kept_iff (prev :: earlier) index
    rw [kept, mergeSeen, getElem?_foldl_insert, SeenSince, ← shows_iff, Showing.Shows, ← key_eq_iff]
    have key : (kept (prev :: earlier)).key = prev.key := rfl
    by_cases same : prev.key = showing.key
    · rw [key, if_pos same, ih]
      simp [same]
    · rw [key, if_neg same, Table.getElem?_empty]
      simp [same]

/-- After a view the kept rows are those of its state exactly when the file became another one
or no kept row outside the viewport did. -/
theorem current_cons_iff {showing prev : Showing} {earlier : List Showing}
    (before : Current (kept (prev :: earlier)) prev) :
    Current (kept (showing :: prev :: earlier)) showing ↔
      (prev.identity ≠ showing.identity ∨ ∀ index, SeenSince (prev :: earlier) index →
        ¬ showing.Visible index → showing.AgreeAt prev index) := by
  have key : (kept (prev :: earlier)).key = prev.key := rfl
  rw [Ne, ← key_eq_iff]
  constructor
  · intro current
    by_cases same : prev.key = showing.key
    · refine .inr fun index seen hidden => agreeAt_iff.mpr ?_
      have still : (kept (showing :: prev :: earlier)).rows[index]?.isSome :=
        (isSome_kept_iff _ index).mpr (.inr ⟨key_eq_iff.mp same, seen⟩)
      obtain ⟨row, found⟩ := Option.isSome_iff_exists.mp still
      have now := found
      rw [kept, key, mergeSeen, if_pos same] at now
      rcases mem_foldl_insert now with ⟨mem, place⟩ | ⟨unchanged, -⟩
      · exact absurd (shows_iff.mp ⟨row, mem, place⟩) hidden
      · rw [current index row found, before index row unchanged]
    · exact .inl same
  · intro steady index row found
    rw [kept, key, mergeSeen] at found
    rcases mem_foldl_insert found with ⟨mem, rfl⟩ | ⟨unchanged, apart⟩
    · exact rowAt_of_mem mem
    · have hidden : ¬ showing.Visible index := fun visible =>
        (shows_iff.mpr visible).elim fun other shown => apart other shown.1 shown.2
      rcases steady with changed | same
      · rw [if_neg changed, Table.getElem?_empty] at unchanged
        cases unchanged
      · split at unchanged
        · have seen := (isSome_kept_iff (prev :: earlier) index).mp (by rw [unchanged]; rfl)
          rw [agreeAt_iff.mp (same index seen hidden)]
          exact before index row unchanged
        · rw [Table.getElem?_empty] at unchanged
          cases unchanged

/-- Along a run the kept rows are always those of the current state exactly when at every step
the file becomes another one or what is kept outside the viewport stays as it is. -/
theorem alwaysCurrent_iff (run : List Showing) : AlwaysCurrent run ↔ Steady run := by
  match run with
  | [] => exact Iff.rfl
  | [showing] => exact iff_of_true ⟨current_single showing, trivial⟩ trivial
  | showing :: prev :: earlier =>
    have ih := alwaysCurrent_iff (prev :: earlier)
    rw [AlwaysCurrent, Steady, ih]
    refine and_congr_left fun steady => ?_
    exact current_cons_iff (ih.mpr steady).1

/-! ## A draft left behind -/

namespace LeftBehind

/-- A new file of two lines. -/
def render : RenderKey := ⟨⟨2⟩, HiddenEnd.path, .diff (.added ⟨⟨8⟩, .regular⟩), {}⟩

def line (number : LineNo) : Row := .added ⟨number, "a", .lf, [], []⟩

def rows : List Row := [line .FIRST, line (.ofNat 2)]

def header : FileRenderHeader :=
  ⟨render.repoId, render.path, render.target, render.opts, .text 2 500 1 false 2 0 GapTable.empty⟩

def cache : ContentCache where
  budget := 100
  used := 2
  entries := [(.header render, ⟨.header header, 1, 0⟩), (.chunk render 0, ⟨.chunk ⟨0, rows⟩, 1, 1⟩)]
  order := []
  nextTick := 2
  pinned := []

theorem caches : Caches cache render rows := by
  intro found totalRows chunkRows chunkCount highlighted additions deletions gaps held content index
    chunk there
  have same : some header = some found := held
  cases same
  cases content
  by_cases first : index = 0
  · subst first
    cases there
    rfl
  · have apart : (CacheKey.chunk render index == CacheKey.header render) = false :=
      beq_eq_false_iff_ne.mpr CacheKey.noConfusion
    have apart' : (CacheKey.chunk render index == CacheKey.chunk render 0) = false :=
      beq_eq_false_iff_ne.mpr fun same => first (CacheKey.chunk.inj same).2
    simp [ContentCache.chunk, ContentCache.peek, cache, List.lookup_cons, apart, apart'] at there

/-- A comment on line 1 is being written. -/
def draft : Draft where
  submissionError := none
  anchor := .lines render.repoId render.path .head ⟨8⟩ (.single .FIRST) ⟨0⟩
  purpose := .comment .finding none

def viewOf (row : Nat) (draft : Option Draft) : DiffView where
  target := render.target
  file := ⟨render.repoId, render.path⟩
  content := header.content
  viewed := .unviewed
  firstRow := row
  lastRow := row
  rows := ((overlay HiddenEnd.snapshot render draft rows).drop row).take 1
  missing := []
  fileThreads := []
  collapsed := false
  original := false

/-- The core shows one row, with or without the draft. -/
def showing (row : Nat) (draft : Option Draft) (derived : diffView cache HiddenEnd.snapshot
    (.human "alice" "laptop") render row row draft = some (viewOf row draft)) : Showing where
  cache
  snapshot := HiddenEnd.snapshot
  viewer := .human "alice" "laptop"
  render
  firstRow := row
  lastRow := row
  draft
  rows
  caches
  view := viewOf row draft
  derived

/-- The viewport moves to line 2 and the draft is discarded: line 1 keeps its composer. -/
def run : List Showing := [showing 1 none rfl, showing 0 (some draft) rfl]

/-- Line 1 keeps a composer without a draft. -/
theorem composer_kept : ¬ AlwaysCurrent run := by
  intro current
  rcases (current_cons_iff (current_single _)).mp current.1 with changed | same
  · exact changed rfl
  · have seen : SeenSince [showing 0 (some draft) rfl] 0 :=
      ⟨header, 2, 500, 1, false, 2, 0, GapTable.empty, rfl, rfl, by decide, by decide, by decide,
        by decide, by decide, by decide, rfl⟩
    have hidden : ¬ (showing 1 none rfl).Visible 0 := by
      rintro ⟨header', t, c, n, h, a, d, g, held, content, -, -, above, -⟩
      cases Option.some.inj held
      cases content
      exact absurd above (by decide)
    exact absurd (agreeAt_iff.mp (same 0 seen hidden)) (by decide)

end LeftBehind

end Nits.Ui
