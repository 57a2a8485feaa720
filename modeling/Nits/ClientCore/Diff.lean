import Nits.ClientCore.Explorer

/-!
# Diff view

The rows of the open file that are cached and inside the viewport, each with the threads
and the draft whose range it is in. Ranges are placed row by row, from line numbers alone.
-/

namespace Nits.ClientCore

open Logical Protocol

/-! ## Placement -/

/-- What a row is to an anchored range: the last line, under which the thread's card (or
the composer) renders, or a line inside the range. -/
inductive RowPlace
  | anchor | inside
  deriving DecidableEq

/-- A thread placed on a row. -/
structure RowThread where
  thread : ThreadId
  side : Side
  place : RowPlace
  deriving DecidableEq

/-- A row of a file with the threads placed on it. -/
structure DiffRow where
  index : Nat
  row : Row
  threads : List RowThread
  /-- The open draft's range covers this row. -/
  drafted : Option (RowPlace × Side)
  deriving DecidableEq

/-- Where in a file a thread belongs. -/
inductive PlacementKind
  | file
  | lines (side : Side) (start finish : Nat)
  deriving DecidableEq

/-- A thread anchored somewhere in a file, resolved to the render target. -/
structure Placement where
  thread : ThreadId
  kind : PlacementKind

/-- Blob shown on `side` of a render target. -/
def blobOn (target : RenderTarget) (side : Side) : Option BlobOid :=
  match target with
  | .diff change =>
    match side with
    | .base => change.oldBlob
    | .head => change.newBlob
  | .blob entry => some entry.oid

/-- Line number of `row` on `side`, if it has one. -/
def lineOn (row : Row) (side : Side) : Option Nat :=
  match row, side with
  | .context left _, .base | .modified left _, .base | .removed left, .base => some left.lineNo.get
  | .context _ right, .head | .modified _ right, .head | .added right, .head =>
    some right.lineNo.get
  | .removed _, .head | .added _, .base => none
  | .hunkHeader _, _ | .expander .., _ | .whitespaceOnly, _ => none

/-- The anchor a comment is shown at, and whether it is the stale one. -/
def placedAnchor (comment : Comment) : Option (Anchor × Bool) :=
  match comment.state with
  | .live => some (comment.anchor, false)
  | .outdated lastGoodAnchor => some (lastGoodAnchor, true)
  | .deleted => none

/-- The open draft's line range, when it is a line anchor on this render. -/
def draftRange (draft : Option Draft) (render : RenderKey) : Option (Side × Nat × Nat) :=
  match draft.map Draft.anchor with
  | some (.lines repoId path side blobOid lines _) =>
    if repoId ≠ render.repoId ∨ path ≠ render.path ∨ blobOn render.target side ≠ some blobOid then
      none
    else some (side, lines.start.get, lines.finish.get)
  | some .review | some (.file ..) | none => none

/-- Where a row sits in `start..=finish` on `side`, if at all. -/
def placeIn (row : Row) (side : Side) (start finish : Nat) : Option RowPlace := do
  let line ← lineOn row side
  if line = finish then some .anchor
  else if start ≤ line ∧ line < finish then some .inside
  else none

/-- How an anchor sits on a render, if it is on it. -/
def placementKind (render : RenderKey) : Anchor → Option PlacementKind
  | .review => none
  | .file repoId path blobOid =>
    if repoId ≠ render.repoId ∨ path ≠ render.path then none
    else if blobOn render.target .head ≠ some blobOid ∧ blobOn render.target .base ≠ some blobOid then
      none
    else some .file
  | .lines repoId path side blobOid lines _ =>
    if repoId ≠ render.repoId ∨ path ≠ render.path ∨ blobOn render.target side ≠ some blobOid then
      none
    else some (.lines side lines.start.get lines.finish.get)

/-- The anchor that a thread's root is shown at. -/
def threadAnchor (snapshot : ReviewSnapshot) (thread : Thread) : Option Anchor := do
  let root ← snapshot.comments.find? fun comment => comment.id = thread.root
  let (anchor, _) ← placedAnchor root
  pure anchor

/-- Where the threads of a file are placed. -/
def placements (snapshot : ReviewSnapshot) (render : RenderKey) : List Placement :=
  snapshot.threads.filterMap fun thread => do
    let kind ← placementKind render (← threadAnchor snapshot thread)
    pure ⟨thread.id, kind⟩

/-- The threads on a row. The card hangs under the range's last line; every line of the
range is marked. -/
def rowThreads (placements : List Placement) (row : Row) : List RowThread :=
  placements.filterMap fun placement =>
    match placement.kind with
    | .file => none
    | .lines side start finish => (placeIn row side start finish).map (⟨placement.thread, side, ·⟩)

def rowDraft (draft : Option (Side × Nat × Nat)) (row : Row) : Option (RowPlace × Side) := do
  let (side, start, finish) ← draft
  let place ← placeIn row side start finish
  pure (place, side)

/-- A row with what is placed on it. -/
def placeRow (placements : List Placement) (draft : Option (Side × Nat × Nat)) (index : Nat)
    (row : Row) : DiffRow :=
  ⟨index, row, rowThreads placements row, rowDraft draft row⟩

/-- The rows from number `index` on that are inside the window. -/
def placeRows (firstRow lastRow : Nat) (placements : List Placement)
    (draft : Option (Side × Nat × Nat)) : Nat → List Row → List DiffRow
  | _, [] => []
  | index, row :: rows =>
    let later := placeRows firstRow lastRow placements draft (index + 1) rows
    if index < firstRow ∨ lastRow < index then later
    else placeRow placements draft index row :: later

/-! ## Views -/

/-- The open file, over the viewport window. -/
structure DiffView where
  target : RenderTarget
  file : FileRef
  content : RenderContent
  viewed : ViewedState
  firstRow : Nat
  lastRow : Nat
  /-- Rows of the window that are cached, in order. -/
  rows : List DiffRow
  /-- Chunks of the window that are still on their way. -/
  missing : List ChunkIndex
  fileThreads : List ThreadId
  collapsed : Bool
  original : Bool

namespace ContentCache

def header (cache : ContentCache) (render : RenderKey) : Option FileRenderHeader :=
  match cache.peek (.header render) with
  | some (.header header) => some header
  | some (.tree _) | some (.chunk _) | none => none

def chunk (cache : ContentCache) (render : RenderKey) (index : ChunkIndex) : Option RenderChunk :=
  match cache.peek (.chunk render index) with
  | some (.chunk chunk) => some chunk
  | some (.tree _) | some (.header _) | none => none

end ContentCache

/-- Every cached row of `render` with its threads. -/
def allRows (cache : ContentCache) (snapshot : ReviewSnapshot) (render : RenderKey) : List DiffRow :=
  match cache.header render with
  | none => []
  | some header =>
    match header.content with
    | .binary | .submodule => []
    | .text _ chunkRows chunkCount .. =>
      (List.range chunkCount).flatMap fun index =>
        match cache.chunk render index with
        | none => []
        | some chunk => placeRows 0 (2 ^ 32 - 1) (placements snapshot render) none
            (index * chunkRows) chunk.rows

/-- The diff view of `render` over rows `firstRow..=lastRow`. -/
def diffView (cache : ContentCache) (snapshot : ReviewSnapshot) (viewer : Author)
    (render : RenderKey) (firstRow lastRow : Nat) (draft : Option Draft) : Option DiffView := do
  let header ← cache.header render
  let file : FileRef := ⟨render.repoId, render.path⟩
  let state := viewedState snapshot viewer render.repoId render.path
    (match render.target with
      | .diff change => change.viewedContent
      | .blob entry => .blob entry)
  let draft := draftRange draft render
  let placements := placements snapshot render
  let fileThreads := (placements.filter fun placement => placement.kind = .file).map
    Placement.thread
  let bare : DiffView := ⟨header.target, file, header.content, state, firstRow, lastRow, [], [],
    fileThreads, false, false⟩
  match header.content with
  | .binary | .submodule => pure bare
  | .text totalRows chunkRows chunkCount .. =>
    if chunkRows = 0 ∨ chunkCount = 0 ∨ totalRows = 0 then pure bare
    else
      let lastRow := min lastRow (totalRows - 1)
      let firstRow := min firstRow lastRow
      let firstChunk := firstRow / chunkRows
      let lastChunk := min (lastRow / chunkRows) (chunkCount - 1)
      let indexes := List.range' firstChunk (lastChunk + 1 - firstChunk)
      pure { bare with
        firstRow
        lastRow
        rows := indexes.flatMap fun index =>
          match cache.chunk render index with
          | none => []
          | some chunk => placeRows firstRow lastRow placements draft (index * chunkRows) chunk.rows
        missing := indexes.filter fun index => (cache.chunk render index).isNone }

end Nits.ClientCore
