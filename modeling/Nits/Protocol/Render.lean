import Mathlib.Data.List.Sort
import Nits.Protocol.Domain

/-!
# Diff render model

What the daemon renders of a change and the trees it lists. A render is a pure
function of its target and its options, sent as a header and numbered chunks.
-/

namespace Nits.Protocol

/-- Which diff of a review is on screen. -/
inductive DiffScope
  /-- `base → head` as the review resolves them. -/
  | all
  /-- Like `all`, but a working-tree head stops at its checked-out commit. -/
  | committed
  /-- One commit against its first parent, in one repo. -/
  | commit (repoId : RepoId) (oid : CommitOid)
  /-- The working tree against the checked-out commit, in one repo. -/
  | worktree (repoId : RepoId)
  | requested (requestId : ReviewRequestId)
  | sinceCheckpoint (checkpointId : ReviewCheckpointId)
  deriving DecidableEq

/-- One hidden run of a render, numbered in the render's order. -/
abbrev Gap := Nat

/-- How far a gap has been opened from either end. -/
structure GapExpansion where
  gap : Gap
  up : Nat
  down : Nat
  deriving DecidableEq

/-- Which way an expander reveals lines. -/
inductive ExpandDir
  | up | down | both
  deriving DecidableEq

/-- The gaps that a reader has opened, in order of the gaps. -/
structure Expansions where
  items : List GapExpansion
  deriving DecidableEq

namespace Expansions

/-- The largest 32-bit count; additions stop there. -/
def countMax : Nat := 2 ^ 32 - 1

def saturatingAdd (count step : Nat) : Nat := min (count + step) countMax

/-- What `gap` has been opened to, zero when untouched. -/
def of (expansions : Expansions) (gap : Gap) : Nat × Nat :=
  match expansions.items.find? fun expansion => expansion.gap = gap with
  | none => (0, 0)
  | some expansion => (expansion.up, expansion.down)

/-- The expansions with `gap` opened a step further. -/
def opened (expansions : Expansions) (gap : Gap) (dir : ExpandDir) (step : Nat) : Expansions :=
  let (up, down) := expansions.of gap
  let (up, down) := match dir with
    | .up => (saturatingAdd up step, down)
    | .down => (up, saturatingAdd down step)
    | .both => (saturatingAdd up step, saturatingAdd down step)
  let items := (expansions.items.filter fun expansion => expansion.gap ≠ gap) ++
    [{ gap, up, down : GapExpansion }]
  { items := items.insertionSort fun left right => left.gap ≤ right.gap }

/-- A key's first entry stays the first when entries are sorted by key. -/
theorem find?_insertionSort (gap : Gap) (items : List GapExpansion) :
    (items.insertionSort fun left right => left.gap ≤ right.gap).find? (fun expansion => expansion.gap = gap) =
      items.find? fun expansion => expansion.gap = gap := by
  have inserted (item : GapExpansion) (sorted : List GapExpansion) :
      (sorted.orderedInsert (fun left right => left.gap ≤ right.gap) item).find?
        (fun expansion => expansion.gap = gap) =
      (item :: sorted).find? fun expansion => expansion.gap = gap := by
    induction sorted with
    | nil => rfl
    | cons head tail ih =>
      rw [List.orderedInsert_cons]
      split
      · rfl
      · rename_i above
        rw [List.find?_cons, ih, List.find?_cons, List.find?_cons, List.find?_cons]
        by_cases mine : item.gap = gap
        · have other : head.gap ≠ gap := fun same => above (by rw [mine, same])
          simp [mine, other]
        · simp [mine]
  induction items with
  | nil => rfl
  | cons head tail ih =>
    rw [List.insertionSort_cons, inserted, List.find?_cons, ih, List.find?_cons]

/-- What a step in a direction makes of the lines shown. -/
def further (dir : ExpandDir) (step : Nat) (shown : Nat × Nat) : Nat × Nat :=
  match dir with
  | .up => (saturatingAdd shown.1 step, shown.2)
  | .down => (shown.1, saturatingAdd shown.2 step)
  | .both => (saturatingAdd shown.1 step, saturatingAdd shown.2 step)

theorem of_opened (expansions : Expansions) (gap : Gap) (dir : ExpandDir) (step : Nat) (gap' : Gap) :
    (expansions.opened gap dir step).of gap' =
      if gap' = gap then further dir step (expansions.of gap) else expansions.of gap' := by
  rcases before : expansions.of gap with ⟨up, down⟩
  rcases after : further dir step (up, down) with ⟨up', down'⟩
  have items : (expansions.opened gap dir step).items =
      ((expansions.items.filter fun expansion : GapExpansion => expansion.gap ≠ gap) ++
        [(⟨gap, up', down'⟩ : GapExpansion)]).insertionSort fun left right => left.gap ≤ right.gap := by
    cases dir <;> cases after <;> simp only [opened, before]
  have others : (expansions.items.filter fun expansion : GapExpansion => expansion.gap ≠ gap).find?
      (fun expansion => expansion.gap = gap') =
        if gap' = gap then none else expansions.items.find? fun expansion => expansion.gap = gap' := by
    rw [List.find?_filter]
    split
    · rename_i same
      rw [List.find?_eq_none]
      intro expansion _
      simp [same]
    · rename_i other
      refine congrArg (expansions.items.find? ·) (funext fun expansion => ?_)
      by_cases mine : expansion.gap = gap'
      · simp [mine, other]
      · simp [mine]
  rw [of, items, find?_insertionSort, List.find?_append, others, of]
  by_cases same : gap' = gap
  · simp [same]
  · have other : ¬ gap = gap' := fun equal => same equal.symm
    simp [same, other]

/-- A gap to open, which way and by how many lines. -/
abbrev Opening := Gap × ExpandDir × Nat

def openedAll (expansions : Expansions) (openings : List Opening) : Expansions :=
  openings.foldl (fun expansions opening => expansions.opened opening.1 opening.2.1 opening.2.2)
    expansions

theorem further_comm (dir dir' : ExpandDir) (step step' : Nat) (shown : Nat × Nat) :
    further dir step (further dir' step' shown) = further dir' step' (further dir step shown) := by
  have comm (count : Nat) : saturatingAdd (saturatingAdd count step') step =
      saturatingAdd (saturatingAdd count step) step' := by
    unfold saturatingAdd
    omega
  cases dir <;> cases dir' <;> simp only [further, comm]

/-- The order of openings is of no consequence. -/
theorem of_openedAll_perm {openings openings' : List Opening} (same : openings.Perm openings')
    (expansions : Expansions) (gap : Gap) :
    (expansions.openedAll openings).of gap = (expansions.openedAll openings').of gap := by
  let step (shown : Gap → Nat × Nat) (opening : Opening) (gap : Gap) : Nat × Nat :=
    if gap = opening.1 then further opening.2.1 opening.2.2 (shown opening.1) else shown gap
  have steps (openings : List Opening) (expansions : Expansions) :
      (expansions.openedAll openings).of = openings.foldl step expansions.of := by
    induction openings generalizing expansions with
    | nil => rfl
    | cons opening openings ih =>
      have first : (expansions.opened opening.1 opening.2.1 opening.2.2).of =
          step expansions.of opening :=
        funext fun gap => of_opened expansions opening.1 opening.2.1 opening.2.2 gap
      have later := ih (expansions.opened opening.1 opening.2.1 opening.2.2)
      rw [first] at later
      exact later
  have comm (opening opening' : Opening) (shown : Gap → Nat × Nat) :
      step (step shown opening) opening' = step (step shown opening') opening := by
    funext gap
    by_cases one : opening.1 = opening'.1
    · by_cases here : gap = opening'.1
      · simp [step, one, here, further_comm opening.2.1]
      · simp [step, one, here]
    · by_cases here : gap = opening.1
      · simp [step, here, one]
      · have other : ¬ opening'.1 = opening.1 := fun equal => one equal.symm
        simp [step, here, other]
  rw [steps, steps]
  exact congrFun (same.foldl_eq' (fun opening _ opening' _ shown => comm opening opening' shown) _) gap

end Expansions

/-- How a file is to be rendered. -/
structure RenderOpts where
  ignoreWhitespace : Bool := false
  contextLines : Nat := 3
  expanded : Expansions := ⟨[]⟩
  deriving DecidableEq

/-- What is rendered: a change, or one blob on its own. -/
inductive RenderTarget
  | diff (change : ChangeKind)
  | blob (entry : BlobEntry)
  deriving DecidableEq

abbrev ChunkIndex := Nat

namespace ChunkIndex

def FIRST : ChunkIndex := 0

end ChunkIndex

/-- One gap's expander: which gap, and the row it is on. -/
structure GapRow where
  gap : Gap
  row : Nat
  deriving DecidableEq

/-- Input that is not a canonical gap table. -/
inductive GapTableError
  | unordered
  | unorderedGaps
  | duplicate (gap : Gap)

namespace GapTable

/-- What is wrong with the first two neighbours that do not ascend strictly. -/
def fault : List GapRow → Option GapTableError
  | [] => none
  | [_] => none
  | left :: right :: rest =>
    if left.gap = right.gap then some (.duplicate left.gap)
    else if right.gap < left.gap then some .unorderedGaps
    else if right.row ≤ left.row then some .unordered
    else fault (right :: rest)

end GapTable

/-- A render's gaps in row order, one entry per gap. -/
structure GapTable where
  rows : List GapRow
  canonical : GapTable.fault rows = none
  deriving DecidableEq

namespace GapTable

def empty : GapTable := ⟨[], rfl⟩

def tryFrom (rows : List GapRow) : Except GapTableError GapTable :=
  match canonical : fault rows with
  | none => .ok ⟨rows, canonical⟩
  | some error => .error error

end GapTable

/-- Row-level shape of a rendered file, known before any chunk. -/
inductive RenderContent
  | text (totalRows chunkRows chunkCount : Nat) (highlighted : Bool) (additions deletions : Nat)
      (gaps : GapTable)
  | binary
  | submodule
  deriving DecidableEq

/-- What is said of a rendered file before its rows. -/
structure FileRenderHeader where
  repoId : RepoId
  path : RepoPath
  target : RenderTarget
  opts : RenderOpts
  content : RenderContent
  deriving DecidableEq

/-- Syntax-highlight class for a span. -/
inductive SpanClass
  | keyword | string | number | comment | type | function | variable | constant | operator
  | punctuation | attribute | tag | other
  deriving DecidableEq

/-- A half-open byte-column range within a line. -/
structure ColRange where
  start : Nat
  finish : Nat
  ordered : start ≤ finish
  deriving DecidableEq

/-- A highlighted byte range within a cell's text. -/
structure Span where
  range : ColRange
  class_ : SpanClass
  deriving DecidableEq

/-- Source bytes terminating a line. Git blobs retain these bytes unchanged. -/
inductive LineEnding
  | lf | crLf | missing
  deriving DecidableEq

/-- One side of a row. -/
structure Cell where
  lineNo : LineNo
  /-- Original line text without the trailing newline. -/
  text : String
  ending : LineEnding
  spans : List Span
  /-- Intra-line changed ranges (only non-empty on modified rows). -/
  changed : List ColRange
  deriving DecidableEq

/-- A row of a rendered file. -/
inductive Row
  | hunkHeader (text : String)
  | context (left right : Cell)
  | removed (left : Cell)
  | added (right : Cell)
  | modified (left right : Cell)
  | expander (hidden : Nat) (dir : ExpandDir) (gap : Gap)
  | whitespaceOnly
  deriving DecidableEq

/-- Some rows of a rendered file. -/
structure RenderChunk where
  index : ChunkIndex
  rows : List Row
  deriving DecidableEq

/-- A tree with its entries. -/
structure TreeSnapshot where
  repoId : RepoId
  rootOid : TreeOid
  entries : List TreeEntry
  deriving DecidableEq

/-- How one repository's working tree moved from one listing to the next. -/
structure TreeDelta where
  repoId : RepoId
  fromRoot : TreeOid
  toRoot : TreeOid
  added : List TreeEntry
  removed : List RepoPath
  changed : List TreeEntry

end Nits.Protocol
