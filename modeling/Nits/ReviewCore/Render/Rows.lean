import Nits.Logical.EditScript
import Nits.ReviewCore.Render.Lines

/-!
# Rows of a diff

One linear pass over the hunks of a diff: unchanged runs collapse into expanders, every
visible block has one header. A subtraction below zero, an index past the end of a file
and an overflowing count stop the render.
-/

namespace Nits.ReviewCore

open Logical Protocol

/-! ## Checked arithmetic -/

def checkedSub (left right : Nat) : Option Nat :=
  if right ≤ left then some (left - right) else none

/-- 32-bit addition. -/
def checkedAdd (left right : Nat) : Option Nat :=
  if left + right < 2 ^ 32 then some (left + right) else none

/-- A count in 32 bits, the largest one beyond. -/
def toU32 (n : Nat) : Nat := if n < 2 ^ 32 then n else 2 ^ 32 - 1

/-! ## Cells -/

/-- One side of a render: its lines, and the spans of each line. -/
structure Source where
  lines : List Line
  spans : List (List Span)

def cell (index : Nat) (line : Line) (spans : List (List Span)) (changed : List ColRange) : Cell where
  lineNo := LineNo.fromIndex (UInt32.ofNat (if index < 2 ^ 32 then index else 2 ^ 32 - 2))
  text := line.text
  ending := line.ending
  spans := spans.getD index []
  changed := changed

/-- The cell of a line of one side. -/
def Source.cellAt (source : Source) (index : Nat) (changed : List ColRange) : Option Cell :=
  source.lines[index]?.map fun line => cell index line source.spans changed

def emitContext (old new : Source) (oi ni count : Nat) : Option (List Row) :=
  (List.range count).mapM fun k => do
    let left ← old.cellAt (oi + k) []
    let right ← new.cellAt (ni + k) []
    pure (.context left right)

/-- Git prints the 1-based start, or 0 when the range is empty. -/
def hunkHeader (oldStart oldLen newStart newLen : Nat) : String :=
  let s (start len : Nat) := if len = 0 then start else start + 1
  s!"@@ -{s oldStart oldLen},{oldLen} +{s newStart newLen},{newLen} @@"

/-! ## Groups and windows -/

/-- Hunks that are displayed together. -/
structure Group where
  first : Hunk
  rest : List Hunk

namespace Group

def hunks (group : Group) : List Hunk := group.first :: group.rest

def last (group : Group) : Hunk := group.rest.getLast?.getD group.first

end Group

/-- Group hunks separated by at most `2 * ctx` equal lines, with a group begun. -/
def groupFrom (ctx : Nat) (group : Group) : List Hunk → Option (List Group)
  | [] => some [group]
  | hunk :: hunks => do
    let gap ← checkedSub hunk.beforeStart group.last.beforeEnd
    if gap ≤ 2 * ctx then groupFrom ctx { group with rest := group.rest ++ [hunk] } hunks
    else do
      let groups ← groupFrom ctx ⟨hunk, []⟩ hunks
      pure (group :: groups)

/-- A group's visible window, in old and new line coordinates. -/
structure Window where
  startO : Nat
  endO : Nat
  startN : Nat
  endN : Nat

/-- Where the change after a group begins, or where the file ends. -/
def nextChange (oldLen : Nat) : List Group → Nat
  | [] => oldLen
  | next :: _ => next.first.beforeStart

/-- The windows of the groups from number `index` on: `ctx` lines around the changes, and
however far the group's own gaps have been opened. A trailing expansion stops at the next
group's first change; past that the lines belong to the next window. -/
def windowsFrom (ctx oldLen : Nat) (expanded : Expansions) :
    Nat → Nat → Nat → List Group → Option (List (Group × Window))
  | _, _, _, [] => some []
  | index, oi, ni, group :: groups => do
    let (up, _) := expanded.of (toU32 index)
    let (_, down) := expanded.of (toU32 (index + 1))
    let startO := max (group.first.beforeStart - (ctx + up)) oi
    let startN := ni + (← checkedSub startO oi)
    let endO := min (min (group.last.beforeEnd + (ctx + down)) oldLen) (nextChange oldLen groups)
    let endN := group.last.afterEnd + (← checkedSub endO group.last.beforeEnd)
    let later ← windowsFrom ctx oldLen expanded (index + 1) endO endN groups
    pure ((group, ⟨startO, endO, startN, endN⟩) :: later)

/-- Groups whose windows meet: one block under one header. -/
structure Block where
  /-- The number of the first group. -/
  start : Nat
  head : Group × Window
  rest : List (Group × Window)

namespace Block

def groups (block : Block) : List Group := (block.head :: block.rest).map Prod.fst

def hunks (block : Block) : List Hunk := block.groups.flatMap Group.hunks

/-- The window of the last group. -/
def tail (block : Block) : Window := (block.rest.getLast?.getD block.head).2

end Block

/-- Groups whose windows meet, because the gap between them was opened all the way, are
one block, as git prints overlapping hunks. -/
def blocksFrom (block : Block) : Nat → List (Group × Window) → List Block
  | _, [] => [block]
  | index, (group, window) :: later =>
    if window.startO ≤ block.tail.endO then
      blocksFrom { block with rest := block.rest ++ [(group, window)] } (index + 1) later
    else block :: blocksFrom ⟨index, (group, window), []⟩ (index + 1) later

/-! ## Emission -/

/-- The intra-line ranges of a pair of lines, left and right. -/
abbrev ChangedRanges := String → String → List ColRange × List ColRange

/-- Rows with the numbers of added and deleted lines. -/
structure Built where
  rows : List Row
  additions : Nat
  deletions : Nat

section Emission

variable (changedRanges : ChangedRanges) (old new : Source)

/-- Lines paired by their position in a hunk. -/
def modifiedRow (o n : Nat) : Option Row := do
  let left ← old.lines[o]?
  let right ← new.lines[n]?
  let (lc, rc) := changedRanges left.text right.text
  pure (.modified (cell o left old.spans lc) (cell n right new.spans rc))

/-- The rows of one hunk: pairs first, then what is left of the longer side. -/
def hunkRows (hunk : Hunk) : Option (List Row) := do
  let removed := hunk.beforeEnd - hunk.beforeStart
  let added := hunk.afterEnd - hunk.afterStart
  let paired := min removed added
  let pairs ← (List.range paired).mapM fun k =>
    modifiedRow changedRanges old new (hunk.beforeStart + k) (hunk.afterStart + k)
  let removals ← (List.range (removed - paired)).mapM fun k =>
    (old.cellAt (hunk.beforeStart + paired + k) []).map Row.removed
  let insertions ← (List.range (added - paired)).mapM fun k =>
    (new.cellAt (hunk.afterStart + paired + k) []).map Row.added
  pure (pairs ++ removals ++ insertions)

/-- The rows of the hunks of a block from the cursor on, up to the end of its window. -/
def bodyFrom (tail : Window) : Nat → Nat → List Hunk → Option Built
  | co, cn, [] => do
    let rows ← emitContext old new co cn (← checkedSub tail.endO co)
    pure ⟨rows, 0, 0⟩
  | co, cn, hunk :: hunks => do
    let equal ← emitContext old new co cn (← checkedSub hunk.beforeStart co)
    let changed ← hunkRows changedRanges old new hunk
    let later ← bodyFrom tail hunk.beforeEnd hunk.afterEnd hunks
    pure {
      rows := equal ++ changed ++ later.rows
      additions := ← checkedAdd (toU32 (hunk.afterEnd - hunk.afterStart)) later.additions
      deletions := ← checkedAdd (toU32 (hunk.beforeEnd - hunk.beforeStart)) later.deletions }

/-- The expander of a hidden run, if the run has lines. -/
def expander (hidden : Nat) (dir : ExpandDir) (gap : Nat) : List Row :=
  if hidden > 0 then [.expander (toU32 hidden) dir (toU32 gap)] else []

/-- The blocks from the old cursor on, then what is hidden after the last one; `groups`
numbers that run. -/
def blockRowsFrom (groups : Nat) : Nat → List Block → Option Built
  | oi, [] => do
    let hidden ← checkedSub old.lines.length oi
    pure ⟨expander hidden .down groups, 0, 0⟩
  | oi, block :: blocks => do
    let head := block.head.2
    let hidden ← checkedSub head.startO oi
    let header := Row.hunkHeader (hunkHeader
      head.startO (← checkedSub block.tail.endO head.startO)
      head.startN (← checkedSub block.tail.endN head.startN))
    let body ← bodyFrom changedRanges old new block.tail head.startO head.startN block.hunks
    let later ← blockRowsFrom groups block.tail.endO blocks
    pure {
      rows := expander hidden (if block.start = 0 then .up else .both) block.start ++
        header :: body.rows ++ later.rows
      additions := ← checkedAdd body.additions later.additions
      deletions := ← checkedAdd body.deletions later.deletions }

/-- Without hunks there is one gap, the whole file; opening it reveals lines from either
end, since there is no hunk to expand away from. -/
def unchangedRows (expanded : Expansions) : Option (List Row) := do
  if old.lines = [] then pure []
  else
    let (up, down) := expanded.of 0
    let shown := min (up + down) old.lines.length
    let head := min down shown
    let tail := shown - head
    let before ← emitContext old new 0 0 head
    let hidden ← checkedSub old.lines.length shown
    let from_ ← checkedSub old.lines.length tail
    let after ← emitContext old new from_ from_ tail
    pure (before ++ expander hidden .both 0 ++ after)

/-- The rows of a diff with context collapsing, and the numbers of added and deleted
lines. Hunks whose separating equal run is at most `2 * context` are merged into one
display group with a single header, exactly as `git diff` does. -/
def buildRows (hunks : List Hunk) (context : Nat) (expanded : Expansions) : Option Built :=
  match hunks with
  | [] => do
    let rows ← unchangedRows old new expanded
    pure ⟨rows, 0, 0⟩
  | first :: rest => do
    let groups ← groupFrom context ⟨first, []⟩ rest
    let placed ← windowsFrom context old.lines.length expanded 0 0 0 groups
    match placed with
    | [] => none
    | head :: later =>
      blockRowsFrom changedRanges old new groups.length 0 (blocksFrom ⟨0, head, []⟩ 1 later)

end Emission

end Nits.ReviewCore
