import Nits.ReviewCore.Render.Accounting
import Nits.ReviewCore.Render.Decoding

/-!
# Diff of a file

Two blobs become the flat list of rows that a client shows. The diff compares one key a
line; lines with one key are shown as unchanged, whatever bytes they were read from.
-/

namespace Nits.ReviewCore

open Logical Protocol

/-! ## Parts of a render -/

/-- Git's own heuristic: a NUL in the first 8000 bytes means binary. -/
def isBinary (bytes : List UInt8) : Bool := (bytes.take 8000).any fun byte => byte = 0

/-- Rows per chunk. -/
def CHUNK_ROWS : Nat := 500

/-- Above this many bytes on either side, highlighting is skipped. -/
def HIGHLIGHT_BYTE_CAP : Nat := 2 ^ 20

/-- Above this many lines on either side, highlighting is skipped. -/
def HIGHLIGHT_LINE_CAP : Nat := 20000

/-- A render: the header's description of its content, and every row. -/
structure Rendered where
  content : RenderContent
  rows : List Row

def chunkCount (rows : Nat) : Nat := toU32 (max ((rows + (CHUNK_ROWS - 1)) / CHUNK_ROWS) 1)

/-- Where each still-hidden run's expander sits. -/
def gapRows : Nat → List Row → List GapRow
  | _, [] => []
  | index, .expander _ _ gap :: rows => ⟨gap, toU32 index⟩ :: gapRows (index + 1) rows
  | index, _ :: rows => gapRows (index + 1) rows

def gapsOf (rows : List Row) : GapTable :=
  match GapTable.tryFrom (gapRows 0 rows) with
  | .ok table => table
  | .error _ => GapTable.empty

/-- What the diff compares of a line. -/
structure LineKey where
  text : String
  ending : LineEnding
  deriving DecidableEq

def key (ignoreWhitespace : Bool) (line : Line) : LineKey :=
  if ignoreWhitespace then ⟨line.normalised, .missing⟩ else ⟨line.text, line.ending⟩

/-- A script between two lists of line keys, as `imara_diff` computes it. -/
abbrev LineDiff := List LineKey → List LineKey → List Hunk

/-- What the render asks of the diff: a script in order within both files, whose regions
are changes, and none where nothing changed. -/
structure LineDiff.Sound (diff : LineDiff) : Prop where
  script : ∀ before after, EditScript before after 0 0 (diff before after)
  inside : ∀ before after, ∀ hunk ∈ diff before after,
    hunk.beforeEnd ≤ before.length ∧ hunk.afterEnd ≤ after.length
  changes : ∀ before after, ∀ hunk ∈ diff before after,
    hunk.beforeStart < hunk.beforeEnd ∨ hunk.afterStart < hunk.afterEnd
  unchanged : ∀ keys, diff keys keys = []

/-- The spans of each line of a file in a language. -/
abbrev Highlighter := String → List String → List (List Span)

section Render

variable (diff : LineDiff) (highlighter : Highlighter) (changedRanges : ChangedRanges)

def diffHunks (old new : List Line) (ignoreWhitespace : Bool) : List Hunk :=
  diff (old.map (key ignoreWhitespace)) (new.map (key ignoreWhitespace))

def shouldHighlight (old new : Option (List UInt8)) (oldLines newLines : List Line)
    (lang : Option String) : Bool :=
  lang.isSome && old.all (fun bytes => bytes.length ≤ HIGHLIGHT_BYTE_CAP) &&
    new.all (fun bytes => bytes.length ≤ HIGHLIGHT_BYTE_CAP) &&
    oldLines.length ≤ HIGHLIGHT_LINE_CAP && newLines.length ≤ HIGHLIGHT_LINE_CAP

def spansFor (enabled : Bool) (lang : Option String) (lines : List Line) : List (List Span) :=
  match enabled, lang with
  | true, some lang => highlighter lang (lines.map Line.text)
  | _, _ => List.replicate lines.length []

/-- Render the diff of `old` and `new`. `none` on a side means the file does not exist
there; `none` for the language renders without spans. -/
def renderFile (old new : Option (List UInt8)) (lang : Option String) (opts : RenderOpts) :
    Option Rendered :=
  if old.any isBinary || new.any isBinary then some ⟨.binary, []⟩
  else
    let oldLines := splitLines (old.getD [])
    let newLines := splitLines (new.getD [])
    let hunks := diffHunks diff oldLines newLines opts.ignoreWhitespace
    if hunks = [] ∧ opts.ignoreWhitespace ∧ old ≠ new then
      some ⟨.text 1 CHUNK_ROWS 1 false 0 0 GapTable.empty, [.whitespaceOnly]⟩
    else do
      let highlighted := shouldHighlight old new oldLines newLines lang
      let built ← buildRows changedRanges ⟨oldLines, spansFor highlighter highlighted lang oldLines⟩
        ⟨newLines, spansFor highlighter highlighted lang newLines⟩ hunks opts.contextLines
        opts.expanded
      pure ⟨.text (toU32 built.rows.length) CHUNK_ROWS (chunkCount built.rows.length) highlighted
        built.additions built.deletions (gapsOf built.rows), built.rows⟩

/-- Render a single blob for the explorer: every line as a context row. -/
def renderBlob (bytes : List UInt8) (lang : Option String) : Rendered :=
  if isBinary bytes then ⟨.binary, []⟩
  else
    let lines := splitLines bytes
    let highlighted := shouldHighlight (some bytes) (some bytes) lines lines lang
    let spans := spansFor highlighter highlighted lang lines
    let rows := lines.mapIdx fun index line =>
      let cell := cell index line spans []
      Row.context cell cell
    ⟨.text (toU32 rows.length) CHUNK_ROWS (chunkCount rows.length) highlighted 0 0 GapTable.empty,
      rows⟩

end Render

/-! ## What is counted -/

theorem toU32_eq_zero_iff {n : Nat} : toU32 n = 0 ↔ n = 0 := by
  unfold toU32
  split
  · rfl
  · omega

theorem checkedAdd_eq_some {left right sum : Nat} (added : checkedAdd left right = some sum) :
    sum = left + right := by
  unfold checkedAdd at added
  split at added
  · exact (Option.some.inj added).symm
  · cases added

/-- No line of either side is inside the region. -/
def Empty (hunk : Hunk) : Prop :=
  hunk.beforeEnd - hunk.beforeStart = 0 ∧ hunk.afterEnd - hunk.afterStart = 0

section Counts

variable {changedRanges : ChangedRanges} {old new : Source} {built : Built}

/-- A body that counts nothing has no changed line. -/
theorem empty_of_bodyFrom {tail : Window} {co cn : Nat} {hunks : List Hunk}
    (emitted : bodyFrom changedRanges old new tail co cn hunks = some built)
    (additions : built.additions = 0) (deletions : built.deletions = 0) :
    ∀ hunk ∈ hunks, Empty hunk := by
  induction hunks generalizing co cn built with
  | nil => simp
  | cons hunk hunks ih =>
    simp only [bodyFrom, Option.bind_eq_bind, Option.bind_eq_some_iff, Option.pure_def,
      Option.some.injEq] at emitted
    obtain ⟨_, -, equal, -, changed, -, later, emitted, added, counted, deleted, counted', rfl⟩ :=
      emitted
    have sum := checkedAdd_eq_some counted
    have sum' := checkedAdd_eq_some counted'
    dsimp only at additions deletions
    have here : Empty hunk :=
      ⟨toU32_eq_zero_iff.mp (by omega), toU32_eq_zero_iff.mp (by omega)⟩
    intro other mem
    rcases List.mem_cons.mp mem with rfl | mem
    · exact here
    · exact ih emitted (by omega) (by omega) other mem

/-- Blocks that count nothing have no changed line. -/
theorem empty_of_blockRowsFrom {groups oi : Nat} {blocks : List Block}
    (emitted : blockRowsFrom changedRanges old new groups oi blocks = some built)
    (additions : built.additions = 0) (deletions : built.deletions = 0) :
    ∀ hunk ∈ blocks.flatMap Block.hunks, Empty hunk := by
  induction blocks generalizing oi built with
  | nil => simp
  | cons block blocks ih =>
    simp only [blockRowsFrom, Option.bind_eq_bind, Option.bind_eq_some_iff, Option.pure_def,
      Option.some.injEq] at emitted
    obtain ⟨_, -, _, -, _, -, body, inside, later, emitted, added, counted, deleted, counted', rfl⟩ :=
      emitted
    have sum := checkedAdd_eq_some counted
    have sum' := checkedAdd_eq_some counted'
    dsimp only at additions deletions
    intro hunk mem
    rw [List.flatMap_cons] at mem
    rcases List.mem_append.mp mem with mem | mem
    · exact empty_of_bodyFrom inside (by omega) (by omega) hunk mem
    · exact ih emitted (by omega) (by omega) hunk mem

/-- A block has a header. -/
theorem header_of_blockRowsFrom {groups oi : Nat} {block : Block} {blocks : List Block}
    (emitted : blockRowsFrom changedRanges old new groups oi (block :: blocks) = some built) :
    ∃ text, Row.hunkHeader text ∈ built.rows := by
  simp only [blockRowsFrom, Option.bind_eq_bind, Option.bind_eq_some_iff, Option.pure_def,
    Option.some.injEq] at emitted
  obtain ⟨_, -, _, -, _, -, body, -, later, -, added, -, deleted, -, rfl⟩ := emitted
  exact ⟨_, List.mem_append_left _ (List.mem_append_right _ List.mem_cons_self)⟩

/-- A render with hunks counts a changed line, and has a header. -/
theorem changes_of_buildRows {hunks : List Hunk} {context : Nat} {expanded : Expansions}
    (covers : Covers 0 0 hunks old.lines.length new.lines.length)
    (changes : ∀ hunk ∈ hunks, ¬ Empty hunk) (some_ : hunks ≠ [])
    (emitted : buildRows changedRanges old new hunks context expanded = some built) :
    ¬ (built.additions = 0 ∧ built.deletions = 0) ∧ ∃ text, Row.hunkHeader text ∈ built.rows := by
  cases hunks with
  | nil => exact absurd rfl some_
  | cons first rest =>
    obtain ⟨groups, grouped, nonempty, all⟩ := groupFrom_eq context ⟨first, []⟩ rest covers
    have covers : Covers 0 0 (groups.flatMap Group.hunks) old.lines.length new.lines.length := by
      rw [all]
      exact covers
    obtain ⟨placed, windows, same, -⟩ := windowsFrom_eq context expanded 0 covers
    have kept : placed.flatMap (fun placed => placed.1.hunks) = first :: rest := by
      have flat : placed.flatMap (fun placed => placed.1.hunks) =
          (placed.map Prod.fst).flatMap Group.hunks := by rw [List.flatMap_map]
      rw [flat, same, all]
      rfl
    simp only [buildRows, grouped, windows, Option.bind_eq_bind, Option.bind_some] at emitted
    cases placed with
    | nil => exact absurd same.symm nonempty
    | cons head later =>
      dsimp only at emitted
      refine ⟨fun none => ?_, ?_⟩
      · refine changes first List.mem_cons_self
          (empty_of_blockRowsFrom emitted none.1 none.2 first ?_)
        rw [List.flatMap_cons] at kept
        rw [hunks_blocksFrom, Block.hunks, Block.groups, List.map_singleton, List.flatMap_singleton,
          kept]
        exact List.mem_cons_self
      · have begins := head_blocksFrom ⟨0, head, []⟩ 1 later
        cases blocks : blocksFrom ⟨0, head, []⟩ 1 later with
        | nil =>
          rw [blocks] at begins
          cases begins
        | cons block blocks' =>
          rw [blocks] at emitted
          exact header_of_blockRowsFrom emitted

theorem exists_mapM {α β : Type} {step : α → Option β} {items : List α}
    (steps : ∀ item ∈ items, ∃ value, step item = some value) :
    ∃ values, items.mapM step = some values := by
  induction items with
  | nil => exact ⟨[], rfl⟩
  | cons head tail ih =>
    obtain ⟨value, made⟩ := steps head List.mem_cons_self
    obtain ⟨values, made'⟩ := ih fun item mem =>
      steps item (List.mem_cons_of_mem _ mem)
    exact ⟨value :: values, by simp [List.mapM_cons, made, made']⟩

theorem exists_emitContext {oi ni count : Nat} (left : oi + count ≤ old.lines.length)
    (right : ni + count ≤ new.lines.length) : ∃ rows, emitContext old new oi ni count = some rows := by
  have cellAt (source : Source) {index : Nat} (inside : index < source.lines.length) :
      ∃ cell, source.cellAt index [] = some cell := by
    rw [Source.cellAt, List.getElem?_eq_getElem inside]
    exact ⟨_, rfl⟩
  refine exists_mapM fun k mem => ?_
  have below := List.mem_range.mp mem
  obtain ⟨cell, made⟩ := cellAt old (show oi + k < old.lines.length by omega)
  obtain ⟨cell', made'⟩ := cellAt new (show ni + k < new.lines.length by omega)
  exact ⟨.context cell cell', by simp [made, made']⟩

/-- A file without hunks is rendered. -/
theorem exists_unchangedRows (expanded : Expansions) (same : old.lines.length = new.lines.length) :
    ∃ rows, unchangedRows old new expanded = some rows := by
  unfold unchangedRows
  split
  · exact ⟨[], rfl⟩
  · generalize expanded.of 0 = opened
    obtain ⟨up, down⟩ := opened
    dsimp only
    generalize shown_ : min (up + down) old.lines.length = shown
    generalize head_ : min down shown = head
    have from_ := checkedSub_eq (show shown - head ≤ old.lines.length by omega)
    have hidden := checkedSub_eq (show shown ≤ old.lines.length by omega)
    obtain ⟨before, emitted⟩ := @exists_emitContext old new 0 0 head (by omega) (by omega)
    obtain ⟨after, emitted'⟩ := @exists_emitContext old new (old.lines.length - (shown - head))
      (old.lines.length - (shown - head)) (shown - head) (by omega) (by omega)
    refine ⟨before ++ expander (old.lines.length - shown) .both 0 ++ after, ?_⟩
    simp only [emitted, hidden, from_, emitted', Option.bind_eq_bind, Option.bind_some,
      Option.pure_def]

end Counts

/-! ## Hidden changes -/

/-- The lines that a render counts as added and as removed. -/
def Rendered.counts (rendered : Rendered) : Option (Nat × Nat) :=
  match rendered.content with
  | .text _ _ _ _ additions deletions _ => some (additions, deletions)
  | .binary | .submodule => none

section Hiding

variable (diff : LineDiff) (highlighter : Highlighter) (changedRanges : ChangedRanges)
  (old new : List UInt8) (lang : Option String) (context : Nat) (expanded : Expansions)

/-- The diff of two files counts no change only if they are equal, and shows that only
whitespace changed only if whitespace and line endings are all that did. -/
def ShowsChanges : Prop :=
  ((∃ rendered, renderFile diff highlighter changedRanges (some old) (some new) lang
      ⟨false, context, expanded⟩ = some rendered ∧ rendered.counts = some (0, 0)) ↔ old = new) ∧
  ∀ rendered, renderFile diff highlighter changedRanges (some old) (some new) lang
    ⟨true, context, expanded⟩ = some rendered → rendered.rows = [.whitespaceOnly] →
      visible old = visible new

variable {diff old new}

/-- Lines with the same keys have no hunks, and lines without hunks have the same keys. -/
theorem LineDiff.Sound.hunks_eq_nil_iff (sound : diff.Sound) {oldLines newLines : List Line}
    {ignoreWhitespace : Bool} : diffHunks diff oldLines newLines ignoreWhitespace = [] ↔
      oldLines.map (key ignoreWhitespace) = newLines.map (key ignoreWhitespace) := by
  constructor
  · intro none
    have script := sound.script (oldLines.map (key ignoreWhitespace))
      (newLines.map (key ignoreWhitespace))
    rw [diffHunks] at none
    rw [none] at script
    cases script with
    | rest same => exact same
  · intro same
    rw [diffHunks, same, sound.unchanged]

theorem LineDiff.Sound.covers (sound : diff.Sound) (oldLines newLines : List Line)
    (ignoreWhitespace : Bool) : Covers 0 0 (diffHunks diff oldLines newLines ignoreWhitespace)
      oldLines.length newLines.length := by
  have script := sound.script (oldLines.map (key ignoreWhitespace))
    (newLines.map (key ignoreWhitespace))
  have covers := covers_of_script script (Nat.zero_le _) (Nat.zero_le _)
    (fun hunk mem => (sound.inside _ _ hunk mem).1)
    (fun hunk mem => (sound.inside _ _ hunk mem).2)
  rwa [List.length_map, List.length_map] at covers

/-- The text of a line determines its key under `ignoreWhitespace`. -/
theorem splitLines_eq_iff : (splitLines old).map (key false) = (splitLines new).map (key false) ↔
      splitLines old = splitLines new := by
  have normal (bytes : List UInt8) : splitLines bytes = ((splitLines bytes).map (key false)).map
      fun key => ⟨key.text, key.ending,
        String.ofList (key.text.toList.filter fun c => !isWhitespace c)⟩ := by
    rw [List.map_map, splitLines, List.map_map]
    rfl
  refine ⟨fun same => ?_, fun same => by rw [same]⟩
  rw [normal old, same, ← normal new]

theorem normalised_eq_iff : (splitLines old).map (key true) = (splitLines new).map (key true) ↔
      (splitLines old).map Line.normalised = (splitLines new).map Line.normalised := by
  have keys (bytes : List UInt8) : (splitLines bytes).map (key true) =
      ((splitLines bytes).map Line.normalised).map fun text => ⟨text, .missing⟩ := by
    rw [List.map_map]
    rfl
  have texts (bytes : List UInt8) : (splitLines bytes).map Line.normalised =
      ((splitLines bytes).map (key true)).map LineKey.text := by
    rw [List.map_map]
    rfl
  constructor
  · intro same
    rw [texts, texts, same]
  · intro same
    rw [keys, keys, same]

variable (textual : isBinary old = false) (textual' : isBinary new = false)

include textual textual'

/-- A render with hunks counts a change, and does not show one row for whitespace. -/
theorem changes_of_renderFile (sound : diff.Sound) {opts : RenderOpts} {rendered : Rendered}
    (changed : diffHunks diff (splitLines old) (splitLines new) opts.ignoreWhitespace ≠ [])
    (emitted : renderFile diff highlighter changedRanges (some old) (some new) lang opts =
      some rendered) : rendered.counts ≠ some (0, 0) ∧ rendered.rows ≠ [.whitespaceOnly] := by
  simp only [renderFile, Option.any_some, textual, textual', Bool.or_self, Bool.false_eq_true,
    if_false, Option.getD_some, changed, false_and, Option.bind_eq_bind, Option.pure_def,
    Option.bind_eq_some_iff, Option.some.injEq] at emitted
  obtain ⟨built, emitted, rfl⟩ := emitted
  have covers := sound.covers (splitLines old) (splitLines new) opts.ignoreWhitespace
  have changes : ∀ hunk ∈ diffHunks diff (splitLines old) (splitLines new) opts.ignoreWhitespace,
      ¬ Empty hunk := by
    intro hunk mem empty
    have change := sound.changes _ _ hunk mem
    unfold Empty at empty
    omega
  obtain ⟨counted, text, header⟩ := changes_of_buildRows covers changes changed emitted
  constructor
  · intro none
    simp only [Rendered.counts, Option.some.injEq, Prod.mk.injEq] at none
    exact counted none
  · intro single
    dsimp only at single
    rw [single] at header
    cases List.mem_singleton.mp header

/-- Without `ignoreWhitespace`, no change is counted exactly when the lines are the same. -/
theorem counts_none_iff (sound : diff.Sound) :
    (∃ rendered, renderFile diff highlighter changedRanges (some old) (some new) lang
      ⟨false, context, expanded⟩ = some rendered ∧ rendered.counts = some (0, 0)) ↔
      splitLines old = splitLines new := by
  rw [← splitLines_eq_iff, ← sound.hunks_eq_nil_iff]
  constructor
  · rintro ⟨rendered, emitted, none⟩
    by_contra changed
    exact (changes_of_renderFile highlighter changedRanges lang textual textual' sound changed
      emitted).1 none
  · intro unchanged
    have same := splitLines_eq_iff.mp (sound.hunks_eq_nil_iff.mp unchanged)
    simp only [renderFile, Option.any_some, textual, textual', Bool.or_self, Bool.false_eq_true,
      if_false, Option.getD_some, unchanged, buildRows, Option.bind_eq_bind, Option.pure_def,
      false_and, and_false]
    generalize spansFor highlighter _ lang (splitLines old) = left
    generalize spansFor highlighter _ lang (splitLines new) = right
    obtain ⟨rows, emitted⟩ := @exists_unchangedRows ⟨splitLines old, left⟩ ⟨splitLines new, right⟩
      expanded (by rw [same])
    rw [emitted]
    exact ⟨_, rfl, rfl⟩

/-- Under `ignoreWhitespace`, different files show one row exactly when their lines are the
same apart from whitespace. -/
theorem whitespaceOnly_iff (sound : diff.Sound) (differ : old ≠ new) :
    (∃ rendered, renderFile diff highlighter changedRanges (some old) (some new) lang
      ⟨true, context, expanded⟩ = some rendered ∧ rendered.rows = [.whitespaceOnly]) ↔
      (splitLines old).map Line.normalised = (splitLines new).map Line.normalised := by
  rw [← normalised_eq_iff, ← sound.hunks_eq_nil_iff]
  constructor
  · rintro ⟨rendered, emitted, single⟩
    by_contra changed
    exact (changes_of_renderFile highlighter changedRanges lang textual textual' sound changed
      emitted).2 single
  · intro unchanged
    refine ⟨⟨.text 1 CHUNK_ROWS 1 false 0 0 GapTable.empty, [.whitespaceOnly]⟩, ?_, rfl⟩
    simp only [renderFile, Option.any_some, textual, textual', Bool.or_self, Bool.false_eq_true,
      if_false, Option.getD_some, unchanged, ne_eq, Option.some.injEq, differ, not_false_eq_true,
      and_self, if_true]

/-- A diff shows every change exactly when two files whose lines are the same apart from
whitespace have the same bytes behind their replacement characters. -/
theorem showsChanges_iff (sound : diff.Sound) :
    ShowsChanges diff highlighter changedRanges old new lang context expanded ↔
      ((splitLines old).map Line.normalised = (splitLines new).map Line.normalised →
        replaced (fileReadings old) = replaced (fileReadings new)) := by
  unfold ShowsChanges
  rw [counts_none_iff highlighter changedRanges lang context expanded textual textual' sound]
  constructor
  · rintro ⟨-, shown⟩ normalised
    by_cases same : old = new
    · rw [same]
    · obtain ⟨rendered, emitted, single⟩ := (whitespaceOnly_iff highlighter changedRanges lang
        context expanded textual textual' sound same).mpr normalised
      rw [← replaced_visible, shown rendered emitted single, replaced_visible]
  · intro bytes
    refine ⟨⟨fun lines => ?_, fun same => by rw [same]⟩, fun rendered emitted single => ?_⟩
    · exact file_eq lines (bytes (by rw [lines]))
    · by_cases same : old = new
      · rw [same]
      · have normalised := (whitespaceOnly_iff highlighter changedRanges lang context expanded
          textual textual' sound same).mp ⟨rendered, emitted, single⟩
        exact visible_eq normalised (bytes normalised)

end Hiding

/-- A diff that replaces one file by the other. -/
def replacing : LineDiff := fun before after =>
  if before = after then [] else [⟨0, before.length, 0, after.length⟩]

theorem replacing_sound : replacing.Sound where
  script before after := by
    unfold replacing
    split
    next same =>
      rw [same]
      exact .refl
    next => exact .replaceAll
  inside before after hunk mem := by
    unfold replacing at mem
    split at mem
    · cases mem
    · obtain rfl := List.mem_singleton.mp mem
      exact ⟨Nat.le_refl _, Nat.le_refl _⟩
  changes before after hunk mem := by
    unfold replacing at mem
    split at mem
    · cases mem
    · rename_i differ
      obtain rfl := List.mem_singleton.mp mem
      by_contra none
      simp only [List.length_pos_iff, not_or, ne_eq, not_not] at none
      exact differ (none.1.trans none.2.symm)
  unchanged keys := if_pos rfl

/-- One letter is replaced. -/
theorem showsChanges_letters :
    ShowsChanges replacing (fun _ _ => []) (fun _ _ => ([], [])) [97, 10] [98, 10] none 3 ⟨[]⟩ ↔
      ((splitLines [97, 10]).map Line.normalised = (splitLines [98, 10]).map Line.normalised →
        replaced (fileReadings [97, 10]) = replaced (fileReadings [98, 10])) :=
  showsChanges_iff _ _ none 3 ⟨[]⟩ (by decide) (by decide) replacing_sound

/-- An `è` becomes an `é` in ISO 8859-1: no change is counted, and only whitespace is said
to have changed. -/
theorem latin_hidden : isBinary [0xE8, 10] = false ∧ isBinary [0xE9, 10] = false ∧
    replacing.Sound ∧
    ¬ ShowsChanges replacing (fun _ _ => []) (fun _ _ => ([], [])) [0xE8, 10] [0xE9, 10] none 3
      ⟨[]⟩ := by
  refine ⟨by decide, by decide, replacing_sound, fun shown => ?_⟩
  have counted := (counts_none_iff (fun _ _ => []) (fun _ _ => ([], [])) none 3 ⟨[]⟩ (by decide)
    (by decide) replacing_sound).mpr (by decide : splitLines [0xE8, 10] = splitLines [0xE9, 10])
  exact absurd (shown.1.mp counted) (by decide)

end Nits.ReviewCore
