import Nits.ReviewCore.Render.Rows

/-!
# Every line of a diff is accounted for

A cursor on each side walks the rows and passes every line of both files once, in order.
-/

namespace Nits.ReviewCore

open Logical Protocol

/-! ## The walk over the rows -/

/-- How far a row moves the cursors. -/
def advance : Row → Nat × Nat
  | .context .. | .modified .. => (1, 1)
  | .removed _ => (1, 0)
  | .added _ => (0, 1)
  | .expander hidden _ _ => (hidden, hidden)
  | .hunkHeader _ | .whitespaceOnly => (0, 0)

/-- Rows that belong to a block, below its header. -/
def isBody : Row → Bool
  | .context .. | .modified .. | .removed _ | .added _ => true
  | .expander .. | .hunkHeader _ | .whitespaceOnly => false

/-- The lines of each side up to the next header or expander. -/
def covered (rows : List Row) : Nat × Nat :=
  let body := rows.takeWhile isBody
  ((body.map fun row => (advance row).1).sum, (body.map fun row => (advance row).2).sum)

/-- A cell shows one line of a file. -/
def ShowsLine (lines : List Line) (index : Nat) (cell : Cell) : Prop :=
  ∃ line, lines[index]? = some line ∧ cell.lineNo.get = index + 1 ∧ cell.text = line.text ∧
    cell.ending = line.ending

/-- A row at the cursors shows the lines there; a header states what the rows after it
cover, from where. -/
def RowAt (old new : List Line) (o n : Nat) (later : List Row) : Row → Prop
  | .context left right | .modified left right => ShowsLine old o left ∧ ShowsLine new n right
  | .removed left => ShowsLine old o left
  | .added right => ShowsLine new n right
  | .expander hidden _ _ => 0 < hidden
  | .hunkHeader text => text = hunkHeader o (covered later).1 n (covered later).2
  | .whitespaceOnly => False

/-- The rows from the cursors on pass every line that is left of both files. -/
def Accounts (old new : List Line) : Nat → Nat → List Row → Prop
  | o, n, [] => o = old.length ∧ n = new.length
  | o, n, row :: rows => RowAt old new o n rows row ∧
      Accounts old new (o + (advance row).1) (n + (advance row).2) rows

/-- Rows of a block that move the cursors from one place to another. -/
inductive Shown (old new : List Line) : Nat → Nat → List Row → Nat → Nat → Prop
  | nil {o n} : Shown old new o n [] o n
  | cons {o n row rows o' n'} (body : isBody row) (here : RowAt old new o n rows row)
      (later : Shown old new (o + (advance row).1) (n + (advance row).2) rows o' n') :
      Shown old new o n (row :: rows) o' n'

namespace Shown

variable {old new : List Line} {o n o' n' o'' n'' : Nat} {rows others : List Row}

/-- What a body row shows does not depend on the rows after it. -/
theorem rowAt_iff {row : Row} (body : isBody row) :
    RowAt old new o n rows row ↔ RowAt old new o n others row := by
  cases row with
  | hunkHeader | expander | whitespaceOnly => cases body
  | context | modified | removed | added => exact Iff.rfl

theorem append (first : Shown old new o n rows o' n') (second : Shown old new o' n' others o'' n'') :
    Shown old new o n (rows ++ others) o'' n'' := by
  induction first with
  | nil => exact second
  | cons body here _ ih =>
    exact .cons body ((rowAt_iff body).mp here) (ih second)

theorem single {row : Row} (body : isBody row) (here : RowAt old new o n [] row) :
    Shown old new o n [row] (o + (advance row).1) (n + (advance row).2) :=
  .cons body here .nil

theorem accounts (shown : Shown old new o n rows o' n') (later : Accounts old new o' n' others) :
    Accounts old new o n (rows ++ others) := by
  induction shown with
  | nil => exact later
  | cons body here _ ih =>
    exact ⟨(rowAt_iff body).mp here, ih later⟩

/-- What a block covers, when no body row follows it. -/
theorem covered_append (shown : Shown old new o n rows o' n')
    (ends : others.takeWhile isBody = []) :
    o + (covered (rows ++ others)).1 = o' ∧ n + (covered (rows ++ others)).2 = n' := by
  induction shown with
  | nil => simp [covered, ends]
  | cons body _ _ ih =>
    obtain ⟨left, right⟩ := ih
    simp only [covered, List.cons_append, List.takeWhile_cons, body, if_true, List.map_cons,
      List.sum_cons] at left right ⊢
    omega

/-- A loop that emits one row at a time moves the cursors by its steps. -/
theorem of_mapM_range {emit : Nat → Option Row} {count stepO stepN : Nat}
    (each : ∀ k < count, ∃ row, emit k = some row ∧ isBody row ∧ advance row = (stepO, stepN) ∧
      RowAt old new (o + k * stepO) (n + k * stepN) [] row) :
    ∃ rows, (List.range count).mapM emit = some rows ∧
      Shown old new o n rows (o + count * stepO) (n + count * stepN) := by
  induction count with
  | zero => exact ⟨[], rfl, by simpa using .nil⟩
  | succ count ih =>
    obtain ⟨rows, emitted, shown⟩ := ih fun k bound => each k (by omega)
    obtain ⟨row, last, body, moves, here⟩ := each count (by omega)
    refine ⟨rows ++ [row], ?_, ?_⟩
    · rw [List.range_succ, List.mapM_append, emitted, List.mapM_cons, last]
      rfl
    · have step := single body here
      rw [moves] at step
      simpa [Nat.succ_mul, Nat.add_assoc] using shown.append step

end Shown

/-! ## The layout of a script -/

/-- From a place on both sides, hunks in order lead to another place; what lies between
them is as long on both sides. -/
inductive Covers : Nat → Nat → List Hunk → Nat → Nat → Prop
  | rest {o n o' n'} (forward : o ≤ o') (aligned : o' + n = n' + o) : Covers o n [] o' n'
  | hunk {o n hunk hunks o' n'} (before : o ≤ hunk.beforeStart)
      (aligned : hunk.beforeStart + n = hunk.afterStart + o)
      (removed : hunk.beforeStart ≤ hunk.beforeEnd) (added : hunk.afterStart ≤ hunk.afterEnd)
      (later : Covers hunk.beforeEnd hunk.afterEnd hunks o' n') :
      Covers o n (hunk :: hunks) o' n'

/-- The lines that hunks insert and remove. -/
def inserted (hunks : List Hunk) : Nat := (hunks.map fun hunk => hunk.afterEnd - hunk.afterStart).sum

def removed (hunks : List Hunk) : Nat := (hunks.map fun hunk => hunk.beforeEnd - hunk.beforeStart).sum

theorem inserted_append (hunks others : List Hunk) :
    inserted (hunks ++ others) = inserted hunks + inserted others := by
  simp [inserted]

theorem removed_append (hunks others : List Hunk) :
    removed (hunks ++ others) = removed hunks + removed others := by
  simp [removed]

namespace Covers

variable {o n o' n' o'' n'' : Nat} {hunk : Hunk} {hunks others : List Hunk}

theorem forward (covers : Covers o n hunks o' n') :
    o + removed hunks ≤ o' ∧ n + inserted hunks ≤ n' := by
  induction covers with
  | rest forward aligned =>
    simp only [removed, inserted, List.map_nil, List.sum_nil]
    omega
  | hunk before aligned removed_ added later ih =>
    simp only [removed, inserted, List.map_cons, List.sum_cons] at ih ⊢
    omega

theorem append (first : Covers o n hunks o' n') (second : Covers o' n' others o'' n'') :
    Covers o n (hunks ++ others) o'' n'' := by
  induction first with
  | rest forward aligned =>
    cases second with
    | rest forward' aligned' => exact .rest (by omega) (by omega)
    | hunk before aligned' removed added later =>
      exact .hunk (by omega) (by omega) removed added later
  | hunk before aligned removed added _ ih =>
    exact .hunk before aligned removed added (ih second)

/-- The unchanged lines before a hunk may be left out. -/
theorem startAt (start : Nat) (covers : Covers o n (hunk :: hunks) o' n') (from_ : o ≤ start)
    (before : start ≤ hunk.beforeStart) : Covers start (n + (start - o)) (hunk :: hunks) o' n' := by
  cases covers with
  | hunk _ aligned removed added later => exact .hunk before (by omega) removed added later

/-- A hunk ends before the next one begins, the last one before the end. -/
theorem ends_before {last : Hunk} (covers : Covers o n (hunks ++ last :: others) o' n') :
    last.beforeEnd ≤ (others.head?.map Hunk.beforeStart).getD o' := by
  induction hunks generalizing o n with
  | nil =>
    cases covers with
    | hunk from_ aligned removed added later =>
      cases later with
      | rest forward aligned' => exact forward
      | hunk from_ aligned' removed' added' later => exact from_
  | cons first hunks ih =>
    cases covers with
    | hunk from_ aligned removed added later => exact ih later

/-- A hunk ends within the old file. -/
theorem ends_inside {last : Hunk} (covers : Covers o n (hunks ++ last :: others) o' n') :
    last.beforeEnd ≤ o' := by
  induction hunks generalizing o n with
  | nil =>
    cases covers with
    | hunk from_ aligned removed added later => exact (Nat.le_add_right _ _).trans later.forward.1
  | cons first hunks ih =>
    cases covers with
    | hunk from_ aligned removed added later => exact ih later

/-- Hunks may be cut between two of them, anywhere in the unchanged lines there. -/
theorem cut {last : Hunk} {middle : Nat} (covers : Covers o n (hunks ++ last :: others) o' n')
    (after : last.beforeEnd ≤ middle)
    (before : middle ≤ (others.head?.map Hunk.beforeStart).getD o') :
    Covers o n (hunks ++ [last]) middle (last.afterEnd + (middle - last.beforeEnd)) ∧
      Covers middle (last.afterEnd + (middle - last.beforeEnd)) others o' n' := by
  induction hunks generalizing o n with
  | nil =>
    cases covers with
    | hunk from_ aligned removed added later =>
      refine ⟨.hunk from_ aligned removed added (.rest after (by omega)), ?_⟩
      cases later with
      | rest forward aligned' =>
        simp only [List.head?_nil, Option.map_none, Option.getD_none] at before
        exact .rest before (by omega)
      | hunk from_ aligned' removed' added' later =>
        simp only [List.head?_cons, Option.map_some, Option.getD_some] at before
        exact .hunk before (by omega) removed' added' later
  | cons first hunks ih =>
    cases covers with
    | hunk from_ aligned removed added later =>
      obtain ⟨left, right⟩ := ih later
      exact ⟨.hunk from_ aligned removed added left, right⟩

end Covers

/-! ## Groups, windows and blocks -/

/-- Windows follow each other from a place on both sides to the end of both files. -/
inductive WindowsFit (oldLen newLen : Nat) : Nat → Nat → List (Group × Window) → Prop
  | done {oi ni} (rest : Covers oi ni [] oldLen newLen) : WindowsFit oldLen newLen oi ni []
  | next {oi ni group window later} (from_ : oi ≤ window.startO)
      (aligned : window.startO + ni = window.startN + oi)
      (covers : Covers window.startO window.startN group.hunks window.endO window.endN)
      (fits : WindowsFit oldLen newLen window.endO window.endN later) :
      WindowsFit oldLen newLen oi ni ((group, window) :: later)

/-- Blocks follow each other likewise, with hidden lines between them. -/
inductive BlocksFit (oldLen newLen : Nat) : Nat → Nat → List Block → Prop
  | done {oi ni} (rest : Covers oi ni [] oldLen newLen) : BlocksFit oldLen newLen oi ni []
  | next {oi ni block blocks} (from_ : oi ≤ block.head.2.startO)
      (aligned : block.head.2.startO + ni = block.head.2.startN + oi)
      (covers : Covers block.head.2.startO block.head.2.startN block.hunks block.tail.endO
        block.tail.endN)
      (apart : ∀ next ∈ blocks.head?, block.tail.endO < next.head.2.startO)
      (fits : BlocksFit oldLen newLen block.tail.endO block.tail.endN blocks) :
      BlocksFit oldLen newLen oi ni (block :: blocks)

section Layout

variable {oldLen newLen oi ni : Nat}

theorem checkedSub_eq {left right : Nat} (bound : right ≤ left) :
    checkedSub left right = some (left - right) := if_pos bound

theorem Group.hunks_eq (group : Group) : ∃ before, group.hunks = before ++ [group.last] := by
  obtain ⟨first, rest⟩ := group
  obtain rfl | ⟨before, last, rfl⟩ := List.eq_nil_or_concat rest
  · exact ⟨[], rfl⟩
  · exact ⟨first :: before, by simp [hunks, Group.last]⟩

/-- Grouping succeeds on hunks in order, and keeps them all. -/
theorem groupFrom_eq (ctx : Nat) (group : Group) (hunks : List Hunk) {o n o' n' : Nat}
    (covers : Covers o n (group.hunks ++ hunks) o' n') :
    ∃ groups, groupFrom ctx group hunks = some groups ∧ groups ≠ [] ∧
      groups.flatMap Group.hunks = group.hunks ++ hunks := by
  induction hunks generalizing group o n with
  | nil => exact ⟨[group], rfl, List.cons_ne_nil _ _, by simp⟩
  | cons hunk hunks ih =>
    obtain ⟨before, split⟩ := group.hunks_eq
    have parted := covers
    rw [split, List.append_assoc, List.singleton_append] at parted
    have ordered : group.last.beforeEnd ≤ hunk.beforeStart := parted.ends_before
    have later := (parted.cut (Nat.le_refl _) ordered).2
    rw [groupFrom, checkedSub_eq ordered]
    simp only [Option.bind_eq_bind, Option.bind_some]
    split
    · have same : Group.hunks { group with rest := group.rest ++ [hunk] } ++ hunks =
          group.hunks ++ hunk :: hunks := by
        simp [Group.hunks]
      obtain ⟨groups, grouped, nonempty, all⟩ := ih _ (same ▸ covers)
      exact ⟨groups, grouped, nonempty, all.trans same⟩
    · obtain ⟨groups, grouped, nonempty, all⟩ := ih ⟨hunk, []⟩ later
      refine ⟨group :: groups, by rw [grouped]; rfl, List.cons_ne_nil _ _, ?_⟩
      rw [List.flatMap_cons, all]
      rfl

theorem head_flatMap (groups : List Group) :
    ((groups.flatMap Group.hunks).head?.map Hunk.beforeStart).getD oldLen =
      nextChange oldLen groups := by
  cases groups <;> rfl

/-- Every group gets a window that holds its hunks and no line of another window. -/
theorem windowsFrom_eq (ctx : Nat) (expanded : Expansions) (index : Nat) {groups : List Group}
    (covers : Covers oi ni (groups.flatMap Group.hunks) oldLen newLen) :
    ∃ placed, windowsFrom ctx oldLen expanded index oi ni groups = some placed ∧
      placed.map Prod.fst = groups ∧ WindowsFit oldLen newLen oi ni placed := by
  induction groups generalizing index oi ni with
  | nil => exact ⟨[], rfl, rfl, .done covers⟩
  | cons group groups ih =>
    rw [List.flatMap_cons] at covers
    have start : oi ≤ group.first.beforeStart := by
      cases covers with
      | hunk before => exact before
    unfold windowsFrom
    generalize expanded.of (toU32 index) = lead
    generalize expanded.of (toU32 (index + 1)) = trail
    obtain ⟨up, _⟩ := lead
    obtain ⟨_, down⟩ := trail
    dsimp only
    generalize startO_ : max (group.first.beforeStart - (ctx + up)) oi = startO
    have moved := covers.startAt startO (by omega) (by omega)
    obtain ⟨before, split⟩ := group.hunks_eq
    have parted : Covers startO (ni + (startO - oi))
        (before ++ group.last :: groups.flatMap Group.hunks) oldLen newLen := by
      rw [show before ++ group.last :: groups.flatMap Group.hunks =
        group.hunks ++ groups.flatMap Group.hunks by rw [split, List.append_assoc]; rfl]
      exact moved
    have limit := parted.ends_before
    rw [head_flatMap] at limit
    generalize endO_ : min (min (group.last.beforeEnd + (ctx + down)) oldLen)
      (nextChange oldLen groups) = endO
    have inside : group.last.beforeEnd ≤ oldLen := parted.ends_inside
    have after : group.last.beforeEnd ≤ endO := by omega
    obtain ⟨mine, others⟩ := parted.cut after (by rw [head_flatMap]; omega)
    obtain ⟨placed, windows, same, fits⟩ := ih (index + 1) others
    rw [checkedSub_eq (by omega), checkedSub_eq after]
    simp only [Option.bind_eq_bind, Option.bind_some, Option.pure_def, windows]
    refine ⟨_, rfl, by rw [List.map_cons, same], .next (by dsimp only; omega) (by dsimp only; omega) ?_ fits⟩
    rw [← split] at mine
    exact mine

/-! ### Blocks -/

theorem Block.hunks_push (block : Block) (placed : Group × Window) :
    Block.hunks { block with rest := block.rest ++ [placed] } = block.hunks ++ placed.1.hunks := by
  simp [Block.hunks, Block.groups]

theorem Block.tail_push (block : Block) (placed : Group × Window) :
    Block.tail { block with rest := block.rest ++ [placed] } = placed.2 := by
  simp [Block.tail]

/-- The first block begins where the block begun does. -/
theorem head_blocksFrom (block : Block) (index : Nat) (placed : List (Group × Window)) :
    (blocksFrom block index placed).head?.map Block.head = some block.head := by
  induction placed generalizing block index with
  | nil => rfl
  | cons next placed ih =>
    unfold blocksFrom
    split
    · exact ih _ _
    · rfl

/-- Merging windows that meet keeps what they hold. -/
theorem hunks_blocksFrom (block : Block) (index : Nat) (placed : List (Group × Window)) :
    (blocksFrom block index placed).flatMap Block.hunks =
      block.hunks ++ placed.flatMap fun placed => placed.1.hunks := by
  induction placed generalizing block index with
  | nil => simp [blocksFrom]
  | cons next placed ih =>
    unfold blocksFrom
    split
    · rw [ih, Block.hunks_push, List.flatMap_cons, List.append_assoc]
    · rw [List.flatMap_cons, ih, List.flatMap_cons]
      simp [Block.hunks, Block.groups]

/-- Blocks hold their hunks and are apart. -/
theorem blocksFrom_fit (block : Block) (index : Nat) {placed : List (Group × Window)}
    (from_ : oi ≤ block.head.2.startO)
    (aligned : block.head.2.startO + ni = block.head.2.startN + oi)
    (covers : Covers block.head.2.startO block.head.2.startN block.hunks block.tail.endO
      block.tail.endN) (fits : WindowsFit oldLen newLen block.tail.endO block.tail.endN placed) :
    BlocksFit oldLen newLen oi ni (blocksFrom block index placed) := by
  induction placed generalizing block index oi ni with
  | nil =>
    cases fits with
    | done rest => exact .next from_ aligned covers (by simp) (.done rest)
  | cons next placed ih =>
    obtain ⟨group, window⟩ := next
    cases fits with
    | next later aligned' covers' fits =>
      unfold blocksFrom
      by_cases meets : window.startO ≤ block.tail.endO
      · rw [if_pos meets]
        have place : window.startO = block.tail.endO := by omega
        have place' : window.startN = block.tail.endN := by omega
        rw [place, place'] at covers'
        refine ih _ _ from_ aligned ?_ ?_
        · rw [Block.hunks_push, Block.tail_push]
          exact covers.append covers'
        · rw [Block.tail_push]
          exact fits
      · rw [if_neg meets]
        refine .next from_ aligned covers ?_ (ih _ _ later aligned' ?_ fits)
        · intro first first_
          have same := head_blocksFrom ⟨index, (group, window), []⟩ (index + 1) placed
          rw [Option.mem_def.mp first_, Option.map_some, Option.some.injEq] at same
          rw [same]
          dsimp only
          omega
        · simpa [Block.hunks, Block.groups, Block.tail] using covers'

end Layout

/-! ## Emission -/

section Emission

variable {old new : Source} {o n n' : Nat}

/-- No file has more lines than the diff can number. -/
def Source.Small (source : Source) : Prop := source.lines.length ≤ 2147483647

theorem toU32_eq {k : Nat} (small : k < 2 ^ 32) : toU32 k = k := if_pos small

theorem Source.showsLine_cell {source : Source} {index : Nat} {line : Line}
    (small : source.Small) (found : source.lines[index]? = some line) (changed : List ColRange) :
    ShowsLine source.lines index (cell index line source.spans changed) := by
  obtain ⟨bound, -⟩ := List.getElem?_eq_some_iff.mp found
  have least : index < 2 ^ 32 := by
    unfold Source.Small at small
    omega
  refine ⟨line, found, ?_, rfl, rfl⟩
  have number : (UInt32.ofNat index).toNat = index := UInt32.toNat_ofNat_of_lt' least
  unfold cell
  rw [if_pos least, LineNo.get_fromIndex, number]
  unfold Source.Small at small
  omega

theorem Source.cellAt_eq {source : Source} {index : Nat} (small : source.Small)
    (bound : index < source.lines.length) (changed : List ColRange) :
    ∃ cell, source.cellAt index changed = some cell ∧ ShowsLine source.lines index cell := by
  have found := List.getElem?_eq_getElem bound
  refine ⟨_, by rw [Source.cellAt, found]; rfl, Source.showsLine_cell small found changed⟩

variable (oldSmall : old.Small) (newSmall : new.Small)

include oldSmall newSmall

theorem emitContext_eq (o n count : Nat) (left : o + count ≤ old.lines.length)
    (right : n + count ≤ new.lines.length) : ∃ rows, emitContext old new o n count = some rows ∧
      Shown old.lines new.lines o n rows (o + count) (n + count) := by
  suffices emitted : ∃ rows, emitContext old new o n count = some rows ∧
      Shown old.lines new.lines o n rows (o + count * 1) (n + count * 1) by
    simpa only [Nat.mul_one] using emitted
  refine Shown.of_mapM_range fun k bound => ?_
  obtain ⟨cell, made, shows⟩ := Source.cellAt_eq oldSmall
    (show o + k < old.lines.length by omega) []
  obtain ⟨cell', made', shows'⟩ := Source.cellAt_eq newSmall
    (show n + k < new.lines.length by omega) []
  refine ⟨.context cell cell', by simp [made, made'], rfl, rfl, ?_⟩
  simpa using ⟨shows, shows'⟩

theorem hunkRows_eq (changedRanges : ChangedRanges) {hunk : Hunk} (removed : hunk.beforeStart ≤ hunk.beforeEnd)
    (added : hunk.afterStart ≤ hunk.afterEnd) (left : hunk.beforeEnd ≤ old.lines.length)
    (right : hunk.afterEnd ≤ new.lines.length) :
    ∃ rows, hunkRows changedRanges old new hunk = some rows ∧
      Shown old.lines new.lines hunk.beforeStart hunk.afterStart rows hunk.beforeEnd
        hunk.afterEnd := by
  unfold hunkRows
  dsimp only
  generalize paired_ : min (hunk.beforeEnd - hunk.beforeStart) (hunk.afterEnd - hunk.afterStart) =
    paired
  have pairs : ∃ rows, (List.range paired).mapM (fun k => modifiedRow changedRanges old new
      (hunk.beforeStart + k) (hunk.afterStart + k)) = some rows ∧
      Shown old.lines new.lines hunk.beforeStart hunk.afterStart rows
        (hunk.beforeStart + paired * 1) (hunk.afterStart + paired * 1) := by
    refine Shown.of_mapM_range fun k bound => ?_
    have found := List.getElem?_eq_getElem (l := old.lines) (i := hunk.beforeStart + k) (by omega)
    have found' := List.getElem?_eq_getElem (l := new.lines) (i := hunk.afterStart + k) (by omega)
    refine ⟨_, by rw [modifiedRow, found, found']; rfl, rfl, rfl, ?_⟩
    rw [Nat.mul_one]
    exact ⟨Source.showsLine_cell oldSmall found _, Source.showsLine_cell newSmall found' _⟩
  have removals : ∃ rows, (List.range (hunk.beforeEnd - hunk.beforeStart - paired)).mapM (fun k =>
      (old.cellAt (hunk.beforeStart + paired + k) []).map Row.removed) = some rows ∧
      Shown old.lines new.lines (hunk.beforeStart + paired) (hunk.afterStart + paired) rows
        (hunk.beforeStart + paired + (hunk.beforeEnd - hunk.beforeStart - paired) * 1)
        (hunk.afterStart + paired + (hunk.beforeEnd - hunk.beforeStart - paired) * 0) := by
    refine Shown.of_mapM_range fun k bound => ?_
    obtain ⟨cell, made, shows⟩ := Source.cellAt_eq oldSmall
      (show hunk.beforeStart + paired + k < old.lines.length by omega) []
    refine ⟨.removed cell, by rw [made]; rfl, rfl, rfl, ?_⟩
    rw [Nat.mul_one]
    exact shows
  have insertions : ∃ rows, (List.range (hunk.afterEnd - hunk.afterStart - paired)).mapM (fun k =>
      (new.cellAt (hunk.afterStart + paired + k) []).map Row.added) = some rows ∧
      Shown old.lines new.lines hunk.beforeEnd (hunk.afterStart + paired) rows
        (hunk.beforeEnd + (hunk.afterEnd - hunk.afterStart - paired) * 0)
        (hunk.afterStart + paired + (hunk.afterEnd - hunk.afterStart - paired) * 1) := by
    refine Shown.of_mapM_range fun k bound => ?_
    obtain ⟨cell, made, shows⟩ := Source.cellAt_eq newSmall
      (show hunk.afterStart + paired + k < new.lines.length by omega) []
    refine ⟨.added cell, by rw [made]; rfl, rfl, rfl, ?_⟩
    rw [Nat.mul_one]
    exact shows
  obtain ⟨pairs, paired_emitted, pairs_⟩ := pairs
  obtain ⟨removals, removed_emitted, removals_⟩ := removals
  obtain ⟨insertions, added_emitted, insertions_⟩ := insertions
  refine ⟨pairs ++ removals ++ insertions, ?_, ?_⟩
  · simp only [paired_emitted, removed_emitted, added_emitted, Option.bind_eq_bind,
      Option.bind_some, Option.pure_def]
  · have ends : hunk.beforeStart + paired + (hunk.beforeEnd - hunk.beforeStart - paired) * 1 =
        hunk.beforeEnd := by omega
    have ends' : hunk.afterStart + paired + (hunk.afterEnd - hunk.afterStart - paired) * 1 =
        hunk.afterEnd := by omega
    rw [ends, Nat.mul_zero, Nat.add_zero] at removals_
    rw [ends', Nat.mul_zero, Nat.add_zero] at insertions_
    rw [Nat.mul_one] at pairs_
    exact (pairs_.append removals_).append insertions_

theorem bodyFrom_eq (changedRanges : ChangedRanges) {tail : Window} {hunks : List Hunk}
    (covers : Covers o n hunks tail.endO n') (left : tail.endO ≤ old.lines.length)
    (right : n' ≤ new.lines.length) :
    ∃ built, bodyFrom changedRanges old new tail o n hunks = some built ∧
      Shown old.lines new.lines o n built.rows tail.endO n' ∧
      built.additions = inserted hunks ∧ built.deletions = removed hunks := by
  unfold Source.Small at oldSmall newSmall
  induction hunks generalizing o n with
  | nil =>
    cases covers with
    | rest forward aligned =>
      obtain ⟨rows, emitted, shown⟩ := emitContext_eq oldSmall newSmall o n (tail.endO - o)
        (by omega) (by omega)
      refine ⟨⟨rows, 0, 0⟩, ?_, ?_, rfl, rfl⟩
      · simp only [bodyFrom, checkedSub_eq forward, Option.bind_eq_bind, Option.bind_some, emitted,
          Option.pure_def]
      · have ends : o + (tail.endO - o) = tail.endO := by omega
        have ends' : n + (tail.endO - o) = n' := by omega
        rwa [ends, ends'] at shown
  | cons hunk hunks ih =>
    have whole := covers.forward
    cases covers with
    | hunk before aligned removed_ added later =>
      have bounds := later.forward
      obtain ⟨equal, emitted, shown⟩ := emitContext_eq oldSmall newSmall o n
        (hunk.beforeStart - o) (by omega) (by omega)
      obtain ⟨changed, emitted', shown'⟩ := hunkRows_eq oldSmall newSmall
        changedRanges removed_ added (by omega) (by omega)
      obtain ⟨built, emitted'', shown'', additions, deletions⟩ := ih later
      have ends : o + (hunk.beforeStart - o) = hunk.beforeStart := by omega
      have ends' : n + (hunk.beforeStart - o) = hunk.afterStart := by omega
      rw [ends, ends'] at shown
      simp only [removed, inserted, List.map_cons, List.sum_cons] at whole bounds additions deletions ⊢
      refine ⟨⟨equal ++ changed ++ built.rows,
        hunk.afterEnd - hunk.afterStart + built.additions,
        hunk.beforeEnd - hunk.beforeStart + built.deletions⟩, ?_, ?_, ?_, ?_⟩
      · have fits : checkedAdd (toU32 (hunk.afterEnd - hunk.afterStart)) built.additions =
            some (hunk.afterEnd - hunk.afterStart + built.additions) := by
          rw [toU32_eq (by omega)]
          exact if_pos (by omega)
        have fits' : checkedAdd (toU32 (hunk.beforeEnd - hunk.beforeStart)) built.deletions =
            some (hunk.beforeEnd - hunk.beforeStart + built.deletions) := by
          rw [toU32_eq (by omega)]
          exact if_pos (by omega)
        simp only [bodyFrom, checkedSub_eq before, Option.bind_eq_bind, Option.bind_some, emitted,
          emitted', emitted'', fits, fits', Option.pure_def]
      · exact (shown.append shown').append shown''
      · rw [additions]
      · rw [deletions]

omit oldSmall newSmall in
/-- An expander stands for the hidden lines of both sides. -/
theorem accounts_expander {hidden gap : Nat} {dir : ExpandDir} {rows : List Row}
    (small : hidden < 2 ^ 32)
    (later : Accounts old.lines new.lines (o + hidden) (n + hidden) rows) :
    Accounts old.lines new.lines o n (expander hidden dir gap ++ rows) := by
  unfold expander
  split
  · rename_i positive
    rw [List.singleton_append]
    refine ⟨?_, ?_⟩
    · rw [RowAt, toU32_eq small]
      exact positive
    · rw [advance, toU32_eq small]
      exact later
  · have none : hidden = 0 := by omega
    rw [none] at later
    exact later

omit oldSmall newSmall in
/-- No body row comes before the end of a block: what follows is hidden, or nothing. -/
theorem takeWhile_expander {hidden gap : Nat} {dir : ExpandDir} {rows : List Row}
    (ends : hidden = 0 → rows = []) : (expander hidden dir gap ++ rows).takeWhile isBody = [] := by
  unfold expander
  split
  · rfl
  · rw [ends (by omega)]
    rfl

theorem blockRowsFrom_eq (changedRanges : ChangedRanges) (groups : Nat) {blocks : List Block}
    (fits : BlocksFit old.lines.length new.lines.length o n blocks) :
    ∃ built, blockRowsFrom changedRanges old new groups o blocks = some built ∧
      Accounts old.lines new.lines o n built.rows ∧
      ((∀ next ∈ blocks.head?, o < next.head.2.startO) → built.rows.takeWhile isBody = []) ∧
      (built.additions = inserted (blocks.flatMap Block.hunks) ∧
        n + built.additions ≤ new.lines.length) ∧
      built.deletions = removed (blocks.flatMap Block.hunks) ∧
        o + built.deletions ≤ old.lines.length := by
  have oldLimit := oldSmall
  have newLimit := newSmall
  unfold Source.Small at oldLimit newLimit
  induction fits with
  | @done oi ni rest =>
    cases rest with
    | rest forward aligned =>
      refine ⟨⟨expander (old.lines.length - oi) .down groups, 0, 0⟩, ?_, ?_, ?_, ⟨rfl, ?_⟩, rfl, ?_⟩
      · simp only [blockRowsFrom, checkedSub_eq forward, Option.bind_eq_bind, Option.bind_some,
          Option.pure_def]
      · rw [← List.append_nil (expander _ _ _)]
        refine accounts_expander (by omega) ⟨?_, ?_⟩ <;> omega
      · intro _
        rw [← List.append_nil (expander _ _ _)]
        exact takeWhile_expander fun _ => rfl
      · dsimp only
        omega
      · dsimp only
        omega
  | @next oi ni block blocks from_ aligned covers apart fits ih =>
    obtain ⟨later, emitted, accounts, ends, ⟨additions, fewer⟩, deletions, fewer'⟩ :=
      ih
    have whole := covers.forward
    obtain ⟨body, emitted', shown, additions', deletions'⟩ := bodyFrom_eq
      oldSmall newSmall changedRanges covers (by omega) (by omega)
    have old_ : oi ≤ block.head.2.startO := from_
    have window : block.head.2.startO ≤ block.tail.endO := by omega
    have window' : block.head.2.startN ≤ block.tail.endN := by omega
    refine ⟨⟨expander (block.head.2.startO - oi) (if block.start = 0 then .up else .both)
        block.start ++ .hunkHeader (hunkHeader block.head.2.startO
          (block.tail.endO - block.head.2.startO) block.head.2.startN
          (block.tail.endN - block.head.2.startN)) :: body.rows ++ later.rows,
      body.additions + later.additions, body.deletions + later.deletions⟩, ?_, ?_, ?_, ?_, ?_⟩
    · have sum : checkedAdd body.additions later.additions =
          some (body.additions + later.additions) := if_pos (by omega)
      have sum' : checkedAdd body.deletions later.deletions =
          some (body.deletions + later.deletions) := if_pos (by omega)
      simp only [blockRowsFrom, checkedSub_eq old_, checkedSub_eq window, checkedSub_eq window',
        Option.bind_eq_bind, Option.bind_some, emitted, emitted', sum, sum', Option.pure_def]
    · dsimp only
      rw [List.append_assoc]
      refine accounts_expander (by omega) ?_
      rw [List.cons_append]
      refine ⟨?_, ?_⟩
      · obtain ⟨left, right⟩ := shown.covered_append (ends apart)
        have place : oi + (block.head.2.startO - oi) = block.head.2.startO := by omega
        have place' : ni + (block.head.2.startO - oi) = block.head.2.startN := by omega
        have length : (covered (body.rows ++ later.rows)).1 =
            block.tail.endO - block.head.2.startO := by omega
        have length' : (covered (body.rows ++ later.rows)).2 =
            block.tail.endN - block.head.2.startN := by omega
        rw [place, place', RowAt, length, length']
      · have place : oi + (block.head.2.startO - oi) = block.head.2.startO := by omega
        have place' : ni + (block.head.2.startO - oi) = block.head.2.startN := by omega
        rw [place, place']
        exact shown.accounts accounts
    · intro hidden
      dsimp only
      rw [List.append_assoc]
      refine takeWhile_expander fun none => ?_
      have := hidden block rfl
      omega
    · rw [List.flatMap_cons, inserted_append]
      dsimp only
      omega
    · rw [List.flatMap_cons, removed_append]
      dsimp only
      omega

/-- Without hunks the files have as many lines, and every line is shown or hidden. -/
theorem unchangedRows_eq (expanded : Expansions) (same : old.lines.length = new.lines.length) :
    ∃ rows, unchangedRows old new expanded = some rows ∧
      Accounts old.lines new.lines 0 0 rows := by
  unfold unchangedRows
  by_cases empty : old.lines = []
  · rw [if_pos empty]
    refine ⟨[], rfl, ?_, ?_⟩
    · rw [empty, List.length_nil]
    · rw [← same, empty, List.length_nil]
  · rw [if_neg empty]
    generalize expanded.of 0 = opened
    obtain ⟨up, down⟩ := opened
    dsimp only
    generalize shown_ : min (up + down) old.lines.length = shown
    generalize head_ : min down shown = head
    obtain ⟨before, emitted, shown'⟩ := emitContext_eq oldSmall newSmall 0 0 head (by omega) (by omega)
    obtain ⟨after, emitted', shown''⟩ := emitContext_eq oldSmall newSmall
      (old.lines.length - (shown - head)) (old.lines.length - (shown - head)) (shown - head)
      (by omega) (by omega)
    refine ⟨before ++ expander (old.lines.length - shown) .both 0 ++ after, ?_, ?_⟩
    · simp only [emitted, checkedSub_eq (show shown ≤ old.lines.length by omega),
        checkedSub_eq (show shown - head ≤ old.lines.length by omega), emitted',
        Option.bind_eq_bind, Option.bind_some, Option.pure_def]
    · rw [List.append_assoc]
      refine shown'.accounts (accounts_expander ?_ ?_)
      · unfold Source.Small at oldSmall
        omega
      · have from_ : 0 + head + (old.lines.length - shown) =
            old.lines.length - (shown - head) := by omega
        have ends : old.lines.length - (shown - head) + (shown - head) = old.lines.length := by omega
        rw [from_]
        rw [ends] at shown''
        rw [← List.append_nil after]
        exact shown''.accounts ⟨rfl, same⟩

end Emission

/-! ## The whole diff -/

/-- What `imara_diff` returns for two files, its lines compared by a key: a script in order
within both files, neither of which has more lines than it can number. -/
structure Diffed {K : Type} (key : Line → K) (old new : List Line) (hunks : List Hunk) : Prop where
  script : EditScript (old.map key) (new.map key) 0 0 hunks
  inOld : ∀ hunk ∈ hunks, hunk.beforeEnd ≤ old.length
  inNew : ∀ hunk ∈ hunks, hunk.afterEnd ≤ new.length
  oldSmall : old.length ≤ 2147483647
  newSmall : new.length ≤ 2147483647

/-- A script covers both lists. -/
theorem covers_of_script {α : Type} {left right : List α} {o n : Nat} {hunks : List Hunk}
    (script : EditScript left right o n hunks) (from_ : o ≤ left.length) (from' : n ≤ right.length)
    (inOld : ∀ hunk ∈ hunks, hunk.beforeEnd ≤ left.length)
    (inNew : ∀ hunk ∈ hunks, hunk.afterEnd ≤ right.length) :
    Covers o n hunks left.length right.length := by
  induction script with
  | rest same =>
    have lengths := congrArg List.length same
    rw [List.length_drop, List.length_drop] at lengths
    exact .rest from_ (by omega)
  | hunk before aligned same removed added script ih =>
    refine .hunk before aligned removed added (ih (inOld _ List.mem_cons_self)
      (inNew _ List.mem_cons_self) ?_ ?_)
    · exact fun hunk mem => inOld hunk (List.mem_cons_of_mem _ mem)
    · exact fun hunk mem => inNew hunk (List.mem_cons_of_mem _ mem)

/-- Rendering never goes out of range, its rows pass every line of both files once, and
its counts are those of the script. -/
theorem buildRows_accounts {K : Type} {key : Line → K} {old new : Source} {hunks : List Hunk}
    (diffed : Diffed key old.lines new.lines hunks) (changedRanges : ChangedRanges)
    (context : Nat) (expanded : Expansions) :
    ∃ built, buildRows changedRanges old new hunks context expanded = some built ∧
      Accounts old.lines new.lines 0 0 built.rows ∧
      built.additions = inserted hunks ∧ built.deletions = removed hunks := by
  have covers : Covers 0 0 hunks old.lines.length new.lines.length := by
    have covers := covers_of_script diffed.script (Nat.zero_le _) (Nat.zero_le _)
      (by simpa using diffed.inOld) (by simpa using diffed.inNew)
    simpa using covers
  cases hunks with
  | nil =>
    cases covers with
    | rest forward aligned =>
      obtain ⟨rows, built, accounts⟩ := unchangedRows_eq diffed.oldSmall diffed.newSmall expanded
        (by omega)
      exact ⟨⟨rows, 0, 0⟩, by simp [buildRows, built], accounts, rfl, rfl⟩
  | cons first rest =>
    obtain ⟨groups, grouped, nonempty, all⟩ := groupFrom_eq context ⟨first, []⟩ rest covers
    have covers : Covers 0 0 (groups.flatMap Group.hunks) old.lines.length new.lines.length := by
      rw [all]
      exact covers
    obtain ⟨placed, windows, same, fits⟩ := windowsFrom_eq context expanded 0 covers
    have kept : placed.flatMap (fun placed => placed.1.hunks) = first :: rest := by
      have flat : placed.flatMap (fun placed => placed.1.hunks) =
          (placed.map Prod.fst).flatMap Group.hunks := by rw [List.flatMap_map]
      rw [flat, same, all]
      rfl
    cases fits with
    | done => exact absurd same.symm nonempty
    | @next _ _ group window later from_ aligned covers' fits =>
      have blocks := blocksFrom_fit ⟨0, (group, window), []⟩ 1 from_ aligned
        (by simpa [Block.hunks, Block.groups, Block.tail] using covers') fits
      obtain ⟨built, emitted, accounts, -, ⟨additions, -⟩, deletions, -⟩ := blockRowsFrom_eq
        diffed.oldSmall diffed.newSmall changedRanges groups.length blocks
      have hunks : (blocksFrom ⟨0, (group, window), []⟩ 1 later).flatMap Block.hunks =
          first :: rest := by
        rw [hunks_blocksFrom, ← kept, List.flatMap_cons]
        simp [Block.hunks, Block.groups]
      rw [hunks] at additions deletions
      refine ⟨built, ?_, accounts, additions, deletions⟩
      simp only [buildRows, grouped, windows, Option.bind_eq_bind, Option.bind_some, emitted]

/-- One of two lines changed. -/
def twoLines (second : UInt8) : Source := ⟨splitLines [97, 10, second, 10], []⟩

theorem twoLines_diffed :
    Diffed Line.text (twoLines 98).lines (twoLines 99).lines [⟨1, 2, 1, 2⟩] where
  script := by
    refine .hunk (by decide) (by decide) ?_ (by decide) (by decide) (.rest (by decide))
    intro k bound
    obtain rfl : k = 0 := by
      simp only [Nat.zero_add] at bound
      omega
    decide
  inOld := by decide
  inNew := by decide
  oldSmall := by decide
  newSmall := by decide

/-- The second line is replaced. -/
theorem buildRows_accounts_twoLines :
    ∃ built, buildRows (fun _ _ => ([], [])) (twoLines 98) (twoLines 99) [⟨1, 2, 1, 2⟩] 0 ⟨[]⟩ =
        some built ∧
      Accounts (twoLines 98).lines (twoLines 99).lines 0 0 built.rows ∧
      built.additions = 1 ∧ built.deletions = 1 :=
  buildRows_accounts twoLines_diffed (fun _ _ => ([], [])) 0 ⟨[]⟩

end Nits.ReviewCore
