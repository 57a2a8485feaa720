import Nits.ReviewCore.Render.File

/-!
# Opening gaps

Header texts aside, the rows of a diff are its groups of changes with one stretch of
equal lines, partly hidden, before each of them and after the last. What an expansion
opens is one such stretch.
-/

namespace Nits.ReviewCore

open Logical Protocol

/-! ## Rows of parts -/

/-- A row without the text of a header. -/
def bare : Row → Row
  | .hunkHeader _ => .hunkHeader ""
  | row => row

theorem bare_eq_of_isBody {row : Row} (body : isBody row) : bare row = row := by
  cases row <;> first | rfl | cases body

theorem map_bare_eq {rows : List Row} (bodies : ∀ row ∈ rows, isBody row) : rows.map bare = rows := by
  have same : rows.map bare = rows.map id :=
    List.map_congr_left fun row mem => bare_eq_of_isBody (bodies row mem)
  rw [same, List.map_id]

section Parts

variable (changedRanges : ChangedRanges) (old new : Source)

/-- The row of an equal line. -/
def contextRow (o n : Nat) : Option Row := do
  let left ← old.cellAt o []
  let right ← new.cellAt n []
  pure (.context left right)

def contextRows (o n count : Nat) : List Row :=
  (List.range count).filterMap fun k => contextRow old new (o + k) (n + k)

/-- The rows of hunks from the cursors on, up to an old line. -/
def bodyRows (finish : Nat) : Nat → Nat → List Hunk → List Row
  | co, cn, [] => contextRows old new co cn (finish - co)
  | co, cn, hunk :: hunks => contextRows old new co cn (hunk.beforeStart - co) ++
      (hunkRows changedRanges old new hunk).getD [] ++ bodyRows finish hunk.beforeEnd hunk.afterEnd hunks

section Facts

variable {changedRanges old new} {co cn o n o' n' : Nat} {hunks more : List Hunk}

theorem filterMap_of_mapM {α β : Type} {step : α → Option β} {items : List α} {values : List β}
    (made : items.mapM step = some values) : items.filterMap step = values := by
  induction items generalizing values with
  | nil =>
    cases made
    rfl
  | cons head tail ih =>
    simp only [List.mapM_cons, Option.bind_eq_bind, Option.bind_eq_some_iff, Option.pure_def,
      Option.some.injEq] at made
    obtain ⟨value, first, values', later, rfl⟩ := made
    rw [List.filterMap_cons_some first, ih later]

theorem contextRows_of_emitContext {count : Nat} {rows : List Row}
    (emitted : emitContext old new o n count = some rows) : rows = contextRows old new o n count :=
  (filterMap_of_mapM emitted).symm

@[simp] theorem contextRows_zero : contextRows old new o n 0 = [] := rfl

theorem contextRows_add (count count' : Nat) : contextRows old new o n (count + count') =
    contextRows old new o n count ++ contextRows old new (o + count) (n + count) count' := by
  rw [contextRows, List.range_add, List.filterMap_append, List.filterMap_map]
  refine congrArg (contextRows old new o n count ++ ·) ?_
  refine List.filterMap_congr fun k _ => ?_
  rw [Function.comp_apply, Nat.add_assoc, Nat.add_assoc]

theorem isContext_contextRows {count : Nat} {row : Row} (mem : row ∈ contextRows old new o n count) :
    ∃ left right, row = .context left right := by
  obtain ⟨k, -, made⟩ := List.mem_filterMap.mp mem
  simp only [contextRow, Option.bind_eq_bind, Option.bind_eq_some_iff, Option.pure_def,
    Option.some.injEq] at made
  obtain ⟨left, -, right, -, rfl⟩ := made
  exact ⟨left, right, rfl⟩

theorem bodyRows_of_bodyFrom {tail : Window} {built : Built}
    (emitted : bodyFrom changedRanges old new tail co cn hunks = some built) :
    built.rows = bodyRows changedRanges old new tail.endO co cn hunks := by
  induction hunks generalizing co cn built with
  | nil =>
    simp only [bodyFrom, checkedSub, Option.bind_eq_bind, Option.bind_eq_some_iff, Option.pure_def,
      Option.some.injEq, Option.ite_none_right_eq_some] at emitted
    obtain ⟨_, ⟨-, rfl⟩, rows, emitted, rfl⟩ := emitted
    exact contextRows_of_emitContext emitted
  | cons hunk hunks ih =>
    simp only [bodyFrom, checkedSub, Option.bind_eq_bind, Option.bind_eq_some_iff, Option.pure_def,
      Option.some.injEq, Option.ite_none_right_eq_some] at emitted
    obtain ⟨_, ⟨-, rfl⟩, equal, emitted, changed, made, later, emitted', _, -, _, -, rfl⟩ := emitted
    rw [bodyRows, ← contextRows_of_emitContext emitted, made, ← ih emitted']
    rfl

/-- Rows of hunks may be cut wherever lines are equal. -/
theorem bodyRows_append {finish : Nat} (covers : Covers co cn hunks o' n')
    (before : o' ≤ (more.head?.map Hunk.beforeStart).getD finish) :
    bodyRows changedRanges old new finish co cn (hunks ++ more) =
      bodyRows changedRanges old new o' co cn hunks ++ bodyRows changedRanges old new finish o' n' more := by
  induction covers with
  | @rest o n o' n' forward aligned =>
    have cut (last : Nat) (beyond : o' ≤ last) : contextRows old new o n (last - o) =
        contextRows old new o n (o' - o) ++ contextRows old new o' n' (last - o') := by
      have parts := @contextRows_add old new o n (o' - o) (last - o')
      rwa [show o' - o + (last - o') = last - o by omega, show o + (o' - o) = o' by omega,
        show n + (o' - o) = n' by omega] at parts
    cases more with
    | nil => exact cut finish before
    | cons hunk more =>
      rw [List.nil_append, bodyRows, bodyRows, bodyRows, cut hunk.beforeStart before,
        List.append_assoc, List.append_assoc, List.append_assoc]
  | hunk _ _ _ _ _ ih =>
    rw [List.cons_append, bodyRows, ih before, bodyRows, List.append_assoc,
      List.append_assoc, List.append_assoc]

theorem isBody_hunkRows {hunk : Hunk} {rows : List Row}
    (made : hunkRows changedRanges old new hunk = some rows) : ∀ row ∈ rows, isBody row := by
  simp only [hunkRows, Option.bind_eq_bind, Option.bind_eq_some_iff, Option.pure_def,
    Option.some.injEq] at made
  obtain ⟨pairs, paired, removals, removed, insertions, added, rfl⟩ := made
  intro row mem
  rcases List.mem_append.mp mem with mem | mem
  · rcases List.mem_append.mp mem with mem | mem
    · rw [← filterMap_of_mapM paired] at mem
      obtain ⟨k, -, made⟩ := List.mem_filterMap.mp mem
      simp only [modifiedRow, Option.bind_eq_bind, Option.bind_eq_some_iff, Option.pure_def,
        Option.some.injEq] at made
      obtain ⟨left, -, right, -, rfl⟩ := made
      rfl
    · rw [← filterMap_of_mapM removed] at mem
      obtain ⟨k, -, made⟩ := List.mem_filterMap.mp mem
      obtain ⟨cell, -, rfl⟩ := Option.map_eq_some_iff.mp made
      rfl
  · rw [← filterMap_of_mapM added] at mem
    obtain ⟨k, -, made⟩ := List.mem_filterMap.mp mem
    obtain ⟨cell, -, rfl⟩ := Option.map_eq_some_iff.mp made
    rfl

theorem isBody_bodyRows {finish : Nat} :
    ∀ row ∈ bodyRows changedRanges old new finish co cn hunks, isBody row := by
  have context {o n count : Nat} : ∀ row ∈ contextRows old new o n count, isBody row := by
    intro row mem
    obtain ⟨left, right, rfl⟩ := isContext_contextRows mem
    rfl
  induction hunks generalizing co cn with
  | nil => exact context
  | cons hunk hunks ih =>
    intro row mem
    rw [bodyRows] at mem
    rcases List.mem_append.mp mem with mem | mem
    · rcases List.mem_append.mp mem with mem | mem
      · exact context row mem
      · cases made : hunkRows changedRanges old new hunk with
        | none =>
          rw [made] at mem
          cases mem
        | some rows =>
          rw [made] at mem
          exact isBody_hunkRows made row mem
    · exact ih row mem

/-- The equal lines before a change are lines of the new file too. -/
theorem Covers.equal_inside {group : Group} {hunks : List Hunk} {o n o' n' : Nat}
    (covers : Covers o n (group.hunks ++ hunks) o' n') :
    n + (group.first.beforeStart - o) ≤ n' := by
  cases covers with
  | hunk before aligned removed added later =>
    have forward := later.forward
    omega

end Facts

/-! ## Equal lines between changes -/

/-- The header below hidden lines. -/
def header (hidden : Nat) : List Row := if 0 < hidden then [.hunkHeader ""] else []

/-- `count` equal lines with `above` of them shown at the top and `below` at the bottom,
under a header. -/
def stretch (dir : ExpandDir) (gap : Nat) (header : List Row) (o n count above below : Nat) :
    List Row :=
  contextRows old new o n above ++ expander (count - (above + below)) dir gap ++ header ++
    contextRows old new (o + (count - below)) (n + (count - below)) below

/-- How many of the lines between two changes are shown below the first one. -/
def shownAbove (context : Nat) (expanded : Expansions) (index count : Nat) : Nat :=
  min (context + (expanded.of (toU32 index)).2) count

/-- How many of the lines are shown above a change, when `above` of them are shown already. -/
def shownBelow (context : Nat) (expanded : Expansions) (index count above : Nat) : Nat :=
  min (context + (expanded.of (toU32 index)).1) (count - above)

/-- The rows of a group without the equal lines around it. -/
def changeRows (group : Group) : List Row :=
  bodyRows changedRanges old new group.last.beforeEnd group.first.beforeStart
    group.first.afterStart group.hunks

/-- The rows from the lines after a change on, `index` numbers the gap in them. -/
def layoutFrom (context : Nat) (expanded : Expansions) : Nat → Nat → Nat → List Group → List Row
  | index, o, n, [] =>
    let count := old.lines.length - o
    stretch old new .down index [] o n count (shownAbove context expanded index count) 0
  | index, o, n, group :: groups =>
    let count := group.first.beforeStart - o
    let above := shownAbove context expanded index count
    let below := shownBelow context expanded index count above
    stretch old new .both index (header (count - (above + below))) o n count above below ++
      changeRows changedRanges old new group ++
      layoutFrom context expanded (index + 1) group.last.beforeEnd group.last.afterEnd groups

/-- The rows of groups, from the beginning of the files. -/
def layout (context : Nat) (expanded : Expansions) (first : Group) (rest : List Group) : List Row :=
  let count := first.first.beforeStart
  stretch old new .up 0 [.hunkHeader ""] 0 0 count 0 (shownBelow context expanded 0 count 0) ++
    changeRows changedRanges old new first ++
    layoutFrom changedRanges old new context expanded 1 first.last.beforeEnd first.last.afterEnd rest

/-- The rows of windows after a place, each apart from the one before it under its own
header. -/
def windowRows : Nat → Nat → List (Group × Window) → List Row
  | index, oi, [] => expander (old.lines.length - oi) .down index
  | index, oi, (group, window) :: later =>
    expander (window.startO - oi) .both index ++ header (window.startO - oi) ++
      bodyRows changedRanges old new window.endO window.startO window.startN group.hunks ++
      windowRows (index + 1) window.endO later

theorem header_cases (hidden : Nat) : header hidden = [] ∨ header hidden = [.hunkHeader ""] := by
  unfold header
  split
  · exact .inr rfl
  · exact .inl rfl

section Layout

variable {changedRanges old new} {oi groupCount index : Nat} {built : Built}

theorem map_bare_expander (hidden : Nat) (dir : ExpandDir) (gap : Nat) :
    (expander hidden dir gap).map bare = expander hidden dir gap := by
  unfold expander
  split <;> rfl

/-- What a block puts before the rows of the next ones. -/
theorem bare_blockRowsFrom_cons {block : Block} {blocks : List Block}
    (emitted : blockRowsFrom changedRanges old new groupCount oi (block :: blocks) = some built) :
    ∃ later, blockRowsFrom changedRanges old new groupCount block.tail.endO blocks = some later ∧
      built.rows.map bare = expander (block.head.2.startO - oi)
          (if block.start = 0 then .up else .both) block.start ++ [.hunkHeader ""] ++
        bodyRows changedRanges old new block.tail.endO block.head.2.startO block.head.2.startN
          block.hunks ++ later.rows.map bare := by
  simp only [blockRowsFrom, checkedSub, Option.bind_eq_bind, Option.bind_eq_some_iff,
    Option.pure_def, Option.some.injEq, Option.ite_none_right_eq_some] at emitted
  obtain ⟨_, ⟨-, rfl⟩, length, -, length', -, body, emitted, later, emitted', _, -, _, -, rfl⟩ :=
    emitted
  refine ⟨later, emitted', ?_⟩
  simp only [List.map_append, List.map_cons, map_bare_expander, bodyRows_of_bodyFrom emitted,
    map_bare_eq isBody_bodyRows, bare, List.append_assoc, List.cons_append,
    List.nil_append]

/-- Blocks show their windows, those that meet without a header between them. -/
theorem bare_blockRowsFrom {block : Block} {placed : List (Group × Window)}
    (numbered : groupCount = index + placed.length) (begun : 0 < index)
    (covers : Covers block.head.2.startO block.head.2.startN block.hunks block.tail.endO
      block.tail.endN)
    (fits : WindowsFit old.lines.length new.lines.length block.tail.endO block.tail.endN placed)
    (emitted : blockRowsFrom changedRanges old new groupCount oi (blocksFrom block index placed) =
      some built) : built.rows.map bare = expander (block.head.2.startO - oi)
        (if block.start = 0 then .up else .both) block.start ++ [.hunkHeader ""] ++
      bodyRows changedRanges old new block.tail.endO block.head.2.startO block.head.2.startN
        block.hunks ++ windowRows changedRanges old new index block.tail.endO placed := by
  induction placed generalizing block index oi built with
  | nil =>
    obtain ⟨later, emitted', rows⟩ := bare_blockRowsFrom_cons emitted
    simp only [blockRowsFrom, checkedSub, Option.bind_eq_bind, Option.bind_eq_some_iff,
      Option.pure_def, Option.some.injEq, Option.ite_none_right_eq_some] at emitted'
    obtain ⟨_, ⟨-, rfl⟩, rfl⟩ := emitted'
    rw [rows, map_bare_expander, windowRows, numbered, List.length_nil, Nat.add_zero]
  | cons next placed ih =>
    obtain ⟨group, window⟩ := next
    have numbered' : groupCount = index + 1 + placed.length := by
      rw [List.length_cons] at numbered
      omega
    cases fits with
    | next from_ aligned covers' fits =>
      unfold blocksFrom at emitted
      by_cases meets : window.startO ≤ block.tail.endO
      · rw [if_pos meets] at emitted
        have place : window.startO = block.tail.endO := by omega
        have place' : window.startN = block.tail.endN := by omega
        have starts : block.tail.endO ≤ (group.hunks.head?.map Hunk.beforeStart).getD window.endO := by
          rw [place] at covers'
          cases covers' with
          | hunk before => exact before
        rw [place, place'] at covers'
        have covers'' : Covers block.head.2.startO block.head.2.startN
            (Block.hunks { block with rest := block.rest ++ [(group, window)] }) window.endO
            window.endN := by
          rw [Block.hunks_push]
          exact covers.append covers'
        rw [ih numbered' (by omega)
          (by rw [Block.tail_push]; exact covers'') (by rw [Block.tail_push]; exact fits) emitted,
          Block.tail_push, Block.hunks_push, bodyRows_append covers starts, windowRows, place, place',
          Nat.sub_self]
        simp only [expander, header, Nat.lt_irrefl, gt_iff_lt, if_false, List.nil_append,
          List.append_assoc]
      · rw [if_neg meets] at emitted
        obtain ⟨later, emitted', rows⟩ := bare_blockRowsFrom_cons emitted
        have single : Covers window.startO window.startN
            (Block.hunks ⟨index, (group, window), []⟩) window.endO window.endN := by
          simpa [Block.hunks, Block.groups] using covers'
        have shown := @ih block.tail.endO (index + 1) later
          ⟨index, (group, window), []⟩ numbered' (by omega) single fits emitted'
        have hunks : Block.hunks ⟨index, (group, window), []⟩ = group.hunks := by
          simp [Block.hunks, Block.groups]
        have apart : header (window.startO - block.tail.endO) = [.hunkHeader ""] := by
          rw [header, if_pos (by omega)]
        have later_ : ¬ index = 0 := by omega
        rw [rows, shown, hunks, windowRows, apart]
        simp only [later_, if_false]
        rfl

/-- The rows of a group in its window: its changes, and the equal lines around them. -/
theorem bodyRows_group {group : Group} {co cn finish n' : Nat}
    (covers : Covers co cn group.hunks finish n') :
    bodyRows changedRanges old new finish co cn group.hunks =
      contextRows old new co cn (group.first.beforeStart - co) ++
        changeRows changedRanges old new group ++
        contextRows old new group.last.beforeEnd group.last.afterEnd (finish - group.last.beforeEnd) := by
  obtain ⟨before, split⟩ := group.hunks_eq
  have whole := covers
  rw [split] at whole
  have inside := whole.ends_inside
  have upTo := (whole.cut (Nat.le_refl _) inside).1
  rw [Nat.sub_self, Nat.add_zero, ← split] at upTo
  have parts := @bodyRows_append changedRanges old new co cn group.last.beforeEnd
    group.last.afterEnd group.hunks [] finish upTo inside
  rw [List.append_nil] at parts
  rw [parts, changeRows, Group.hunks, bodyRows, bodyRows, bodyRows, Nat.sub_self,
    contextRows_zero, List.nil_append]
  simp only [List.append_assoc]

/-- The next change is in the lines that are left. -/
theorem nextChange_between {groups : List Group} {o n oldLen newLen : Nat}
    (covers : Covers o n (groups.flatMap Group.hunks) oldLen newLen) :
    o ≤ nextChange oldLen groups ∧ nextChange oldLen groups ≤ oldLen := by
  cases groups with
  | nil =>
    cases covers with
    | rest forward => exact ⟨forward, Nat.le_refl _⟩
  | cons group groups =>
    rw [List.flatMap_cons, Group.hunks, List.cons_append] at covers
    cases covers with
    | hunk before aligned removed added later =>
      have forward := later.forward
      dsimp only [nextChange]
      omega

/-- The groups after a change cover what is left after it. -/
theorem Covers.after {group : Group} {hunks : List Hunk} {o n o' n' : Nat}
    (covers : Covers o n (group.hunks ++ hunks) o' n') :
    o ≤ group.first.beforeStart ∧ group.first.beforeStart ≤ group.last.beforeEnd ∧
      group.last.beforeEnd ≤ o' ∧ Covers group.last.beforeEnd group.last.afterEnd hunks o' n' := by
  obtain ⟨before, split⟩ := group.hunks_eq
  have parted := covers
  rw [split, List.append_assoc, List.singleton_append] at parted
  have later := (parted.cut (Nat.le_refl _) parted.ends_before).2
  have upTo := (parted.cut (Nat.le_refl _) parted.ends_before).1
  rw [Nat.sub_self, Nat.add_zero] at later upTo
  rw [← split] at upTo
  refine ⟨?_, ?_, parted.ends_inside, later⟩
  · cases covers with
    | hunk before => exact before
  · cases upTo with
    | hunk _ _ removed _ later =>
      have forward := later.forward
      omega

/-- The first of the windows after a place, `above` lines below the last change. -/
structure Begins (changedRanges : ChangedRanges) (old new : Source) (context : Nat)
    (expanded : Expansions) (index o n above : Nat) (group : Group) (groups : List Group)
    (window : Window) (below above' : Nat) : Prop where
  rest : Covers group.last.beforeEnd group.last.afterEnd (groups.flatMap Group.hunks)
    old.lines.length new.lines.length
  below_ : below = shownBelow context expanded index (group.first.beforeStart - o) above
  above_ : above' = shownAbove context expanded (index + 1)
    (nextChange old.lines.length groups - group.last.beforeEnd)
  startO : window.startO = o + (group.first.beforeStart - o - below)
  hidden : window.startO - (o + above) = group.first.beforeStart - o - (above + below)
  endO : window.endO = group.last.beforeEnd + above'
  endN : window.endN = group.last.afterEnd + above'
  covers : Covers window.startO window.startN group.hunks window.endO window.endN
  rows : bodyRows changedRanges old new window.endO window.startO window.startN group.hunks =
    contextRows old new (o + (group.first.beforeStart - o - below))
        (n + (group.first.beforeStart - o - below)) below ++
      changeRows changedRanges old new group ++
      contextRows old new group.last.beforeEnd group.last.afterEnd above'

theorem begins_of_windowsFrom {context : Nat} {expanded : Expansions} {group : Group}
    {groups : List Group} {placed : List (Group × Window)} {o n above : Nat}
    (covers : Covers o n ((group :: groups).flatMap Group.hunks) old.lines.length new.lines.length)
    (shown : above ≤ group.first.beforeStart - o)
    (windows : windowsFrom context old.lines.length expanded index (o + above) (n + above)
      (group :: groups) = some placed) :
    ∃ window later below above', placed = (group, window) :: later ∧
      Begins changedRanges old new context expanded index o n above group groups window below above' ∧
      windowsFrom context old.lines.length expanded (index + 1) (group.last.beforeEnd + above')
        (group.last.afterEnd + above') groups = some later := by
  rcases lead_ : expanded.of (toU32 index) with ⟨up, low⟩
  rcases trail_ : expanded.of (toU32 (index + 1)) with ⟨high, down⟩
  simp only [windowsFrom, lead_, trail_, checkedSub, Option.bind_eq_bind, Option.bind_eq_some_iff,
    Option.pure_def, Option.some.injEq, Option.ite_none_right_eq_some] at windows
  obtain ⟨_, ⟨from_, rfl⟩, _, ⟨after, rfl⟩, later, windows, rfl⟩ := windows
  rw [List.flatMap_cons] at covers
  obtain ⟨start, ordered, inside, rest⟩ := covers.after
  obtain ⟨least, within⟩ := nextChange_between rest
  obtain ⟨below, below_⟩ :
      ∃ below, below = shownBelow context expanded index (group.first.beforeStart - o) above :=
    ⟨_, rfl⟩
  have lines : below = min (context + up) (group.first.beforeStart - o - above) := by
    rw [below_, shownBelow, lead_]
  generalize startO_ : max (group.first.beforeStart - (context + up)) (o + above) = startO at *
  generalize endO_ : min (min (group.last.beforeEnd + (context + down)) old.lines.length)
    (nextChange old.lines.length groups) = endO at *
  have startN' : n + above + (startO - (o + above)) = n + (group.first.beforeStart - o - below) := by
    omega
  rw [startN']
  obtain ⟨above', rfl⟩ := Nat.exists_eq_add_of_le after
  rw [Nat.add_sub_cancel_left] at windows ⊢
  have covers' : Covers startO (n + (group.first.beforeStart - o - below)) group.hunks
      (group.last.beforeEnd + above') (group.last.afterEnd + above') := by
    obtain ⟨before, split⟩ := group.hunks_eq
    have moved : Covers startO (n + (startO - o))
        (before ++ group.last :: groups.flatMap Group.hunks) old.lines.length new.lines.length := by
      rw [show before ++ group.last :: groups.flatMap Group.hunks =
        group.hunks ++ groups.flatMap Group.hunks by rw [split, List.append_assoc]; rfl]
      exact covers.startAt startO (by omega) (by omega)
    have mine := (moved.cut (Nat.le_add_right _ above') (by rw [head_flatMap]; omega)).1
    rw [← split, Nat.add_sub_cancel_left] at mine
    rwa [show group.first.beforeStart - o - below = startO - o by omega]
  refine ⟨_, later, below, above', rfl, ?_, windows⟩
  exact {
    rest
    below_
    above_ := by
      rw [shownAbove, trail_]
      dsimp only
      omega
    startO := by
      dsimp only
      omega
    hidden := by
      dsimp only
      omega
    endO := rfl
    endN := rfl
    covers := covers'
    rows := by
      have startO' : startO = o + (group.first.beforeStart - o - below) := by omega
      have below' : group.first.beforeStart - startO = below := by omega
      rw [bodyRows_group covers', below', Nat.add_sub_cancel_left, ← startO'] }

/-- What windows show, with the lines above the first of them, is the layout of their
groups. -/
theorem windowRows_eq {context : Nat} {expanded : Expansions} {groups : List Group}
    {placed : List (Group × Window)} {o n above : Nat}
    (covers : Covers o n (groups.flatMap Group.hunks) old.lines.length new.lines.length)
    (above_ : above = shownAbove context expanded index (nextChange old.lines.length groups - o))
    (windows : windowsFrom context old.lines.length expanded index (o + above) (n + above) groups =
      some placed) :
    contextRows old new o n above ++ windowRows changedRanges old new index (o + above) placed =
      layoutFrom changedRanges old new context expanded index o n groups := by
  induction groups generalizing index o n above placed with
  | nil =>
    cases windows
    rw [nextChange] at above_
    simp only [windowRows, layoutFrom, stretch, ← above_, Nat.add_zero, Nat.sub_sub,
      contextRows_zero, List.append_nil]
  | cons group groups ih =>
    rw [nextChange] at above_
    have shown : above ≤ group.first.beforeStart - o := by
      rw [above_]
      exact Nat.min_le_right _ _
    obtain ⟨window, later, below, above', rfl, begins, windows⟩ :=
      @begins_of_windowsFrom changedRanges old new _ _ _ _ _ _ _ _ _ covers shown windows
    rw [windowRows, layoutFrom, stretch, ← above_, ← begins.below_, begins.rows, begins.endO,
      begins.hidden, ← ih begins.rest begins.above_ windows]
    simp only [List.append_assoc]

/-- The rows of a diff with hunks are the layout of its groups, header texts aside. -/
theorem bare_buildRows {context : Nat} {expanded : Expansions} {first : Hunk} {rest : List Hunk}
    (covers : Covers 0 0 (first :: rest) old.lines.length new.lines.length)
    (emitted : buildRows changedRanges old new (first :: rest) context expanded = some built) :
    ∃ group groups, groupFrom context ⟨first, []⟩ rest = some (group :: groups) ∧
      Covers 0 0 ((group :: groups).flatMap Group.hunks) old.lines.length new.lines.length ∧
      built.rows.map bare = layout changedRanges old new context expanded group groups := by
  obtain ⟨groups, grouped, nonempty, all⟩ := groupFrom_eq context ⟨first, []⟩ rest covers
  have covers' : Covers 0 0 (groups.flatMap Group.hunks) old.lines.length new.lines.length := by
    rw [all]
    exact covers
  cases groups with
  | nil => exact absurd rfl nonempty
  | cons group groups =>
    refine ⟨group, groups, grouped, covers', ?_⟩
    obtain ⟨placed, windows, same, fits⟩ := windowsFrom_eq context expanded 0 covers'
    simp only [buildRows, grouped, windows, Option.bind_eq_bind, Option.bind_some] at emitted
    obtain ⟨window, later, below, above, rfl, begins, windows'⟩ :=
      @begins_of_windowsFrom changedRanges old new _ _ _ _ _ _ 0 0 0 covers' (Nat.zero_le _) windows
    have count : (group :: groups).length = 1 + later.length := by
      rw [← same, List.length_map, List.length_cons, Nat.add_comm]
    cases fits with
    | next from_ aligned covers'' fits =>
      have single : Covers window.startO window.startN (Block.hunks ⟨0, (group, window), []⟩)
          window.endO window.endN := by
        simpa [Block.hunks, Block.groups] using covers''
      have hunks : Block.hunks ⟨0, (group, window), []⟩ = group.hunks := by
        simp [Block.hunks, Block.groups]
      have tail : Block.tail ⟨0, (group, window), []⟩ = window := rfl
      dsimp only at emitted
      have shown := @bare_blockRowsFrom changedRanges old new 0 _ 1 _ ⟨0, (group, window), []⟩ later
        count Nat.one_pos single fits emitted
      have laid := @windowRows_eq changedRanges _ _ _ _ _ _ _ _ _ _ begins.rest begins.above_ windows'
      have hidden := begins.hidden
      have below_ := begins.below_
      have rows := begins.rows
      simp only [Nat.sub_zero, Nat.zero_add, Nat.add_zero] at hidden below_ rows
      rw [shown, tail, hunks, rows, begins.endO, layout, stretch, ← laid, ← below_]
      simp only [hidden, if_true, Nat.sub_zero, Nat.zero_add, contextRows_zero, List.nil_append,
        List.append_assoc]

end Layout

/-! ## One step further -/

/-- How many lines a step reveals at either end of a hidden run, under the rows above it and
over the rows below it. -/
def revealed (dir : ExpandDir) (step hidden : Nat) : Nat × Nat :=
  match dir with
  | .up => (0, min step hidden)
  | .down => (min step hidden, 0)
  | .both => (min step hidden, min step (hidden - min step hidden))

/-- The rows differ in one hidden run only: at its ends are the lines that the step reveals,
between them what is hidden still; a header below it goes when nothing is. -/
def OpensOnly (gap : Nat) (dir : ExpandDir) (step hidden : Nat) (rows rows' : List Row) : Prop :=
  ∃ above below headers headers' o n,
    rows = above ++ .expander hidden dir gap :: (headers ++ below) ∧
      rows' = above ++ contextRows old new o n (revealed dir step hidden).1 ++
        expander (hidden - ((revealed dir step hidden).1 + (revealed dir step hidden).2)) dir gap ++
        headers' ++ contextRows old new (o + (hidden - (revealed dir step hidden).2))
          (n + (hidden - (revealed dir step hidden).2)) (revealed dir step hidden).2 ++ below ∧
      o + hidden ≤ old.lines.length ∧ n + hidden ≤ new.lines.length ∧
      (headers = [] ∨ headers = [.hunkHeader ""]) ∧
      (headers' = headers ∨ headers' = [] ∧
        hidden = (revealed dir step hidden).1 + (revealed dir step hidden).2)

section Step

variable {changedRanges old new} {gap step hidden : Nat} {dir : ExpandDir} {rows rows' : List Row}

theorem revealed_le (dir : ExpandDir) (step hidden : Nat) :
    (revealed dir step hidden).1 + (revealed dir step hidden).2 ≤ hidden := by
  cases dir <;> dsimp only [revealed] <;> omega

theorem OpensOnly.append_left (before : List Row)
    (opens : OpensOnly old new gap dir step hidden rows rows') :
    OpensOnly old new gap dir step hidden (before ++ rows) (before ++ rows') := by
  obtain ⟨above, below, headers, headers', o, n, rfl, rfl, rest⟩ := opens
  exact ⟨before ++ above, below, headers, headers', o, n, by simp only [List.append_assoc],
    by simp only [List.append_assoc], rest⟩

theorem OpensOnly.append_right (after : List Row)
    (opens : OpensOnly old new gap dir step hidden rows rows') :
    OpensOnly old new gap dir step hidden (rows ++ after) (rows' ++ after) := by
  obtain ⟨above, below, headers, headers', o, n, rfl, rfl, rest⟩ := opens
  exact ⟨above, below ++ after, headers, headers', o, n,
    by simp only [List.append_assoc, List.cons_append], by simp only [List.append_assoc], rest⟩

theorem contextRows_cut {o n count : Nat} (k : Nat) (bound : k ≤ count) :
    contextRows old new o n count =
      contextRows old new o n k ++ contextRows old new (o + k) (n + k) (count - k) := by
  rw [← contextRows_add, Nat.add_sub_cancel' bound]

theorem expander_eq {hidden gap : Nat} (some_ : 0 < hidden) (small : hidden < 2 ^ 32) :
    expander hidden dir gap = [.expander hidden dir (toU32 gap)] := by
  rw [expander, if_pos some_, toU32_eq small]

theorem expander_toU32 (hidden : Nat) (dir : ExpandDir) (gap : Nat) :
    expander hidden dir (toU32 gap) = expander hidden dir gap := by
  have same : toU32 (toU32 gap) = toU32 gap := by
    unfold toU32
    split <;> simp_all
  rw [expander, same, expander]

section Stretch

variable {headers headers' : List Row} {o n count above below above' below' : Nat}
  (some_ : above + below < count) (small : count < 2 ^ 32) (inOld : o + count ≤ old.lines.length)
  (inNew : n + count ≤ new.lines.length) (headed : headers = [] ∨ headers = [.hunkHeader ""])

include some_ small inOld inNew headed

/-- A stretch that shows the lines revealed besides those shown before. -/
theorem opensOnly_stretch (top : above' = above + (revealed dir step (count - (above + below))).1)
    (bottom : below' = below + (revealed dir step (count - (above + below))).2)
    (headed' : headers' = headers ∨ headers' = [] ∧ above' + below' = count) :
    OpensOnly old new (toU32 gap) dir step (count - (above + below))
      (stretch old new dir gap headers o n count above below)
      (stretch old new dir gap headers' o n count above' below') := by
  have fewer := revealed_le dir step (count - (above + below))
  refine ⟨contextRows old new o n above,
    contextRows old new (o + (count - below)) (n + (count - below)) below, headers, headers',
    o + above, n + above, ?_, ?_, by omega, by omega, headed, ?_⟩
  · rw [stretch, expander_eq (by omega) (by omega)]
    simp only [List.append_assoc, List.cons_append, List.nil_append]
  · generalize (revealed dir step (count - (above + below))).1 = down at *
    generalize (revealed dir step (count - (above + below))).2 = up at *
    have upper : contextRows old new o n above' =
        contextRows old new o n above ++ contextRows old new (o + above) (n + above) down := by
      rw [top, contextRows_add]
    have lower := @contextRows_cut old new (o + (count - below')) (n + (count - below')) below' up
      (by omega)
    rw [show o + (count - below') + up = o + (count - below) by omega,
      show n + (count - below') + up = n + (count - below) by omega,
      show below' - up = below by omega] at lower
    rw [stretch, upper, lower, expander_toU32,
      show count - (above' + below') = count - (above + below) - (down + up) by omega,
      show o + (count - below') = o + above + (count - (above + below) - up) by omega,
      show n + (count - below') = n + above + (count - (above + below) - up) by omega]
    simp only [List.append_assoc]
  · rcases headed' with same | ⟨gone, whole⟩
    · exact .inl same
    · exact .inr ⟨gone, by omega⟩

/-- A stretch shown whole, wherever its two parts meet. -/
theorem opensOnly_whole (whole : above' + below' = count)
    (all : (revealed dir step (count - (above + below))).1 +
      (revealed dir step (count - (above + below))).2 = count - (above + below)) :
    OpensOnly old new (toU32 gap) dir step (count - (above + below))
      (stretch old new dir gap headers o n count above below)
      (stretch old new dir gap [] o n count above' below') := by
  have shown {above below : Nat} (whole : above + below = count) :
      stretch old new dir gap [] o n count above below = contextRows old new o n count := by
    rw [stretch, whole, Nat.sub_self, expander, if_neg (Nat.lt_irrefl 0), List.append_nil,
      List.append_nil, @contextRows_cut _ _ _ _ count above (by omega),
      show count - below = above by omega, show count - above = below by omega]
  have exact_ := @opensOnly_stretch _ _ gap step dir _ [] _ _ _ _ _ _ _ some_ small inOld inNew
    headed rfl rfl (.inr ⟨rfl, by omega⟩)
  rw [shown (by omega)] at exact_
  rw [shown whole]
  exact exact_

end Stretch

section Counts

variable {context index count : Nat} {expanded : Expansions}

theorem shownBelow_le (context : Nat) (expanded : Expansions) (index count above : Nat) :
    shownBelow context expanded index count above ≤ count - above := Nat.min_le_right _ _

theorem of_opened_self (expanded : Expansions) (gap : Gap) (dir : ExpandDir) (step : Nat) :
    (expanded.opened gap dir step).of gap = Expansions.further dir step (expanded.of gap) := by
  rw [Expansions.of_opened, if_pos rfl]

/-- Above the first change. -/
theorem shownBelow_opened (small : count < 2 ^ 32)
    (some_ : shownBelow context expanded index count 0 < count) :
    shownBelow context (expanded.opened (toU32 index) .up step) index count 0 =
      shownBelow context expanded index count 0 +
        (revealed .up step (count - shownBelow context expanded index count 0)).2 := by
  unfold shownBelow at *
  rw [of_opened_self]
  dsimp only [Expansions.further, Expansions.saturatingAdd, Expansions.countMax, revealed]
  omega

/-- Below the last change. -/
theorem shownAbove_opened (small : count < 2 ^ 32)
    (some_ : shownAbove context expanded index count < count) :
    shownAbove context (expanded.opened (toU32 index) .down step) index count =
      shownAbove context expanded index count +
        (revealed .down step (count - shownAbove context expanded index count)).1 := by
  unfold shownAbove at *
  rw [of_opened_self]
  dsimp only [Expansions.further, Expansions.saturatingAdd, Expansions.countMax, revealed]
  omega

/-- Between two changes. Below the first one the step may go on to what was shown above the
second, and then all is shown. -/
theorem shown_opened {above below above' below' : Nat} (small : count < 2 ^ 32)
    (above_ : above = shownAbove context expanded index count)
    (below_ : below = shownBelow context expanded index count above) (shownAbove_ : above' =
      shownAbove context (expanded.opened (toU32 index) .both step) index count)
    (shownBelow_ : below' =
      shownBelow context (expanded.opened (toU32 index) .both step) index count above')
    (some_ : above + below < count) :
    (above' = above + (revealed .both step (count - (above + below))).1 ∧
      below' = below + (revealed .both step (count - (above + below))).2) ∨
    above' + below' = count ∧ (revealed .both step (count - (above + below))).1 +
      (revealed .both step (count - (above + below))).2 = count - (above + below) := by
  unfold shownAbove at above_
  unfold shownBelow at below_
  -- As lines stay hidden, neither count is cut off before the step, nor by its saturation.
  have top : above = context + (expanded.of (toU32 index)).2 := by omega
  have bottom : below = context + (expanded.of (toU32 index)).1 := by omega
  unfold shownAbove at shownAbove_
  unfold shownBelow at shownBelow_
  rw [of_opened_self] at shownAbove_ shownBelow_
  dsimp only [Expansions.further, Expansions.saturatingAdd, Expansions.countMax, revealed] at *
  have opened : above' = min (above + step) count := by
    rw [shownAbove_, top]
    clear shownAbove_ shownBelow_
    omega
  have opened' : below' = min (below + step) (count - above') := by
    rw [shownBelow_, bottom]
    clear shownAbove_ shownBelow_
    omega
  clear shownAbove_ shownBelow_ above_ below_ top bottom
  rcases Nat.le_total step (count - (above + below)) with within | beyond
  · rw [Nat.min_eq_left within]
    omega
  · rw [Nat.min_eq_right beyond]
    omega

end Counts

/-- Opening a gap that is not among those of groups leaves their rows as they are. -/
theorem layoutFrom_opened {context index o n : Nat} {expanded : Expansions} {groups : List Group}
    (other : ∀ later, index ≤ later → later ≤ index + groups.length → toU32 later ≠ gap) :
    layoutFrom changedRanges old new context (expanded.opened gap dir step) index o n groups =
      layoutFrom changedRanges old new context expanded index o n groups := by
  have same {later : Nat} (from_ : index ≤ later) (upTo : later ≤ index + groups.length) :
      (expanded.opened gap dir step).of (toU32 later) = expanded.of (toU32 later) := by
    rw [Expansions.of_opened, if_neg (other later from_ upTo)]
  induction groups generalizing index o n with
  | nil => simp only [layoutFrom, shownAbove, same (Nat.le_refl _) (Nat.le_refl _)]
  | cons group groups ih =>
    have here := same (Nat.le_refl _) (Nat.le_add_right _ _)
    rw [List.length_cons] at other same
    have later := @ih (index + 1) group.last.beforeEnd group.last.afterEnd
      (fun later from_ upTo => other later (by omega) (by omega))
      fun from_ upTo => same (by omega) (by omega)
    simp only [layoutFrom, shownAbove, shownBelow, here, later]

theorem mem_expander {row : Row} {count gap : Nat} (mem : row ∈ expander count dir gap) :
    0 < count ∧ row = .expander (toU32 count) dir (toU32 gap) := by
  unfold expander at mem
  split at mem
  · exact ⟨by assumption, List.mem_singleton.mp mem⟩
  · cases mem

/-- The one expander of a stretch. -/
theorem expander_mem_stretch {dir' : ExpandDir} {index o n count above below : Nat}
    {headers : List Row} (headed : headers = [] ∨ headers = [.hunkHeader ""])
    (mem : Row.expander hidden dir gap ∈ stretch old new dir' index headers o n count above below) :
    above + below < count ∧ hidden = toU32 (count - (above + below)) ∧ dir = dir' ∧
      gap = toU32 index := by
  have notContext {o n count : Nat} : Row.expander hidden dir gap ∉ contextRows old new o n count := by
    intro mem
    obtain ⟨left, right, same⟩ := isContext_contextRows mem
    cases same
  rcases List.mem_append.mp mem with mem | mem
  · rcases List.mem_append.mp mem with mem | mem
    · rcases List.mem_append.mp mem with mem | mem
      · exact absurd mem notContext
      · obtain ⟨some_, same⟩ := mem_expander mem
        cases same
        exact ⟨by omega, rfl, rfl, rfl⟩
    · rcases headed with rfl | rfl
      · cases mem
      · cases List.mem_singleton.mp mem
  · exact absurd mem notContext

theorem expander_not_mem_changeRows {group : Group} :
    Row.expander hidden dir gap ∉ changeRows changedRanges old new group := by
  intro mem
  cases isBody_bodyRows _ mem

/-- The gaps in the rows of groups are numbered from the first of them on. -/
theorem gap_of_layoutFrom {context index o n : Nat} {expanded : Expansions} {groups : List Group}
    (mem : Row.expander hidden dir gap ∈
      layoutFrom changedRanges old new context expanded index o n groups) :
    ∃ later, index ≤ later ∧ later ≤ index + groups.length ∧ gap = toU32 later := by
  induction groups generalizing index o n with
  | nil =>
    obtain ⟨-, -, -, same⟩ := expander_mem_stretch (.inl rfl) mem
    exact ⟨index, Nat.le_refl _, Nat.le_add_right _ _, same⟩
  | cons group groups ih =>
    rcases List.mem_append.mp mem with mem | mem
    · rcases List.mem_append.mp mem with mem | mem
      · obtain ⟨-, -, -, same⟩ := expander_mem_stretch (header_cases _) mem
        exact ⟨index, Nat.le_refl _, Nat.le_add_right _ _, same⟩
      · exact absurd mem expander_not_mem_changeRows
    · obtain ⟨later, from_, upTo, same⟩ := ih mem
      exact ⟨later, by omega, by rw [List.length_cons]; omega, same⟩

theorem opensOnly_layoutFrom {context index o n : Nat} {expanded : Expansions} {groups : List Group}
    (oldSmall : old.Small) (numbered : index + groups.length < 2 ^ 32)
    (covers : Covers o n (groups.flatMap Group.hunks) old.lines.length new.lines.length)
    (mem : Row.expander hidden dir gap ∈
      layoutFrom changedRanges old new context expanded index o n groups) :
    OpensOnly old new gap dir step hidden
      (layoutFrom changedRanges old new context expanded index o n groups)
      (layoutFrom changedRanges old new context (expanded.opened gap dir step) index o n groups) := by
  unfold Source.Small at oldSmall
  induction groups generalizing index o n with
  | nil =>
    obtain ⟨some_, rfl, rfl, rfl⟩ := expander_mem_stretch (.inl rfl) mem
    cases covers with
    | rest forward aligned =>
      rw [layoutFrom, layoutFrom, toU32_eq (k := _ - _) (by omega)]
      refine opensOnly_stretch some_ (by omega) (by omega) (by omega) (.inl rfl) ?_ ?_ (.inl rfl)
      · exact shownAbove_opened (by omega) some_
      · rfl
  | cons group groups ih =>
    rw [List.length_cons] at numbered
    have away {later : Nat} (from_ : index < later) (upTo : later ≤ index + 1 + groups.length) :
        toU32 later ≠ toU32 index := by
      rw [toU32_eq (by omega), toU32_eq (by omega)]
      omega
    rw [List.flatMap_cons] at covers
    obtain ⟨start, ordered, inside, rest⟩ := covers.after
    rcases List.mem_append.mp mem with mem | mem
    · rcases List.mem_append.mp mem with mem | mem
      · obtain ⟨some_, rfl, rfl, rfl⟩ := expander_mem_stretch (header_cases _) mem
        have same := @layoutFrom_opened changedRanges old new (toU32 index) step .both context
          (index + 1) group.last.beforeEnd group.last.afterEnd expanded groups
          fun later from_ upTo => away from_ upTo
        rw [layoutFrom, layoutFrom, same, toU32_eq (k := _ - _) (by omega)]
        refine (OpensOnly.append_right _ ?_).append_right _
        obtain ⟨above, above_⟩ : ∃ above, above =
          shownAbove context expanded index (group.first.beforeStart - o) := ⟨_, rfl⟩
        obtain ⟨below, below_⟩ : ∃ below, below =
          shownBelow context expanded index (group.first.beforeStart - o) above := ⟨_, rfl⟩
        obtain ⟨above', shownAbove_⟩ : ∃ above', above' = shownAbove context
          (expanded.opened (toU32 index) .both step) index (group.first.beforeStart - o) := ⟨_, rfl⟩
        obtain ⟨below', shownBelow_⟩ : ∃ below', below' = shownBelow context
          (expanded.opened (toU32 index) .both step) index (group.first.beforeStart - o) above' :=
          ⟨_, rfl⟩
        rw [← above_, ← below_] at some_
        rw [← shownAbove_, ← shownBelow_, ← above_, ← below_]
        have upTo : above' + below' ≤ group.first.beforeStart - o := by
          have top : above' ≤ group.first.beforeStart - o := by
            rw [shownAbove_]
            exact Nat.min_le_right _ _
          have bottom := shownBelow_le context (expanded.opened (toU32 index) .both step) index
            (group.first.beforeStart - o) above'
          omega
        have shown : header (group.first.beforeStart - o - (above + below)) = [.hunkHeader ""] :=
          if_pos (by omega)
        have whole (all : above' + below' = group.first.beforeStart - o) :
            header (group.first.beforeStart - o - (above' + below')) = [] := if_neg (by omega)
        rcases shown_opened (by omega) above_ below_ shownAbove_ shownBelow_ some_ with
          ⟨top, bottom⟩ | ⟨meet, all⟩
        · refine opensOnly_stretch some_ (by omega) (by omega) covers.equal_inside (header_cases _) top bottom ?_
          by_cases all : above' + below' = group.first.beforeStart - o
          · exact .inr ⟨whole all, all⟩
          · exact .inl (by rw [shown, header, if_pos (by omega)])
        · rw [whole meet]
          exact opensOnly_whole some_ (by omega) (by omega) covers.equal_inside (header_cases _) meet all
      · exact absurd mem expander_not_mem_changeRows
    · obtain ⟨later, from_, upTo, rfl⟩ := gap_of_layoutFrom mem
      have same : (expanded.opened (toU32 later) dir step).of (toU32 index) =
          expanded.of (toU32 index) := by
        rw [Expansions.of_opened, if_neg (away from_ upTo).symm]
      have opens := ih (by omega) rest mem
      have laid := opens.append_left (stretch old new .both index
        (header (group.first.beforeStart - o - (shownAbove context expanded index
          (group.first.beforeStart - o) + shownBelow context expanded index
          (group.first.beforeStart - o) (shownAbove context expanded index
          (group.first.beforeStart - o))))) o n (group.first.beforeStart - o)
          (shownAbove context expanded index (group.first.beforeStart - o))
          (shownBelow context expanded index (group.first.beforeStart - o)
          (shownAbove context expanded index (group.first.beforeStart - o))) ++
        changeRows changedRanges old new group)
      simp only [layoutFrom, shownAbove, shownBelow, same] at laid ⊢
      exact laid

theorem opensOnly_layout {context : Nat} {expanded : Expansions} {group : Group}
    {groups : List Group} (oldSmall : old.Small) (numbered : 1 + groups.length < 2 ^ 32)
    (covers : Covers 0 0 ((group :: groups).flatMap Group.hunks) old.lines.length new.lines.length)
    (mem : Row.expander hidden dir gap ∈
      layout changedRanges old new context expanded group groups) :
    OpensOnly old new gap dir step hidden (layout changedRanges old new context expanded group groups)
      (layout changedRanges old new context (expanded.opened gap dir step) group groups) := by
  have limit := oldSmall
  unfold Source.Small at limit
  have away {later : Nat} (from_ : 0 < later) (upTo : later ≤ 1 + groups.length) :
      toU32 later ≠ toU32 0 := by
    rw [toU32_eq (by omega), toU32_eq (by omega)]
    omega
  rw [List.flatMap_cons] at covers
  obtain ⟨start, ordered, inside, rest⟩ := covers.after
  have equal := covers.equal_inside
  rcases List.mem_append.mp mem with above | mem
  · rcases List.mem_append.mp above with mem | mem
    · obtain ⟨some_, rfl, rfl, rfl⟩ := expander_mem_stretch (.inr rfl) mem
      have same := @layoutFrom_opened changedRanges old new (toU32 0) step .up context 1
        group.last.beforeEnd group.last.afterEnd expanded groups fun later from_ upTo => away from_ upTo
      rw [layout, layout, same, toU32_eq (k := _ - _) (by omega)]
      refine (OpensOnly.append_right _ ?_).append_right _
      rw [Nat.zero_add] at some_
      refine opensOnly_stretch (by omega) (by omega) (by omega) (by omega) (.inr rfl) rfl ?_ (.inl rfl)
      rw [Nat.zero_add]
      exact shownBelow_opened (by omega) some_
    · exact absurd mem expander_not_mem_changeRows
  · obtain ⟨later, from_, upTo, rfl⟩ := gap_of_layoutFrom mem
    have same : (expanded.opened (toU32 later) dir step).of (toU32 0) = expanded.of (toU32 0) := by
      rw [Expansions.of_opened, if_neg (away from_ upTo).symm]
    have laid := (@opensOnly_layoutFrom changedRanges old new _ step _ _ _ _ _ _ _ _ oldSmall numbered
      rest mem).append_left (stretch old new .up 0 [.hunkHeader ""] 0 0 group.first.beforeStart 0
        (shownBelow context expanded 0 group.first.beforeStart 0) ++
        changeRows changedRanges old new group)
    simp only [layout, shownBelow, same] at laid ⊢
    exact laid

/-- Without hunks, the whole file is one stretch. -/
theorem unchangedRows_stretch {expanded : Expansions} (some_ : old.lines ≠ [])
    (emitted : unchangedRows old new expanded = some rows) :
    rows = stretch old new .both 0 [] 0 0 old.lines.length
      (shownAbove 0 expanded 0 old.lines.length)
      (shownBelow 0 expanded 0 old.lines.length (shownAbove 0 expanded 0 old.lines.length)) := by
  have first : toU32 0 = 0 := rfl
  rcases opened_ : expanded.of 0 with ⟨up, down⟩
  simp only [unchangedRows, some_, if_false, opened_, checkedSub, Option.bind_eq_bind,
    Option.bind_eq_some_iff, Option.pure_def, Option.some.injEq,
    Option.ite_none_right_eq_some] at emitted
  obtain ⟨before, head, _, ⟨-, rfl⟩, _, ⟨-, rfl⟩, after, tail, rfl⟩ := emitted
  rw [contextRows_of_emitContext head, contextRows_of_emitContext tail]
  have above : shownAbove 0 expanded 0 old.lines.length =
      min down (min (up + down) old.lines.length) := by
    rw [shownAbove, first, opened_]
    dsimp only
    omega
  have below : shownBelow 0 expanded 0 old.lines.length (min down (min (up + down) old.lines.length)) =
      min (up + down) old.lines.length - min down (min (up + down) old.lines.length) := by
    rw [shownBelow, first, opened_]
    dsimp only
    omega
  rw [stretch, above, below, Nat.zero_add, List.append_nil, Nat.add_sub_cancel' (Nat.min_le_right _ _)]

theorem bare_stretch {dir : ExpandDir} {gap : Nat} {headers : List Row} {o n count above below : Nat}
    (headed : headers = [] ∨ headers = [.hunkHeader ""]) :
    (stretch old new dir gap headers o n count above below).map bare =
      stretch old new dir gap headers o n count above below := by
  have context {o n count : Nat} :
      (contextRows old new o n count).map bare = contextRows old new o n count :=
    map_bare_eq fun row mem => by
      obtain ⟨left, right, rfl⟩ := isContext_contextRows mem
      rfl
  have headers_ : headers.map bare = headers := by
    rcases headed with rfl | rfl <;> rfl
  rw [stretch, List.map_append, List.map_append, List.map_append, context, context,
    map_bare_expander, headers_]

/-- Every group has a hunk. -/
theorem length_groups (groups : List Group) :
    groups.length ≤ (groups.flatMap Group.hunks).length := by
  induction groups with
  | nil => exact Nat.le_refl _
  | cons group groups ih =>
    rw [List.flatMap_cons, List.length_append, List.length_cons, Group.hunks, List.length_cons]
    omega

/-- Opening a gap of a diff is local. -/
theorem opensOnly_buildRows {context : Nat} {expanded : Expansions} {hunks : List Hunk}
    {built built' : Built} (oldSmall : old.Small)
    (covers : Covers 0 0 hunks old.lines.length new.lines.length) (numbered : hunks.length < 2 ^ 32)
    (emitted : buildRows changedRanges old new hunks context expanded = some built)
    (emitted' : buildRows changedRanges old new hunks context (expanded.opened gap dir step) =
      some built') (mem : Row.expander hidden dir gap ∈ built.rows) :
    OpensOnly old new gap dir step hidden (built.rows.map bare) (built'.rows.map bare) := by
  have mem' : Row.expander hidden dir gap ∈ built.rows.map bare := List.mem_map.mpr ⟨_, mem, rfl⟩
  cases hunks with
  | nil =>
    simp only [buildRows, Option.bind_eq_bind, Option.bind_eq_some_iff, Option.pure_def,
      Option.some.injEq] at emitted emitted'
    obtain ⟨rows, unchanged, rfl⟩ := emitted
    obtain ⟨rows', unchanged', rfl⟩ := emitted'
    by_cases none : old.lines = []
    · simp only [unchangedRows, none, if_true, Option.pure_def, Option.some.injEq] at unchanged
      rw [← unchanged] at mem
      cases mem
    · dsimp only at mem ⊢
      rw [unchangedRows_stretch none unchanged] at mem ⊢
      rw [unchangedRows_stretch none unchanged', bare_stretch (.inl rfl), bare_stretch (.inl rfl)]
      obtain ⟨some_, rfl, rfl, rfl⟩ := expander_mem_stretch (.inl rfl) mem
      cases covers with
      | rest forward aligned =>
        have limit := oldSmall
        unfold Source.Small at limit
        rw [toU32_eq (k := _ - _) (by omega)]
        rcases shown_opened (by omega) rfl rfl rfl rfl some_ with ⟨top, bottom⟩ | ⟨meet, all⟩
        · exact opensOnly_stretch some_ (by omega) (by omega) (by omega) (.inl rfl) top bottom (.inl rfl)
        · exact opensOnly_whole some_ (by omega) (by omega) (by omega) (.inl rfl) meet all
  | cons first rest =>
    obtain ⟨group, groups, grouped, covers', laid⟩ := bare_buildRows covers emitted
    obtain ⟨group', groups', grouped', -, laid'⟩ := bare_buildRows covers emitted'
    rw [grouped, Option.some.injEq, List.cons.injEq] at grouped'
    obtain ⟨rfl, rfl⟩ := grouped'
    rw [laid] at mem' ⊢
    rw [laid']
    refine opensOnly_layout oldSmall ?_ covers' mem'
    obtain ⟨all, grouped', -, kept⟩ := groupFrom_eq context ⟨first, []⟩ rest covers
    rw [grouped, Option.some.injEq] at grouped'
    have fewer := length_groups (group :: groups)
    rw [grouped', kept] at fewer
    rw [← grouped', List.length_cons] at fewer
    have same : (Group.hunks ⟨first, []⟩ ++ rest).length = (first :: rest).length := rfl
    omega

end Step

/-! ## Renders of a file -/

section Order

variable {changedRanges old new} {expanded expanded' : Expansions}

theorem windowsFrom_congr (same : ∀ gap, expanded.of gap = expanded'.of gap) (ctx oldLen index oi ni : Nat)
    (groups : List Group) : windowsFrom ctx oldLen expanded index oi ni groups =
      windowsFrom ctx oldLen expanded' index oi ni groups := by
  induction groups generalizing index oi ni with
  | nil => rfl
  | cons group groups ih => simp only [windowsFrom, same, ih]

/-- A diff depends on how far each gap is opened only. -/
theorem buildRows_congr (same : ∀ gap, expanded.of gap = expanded'.of gap) (hunks : List Hunk)
    (context : Nat) : buildRows changedRanges old new hunks context expanded =
      buildRows changedRanges old new hunks context expanded' := by
  cases hunks with
  | nil => simp only [buildRows, unchangedRows, same]
  | cons first rest => simp only [buildRows, windowsFrom_congr same]

end Order

end Parts

section Files

variable {diff : LineDiff} (highlighter : Highlighter) (changedRanges : ChangedRanges)
  (old new : Option (List UInt8)) (lang : Option String) (opts : RenderOpts)

/-- The options with gaps opened further. -/
def openedOpts (openings : List Expansions.Opening) : RenderOpts :=
  { opts with expanded := opts.expanded.openedAll openings }

/-- A side of a diff: its lines, and their spans. -/
def sourceOf (bytes : Option (List UInt8)) : Source :=
  ⟨splitLines (bytes.getD []), spansFor highlighter (shouldHighlight old new
    (splitLines (old.getD [])) (splitLines (new.getD [])) lang) lang (splitLines (bytes.getD []))⟩

variable {old new lang opts}

/-- What the diff says of two files. -/
theorem LineDiff.Sound.diffed (sound : diff.Sound) {oldLines newLines : List Line}
    (oldSmall : oldLines.length ≤ 2147483647) (newSmall : newLines.length ≤ 2147483647)
    (ignoreWhitespace : Bool) : Diffed (key ignoreWhitespace) oldLines newLines
      (diffHunks diff oldLines newLines ignoreWhitespace) where
  script := sound.script _ _
  inOld hunk mem := by
    have inside := (sound.inside _ _ hunk mem).1
    rwa [List.length_map] at inside
  inNew hunk mem := by
    have inside := (sound.inside _ _ hunk mem).2
    rwa [List.length_map] at inside
  oldSmall := oldSmall
  newSmall := newSmall

/-- A hunk takes at least one line. -/
theorem length_hunks {hunks : List Hunk}
    (changes : ∀ hunk ∈ hunks, hunk.beforeStart < hunk.beforeEnd ∨ hunk.afterStart < hunk.afterEnd) :
    hunks.length ≤ removed hunks + inserted hunks := by
  induction hunks with
  | nil => exact Nat.zero_le _
  | cons hunk hunks ih =>
    have change := changes hunk List.mem_cons_self
    have later := ih fun hunk mem => changes hunk (List.mem_cons_of_mem _ mem)
    simp only [removed, inserted, List.map_cons, List.sum_cons, List.length_cons] at later ⊢
    omega

/-- A render with an expander is the diff of two files of text. -/
theorem renderFile_of_expander {rendered : Rendered} {gap hidden : Nat} {dir : ExpandDir}
    (emitted : renderFile diff highlighter changedRanges old new lang opts = some rendered)
    (mem : Row.expander hidden dir gap ∈ rendered.rows) :
    ∃ built, buildRows changedRanges (sourceOf highlighter old new lang old)
        (sourceOf highlighter old new lang new)
        (diffHunks diff (splitLines (old.getD [])) (splitLines (new.getD [])) opts.ignoreWhitespace)
        opts.contextLines opts.expanded = some built ∧
      rendered.rows = built.rows ∧ rendered.counts = some (built.additions, built.deletions) ∧
      ∀ expanded built', buildRows changedRanges (sourceOf highlighter old new lang old)
          (sourceOf highlighter old new lang new) (diffHunks diff (splitLines (old.getD []))
          (splitLines (new.getD [])) opts.ignoreWhitespace) opts.contextLines expanded = some built' →
        ∃ rendered', renderFile diff highlighter changedRanges old new lang
            { opts with expanded } = some rendered' ∧
          rendered'.rows = built'.rows ∧
          rendered'.counts = some (built'.additions, built'.deletions) := by
  unfold renderFile at emitted
  split at emitted
  · cases emitted
    cases mem
  · rename_i textual
    dsimp only at emitted
    split at emitted
    · cases emitted
      cases List.mem_singleton.mp mem
    · rename_i changed
      simp only [Option.bind_eq_bind, Option.bind_eq_some_iff, Option.pure_def,
        Option.some.injEq] at emitted
      obtain ⟨built, built_, rfl⟩ := emitted
      refine ⟨built, built_, rfl, rfl, fun expanded built' built'_ => ?_⟩
      unfold sourceOf at built'_
      refine ⟨⟨.text (toU32 built'.rows.length) CHUNK_ROWS (chunkCount built'.rows.length)
        (shouldHighlight old new (splitLines (old.getD [])) (splitLines (new.getD [])) lang)
        built'.additions built'.deletions (gapsOf built'.rows), built'.rows⟩, ?_, rfl, rfl⟩
      · rw [renderFile, if_neg textual, if_neg changed]
        dsimp only
        rw [built'_]
        rfl

/-- Opening a gap from a row of a render adds the lines of one step to that run and changes
no other row, header texts aside; the order of several openings is of no consequence. -/
theorem renderFile_opened (sound : diff.Sound)
    (oldSmall : (splitLines (old.getD [])).length ≤ 2147483647)
    (newSmall : (splitLines (new.getD [])).length ≤ 2147483647) {rendered : Rendered}
    (emitted : renderFile diff highlighter changedRanges old new lang opts = some rendered)
    {gap hidden : Nat} {dir : ExpandDir} (mem : Row.expander hidden dir gap ∈ rendered.rows)
    (step : Nat) : (∃ rendered', renderFile diff highlighter changedRanges old new lang
        (openedOpts opts [(gap, dir, step)]) = some rendered' ∧
      rendered'.counts = rendered.counts ∧
      OpensOnly (sourceOf highlighter old new lang old) (sourceOf highlighter old new lang new) gap dir
        step hidden (rendered.rows.map bare) (rendered'.rows.map bare)) ∧
    ∀ openings openings' : List Expansions.Opening, openings.Perm openings' →
      renderFile diff highlighter changedRanges old new lang (openedOpts opts openings) =
        renderFile diff highlighter changedRanges old new lang (openedOpts opts openings') := by
  constructor
  · obtain ⟨built, built_, rows, counts, again⟩ :=
      renderFile_of_expander highlighter changedRanges emitted mem
    have diffed := sound.diffed oldSmall newSmall opts.ignoreWhitespace
    obtain ⟨same, same_, -, additions, deletions⟩ := @buildRows_accounts _ _
      (sourceOf highlighter old new lang old) (sourceOf highlighter old new lang new) _ diffed
      changedRanges opts.contextLines opts.expanded
    obtain ⟨built', built'_, -, additions', deletions'⟩ := @buildRows_accounts _ _
      (sourceOf highlighter old new lang old) (sourceOf highlighter old new lang new) _ diffed
      changedRanges opts.contextLines (opts.expanded.opened gap dir step)
    rw [built_, Option.some.injEq] at same_
    obtain ⟨rendered', rendered_, rows', counts'⟩ := again _ _ built'_
    have covers := sound.covers (splitLines (old.getD [])) (splitLines (new.getD []))
      opts.ignoreWhitespace
    have forward := covers.forward
    have fewer := length_hunks (sound.changes
      ((splitLines (old.getD [])).map (key opts.ignoreWhitespace))
      ((splitLines (new.getD [])).map (key opts.ignoreWhitespace)))
    refine ⟨rendered', rendered_, ?_, ?_⟩
    · rw [counts', counts, additions', deletions', same_, additions, deletions]
    · rw [rows, rows']
      rw [rows] at mem
      refine opensOnly_buildRows oldSmall covers ?_ built_ built'_ mem
      unfold diffHunks at *
      omega
  · intro openings openings' perm
    have same := @Expansions.of_openedAll_perm openings openings' perm opts.expanded
    unfold renderFile openedOpts
    dsimp only
    rw [buildRows_congr same]

end Files

/-- How many lines two files begin with in common. -/
def common : List LineKey → List LineKey → Nat
  | left :: lefts, right :: rights => if left = right then common lefts rights + 1 else 0
  | _, _ => 0

/-- A diff that replaces what comes after the common beginning. -/
def replacingRest : LineDiff := fun before after =>
  if before = after then []
  else [⟨common before after, before.length, common before after, after.length⟩]

theorem common_spec (left right : List LineKey) : common left right ≤ left.length ∧
    common left right ≤ right.length ∧ ∀ k < common left right, left[k]? = right[k]? := by
  induction left generalizing right with
  | nil => exact ⟨Nat.zero_le _, Nat.zero_le _, fun k below => by cases below⟩
  | cons head tail ih =>
    cases right with
    | nil => exact ⟨Nat.zero_le _, Nat.zero_le _, fun k below => by cases below⟩
    | cons head' tail' =>
      unfold common
      split
      · rename_i same
        obtain ⟨first, second, agree⟩ := ih tail'
        refine ⟨Nat.succ_le_succ first, Nat.succ_le_succ second, fun k below => ?_⟩
        cases k with
        | zero => rw [same, List.getElem?_cons_zero, List.getElem?_cons_zero]
        | succ k =>
          rw [List.getElem?_cons_succ, List.getElem?_cons_succ]
          exact agree k (by omega)
      · exact ⟨Nat.zero_le _, Nat.zero_le _, fun k below => by cases below⟩

theorem replacingRest_sound : replacingRest.Sound where
  script before after := by
    unfold replacingRest
    split
    next same =>
      rw [same]
      exact .refl
    next =>
      obtain ⟨inBefore, inAfter, agree⟩ := common_spec before after
      refine .hunk (Nat.zero_le _) rfl (fun k below => ?_) inBefore inAfter
        (.rest (by rw [List.drop_length, List.drop_length]))
      rw [Nat.zero_add] at below ⊢
      exact agree k below
  inside before after hunk mem := by
    unfold replacingRest at mem
    split at mem
    · cases mem
    · obtain rfl := List.mem_singleton.mp mem
      exact ⟨Nat.le_refl _, Nat.le_refl _⟩
  changes before after hunk mem := by
    unfold replacingRest at mem
    split at mem
    · cases mem
    · rename_i differ
      obtain rfl := List.mem_singleton.mp mem
      obtain ⟨inBefore, inAfter, agree⟩ := common_spec before after
      by_contra none
      dsimp only at none
      refine differ (List.ext_getElem? fun k => ?_)
      by_cases below : k < common before after
      · exact agree k below
      · rw [List.getElem?_eq_none (by omega), List.getElem?_eq_none (by omega)]
  unchanged keys := if_pos rfl

/-- Of three lines the last one changed, and the first two are hidden. -/
theorem hidden_letters : (renderFile replacingRest (fun _ _ => []) (fun _ _ => ([], []))
    (some [97, 10, 98, 10, 99, 10]) (some [97, 10, 98, 10, 100, 10]) none ⟨false, 0, ⟨[]⟩⟩).any
      (fun rendered => Row.expander 2 .up 0 ∈ rendered.rows) = true := by
  decide

/-- Three lines, the last one changed. -/
theorem renderFile_opened_letters : ∃ rendered rendered',
    renderFile replacingRest (fun _ _ => []) (fun _ _ => ([], [])) (some [97, 10, 98, 10, 99, 10])
      (some [97, 10, 98, 10, 100, 10]) none ⟨false, 0, ⟨[]⟩⟩ = some rendered ∧
    renderFile replacingRest (fun _ _ => []) (fun _ _ => ([], [])) (some [97, 10, 98, 10, 99, 10])
      (some [97, 10, 98, 10, 100, 10]) none (openedOpts ⟨false, 0, ⟨[]⟩⟩ [(0, .up, 1)]) =
        some rendered' ∧
    OpensOnly (sourceOf (fun _ _ => []) (some [97, 10, 98, 10, 99, 10])
        (some [97, 10, 98, 10, 100, 10]) none (some [97, 10, 98, 10, 99, 10]))
      (sourceOf (fun _ _ => []) (some [97, 10, 98, 10, 99, 10]) (some [97, 10, 98, 10, 100, 10]) none
        (some [97, 10, 98, 10, 100, 10])) 0 .up 1 2 (rendered.rows.map bare)
      (rendered'.rows.map bare) := by
  obtain ⟨rendered, emitted, mem⟩ := (Option.any_eq_true _ _).mp hidden_letters
  obtain ⟨⟨rendered', emitted', -, opens⟩, -⟩ := renderFile_opened (fun _ _ => [])
    (fun _ _ => ([], [])) replacingRest_sound (by decide) (by decide) emitted
    (of_decide_eq_true mem) 1
  exact ⟨rendered, rendered', emitted, emitted', opens⟩

end Nits.ReviewCore
