import Mathlib.Data.List.Find
import Nits.Logical.Offsets
import Nits.Protocol.Render

/-!
# Marks on a line

The UI cuts a cell's text at every boundary of its spans and changed ranges. The ranges
are byte offsets into the text; the UI reads them as offsets into its own strings, whose
units are UTF-16 code units.
-/

namespace Nits.Ui

open Logical Protocol

/-! ## Strings -/

/-- The code units of a character: one, or a surrogate pair outside the basic plane. -/
def utf16 (char : Char) : List UInt16 :=
  if char.toNat < 0x10000 then [UInt16.ofNat char.toNat]
  else [UInt16.ofNat (0xD800 + (char.toNat - 0x10000) / 0x400),
    UInt16.ofNat (0xDC00 + (char.toNat - 0x10000) % 0x400)]

/-- A text as the UI holds it. -/
def jsString (text : String) : List UInt16 := text.toList.flatMap utf16

/-- `String.slice` for `start` and `finish` in order, within the string. -/
def slice (units : List UInt16) (start finish : Nat) : List UInt16 :=
  (units.drop start).take (finish - start)

/-! ## Pieces -/

/-- A part of a cell's text that no boundary cuts. -/
structure Piece where
  text : List UInt16
  class_ : Option SpanClass
  changed : Bool

section Pieces

variable (cell : Cell)

def piece (start cut : Nat) : Piece where
  text := slice (jsString cell.text) start cut
  class_ := (cell.spans.find? fun span => span.range.start ≤ start && cut ≤ span.range.finish).map
    Span.class_
  changed := cell.changed.any fun range => range.start ≤ start && cut ≤ range.finish

/-- The pieces between the cuts, in order; `prev` is the last cut met. -/
def piecesFrom : Option Nat → List Nat → List Piece
  | _, [] => []
  | none, cut :: cuts => piecesFrom (some cut) cuts
  | some prev, cut :: cuts =>
    if cut = prev then piecesFrom (some prev) cuts
    else if prev < cut then piece cell prev cut :: piecesFrom (some cut) cuts
    else piecesFrom (some cut) cuts

/-- Where spans and changed ranges begin and end. -/
def ends : List Nat :=
  (cell.spans.flatMap fun span => [span.range.start, span.range.finish]) ++
    cell.changed.flatMap fun range => [range.start, range.finish]

def pieces : List Piece :=
  let len := (jsString cell.text).length
  let cuts := [0, len] ++ ends cell
  piecesFrom cell none ((cuts.filter fun cut => cut ≤ len).insertionSort fun left right => left ≤ right)

end Pieces

/-! ## What is drawn -/

/-- A code unit as it is drawn. -/
structure Drawn where
  unit : UInt16
  class_ : Option SpanClass
  changed : Bool
  deriving DecidableEq

def Piece.drawn (piece : Piece) : List Drawn :=
  piece.text.map fun unit => ⟨unit, piece.class_, piece.changed⟩

/-- The units of a line in order, each as it is drawn. -/
def drawn (pieces : List Piece) : List Drawn := pieces.flatMap Piece.drawn

theorem units_drawn (pieces : List Piece) :
    (drawn pieces).map Drawn.unit = pieces.flatMap Piece.text := by
  rw [drawn, List.map_flatMap]
  refine congrArg (List.flatMap · pieces) (funext fun piece => ?_)
  rw [Piece.drawn, List.map_map]
  exact List.map_id _

section Spec

variable (cell : Cell)

/-- How the unit at an index is drawn. -/
def drawnAt (index : Nat) : Drawn where
  unit := (jsString cell.text).getD index 0
  class_ := (cell.spans.find? fun span =>
    span.range.start ≤ index && index < span.range.finish).map Span.class_
  changed := cell.changed.any fun range => range.start ≤ index && index < range.finish

variable {cell}

/-- Where no boundary lies inside, a piece is in a range if each of its units is. -/
theorem piece_inside {start cut : Nat} {range : ColRange} {index : Nat} (above : start ≤ index)
    (below : index < cut) (left : range.start ≤ start ∨ cut ≤ range.start)
    (right : range.finish ≤ start ∨ cut ≤ range.finish) :
    (range.start ≤ start && cut ≤ range.finish) = (range.start ≤ index && index < range.finish) := by
  rw [Bool.eq_iff_iff, Bool.and_eq_true, Bool.and_eq_true]
  simp only [decide_eq_true_eq]
  omega

theorem piece_drawn {start cut : Nat} (within : cut ≤ (jsString cell.text).length)
    (uncut : ∀ bound ∈ ends cell, bound ≤ start ∨ cut ≤ bound) :
    (piece cell start cut).drawn = (List.range' start (cut - start)).map (drawnAt cell) := by
  have text : (piece cell start cut).text = (List.range' start (cut - start)).map fun index =>
      (jsString cell.text).getD index 0 := by
    refine List.ext_getElem ?_ fun index below below' => ?_
    · rw [piece, slice, List.length_take, List.length_drop, List.length_map, List.length_range']
      omega
    · rw [List.length_map, List.length_range'] at below'
      have inside : start + index < (jsString cell.text).length := by omega
      simp [piece, slice, inside]
  rw [Piece.drawn, text, List.map_map]
  refine List.map_congr_left fun index mem => ?_
  have mem := List.mem_range'_1.mp mem
  rw [Function.comp_apply, drawnAt]
  have spans : ∀ span ∈ cell.spans, (span.range.start ≤ start && cut ≤ span.range.finish) =
      (span.range.start ≤ index && index < span.range.finish) := by
    intro span held
    have bounds : ∀ bound ∈ [span.range.start, span.range.finish], bound ∈ ends cell :=
      fun bound here => List.mem_append_left _ (List.mem_flatMap.mpr ⟨span, held, here⟩)
    exact piece_inside mem.1 (by omega) (uncut _ (bounds _ (by simp)))
      (uncut _ (bounds _ (by simp)))
  have changed : ∀ range ∈ cell.changed, (range.start ≤ start && cut ≤ range.finish) =
      (range.start ≤ index && index < range.finish) := by
    intro range held
    have bounds : ∀ bound ∈ [range.start, range.finish], bound ∈ ends cell :=
      fun bound here => List.mem_append_right _ (List.mem_flatMap.mpr ⟨range, held, here⟩)
    exact piece_inside mem.1 (by omega) (uncut _ (bounds _ (by simp)))
      (uncut _ (bounds _ (by simp)))
  have found : cell.spans.find? (fun span => span.range.start ≤ start && cut ≤ span.range.finish) =
      cell.spans.find? fun span => span.range.start ≤ index && index < span.range.finish :=
    List.find?_congr spans
  have any : cell.changed.any (fun range => range.start ≤ start && cut ≤ range.finish) =
      cell.changed.any fun range => range.start ≤ index && index < range.finish := by
    rw [Bool.eq_iff_iff, List.any_eq_true, List.any_eq_true]
    exact exists_congr fun range => and_congr_right fun held => by rw [changed range held]
  rw [piece, found, any]

/-- From a cut on, sorted cuts that hold every boundary and the end of the text give each
unit once. -/
theorem drawn_piecesFrom {start : Nat} {cuts : List Nat}
    (within : start ≤ (jsString cell.text).length)
    (sorted : cuts.Pairwise (· ≤ ·)) (range : ∀ cut ∈ cuts, start ≤ cut ∧
      cut ≤ (jsString cell.text).length)
    (ends_ : start = (jsString cell.text).length ∨ (jsString cell.text).length ∈ cuts)
    (bounds : ∀ bound ∈ ends cell, bound ≤ (jsString cell.text).length → bound ≤ start ∨
      bound ∈ cuts) : drawn (piecesFrom cell (some start) cuts) =
      (List.range' start ((jsString cell.text).length - start)).map (drawnAt cell) := by
  induction cuts generalizing start with
  | nil =>
    have done : start = (jsString cell.text).length := by simpa using ends_
    rw [done, Nat.sub_self]
    rfl
  | cons cut cuts ih =>
    obtain ⟨above, below⟩ := range cut List.mem_cons_self
    obtain ⟨later, sorted⟩ := List.pairwise_cons.mp sorted
    have range' : ∀ next ∈ cuts, cut ≤ next ∧ next ≤ (jsString cell.text).length :=
      fun next mem => ⟨later next mem, (range next (List.mem_cons_of_mem _ mem)).2⟩
    unfold piecesFrom
    split_ifs with same ahead
    · subst same
      refine ih within sorted range' ?_ fun bound held inside => ?_
      · rcases ends_ with done | mem
        · exact .inl done
        · exact (List.mem_cons.mp mem).imp Eq.symm id
      · rcases bounds bound held inside with before | mem
        · exact .inl before
        · exact (List.mem_cons.mp mem).imp Nat.le_of_eq id
    · have uncut : ∀ bound ∈ ends cell, bound ≤ start ∨ cut ≤ bound := by
        intro bound held
        by_cases inside : bound ≤ (jsString cell.text).length
        · rcases bounds bound held inside with before | mem
          · exact .inl before
          · rcases List.mem_cons.mp mem with rfl | mem
            · exact .inr (Nat.le_refl _)
            · exact .inr (later bound mem)
        · exact .inr (by omega)
      have rest := ih below sorted range' (by
          rcases ends_ with done | mem
          · omega
          · exact (List.mem_cons.mp mem).imp Eq.symm id) (by
          intro bound held inside
          rcases bounds bound held inside with before | mem
          · exact .inl (by omega)
          · exact (List.mem_cons.mp mem).imp Nat.le_of_eq id)
      rw [drawn, List.flatMap_cons, ← drawn, rest, piece_drawn below uncut, ← List.map_append]
      have joined := @List.range'_append_1 start (cut - start) ((jsString cell.text).length - cut)
      rw [show start + (cut - start) = cut by omega,
        show cut - start + ((jsString cell.text).length - cut) =
          (jsString cell.text).length - start by omega] at joined
      rw [joined]
    · omega

/-- Every unit of the text is drawn once, marked by the ranges read as offsets of units. -/
theorem drawn_pieces (cell : Cell) :
    drawn (pieces cell) = (List.range (jsString cell.text).length).map (drawnAt cell) := by
  unfold pieces
  dsimp only
  generalize cuts_ : ([0, (jsString cell.text).length] ++ ends cell).filter
    (fun cut => decide (cut ≤ (jsString cell.text).length)) = cuts
  have inCuts (cut : Nat) : cut ∈ cuts.insertionSort (fun left right => left ≤ right) ↔
      (cut = 0 ∨ cut = (jsString cell.text).length ∨ cut ∈ ends cell) ∧
        cut ≤ (jsString cell.text).length := by
    rw [List.mem_insertionSort, ← cuts_, List.mem_filter]
    simp
  have sorted := List.pairwise_insertionSort (fun left right : Nat => left ≤ right) cuts
  cases order : cuts.insertionSort fun left right => left ≤ right with
  | nil =>
    have none := (inCuts 0).mpr ⟨.inl rfl, Nat.zero_le _⟩
    rw [order] at none
    cases none
  | cons first rest =>
    rw [order] at sorted
    obtain ⟨later, ordered⟩ := List.pairwise_cons.mp sorted
    have split (cut : Nat) : cut = first ∨ cut ∈ rest ↔
        (cut = 0 ∨ cut = (jsString cell.text).length ∨ cut ∈ ends cell) ∧
          cut ≤ (jsString cell.text).length := by
      rw [← inCuts, order, List.mem_cons]
    have zero : first = 0 := by
      rcases (split 0).mpr ⟨.inl rfl, Nat.zero_le _⟩ with same | mem
      · exact same.symm
      · have := later 0 mem
        omega
    subst zero
    rw [piecesFrom, drawn_piecesFrom (Nat.zero_le _) ordered, Nat.sub_zero, List.range_eq_range']
    · exact fun cut mem => ⟨Nat.zero_le _, ((split cut).mp (.inr mem)).2⟩
    · exact ((split _).mpr ⟨.inr (.inl rfl), Nat.le_refl _⟩).imp Eq.symm id
    · exact fun bound held inside => ((split bound).mpr ⟨.inr (.inr held), inside⟩).imp
        Nat.le_of_eq id

/-- The pieces are the text. -/
theorem text_pieces (cell : Cell) : (pieces cell).flatMap Piece.text = jsString cell.text := by
  rw [← units_drawn, drawn_pieces, List.map_map]
  refine List.ext_getElem (by simp) fun index below below' => ?_
  simp [drawnAt, below']

end Spec

/-! ## Characters -/

def units (char : Char) : Nat := (utf16 char).length

theorem units_eq (char : Char) : units char = if char.toNat < 0x10000 then 1 else 2 := by
  unfold units utf16
  split <;> rfl

theorem utf8Size_eq (char : Char) : char.utf8Size =
    if char.toNat < 0x80 then 1 else if char.toNat < 0x800 then 2
    else if char.toNat < 0x10000 then 3 else 4 := by
  have bound (limit : UInt32) : char.val ≤ limit ↔ char.toNat < limit.toNat + 1 := by
    rw [UInt32.le_iff_toNat_le, Nat.lt_succ_iff]
    rfl
  rw [Char.utf8Size]
  simp only [bound]
  rfl

/-- A character takes as many units as bytes only if it takes one of each. -/
theorem measures : Measures Char.utf8Size units where
  positive char := by
    rw [units_eq]
    split <;> omega
  le char := by
    rw [units_eq, utf8Size_eq]
    split_ifs <;> omega
  single char := by
    rw [units_eq, utf8Size_eq]
    split_ifs <;> omega

theorem units_eq_utf8Size_iff (char : Char) : units char = char.utf8Size ↔ char.toNat < 0x80 := by
  rw [units_eq, utf8Size_eq]
  split_ifs <;> omega

/-- The characters of a text before the first one of more than one byte. -/
def asciiPrefix (text : String) : List Char := text.toList.takeWhile fun char => char.toNat < 0x80

theorem asciiPrefix_eq (text : String) :
    asciiPrefix text = agreeing Char.utf8Size units text.toList := by
  unfold asciiPrefix agreeing
  refine congrArg (List.takeWhile · text.toList) (funext fun char => ?_)
  simp only [units_eq_utf8Size_iff]

/-! ## Marks -/

/-- Sorted, disjoint ranges of a text's bytes, on character boundaries. -/
structure RangesOf (text : String) (ranges : List ColRange) : Prop where
  apart : ranges.Pairwise fun left right => left.finish ≤ right.start
  start : ∀ range ∈ ranges, IsBoundary Char.utf8Size text.toList range.start
  finish : ∀ range ∈ ranges, IsBoundary Char.utf8Size text.toList range.finish

/-- A cell as the daemon renders it. -/
structure Marked (cell : Cell) : Prop where
  spans : RangesOf cell.text (cell.spans.map Span.range)
  changed : RangesOf cell.text cell.changed

/-- The bytes of the character behind `before` lie in the range. -/
def Lies (range : ColRange) (before : List Char) (char : Char) : Prop :=
  range.start ≤ extent Char.utf8Size before ∧
    extent Char.utf8Size before + char.utf8Size ≤ range.finish

/-- The pieces are the text, and each unit of a character is drawn as changed, or with a
class, exactly when the bytes of the character lie in a changed range, or in a span of the
class. -/
def MarksShown (cell : Cell) : Prop :=
  (pieces cell).flatMap Piece.text = jsString cell.text ∧
  ∀ before char after, cell.text.toList = before ++ char :: after →
    ∀ shown ∈ ((drawn (pieces cell)).drop (extent units before)).take (units char),
      (shown.changed ↔ ∃ range ∈ cell.changed, Lies range before char) ∧
      ∀ class_, shown.class_ = some class_ ↔
        ∃ span ∈ cell.spans, span.class_ = class_ ∧ Lies span.range before char

/-- The offsets in the changed ranges. -/
def ChangedAt (cell : Cell) (offset : Nat) : Prop :=
  ∃ range ∈ cell.changed, range.start ≤ offset ∧ offset < range.finish

/-- The offsets in the spans of a class. -/
def ClassAt (cell : Cell) (class_ : SpanClass) (offset : Nat) : Prop :=
  ∃ span ∈ cell.spans, span.class_ = class_ ∧ span.range.start ≤ offset ∧ offset < span.range.finish

section Marks

variable {cell : Cell}

theorem RangesOf.lies_iff {text : String} {ranges : List ColRange} (rangesOf : RangesOf text ranges)
    {range : ColRange} (mem : range ∈ ranges) {before after : List Char} {char : Char}
    (split : text.toList = before ++ char :: after) {offset : Nat}
    (above : extent Char.utf8Size before ≤ offset)
    (below : offset < extent Char.utf8Size before + char.utf8Size) :
    (range.start ≤ offset ∧ offset < range.finish) ↔ Lies range before char := by
  have start := (rangesOf.start range mem).outside split
  have finish := (rangesOf.finish range mem).outside split
  unfold Lies
  omega

theorem Marked.whole_changed (marked : Marked cell) :
    Whole Char.utf8Size (ChangedAt cell) cell.text.toList := by
  intro before char after split offset above below
  refine exists_congr fun range => and_congr_right fun held => ?_
  rw [marked.changed.lies_iff held split above below,
    marked.changed.lies_iff held split (Nat.le_refl _) (by omega)]

theorem Marked.whole_class (marked : Marked cell) (class_ : SpanClass) :
    Whole Char.utf8Size (ClassAt cell class_) cell.text.toList := by
  intro before char after split offset above below
  refine exists_congr fun span => and_congr_right fun held => and_congr_right fun _ => ?_
  have mem := List.mem_map_of_mem (f := Span.range) held
  rw [marked.spans.lies_iff mem split above below,
    marked.spans.lies_iff mem split (Nat.le_refl _) (by omega)]

/-- At most one span holds an offset. -/
theorem span_unique {spans : List Span}
    (apart : (spans.map Span.range).Pairwise fun left right => left.finish ≤ right.start)
    {offset : Nat} {span other : Span} (mem : span ∈ spans) (mem' : other ∈ spans)
    (inside : span.range.start ≤ offset ∧ offset < span.range.finish)
    (inside' : other.range.start ≤ offset ∧ offset < other.range.finish) : span = other := by
  induction spans with
  | nil => cases mem
  | cons head tail ih =>
    rw [List.map_cons, List.pairwise_cons] at apart
    rcases List.mem_cons.mp mem with rfl | later <;>
      rcases List.mem_cons.mp mem' with rfl | later'
    · rfl
    · have after := apart.1 _ (List.mem_map_of_mem later')
      omega
    · have after := apart.1 _ (List.mem_map_of_mem later)
      omega
    · exact ih apart.2 later later'

theorem class_drawnAt (marked : Marked cell) (index : Nat) (class_ : SpanClass) :
    (drawnAt cell index).class_ = some class_ ↔ ClassAt cell class_ index := by
  unfold drawnAt ClassAt
  rw [Option.map_eq_some_iff]
  constructor
  · rintro ⟨span, found, rfl⟩
    have inside := List.find?_some found
    rw [Bool.and_eq_true, decide_eq_true_eq, decide_eq_true_eq] at inside
    exact ⟨span, List.mem_of_find?_eq_some found, rfl, inside⟩
  · rintro ⟨span, held, rfl, inside⟩
    have some_ : (cell.spans.find? fun span =>
        span.range.start ≤ index && index < span.range.finish).isSome := by
      rw [List.find?_isSome]
      exact ⟨span, held, by simpa using inside⟩
    obtain ⟨other, found⟩ := Option.isSome_iff_exists.mp some_
    have inside' := List.find?_some found
    rw [Bool.and_eq_true, decide_eq_true_eq, decide_eq_true_eq] at inside'
    have same := span_unique marked.spans.apart held (List.mem_of_find?_eq_some found) inside inside'
    exact ⟨other, found, by rw [same]⟩

theorem changed_drawnAt (index : Nat) : (drawnAt cell index).changed ↔ ChangedAt cell index := by
  simp [drawnAt, ChangedAt]

theorem length_jsString (text : String) : (jsString text).length = extent units text.toList := by
  rw [jsString, List.length_flatMap]
  rfl

theorem mem_drawn_iff {start count : Nat} {shown : Drawn}
    (within : start + count ≤ (jsString cell.text).length) :
    shown ∈ ((drawn (pieces cell)).drop start).take count ↔
      ∃ index, start ≤ index ∧ index < start + count ∧ drawnAt cell index = shown := by
  have cut : ((List.range (jsString cell.text).length).drop start).take count =
      List.range' start count := by
    refine List.ext_getElem (by simp; omega) fun index below below' => ?_
    simp
  rw [drawn_pieces, ← List.map_drop, ← List.map_take, cut, List.mem_map]
  simp only [List.mem_range'_1, and_assoc]

theorem length_asciiPrefix (text : String) : (asciiPrefix text).length =
    extent Char.utf8Size (agreeing Char.utf8Size units text.toList) := by
  rw [← asciiPrefix_eq, asciiPrefix]
  induction text.toList with
  | nil => rfl
  | cons char chars ih =>
    by_cases ascii : char.toNat < 0x80
    · rw [List.takeWhile_cons_of_pos (by simpa using ascii), List.length_cons, extent_cons,
        ih, utf8Size_eq, if_pos ascii]
      omega
    · rw [List.takeWhile_cons_of_neg (by simpa using ascii)]
      rfl

/-- The marks are shown when every set of marked bytes marks the same units. -/
theorem marksShown_iff_transfers (marked : Marked cell) : MarksShown cell ↔
    Transfers Char.utf8Size units (ChangedAt cell) cell.text.toList ∧
    ∀ class_, Transfers Char.utf8Size units (ClassAt cell class_) cell.text.toList := by
  have within {before after : List Char} {char : Char}
      (split : cell.text.toList = before ++ char :: after) :
      extent units before + units char ≤ (jsString cell.text).length := by
    rw [length_jsString, split, extent_append, extent_cons]
    omega
  have changed {before after : List Char} {char : Char}
      (split : cell.text.toList = before ++ char :: after) :
      ChangedAt cell (extent Char.utf8Size before) ↔
        ∃ range ∈ cell.changed, Lies range before char := by
    have positive := Nat.lt_of_lt_of_le (measures.positive char) (measures.le char)
    exact exists_congr fun range => and_congr_right fun held =>
      marked.changed.lies_iff held split (Nat.le_refl _) (by omega)
  have classed {before after : List Char} {char : Char}
      (split : cell.text.toList = before ++ char :: after) (class_ : SpanClass) :
      ClassAt cell class_ (extent Char.utf8Size before) ↔
        ∃ span ∈ cell.spans, span.class_ = class_ ∧ Lies span.range before char := by
    have positive := Nat.lt_of_lt_of_le (measures.positive char) (measures.le char)
    exact exists_congr fun span => and_congr_right fun held => and_congr_right fun _ =>
      marked.spans.lies_iff (List.mem_map_of_mem held) split (Nat.le_refl _) (by omega)
  constructor
  · rintro ⟨-, shown⟩
    constructor
    · intro before char after split offset above below
      have here := shown before char after split (drawnAt cell offset)
        ((mem_drawn_iff (within split)).mpr ⟨offset, above, below, rfl⟩)
      rw [changed split, ← here.1, changed_drawnAt]
    · intro class_ before char after split offset above below
      have here := shown before char after split (drawnAt cell offset)
        ((mem_drawn_iff (within split)).mpr ⟨offset, above, below, rfl⟩)
      rw [classed split, ← here.2, class_drawnAt marked]
  · rintro ⟨transfers, transfers'⟩
    refine ⟨text_pieces cell, fun before char after split shown mem => ?_⟩
    obtain ⟨offset, above, below, rfl⟩ := (mem_drawn_iff (within split)).mp mem
    constructor
    · rw [changed_drawnAt, ← changed split]
      exact transfers before char after split offset above below
    · intro class_
      rw [class_drawnAt marked, ← classed split]
      exact transfers' class_ before char after split offset above below

/-- The UI marks the characters that the ranges name exactly when, from the first character
of more than one byte to the end of the line, everything is changed or nothing is, and
everything has a class or nothing has it. -/
theorem marksShown_iff (marked : Marked cell) : MarksShown cell ↔
    Uniform (ChangedAt cell) (asciiPrefix cell.text).length
      (extent Char.utf8Size cell.text.toList) ∧
    ∀ class_, Uniform (ClassAt cell class_) (asciiPrefix cell.text).length
      (extent Char.utf8Size cell.text.toList) := by
  rw [marksShown_iff_transfers marked, length_asciiPrefix, transfers_iff measures
    marked.whole_changed]
  exact and_congr_right fun _ => forall_congr' fun class_ =>
    transfers_iff measures (marked.whole_class class_)

end Marks

/-- The last character of a line of three changed, behind a first one. -/
def lastChanged (first : String) (start : Nat) : Cell where
  lineNo := LineNo.fromIndex 0
  text := first ++ " x"
  ending := .lf
  spans := []
  changed := [⟨start, start + 1, Nat.le_succ start⟩]

theorem lastChanged_marked {first : String} {start : Nat}
    (boundary : extent Char.utf8Size (first ++ " ").toList = start) :
    Marked (lastChanged first start) where
  spans := ⟨List.Pairwise.nil, by simp [lastChanged], by simp [lastChanged]⟩
  changed := by
    refine ⟨List.pairwise_singleton _ _, ?_, ?_⟩ <;>
      rintro range mem <;> obtain rfl := List.mem_singleton.mp mem
    · exact ⟨(first ++ " ").toList, ['x'], by simp [lastChanged], boundary⟩
    · refine ⟨(first ++ " ").toList ++ ['x'], [], by simp [lastChanged], ?_⟩
      rw [extent_append, boundary]
      rfl

/-- A letter is marked. -/
theorem marksShown_letters : MarksShown (lastChanged "e" 2) ↔
    Uniform (ChangedAt (lastChanged "e" 2)) (asciiPrefix (lastChanged "e" 2).text).length
      (extent Char.utf8Size (lastChanged "e" 2).text.toList) ∧
    ∀ class_, Uniform (ClassAt (lastChanged "e" 2) class_)
      (asciiPrefix (lastChanged "e" 2).text).length
      (extent Char.utf8Size (lastChanged "e" 2).text.toList) :=
  marksShown_iff (lastChanged_marked (by decide))

/-- Behind an `é` the mark on an `x` falls off the line. -/
theorem accent_unmarked : Marked (lastChanged "é" 3) ∧ ¬ MarksShown (lastChanged "é" 3) := by
  refine ⟨lastChanged_marked (by decide), fun shown => ?_⟩
  have last := (shown.2 ['é', ' '] 'x' [] (by decide) ⟨120, none, false⟩ (by decide)).1
  have inside : ∃ range ∈ (lastChanged "é" 3).changed, Lies range ['é', ' '] 'x' :=
    ⟨⟨3, 4, by decide⟩, List.mem_singleton.mpr rfl, by unfold Lies; decide⟩
  exact absurd (last.mpr inside) (by decide)

end Nits.Ui
