import Nits.Logical.EditScript
import Nits.Logical.Offsets

/-!
# What a set of offsets leaves

The items of a sequence have a width. A set of offsets spares the items that do not start
in it. What it spares of a concatenation is what it spares of the parts; when it takes
whole parts only, what it spares is the concatenation of the parts it spares.
-/

namespace Nits.Logical

variable {α β : Type}

/-- The items that start at no touched offset. -/
def spare (measure : α → Nat) (touched : Nat → Bool) : Nat → List α → List α
  | _, [] => []
  | offset, item :: items =>
    if touched offset then spare measure touched (offset + measure item) items
    else item :: spare measure touched (offset + measure item) items

section Spare

variable {measure : α → Nat} {touched other : Nat → Bool}

theorem spare_append (offset : Nat) (items others : List α) :
    spare measure touched offset (items ++ others) =
      spare measure touched offset items ++
        spare measure touched (offset + extent measure items) others := by
  induction items generalizing offset with
  | nil => simp [spare]
  | cons item items ih =>
    have later := ih (offset + measure item)
    rw [Nat.add_assoc, ← extent_cons] at later
    simp only [List.cons_append, spare, later]
    split <;> rfl

/-- An item starts inside what the list takes up. -/
theorem spare_congr (positive : ∀ item, 0 < measure item) {offset : Nat} {items : List α}
    (agree : ∀ position, offset ≤ position → position < offset + extent measure items →
      touched position = other position) :
    spare measure touched offset items = spare measure other offset items := by
  induction items generalizing offset with
  | nil => rfl
  | cons item items ih =>
    have width := positive item
    rw [extent_cons] at agree
    have here := agree offset (Nat.le_refl _) (by omega)
    have later := @ih (offset + measure item) fun position above below =>
      agree position (by omega) (by omega)
    simp only [spare, here, later]

theorem spare_nothing (offset : Nat) (items : List α) :
    spare measure (fun _ => false) offset items = items := by
  induction items generalizing offset with
  | nil => rfl
  | cons item items ih => simp [spare, ih]

theorem spare_everything (offset : Nat) (items : List α) :
    spare measure (fun _ => true) offset items = [] := by
  induction items generalizing offset with
  | nil => rfl
  | cons item items ih => simp [spare, ih]

theorem spare_of_untouched (positive : ∀ item, 0 < measure item) {offset : Nat} {items : List α}
    (untouched : ∀ position, offset ≤ position → position < offset + extent measure items →
      touched position = false) : spare measure touched offset items = items :=
  (spare_congr positive untouched).trans (spare_nothing offset items)

theorem spare_of_touched (positive : ∀ item, 0 < measure item) {offset : Nat} {items : List α}
    (all : ∀ position, offset ≤ position → position < offset + extent measure items →
      touched position = true) : spare measure touched offset items = [] :=
  (spare_congr positive all).trans (spare_everything offset items)

theorem spare_map {measure : β → Nat} (f : α → β) (offset : Nat) (items : List α) :
    spare measure touched offset (items.map f) =
      (spare (measure ∘ f) touched offset items).map f := by
  induction items generalizing offset with
  | nil => rfl
  | cons item items ih =>
    simp only [List.map_cons, spare, ih, Function.comp_apply]
    split <;> rfl

/-- Where whole pieces are touched, or spared, sparing items is sparing pieces. -/
theorem spare_flatten (positive : ∀ item, 0 < measure item) {offset index : Nat}
    {pieces : List (List α)} {covered : Nat → Bool}
    (whole : ∀ before piece after, pieces = before ++ piece :: after →
      ∀ position, offset + extent measure before.flatten ≤ position →
        position < offset + extent measure (before.flatten ++ piece) →
        touched position = covered (index + before.length)) :
    spare measure touched offset pieces.flatten =
      (spare (fun _ => 1) covered index pieces).flatten := by
  induction pieces generalizing offset index with
  | nil => rfl
  | cons piece pieces ih =>
    have here := whole [] piece pieces rfl
    simp only [List.flatten_nil, List.nil_append, extent_nil, Nat.add_zero, List.length_nil] at here
    have later : spare measure touched (offset + extent measure piece) pieces.flatten =
        (spare (fun _ => 1) covered (index + 1) pieces).flatten := by
      apply ih
      intro before next after split position above below
      have reached := whole (piece :: before) next after (by rw [split, List.cons_append]) position
      simp only [List.flatten_cons, extent_append, List.length_cons] at reached above below
      rw [reached (by omega) (by omega)]
      congr 1
      omega
    rw [List.flatten_cons, spare_append, later, spare]
    split
    next taken =>
      rw [spare_of_touched positive fun position above below => (here position above below).trans taken]
      rfl
    next kept =>
      rw [spare_of_untouched positive fun position above below =>
        (here position above below).trans (Bool.eq_false_iff.mpr kept)]
      rfl

end Spare

theorem extent_one (items : List α) : extent (fun _ => 1) items = items.length := by
  simp [extent]

/-! ## Both sides of a script -/

/-- An index inside one of the spans. -/
def within (spans : List (Nat × Nat)) (index : Nat) : Bool :=
  spans.any fun span => span.1 ≤ index && index < span.2

theorem within_iff {spans : List (Nat × Nat)} {index : Nat} :
    within spans index = true ↔ ∃ span ∈ spans, span.1 ≤ index ∧ index < span.2 := by
  simp [within]

@[simp] theorem within_nil (index : Nat) : within [] index = false := rfl

theorem within_cons (span : Nat × Nat) (spans : List (Nat × Nat)) (index : Nat) :
    within (span :: spans) index =
      (decide (span.1 ≤ index) && decide (index < span.2) || within spans index) := rfl

def Hunk.before (hunk : Hunk) : Nat × Nat := (hunk.beforeStart, hunk.beforeEnd)

def Hunk.after (hunk : Hunk) : Nat × Nat := (hunk.afterStart, hunk.afterEnd)

/-- Spans in order from a position on. -/
def SpansFrom : Nat → List (Nat × Nat) → Prop
  | _, [] => True
  | position, span :: spans => position ≤ span.1 ∧ span.1 ≤ span.2 ∧ SpansFrom span.2 spans

theorem SpansFrom.untouched {position index : Nat} {spans : List (Nat × Nat)}
    (ordered : SpansFrom position spans) (below : index < position) : within spans index = false := by
  induction spans generalizing position with
  | nil => rfl
  | cons span spans ih =>
    obtain ⟨start, width, later⟩ := ordered
    have later := ih later (by omega)
    rw [within_cons, later]
    simp only [Bool.or_false, Bool.and_eq_false_iff, decide_eq_false_iff_not]
    omega

/-- Spans in order spare what is ahead of the first one, and what the others spare of what
is behind it. -/
theorem spare_span {position : Nat} {spans : List (Nat × Nat)} {untouched part rest : List α}
    (later : SpansFrom (position + untouched.length + part.length) spans) : spare (fun _ => 1)
        (within ((position + untouched.length, position + untouched.length + part.length) :: spans))
        position (untouched ++ (part ++ rest)) =
      untouched ++
        spare (fun _ => 1) (within spans) (position + untouched.length + part.length) rest := by
  rw [spare_append, spare_append, extent_one, extent_one]
  congr 1
  · refine spare_of_untouched (fun _ => Nat.one_pos) fun index above below => ?_
    rw [extent_one] at below
    rw [within_cons, later.untouched (by omega), Bool.or_false, Bool.and_eq_false_iff,
      decide_eq_false_iff_not]
    dsimp only
    omega
  · rw [spare_of_touched (fun _ => Nat.one_pos) fun index above below => ?_, List.nil_append]
    · refine spare_congr (fun _ => Nat.one_pos) fun index above _ => ?_
      rw [within_cons, decide_eq_false (Nat.not_lt.mpr above), Bool.and_false, Bool.false_or]
    · rw [extent_one] at below
      rw [within_cons, decide_eq_true above, decide_eq_true below]
      rfl

/-- What ordered spans spare of a list: the part up to the first span, and what the others
spare of the part behind it. -/
theorem spare_ordered {items : List α} {position : Nat} {span : Nat × Nat} {spans : List (Nat × Nat)}
    (ordered : SpansFrom position (span :: spans)) (inside : span.2 ≤ items.length) :
    spare (fun _ => 1) (within (span :: spans)) position (items.drop position) =
      (items.drop position).take (span.1 - position) ++
        spare (fun _ => 1) (within spans) span.2 (items.drop span.2) := by
  obtain ⟨start, width, later⟩ := ordered
  obtain ⟨first, last⟩ := span
  dsimp only at start width later inside ⊢
  have split : items.drop position = (items.drop position).take (first - position) ++
      ((items.drop first).take (last - first) ++ items.drop last) := by
    have ahead := List.take_append_drop (first - position) (items.drop position)
    have behind := List.take_append_drop (last - first) (items.drop first)
    rw [List.drop_drop, show position + (first - position) = first by omega] at ahead
    rw [List.drop_drop, show first + (last - first) = last by omega] at behind
    rw [behind, ahead]
  have untouched : ((items.drop position).take (first - position)).length = first - position := by
    rw [List.length_take, List.length_drop]
    omega
  have part : ((items.drop first).take (last - first)).length = last - first := by
    rw [List.length_take, List.length_drop]
    omega
  have reached : position + (first - position) = first := by omega
  have reached' : first + (last - first) = last := by omega
  have spared := @spare_span _ position spans ((items.drop position).take (first - position))
    ((items.drop first).take (last - first)) (items.drop last)
    (by rwa [untouched, part, reached, reached'])
  rwa [untouched, part, reached, reached', ← split] at spared

namespace EditScript

variable {old new : List α} {i j : Nat} {hunks : List Hunk}

theorem ordered_before (script : EditScript old new i j hunks) :
    SpansFrom i (hunks.map Hunk.before) := by
  induction script with
  | rest => trivial
  | hunk before aligned same removed added script ih =>
    exact ⟨before, removed, ih⟩

theorem ordered_after (script : EditScript old new i j hunks) :
    SpansFrom j (hunks.map Hunk.after) := by
  induction script with
  | rest => trivial
  | hunk before aligned same removed added script ih =>
    refine ⟨?_, added, ih⟩
    simp only [Hunk.after]
    omega

/-- A script leaves the same elements on both sides. -/
theorem spared (script : EditScript old new i j hunks)
    (inside : ∀ hunk ∈ hunks, hunk.beforeEnd ≤ old.length ∧ hunk.afterEnd ≤ new.length) :
    spare (fun _ => 1) (within (hunks.map Hunk.before)) i (old.drop i) =
      spare (fun _ => 1) (within (hunks.map Hunk.after)) j (new.drop j) := by
  induction script with
  | @rest i j same =>
    have none : within [] = fun _ => false := funext within_nil
    rw [List.map_nil, List.map_nil, none, spare_nothing, spare_nothing, same]
  | @hunk i j hunk hunks before aligned same removed added script ih =>
    have here := inside hunk List.mem_cons_self
    have later := ih fun other mem => inside other (List.mem_cons_of_mem _ mem)
    have whole : EditScript old new i j (hunk :: hunks) :=
      .hunk before aligned same removed added script
    have common : (old.drop i).take (hunk.beforeStart - i) =
        (new.drop j).take (hunk.afterStart - j) := by
      apply List.ext_getElem?
      intro k
      rw [List.getElem?_take, List.getElem?_take, List.getElem?_drop, List.getElem?_drop]
      by_cases below : k < hunk.beforeStart - i
      · rw [if_pos below, if_pos (by omega)]
        exact same k (by omega)
      · rw [if_neg below, if_neg (by omega)]
    have left := spare_ordered whole.ordered_before here.1
    have right := spare_ordered whole.ordered_after here.2
    simp only [Hunk.before, Hunk.after, List.map_cons] at left right later ⊢
    rw [left, right, common]
    congr 1

end EditScript

/-! ## Where pieces start -/

/-- The offset at which the pieces from an index on start. -/
def pieceStart (measure : α → Nat) (pieces : List (List α)) (index : Nat) : Nat :=
  extent measure (pieces.take index).flatten

section PieceStart

variable {measure : α → Nat} {pieces : List (List α)} {index later : Nat}

@[simp] theorem pieceStart_zero : pieceStart measure pieces 0 = 0 := rfl

theorem pieceStart_append (before after : List (List α)) :
    pieceStart measure (before ++ after) before.length = extent measure before.flatten := by
  rw [pieceStart, List.take_left]

theorem pieceStart_le (measure : α → Nat) (pieces : List (List α)) (ordered : index ≤ later) :
    pieceStart measure pieces index ≤ pieceStart measure pieces later := by
  have split := List.take_append_drop index (pieces.take later)
  rw [List.take_take, Nat.min_eq_left ordered] at split
  rw [pieceStart, pieceStart, ← split, List.flatten_append, extent_append]
  exact Nat.le_add_right _ _

theorem pieceStart_succ (measure : α → Nat) {piece : List α} (here : pieces[index]? = some piece) :
    pieceStart measure pieces (index + 1) = pieceStart measure pieces index + extent measure piece := by
  rw [pieceStart, List.take_add_one, here, List.flatten_append, extent_append]
  simp [pieceStart]

theorem pieceStart_lt (positive : ∀ item, 0 < measure item) (nonempty : ∀ piece ∈ pieces, piece ≠ [])
    (ordered : index < later) (inside : later ≤ pieces.length) :
    pieceStart measure pieces index < pieceStart measure pieces later := by
  have here := List.getElem?_eq_getElem (show index < pieces.length by omega)
  have width : 0 < extent measure pieces[index] := by
    have some_ := nonempty _ (List.getElem_mem (show index < pieces.length by omega))
    obtain ⟨item, items, split⟩ := List.exists_cons_of_ne_nil some_
    have wide := positive item
    rw [split, extent_cons]
    omega
  have next := pieceStart_succ measure here
  have reached := pieceStart_le measure pieces (show index + 1 ≤ later by omega)
  omega

theorem isBoundary_pieceStart :
    IsBoundary measure pieces.flatten (pieceStart measure pieces index) :=
  ⟨(pieces.take index).flatten, (pieces.drop index).flatten,
    by rw [← List.flatten_append, List.take_append_drop], rfl⟩

/-- Touching the items of some pieces is touching the pieces. -/
theorem spare_pieces (positive : ∀ item, 0 < measure item) {touched : Nat → Bool}
    {spans : List (Nat × Nat)} (touched_iff : ∀ offset, touched offset = true ↔ ∃ span ∈ spans,
      pieceStart measure pieces span.1 ≤ offset ∧ offset < pieceStart measure pieces span.2) :
    spare measure touched 0 pieces.flatten =
      (spare (fun _ => 1) (within spans) 0 pieces).flatten := by
  apply spare_flatten positive
  intro before piece after split position above below
  rw [Bool.eq_iff_iff, touched_iff, within_iff]
  refine exists_congr fun span => and_congr_right fun _ => ?_
  have starts : pieceStart measure pieces before.length = extent measure before.flatten := by
    rw [split, pieceStart_append]
  have ends : pieceStart measure pieces (before.length + 1) =
      extent measure (before.flatten ++ piece) := by
    rw [pieceStart_succ measure (show pieces[before.length]? = some piece by simp [split]), starts,
      extent_append]
  rw [← starts] at above
  rw [← ends] at below
  -- A span starts, or ends, inside the piece only at its own start.
  have start : pieceStart measure pieces span.1 ≤ position ↔ span.1 ≤ before.length := by
    constructor
    · intro reached
      by_contra beyond
      have reached' := pieceStart_le measure pieces (show before.length + 1 ≤ span.1 by omega)
      omega
    · intro reached
      have reached' := pieceStart_le measure pieces reached
      omega
  have finish : position < pieceStart measure pieces span.2 ↔ before.length < span.2 := by
    constructor
    · intro reached
      by_contra beyond
      have reached' := pieceStart_le measure pieces (show span.2 ≤ before.length by omega)
      omega
    · intro reached
      have reached' := pieceStart_le measure pieces (show before.length + 1 ≤ span.2 by omega)
      omega
  rw [start, finish, Nat.zero_add]

end PieceStart

end Nits.Logical
