import Mathlib.Data.List.Forall2

/-!
# Lists cut after a stop

A list is cut after every element that stops. The pieces are nonempty, an element
that stops only ends a piece, and every piece but the last is closed by one. A
list of such pieces is recovered from its concatenation.
-/

namespace Nits.Logical

variable {α : Type} {stop : α → Bool}

/-- The pieces of a list, each ending after an element that stops, except possibly
the last. -/
def pieces (stop : α → Bool) : List α → List (List α)
  | [] => []
  | head :: rest =>
    if stop head then [head] :: pieces stop rest
    else
      match pieces stop rest with
      | [] => [[head]]
      | piece :: others => (head :: piece) :: others

/-- A nonempty list in which only the last element may stop. -/
structure IsPiece (stop : α → Bool) (piece : List α) : Prop where
  nonempty : piece ≠ []
  inside : ∀ x ∈ piece.dropLast, stop x = false

/-- The last element stops. -/
def Closed (stop : α → Bool) (piece : List α) : Prop :=
  ∃ x, piece.getLast? = some x ∧ stop x = true

instance (piece : List α) : Decidable (Closed stop piece) :=
  match last : piece.getLast? with
  | none => isFalse (by rintro ⟨x, found, -⟩; rw [last] at found; cases found)
  | some x =>
    if stops : stop x = true then isTrue ⟨x, last, stops⟩
    else isFalse (by rintro ⟨y, found, stopsY⟩; rw [last] at found; cases found; exact stops stopsY)

/-- A list of pieces, all but the last of which are closed. -/
structure Cuts (stop : α → Bool) (lines : List (List α)) : Prop where
  isPiece : ∀ line ∈ lines, IsPiece stop line
  closed : ∀ line ∈ lines.dropLast, Closed stop line

@[simp] theorem pieces_nil : pieces stop [] = [] := rfl

theorem isPiece_singleton (x : α) : IsPiece stop [x] := ⟨by simp, by simp⟩

variable {piece : List α} {lines : List (List α)}

theorem isPiece_cons {head : α} (quiet : stop head = false) (isPiece : IsPiece stop piece) :
    IsPiece stop (head :: piece) := by
  refine ⟨by simp, ?_⟩
  rw [List.dropLast_cons_of_ne_nil isPiece.nonempty]
  intro x mem
  rcases List.mem_cons.mp mem with rfl | below
  · exact quiet
  · exact isPiece.inside x below

theorem closed_singleton {x : α} (stops : stop x = true) : Closed stop [x] := ⟨x, rfl, stops⟩

theorem closed_cons {head : α} (closed : Closed stop piece) : Closed stop (head :: piece) := by
  obtain ⟨x, last, stops⟩ := closed
  cases piece with
  | nil => cases last
  | cons second rest => exact ⟨x, by rw [List.getLast?_cons_cons]; exact last, stops⟩

theorem closed_append_singleton {x : α} (stops : stop x = true) :
    Closed stop (piece ++ [x]) := ⟨x, by simp, stops⟩

theorem isPiece_append_singleton (quiet : ∀ x ∈ piece, stop x = false) (x : α) :
    IsPiece stop (piece ++ [x]) := ⟨by simp, by simpa using quiet⟩

/-- The elements of a piece before a closing one do not stop. -/
theorem IsPiece.not_closed_tail {head : α} (isPiece : IsPiece stop (head :: piece))
    (longer : piece ≠ []) : stop head = false ∧ IsPiece stop piece := by
  have inside := isPiece.inside
  rw [List.dropLast_cons_of_ne_nil longer] at inside
  exact ⟨inside head (by simp), longer, fun x mem => inside x (List.mem_cons_of_mem _ mem)⟩

/-- A list ending in a nonempty part is a piece if nothing stops before that part and
the part is one. -/
theorem isPiece_append_iff {front part : List α} (longer : part ≠ []) :
    IsPiece stop (front ++ part) ↔ (∀ x ∈ front, stop x = false) ∧ IsPiece stop part := by
  constructor
  · intro isPiece
    have inside := isPiece.inside
    rw [List.dropLast_append_of_ne_nil longer] at inside
    exact ⟨fun x mem => inside x (List.mem_append_left _ mem), longer,
      fun x mem => inside x (List.mem_append_right _ mem)⟩
  · rintro ⟨quiet, isPiece⟩
    refine ⟨by simp [longer], ?_⟩
    rw [List.dropLast_append_of_ne_nil longer]
    intro x mem
    rcases List.mem_append.mp mem with before | within
    · exact quiet x before
    · exact isPiece.inside x within

theorem closed_append_iff {front part : List α} (longer : part ≠ []) :
    Closed stop (front ++ part) ↔ Closed stop part := by
  rw [Closed, Closed, List.getLast?_append_of_ne_nil _ longer]

/-- A list of pieces of which all are closed. -/
theorem cuts_of_closed (isPiece : ∀ line ∈ lines, IsPiece stop line)
    (closed : ∀ line ∈ lines, Closed stop line) : Cuts stop lines :=
  ⟨isPiece, fun line mem => closed line ((List.dropLast_sublist lines).subset mem)⟩

/-- Nothing stops in a piece that is not closed. -/
theorem IsPiece.quiet (isPiece : IsPiece stop piece) (unclosed : ¬ Closed stop piece) :
    ∀ x ∈ piece, stop x = false := by
  intro x mem
  rw [← List.dropLast_append_getLast isPiece.nonempty] at mem
  rcases List.mem_append.mp mem with before | last
  · exact isPiece.inside x before
  · rw [List.mem_singleton] at last
    refine Bool.eq_false_iff.mpr fun stops => unclosed ⟨x, ?_, stops⟩
    rw [last, List.getLast?_eq_some_getLast isPiece.nonempty]

/-- Concatenating the pieces gives the list back. -/
@[simp] theorem flatten_pieces (list : List α) : (pieces stop list).flatten = list := by
  induction list with
  | nil => rfl
  | cons head rest ih =>
    rw [pieces]
    split
    · simpa using ih
    · split
      next none =>
        rw [none] at ih
        simp only [List.flatten_nil] at ih
        simp [← ih]
      next piece others cut =>
        rw [cut] at ih
        simpa using ih

theorem Cuts.cons {line : List α} (isPiece : IsPiece stop line) (closed : Closed stop line)
    (cuts : Cuts stop lines) : Cuts stop (line :: lines) := by
  constructor
  · intro other mem
    rcases List.mem_cons.mp mem with rfl | below
    · exact isPiece
    · exact cuts.isPiece other below
  · cases lines with
    | nil => simp
    | cons next rest =>
      intro other mem
      rw [List.dropLast_cons_of_ne_nil (by simp)] at mem
      rcases List.mem_cons.mp mem with rfl | below
      · exact closed
      · exact cuts.closed other below

theorem Cuts.tail {line : List α} (cuts : Cuts stop (line :: lines)) : Cuts stop lines := by
  refine ⟨fun other mem => cuts.isPiece other (by simp [mem]), ?_⟩
  intro other mem
  have longer : lines ≠ [] := by
    rintro rfl
    simp at mem
  exact cuts.closed other (by rw [List.dropLast_cons_of_ne_nil longer]; simp [mem])

theorem cuts_cons_iff {line : List α} : Cuts stop (line :: lines) ↔
      IsPiece stop line ∧ (lines ≠ [] → Closed stop line) ∧ Cuts stop lines := by
  constructor
  · intro cuts
    refine ⟨cuts.isPiece line (by simp), fun longer => cuts.closed line ?_, cuts.tail⟩
    rw [List.dropLast_cons_of_ne_nil longer]
    simp
  · rintro ⟨isPiece, closed, cuts⟩
    by_cases longer : lines = []
    · subst longer
      exact ⟨by simpa using isPiece, by simp⟩
    · exact .cons isPiece (closed longer) cuts

/-- Replacing every piece by one that is closed if it was keeps a list of pieces. -/
theorem Cuts.replace {others : List (List α)} (cuts : Cuts stop lines)
    (same : List.Forall₂ (fun line other => IsPiece stop line →
      IsPiece stop other ∧ (Closed stop line → Closed stop other)) lines others) :
    Cuts stop others := by
  induction same with
  | nil => exact cuts
  | @cons line other lines others first rest ih =>
    obtain ⟨isPiece, closed, cuts⟩ := cuts_cons_iff.mp cuts
    refine cuts_cons_iff.mpr ⟨(first isPiece).1, ?_, ih cuts⟩
    intro longer
    refine (first isPiece).2 (closed ?_)
    rintro rfl
    cases rest
    exact longer rfl

theorem cuts_pieces (list : List α) : Cuts stop (pieces stop list) := by
  induction list with
  | nil => exact ⟨by simp, by simp⟩
  | cons head rest ih =>
    rw [pieces]
    split
    next stops => exact .cons (isPiece_singleton head) (closed_singleton stops) ih
    next quiet =>
      have quiet : stop head = false := by simpa using quiet
      split
      next none => exact ⟨by simp [isPiece_singleton], by simp⟩
      next piece others cut =>
        rw [cut] at ih
        constructor
        · intro line mem
          rcases List.mem_cons.mp mem with rfl | below
          · exact isPiece_cons quiet (ih.isPiece piece (by simp))
          · exact ih.isPiece line (by simp [below])
        · cases others with
          | nil => simp
          | cons next after =>
            intro line mem
            have closed := ih.closed
            rw [List.dropLast_cons_of_ne_nil (by simp)] at mem closed
            rcases List.mem_cons.mp mem with rfl | below
            · exact closed_cons (closed piece (by simp))
            · exact closed line (by simp [below])

/-- A closed piece at the front is cut off. -/
theorem pieces_closed_append {line : List α} (isPiece : IsPiece stop line)
    (closed : Closed stop line) (rest : List α) :
    pieces stop (line ++ rest) = line :: pieces stop rest := by
  induction line with
  | nil => exact absurd rfl isPiece.nonempty
  | cons head tail ih =>
    by_cases single : tail = []
    · subst single
      have stops : stop head = true := by
        obtain ⟨x, last, stops⟩ := closed
        rw [List.getLast?_singleton, Option.some_inj] at last
        rwa [last]
      simp [pieces, stops]
    · obtain ⟨quiet, below⟩ := isPiece.not_closed_tail single
      obtain ⟨x, last, stops⟩ := closed
      have closedTail : Closed stop tail := by
        refine ⟨x, ?_, stops⟩
        obtain ⟨second, others, rfl⟩ := List.exists_cons_of_ne_nil single
        rwa [List.getLast?_cons_cons] at last
      rw [List.cons_append, pieces, ih below closedTail]
      simp [quiet]

/-- One piece is its own only piece. -/
theorem pieces_piece {line : List α} (isPiece : IsPiece stop line) : pieces stop line = [line] := by
  induction line with
  | nil => exact absurd rfl isPiece.nonempty
  | cons head tail ih =>
    by_cases single : tail = []
    · subst single
      simp [pieces]
    · obtain ⟨quiet, below⟩ := isPiece.not_closed_tail single
      rw [pieces, ih below]
      simp [quiet]

/-- The pieces of a concatenation of pieces are those pieces. -/
theorem pieces_flatten (cuts : Cuts stop lines) : pieces stop lines.flatten = lines := by
  induction lines with
  | nil => rfl
  | cons line rest ih =>
    cases rest with
    | nil => simpa using pieces_piece (cuts.isPiece line (by simp))
    | cons next others =>
      have closed := cuts.closed line (by rw [List.dropLast_cons_of_ne_nil (by simp)]; simp)
      rw [List.flatten_cons, pieces_closed_append (cuts.isPiece line (by simp)) closed,
        ih cuts.tail]

/-- There are no more pieces than elements. -/
theorem length_pieces_le (list : List α) : (pieces stop list).length ≤ list.length := by
  induction list with
  | nil => simp
  | cons head rest ih =>
    rw [pieces]
    split
    · simpa using ih
    · split
      · simp
      next cut => simpa [cut] using Nat.le_succ_of_le ih

end Nits.Logical
