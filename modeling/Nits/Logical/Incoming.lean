import Mathlib.Data.List.Flatten

/-!
# Reading a stream that comes in pieces

What a peer sent arrives in pieces of any size, and an empty read is the end. Filling a
buffer takes the front of what was sent, however it was split.
-/

namespace Nits.Logical

variable {α : Type}

/-- What is still to come, in the pieces that it comes in. -/
structure Incoming (α : Type) where
  pieces : List (List α)
  filled : ∀ piece ∈ pieces, piece ≠ []

namespace Incoming

/-- What is still to come, however it is split. -/
def content (incoming : Incoming α) : List α := incoming.pieces.flatten

/-- One read: as much of the next piece as there is room for. -/
def read (room : Nat) : Incoming α → List α × Incoming α
  | ⟨[], filled⟩ => ([], ⟨[], filled⟩)
  | ⟨piece :: later, filled⟩ =>
    let rest := fun other isLater => filled other (List.mem_cons_of_mem piece isLater)
    if left : piece.drop room = [] then (piece.take room, ⟨later, rest⟩)
    else (piece.take room, ⟨piece.drop room :: later, List.forall_mem_cons.mpr ⟨left, rest⟩⟩)

theorem read_content (room : Nat) (incoming : Incoming α) :
    (incoming.read room).1 ++ (incoming.read room).2.content = incoming.content := by
  obtain ⟨_ | ⟨piece, later⟩, filled⟩ := incoming
  · rfl
  · have whole := List.take_append_drop room piece
    simp only [read]
    split
    next left =>
      rw [left, List.append_nil] at whole
      simp only [content, List.flatten_cons, whole]
    · simp only [content, List.flatten_cons, ← List.append_assoc, whole]

theorem read_le (room : Nat) (incoming : Incoming α) : (incoming.read room).1.length ≤ room := by
  obtain ⟨_ | ⟨piece, later⟩, filled⟩ := incoming
  · exact Nat.zero_le room
  · have fits := List.length_take_le room piece
    simp only [read]
    split <;> exact fits

/-- Only the end reads nothing. -/
theorem read_eq_nil {room : Nat} (some_ : 0 < room) {incoming : Incoming α}
    (nothing : (incoming.read room).1 = []) : incoming.content = [] := by
  obtain ⟨_ | ⟨piece, later⟩, filled⟩ := incoming
  · rfl
  · have short : piece.take room = [] := by
      simp only [read] at nothing
      split at nothing <;> exact nothing
    have empty := (List.take_eq_nil_iff.mp short).resolve_left (by omega)
    exact absurd empty (filled piece List.mem_cons_self)

/-- Read until the buffer is full; none is an end that came before. -/
def readExact (room : Nat) (incoming : Incoming α) : Option (List α) × Incoming α :=
  if room = 0 then (some [], incoming)
  else
    match incoming.read room with
    | ([], rest) => (none, rest)
    | (first :: more, rest) =>
      let (last, rest) := rest.readExact (room - (first :: more).length)
      (last.map (first :: more ++ ·), rest)
termination_by room
decreasing_by
  simp only [List.length_cons]
  omega

/-- A buffer is filled exactly when enough is to come, with the front of it. -/
theorem readExact_spec (room : Nat) (incoming : Incoming α) : (incoming.readExact room).1 =
        (if room ≤ incoming.content.length then some (incoming.content.take room) else none) ∧
      (incoming.readExact room).2.content = incoming.content.drop room := by
  induction room using Nat.strongRecOn generalizing incoming with
  | _ room ih =>
    unfold readExact
    split
    next none_ => simp [none_]
    next some_ =>
      have whole := incoming.read_content room
      have fits := incoming.read_le room
      split
      next rest got =>
        have empty := read_eq_nil (by omega) (congrArg Prod.fst got)
        rw [got, empty] at whole
        have left : rest.content = [] := whole
        rw [empty, left, List.drop_nil, List.length_nil, if_neg (by omega)]
        exact ⟨rfl, rfl⟩
      next first more rest got =>
        rw [got] at whole fits
        obtain ⟨filled, left⟩ := ih (room - (first :: more).length)
          (by simp only [List.length_cons]; omega) rest
        dsimp only at whole fits ⊢
        rw [← whole, List.drop_append, List.take_append, List.drop_eq_nil_of_le fits,
          List.take_of_length_le fits, List.nil_append, filled, left, List.length_append]
        refine ⟨?_, rfl⟩
        by_cases enough : room ≤ (first :: more).length + rest.content.length
        · rw [if_pos enough, if_pos (by omega)]
          rfl
        · rw [if_neg enough, if_neg (by omega)]
          rfl

theorem readExact_enough (room : Nat) (incoming : Incoming α)
    (enough : room ≤ incoming.content.length) :
    ∃ rest, incoming.readExact room = (some (incoming.content.take room), rest) ∧
      rest.content = incoming.content.drop room := by
  obtain ⟨filled, left⟩ := incoming.readExact_spec room
  rw [if_pos enough] at filled
  exact ⟨_, Prod.ext filled rfl, left⟩

theorem readExact_short (room : Nat) (incoming : Incoming α)
    (short : incoming.content.length < room) :
    ∃ rest, incoming.readExact room = (none, rest) ∧ rest.content = [] := by
  obtain ⟨filled, left⟩ := incoming.readExact_spec room
  rw [if_neg (by omega)] at filled
  exact ⟨_, Prod.ext filled rfl, left.trans (List.drop_eq_nil_of_le (by omega))⟩

end Incoming

end Nits.Logical
