import Nits.Logical.Offsets

/-!
# Cutting by cost

A list is cut from the front: a piece is closed before the first item it has no room for.
The pieces make up the list, and where every item fits into a piece alone, every piece
fits.
-/

namespace Nits.Logical

variable {α : Type} {cost : α → Nat} {limit spent : Nat} {piece items : List α}

/-- The pieces of what the open piece holds and the items behind it. -/
def cutFrom (cost : α → Nat) (limit : Nat) (piece : List α) (spent : Nat) :
    List α → List (List α)
  | [] => [piece]
  | item :: rest =>
    if spent + cost item > limit then piece :: cutFrom cost limit [item] (cost item) rest
    else cutFrom cost limit (piece ++ [item]) (spent + cost item) rest

@[simp] theorem flatten_cutFrom :
    (cutFrom cost limit piece spent items).flatten = piece ++ items := by
  induction items generalizing piece spent with
  | nil => simp [cutFrom]
  | cons item rest ih =>
    rw [cutFrom]
    split <;> simp [ih]

theorem cutFrom_ne_nil : cutFrom cost limit piece spent items ≠ [] := by
  induction items generalizing piece spent with
  | nil => simp [cutFrom]
  | cons item rest ih =>
    rw [cutFrom]
    split
    · simp
    · exact ih

/-- No piece costs more than there is room for. -/
theorem extent_cutFrom (each : ∀ item ∈ items, cost item ≤ limit)
    (counted : spent = extent cost piece) (room : spent ≤ limit) :
    ∀ part ∈ cutFrom cost limit piece spent items, extent cost part ≤ limit := by
  induction items generalizing piece spent with
  | nil =>
    intro part mem
    rw [cutFrom, List.mem_singleton] at mem
    rw [mem, ← counted]
    exact room
  | cons item rest ih =>
    have others : ∀ other ∈ rest, cost other ≤ limit :=
      fun other mem => each other (List.mem_cons_of_mem item mem)
    rw [cutFrom]
    split
    · intro part mem
      rcases List.mem_cons.mp mem with rfl | later
      · rw [← counted]
        exact room
      · exact ih others (by simp) (each item List.mem_cons_self) part later
    · exact ih others (by simp [counted]) (by omega)

/-- No piece is empty: one is only closed once it holds an item. -/
theorem nonempty_of_mem_cutFrom (each : ∀ item ∈ items, cost item ≤ limit)
    (begun : piece ≠ [] ∨ items ≠ [] ∧ spent = 0) :
    ∀ part ∈ cutFrom cost limit piece spent items, part ≠ [] := by
  induction items generalizing piece spent with
  | nil =>
    intro part mem
    rw [cutFrom, List.mem_singleton] at mem
    rw [mem]
    simpa using begun
  | cons item rest ih =>
    have others : ∀ other ∈ rest, cost other ≤ limit :=
      fun other mem => each other (List.mem_cons_of_mem item mem)
    rw [cutFrom]
    split
    next over_ =>
      have held : piece ≠ [] := by
        rcases begun with held | ⟨-, rfl⟩
        · exact held
        · have := each item List.mem_cons_self
          omega
      intro part mem
      rcases List.mem_cons.mp mem with rfl | later
      · exact held
      · exact ih others (.inl (by simp)) part later
    · exact ih others (.inl (by simp))

/-- What does not fit into one piece is cut. -/
theorem one_lt_length_cutFrom (each : ∀ item ∈ items, cost item ≤ limit)
    (counted : spent = extent cost piece) (room : spent ≤ limit)
    (large : limit < extent cost (piece ++ items)) :
    1 < (cutFrom cost limit piece spent items).length := by
  by_contra few
  obtain ⟨part, single⟩ : ∃ part, cutFrom cost limit piece spent items = [part] := by
    apply List.length_eq_one_iff.mp
    have some_ : cutFrom cost limit piece spent items ≠ [] := cutFrom_ne_nil
    have := List.length_pos_iff.mpr some_
    omega
  have whole : part = piece ++ items := by
    have joined : (cutFrom cost limit piece spent items).flatten = piece ++ items :=
      flatten_cutFrom
    simpa [single] using joined
  have fits := extent_cutFrom each counted room part (by simp [single])
  rw [whole] at fits
  omega

end Nits.Logical
