import Mathlib.Data.Option.Basic

/-!
# Inverse indexes

Owners keep members at places, each owner keeping a member at one place at most.
An index that `Inverts` this placement names, for a place and a member, the owner
that keeps the member there. It can only exist while no two owners keep one member
at one place, and moving one member keeps it exact when the new place is free.
-/

namespace Nits.Logical

variable {O M P : Type}

/-- The index names exactly the owners that keep each member at each place. -/
def Inverts (index : P → M → Option O) (placed : O → M → Option P) : Prop :=
  ∀ place mem owner, index place mem = some owner ↔ placed owner mem = some place

/-- No owner but `owner` keeps the member at the place. -/
def FreeFor (placed : O → M → Option P) (owner : O) (mem : M) (place : P) : Prop :=
  ∀ other, other ≠ owner → placed other mem ≠ some place

namespace Inverts

variable {index index' : P → M → Option O} {placed placed' : O → M → Option P}

/-- An index admits one owner for each place of a member. -/
theorem freeFor (inverts : Inverts index placed) {owner : O} {mem : M} {place : P}
    (kept : placed owner mem = some place) : FreeFor placed owner mem place := by
  intro other different here
  have first := (inverts place mem owner).mpr kept
  have second := (inverts place mem other).mpr here
  rw [first] at second
  exact different (Option.some.inj second).symm

/-- Moving one member to a free place, or nowhere, keeps an index exact that drops
the old place and names the new one. -/
theorem move [DecidableEq M] [DecidableEq P] (inverts : Inverts index placed) (owner : O)
    (mem : M) (new : Option P)
    (free : ∀ place, new = some place → FreeFor placed owner mem place)
    (here : placed' owner mem = new)
    (elsewhere : ∀ o m, (o ≠ owner ∨ m ≠ mem) → placed' o m = placed o m)
    (indexed : ∀ place m, index' place m =
      if m = mem ∧ new = some place then some owner
      else if m = mem ∧ placed owner mem = some place then none else index place m) :
    Inverts index' placed' := by
  intro place m o
  rw [indexed]
  by_cases sameMember : m = mem
  · subst sameMember
    by_cases sameOwner : o = owner
    · subst sameOwner
      rw [here]
      by_cases moved : new = some place
      · simp [moved]
      by_cases old : placed o m = some place
      · simp [moved, old]
      · simp only [moved, old, and_false, if_false, iff_false]
        exact fun named => old ((inverts place m o).mp named)
    · rw [elsewhere o m (Or.inl sameOwner)]
      by_cases moved : new = some place
      · simp only [moved, and_self, if_true, Option.some.injEq]
        exact iff_of_false (Ne.symm sameOwner) (free place moved o sameOwner)
      by_cases old : placed owner m = some place
      · simp only [moved, old, and_false, and_self, if_false, if_true]
        exact iff_of_false (by simp) (inverts.freeFor old o sameOwner)
      · simp only [moved, old, and_false, if_false]
        exact inverts place m o
  · rw [elsewhere o m (Or.inr sameMember)]
    simp only [sameMember, false_and, if_false]
    exact inverts place m o

end Inverts

end Nits.Logical
