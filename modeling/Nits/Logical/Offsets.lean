import Mathlib.Algebra.GroupWithZero.Nat
import Mathlib.Data.List.Induction

/-!
# Two measures of one sequence

The items of a sequence have a width in each of two measures, one at least as wide as the
other. A set of offsets given in the wider measure marks the same items when it is read in
the narrower one exactly when it does not tell apart what lies beyond the first item on
which the measures disagree.
-/

namespace Nits.Logical

variable {α : Type}

def extent (measure : α → Nat) (items : List α) : Nat := (items.map measure).sum

@[simp] theorem extent_nil (measure : α → Nat) : extent measure [] = 0 := rfl

@[simp] theorem extent_cons (measure : α → Nat) (item : α) (items : List α) :
    extent measure (item :: items) = measure item + extent measure items := by
  simp [extent]

@[simp] theorem extent_append (measure : α → Nat) (items others : List α) :
    extent measure (items ++ others) = extent measure items + extent measure others := by
  simp [extent]

/-- The bytes of a text are those of its characters. -/
theorem utf8ByteSize_eq (text : String) : text.utf8ByteSize = extent Char.utf8Size text.toList := by
  have ofChars (chars : List Char) :
      (String.ofList chars).utf8ByteSize = extent Char.utf8Size chars := by
    induction chars with
    | nil => rfl
    | cons c chars ih =>
      have split : String.ofList (c :: chars) = String.singleton c ++ String.ofList chars := by
        rw [String.singleton_eq_ofList, ← String.ofList_append, List.singleton_append]
      rw [split, String.utf8ByteSize_append, String.utf8ByteSize_singleton, ih,
        extent_cons]
  rw [← ofChars, String.ofList_toList]

/-- The offset between two items of a sequence. -/
def IsBoundary (measure : α → Nat) (items : List α) (offset : Nat) : Prop :=
  ∃ before after, items = before ++ after ∧ extent measure before = offset

/-- A boundary is not inside an item. -/
theorem IsBoundary.outside {measure : α → Nat} {items before after : List α} {item : α}
    {offset : Nat} (boundary : IsBoundary measure items offset)
    (split : items = before ++ item :: after) :
    offset ≤ extent measure before ∨ extent measure before + measure item ≤ offset := by
  obtain ⟨left, right, split', rfl⟩ := boundary
  rcases List.append_eq_append_iff.mp (split'.symm.trans split) with ⟨more, rfl, _⟩ | ⟨more, rfl, _⟩
  · left
    rw [extent_append]
    omega
  · cases more with
    | nil =>
      left
      simp
    | cons head more =>
      rename_i here
      obtain ⟨rfl, _⟩ := List.cons.inj here
      right
      rw [extent_append, extent_cons]
      omega

theorem IsBoundary.le {measure : α → Nat} {items : List α} {offset : Nat}
    (boundary : IsBoundary measure items offset) : offset ≤ extent measure items := by
  obtain ⟨before, after, rfl, rfl⟩ := boundary
  rw [extent_append]
  omega

/-- All offsets of an interval are in a set, or none is. -/
def Uniform (marked : Nat → Prop) (start finish : Nat) : Prop :=
  (∀ offset, start ≤ offset → offset < finish → marked offset) ∨
    ∀ offset, start ≤ offset → offset < finish → ¬ marked offset

/-- `wide` is at least `narrow`, and they agree only on items of width one. -/
structure Measures (wide narrow : α → Nat) : Prop where
  positive : ∀ item, 0 < narrow item
  le : ∀ item, narrow item ≤ wide item
  single : ∀ item, narrow item = wide item → wide item = 1

section Transfer

variable {wide narrow : α → Nat} {marked : Nat → Prop} {items : List α}

/-- No item is marked in part. -/
def Whole (wide : α → Nat) (marked : Nat → Prop) (items : List α) : Prop :=
  ∀ before item after, items = before ++ item :: after → ∀ offset, extent wide before ≤ offset →
    offset < extent wide before + wide item → (marked offset ↔ marked (extent wide before))

/-- An offset of an item in the narrow measure is marked exactly when the item is marked in
the wide one. -/
def Transfers (wide narrow : α → Nat) (marked : Nat → Prop) (items : List α) : Prop :=
  ∀ before item after, items = before ++ item :: after → ∀ offset, extent narrow before ≤ offset →
    offset < extent narrow before + narrow item → (marked offset ↔ marked (extent wide before))

/-- The items up to the first one on which the measures disagree. -/
def agreeing (wide narrow : α → Nat) (items : List α) : List α :=
  items.takeWhile fun item => narrow item = wide item

theorem extent_le (measures : Measures wide narrow) (items : List α) :
    extent narrow items ≤ extent wide items := by
  induction items with
  | nil => exact Nat.le_refl 0
  | cons item items ih =>
    have here := measures.le item
    rw [extent_cons, extent_cons]
    omega

/-- A place before the first disagreement, or one behind it, where the narrow offset lags. -/
theorem place (measures : Measures wide narrow) {before after : List α} {item : α}
    (split : items = before ++ item :: after) :
    (extent wide before < extent wide (agreeing wide narrow items) ∧ narrow item = wide item ∧
      extent narrow before = extent wide before) ∨
    (before = agreeing wide narrow items ∧ extent narrow before = extent wide before) ∨
    (extent wide (agreeing wide narrow items) ≤ extent narrow before ∧
      extent narrow before < extent wide before) := by
  induction before generalizing items with
  | nil =>
    subst split
    by_cases agree : narrow item = wide item
    · left
      have positive := measures.positive item
      rw [agreeing, List.nil_append, List.takeWhile_cons_of_pos (by simpa using agree), extent_cons]
      refine ⟨?_, agree, rfl⟩
      rw [extent_nil]
      omega
    · right
      left
      rw [agreeing, List.nil_append, List.takeWhile_cons_of_neg (by simpa using agree)]
      exact ⟨rfl, rfl⟩
  | cons head before ih =>
    subst split
    rw [List.cons_append, extent_cons, extent_cons, agreeing]
    by_cases agree : narrow head = wide head
    · rw [List.takeWhile_cons_of_pos (by simpa using agree), extent_cons, ← agreeing]
      rcases ih rfl with ⟨inside, same, equal⟩ | ⟨here, equal⟩ | ⟨beyond, lags⟩
      · exact .inl ⟨by omega, same, by omega⟩
      · exact .inr (.inl ⟨by rw [← here], by omega⟩)
      · exact .inr (.inr ⟨by omega, by omega⟩)
    · rw [List.takeWhile_cons_of_neg (by simpa using agree), extent_nil]
      have smaller := measures.le head
      have smaller' := extent_le measures before
      exact .inr (.inr ⟨Nat.zero_le _, by omega⟩)

/-- What is marked behind the first disagreement is what is marked at it. -/
theorem Transfers.constant (transfers : Transfers wide narrow marked items)
    (measures : Measures wide narrow) (whole : Whole wide marked items) {before after : List α}
    (split : items = before ++ after) {offset : Nat}
    (above : extent wide (agreeing wide narrow items) ≤ offset)
    (below : offset < extent wide before) :
    marked offset ↔ marked (extent wide (agreeing wide narrow items)) := by
  induction before using List.reverseRecOn generalizing after offset with
  | nil =>
    rw [extent_nil] at below
    omega
  | append_singleton before item ih =>
    rw [List.append_assoc, List.singleton_append] at split
    by_cases inside : offset < extent wide before
    · exact ih split above inside
    · rw [extent_append, extent_cons, extent_nil] at below
      have here := whole before item after split offset (by omega) (by omega)
      rcases place measures split with ⟨ahead, same, -⟩ | ⟨here', -⟩ | ⟨beyond, lags⟩
      · -- An agreeing item has width one, so no offset of it is behind the agreeing ones.
        have single := measures.single item same
        omega
      · rw [here, here']
      · -- The narrow offset of the item is an earlier wide one.
        have positive := measures.positive item
        have moved := transfers before item after split (extent narrow before) (Nat.le_refl _)
          (by omega)
        rw [here, ← moved]
        exact ih split beyond lags

theorem Transfers.uniform (transfers : Transfers wide narrow marked items)
    (measures : Measures wide narrow) (whole : Whole wide marked items) :
    Uniform marked (extent wide (agreeing wide narrow items)) (extent wide items) := by
  have constant {offset : Nat} := @Transfers.constant _ _ _ _ _ transfers measures whole items []
    (List.append_nil _).symm offset
  by_cases first : marked (extent wide (agreeing wide narrow items))
  · exact .inl fun offset above below => (constant above below).mpr first
  · exact .inr fun offset above below here => first ((constant above below).mp here)

theorem transfers_of_uniform (measures : Measures wide narrow)
    (uniform : Uniform marked (extent wide (agreeing wide narrow items)) (extent wide items)) :
    Transfers wide narrow marked items := by
  intro before item after split offset above below
  have total : extent wide before + wide item ≤ extent wide items := by
    rw [split, extent_append, extent_cons]
    omega
  have width := measures.le item
  have positive := measures.positive item
  have lags := extent_le measures before
  rcases place measures split with ⟨-, same, equal⟩ | ⟨here, equal⟩ | ⟨beyond, behind⟩
  · have single := measures.single item same
    have exact_ : offset = extent wide before := by omega
    rw [exact_]
  · rw [← here] at uniform
    rcases uniform with all | none
    · exact iff_of_true (all _ (by omega) (by omega)) (all _ (by omega) (by omega))
    · exact iff_of_false (none _ (by omega) (by omega)) (none _ (by omega) (by omega))
  · rcases uniform with all | none
    · exact iff_of_true (all _ (by omega) (by omega)) (all _ (by omega) (by omega))
    · exact iff_of_false (none _ (by omega) (by omega)) (none _ (by omega) (by omega))

/-- Marks transfer to the narrow measure exactly when all or none of what lies behind the
first disagreement is marked. -/
theorem transfers_iff (measures : Measures wide narrow) (whole : Whole wide marked items) :
    Transfers wide narrow marked items ↔
      Uniform marked (extent wide (agreeing wide narrow items)) (extent wide items) :=
  ⟨fun transfers => transfers.uniform measures whole, transfers_of_uniform measures⟩

end Transfer

end Nits.Logical
