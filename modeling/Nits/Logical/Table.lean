import Mathlib.Data.List.Perm.Basic
import Mathlib.Data.List.Nodup
import Std.Data.ExtTreeMap

/-!
# Ordered tables and the lists that hold them

A `Table` is an ordered map with a lawful key order; composite keys are pairs
ordered lexicographically. `Table.under` reads every row below the first half of
a composite key, in key order. `Holds` says that a list contains exactly the rows
of a lookup function, once each, whatever its order; it is the relation kept by
an in-memory list that is pushed to, updated in place and filtered.
-/

namespace Nits.Logical

open Std

/-- A key type with the total order its tables are sorted by. -/
class TableKey (K : Type) where
  order : K → K → Ordering
  trans : TransCmp order
  lawful : LawfulEqCmp order

namespace TableKey

variable {K A B : Type}

instance [key : TableKey K] : TransCmp (order (K := K)) := key.trans
instance [key : TableKey K] : LawfulEqCmp (order (K := K)) := key.lawful

/-- Keys compared through an injective image in an ordered type. -/
@[reducible] def ofImage [Ord B] [TransOrd B] [lawful : LawfulEqOrd B] (image : A → B)
    (injective : Function.Injective image) : TableKey A where
  order := compareOn image
  trans := inferInstance
  lawful :=
    { compare_self := lawful.compare_self
      eq_of_compare := fun same => injective (lawful.eq_of_compare same) }

instance : TableKey Nat := ofImage id Function.injective_id
instance : TableKey String := ofImage id Function.injective_id

/-- Composite keys sort by their first half, then by the second. -/
instance pair [first : TableKey A] [second : TableKey B] : TableKey (A × B) where
  order := compareLex (fun left right => order left.1 right.1)
    (fun left right => order left.2 right.2)
  trans :=
    have : TransCmp fun left right : A × B => order left.1 right.1 :=
      { eq_swap := first.trans.eq_swap
        isLE_trans := first.trans.isLE_trans }
    have : TransCmp fun left right : A × B => order left.2 right.2 :=
      { eq_swap := second.trans.eq_swap
        isLE_trans := second.trans.isLE_trans }
    inferInstance
  lawful :=
    { compare_self := by simp [compareLex, ReflCmp.compare_self]
      eq_of_compare := by
        rintro ⟨a, b⟩ ⟨c, d⟩ same
        obtain ⟨sameFirst, sameSecond⟩ := Ordering.then_eq_eq.mp same
        have sameFirst : a = c := first.lawful.eq_of_compare sameFirst
        have sameSecond : b = d := second.lawful.eq_of_compare sameSecond
        rw [sameFirst, sameSecond] }

/-- Keys compared through an injective image in another key type. -/
@[reducible] def through [key : TableKey B] (image : A → B)
    (injective : Function.Injective image) : TableKey A where
  order left right := order (image left) (image right)
  trans :=
    { eq_swap := key.trans.eq_swap
      isLE_trans := key.trans.isLE_trans }
  lawful :=
    { compare_self := key.lawful.compare_self
      eq_of_compare := fun same => injective (key.lawful.eq_of_compare same) }

end TableKey

/-- An ordered map from keys to rows. -/
abbrev Table (K V : Type) [TableKey K] := ExtTreeMap K V TableKey.order

namespace Table

variable {K A B V : Type} [TableKey K] [TableKey A] [TableKey B]

theorem getElem?_insert [DecidableEq K] (table : Table K V) (key other : K) (row : V) :
    (table.insert key row)[other]? = if key = other then some row else table[other]? := by
  rw [ExtTreeMap.getElem?_insert]
  simp only [LawfulEqCmp.compare_eq_iff_eq]

theorem getElem?_erase [DecidableEq K] (table : Table K V) (key other : K) :
    (table.erase key)[other]? = if key = other then none else table[other]? := by
  rw [ExtTreeMap.getElem?_erase]
  simp only [LawfulEqCmp.compare_eq_iff_eq]

@[simp] theorem getElem?_empty (key : K) : (∅ : Table K V)[key]? = none :=
  ExtTreeMap.getElem?_empty

/-- Storing a change of the row under a key changes that row alone. -/
theorem getElem?_insert_change [DecidableEq K] {table : Table K V} {key : K} {row : V}
    (found : table[key]? = some row) (change : V → V) (other : K) :
    (table.insert key (change row))[other]? =
      if key = other then table[other]?.map change else table[other]? := by
  rw [getElem?_insert]
  by_cases same : key = other
  · subst same
    simp [found]
  · simp [same]

/-- The rows whose key starts with `first`, in key order. -/
def under [DecidableEq A] (table : Table (A × B) V) (first : A) : List V :=
  (table.toList.filter fun row => row.1.1 = first).map Prod.snd

theorem mem_under [DecidableEq A] {table : Table (A × B) V} {first : A} {row : V} :
    row ∈ table.under first ↔ ∃ second : B, table[(first, second)]? = some row := by
  simp only [under, List.mem_map, List.mem_filter, decide_eq_true_eq]
  constructor
  · rintro ⟨⟨⟨a, b⟩, v⟩, ⟨mem, rfl⟩, rfl⟩
    exact ⟨b, ExtTreeMap.mem_toList_iff_getElem?_eq_some.mp mem⟩
  · rintro ⟨second, found⟩
    exact ⟨((first, second), row),
      ⟨ExtTreeMap.mem_toList_iff_getElem?_eq_some.mpr found, rfl⟩, rfl⟩

/-- Put rows into a table under their own keys, the last of equal keys winning. -/
def collect (key : V → K) (rows : List V) : Table K V :=
  rows.foldl (fun table row => table.insert (key row) row) ∅

/-- Rows read under one first half are strictly ordered by their second half. -/
theorem under_pairwise [DecidableEq A] {table : Table (A × B) V} {first : A} {key : V → B}
    (own : ∀ (second : B) row, table[(first, second)]? = some row → key row = second) :
    (table.under first).Pairwise fun left right => TableKey.order (key left) (key right) = .lt := by
  unfold under
  rw [List.pairwise_map, List.pairwise_filter]
  refine ExtTreeMap.ordered_keys_toList.imp_of_mem ?_
  rintro ⟨⟨a, b⟩, v⟩ ⟨⟨c, d⟩, w⟩ left right ordered sameLeft sameRight
  obtain rfl : a = first := by simpa using sameLeft
  obtain rfl : c = a := by simpa using sameRight
  have leftKey := own b v (ExtTreeMap.mem_toList_iff_getElem?_eq_some.mp left)
  have rightKey := own d w (ExtTreeMap.mem_toList_iff_getElem?_eq_some.mp right)
  simp only [leftKey, rightKey]
  change (TableKey.order c c).then (TableKey.order b d) = .lt at ordered
  simpa [ReflCmp.compare_self] using ordered

end Table

/-- Replace the first element that satisfies `which`. -/
def modifyFirst {V : Type} (which : V → Bool) (change : V → V) : List V → List V
  | [] => []
  | row :: rest => if which row then change row :: rest else row :: modifyFirst which change rest

theorem length_modifyFirst {V : Type} (which : V → Bool) (change : V → V) (rows : List V) :
    (modifyFirst which change rows).length = rows.length := by
  induction rows with
  | nil => rfl
  | cons row rest ih =>
    rw [modifyFirst]
    split
    · rfl
    · rw [List.length_cons, List.length_cons, ih]

/-- The list contains exactly the rows of `lookup`, each under its own key and
once. -/
structure Holds {K V : Type} (key : V → K) (rows : List V) (lookup : K → Option V) : Prop where
  nodup : (rows.map key).Nodup
  mem_iff : ∀ row, row ∈ rows ↔ lookup (key row) = some row
  own : ∀ {k row}, lookup k = some row → key row = k

namespace Holds

section Membership

variable {K V : Type} {key : V → K} {rows others : List V} {lookup : K → Option V}

end Membership

variable {K V : Type} [DecidableEq K] {key : V → K} {rows : List V} {lookup : K → Option V}

theorem find? (holds : Holds key rows lookup) (k : K) :
    rows.find? (fun row => key row = k) = lookup k := by
  cases found : rows.find? (fun row => key row = k) with
  | some row =>
    have mem := List.mem_of_find?_eq_some found
    have same : key row = k := by simpa using List.find?_some found
    rw [← same]
    exact ((holds.mem_iff row).mp mem).symm
  | none =>
    cases present : lookup k with
    | none => rfl
    | some row =>
      have same := holds.own present
      have mem := (holds.mem_iff row).mpr (by rw [same, present])
      have absent := List.find?_eq_none.mp found row mem
      simp [same] at absent

/-- Rows collected into a table are found under their own keys. -/
theorem getElem?_collect [TableKey K] (holds : Holds key rows lookup) (k : K) :
    (Table.collect key rows)[k]? = lookup k := by
  suffices general : ∀ (rows : List V) (table : Table K V), (rows.map key).Nodup →
      (rows.foldl (fun table row => table.insert (key row) row) table)[k]? =
        (rows.find? fun row => key row = k).or table[k]? by
    rw [Table.collect, general rows ∅ holds.nodup, holds.find? k, Table.getElem?_empty, Option.or_none]
  intro rows
  induction rows with
  | nil =>
    intro table _
    simp
  | cons head tail ih =>
    intro table nodup
    rw [List.map_cons, List.nodup_cons] at nodup
    rw [List.foldl_cons, ih _ nodup.2, Table.getElem?_insert]
    by_cases same : key head = k
    · have absent : tail.find? (fun row => key row = k) = none := by
        rw [List.find?_eq_none]
        intro row mem equal
        exact nodup.1 (List.mem_map.mpr ⟨row, mem, by rw [same]; simpa using equal⟩)
      simp [same, absent]
    · simp [same]

/-- Rows read under the first half of a composite key hold the lookups of the
second half. -/
theorem ofUnder {A B : Type} [TableKey A] [TableKey B] [DecidableEq A]
    {table : Table (A × B) V} {first : A} {key : V → B}
    (own : ∀ (second : B) row, table[(first, second)]? = some row → key row = second) :
    Holds key (table.under first) (fun second : B => table[(first, second)]?) where
  nodup := by
    rw [List.Nodup, List.pairwise_map]
    refine (Table.under_pairwise own).imp ?_
    intro left right ordered equal
    rw [equal, TableKey.lawful.compare_self] at ordered
    cases ordered
  mem_iff := by
    intro row
    rw [Table.mem_under]
    constructor
    · rintro ⟨second, found⟩
      rw [own second row found]
      exact found
    · exact fun found => ⟨_, found⟩
  own := by
    intro second row found
    exact own second row found

end Holds

end Nits.Logical
