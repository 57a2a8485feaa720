import Nits.Logical.Table
import Mathlib.Data.List.Pairwise
import Mathlib.Data.List.Sort

/-!
# Display order in a hierarchy

A thing is placed in a hierarchy by a list of names: the folders around it from the
outermost in, then its own. The display order puts the folders of every level before its
leaves, each in the order of their names. Two listings in one strict order with the same
members are the same listing; a listing made of blocks is determined by the order of the
blocks that hold something.
-/

namespace Nits.Logical

open Std

namespace TableKey

variable {A : Type}

instance : TableKey Bool := ofImage id Function.injective_id

/-- Lists compare by their first difference; a list comes before its extensions. -/
instance list [TableKey A] : TableKey (List A) where
  order := List.compareLex order
  trans := inferInstance
  lawful := inferInstance

theorem order_list_cons [TableKey A] (left right : A) (lefts rights : List A) :
    order (left :: lefts) (right :: rights) = (order left right).then (order lefts rights) :=
  List.compareLex_cons_cons

theorem order_pair {B : Type} [TableKey A] [TableKey B] (left right : A × B) :
    order left right = (order left.1 right.1).then (order left.2 right.2) := rfl

/-- Strictly before in the order of the keys. -/
def Before [TableKey A] (left right : A) : Prop := order left right = .lt

instance [TableKey A] : DecidableRel (Before (A := A)) := fun left right =>
  inferInstanceAs (Decidable (order left right = .lt))

namespace Before

variable [TableKey A] {first second third : A}

theorem irrefl (key : A) : ¬ Before key key := by
  intro before
  have same : order key key = .eq := ReflCmp.compare_self
  rw [Before, same] at before
  cases before

theorem trans (early : Before first second) (late : Before second third) : Before first third :=
  TransCmp.lt_trans early late

theorem asymm (before : Before first second) : ¬ Before second first := fun after =>
  irrefl first (before.trans after)

theorem of_not (apart : first ≠ second) (after : ¬ Before second first) : Before first second := by
  have swapped : order first second = (order second first).swap := OrientedCmp.eq_swap
  cases compared : order second first with
  | lt => exact absurd compared after
  | eq => exact absurd (LawfulEqCmp.eq_of_compare compared).symm apart
  | gt => rw [Before, swapped, compared, Ordering.swap_gt]

theorem trichotomy (first second : A) :
    Before first second ∨ first = second ∨ Before second first := by
  by_cases apart : first = second
  · exact .inr (.inl apart)
  · by_cases after : Before second first
    · exact .inr (.inr after)
    · exact .inl (of_not apart after)

end Before

end TableKey

/-! ## Sorting -/

section Sorting

variable {A K : Type} [TableKey K] {order : A → A → Ordering} {image : A → K} {items : List A}

/-- A stable sort by a comparison. -/
def sortWith (order : A → A → Ordering) (items : List A) : List A :=
  items.insertionSort fun left right => order left right ≠ .gt

theorem sortWith_perm (order : A → A → Ordering) (items : List A) :
    (sortWith order items).Perm items :=
  List.perm_insertionSort _ items

@[simp] theorem mem_sortWith {one : A} : one ∈ sortWith order items ↔ one ∈ items :=
  (sortWith_perm order items).mem_iff

/-- Sorting by distinct keys puts them in strict order. -/
theorem sortWith_before
    (keyed : ∀ left right, order left right = TableKey.order (image left) (image right))
    (distinct : (items.map image).Nodup) : (sortWith order items).Pairwise fun left right =>
      TableKey.Before (image left) (image right) := by
  have notGreater (left right : A) :
      order left right ≠ .gt ↔ ¬ TableKey.Before (image right) (image left) := by
    rw [keyed, TableKey.Before, not_iff_not]
    exact OrientedCmp.gt_iff_lt
  have total : Std.Total fun left right : A => order left right ≠ .gt := by
    refine ⟨fun left right => ?_⟩
    rw [notGreater, notGreater]
    by_cases before : TableKey.Before (image right) (image left)
    · exact .inr before.asymm
    · exact .inl before
  have transitive : IsTrans A fun left right => order left right ≠ .gt := by
    refine ⟨fun first second third early late => ?_⟩
    rw [notGreater] at early late ⊢
    intro before
    obtain sooner | same | later := TableKey.Before.trichotomy (image first) (image second)
    · exact late (before.trans sooner)
    · exact late (same ▸ before)
    · exact early later
  have sorted := List.pairwise_insertionSort (fun left right => order left right ≠ .gt) items
  have apart : (sortWith order items).Pairwise fun left right => image left ≠ image right := by
    have distinct : ((sortWith order items).map image).Nodup :=
      ((sortWith_perm order items).map image).nodup_iff.mpr distinct
    exact List.pairwise_map.mp distinct
  refine (sorted.and apart).imp ?_
  rintro left right ⟨most, different⟩
  exact .of_not different ((notGreater left right).mp most)

end Sorting

namespace Hierarchy

variable {N : Type}

open TableKey

/-- Whether each name is a leaf's, and the name. Folders come first: only the last name
is a leaf's. -/
def places : List N → List (Bool × N)
  | [] => []
  | name :: rest => (rest.isEmpty, name) :: places rest

theorem map_places (names : List N) : (places names).map Prod.snd = names := by
  induction names with
  | nil => rfl
  | cons name rest ih =>
    rw [places, List.map_cons, ih]

theorem places_injective : Function.Injective (places (N := N)) := by
  intro left right same
  rw [← map_places left, ← map_places right, same]

/-- Folders first at every level, then leaves, each by name. -/
def order [TableKey N] (left right : List N) : Ordering :=
  TableKey.order (places left) (places right)

theorem order_cons [TableKey N] (left right : N) (lefts rights : List N) :
    order (left :: lefts) (right :: rights) =
      ((compare lefts.isEmpty rights.isEmpty).then (TableKey.order left right)).then
        (order lefts rights) := by
  rw [order, places, places, order_list_cons, order_pair]
  rfl

/-- Names that agree on the folders around them compare by what is below. -/
theorem order_append [TableKey N] (folders : List N) {lefts rights : List N} (left : lefts ≠ [])
    (right : rights ≠ []) : order (folders ++ lefts) (folders ++ rights) = order lefts rights := by
  induction folders with
  | nil => rfl
  | cons folder rest ih =>
    have leftMore : (rest ++ lefts).isEmpty = false := by simp [left]
    have rightMore : (rest ++ rights).isEmpty = false := by simp [right]
    have self : TableKey.order folder folder = .eq := ReflCmp.compare_self
    have level : compare false false = Ordering.eq := rfl
    rw [List.cons_append, List.cons_append, order_cons, leftMore, rightMore, self, level,
      ih]
    rfl

end Hierarchy

/-! ## Listings -/

section Listings

variable {A K : Type}

/-- Two strictly ordered listings with the same members are equal. -/
theorem eq_of_before_of_mem_iff {before : A → A → Prop} {left right : List A}
    (irrefl : ∀ one, ¬ before one one) (asymm : ∀ one other, before one other → ¬ before other one)
    (leftOrdered : left.Pairwise before) (rightOrdered : right.Pairwise before)
    (members : ∀ one, one ∈ left ↔ one ∈ right) : left = right := by
  have distinct : ∀ {list : List A}, list.Pairwise before → list.Nodup := by
    intro list ordered
    refine ordered.imp ?_
    rintro one _ related rfl
    exact irrefl one related
  have rearranged : left.Perm right :=
    (List.perm_ext_iff_of_nodup (distinct leftOrdered) (distinct rightOrdered)).mpr members
  refine rearranged.eq_of_pairwise ?_ leftOrdered rightOrdered
  intro one other _ _ early late
  exact absurd late (asymm one other early)

variable {block : K → List A} {key : A → K}

/-- Two orders of one listing agree on any two of its members. -/
theorem agree_of_pairwise {first second : A → A → Prop} {list : List A}
    (ordered : list.Pairwise first) (alsoOrdered : list.Pairwise second) {one other : A}
    (mem : one ∈ list) (mem' : other ∈ list) (apart : one ≠ other) :
    (first one other ∧ second one other) ∨ (first other one ∧ second other one) := by
  have both : list.Pairwise fun one other =>
      (first one other ∧ second one other) ∨ (first other one ∧ second other one) :=
    (ordered.and alsoOrdered).imp Or.inl
  have symmetric : Std.Symm fun one other =>
      (first one other ∧ second one other) ∨ (first other one ∧ second other one) :=
    ⟨fun _ _ => Or.symm⟩
  exact both.forall mem mem' apart

/-- Empty blocks add nothing to a listing. -/
theorem flatMap_filter_ne_nil [DecidableEq A] (block : K → List A) (keys : List K) :
    (keys.filter fun key => block key ≠ []).flatMap block = keys.flatMap block := by
  induction keys with
  | nil => rfl
  | cons first rest ih =>
    by_cases empty : block first = []
    · simp [empty] at ih ⊢
      exact ih
    · simp [empty] at ih ⊢
      exact ih

/-- Nonempty blocks of distinct keys are listed alike only in one order. -/
theorem eq_of_flatMap_eq (keyed : ∀ key', ∀ one ∈ block key', key one = key') {left right : List K}
    (leftFull : ∀ key' ∈ left, block key' ≠ []) (rightFull : ∀ key' ∈ right, block key' ≠ [])
    (same : left.flatMap block = right.flatMap block) : left = right := by
  induction left generalizing right with
  | nil =>
    cases right with
    | nil => rfl
    | cons first rest =>
      have empty : block first = [] := by
        have none : [] = block first ++ rest.flatMap block := by simpa using same
        exact (List.append_eq_nil_iff.mp none.symm).1
      exact absurd empty (rightFull first (by simp))
  | cons first rest ih =>
    cases right with
    | nil =>
      have empty : block first = [] := by
        have none : block first ++ rest.flatMap block = [] := by simpa using same
        exact (List.append_eq_nil_iff.mp none).1
      exact absurd empty (leftFull first (by simp))
    | cons other others =>
      have heads : first = other := by
        obtain ⟨one, ones, listed⟩ := List.exists_cons_of_ne_nil (leftFull first (by simp))
        obtain ⟨two, twos, listed'⟩ := List.exists_cons_of_ne_nil (rightFull other (by simp))
        rw [List.flatMap_cons, List.flatMap_cons, listed, listed', List.cons_append,
          List.cons_append] at same
        have met : one = two := (List.cons.inj same).1
        rw [← keyed first one (by simp [listed]), ← keyed other two (by simp [listed']), met]
      subst heads
      rw [List.flatMap_cons, List.flatMap_cons] at same
      rw [ih (fun key' mem => leftFull key' (by simp [mem]))
        (fun key' mem => rightFull key' (by simp [mem])) (List.append_cancel_left same)]

/-- A listing by ordered keys agrees with one by other keys exactly when the keys that hold
something are in that order there too. -/
theorem flatMap_eq_iff_ordered [DecidableEq A] {before : K → K → Prop} {keys others : List K}
    (keyed : ∀ key', ∀ one ∈ block key', key one = key')
    (irrefl : ∀ one, ¬ before one one) (asymm : ∀ one other, before one other → ¬ before other one)
    (ordered : keys.Pairwise before)
    (members : ∀ key', key' ∈ keys ↔ key' ∈ others ∧ block key' ≠ []) :
    keys.flatMap block = others.flatMap block ↔
      (others.filter fun key' => block key' ≠ []).Pairwise before := by
  have members' (key' : K) : key' ∈ keys ↔ key' ∈ others.filter fun key' => block key' ≠ [] := by
    rw [members, List.mem_filter, decide_eq_true_eq]
  rw [← flatMap_filter_ne_nil block others]
  constructor
  · intro same
    have alike := eq_of_flatMap_eq keyed (fun key' mem => ((members key').mp mem).2)
      (fun key' mem => by simpa using (List.mem_filter.mp mem).2) same
    exact alike ▸ ordered
  · intro alsoOrdered
    rw [eq_of_before_of_mem_iff irrefl asymm ordered alsoOrdered members']

end Listings

end Nits.Logical
