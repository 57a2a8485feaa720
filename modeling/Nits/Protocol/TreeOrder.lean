import Nits.Logical.Hierarchy
import Nits.Protocol.Invariants

/-!
# Tree display order of paths

The comparison that file lists are sorted by, and the components it compares. A path
below a directory is the directory's components, then its own.
-/

namespace Nits.Protocol

open Logical

/-- The components of a `/`-separated text. -/
def componentsOf (text : List Char) : List String :=
  (text.splitOn '/').map String.ofList

theorem componentsOf_ne_nil (text : List Char) : componentsOf text ≠ [] := by
  simp [componentsOf, List.splitOn_ne_nil]

theorem componentsOf_append (folder rest : List Char) :
    componentsOf (folder ++ '/' :: rest) = componentsOf folder ++ componentsOf rest := by
  rw [componentsOf, List.splitOn_append_cons_self, List.map_append]
  rfl

theorem componentsOf_eq_singleton {name : List Char} (plain : '/' ∉ name) :
    componentsOf name = [String.ofList name] := by
  rw [componentsOf, List.splitOn_eq_singleton plain]
  rfl

theorem componentsOf_injective : Function.Injective componentsOf := by
  intro left right same
  have split : left.splitOn '/' = right.splitOn '/' :=
    List.map_injective_iff.mpr (fun one other alike => String.ofList_injective alike) same
  have join (text : List Char) : ['/'].intercalate (text.splitOn '/') = text :=
    List.intercalate_splitOn '/'
  rw [← join left, ← join right, split]

namespace RepoPath

/-- A text is a path when none of its components is blank or relative. -/
theorem invalidity_eq_none_iff {text : String} : invalidity text = none ↔ '\x00' ∉ text.toList ∧
      ∀ component ∈ text.toList.splitOn '/',
        component ≠ [] ∧ component ≠ ['.'] ∧ component ≠ ['.', '.'] := by
  have judged (component : List Char) :
      (if component.isEmpty then some "empty component"
      else if component = ['.'] ∨ component = ['.', '.'] then some "relative component"
      else none) = none ↔ component ≠ [] ∧ component ≠ ['.'] ∧ component ≠ ['.', '.'] := by
    by_cases blank : component = []
    · simp [blank]
    · by_cases relative : component = ['.'] ∨ component = ['.', '.']
      · have named : component ≠ [] ∧ component ≠ ['.'] ∧ component ≠ ['.', '.'] ↔ False := by
          refine iff_of_false ?_ id
          rintro ⟨-, here, parent⟩
          exact relative.elim here parent
        rw [named]
        simp [blank, relative]
      · simp [blank, not_or.mp relative]
  have judgedAll (chars : List Char) : (chars.splitOn '/').findSome? (fun component =>
      if component.isEmpty then some "empty component"
      else if component = ['.'] ∨ component = ['.', '.'] then some "relative component"
      else none) = none ↔ ∀ component ∈ chars.splitOn '/',
        component ≠ [] ∧ component ≠ ['.'] ∧ component ≠ ['.', '.'] := by
    rw [List.findSome?_eq_none_iff]
    exact forall₂_congr fun component _ => judged component
  unfold invalidity
  generalize text.toList = chars
  dsimp only
  constructor
  · intro valid
    split at valid
    · cases valid
    split at valid
    · cases valid
    rename_i plain
    split at valid
    · cases valid
    split at valid
    · cases valid
    exact ⟨by simpa using plain, (judgedAll chars).mp valid⟩
  · rintro ⟨plain, components⟩
    -- A blank text or a slash at either end leaves a blank component.
    have blank : [] ∉ chars.splitOn '/' := fun mem => (components [] mem).1 rfl
    have nonempty : ¬ chars.isEmpty := by
      intro empty
      rw [List.isEmpty_iff.mp empty] at blank
      simp at blank
    have absolute : chars.head? ≠ some '/' := by
      intro starts
      obtain ⟨rest, rfl⟩ := List.head?_eq_some_iff.mp starts
      have split := List.splitOn_append_cons_self (a := '/') [] rest
      rw [List.nil_append] at split
      rw [split] at blank
      simp at blank
    have trailing : chars.getLast? ≠ some '/' := by
      intro ends
      obtain ⟨before, rfl⟩ := List.getLast?_eq_some_iff.mp ends
      rw [List.splitOn_append_cons_self] at blank
      simp at blank
    simp only [if_neg nonempty, if_neg absolute, if_neg trailing]
    rw [if_neg (by simpa using plain)]
    exact (judgedAll chars).mpr components

/-- What precedes a slash in a path is a path. -/
theorem invalidity_before {text : String} {folder rest : List Char}
    (valid : invalidity text = none) (split : text.toList = folder ++ '/' :: rest) :
    invalidity (String.ofList folder) = none := by
  rw [invalidity_eq_none_iff] at valid ⊢
  rw [split, List.splitOn_append_cons_self] at valid
  rw [String.toList_ofList]
  obtain ⟨plain, components⟩ := valid
  exact ⟨fun mem => plain (List.mem_append_left _ mem),
    fun component mem => components component (List.mem_append_left _ mem)⟩

/-- Path components in order. -/
def components (path : RepoPath) : List String := componentsOf path.asStr.toList

theorem new_of_valid {text : String} (valid : invalidity text = none) :
    RepoPath.new text = .ok ⟨text, valid⟩ := by
  unfold RepoPath.new
  split
  · rename_i invalid
    rw [valid] at invalid
    cases invalid
  · rfl

theorem components_injective : Function.Injective components := by
  intro left right same
  exact asStr_injective (String.toList_injective (componentsOf_injective same))

/-- The walk of both component iterators: a component with more to come is a
directory's. -/
def treeOrderFrom : List String → List String → Ordering
  | ca :: xa, cb :: xb =>
    match (compare (!xb.isEmpty) (!xa.isEmpty)).then (compare ca cb) with
    | .eq => treeOrderFrom xa xb
    | decided => decided
  | xa, xb => compare (!xa.isEmpty) (!xb.isEmpty)

/-- Tree display order (dirs first, then files, each alphabetical): the one order file
lists are served and shown in. -/
def treeOrder (path other : RepoPath) : Ordering :=
  treeOrderFrom path.components other.components

theorem treeOrderFrom_eq (left right : List String) :
    treeOrderFrom left right = Hierarchy.order left right := by
  induction left generalizing right with
  | nil => cases right <;> rfl
  | cons ca xa ih =>
    cases right with
    | nil => rfl
    | cons cb xb =>
      have level : compare (!xb.isEmpty) (!xa.isEmpty) = compare xa.isEmpty xb.isEmpty := by
        cases xa.isEmpty <;> cases xb.isEmpty <;> rfl
      rw [treeOrderFrom, level, Hierarchy.order_cons, ih]
      change _ = ((compare xa.isEmpty xb.isEmpty).then (compare ca cb)).then _
      cases (compare xa.isEmpty xb.isEmpty).then (compare ca cb) <;> rfl

/-- Strictly before in tree display order. -/
def TreeBefore (path other : RepoPath) : Prop := treeOrder path other = .lt

instance : DecidableRel TreeBefore := fun path other =>
  inferInstanceAs (Decidable (treeOrder path other = .lt))

theorem treeOrder_eq (path other : RepoPath) :
    path.treeOrder other = TableKey.order (Hierarchy.places path.components)
      (Hierarchy.places other.components) :=
  treeOrderFrom_eq path.components other.components

theorem treeBefore_iff {path other : RepoPath} : path.TreeBefore other ↔
      TableKey.Before (Hierarchy.places path.components) (Hierarchy.places other.components) := by
  rw [TreeBefore, treeOrder_eq]
  rfl

theorem places_injective :
    Function.Injective fun path : RepoPath => Hierarchy.places path.components :=
  Hierarchy.places_injective.comp components_injective

theorem TreeBefore.irrefl (path : RepoPath) : ¬ path.TreeBefore path := by
  rw [treeBefore_iff]
  exact TableKey.Before.irrefl _

theorem TreeBefore.asymm {path other : RepoPath} (before : path.TreeBefore other) :
    ¬ other.TreeBefore path := by
  rw [treeBefore_iff] at before ⊢
  exact before.asymm

/-- Different paths sort into strict tree order. -/
theorem sortWith_treeOrder {paths : List RepoPath} (distinct : paths.Nodup) :
    (sortWith treeOrder paths).Pairwise TreeBefore := by
  have placed : (paths.map fun path => Hierarchy.places path.components).Nodup :=
    distinct.map places_injective
  exact (sortWith_before treeOrder_eq placed).imp treeBefore_iff.mpr

end RepoPath

end Nits.Protocol
