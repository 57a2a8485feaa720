import Mathlib.Algebra.BigOperators.Group.List.Basic
import Mathlib.Algebra.Ring.Int.Defs

/-!
# Edit scripts

A script between two lists names the changed regions in order; what lies between two
of them is the same on both sides. An element outside every changed region is found
on the other side, shifted by what the regions before it added.
-/

namespace Nits.Logical

/-- A changed region: 0-based half-open ranges of old and new positions. -/
structure Hunk where
  beforeStart : Nat
  beforeEnd : Nat
  afterStart : Nat
  afterEnd : Nat
  deriving DecidableEq

/-- How many elements a region adds. -/
def Hunk.growth (hunk : Hunk) : Int :=
  ((hunk.afterEnd : Int) - hunk.afterStart) - ((hunk.beforeEnd : Int) - hunk.beforeStart)

/-- What the regions that end by a position add before it. -/
def growthBefore (position : Nat) (hunks : List Hunk) : Int :=
  ((hunks.filter fun hunk => hunk.beforeEnd ≤ position).map Hunk.growth).sum

theorem growthBefore_eq_zero {position : Nat} {hunks : List Hunk}
    (after : ∀ hunk ∈ hunks, position < hunk.beforeEnd) : growthBefore position hunks = 0 := by
  have none : (hunks.filter fun hunk => hunk.beforeEnd ≤ position) = [] :=
    List.filter_eq_nil_iff.mpr fun hunk mem => by simpa using after hunk mem
  rw [growthBefore, none, List.map_nil, List.sum_nil]

theorem growthBefore_cons {position : Nat} {hunk : Hunk} {hunks : List Hunk}
    (ended : hunk.beforeEnd ≤ position) :
    growthBefore position (hunk :: hunks) = hunk.growth + growthBefore position hunks := by
  rw [growthBefore, growthBefore, List.filter_cons_of_pos (by simpa using ended), List.map_cons,
    List.sum_cons]

/-- The hunks, from the positions `i` and `j` on, are in order and the lists agree
everywhere else. -/
inductive EditScript {α : Type} (old new : List α) : Nat → Nat → List Hunk → Prop
  | rest {i j : Nat} (same : old.drop i = new.drop j) : EditScript old new i j []
  | hunk {i j : Nat} {hunk : Hunk} {hunks : List Hunk} (before : i ≤ hunk.beforeStart)
      (aligned : hunk.beforeStart + j = hunk.afterStart + i)
      (same : ∀ k, i + k < hunk.beforeStart → old[i + k]? = new[j + k]?)
      (removed : hunk.beforeStart ≤ hunk.beforeEnd) (added : hunk.afterStart ≤ hunk.afterEnd)
      (script : EditScript old new hunk.beforeEnd hunk.afterEnd hunks) :
      EditScript old new i j (hunk :: hunks)

namespace EditScript

variable {α : Type} {old new : List α} {i j : Nat} {hunks : List Hunk}

theorem refl : EditScript old old 0 0 [] := .rest rfl

/-- All of one list replaced by all of the other. -/
theorem replaceAll : EditScript old new 0 0 [⟨0, old.length, 0, new.length⟩] :=
  .hunk (Nat.le_refl 0) (by simp) (by simp) (Nat.zero_le _) (Nat.zero_le _)
    (.rest (by rw [List.drop_length, List.drop_length]))

theorem ordered (script : EditScript old new i j hunks) :
    ∀ hunk ∈ hunks, i ≤ hunk.beforeStart ∧ hunk.beforeStart ≤ hunk.beforeEnd := by
  induction script with
  | rest => simp
  | hunk before aligned same removed added script ih =>
    intro other mem
    rcases List.mem_cons.mp mem with rfl | later
    · exact ⟨before, removed⟩
    · have later := ih other later
      omega

/-- A region that no hunk touches is kept, shifted by what was added before it. -/
theorem kept (script : EditScript old new i j hunks) {start finish line : Nat}
    (apart : ∀ hunk ∈ hunks, hunk.beforeEnd ≤ start ∨ finish < hunk.beforeStart)
    (from_ : i ≤ start) (above : start ≤ line) (below : line ≤ finish) :
    ∃ target : Nat, (target : Int) = line + ((j : Int) - i) + growthBefore start hunks ∧
      old[line]? = new[target]? := by
  induction script with
  | @rest i j same =>
    refine ⟨j + (line - i), by simp [growthBefore]; omega, ?_⟩
    have shifted := congrArg (fun list => list[line - i]?) same
    simpa [List.getElem?_drop, show i + (line - i) = line by omega] using shifted
  | @hunk i j hunk hunks before aligned same removed added script ih =>
    rcases apart hunk List.mem_cons_self with ended | beyond
    · obtain ⟨target, position, kept⟩ := ih
        (fun other mem => apart other (List.mem_cons_of_mem _ mem)) ended
      refine ⟨target, ?_, kept⟩
      rw [position, growthBefore_cons ended, Hunk.growth]
      omega
    · -- Every later hunk lies beyond the region, too.
      have none : growthBefore start (hunk :: hunks) = 0 := by
        refine growthBefore_eq_zero fun other mem => ?_
        rcases List.mem_cons.mp mem with rfl | later
        · omega
        · have after := script.ordered other later
          omega
      refine ⟨j + (line - i), by omega, ?_⟩
      have kept := same (line - i) (by omega)
      rwa [show i + (line - i) = line by omega] at kept

end EditScript

end Nits.Logical
