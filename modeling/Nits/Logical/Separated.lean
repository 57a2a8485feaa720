import Mathlib.Data.List.Basic

/-!
# Lists with a separator

A list is cut at one separator. Where the separator is missing on one side, the sides are
determined by the whole.
-/

namespace Nits.Logical

variable {α : Type} {separator : α} {front front' back back' : List α}

/-- What comes behind the last separator. -/
theorem behind_inj (plain : separator ∉ back) (plain' : separator ∉ back')
    (same : front ++ separator :: back = front' ++ separator :: back') :
    front = front' ∧ back = back' := by
  rcases List.append_eq_append_iff.mp same with ⟨more, rfl, rest⟩ | ⟨more, rfl, rest⟩
  · cases more with
    | nil =>
      rw [List.append_nil]
      exact ⟨rfl, (List.cons.inj rest).2⟩
    | cons c more =>
      refine absurd ?_ plain
      rw [(List.cons.inj rest).2]
      simp
  · cases more with
    | nil =>
      rw [List.append_nil]
      exact ⟨rfl, (List.cons.inj rest).2.symm⟩
    | cons c more =>
      refine absurd ?_ plain'
      rw [(List.cons.inj rest).2]
      simp

/-- What comes before the first separator. -/
theorem before_inj (plain : separator ∉ front) (plain' : separator ∉ front')
    (same : front ++ separator :: back = front' ++ separator :: back') :
    front = front' ∧ back = back' := by
  have turned := congrArg List.reverse same
  simp only [List.reverse_append, List.reverse_cons, List.append_assoc, List.singleton_append] at turned
  obtain ⟨backs, fronts⟩ := behind_inj (fun mem => plain (List.mem_reverse.mp mem))
    (fun mem => plain' (List.mem_reverse.mp mem)) turned
  exact ⟨List.reverse_injective fronts, List.reverse_injective backs⟩

end Nits.Logical
