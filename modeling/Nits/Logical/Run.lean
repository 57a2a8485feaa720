import Mathlib.Data.List.Induction

/-!
# Runs

A run folds a sequence of inputs into a state. What holds in every state of a run is
shown by an invariant that every step keeps, or that every step keeps which meets a
condition on the input and the state before it.
-/

namespace Nits.Logical.Run

variable {σ ι : Type} (step : σ → ι → σ)

/-- Every step of the run from `start` meets a condition on the state before it. -/
def Steps (condition : σ → ι → Prop) (start : σ) (inputs : List ι) : Prop :=
  ∀ early input, early ++ [input] <+: inputs → condition (early.foldl step start) input

/-- Every state of the run from `start` has a property. -/
def Always (property : σ → Prop) (start : σ) (inputs : List ι) : Prop :=
  ∀ early, early <+: inputs → property (early.foldl step start)

variable {invariant property : σ → Prop} {condition : σ → ι → Prop} {start : σ} {inputs : List ι}

/-- A run's steps up to some point are steps of the run. -/
theorem steps_initial {early : List ι} (steps : Steps step condition start inputs)
    (part : early <+: inputs) : Steps step condition start early :=
  fun before input shorter => steps before input (shorter.trans part)

theorem steps_nil : Steps step condition start [] := by
  intro early input part
  exact absurd (List.prefix_nil.mp part) (by simp)

theorem steps_cons {input : ι} : Steps step condition start (input :: inputs) ↔
    condition start input ∧ Steps step condition (step start input) inputs := by
  constructor
  · intro steps
    refine ⟨steps [] input (by simp), fun early other part => ?_⟩
    exact steps (input :: early) other (List.cons_prefix_cons.mpr ⟨rfl, part⟩)
  · rintro ⟨first, rest⟩ early other part
    rcases early with _ | ⟨before, early⟩
    · obtain ⟨rfl, _⟩ := List.cons_prefix_cons.mp part
      exact first
    · obtain ⟨rfl, later⟩ := List.cons_prefix_cons.mp part
      exact rest early other later

theorem steps_append {early late : List ι} : Steps step condition start (early ++ late) ↔
    Steps step condition start early ∧ Steps step condition (early.foldl step start) late := by
  induction early generalizing start with
  | nil => exact ⟨fun steps => ⟨steps_nil step, steps⟩, fun both => both.2⟩
  | cons input early ih =>
    rw [List.cons_append, steps_cons, steps_cons, ih, and_assoc, List.foldl_cons]

/-- Inputs that meet a condition in every state make steps that meet it. -/
theorem steps_of_forall (met : ∀ input ∈ inputs, ∀ state, condition state input) :
    Steps step condition start inputs :=
  fun _ input part =>
    met input (part.subset (List.mem_append_right _ (List.mem_singleton_self input))) _

/-- Whether a concrete run's steps meet a condition can be computed. -/
instance decideSteps [∀ state input, Decidable (condition state input)] :
    ∀ inputs start, Decidable (Steps step condition start inputs)
  | [], _ => isTrue (steps_nil step)
  | input :: rest, start =>
    have := decideSteps rest (step start input)
    decidable_of_iff _ (steps_cons step).symm

/-- The invariant carries over a run whose steps meet the condition. -/
theorem steps_keep (keeps : ∀ state input, invariant state → condition state input →
      invariant (step state input)) (initial : invariant start)
    (steps : Steps step condition start inputs) : invariant (inputs.foldl step start) := by
  induction inputs using List.reverseRecOn with
  | nil => exact initial
  | append_singleton early input held =>
    have before : invariant (early.foldl step start) :=
      held (steps_initial step steps (List.prefix_append early [input]))
    rw [List.foldl_append]
    exact keeps _ input before (steps early input (List.prefix_refl _))

theorem steps_always (keeps : ∀ state input, invariant state → condition state input →
      invariant (step state input)) (initial : invariant start)
    (steps : Steps step condition start inputs) : Always step invariant start inputs :=
  fun _ part => steps_keep step keeps initial (steps_initial step steps part)

/-- Two conditions that agree wherever an invariant of every step holds agree on runs. -/
theorem steps_congr {other : σ → ι → Prop}
    (keeps : ∀ state input, invariant state → invariant (step state input))
    (agree : ∀ state input, invariant state → (condition state input ↔ other state input))
    (initial : invariant start) :
    Steps step condition start inputs ↔ Steps step other start inputs := by
  have held : ∀ early : List ι, invariant (early.foldl step start) := by
    intro early
    have free : Steps step (fun _ _ => True) start early := fun _ _ _ => trivial
    exact steps_keep step (fun state input holds _ => keeps state input holds) initial free
  constructor
  · exact fun steps early input part => (agree _ input (held early)).mp (steps early input part)
  · exact fun steps early input part => (agree _ input (held early)).mpr (steps early input part)

/-- When a step keeps the property exactly on the condition, so does a run. -/
theorem always_iff_steps (keeps : ∀ state input, invariant state → condition state input →
      invariant (step state input)) (holds : ∀ state, invariant state → property state)
    (needs : ∀ state input, invariant state → property (step state input) →
      condition state input) (initial : invariant start) :
    Always step property start inputs ↔ Steps step condition start inputs := by
  constructor
  · intro always
    suffices ∀ early, early <+: inputs → Steps step condition start early from
      this inputs (List.prefix_refl _)
    intro early
    induction early using List.reverseRecOn with
    | nil =>
      intro _ before input short
      exact absurd (List.prefix_nil.mp short) (by simp)
    | append_singleton early input steps =>
      intro part
      have shorter : early <+: inputs := (List.prefix_append early [input]).trans part
      have sound : invariant (early.foldl step start) :=
        steps_keep step keeps initial (steps shorter)
      have last : condition (early.foldl step start) input := by
        refine needs _ input sound ?_
        have held := always _ part
        rwa [List.foldl_append] at held
      intro before next short
      rcases List.prefix_concat_iff.mp short with same | within
      · obtain ⟨rfl, rfl⟩ := List.append_inj' same rfl |>.imp_right List.singleton_inj.mp
        exact last
      · exact steps shorter before next within
  · intro steps early part
    exact holds _ (steps_keep step keeps initial (steps_initial step steps part))

end Nits.Logical.Run
