import Nits.ClientCore.Frames.Server

/-!
# What each input touches

`within_handle`: a relation that lets every part of the state change is kept by every
input, whatever else is derived from the state afterwards.
-/

namespace Nits.ClientCore

open Logical Logical.Handler Protocol

section Instances

variable [Presentation] {R : ClientCore → List Effect → ClientCore → Prop}

/-- A stored value may be read back. -/
class Restores (R : ClientCore → List Effect → ClientCore → Prop) : Prop where
  recalls (key : Key) (value : Option Bytes) : Within R (stored key value)

attribute [instance] Restores.recalls

/-! ## Keys and the clock -/

omit [Presentation] in
instance [Interface R] (chords : List KeyChord) : Within R (setChords chords) :=
  within_interface _ fun _ => rfl

omit [Presentation] in
instance [Interface R] : Within R countKey :=
  within_interface _ fun _ => rfl

omit [Presentation] in
instance [Interface R] (command : Option Command) : Within R (setLastKey command) :=
  within_interface _ fun _ => rfl

instance [Acts R] (chord : KeyChord) : Within R (key chord) := by
  unfold key
  refine within_next fun _ => ?_
  split
  · dsimp only
    split
    · refine within_then _ _ (within_interface _ fun _ => rfl) fun _ => ?_
      infer_instance
    · infer_instance
    · infer_instance
  · dsimp only
    split
    · refine within_then _ _ (within_interface _ fun _ => rfl) fun _ => ?_
      infer_instance
    · infer_instance
    · infer_instance

instance [Interface R] [Drafts R] [Creates R] (reason : String) :
    Within R (invalidAction reason) := by
  unfold invalidAction
  refine within_next fun core => ?_
  split
  next draft _ =>
    exact inferInstanceAs (Within R (do
      setDraft (some { draft with submissionError := some reason })
      render [.draft] : Client Unit))
  · infer_instance
  · infer_instance

instance [Interface R] [Connects R] [Loses R] (now : Millis) : Within R (tick now) := by
  unfold tick
  exact within_then _ _ (within_interface _ fun _ => rfl) fun _ => inferInstance

instance [Interface R] [Files R] [Options R] [Asks R] [Restores R] (key : Key)
    (value : Option Bytes) : Within R (loadAnswered key value) := by
  unfold loadAnswered
  infer_instance

/-! ## Derived state -/

omit [Presentation] in
theorem followRow_essence (core : ClientCore) : core.essence = core.followRow.essence := by
  unfold ClientCore.followRow
  dsimp only
  split <;> rfl

/-- Realigning moves the rows on screen, and the focus with them. -/
theorem realigned_moves [Interface R] [Files R] (core : ClientCore) : R core [] core.realigned := by
  unfold ClientCore.realigned
  split
  next want review file _ shown _ =>
    split
    · exact Course.stay core
    · dsimp only
      split
      · exact Course.stay core
      next row _ _ =>
        have moved := Files.files (R := R) core
          (fun review => { review with
            openFile := some { file with
              firstRow := (file.firstRow + (row : Int) - want.row).toNat
              lastRow := (file.lastRow + (row : Int) - want.row).toNat } })
          (fun _ => rfl) fun _ => rfl
        rw [shown] at moved
        exact Course.join moved (Interface.interface rfl)
  · exact Course.stay core

theorem presented_essence (core : ClientCore) : core.essence = core.presented.clamped.essence :=
  rfl

theorem derive_moves [Interface R] [Files R] (core : ClientCore) : R core [] core.derive := by
  have listed : R core [] core.listUncertain := Interface.interface rfl
  have followed : R core.listUncertain [] core.listUncertain.followRow :=
    Interface.interface (followRow_essence _)
  have selected : R core.listUncertain.followRow []
      core.listUncertain.followRow.selectWorkspace := Interface.interface rfl
  have realigned : R core.listUncertain.followRow.selectWorkspace []
      core.listUncertain.followRow.selectWorkspace.realigned := realigned_moves _
  have presented : R core.listUncertain.followRow.selectWorkspace.realigned [] core.derive :=
    Interface.interface (presented_essence _)
  exact Course.join (Course.join (Course.join (Course.join listed followed) selected) realigned)
    presented

/-! ## One input -/

/-- An order that a relation may see: a message to the daemon, or a write or removal of
a stored value. -/
def Effect.matters (effect : Effect) : Bool := effect.isSend || effect.isStorage

/-- The relation sees no other orders. -/
class Sees (R : ClientCore → List Effect → ClientCore → Prop) : Prop where
  sees {before after : ClientCore} {orders others : List Effect} :
    orders.filter Effect.matters = others.filter Effect.matters →
    R before orders after → R before others after

omit [Presentation] in
/-- Merging the renders leaves the orders that matter. -/
theorem rendered_matters (orders : List Effect) (changed : List ViewSection) :
    orders.filter Effect.matters = (rendered orders changed).filter Effect.matters := by
  have kept : (orders.filter fun order => ¬ order.isRender).filter Effect.matters =
      orders.filter Effect.matters := by
    rw [List.filter_filter]
    apply List.filter_congr
    intro order _
    cases order <;> rfl
  unfold rendered
  dsimp only
  rw [List.filter_append, kept]
  split
  · rw [List.filter_nil, List.append_nil]
  · exact (List.append_nil _).symm

/-- What an input's route keeps, handling the input keeps, if losing the orders of a
rejected input is harmless. -/
theorem handle_within [Interface R] [Files R] [Sees R] (input : Input) (core : ClientCore)
    (taken : R core (route input core).orders (route input core).state)
    (dropped : ∀ error, (route input core).result = .error error →
      R core [] (route input core).state) :
    R core (handle input core).orders (handle input core).state := by
  unfold handle
  split
  next error _ left ran =>
    have lost := dropped error (by rw [ran])
    rw [ran] at lost
    exact lost
  next orders left ran =>
    rw [ran] at taken
    have whole := Course.join taken (derive_moves left)
    rw [List.append_nil] at whole
    exact Sees.sees (rendered_matters orders _) whole

/-! ## Relations that see no orders -/

/-- The relation looks at the states only. -/
class Blind (R : ClientCore → List Effect → ClientCore → Prop) : Prop where
  blind {before after : ClientCore} {orders others : List Effect} :
    R before orders after → R before others after

omit [Presentation] in
instance [Blind R] : Sees R where
  sees _ := Blind.blind

instance [Acts R] [Blind R] (chord : KeyChord) : Within R (keyPressed chord) := by
  have pressed : Within R (key chord) := inferInstance
  have looked : Within R (attempt (key chord) :
      Handler ClientCore Effect CoreError (Except CoreError (Option Command))) :=
    within_attempt _ fun core _ _ => Blind.blind (pressed.moves core)
  unfold keyPressed
  refine within_next fun _ => within_then _ _ looked fun outcome => ?_
  split <;> infer_instance

/-- A relation that lets all the parts change that the host's inputs change. -/
class Hosts (R : ClientCore → List Effect → ClientCore → Prop) : Prop extends
    Acts R, Greets R, Loses R, Answers R, Restores R, Blind R

/-- What every message keeps, every input's route keeps. -/
theorem within_route_of [Hosts R] (input : Input)
    (serves : ∀ msg, input = .server msg → Within R (server msg)) : Within R (route input) := by
  cases input with
  | server msg => exact serves msg rfl
  | _ =>
    simp only [route]
    infer_instance

/-- What an input's route keeps, handling the input keeps. -/
theorem handle_blind [Interface R] [Files R] [Blind R] (input : Input) (core : ClientCore)
    (taken : R core (route input core).orders (route input core).state) :
    R core (handle input core).orders (handle input core).state :=
  handle_within input core taken fun _ _ => Blind.blind taken

end Instances

end Nits.ClientCore
