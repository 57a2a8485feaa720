import Mathlib.Data.List.Basic
import Mathlib.Logic.Function.Basic
import Nits.Logical.Run

/-!
# Replacing a file of the checkout

A suggestion is applied by claiming the file into a private directory, checking what was
claimed and moving the proposed file to its name. Other processes may rename, link, write and
remove files of the checkout between any two steps, every step may fail, and the process
may stop anywhere: no entry is overwritten, and the claimed file is not lost.
-/

namespace Nits.ReviewCore

open Logical

abbrev Inode := Nat

/-- What a file is and holds. -/
structure Node where
  isFile : Bool
  mode : Nat
  bytes : List UInt8

/-- The private directory: what its entries lead to. -/
structure Staging where
  original : Option Inode
  proposed : Option Inode

/-- An opened file with what its handle is known by. -/
structure WorkingFile where
  name : String
  identity : Inode
  mode : Nat

/-- What is to replace the file, if that holds what is expected. -/
structure Proposal extends WorkingFile where
  expected : List UInt8
  patched : List UInt8
  /-- What the file system gives the proposed file. -/
  inode : Inode

/-- The patched file, with the mode of the one that was opened. -/
def Proposal.node (proposal : Proposal) : Node := ⟨true, proposal.mode, proposal.patched⟩

/-- Where a replacement stands: each phase is one step of its own on the file system. -/
inductive ReplacePhase
  | verifyRoot
  | verifyParent
  | openCurrent
  | inspectCurrent (inode : Inode)
  | readCurrent
  | syncOriginal
  | staging
  | claiming
  | syncStage
  | syncParent
  | openOriginal
  | inspectOriginal (inode : Inode)
  | readOriginal
  | verifyRootAgain
  | verifyParentAgain
  | installing
  /-- The file goes back, if the directory is still the one it was claimed from. -/
  | rollbackRoot
  | rollbackParent
  | restoring
  | syncRestoredParent
  | syncRestoredStage
  | syncInstalledParent
  | syncInstalledStage
  | unlinkOriginal
  | syncRemoved
  | done (applied : Bool)
  /-- The error names where the file is preserved. -/
  | preserved

/-- The replacement is over: what is left of it is dropped. -/
def ReplacePhase.ends : ReplacePhase → Bool
  | .done _ | .preserved => true
  | _ => false

/-- The file system as the replacement sees it. -/
structure Replacement where
  checkout : String → Option Inode
  nodes : Inode → Node
  links : Inode → Nat
  /-- The checkout's path, and the file's in it, lead to the directories held open. -/
  rootSame : Bool
  parentSame : Bool
  stage : Staging
  phase : ReplacePhase

/-- What other processes do. -/
inductive Elsewhere
  /-- A file is created, linked or moved to a name, or the name is removed. -/
  | entry (name : String) (inode : Option Inode)
  /-- A file is written, or its mode changes. -/
  | file (inode : Inode) (node : Node)
  | links (inode : Inode) (links : Nat)
  | root (same : Bool)
  | parent (same : Bool)

/-- A step of the replacement or of another process. -/
inductive ReplaceInput
  /-- The next step is taken, or fails with an I/O error. -/
  | proceed (fault : Bool)
  | elsewhere (change : Elsewhere)

/-- The file that an entry leads to moves to another entry, which must not be there. -/
def moveIfAbsent (entry destination : Option Inode) (fault : Bool) : Option Inode :=
  if destination.isNone && !fault then entry else none

theorem moveIfAbsent_eq_some {entry destination : Option Inode} {fault : Bool} {inode : Inode} :
    moveIfAbsent entry destination fault = some inode ↔
      entry = some inode ∧ destination = none ∧ fault = false := by
  cases destination <;> cases fault <;> simp [moveIfAbsent]

namespace Replacement

section

variable (proposal : Proposal)

def elsewhere (state : Replacement) : Elsewhere → Replacement
  | .entry name inode => { state with checkout := Function.update state.checkout name inode }
  | .file inode node =>
    -- nobody else knows of the proposed file until it is installed
    if state.stage.proposed = some inode then state
    else { state with nodes := Function.update state.nodes inode node }
  | .links inode links => { state with links := Function.update state.links inode links }
  | .root same => { state with rootSame := same }
  | .parent same => { state with parentSame := same }

/-- Once the replacement ends, a directory without an original is cleaned up. -/
def enter (state : Replacement) (phase : ReplacePhase) : Replacement :=
  { state with
    phase
    stage := if phase.ends && state.stage.original.isNone then ⟨none, none⟩ else state.stage }

/-- Go on if the step succeeds, else give up. -/
def attempt (state : Replacement) (succeeds : Bool) (next otherwise : ReplacePhase) : Replacement :=
  state.enter (if succeeds then next else otherwise)

/-- The inode's metadata are those of the file that was opened, and it has no other link. -/
def Known (state : Replacement) (inode : Inode) : Prop :=
  inode = proposal.identity ∧ (state.nodes inode).isFile = true ∧
    (state.nodes inode).mode = proposal.mode ∧ state.links inode = 1

/-- The file that was opened holds the expected bytes. -/
def Expected (state : Replacement) : Prop :=
  (state.nodes proposal.identity).bytes = proposal.expected

instance (state : Replacement) : Decidable (Expected proposal state) :=
  inferInstanceAs (Decidable (_ = _))

instance (state : Replacement) (inode : Inode) : Decidable (Known proposal state inode) :=
  inferInstanceAs (Decidable (_ ∧ _ ∧ _ ∧ _))

/-- The proposed file is written next to where the original goes. -/
def create (state : Replacement) (fault : Bool) : Replacement :=
  if fault then state.enter (.done false)
  else { state with
    nodes := Function.update state.nodes proposal.inode proposal.node
    links := Function.update state.links proposal.inode 1
    stage := ⟨none, some proposal.inode⟩
    phase := .claiming }

/-- The file leaves its name for the private directory. -/
def claim (state : Replacement) (fault : Bool) : Replacement :=
  match moveIfAbsent (state.checkout proposal.name) state.stage.original fault with
  | some inode => { state with
      checkout := Function.update state.checkout proposal.name none
      stage := { state.stage with original := some inode }
      phase := .syncStage }
  | none => state.enter (.done false)

/-- The proposed file takes the name, if nothing else has. -/
def install (state : Replacement) (fault : Bool) : Replacement :=
  match moveIfAbsent state.stage.proposed (state.checkout proposal.name) fault with
  | some inode => { state with
      checkout := Function.update state.checkout proposal.name (some inode)
      stage := { state.stage with proposed := none }
      phase := .syncInstalledParent }
  | none => state.enter .rollbackRoot

/-- The file takes its name again, if nothing else has. -/
def restore (state : Replacement) (fault : Bool) : Replacement :=
  match moveIfAbsent state.stage.original (state.checkout proposal.name) fault with
  | some inode => { state with
      checkout := Function.update state.checkout proposal.name (some inode)
      stage := { state.stage with original := none }
      phase := .syncRestoredParent }
  | none => state.enter .preserved

/-- The original is removed from the private directory. -/
def unlink (state : Replacement) (fault : Bool) : Replacement :=
  match state.stage.original, fault with
  | some inode, false => { state with
      links := Function.update state.links inode (state.links inode - 1)
      stage := { state.stage with original := none }
      phase := .syncRemoved }
  | _, _ => state.enter .preserved

/-- One step of the replacement itself. -/
def take (state : Replacement) (fault : Bool) : ReplacePhase → Replacement
  | .verifyRoot => state.attempt (!fault && state.rootSame) .verifyParent (.done false)
  | .verifyParent => state.attempt (!fault && state.parentSame) .openCurrent (.done false)
  | .openCurrent =>
    match state.checkout proposal.name with
    | some inode => state.attempt (!fault) (.inspectCurrent inode) (.done false)
    | none => state.enter (.done false)
  | .inspectCurrent inode =>
    state.attempt (!fault && Known proposal state inode) .readCurrent (.done false)
  | .readCurrent =>
    -- the bytes are read through the handle the file was opened with
    state.attempt (!fault && Expected proposal state) .syncOriginal (.done false)
  | .syncOriginal => state.attempt (!fault) .staging (.done false)
  | .staging => state.create proposal fault
  | .claiming => state.claim proposal fault
  | .syncStage => state.attempt (!fault) .syncParent .rollbackRoot
  | .syncParent => state.attempt (!fault) .openOriginal .rollbackRoot
  | .openOriginal =>
    match state.stage.original with
    | some inode => state.attempt (!fault) (.inspectOriginal inode) .rollbackRoot
    | none => state.enter .rollbackRoot
  | .inspectOriginal inode =>
    state.attempt (!fault && Known proposal state inode) .readOriginal .rollbackRoot
  | .readOriginal =>
    state.attempt (!fault && Expected proposal state) .verifyRootAgain .rollbackRoot
  | .verifyRootAgain => state.attempt (!fault && state.rootSame) .verifyParentAgain .rollbackRoot
  | .verifyParentAgain => state.attempt (!fault && state.parentSame) .installing .rollbackRoot
  | .installing => state.install proposal fault
  | .rollbackRoot => state.attempt (!fault && state.rootSame) .rollbackParent .preserved
  | .rollbackParent => state.attempt (!fault && state.parentSame) .restoring .preserved
  | .restoring => state.restore proposal fault
  | .syncRestoredParent => state.attempt (!fault) .syncRestoredStage (.done false)
  | .syncRestoredStage => state.enter (.done false)
  | .syncInstalledParent => state.attempt (!fault) .syncInstalledStage .preserved
  | .syncInstalledStage => state.attempt (!fault) .unlinkOriginal .preserved
  | .unlinkOriginal => state.unlink fault
  | .syncRemoved => state.enter (.done (!fault))
  | .done _ | .preserved => state

def proceed (state : Replacement) (fault : Bool) : Replacement :=
  state.take proposal fault state.phase

end

/-- A replacement with the steps it has taken itself, each from one state to the next and the
last one first. -/
structure Course where
  state : Replacement
  taken : List (Replacement × Replacement)

/-- A replacement begins with some checkout. -/
def start (checkout : String → Option Inode) (nodes : Inode → Node) (links : Inode → Nat)
    (rootSame parentSame : Bool) : Course where
  state := ⟨checkout, nodes, links, rootSame, parentSame, ⟨none, none⟩, .verifyRoot⟩
  taken := []

def Course.step (proposal : Proposal) (course : Course) : ReplaceInput → Course
  | .proceed fault =>
    let after := course.state.proceed proposal fault
    ⟨after, (course.state, after) :: course.taken⟩
  | .elsewhere change => { course with state := course.state.elsewhere change }

/-! ## What is kept -/

section

variable (proposal : Proposal)

/-- The step takes the file away from its name. -/
def Takes (inode : Inode) (step : Replacement × Replacement) : Prop :=
  step.1.checkout proposal.name = some inode ∧ step.2.checkout proposal.name ≠ some inode

/-- The step puts a file at the name, which led nowhere. -/
def Puts (inode : Inode) (step : Replacement × Replacement) : Prop :=
  step.1.checkout proposal.name = none ∧ step.2.checkout proposal.name = some inode

/-- At the step the file that was opened is in the private directory, with one link. -/
def Inspects (step : Replacement × Replacement) : Prop :=
  step.1.stage.original = some proposal.identity ∧ Known proposal step.1 proposal.identity

/-- At the step the file that was opened is in the private directory and holds the expected
bytes. -/
def Reads (step : Replacement × Replacement) : Prop :=
  step.1.stage.original = some proposal.identity ∧ Expected proposal step.1

/-- The step puts the patched file, with the mode of the one that was opened, at the name, while
that one is in the private directory. -/
def Installs (step : Replacement × Replacement) : Prop :=
  Puts proposal proposal.inode step ∧ step.2.nodes proposal.inode = proposal.node ∧
    step.2.stage.original = some proposal.identity

variable (taken : List (Replacement × Replacement))

def Claimed (inode : Inode) : Prop := ∃ step ∈ taken, Takes proposal inode step

/-- The file was put back at its name. -/
def Restored (inode : Inode) : Prop := ∃ step ∈ taken, Puts proposal inode step

/-- What is in the private directory was looked at and read. -/
def Verified : Prop :=
  (∃ step ∈ taken, Inspects proposal step) ∧ ∃ step ∈ taken, Reads proposal step

/-- The proposed file took the place of exactly the expected one, once that was verified. -/
def Replaced : Prop :=
  ∃ later step earlier, taken = later ++ step :: earlier ∧
    Installs proposal step ∧ Verified proposal earlier

/-- The inode alone was taken from the name. -/
def Alone (inode : Inode) : Prop := ∀ other, Claimed proposal taken other ↔ other = inode

/-- The claimed file is in the private directory. -/
def Held (original : Option Inode) : Prop :=
  ∃ inode, original = some inode ∧ Alone proposal taken inode

/-- The file that was opened, and no other, is in the private directory. -/
def Opened (original : Option Inode) : Prop :=
  original = some proposal.identity ∧ Alone proposal taken proposal.identity

/-- Wherever a claimed file is. -/
def Accounted (original : Option Inode) : Prop :=
  ∀ inode, Claimed proposal taken inode →
    original = some inode ∨ Restored proposal taken inode ∨
      inode = proposal.identity ∧ Replaced proposal taken

/-- What holds in each phase. -/
def Kept (original : Option Inode) : ReplacePhase → Prop
  | .verifyRoot | .verifyParent | .openCurrent | .inspectCurrent _ | .readCurrent | .syncOriginal
  | .staging | .claiming => ∀ inode, ¬Claimed proposal taken inode
  | .syncStage | .syncParent | .openOriginal | .rollbackRoot | .rollbackParent | .restoring
  | .preserved => Held proposal taken original
  | .inspectOriginal inode => original = some inode ∧ Alone proposal taken inode
  | .readOriginal => Opened proposal taken original ∧
    ∃ step ∈ taken, Inspects proposal step
  | .verifyRootAgain | .verifyParentAgain | .installing =>
    Opened proposal taken original ∧ Verified proposal taken
  | .syncRestoredParent | .syncRestoredStage =>
    ∃ inode, Alone proposal taken inode ∧ Restored proposal taken inode
  | .syncInstalledParent | .syncInstalledStage | .unlinkOriginal =>
    Opened proposal taken original ∧ Replaced proposal taken
  | .syncRemoved | .done true =>
    Alone proposal taken proposal.identity ∧ Replaced proposal taken
  | .done false => Accounted proposal taken original

/-- The file that is staged as proposed is the patched one. -/
def Sealed (state : Replacement) : Prop :=
  ∀ inode, state.stage.proposed = some inode →
    inode = proposal.inode ∧ state.nodes inode = proposal.node

end

variable {proposal : Proposal}
  {state after : Replacement} {taken : List (Replacement × Replacement)} {original : Option Inode}

@[simp] theorem enter_original {phase : ReplacePhase} :
    (state.enter phase).stage.original = state.stage.original := by
  unfold enter
  split
  next cleaned =>
    rw [Bool.and_eq_true] at cleaned
    exact (Option.isNone_iff_eq_none.mp cleaned.2).symm
  · rfl

theorem enter_proposed {phase : ReplacePhase} {inode : Inode}
    (isProposed : (state.enter phase).stage.proposed = some inode) :
    state.stage.proposed = some inode := by
  unfold enter at isProposed
  split at isProposed
  · cases isProposed
  · exact isProposed

/-- A step that takes nothing from the name keeps what was claimed. -/
theorem claimed_cons {inode : Inode} (quiet : ∀ inode, ¬Takes proposal inode (state, after)) :
    Claimed proposal ((state, after) :: taken) inode ↔ Claimed proposal taken inode := by
  simp [Claimed, quiet]

theorem alone_cons {inode : Inode} (quiet : ∀ inode, ¬Takes proposal inode (state, after))
    (alone : Alone proposal taken inode) : Alone proposal ((state, after) :: taken) inode :=
  fun other => (claimed_cons quiet).trans (alone other)

theorem unclaimed_cons (quiet : ∀ inode, ¬Takes proposal inode (state, after))
    (unclaimed : ∀ inode, ¬Claimed proposal taken inode) (inode : Inode) :
    ¬Claimed proposal ((state, after) :: taken) inode :=
  fun claimed => unclaimed inode ((claimed_cons quiet).mp claimed)

theorem verified_cons (verified : Verified proposal taken) :
    Verified proposal ((state, after) :: taken) :=
  ⟨List.exists_mem_cons_of_exists verified.1, List.exists_mem_cons_of_exists verified.2⟩

theorem replaced_cons (replaced : Replaced proposal taken) :
    Replaced proposal ((state, after) :: taken) := by
  obtain ⟨later, step, earlier, rfl, installed⟩ := replaced
  exact ⟨(state, after) :: later, step, earlier, rfl, installed⟩

/-- A step that leaves the name and the private directory alone keeps what holds. -/
theorem Kept.cons {phase : ReplacePhase} (quiet : ∀ inode, ¬Takes proposal inode (state, after))
    (kept : Kept proposal taken original phase) :
    Kept proposal ((state, after) :: taken) original phase := by
  cases phase with
  | verifyRoot | verifyParent | openCurrent | inspectCurrent | readCurrent | syncOriginal
  | staging | claiming => exact unclaimed_cons quiet kept
  | syncStage | syncParent | openOriginal | rollbackRoot | rollbackParent | restoring
  | preserved =>
    obtain ⟨inode, isOriginal, alone⟩ := kept
    exact ⟨inode, isOriginal, alone_cons quiet alone⟩
  | inspectOriginal => exact ⟨kept.1, alone_cons quiet kept.2⟩
  | readOriginal =>
    exact ⟨⟨kept.1.1, alone_cons quiet kept.1.2⟩, List.exists_mem_cons_of_exists kept.2⟩
  | verifyRootAgain | verifyParentAgain | installing =>
    exact ⟨⟨kept.1.1, alone_cons quiet kept.1.2⟩, verified_cons kept.2⟩
  | syncRestoredParent | syncRestoredStage =>
    obtain ⟨inode, alone, restored⟩ := kept
    exact ⟨inode, alone_cons quiet alone, List.exists_mem_cons_of_exists restored⟩
  | syncInstalledParent | syncInstalledStage | unlinkOriginal =>
    exact ⟨⟨kept.1.1, alone_cons quiet kept.1.2⟩, replaced_cons kept.2⟩
  | syncRemoved => exact ⟨alone_cons quiet kept.1, replaced_cons kept.2⟩
  | done applied =>
    cases applied with
    | true => exact ⟨alone_cons quiet kept.1, replaced_cons kept.2⟩
    | false =>
      intro inode claimed
      rcases kept inode ((claimed_cons quiet).mp claimed) with held | restored | replaced
      · exact .inl held
      · exact .inr (.inl (List.exists_mem_cons_of_exists restored))
      · exact .inr (.inr ⟨replaced.1, replaced_cons replaced.2⟩)

theorem quiet_of_eq (same : after.checkout proposal.name = state.checkout proposal.name)
    (inode : Inode) : ¬Takes proposal inode (state, after) :=
  fun takes => takes.2 (same.trans takes.1)

theorem quiet_of_free (free : state.checkout proposal.name = none) (inode : Inode) :
    ¬Takes proposal inode (state, after) :=
  fun takes => Option.some_ne_none inode (takes.1.symm.trans free)

theorem accounted_unclaimed (unclaimed : ∀ inode, ¬Claimed proposal taken inode) :
    Accounted proposal taken original :=
  fun inode claimed => absurd claimed (unclaimed inode)

/-- What is kept after a step of the replacement itself. -/
def Holds (proposal : Proposal) (taken : List (Replacement × Replacement))
    (state after : Replacement) : Prop :=
  Kept proposal ((state, after) :: taken) after.stage.original after.phase

/-- Where the next phase, and the one for a failure, keep what the step before them kept. -/
theorem holds_attempt {succeeds : Bool} {phase next otherwise : ReplacePhase}
    (kept : Kept proposal taken state.stage.original phase) (passes : succeeds = true →
      Kept proposal ((state, state.attempt succeeds next otherwise) :: taken)
        state.stage.original phase →
      Kept proposal ((state, state.attempt succeeds next otherwise) :: taken)
        state.stage.original next)
    (fails : ∀ taken, Kept proposal taken state.stage.original phase →
      Kept proposal taken state.stage.original otherwise) :
    Holds proposal taken state (state.attempt succeeds next otherwise) := by
  have still : Kept proposal
      ((state, state.attempt succeeds next otherwise) :: taken) state.stage.original phase :=
    kept.cons (quiet_of_eq rfl)
  cases succeeds with
  | true =>
    rw [Holds, attempt, enter_original]
    exact passes rfl still
  | false =>
    rw [Holds, attempt, enter_original]
    exact fails _ still

theorem holds_enter {phase next : ReplacePhase}
    (kept : Kept proposal taken state.stage.original phase)
    (passes : ∀ taken, Kept proposal taken state.stage.original phase →
      Kept proposal taken state.stage.original next) :
    Holds proposal taken state (state.enter next) := by
  rw [Holds, enter_original]
  exact passes _ (kept.cons (quiet_of_eq rfl))

theorem kept_create (kept : Kept proposal taken state.stage.original .staging) (fault : Bool) :
    Holds proposal taken state (state.create proposal fault) := by
  unfold create
  split
  · exact holds_enter kept fun _ => accounted_unclaimed
  · exact unclaimed_cons (quiet_of_eq rfl) kept

theorem kept_claim (unclaimed : ∀ inode, ¬Claimed proposal taken inode) (fault : Bool) :
    Holds proposal taken state (state.claim proposal fault) := by
  unfold claim
  split
  next inode moves =>
    refine ⟨inode, rfl, fun other => ⟨?_, ?_⟩⟩
    · rintro ⟨step, isTaken, takes⟩
      rcases List.mem_cons.mp isTaken with rfl | earlier
      · have found := (moveIfAbsent_eq_some.mp moves).1
        exact Option.some.inj (takes.1.symm.trans found)
      · exact absurd ⟨step, earlier, takes⟩ (unclaimed other)
    · rintro rfl
      refine ⟨_, List.mem_cons_self, (moveIfAbsent_eq_some.mp moves).1, ?_⟩
      simp
  next =>
    have kept : Kept proposal taken state.stage.original .claiming := unclaimed
    exact holds_enter kept fun _ => accounted_unclaimed

theorem kept_install (isSealed : Sealed proposal state)
    (kept : Kept proposal taken state.stage.original .installing) (fault : Bool) :
    Holds proposal taken state (state.install proposal fault) := by
  unfold install
  split
  next inode moves =>
    obtain ⟨isProposed, free, _⟩ := moveIfAbsent_eq_some.mp moves
    obtain ⟨rfl, isPatched⟩ := isSealed inode isProposed
    obtain ⟨⟨isOriginal, alone⟩, verified⟩ := kept
    refine ⟨⟨isOriginal, alone_cons (quiet_of_free free) alone⟩, ?_⟩
    refine ⟨[], _, taken, rfl, ?_, verified⟩
    exact ⟨⟨free, Function.update_self ..⟩, isPatched, isOriginal⟩
  next => exact holds_enter kept fun _ kept => ⟨_, kept.1⟩

theorem kept_restore (held : Held proposal taken state.stage.original) (fault : Bool) :
    Holds proposal taken state (state.restore proposal fault) := by
  unfold restore
  split
  next inode moves =>
    obtain ⟨isOriginal, free, _⟩ := moveIfAbsent_eq_some.mp moves
    obtain ⟨claimed, isClaimed, alone⟩ := held
    obtain rfl : inode = claimed := Option.some.inj (isOriginal.symm.trans isClaimed)
    refine ⟨inode, alone_cons (quiet_of_free free) alone, _, List.mem_cons_self, free, ?_⟩
    exact Function.update_self ..
  next =>
    have kept : Kept proposal taken state.stage.original .restoring := held
    exact holds_enter kept fun _ held => held

theorem kept_unlink (kept : Kept proposal taken state.stage.original .unlinkOriginal)
    (fault : Bool) : Holds proposal taken state (state.unlink fault) := by
  unfold unlink
  split
  · exact ⟨alone_cons (quiet_of_eq rfl) kept.1.2, replaced_cons kept.2⟩
  · exact holds_enter kept fun _ kept => ⟨_, kept.1⟩

/-- What is kept of the claimed file is kept by each step. -/
theorem holds_take (isSealed : Sealed proposal state) (fault : Bool) :
    ∀ phase, Kept proposal taken state.stage.original phase →
      state.phase = phase → Holds proposal taken state (state.take proposal fault phase) := by
  intro phase kept isPhase
  cases phase with
  | verifyRoot | verifyParent | inspectCurrent | readCurrent | syncOriginal =>
    exact holds_attempt kept (fun _ => id) fun _ => accounted_unclaimed
  | openCurrent =>
    simp only [take]
    split
    · exact holds_attempt kept (fun _ => id) fun _ => accounted_unclaimed
    · exact holds_enter kept fun _ => accounted_unclaimed
  | staging => exact kept_create kept fault
  | claiming => exact kept_claim kept fault
  | syncStage | syncParent => exact holds_attempt kept (fun _ => id) fun _ => id
  | openOriginal =>
    simp only [take]
    split
    next inode isOriginal =>
      refine holds_attempt kept (fun _ kept => ?_) fun _ => id
      obtain ⟨claimed, isClaimed, alone⟩ := kept
      obtain rfl : inode = claimed := Option.some.inj (isOriginal.symm.trans isClaimed)
      exact ⟨isClaimed, alone⟩
    · exact holds_enter kept fun _ => id
  | inspectOriginal inode =>
    refine holds_attempt kept (fun succeeds kept => ?_) fun _ kept => ⟨inode, kept⟩
    simp only [Bool.and_eq_true, decide_eq_true_eq] at succeeds
    obtain rfl : inode = proposal.identity := succeeds.2.1
    exact ⟨kept, _, List.mem_cons_self, kept.1, succeeds.2⟩
  | readOriginal =>
    refine holds_attempt kept (fun succeeds kept => ?_) fun _ kept => ⟨_, kept.1⟩
    simp only [Bool.and_eq_true, decide_eq_true_eq] at succeeds
    exact ⟨kept.1, kept.2, _, List.mem_cons_self, kept.1.1, succeeds.2⟩
  | verifyRootAgain | verifyParentAgain =>
    exact holds_attempt kept (fun _ => id) fun _ kept => ⟨_, kept.1⟩
  | installing => exact kept_install isSealed kept fault
  | rollbackRoot | rollbackParent => exact holds_attempt kept (fun _ => id) fun _ => id
  | restoring => exact kept_restore kept fault
  | syncRestoredParent =>
    refine holds_attempt kept (fun _ => id) fun _ kept other claimed => ?_
    obtain ⟨inode, alone, restored⟩ := kept
    obtain rfl : other = inode := (alone other).mp claimed
    exact .inr (.inl restored)
  | syncRestoredStage =>
    refine holds_enter kept fun _ kept other claimed => ?_
    obtain ⟨inode, alone, restored⟩ := kept
    obtain rfl : other = inode := (alone other).mp claimed
    exact .inr (.inl restored)
  | syncInstalledParent | syncInstalledStage =>
    exact holds_attempt kept (fun _ => id) fun _ kept => ⟨_, kept.1⟩
  | unlinkOriginal => exact kept_unlink kept fault
  | syncRemoved =>
    cases fault with
    | false => exact holds_enter kept fun _ => id
    | true =>
      refine holds_enter kept fun _ kept other claimed => ?_
      exact .inr (.inr ⟨(kept.1 other).mp claimed, kept.2⟩)
  | done | preserved =>
    unfold take Holds
    rw [isPhase]
    exact kept.cons (quiet_of_eq rfl)

/-- A step of the replacement changes nothing of the checkout but what the file's name leads
to, never puts a file in another's place, and keeps a file that it takes from the name. -/
structure Spares (proposal : Proposal) (before after : Replacement) : Prop where
  entries : ∀ name, name ≠ proposal.name → after.checkout name = before.checkout name
  target : ∀ inode, before.checkout proposal.name = some inode →
    after.checkout proposal.name = some inode ∨
      after.checkout proposal.name = none ∧ after.stage.original = some inode
  contents : ∀ inode, inode ≠ proposal.inode → after.nodes inode = before.nodes inode

/-- The step leaves the checkout alone, and nothing new is staged. -/
structure Plain (before after : Replacement) : Prop where
  checkout : after.checkout = before.checkout
  nodes : after.nodes = before.nodes
  proposed : ∀ inode, after.stage.proposed = some inode → before.stage.proposed = some inode

theorem plain_enter (phase : ReplacePhase) : Plain state (state.enter phase) where
  checkout := rfl
  nodes := rfl
  proposed _ := enter_proposed

theorem plain_unlink (fault : Bool) : Plain state (state.unlink fault) := by
  unfold unlink
  split
  · exact ⟨rfl, rfl, fun _ => id⟩
  · exact plain_enter _

/-- Four steps move a file or write one. -/
theorem take_cases (fault : Bool) (phase : ReplacePhase) :
    Plain state (state.take proposal fault phase) ∨
      state.take proposal fault phase = state.create proposal fault ∨
      state.take proposal fault phase = state.claim proposal fault ∨
      state.take proposal fault phase = state.install proposal fault ∨
      state.take proposal fault phase = state.restore proposal fault := by
  cases phase with
  | staging => exact .inr (.inl rfl)
  | claiming => exact .inr (.inr (.inl rfl))
  | installing => exact .inr (.inr (.inr (.inl rfl)))
  | restoring => exact .inr (.inr (.inr (.inr rfl)))
  | unlinkOriginal => exact .inl (plain_unlink fault)
  | openCurrent | openOriginal =>
    left
    simp only [take]
    split <;> exact plain_enter _
  | done | preserved => exact .inl ⟨rfl, rfl, fun _ => id⟩
  | _ => exact .inl (plain_enter _)

theorem Plain.spares (plain : Plain state after) : Spares proposal state after where
  entries name _ := congrFun plain.checkout name
  target _ leads := .inl ((congrFun plain.checkout _).trans leads)
  contents inode _ := congrFun plain.nodes inode

theorem Plain.sealed (plain : Plain state after) (isSealed : Sealed proposal state) :
    Sealed proposal after := by
  intro inode isProposed
  rw [plain.nodes]
  exact isSealed inode (plain.proposed inode isProposed)

/-- A file is put at the name only where that leads nowhere. -/
theorem spares_put {entry inode : Option Inode} {fault : Bool} {moved : Inode}
    (moves : moveIfAbsent entry (state.checkout proposal.name) fault = some moved)
    (checkout : after.checkout = Function.update state.checkout proposal.name inode)
    (nodes : after.nodes = state.nodes) : Spares proposal state after where
  entries name other := by rw [checkout, Function.update_of_ne other]
  target inode leads := by
    rw [(moveIfAbsent_eq_some.mp moves).2.1] at leads
    cases leads
  contents inode _ := congrFun nodes inode

theorem spares_take (fault : Bool) (phase : ReplacePhase) :
    Spares proposal state (state.take proposal fault phase) := by
  rcases take_cases fault phase with plain | isStep | isStep | isStep | isStep
  · exact plain.spares
  · rw [isStep, create]
    split
    · exact (plain_enter _).spares
    · exact ⟨fun _ _ => rfl, fun _ => .inl, fun _ other => Function.update_of_ne other ..⟩
  · rw [isStep, claim]
    split
    next inode moves =>
      refine ⟨fun _ other => Function.update_of_ne other .., fun held leads => .inr ?_,
        fun _ _ => rfl⟩
      refine ⟨Function.update_self .., ?_⟩
      exact (moveIfAbsent_eq_some.mp moves).1.symm.trans leads
    · exact (plain_enter _).spares
  · rw [isStep, install]
    split
    next moves => exact spares_put moves rfl rfl
    · exact (plain_enter _).spares
  · rw [isStep, restore]
    split
    next moves => exact spares_put moves rfl rfl
    · exact (plain_enter _).spares

theorem sealed_take (isSealed : Sealed proposal state) (fault : Bool) (phase : ReplacePhase) :
    Sealed proposal (state.take proposal fault phase) := by
  rcases take_cases fault phase with plain | isStep | isStep | isStep | isStep
  · exact plain.sealed isSealed
  · rw [isStep, create]
    split
    · exact (plain_enter _).sealed isSealed
    · rintro inode ⟨rfl⟩
      exact ⟨rfl, Function.update_self ..⟩
  · rw [isStep, claim]
    split
    · exact isSealed
    · exact (plain_enter _).sealed isSealed
  · rw [isStep, install]
    split
    · exact fun _ isProposed => absurd isProposed (Option.some_ne_none _).symm
    · exact (plain_enter _).sealed isSealed
  · rw [isStep, restore]
    split
    · exact isSealed
    · exact (plain_enter _).sealed isSealed

theorem sealed_elsewhere (isSealed : Sealed proposal state) (change : Elsewhere) :
    Sealed proposal (state.elsewhere change) := by
  cases change with
  | file inode node =>
    simp only [elsewhere]
    split
    · exact isSealed
    next other =>
      intro staged isProposed
      have apart : staged ≠ inode := by
        rintro rfl
        exact other isProposed
      refine ⟨(isSealed staged isProposed).1, ?_⟩
      exact (Function.update_of_ne apart ..).trans (isSealed staged isProposed).2
  | entry | links | root | parent => exact isSealed

/-- What holds in each phase holds whatever other processes do. -/
theorem kept_elsewhere (change : Elsewhere)
    (kept : Kept proposal taken state.stage.original state.phase) :
    Kept proposal taken (state.elsewhere change).stage.original (state.elsewhere change).phase := by
  cases change with
  | file inode node =>
    simp only [elsewhere]
    split <;> exact kept
  | entry | links | root | parent => exact kept

/-- What is known of a replacement at any moment. -/
structure Safe (proposal : Proposal) (course : Course) : Prop where
  applied : course.state.phase = .done true → Replaced proposal course.taken
  /-- A claimed file is in the private directory, was put back, or is the one that was replaced. -/
  accounted : Accounted proposal course.taken course.state.stage.original
  /-- An error that names the private directory names where the file is. -/
  preserved : course.state.phase = .preserved →
    Held proposal course.taken course.state.stage.original

theorem accounted_held (held : Held proposal taken original) :
    Accounted proposal taken original := by
  obtain ⟨inode, isOriginal, alone⟩ := held
  intro other claimed
  obtain rfl := (alone other).mp claimed
  exact .inl isOriginal

theorem accounted_replaced (alone : Alone proposal taken proposal.identity)
    (replaced : Replaced proposal taken) : Accounted proposal taken original :=
  fun other claimed => .inr (.inr ⟨(alone other).mp claimed, replaced⟩)

theorem accounted_restored
    (restored : ∃ inode, Alone proposal taken inode ∧ Restored proposal taken inode) :
    Accounted proposal taken original := by
  obtain ⟨inode, alone, restored⟩ := restored
  intro other claimed
  obtain rfl := (alone other).mp claimed
  exact .inr (.inl restored)

theorem Kept.accounted {phase : ReplacePhase} (kept : Kept proposal taken original phase) :
    Accounted proposal taken original := by
  cases phase with
  | verifyRoot | verifyParent | openCurrent | inspectCurrent | readCurrent | syncOriginal
  | staging | claiming => exact accounted_unclaimed kept
  | syncStage | syncParent | openOriginal | rollbackRoot | rollbackParent | restoring
  | preserved => exact accounted_held kept
  | inspectOriginal => exact accounted_held ⟨_, kept⟩
  | readOriginal | verifyRootAgain | verifyParentAgain | installing | syncInstalledParent
  | syncInstalledStage | unlinkOriginal => exact accounted_held ⟨_, kept.1⟩
  | syncRestoredParent | syncRestoredStage => exact accounted_restored kept
  | syncRemoved => exact accounted_replaced kept.1 kept.2
  | done applied =>
    cases applied with
    | true => exact accounted_replaced kept.1 kept.2
    | false => exact kept

/-- What holds at any moment of a replacement. -/
def Sound (proposal : Proposal) (course : Course) : Prop :=
  Kept proposal course.taken course.state.stage.original course.state.phase ∧
    Sealed proposal course.state

theorem sound_step {course : Course} (sound : Sound proposal course) (input : ReplaceInput) :
    Sound proposal (course.step proposal input) := by
  cases input with
  | proceed fault => exact ⟨holds_take sound.2 fault _ sound.1 rfl, sealed_take sound.2 fault _⟩
  | elsewhere change => exact ⟨kept_elsewhere change sound.1, sealed_elsewhere sound.2 change⟩

theorem Sound.safe {course : Course} (sound : Sound proposal course) : Safe proposal course where
  applied phase := by
    have kept := sound.1
    rw [phase] at kept
    exact kept.2
  accounted := sound.1.accounted
  preserved phase := by
    have kept := sound.1
    rw [phase] at kept
    exact kept

/-- However other processes change the checkout and the files in it, whichever steps fail and
wherever the replacement stops: its own steps never overwrite or drop another's entry or change
another file, a claimed file is in the private directory, back at its name or replaced, and the
suggestion counts as applied only if the patched file was put at the name in place of exactly
the expected one. -/
theorem replace_safe (proposal : Proposal) (checkout : String → Option Inode)
    (nodes : Inode → Node) (links : Inode → Nat) (rootSame parentSame : Bool)
    (inputs : List ReplaceInput) :
    let course := inputs.foldl (Course.step proposal)
      (start checkout nodes links rootSame parentSame)
    Safe proposal course ∧ ∀ fault, Spares proposal course.state
      (course.state.proceed proposal fault) := by
  intro course
  have free : Run.Steps (Course.step proposal) (fun _ _ => True)
      (start checkout nodes links rootSame parentSame) inputs := fun _ _ _ => trivial
  have initial : Sound proposal (start checkout nodes links rootSame parentSame) := by
    constructor
    · rintro inode ⟨step, isTaken, _⟩
      cases isTaken
    · rintro inode ⟨⟩
  have sound : Sound proposal course :=
    Run.steps_keep _ (fun _ input sound _ => sound_step sound input) initial free
  exact ⟨sound.safe, fun fault => spares_take fault _⟩

/-- A file that nobody else touches is replaced if no step fails. -/
theorem replace_applies {checkout : String → Option Inode} {nodes : Inode → Node}
    {links : Inode → Nat} (here : checkout proposal.name = some proposal.identity)
    (node : nodes proposal.identity = ⟨true, proposal.mode, proposal.expected⟩)
    (link : links proposal.identity = 1)
    (fresh : proposal.inode ≠ proposal.identity) :
    let course := (List.replicate 21 (.proceed false)).foldl (Course.step proposal)
      (start checkout nodes links true true)
    course.state.phase = .done true ∧ course.state.checkout proposal.name = some proposal.inode ∧
      course.state.nodes proposal.inode = proposal.node := by
  simp [List.replicate, Course.step, start, proceed, take, attempt, enter, Known, Expected, here,
    node, link, create, claim, moveIfAbsent, install, unlink, ReplacePhase.ends, fresh.symm]

end Replacement

end Nits.ReviewCore
