import Nits.Nitsd.Subscription

/-!
# Waiting for the log to advance

A reader that follows the log registers for published events before it checks the head: a
write in between is either below the head it reads or wakes it. A receiver that lags only
has to check the head again, since history is always read from the store.
-/

namespace Nits.Nitsd

open Logical Protocol

/-- Where the wait stands. -/
inductive FollowPhase
  | checking
  | parked
  | reading
  | stopped
  deriving DecidableEq

/-- A reader waiting for the log to advance beyond a position, and what it waits on. -/
structure FollowWait where
  after : Seq
  /-- The head of the log, and the last position published. -/
  head : Seq
  published : Seq
  /-- Published events still kept for the reader, and whether older ones were dropped. -/
  kept : Nat
  lagged : Bool
  phase : FollowPhase

namespace FollowWait

/-- The reader has registered, but not yet looked at the head. -/
def registered (after head published : Seq) : FollowWait where
  after := after
  head := head
  published := published
  kept := 0
  lagged := false
  phase := .checking

inductive Input
  /-- The writer commits events up to a later head. -/
  | commit (head : Seq)
  /-- The writer publishes a committed event. -/
  | publish (seq : Seq)
  /-- The reader compares the head with its position. -/
  | check
  /-- The reader receives an event, or that it has lagged. -/
  | receive
  | shutdown

/-- Something was published that the reader has not received yet. -/
def pending (wait : FollowWait) : Bool := wait.lagged || wait.kept ≠ 0

def step (wait : FollowWait) : Input → FollowWait
  | .commit head => { wait with head := max wait.head head }
  | .publish seq =>
    if seq ≤ wait.head then
      { wait with
        published := max wait.published seq
        kept := min (wait.kept + 1) EVENT_BACKLOG
        lagged := wait.lagged || wait.kept = EVENT_BACKLOG }
    else wait
  | .check =>
    if wait.phase = .checking then
      { wait with phase := if wait.after < wait.head then .reading else .parked }
    else wait
  | .receive =>
    if wait.phase = .parked ∧ wait.pending then
      if wait.lagged then { wait with lagged := false, phase := .checking }
      else { wait with kept := wait.kept - 1, phase := .checking }
    else wait
  | .shutdown => if wait.phase = .parked then { wait with phase := .stopped } else wait

/-- What is published is in the log, and a parked reader with nothing to receive has seen
all of it. -/
structure Watchful (wait : FollowWait) : Prop where
  committed : wait.published ≤ wait.head
  seen : wait.phase = .parked → wait.pending = false → wait.published ≤ wait.after
  reading : wait.phase = .reading → wait.after < wait.head

theorem watchful_registered {after head published : Seq} (committed : published ≤ head) :
    Watchful (registered after head published) :=
  ⟨committed, nofun, nofun⟩

theorem watchful_step (wait : FollowWait) (input : Input) (watchful : Watchful wait) :
    Watchful (wait.step input) := by
  obtain ⟨committed, seen, reading⟩ := watchful
  cases input with
  | commit head =>
    have grown : wait.head ≤ max wait.head head := Nat.le_max_left _ _
    exact ⟨Nat.le_trans committed grown, seen,
      fun reads => Nat.lt_of_lt_of_le (reading reads) grown⟩
  | publish seq =>
    simp only [step]
    split
    next held =>
      refine ⟨Nat.max_le.mpr ⟨committed, held⟩, fun _ none => ?_, reading⟩
      have some : min (wait.kept + 1) EVENT_BACKLOG ≠ 0 := by
        unfold EVENT_BACKLOG
        omega
      simp [pending, some] at none
    · exact ⟨committed, seen, reading⟩
  | check =>
    simp only [step]
    split
    next checking =>
      by_cases advanced : wait.after < wait.head
      · exact ⟨committed, by simp [advanced], fun _ => advanced⟩
      · exact ⟨committed, fun _ _ => Nat.le_trans committed (Nat.not_lt.mp advanced),
          by simp [advanced]⟩
    · exact ⟨committed, seen, reading⟩
  | receive =>
    simp only [step]
    split
    · split
      · exact ⟨committed, nofun, nofun⟩
      · exact ⟨committed, nofun, nofun⟩
    · exact ⟨committed, seen, reading⟩
  | shutdown =>
    simp only [step]
    split
    · exact ⟨committed, nofun, nofun⟩
    · exact ⟨committed, seen, reading⟩

/-- In every state of the wait, a reader behind what was published is not stuck: receiving
and checking once brings it to read, and it reads only a log that has advanced. -/
theorem run_wakes {after head published : Seq} (committed : published ≤ head)
    (inputs : List Input) :
    let wait := inputs.foldl step (registered after head published)
    (wait.phase = .reading → wait.after < wait.head) ∧
      (wait.phase = .parked → wait.after < wait.published →
        ((wait.step .receive).step .check).phase = .reading) := by
  intro wait
  have free : Run.Steps step (fun _ _ => True) (registered after head published) inputs :=
    fun _ _ _ => trivial
  have watchful : Watchful wait :=
    Run.steps_keep step (fun state input holds _ => watchful_step state input holds)
      (watchful_registered committed) free
  refine ⟨watchful.reading, fun parked behind => ?_⟩
  have pending : wait.pending = true := by
    by_contra none
    exact Nat.lt_irrefl _ (Nat.lt_of_lt_of_le behind
      (watchful.seen parked (Bool.eq_false_iff.mpr none)))
  have advanced : wait.after < wait.head := Nat.lt_of_lt_of_le behind watchful.committed
  simp only [step, parked, pending, and_self, if_true]
  split
  · simp only [if_true]
  · simp only [if_true]

/-- A write after the look at the head wakes the reader. -/
theorem late_write_wakes :
    ((([Input.check, .commit 4, .publish 4].foldl step (registered 3 3 3)).step .receive).step
      .check).phase = .reading :=
  (run_wakes (Nat.le_refl 3) [.check, .commit 4, .publish 4]).2 (by decide) (by decide)

end FollowWait

end Nits.Nitsd
