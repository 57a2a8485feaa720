import Nits.Protocol.Rpc

/-!
# Admission of core work

Closing the gate and accepting work share one lock, so each of them is one step here. A
permit moves into the read or write job itself: cancelling the requester takes nothing
back, and only the end of the job drops the permit. The drain task of a planned
replacement watches the count of permits, and shuts the daemon down behind it.
-/

namespace Nits.Nitsd

open Protocol

/-! ## The gate -/

/-- What the gate's lock guards, and what its watchers see. -/
structure Admission where
  operation : Option UpgradeOperation
  active : Nat
  lifecycle : Option UpgradeOperation

namespace Admission

def new : Admission where
  operation := none
  active := 0
  lifecycle := none

/-- One more permit, or the operation that closed the gate. -/
def accept (admission : Admission) : Except UpgradeId Admission :=
  match admission.operation with
  | some operation => .error operation.id
  | none => .ok { admission with active := admission.active + 1 }

/-- First owner wins; repeated control requests observe that same operation. -/
def close (admission : Admission) (operation : UpgradeOperation) :
    Admission × UpgradeOperation × Bool :=
  match admission.operation with
  | some current => (admission, current, false)
  | none =>
    ({ admission with operation := some operation, lifecycle := some operation }, operation, true)

variable {admission : Admission}

theorem accept_ok {next : Admission} (accepts : admission.accept = .ok next) :
    admission.operation = none ∧ next = { admission with active := admission.active + 1 } := by
  unfold accept at accepts
  split at accepts
  · cases accepts
  next opened => exact ⟨opened, (Except.ok.inj accepts).symm⟩

theorem close_first (opened : admission.operation = none) (operation : UpgradeOperation) :
    admission.close operation =
      ({ admission with operation := some operation, lifecycle := some operation },
        operation, true) := by
  unfold close
  rw [opened]

theorem close_later {current : UpgradeOperation} (closed : admission.operation = some current)
    (operation : UpgradeOperation) : admission.close operation = (admission, current, false) := by
  unfold close
  rw [closed]

/-- A permit is dropped; the count cannot go below zero. -/
def drop (admission : Admission) : Option Admission :=
  if admission.active = 0 then none else some { admission with active := admission.active - 1 }

/-- What the drain task waits for. -/
def drained (admission : Admission) : Bool :=
  admission.active = 0

end Admission

/-! ## Jobs -/

/-- Reads run on the blocking pool, writes one after the other on the writer thread. -/
inductive JobKind
  | read | write
  deriving DecidableEq

/-- How far a job is. -/
inductive JobPhase
  | queued | running | finished
  deriving DecidableEq

/-- A job that was accepted. It holds its permit until it is finished. -/
structure Job where
  kind : JobKind
  phase : JobPhase
  /-- Whether its requester still waits for it. -/
  awaited : Bool

namespace Job

def holdsPermit (job : Job) : Bool :=
  job.phase ≠ .finished

def isRunningWrite (job : Job) : Bool :=
  job.kind = .write ∧ job.phase = .running

def isQueuedWrite (job : Job) : Bool :=
  job.kind = .write ∧ job.phase = .queued

end Job

/-- The task that a first close spawns. -/
inductive Drain
  | idle | waiting | drained | released | abandoned
  deriving DecidableEq

/-- Core work was declared drained. -/
def Drain.declared : Drain → Bool
  | .drained | .released => true
  | .idle | .waiting | .abandoned => false

/-- The daemon as far as it runs core work. Jobs are in the order of their acceptance. -/
structure Daemon where
  admission : Admission
  jobs : List Job
  /-- The writer thread unwound, and its channel went with it. -/
  writerGone : Bool
  /-- The committed events, each with the job that committed it. -/
  log : List (Nat × Event)
  drain : Drain
  /-- The shutdown token was cancelled. -/
  shutdown : Bool
  /-- A permit was dropped that the count did not know. -/
  underflow : Bool

/-- What can happen next, in any order. -/
inductive Act
  /-- A request for core work comes in. -/
  | accept (kind : JobKind)
  | start (job : Nat)
  | commit (job : Nat) (event : Event)
  /-- The job returns. -/
  | finish (job : Nat)
  /-- The job unwinds; the writer thread goes down with a write. -/
  | unwind (job : Nat)
  /-- The runtime drops a blocking job that it has not started. -/
  | discard (job : Nat)
  /-- The requester of a job is cancelled. -/
  | cancel (job : Nat)
  | close (operation : UpgradeOperation)
  /-- The drain task looks at the count. -/
  | observe
  /-- The drain task has seen the last connection or its deadline, and shuts down. -/
  | release
  /-- Anything else cancels the shutdown token. -/
  | stop
  /-- The drain task sees the token cancelled first. -/
  | abandon

/-- What a caller is told. -/
inductive Told
  | granted (job : Nat)
  | rejected (operation : UpgradeId)
  | closed (requested told : UpgradeOperation) (first : Bool)

namespace Daemon

def new : Daemon where
  admission := .new
  jobs := []
  writerGone := false
  log := []
  drain := .idle
  shutdown := false
  underflow := false

def putJob (daemon : Daemon) (index : Nat) (job : Job) : Daemon :=
  { daemon with jobs := daemon.jobs.set index job }

/-- A job is over, with its permit. -/
def endJob (daemon : Daemon) (index : Nat) : Daemon :=
  match daemon.jobs[index]? with
  | none => daemon
  | some job =>
    if job.holdsPermit then
      match daemon.admission.drop with
      | none => { daemon with underflow := true }
      | some admission =>
        { daemon with admission }.putJob index { job with phase := .finished }
    else daemon

/-- The channel of the writer is dropped, and each job in it with its permit. -/
def dropChannel (daemon : Daemon) : Daemon :=
  ((List.range daemon.jobs.length).filter fun index =>
    daemon.jobs[index]?.any Job.isQueuedWrite).foldl endJob { daemon with writerGone := true }

/-- Whether a job may start: a write waits for every write before it. -/
def mayStart (daemon : Daemon) (index : Nat) (job : Job) : Bool :=
  job.phase = .queued ∧ (job.kind = .write →
    ¬ daemon.writerGone ∧ ¬ (daemon.jobs.take index).any fun earlier =>
      earlier.kind = .write ∧ earlier.holdsPermit)

/-- A request for core work. -/
def request (daemon : Daemon) (kind : JobKind) : Daemon × Option Told :=
  match daemon.admission.accept with
  | .error operation => (daemon, some (.rejected operation))
  | .ok admission =>
    let index := daemon.jobs.length
    let accepted := { daemon with
      admission
      jobs := daemon.jobs ++ [{ kind, phase := .queued, awaited := true }] }
    -- A job that the writer's channel does not take is dropped at once.
    let left := if kind = .write ∧ daemon.writerGone then accepted.endJob index else accepted
    (left, some (.granted index))

/-- Close the gate before announcing the operation; the first owner spawns the drain. -/
def prepareRestart (daemon : Daemon) (operation : UpgradeOperation) : Daemon × Option Told :=
  match daemon.admission.close operation with
  | (admission, told, first) =>
    ({ daemon with admission, drain := if first then .waiting else daemon.drain },
      some (.closed operation told first))

/-- One step; what cannot happen now changes nothing. -/
def step (daemon : Daemon) : Act → Daemon × Option Told
  | .accept kind => daemon.request kind
  | .close operation => daemon.prepareRestart operation
  | .start index => match daemon.jobs[index]? with
    | some job =>
      if daemon.mayStart index job then
        (daemon.putJob index { job with phase := .running }, none)
      else (daemon, none)
    | none => (daemon, none)
  | .commit index event => match daemon.jobs[index]? with
    | some job =>
      if job.isRunningWrite then ({ daemon with log := daemon.log ++ [(index, event)] }, none)
      else (daemon, none)
    | none => (daemon, none)
  | .finish index => match daemon.jobs[index]? with
    | some job => if job.phase = .running then (daemon.endJob index, none) else (daemon, none)
    | none => (daemon, none)
  | .unwind index => match daemon.jobs[index]? with
    | some job =>
      if job.phase = .running then
        let ended := daemon.endJob index
        -- The writer's exit guard cancels the shutdown token.
        if job.kind = .write then ({ ended.dropChannel with shutdown := true }, none)
        else (ended, none)
      else (daemon, none)
    | none => (daemon, none)
  | .discard index => match daemon.jobs[index]? with
    | some job =>
      if job.kind = .read ∧ job.phase = .queued then (daemon.endJob index, none)
      else (daemon, none)
    | none => (daemon, none)
  | .cancel index => match daemon.jobs[index]? with
    | some job => (daemon.putJob index { job with awaited := false }, none)
    | none => (daemon, none)
  | .observe =>
    if daemon.drain = .waiting ∧ daemon.admission.drained then
      ({ daemon with drain := .drained }, none)
    else (daemon, none)
  | .release =>
    if daemon.drain = .drained then
      ({ daemon with drain := .released, shutdown := true }, none)
    else (daemon, none)
  | .stop => ({ daemon with shutdown := true }, none)
  | .abandon =>
    if daemon.drain = .waiting ∧ daemon.shutdown then ({ daemon with drain := .abandoned }, none)
    else (daemon, none)

/-- The state after some acts, and what callers were told on the way. -/
def run (daemon : Daemon) : List Act → Daemon × List Told
  | [] => (daemon, [])
  | act :: later =>
    let (next, told) := daemon.step act
    let (last, rest) := next.run later
    (last, told.toList ++ rest)

end Daemon

/-! ## The count of permits -/

namespace Daemon

/-- The count is that of the live permits, and no job outlives a declared drain. -/
structure Accounted (daemon : Daemon) : Prop where
  active : daemon.admission.active = daemon.jobs.countP Job.holdsPermit
  exact : daemon.underflow = false
  closed : daemon.drain ≠ .idle → daemon.admission.operation.isSome
  drained : daemon.drain.declared → daemon.admission.active = 0

/-- Ending a job changes neither the gate nor the drain. -/
theorem endJob_frame (daemon : Daemon) (index : Nat) :
    (daemon.endJob index).admission.operation = daemon.admission.operation ∧
      (daemon.endJob index).drain = daemon.drain ∧ (daemon.endJob index).log = daemon.log := by
  unfold endJob
  cases daemon.jobs[index]? with
  | none => exact ⟨rfl, rfl, rfl⟩
  | some job =>
    dsimp only
    split
    · unfold Admission.drop
      split <;> rename_i dropped <;> split at dropped <;> cases dropped <;> exact ⟨rfl, rfl, rfl⟩
    · exact ⟨rfl, rfl, rfl⟩

variable {daemon : Daemon}

/-- The end of a job drops exactly the permit that it holds. -/
theorem Accounted.endJob (accounted : daemon.Accounted) (index : Nat) :
    (daemon.endJob index).Accounted := by
  obtain ⟨sameOperation, sameDrain, _⟩ := endJob_frame daemon index
  unfold Daemon.endJob at sameOperation sameDrain ⊢
  cases found : daemon.jobs[index]? with
  | none => exact accounted
  | some job =>
    obtain ⟨inside, rfl⟩ := List.getElem?_eq_some_iff.mp found
    dsimp only at sameOperation sameDrain ⊢
    by_cases holds : daemon.jobs[index].holdsPermit
    · have counted : 0 < daemon.jobs.countP Job.holdsPermit :=
        List.countP_pos_iff.mpr ⟨_, List.getElem_mem inside, holds⟩
      have positive : daemon.admission.active ≠ 0 := by
        rw [accounted.active]
        exact counted.ne'
      have undeclared : ¬ daemon.drain.declared := fun declared =>
        positive (accounted.drained declared)
      rw [if_pos holds, Admission.drop, if_neg positive]
      refine ⟨?_, accounted.exact, accounted.closed, fun declared => absurd declared undeclared⟩
      have recounted := List.countP_set (p := Job.holdsPermit) (l := daemon.jobs) (i := index)
        (a := { daemon.jobs[index] with phase := .finished }) inside
      rw [if_pos holds] at recounted
      simp only [putJob, recounted, accounted.active, Job.holdsPermit]
      simp
    · rw [if_neg holds]
      exact accounted

/-- A job that keeps its permit leaves the count as it is. -/
theorem Accounted.putJob (accounted : daemon.Accounted) {index : Nat} {job next : Job}
    (found : daemon.jobs[index]? = some job) (same : next.holdsPermit = job.holdsPermit) :
    (daemon.putJob index next).Accounted := by
  obtain ⟨inside, rfl⟩ := List.getElem?_eq_some_iff.mp found
  refine ⟨?_, accounted.exact, accounted.closed, accounted.drained⟩
  have recounted := List.countP_set (p := Job.holdsPermit) (l := daemon.jobs) (i := index)
    (a := next) inside
  have bound : (if daemon.jobs[index].holdsPermit then 1 else 0) ≤
      daemon.jobs.countP Job.holdsPermit := by
    split
    next holds => exact List.countP_pos_iff.mpr ⟨_, List.getElem_mem inside, holds⟩
    · exact Nat.zero_le _
  rw [same] at recounted
  simp only [Daemon.putJob, recounted, accounted.active]
  omega

theorem Accounted.endJobs (accounted : daemon.Accounted) (indices : List Nat) :
    (indices.foldl Daemon.endJob daemon).Accounted := by
  induction indices generalizing daemon with
  | nil => exact accounted
  | cons index later rest => exact rest (accounted.endJob index)

theorem Accounted.request (accounted : daemon.Accounted) (kind : JobKind) :
    (daemon.request kind).1.Accounted := by
  unfold Daemon.request
  split
  · exact accounted
  next admission accepts =>
    obtain ⟨opened, rfl⟩ := Admission.accept_ok accepts
    have idle : daemon.drain = .idle := by
      by_contra started
      have closed := accounted.closed started
      rw [opened] at closed
      cases closed
    have accepted : Daemon.Accounted { daemon with
        admission := { daemon.admission with active := daemon.admission.active + 1 }
        jobs := daemon.jobs ++ [{ kind, phase := .queued, awaited := true }] } := by
      refine ⟨?_, accounted.exact, fun started => absurd idle started, fun declared => ?_⟩
      · rw [List.countP_append, accounted.active]
        rfl
      · rw [idle] at declared
        cases declared
    dsimp only
    split
    · exact accepted.endJob _
    · exact accepted

theorem Accounted.prepareRestart (accounted : daemon.Accounted) (operation : UpgradeOperation) :
    (daemon.prepareRestart operation).1.Accounted := by
  unfold Daemon.prepareRestart
  cases held : daemon.admission.operation with
  | some current =>
    rw [Admission.close_later held]
    exact ⟨accounted.active, accounted.exact, accounted.closed, accounted.drained⟩
  | none =>
    rw [Admission.close_first held]
    exact ⟨accounted.active, accounted.exact, fun _ => rfl, fun declared => nomatch declared⟩

theorem Accounted.step (accounted : daemon.Accounted) (act : Act) :
    (daemon.step act).1.Accounted := by
  cases act with
  | accept kind => exact accounted.request kind
  | close operation => exact accounted.prepareRestart operation
  | start index =>
    simp only [Daemon.step]
    cases found : daemon.jobs[index]? with
    | none => exact accounted
    | some job =>
      dsimp only
      split
      next ready =>
        have queued : job.phase = .queued := by
          simp only [mayStart, Bool.decide_and, Bool.and_eq_true, decide_eq_true_eq] at ready
          exact ready.1
        refine accounted.putJob found ?_
        simp [Job.holdsPermit, queued]
      · exact accounted
  | commit index event =>
    simp only [Daemon.step]
    split
    · split
      · exact ⟨accounted.active, accounted.exact, accounted.closed, accounted.drained⟩
      · exact accounted
    · exact accounted
  | finish index =>
    simp only [Daemon.step]
    split
    · split
      · exact accounted.endJob index
      · exact accounted
    · exact accounted
  | unwind index =>
    simp only [Daemon.step]
    split
    · split
      · split
        · have dropped : Daemon.Accounted { daemon.endJob index with writerGone := true } :=
            let ended := accounted.endJob index
            ⟨ended.active, ended.exact, ended.closed, ended.drained⟩
          have left := dropped.endJobs
            ((List.range (daemon.endJob index).jobs.length).filter fun other =>
              (daemon.endJob index).jobs[other]?.any Job.isQueuedWrite)
          exact ⟨left.active, left.exact, left.closed, left.drained⟩
        · exact accounted.endJob index
      · exact accounted
    · exact accounted
  | discard index =>
    simp only [Daemon.step]
    split
    · split
      · exact accounted.endJob index
      · exact accounted
    · exact accounted
  | cancel index =>
    simp only [Daemon.step]
    cases found : daemon.jobs[index]? with
    | none => exact accounted
    | some job => exact accounted.putJob found rfl
  | observe =>
    simp only [Daemon.step]
    split
    next both =>
      refine ⟨accounted.active, accounted.exact, fun _ => accounted.closed ?_, fun _ => ?_⟩
      · rw [both.1]
        nofun
      · exact of_decide_eq_true both.2
    · exact accounted
  | release =>
    simp only [Daemon.step]
    split
    next drained =>
      refine ⟨accounted.active, accounted.exact, fun _ => accounted.closed ?_,
        fun _ => accounted.drained ?_⟩
      · rw [drained]
        nofun
      · rw [drained]
        rfl
    · exact accounted
  | stop => exact ⟨accounted.active, accounted.exact, accounted.closed, accounted.drained⟩
  | abandon =>
    simp only [Daemon.step]
    split
    next both =>
      refine ⟨accounted.active, accounted.exact, fun _ => accounted.closed ?_, nofun⟩
      rw [both.1]
      nofun
    · exact accounted

/-- Once core work is declared drained every accepted job has finished. -/
theorem Accounted.finished (accounted : daemon.Accounted) (declared : daemon.drain.declared) :
    ∀ job ∈ daemon.jobs, job.phase = .finished := by
  intro job accepted
  have none_ : daemon.jobs.countP Job.holdsPermit = 0 :=
    accounted.active.symm.trans (accounted.drained declared)
  have concluded := List.countP_eq_zero.mp none_ job accepted
  simpa [Job.holdsPermit] using concluded

/-- Nothing more was committed, and the drain stays declared. -/
def Silent (before after : Daemon) : Prop :=
  after.log = before.log ∧ after.drain.declared

/-- Acts that tell nobody anything leave the gate as it is. -/
structure Quiet (daemon : Daemon) (next : Daemon × Option Told) : Prop where
  told : next.2 = none
  operation : next.1.admission.operation = daemon.admission.operation

end Daemon

namespace Told

/-- What may be told once an operation has closed the gate. -/
def Follows (operation : UpgradeOperation) : Told → Prop
  | .granted _ => False
  | .rejected id => id = operation.id
  | .closed _ told first => told = operation ∧ first = false

end Told

namespace Daemon

theorem run_append (daemon : Daemon) (early late : List Act) :
    (daemon.run (early ++ late)).1 = ((daemon.run early).1.run late).1 := by
  induction early generalizing daemon with
  | nil => rfl
  | cons act early rest => exact rest (daemon.step act).1

end Daemon

end Nits.Nitsd
