import Mathlib.Data.List.Infix

/-!
# Process ownership of stores and endpoints

A lock file is never removed or replaced. Owners hold shared locks on it, and a probe
tries an exclusive one; the single byte of the file is a diagnostic phase. Every open,
lock, read, write, rename and close is one step, and a lock is held until its file is
closed. Any number of callers take their steps in any order.
-/

namespace Nits.Nitsd.Occupancy

inductive Phase
  | starting | serving | stopping
  /-- The endpoint is occupied but has no live store association. -/
  | unknown

def Phase.byte : Phase → UInt8
  | starting => 1
  | serving => 2
  | stopping => 3
  | unknown => 4

/-- The phase a byte stands for; any other byte is invalid data. -/
def Phase.ofByte (byte : UInt8) : Option Phase :=
  if byte = 1 then some starting
  else if byte = 2 then some serving
  else if byte = 3 then some stopping
  else if byte = 4 then some unknown
  else none

/-- What a probe says of a store. -/
inductive Ownership
  | free
  | held (phase : Phase)

inductive SocketOwnership
  | untracked
  | tracked (ownership : Ownership)

/-- The lock file in a data directory, or the one beside a socket. -/
inductive LockFile (Store Endpoint : Type)
  | store (store : Store)
  | endpoint (endpoint : Endpoint)
  deriving DecidableEq

/-- What a caller is doing between two of its steps. -/
inductive Activity (Store Endpoint : Type)
  | idle
  /-- A lease has opened its file and waits for the shared lock. -/
  | acquiring (file : LockFile Store Endpoint)
  | leased (file : LockFile Store Endpoint)
  /-- A probe found no lock file. -/
  | untracked (store : Store)
  /-- A probe has opened the lock file. -/
  | probing (store : Store)
  /-- A probe has the lock, until it closes the file. -/
  | inspecting (store : Store)
  /-- A probe was refused the lock. -/
  | refused (store : Store)
  | untrackedSocket (endpoint : Endpoint)
  | probingSocket (endpoint : Endpoint)
  | inspectingSocket (endpoint : Endpoint)
  | refusedSocket (endpoint : Endpoint)
  /-- A probe of a held endpoint found no associated lock file. -/
  | unassociated (endpoint : Endpoint)
  /-- A probe of a held endpoint has opened the associated lock file. -/
  | probingStore (endpoint : Endpoint) (store : Store)
  | inspectingStore (endpoint : Endpoint) (store : Store)
  | refusedStore (endpoint : Endpoint) (store : Store)
  /-- The association is written and not yet renamed into place. -/
  | associating (endpoint : Endpoint) (store : Store)

/-- Who has a file locked. -/
structure Locks (Caller : Type) where
  shared : List Caller
  exclusive : Option Caller

/-- The locks and what each caller is doing. -/
structure State (Caller Store Endpoint : Type) where
  /-- The bytes of a lock file, if it exists. -/
  content : LockFile Store Endpoint → Option (List UInt8)
  /-- The store an endpoint's association links to. -/
  association : Endpoint → Option Store
  locks : LockFile Store Endpoint → Locks Caller
  activity : Caller → Activity Store Endpoint

/-- A call that begins, or the next step of the one that is under way. -/
inductive Action (Store Endpoint : Type)
  | acquire (file : LockFile Store Endpoint)
  | setPhase (phase : Phase)
  | drop
  | probe (store : Store)
  | probeSocket (endpoint : Endpoint)
  | associateSocket (endpoint : Endpoint) (store : Store)
  | proceed

structure Input (Caller Store Endpoint : Type) where
  caller : Caller
  action : Action Store Endpoint

/-- What a probe returns: nothing if the byte is not a phase. -/
inductive Answer (Store Endpoint : Type)
  | probe (store : Store) (ownership : Option Ownership)
  | probeSocket (endpoint : Endpoint) (ownership : Option SocketOwnership)

section Step

variable {Caller Store Endpoint : Type} [DecidableEq Caller] [DecidableEq Store]
  [DecidableEq Endpoint]

/-- The phase a refused probe reads. Acquisition can precede the first phase write. -/
def readPhase (content : Option (List UInt8)) : Option Phase :=
  Phase.ofByte ((content.getD []).headD Phase.starting.byte)

namespace State

def become (state : State Caller Store Endpoint) (caller : Caller)
    (activity : Activity Store Endpoint) : State Caller Store Endpoint :=
  { state with activity := Function.update state.activity caller activity }

/-- Open a lock file, creating it if it is missing and keeping its bytes. -/
def create (state : State Caller Store Endpoint) (file : LockFile Store Endpoint) :
    State Caller Store Endpoint :=
  { state with
    content := Function.update state.content file (some ((state.content file).getD [])) }

/-- Write the phase over the first byte. -/
def writePhase (state : State Caller Store Endpoint) (file : LockFile Store Endpoint)
    (phase : Phase) : State Caller Store Endpoint :=
  { state with
    content := Function.update state.content file
      (some (phase.byte :: ((state.content file).getD []).tail)) }

def relock (state : State Caller Store Endpoint) (file : LockFile Store Endpoint)
    (locks : Locks Caller) : State Caller Store Endpoint :=
  { state with locks := Function.update state.locks file locks }

/-- Take the shared lock, unless it is locked exclusively. -/
def lockShared (state : State Caller Store Endpoint) (caller : Caller)
    (file : LockFile Store Endpoint) : Option (State Caller Store Endpoint) :=
  let locks := state.locks file
  if locks.exclusive.isSome then none
  else some (state.relock file { locks with shared := caller :: locks.shared })

/-- Take the exclusive lock, unless it is locked at all. -/
def tryLock (state : State Caller Store Endpoint) (caller : Caller)
    (file : LockFile Store Endpoint) : Option (State Caller Store Endpoint) :=
  let locks := state.locks file
  if locks.exclusive.isSome ∨ locks.shared ≠ [] then none
  else some (state.relock file { locks with exclusive := some caller })

/-- Closing a file gives up the caller's lock on it. -/
def close (state : State Caller Store Endpoint) (caller : Caller)
    (file : LockFile Store Endpoint) : State Caller Store Endpoint :=
  let locks := state.locks file
  state.relock file {
    shared := locks.shared.filter (· ≠ caller)
    exclusive := locks.exclusive.filter (· ≠ caller) }

/-- Try the lock of a probe: with it, the file is found free, and without it held. -/
def inspect (state : State Caller Store Endpoint) (caller : Caller)
    (file : LockFile Store Endpoint) (granted refused : Activity Store Endpoint) :
    State Caller Store Endpoint :=
  match state.tryLock caller file with
  | some locked => locked.become caller granted
  | none => state.become caller refused

/-- Begin an action of an idle caller or of a lease, or take the next step of a call.
Nothing happens where the caller is not ready for the action, or has to wait. -/
def step (state : State Caller Store Endpoint) (input : Input Caller Store Endpoint) :
    Option (State Caller Store Endpoint × Option (Answer Store Endpoint)) :=
  let caller := input.caller
  match state.activity caller, input.action with
  | .idle, .acquire file => some ((state.create file).become caller (.acquiring file), none)
  | .acquiring file, .proceed =>
    (state.lockShared caller file).map fun locked => (locked.become caller (.leased file), none)
  | .leased file, .setPhase phase => some (state.writePhase file phase, none)
  | .leased file, .drop => some ((state.close caller file).become caller .idle, none)
  | .idle, .probe store =>
    if (state.content (.store store)).isSome then some (state.become caller (.probing store), none)
    else some (state.become caller (.untracked store), none)
  | .untracked store, .proceed =>
    some (state.become caller .idle, some (.probe store (some .free)))
  | .probing store, .proceed =>
    some (state.inspect caller (.store store) (.inspecting store) (.refused store), none)
  | .inspecting store, .proceed =>
    some ((state.close caller (.store store)).become caller .idle,
      some (.probe store (some .free)))
  | .refused store, .proceed =>
    some (state.become caller .idle,
      some (.probe store ((readPhase (state.content (.store store))).map .held)))
  | .idle, .probeSocket endpoint =>
    if (state.content (.endpoint endpoint)).isSome then
      some (state.become caller (.probingSocket endpoint), none)
    else some (state.become caller (.untrackedSocket endpoint), none)
  | .untrackedSocket endpoint, .proceed =>
    some (state.become caller .idle, some (.probeSocket endpoint (some .untracked)))
  | .probingSocket endpoint, .proceed =>
    some (state.inspect caller (.endpoint endpoint) (.inspectingSocket endpoint)
      (.refusedSocket endpoint), none)
  | .inspectingSocket endpoint, .proceed =>
    some ((state.close caller (.endpoint endpoint)).become caller .idle,
      some (.probeSocket endpoint (some (.tracked .free))))
  | .refusedSocket endpoint, .proceed =>
    -- Opening the association follows its link to the store's lock file.
    match state.association endpoint with
    | some store =>
      if (state.content (.store store)).isSome then
        some (state.become caller (.probingStore endpoint store), none)
      else some (state.become caller (.unassociated endpoint), none)
    | none => some (state.become caller (.unassociated endpoint), none)
  | .unassociated endpoint, .proceed =>
    some (state.become caller .idle,
      some (.probeSocket endpoint (some (.tracked (.held .unknown)))))
  | .probingStore endpoint store, .proceed =>
    some (state.inspect caller (.store store) (.inspectingStore endpoint store)
      (.refusedStore endpoint store), none)
  | .inspectingStore endpoint store, .proceed =>
    some ((state.close caller (.store store)).become caller .idle,
      some (.probeSocket endpoint (some (.tracked (.held .unknown)))))
  | .refusedStore endpoint store, .proceed =>
    some (state.become caller .idle,
      some (.probeSocket endpoint
        ((readPhase (state.content (.store store))).map fun phase => .tracked (.held phase))))
  | .idle, .associateSocket endpoint store =>
    -- The link's target is canonicalized, which needs the store's lock file.
    if (state.content (.store store)).isSome then
      some (state.become caller (.associating endpoint store), none)
    else none
  | .associating endpoint store, .proceed =>
    some ({ state with association := Function.update state.association endpoint (some store) }.become
      caller .idle, none)
  | _, _ => none

/-- No caller has a file open. -/
structure Quiet (state : State Caller Store Endpoint) : Prop where
  idle : ∀ caller, state.activity caller = .idle
  unlocked : ∀ file, state.locks file = ⟨[], none⟩

end State

/-- The steps taken from a start, each with the state it was taken in, and the state
reached. -/
inductive Runs (start : State Caller Store Endpoint) :
    List (State Caller Store Endpoint × Input Caller Store Endpoint) →
      State Caller Store Endpoint → Prop
  | start : Runs start [] start
  | step {past : List (State Caller Store Endpoint × Input Caller Store Endpoint)}
      {state next : State Caller Store Endpoint} {input : Input Caller Store Endpoint}
      {answer : Option (Answer Store Endpoint)} (run : Runs start past state)
      (taken : state.step input = some (next, answer)) :
      Runs start (past ++ [(state, input)]) next

/-- The file whose lock a step of a probe tries, or which it finds missing. -/
def inspected (state : State Caller Store Endpoint) (input : Input Caller Store Endpoint) :
    Option (LockFile Store Endpoint) :=
  match state.activity input.caller, input.action with
  | .probing store, .proceed => some (.store store)
  | .probingSocket endpoint, .proceed => some (.endpoint endpoint)
  | .probingStore _ store, .proceed => some (.store store)
  | .idle, .probe store => if (state.content (.store store)).isSome then none else some (.store store)
  | _, _ => none

/-- A lease on the file is live: acquired and not dropped. -/
def Live (state : State Caller Store Endpoint) (file : LockFile Store Endpoint) : Prop :=
  ∃ caller, state.activity caller = .leased file

/-- A step of the caller's current call had a property in the state it was taken in. -/
def Took (past : List (State Caller Store Endpoint × Input Caller Store Endpoint))
    (caller : Caller)
    (fact : State Caller Store Endpoint → Input Caller Store Endpoint → Prop) : Prop :=
  ∃ before state input between, past = before ++ (state, input) :: between ∧
    input.caller = caller ∧ fact state input ∧
      ∀ later ∈ between, later.2.caller = caller → later.2.action = .proceed

/-- An answer is borne out by the leases that were live at the lock steps of its call,
and by the association the call looked up. -/
def Truthful (past : List (State Caller Store Endpoint × Input Caller Store Endpoint))
    (caller : Caller) : Answer Store Endpoint → Prop
  | .probe store (some .free) =>
    Took past caller fun state input =>
      inspected state input = some (.store store) ∧ ¬ Live state (.store store)
  | .probe store (some (.held _)) =>
    Took past caller fun state input =>
      inspected state input = some (.store store) ∧ Live state (.store store)
  | .probeSocket endpoint (some (.tracked (.held phase))) =>
    phase ≠ .unknown →
      (Took past caller fun state input =>
        inspected state input = some (.endpoint endpoint) ∧ Live state (.endpoint endpoint)) ∧
      ∃ store,
        (Took past caller fun state input =>
          state.activity input.caller = .refusedSocket endpoint ∧
            state.association endpoint = some store) ∧
        Took past caller fun state input =>
          inspected state input = some (.store store) ∧ Live state (.store store)
  | _ => True

/-- The step does not try a lock that another probe has. -/
def Apart (state : State Caller Store Endpoint) (input : Input Caller Store Endpoint) : Prop :=
  ∀ file, inspected state input = some file → (state.locks file).exclusive = none

end Step

end Nits.Nitsd.Occupancy
