import Nits.Nitsd.Ownership

/-!
# What probes find out

The lock table follows the callers, so a probe is granted the lock only where no lease
is live, and refused it where a lease is live or another probe has it. Every answer
goes back to the lock steps of its call.
-/

namespace Nits.Nitsd.Occupancy

/-! ### Locks and leases -/

section Locks

variable {Caller Store Endpoint : Type} {state : State Caller Store Endpoint}

/-- The file an activity has locked shared. -/
def Activity.sharedLock : Activity Store Endpoint → Option (LockFile Store Endpoint)
  | .leased file => some file
  | _ => none

/-- The file an activity has locked exclusively. -/
def Activity.exclusiveLock : Activity Store Endpoint → Option (LockFile Store Endpoint)
  | .inspecting store => some (.store store)
  | .inspectingSocket endpoint => some (.endpoint endpoint)
  | .inspectingStore _ store => some (.store store)
  | _ => none

/-- The file an activity has created or found. -/
def Activity.opened : Activity Store Endpoint → Option (LockFile Store Endpoint)
  | .acquiring file => some file
  | .leased file => some file
  | _ => none

/-- The lock table says what the callers have locked, and a file is never locked both
ways. A lease's file exists. -/
structure Sound (state : State Caller Store Endpoint) : Prop where
  shared : ∀ caller file,
    caller ∈ (state.locks file).shared ↔ (state.activity caller).sharedLock = some file
  exclusive : ∀ caller file,
    (state.locks file).exclusive = some caller ↔ (state.activity caller).exclusiveLock = some file
  separate : ∀ file, (state.locks file).exclusive.isSome → (state.locks file).shared = []
  existing : ∀ caller file,
    (state.activity caller).opened = some file → (state.content file).isSome

theorem Activity.sharedLock_eq_some {activity : Activity Store Endpoint}
    {file : LockFile Store Endpoint} :
    activity.sharedLock = some file ↔ activity = .leased file := by
  cases activity <;> simp [Activity.sharedLock]

theorem Sound.live_iff (sound : Sound state) (file : LockFile Store Endpoint) :
    Live state file ↔ (state.locks file).shared ≠ [] := by
  constructor
  · rintro ⟨caller, leased⟩ none
    have mem := (sound.shared caller file).mpr (Activity.sharedLock_eq_some.mpr leased)
    rw [none] at mem
    cases mem
  · intro some
    obtain ⟨caller, others, shape⟩ := List.exists_cons_of_ne_nil some
    have mem : caller ∈ (state.locks file).shared := by rw [shape]; exact List.mem_cons_self
    exact ⟨caller, Activity.sharedLock_eq_some.mp ((sound.shared caller file).mp mem)⟩

/-- A missing file has no live lease. -/
theorem Sound.not_live_of_missing (sound : Sound state) {file : LockFile Store Endpoint}
    (missing : (state.content file).isSome = false) : ¬ Live state file := by
  rintro ⟨caller, leased⟩
  have found := sound.existing caller file (by rw [leased]; rfl)
  rw [missing] at found
  cases found

theorem sound_of_quiet (quiet : state.Quiet) : Sound state := by
  constructor
  · intro caller file
    rw [quiet.unlocked, quiet.idle]
    simp [Activity.sharedLock]
  · intro caller file
    rw [quiet.unlocked, quiet.idle]
    simp [Activity.exclusiveLock]
  · intro file
    rw [quiet.unlocked]
    simp
  · intro caller file
    rw [quiet.idle]
    simp [Activity.opened]

/-- Bytes may be written, and files created. -/
theorem Sound.write (sound : Sound state) {content : LockFile Store Endpoint → Option (List UInt8)}
    (kept : ∀ file, (state.content file).isSome → (content file).isSome) :
    Sound { state with content } :=
  ⟨sound.shared, sound.exclusive, sound.separate,
    fun caller file opened => kept file (sound.existing caller file opened)⟩

theorem Sound.link (sound : Sound state) (association : Endpoint → Option Store) :
    Sound { state with association } :=
  ⟨sound.shared, sound.exclusive, sound.separate, sound.existing⟩

theorem isSome_update [DecidableEq Store] [DecidableEq Endpoint]
    {content : LockFile Store Endpoint → Option (List UInt8)}
    {written file : LockFile Store Endpoint} {bytes : List UInt8}
    (found : (content file).isSome ∨ file = written) :
    (Function.update content written (some bytes) file).isSome := by
  rw [Function.update_apply]
  split
  · rfl
  next other => exact found.resolve_right other

theorem become_activity [DecidableEq Caller] (state : State Caller Store Endpoint) (caller other : Caller)
    (activity : Activity Store Endpoint) :
    (state.become caller activity).activity other =
      if other = caller then activity else state.activity other := by
  rw [State.become]
  exact Function.update_apply _ _ _ _

theorem relock_activity [DecidableEq Store] [DecidableEq Endpoint]
    (state : State Caller Store Endpoint) (file : LockFile Store Endpoint) (locks : Locks Caller) :
    (state.relock file locks).activity = state.activity := rfl

theorem relock_locks [DecidableEq Store] [DecidableEq Endpoint]
    (state : State Caller Store Endpoint) (file other : LockFile Store Endpoint) (locks : Locks Caller) :
    (state.relock file locks).locks other = if other = file then locks else state.locks other := by
  rw [State.relock]
  exact Function.update_apply _ _ _ _

end Locks

section Keep

variable {Caller Store Endpoint : Type} [DecidableEq Caller] {state : State Caller Store Endpoint}

/-- An activity that has nothing locked replaces another. -/
theorem Sound.become (sound : Sound state) {caller : Caller} {activity : Activity Store Endpoint}
    (before : (state.activity caller).sharedLock = none ∧
      (state.activity caller).exclusiveLock = none)
    (after : activity.sharedLock = none ∧ activity.exclusiveLock = none)
    (existing : ∀ file, activity.opened = some file → (state.content file).isSome) :
    Sound (state.become caller activity) := by
  constructor
  · intro other file
    rw [become_activity]
    refine (sound.shared other file).trans ?_
    split
    next same =>
      subst same
      rw [before.1, after.1]
    next => rfl
  · intro other file
    rw [become_activity]
    refine (sound.exclusive other file).trans ?_
    split
    next same =>
      subst same
      rw [before.2, after.2]
    next => rfl
  · exact sound.separate
  · intro other file opened
    rw [become_activity] at opened
    split at opened
    · exact existing file opened
    · exact sound.existing other file opened

section Locking

variable [DecidableEq Store] [DecidableEq Endpoint] {file : LockFile Store Endpoint}

omit [DecidableEq Caller] in
/-- A lock table stays apart if what replaces a file's locks is. -/
theorem Sound.separate_relock (sound : Sound state) {locks : Locks Caller}
    (apart : locks.exclusive.isSome → locks.shared = []) (place : LockFile Store Endpoint) :
    ((state.relock file locks).locks place).exclusive.isSome →
      ((state.relock file locks).locks place).shared = [] := by
  rw [relock_locks]
  split
  · exact apart
  · exact sound.separate place

/-- The shared lock is granted to a lease that waits for it. -/
theorem Sound.lockShared (sound : Sound state) {caller : Caller}
    (waiting : state.activity caller = .acquiring file) {locked : State Caller Store Endpoint}
    (granted : state.lockShared caller file = some locked) :
    Sound (locked.become caller (.leased file)) := by
  rw [State.lockShared] at granted
  split at granted
  next => cases granted
  next unlocked =>
    cases granted
    have free : (state.locks file).exclusive = none := by simpa using unlocked
    constructor
    · intro other place
      rw [become_activity, relock_activity]
      change other ∈ ((state.relock file _).locks place).shared ↔ _
      rw [relock_locks]
      have held := sound.shared other place
      by_cases here : place = file
      · subst here
        rw [if_pos rfl, List.mem_cons, held]
        by_cases same : other = caller
        · subst same
          simp [Activity.sharedLock]
        · simp [same]
      · rw [if_neg here, held]
        by_cases same : other = caller
        · subst same
          simp [waiting, Activity.sharedLock, Ne.symm here]
        · rw [if_neg same]
    · intro other place
      rw [become_activity, relock_activity]
      change ((state.relock file _).locks place).exclusive = some other ↔ _
      rw [relock_locks]
      have held := sound.exclusive other place
      have same : (if place = file then
          (⟨caller :: (state.locks file).shared, (state.locks file).exclusive⟩ : Locks Caller)
          else state.locks place).exclusive = (state.locks place).exclusive := by
        split
        next here => rw [here]
        next => rfl
      rw [same, held]
      split
      next same => subst same; rw [waiting]; rfl
      next => rfl
    · refine sound.separate_relock fun exclusive => ?_
      rw [free] at exclusive
      cases exclusive
    · intro other place opened
      rw [become_activity] at opened
      split at opened
      next same =>
        cases opened
        exact sound.existing caller file (by rw [waiting]; rfl)
      next => exact sound.existing other place opened

/-- The exclusive lock is granted to a probe, or refused. -/
theorem Sound.inspect (sound : Sound state) {caller : Caller}
    {granted refused : Activity Store Endpoint}
    (before : (state.activity caller).sharedLock = none ∧
      (state.activity caller).exclusiveLock = none)
    (holds : granted.exclusiveLock = some file ∧ granted.sharedLock = none ∧ granted.opened = none)
    (without : refused.exclusiveLock = none ∧ refused.sharedLock = none ∧ refused.opened = none) :
    Sound (state.inspect caller file granted refused) := by
  rw [State.inspect, State.tryLock]
  split
  next locked taken =>
    split at taken
    next => cases taken
    next unlocked =>
      cases taken
      simp only [Option.isSome_iff_ne_none, ne_eq, not_or, not_not] at unlocked
      constructor
      · intro other place
        rw [become_activity, relock_activity]
        change other ∈ ((state.relock file _).locks place).shared ↔ _
        rw [relock_locks]
        have held := sound.shared other place
        have same : (if place = file then
            (⟨(state.locks file).shared, some caller⟩ : Locks Caller)
            else state.locks place).shared = (state.locks place).shared := by
          split
          next here => rw [here]
          next => rfl
        rw [same, held]
        split
        next same => subst same; rw [before.1, holds.2.1]
        next => rfl
      · intro other place
        rw [become_activity, relock_activity]
        change ((state.relock file _).locks place).exclusive = some other ↔ _
        rw [relock_locks]
        have held := sound.exclusive other place
        by_cases here : place = file
        · subst here
          rw [if_pos rfl]
          by_cases same : other = caller
          · subst same
            simp [holds.1]
          · rw [if_neg same, ← held, unlocked.1]
            simp [Ne.symm same]
        · rw [if_neg here, held]
          by_cases same : other = caller
          · subst same
            simp [before.2, holds.1, Ne.symm here]
          · rw [if_neg same]
      · exact sound.separate_relock fun _ => unlocked.2
      · intro other place opened
        rw [become_activity] at opened
        split at opened
        next =>
          rw [holds.2.2] at opened
          cases opened
        next => exact sound.existing other place opened
  next =>
    refine sound.become before ⟨without.2.1, without.1⟩ ?_
    intro place opened
    rw [without.2.2] at opened
    cases opened

/-- Closing a file and going idle gives up what was locked. -/
theorem Sound.close (sound : Sound state) {caller : Caller}
    (only : ∀ place, ((state.activity caller).sharedLock = some place ∨
      (state.activity caller).exclusiveLock = some place) → place = file) :
    Sound ((state.close caller file).become caller .idle) := by
  have relocked : (state.close caller file).activity = state.activity := rfl
  constructor
  · intro other place
    rw [become_activity, relocked]
    change other ∈ ((state.relock file _).locks place).shared ↔ _
    rw [relock_locks]
    have held := sound.shared other place
    by_cases here : place = file
    · subst here
      rw [if_pos rfl, List.mem_filter, held]
      by_cases same : other = caller
      · subst same
        simp [Activity.sharedLock]
      · simp [same]
    · rw [if_neg here, held]
      by_cases same : other = caller
      · subst same
        rw [if_pos rfl]
        simp only [Activity.sharedLock, reduceCtorEq, iff_false]
        exact fun locked => here (only place (.inl locked))
      · rw [if_neg same]
  · intro other place
    rw [become_activity, relocked]
    change ((state.relock file _).locks place).exclusive = some other ↔ _
    rw [relock_locks]
    have held := sound.exclusive other place
    by_cases here : place = file
    · subst here
      rw [if_pos rfl, Option.filter_eq_some_iff, held]
      by_cases same : other = caller
      · subst same
        simp [Activity.exclusiveLock]
      · simp [same]
    · rw [if_neg here, held]
      by_cases same : other = caller
      · subst same
        rw [if_pos rfl]
        simp only [Activity.exclusiveLock, reduceCtorEq, iff_false]
        exact fun locked => here (only place (.inr locked))
      · rw [if_neg same]
  · refine sound.separate_relock fun exclusive => ?_
    have before : (state.locks file).exclusive.isSome := by
      obtain ⟨holder, found⟩ := Option.isSome_iff_exists.mp exclusive
      rw [(Option.filter_eq_some_iff.mp found).1]
      rfl
    dsimp only
    rw [sound.separate file before]
    rfl
  · intro other place opened
    rw [become_activity] at opened
    split at opened
    · cases opened
    · exact sound.existing other place opened

/-- Every step keeps the lock table in line with the callers. -/
theorem Sound.step (sound : Sound state) {input : Input Caller Store Endpoint}
    {next : State Caller Store Endpoint} {answer : Option (Answer Store Endpoint)}
    (taken : state.step input = some (next, answer)) : Sound next := by
  have plain {before activity : Activity Store Endpoint}
      (at_ : state.activity input.caller = before)
      (free : before.sharedLock = none ∧ before.exclusiveLock = none)
      (after : activity.sharedLock = none ∧ activity.exclusiveLock = none)
      (unopened : activity.opened = none) : Sound (state.become input.caller activity) := by
    refine sound.become (at_ ▸ free) after fun file opened => ?_
    rw [unopened] at opened
    cases opened
  rw [State.step] at taken
  split at taken
  next file at_ _ =>
    cases taken
    have created : Sound (state.create file) :=
      sound.write fun place found => isSome_update (.inl found)
    refine created.become ?_ ⟨rfl, rfl⟩ ?_
    · change (state.activity input.caller).sharedLock = none ∧
        (state.activity input.caller).exclusiveLock = none
      rw [at_]
      exact ⟨rfl, rfl⟩
    · intro place opened
      cases opened
      exact isSome_update (.inr rfl)
  next file at_ _ =>
    obtain ⟨locked, granted, same⟩ := Option.map_eq_some_iff.mp taken
    cases same
    exact sound.lockShared at_ granted
  next file phase at_ _ =>
    cases taken
    exact sound.write fun place found => isSome_update (.inl found)
  next file at_ _ =>
    cases taken
    refine sound.close fun place locked => ?_
    rw [at_] at locked
    rcases locked with locked | locked <;> cases locked
    rfl
  next store at_ _ =>
    split at taken <;> cases taken <;> exact plain at_ ⟨rfl, rfl⟩ ⟨rfl, rfl⟩ rfl
  next store at_ _ =>
    cases taken
    exact plain at_ ⟨rfl, rfl⟩ ⟨rfl, rfl⟩ rfl
  next store at_ _ =>
    cases taken
    exact sound.inspect (by rw [at_]; exact ⟨rfl, rfl⟩) ⟨rfl, rfl, rfl⟩ ⟨rfl, rfl, rfl⟩
  next store at_ _ =>
    cases taken
    refine sound.close fun place locked => ?_
    rw [at_] at locked
    rcases locked with locked | locked <;> cases locked
    rfl
  next store at_ _ =>
    cases taken
    exact plain at_ ⟨rfl, rfl⟩ ⟨rfl, rfl⟩ rfl
  next endpoint at_ _ =>
    split at taken <;> cases taken <;> exact plain at_ ⟨rfl, rfl⟩ ⟨rfl, rfl⟩ rfl
  next endpoint at_ _ =>
    cases taken
    exact plain at_ ⟨rfl, rfl⟩ ⟨rfl, rfl⟩ rfl
  next endpoint at_ _ =>
    cases taken
    exact sound.inspect (by rw [at_]; exact ⟨rfl, rfl⟩) ⟨rfl, rfl, rfl⟩ ⟨rfl, rfl, rfl⟩
  next endpoint at_ _ =>
    cases taken
    refine sound.close fun place locked => ?_
    rw [at_] at locked
    rcases locked with locked | locked <;> cases locked
    rfl
  next endpoint at_ _ =>
    split at taken
    · split at taken <;> cases taken <;> exact plain at_ ⟨rfl, rfl⟩ ⟨rfl, rfl⟩ rfl
    · cases taken
      exact plain at_ ⟨rfl, rfl⟩ ⟨rfl, rfl⟩ rfl
  next endpoint at_ _ =>
    cases taken
    exact plain at_ ⟨rfl, rfl⟩ ⟨rfl, rfl⟩ rfl
  next endpoint store at_ _ =>
    cases taken
    exact sound.inspect (by rw [at_]; exact ⟨rfl, rfl⟩) ⟨rfl, rfl, rfl⟩ ⟨rfl, rfl, rfl⟩
  next endpoint store at_ _ =>
    cases taken
    refine sound.close fun place locked => ?_
    rw [at_] at locked
    rcases locked with locked | locked <;> cases locked
    rfl
  next endpoint store at_ _ =>
    cases taken
    exact plain at_ ⟨rfl, rfl⟩ ⟨rfl, rfl⟩ rfl
  next endpoint store at_ _ =>
    split at taken
    · cases taken
      exact plain at_ ⟨rfl, rfl⟩ ⟨rfl, rfl⟩ rfl
    · cases taken
  next endpoint store at_ _ =>
    cases taken
    refine (sound.link _).become ?_ ⟨rfl, rfl⟩ (by simp [Activity.opened])
    change (state.activity input.caller).sharedLock = none ∧
      (state.activity input.caller).exclusiveLock = none
    rw [at_]
    exact ⟨rfl, rfl⟩
  next => cases taken

end Locking

end Keep

/-! ### What a call has seen -/

section Told

variable {Caller Store Endpoint : Type} {state : State Caller Store Endpoint}
  {past : List (State Caller Store Endpoint × Input Caller Store Endpoint)} {caller : Caller}
  {fact : State Caller Store Endpoint → Input Caller Store Endpoint → Prop}

/-- What a step of the call saw stays seen until another call of the caller. -/
theorem Took.later (took : Took past caller fact) {input : Input Caller Store Endpoint}
    (within : input.caller = caller → input.action = .proceed) :
    Took (past ++ [(state, input)]) caller fact := by
  obtain ⟨before, at_, first, between, rfl, own, held, proceeds⟩ := took
  refine ⟨before, at_, first, between ++ [(state, input)], by simp, own, held, ?_⟩
  intro later mem
  rcases List.mem_append.mp mem with inside | last
  · exact proceeds later inside
  · rw [List.mem_singleton.mp last]
    exact within

/-- What the latest step saw. -/
theorem Took.now {input : Input Caller Store Endpoint} (own : input.caller = caller)
    (held : fact state input) : Took (past ++ [(state, input)]) caller fact :=
  ⟨past, state, input, [], rfl, own, held, by simp⟩

theorem Took.imp {other : State Caller Store Endpoint → Input Caller Store Endpoint → Prop}
    (took : Took past caller fact)
    (weaker : ∀ step ∈ past, fact step.1 step.2 → other step.1 step.2) :
    Took past caller other := by
  obtain ⟨before, at_, first, between, rfl, own, held, proceeds⟩ := took
  exact ⟨before, at_, first, between, rfl, own, weaker (at_, first) (by simp) held, proceeds⟩

/-- A lease is live, or a probe has the lock. -/
def Blocked (state : State Caller Store Endpoint) (file : LockFile Store Endpoint) : Prop :=
  Live state file ∨ (state.locks file).exclusive.isSome

/-- The lock step of the call found no live lease. -/
def FoundFree (past : List (State Caller Store Endpoint × Input Caller Store Endpoint))
    (caller : Caller) (file : LockFile Store Endpoint) : Prop :=
  Took past caller fun state input => inspected state input = some file ∧ ¬ Live state file

/-- The lock step of the call was refused the lock. -/
def FoundBlocked (past : List (State Caller Store Endpoint × Input Caller Store Endpoint))
    (caller : Caller) (file : LockFile Store Endpoint) : Prop :=
  Took past caller fun state input => inspected state input = some file ∧ Blocked state file

/-- The call followed the endpoint's association to the store. -/
def Followed (past : List (State Caller Store Endpoint × Input Caller Store Endpoint))
    (caller : Caller) (endpoint : Endpoint) (store : Store) : Prop :=
  Took past caller fun state input =>
    state.activity input.caller = .refusedSocket endpoint ∧ state.association endpoint = some store

/-- What a caller's call has seen by the time of an activity. -/
def Story (past : List (State Caller Store Endpoint × Input Caller Store Endpoint))
    (caller : Caller) : Activity Store Endpoint → Prop
  | .untracked store => FoundFree past caller (.store store)
  | .inspecting store => FoundFree past caller (.store store)
  | .refused store => FoundBlocked past caller (.store store)
  | .refusedSocket endpoint => FoundBlocked past caller (.endpoint endpoint)
  | .probingStore endpoint store =>
    FoundBlocked past caller (.endpoint endpoint) ∧ Followed past caller endpoint store
  | .refusedStore endpoint store =>
    FoundBlocked past caller (.endpoint endpoint) ∧ Followed past caller endpoint store ∧
      FoundBlocked past caller (.store store)
  | _ => True

/-- What an answer rests on. -/
def Told (past : List (State Caller Store Endpoint × Input Caller Store Endpoint))
    (caller : Caller) : Answer Store Endpoint → Prop
  | .probe store (some .free) => FoundFree past caller (.store store)
  | .probe store (some (.held _)) => FoundBlocked past caller (.store store)
  | .probeSocket endpoint (some (.tracked (.held phase))) =>
    phase ≠ .unknown →
      FoundBlocked past caller (.endpoint endpoint) ∧ ∃ store,
        Followed past caller endpoint store ∧ FoundBlocked past caller (.store store)
  | _ => True

/-- The story of a caller goes on while others take their steps, and in its own call. -/
theorem Story.later {activity : Activity Store Endpoint} (story : Story past caller activity)
    {input : Input Caller Store Endpoint}
    (within : input.caller = caller → input.action = .proceed) :
    Story (past ++ [(state, input)]) caller activity := by
  cases activity with
  | untracked store => exact Took.later story within
  | inspecting store => exact Took.later story within
  | refused store => exact Took.later story within
  | refusedSocket endpoint => exact Took.later story within
  | probingStore endpoint store => exact ⟨story.1.later within, story.2.later within⟩
  | refusedStore endpoint store =>
    exact ⟨story.1.later within, story.2.1.later within, story.2.2.later within⟩
  | _ => trivial

/-- Where no lock attempt met another probe, a refused attempt met a lease. -/
theorem FoundBlocked.live {file : LockFile Store Endpoint} (blocked : FoundBlocked past caller file)
    (apart : ∀ step ∈ past, Apart step.1 step.2) :
    Took past caller fun state input => inspected state input = some file ∧ Live state file := by
  refine Took.imp blocked fun step mem held => ⟨held.1, held.2.resolve_right ?_⟩
  simp [apart step mem file held.1]

/-- Where no lock attempt met another probe, an answer is borne out by leases. -/
theorem Told.truthful {answer : Answer Store Endpoint} (told : Told past caller answer)
    (apart : ∀ step ∈ past, Apart step.1 step.2) : Truthful past caller answer := by
  match answer, told with
  | .probe _ none, _ => trivial
  | .probe _ (some .free), told => exact told
  | .probe _ (some (.held _)), told => exact told.live apart
  | .probeSocket _ none, _ => trivial
  | .probeSocket _ (some .untracked), _ => trivial
  | .probeSocket _ (some (.tracked .free)), _ => trivial
  | .probeSocket _ (some (.tracked (.held _))), told =>
    intro known
    obtain ⟨owner, store, followed, held⟩ := told known
    exact ⟨owner.live apart, store, followed, held.live apart⟩

variable [DecidableEq Caller] [DecidableEq Store] [DecidableEq Endpoint]

/-- A lock attempt is granted where nothing blocks it, and refused where something does. -/
theorem Sound.inspect_cases (sound : Sound state) (caller : Caller)
    (file : LockFile Store Endpoint) (granted refused : Activity Store Endpoint) :
    (¬ Blocked state file ∧ (state.inspect caller file granted refused).activity =
        Function.update state.activity caller granted) ∨
      (Blocked state file ∧ (state.inspect caller file granted refused).activity =
        Function.update state.activity caller refused) := by
  rw [State.inspect, State.tryLock]
  by_cases blocked : (state.locks file).exclusive.isSome ∨ (state.locks file).shared ≠ []
  · right
    rw [if_pos blocked]
    refine ⟨?_, rfl⟩
    rcases blocked with probed | leased
    · exact .inr probed
    · exact .inl ((sound.live_iff file).mpr leased)
  · left
    rw [if_neg blocked]
    refine ⟨?_, rfl⟩
    rintro (live | probed)
    · exact blocked (.inr ((sound.live_iff file).mp live))
    · exact blocked (.inl probed)

/-- What a step does to the other callers, to the caller's story, and what it answers. -/
theorem Story.step (sound : Sound state) {input : Input Caller Store Endpoint}
    (story : Story past input.caller (state.activity input.caller))
    {next : State Caller Store Endpoint} {answer : Option (Answer Store Endpoint)}
    (taken : state.step input = some (next, answer)) :
    (∃ activity, next.activity = Function.update state.activity input.caller activity ∧
        Story (past ++ [(state, input)]) input.caller activity) ∧
      ∀ told, answer = some told → Told past input.caller told := by
  have own : input.caller = input.caller := rfl
  rw [State.step] at taken
  split at taken
  next file at_ _ =>
    cases taken
    exact ⟨⟨_, rfl, trivial⟩, by simp⟩
  next file at_ _ =>
    obtain ⟨locked, granted, same⟩ := Option.map_eq_some_iff.mp taken
    cases same
    rw [State.lockShared] at granted
    split at granted
    · cases granted
    · cases granted
      exact ⟨⟨_, rfl, trivial⟩, by simp⟩
  next file phase at_ _ =>
    cases taken
    refine ⟨⟨.leased file, ?_, trivial⟩, by simp⟩
    rw [← at_, Function.update_eq_self]
    rfl
  next file at_ _ =>
    cases taken
    exact ⟨⟨_, rfl, trivial⟩, by simp⟩
  next store at_ begins =>
    split at taken
    next =>
      cases taken
      exact ⟨⟨_, rfl, trivial⟩, by simp⟩
    next missing =>
      cases taken
      refine ⟨⟨_, rfl, Took.now own ⟨?_, sound.not_live_of_missing (by simpa using missing)⟩⟩,
        by simp⟩
      rw [inspected, at_, begins]
      exact if_neg missing
  next store at_ proceeds =>
    cases taken
    rw [at_] at story
    refine ⟨⟨_, rfl, trivial⟩, ?_⟩
    rintro _ ⟨⟩
    exact story
  next store at_ proceeds =>
    cases taken
    have tries : inspected state input = some (.store store) := by rw [inspected, at_, proceeds]
    rcases sound.inspect_cases input.caller (.store store) (.inspecting store) (.refused store) with
      ⟨free, becomes⟩ | ⟨blocked, becomes⟩
    · exact ⟨⟨_, becomes, Took.now own ⟨tries, fun live => free (.inl live)⟩⟩, by simp⟩
    · exact ⟨⟨_, becomes, Took.now own ⟨tries, blocked⟩⟩, by simp⟩
  next store at_ _ =>
    cases taken
    rw [at_] at story
    refine ⟨⟨_, rfl, trivial⟩, ?_⟩
    rintro _ ⟨⟩
    exact story
  next store at_ _ =>
    cases taken
    rw [at_] at story
    refine ⟨⟨_, rfl, trivial⟩, ?_⟩
    rintro _ ⟨⟩
    cases readPhase (state.content (.store store)) with
    | none => trivial
    | some phase => exact story
  next endpoint at_ _ =>
    split at taken <;> cases taken <;> exact ⟨⟨_, rfl, trivial⟩, by simp⟩
  next endpoint at_ _ =>
    cases taken
    refine ⟨⟨_, rfl, trivial⟩, ?_⟩
    rintro _ ⟨⟩
    trivial
  next endpoint at_ proceeds =>
    cases taken
    have tries : inspected state input = some (.endpoint endpoint) := by
      rw [inspected, at_, proceeds]
    rcases sound.inspect_cases input.caller (.endpoint endpoint) (.inspectingSocket endpoint)
      (.refusedSocket endpoint) with ⟨free, becomes⟩ | ⟨blocked, becomes⟩
    · exact ⟨⟨_, becomes, trivial⟩, by simp⟩
    · exact ⟨⟨_, becomes, Took.now own ⟨tries, blocked⟩⟩, by simp⟩
  next endpoint at_ _ =>
    cases taken
    refine ⟨⟨_, rfl, trivial⟩, ?_⟩
    rintro _ ⟨⟩
    trivial
  next endpoint at_ proceeds =>
    rw [at_] at story
    split at taken
    next store linked =>
      split at taken
      next =>
        cases taken
        exact ⟨⟨_, rfl, story.later fun _ => proceeds, Took.now own ⟨at_, linked⟩⟩, by simp⟩
      next =>
        cases taken
        exact ⟨⟨_, rfl, trivial⟩, by simp⟩
    next =>
      cases taken
      exact ⟨⟨_, rfl, trivial⟩, by simp⟩
  next endpoint at_ _ =>
    cases taken
    refine ⟨⟨_, rfl, trivial⟩, ?_⟩
    rintro _ ⟨⟩
    exact fun known => absurd rfl known
  next endpoint store at_ proceeds =>
    cases taken
    rw [at_] at story
    have tries : inspected state input = some (.store store) := by rw [inspected, at_, proceeds]
    rcases sound.inspect_cases input.caller (.store store) (.inspectingStore endpoint store)
      (.refusedStore endpoint store) with ⟨free, becomes⟩ | ⟨blocked, becomes⟩
    · exact ⟨⟨_, becomes, trivial⟩, by simp⟩
    · exact ⟨⟨_, becomes, story.1.later fun _ => proceeds, story.2.later fun _ => proceeds,
        Took.now own ⟨tries, blocked⟩⟩, by simp⟩
  next endpoint store at_ _ =>
    cases taken
    refine ⟨⟨_, rfl, trivial⟩, ?_⟩
    rintro _ ⟨⟩
    exact fun known => absurd rfl known
  next endpoint store at_ _ =>
    cases taken
    rw [at_] at story
    refine ⟨⟨_, rfl, trivial⟩, ?_⟩
    rintro _ ⟨⟩
    cases readPhase (state.content (.store store)) with
    | none => trivial
    | some phase => exact fun _ => ⟨story.1, store, story.2.1, story.2.2⟩
  next endpoint store at_ _ =>
    split at taken
    · cases taken
      exact ⟨⟨_, rfl, trivial⟩, by simp⟩
    · cases taken
  next endpoint store at_ _ =>
    cases taken
    exact ⟨⟨_, rfl, trivial⟩, by simp⟩
  next => cases taken

/-- In every run, the lock table is in line with the callers, and each call has seen what
its activity says. -/
theorem Runs.story {start : State Caller Store Endpoint} (quiet : start.Quiet)
    (run : Runs start past state) :
    Sound state ∧ ∀ caller, Story past caller (state.activity caller) := by
  induction run with
  | start =>
    refine ⟨sound_of_quiet quiet, fun caller => ?_⟩
    rw [quiet.idle]
    trivial
  | @step past state next input answer _ taken ih =>
    obtain ⟨sound, stories⟩ := ih
    refine ⟨sound.step taken, fun caller => ?_⟩
    obtain ⟨⟨activity, becomes, told⟩, -⟩ := (stories input.caller).step sound taken
    rw [becomes, Function.update_apply]
    split
    next same =>
      rw [same]
      exact told
    next other => exact (stories caller).later fun own => absurd own.symm other

end Told

/-- The claims of an answer hold in every run in which no probe tries a lock while another
probe has it. In any run, `Free` is answered only where no lease was live at the lock
step, and a refused lock attempt without a live lease is one that meets another probe. -/
theorem probes_truthful {Caller Store Endpoint : Type} [DecidableEq Caller] [DecidableEq Store]
    [DecidableEq Endpoint] {start state : State Caller Store Endpoint} (quiet : start.Quiet)
    {past : List (State Caller Store Endpoint × Input Caller Store Endpoint)}
    (run : Runs start past state) : ((∀ step ∈ past, Apart step.1 step.2) → ∀ input next answer,
        state.step input = some (next, some answer) → Truthful past input.caller answer) ∧
      (∀ input next store,
        state.step input = some (next, some (.probe store (some .free))) →
          Truthful past input.caller (.probe store (some .free))) ∧
      ∀ input file, inspected state input = some file →
        (Apart state input ↔ (Blocked state file → Live state file)) := by
  obtain ⟨sound, stories⟩ := run.story quiet
  refine ⟨?_, ?_, ?_⟩
  · intro apart input next answer taken
    exact (((stories input.caller).step sound taken).2 answer rfl).truthful apart
  · intro input next store taken
    exact ((stories input.caller).step sound taken).2 _ rfl
  · intro input file tries
    constructor
    · intro apart blocked
      refine blocked.resolve_right ?_
      simp [apart file tries]
    · intro live other tries'
      rw [tries] at tries'
      cases tries'
      by_contra some
      have probed : (state.locks file).exclusive.isSome := Option.isSome_iff_ne_none.mpr some
      have leased := live (.inr probed)
      rw [sound.live_iff] at leased
      exact leased (sound.separate file probed)

/-! ### Probes of an unowned store -/

/-- A store whose last owner stopped, beside nothing else. -/
def stopped : State Nat Unit Unit where
  content _ := some [Phase.stopping.byte]
  association _ := none
  locks _ := ⟨[], none⟩
  activity _ := .idle

theorem stopped_quiet : stopped.Quiet := ⟨fun _ => rfl, fun _ => rfl⟩

/-- A run goes on by a step that can be taken. -/
theorem Runs.then {Caller Store Endpoint : Type} [DecidableEq Caller] [DecidableEq Store]
    [DecidableEq Endpoint] {start state : State Caller Store Endpoint}
    {past : List (State Caller Store Endpoint × Input Caller Store Endpoint)}
    (run : Runs start past state) (input : Input Caller Store Endpoint)
    (ready : (state.step input).isSome) :
    Runs start (past ++ [(state, input)]) ((state.step input).get ready).1 :=
  .step run (Option.some_get ready).symm

/-- Both probes open the file, and the first has the lock when the second tries it. -/
theorem overlapping_run : ∃ past state, Runs stopped past state ∧
    (state.step ⟨1, .proceed⟩).map Prod.snd = some (some (.probe () (some (.held .stopping)))) ∧
    ∀ step ∈ past, ∀ file, ¬ Live step.1 file := by
  have opening := (Runs.start : Runs stopped [] stopped)
  have first := opening.then ⟨0, .probe ()⟩ rfl
  have second := first.then ⟨1, .probe ()⟩ rfl
  have locked := second.then ⟨0, .proceed⟩ rfl
  have refused := locked.then ⟨1, .proceed⟩ rfl
  have unowned : ∀ {past state}, Runs stopped past state → (state.locks (.store ())).shared = [] →
      (state.locks (.endpoint ())).shared = [] → ∀ file, ¬ Live state file := by
    intro past state run store endpoint file live
    have some := ((run.story stopped_quiet).1.live_iff file).mp live
    cases file with
    | store => exact some store
    | endpoint => exact some endpoint
  refine ⟨_, _, refused, rfl, ?_⟩
  intro step mem file
  simp only [List.nil_append, List.cons_append, List.mem_cons, List.not_mem_nil, or_false] at mem
  rcases mem with rfl | rfl | rfl | rfl
  · exact unowned opening rfl rfl file
  · exact unowned first rfl rfl file
  · exact unowned second rfl rfl file
  · exact unowned locked rfl rfl file

/-- Two probes of a store without an owner: one reports it held, in the phase its last
owner left. -/
theorem stale_phase_reported : ∃ past state next, Runs stopped past state ∧
    state.step ⟨1, .proceed⟩ = some (next, some (.probe () (some (.held .stopping)))) ∧
    ¬ Truthful past 1 (.probe () (some (.held .stopping))) := by
  obtain ⟨past, state, run, answers, unowned⟩ := overlapping_run
  obtain ⟨⟨next, _⟩, taken, rfl⟩ := Option.map_eq_some_iff.mp answers
  refine ⟨past, state, next, run, taken, ?_⟩
  rintro ⟨before, at_, input, between, rfl, -, held, -⟩
  exact unowned (at_, input) (by simp) _ held.2

/-- Probes that meet no other find the same store free, and held by the lease it is then
taken with. -/
theorem probes_truthful_alone : ∃ past state next, Runs stopped past state ∧
    state.step ⟨0, .proceed⟩ = some (next, some (.probe () (some (.held .serving)))) ∧
    Truthful past 0 (.probe () (some (.held .serving))) := by
  have first := (Runs.start : Runs stopped [] stopped).then ⟨0, .probe ()⟩ rfl
  have free := (first.then ⟨0, .proceed⟩ rfl).then ⟨0, .proceed⟩ rfl
  have leased := (free.then ⟨1, .acquire (.store ())⟩ rfl).then ⟨1, .proceed⟩ rfl
  have second := (leased.then ⟨1, .setPhase .serving⟩ rfl).then ⟨0, .probe ()⟩ rfl
  have refused := second.then ⟨0, .proceed⟩ rfl
  refine ⟨_, _, _, refused, rfl,
    (probes_truthful stopped_quiet refused).1 ?_ ⟨0, .proceed⟩ _ _ rfl⟩
  intro step mem file tries
  simp only [List.nil_append, List.cons_append, List.mem_cons, List.not_mem_nil, or_false] at mem
  rcases mem with rfl | rfl | rfl | rfl | rfl | rfl | rfl | rfl <;> cases tries
  · rfl
  · rfl

end Nits.Nitsd.Occupancy
