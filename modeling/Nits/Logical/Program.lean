import Mathlib.Logic.Relation
import Mathlib.Data.List.Forall2

/-!
# Programs that change a state and may stop

A `Program` reads a fixed environment, changes a state, and either returns a
value or stops with an error; a program that stops keeps the state it reached.
`Ends` says how a run from one state ends, and has one rule for each way to
build a program. `Keeps` is the special case of a reflexive and transitive
relation between the first and the last state, whatever the outcome.
-/

namespace Nits.Logical

/-! ## Results -/

section Results

variable {ε α β : Type} {outcome : Except ε α}

theorem map_eq_ok {change : α → β} {result : β} :
    outcome.map change = .ok result ↔ ∃ value, outcome = .ok value ∧ change value = result := by
  cases outcome <;> simp [Except.map]

theorem bind_eq_ok {next : α → Except ε β} {result : β} :
    outcome.bind next = .ok result ↔ ∃ value, outcome = .ok value ∧ next value = .ok result := by
  cases outcome <;> simp [Except.bind]

@[simp] theorem ok_bind {value : α} {next : α → Except ε β} :
    (Except.ok value >>= next) = next value :=
  rfl

theorem mapM_eq_ok {step : α → Except ε β} {change : α → β} {items : List α}
    (each : ∀ item ∈ items, step item = .ok (change item)) :
    items.mapM step = .ok (items.map change) := by
  induction items with
  | nil => rfl
  | cons item rest ih =>
    rw [List.mapM_cons, each item List.mem_cons_self,
      ih fun other mem => each other (List.mem_cons_of_mem _ mem)]
    rfl

/-- What is collected comes from the items. -/
theorem mem_of_mapM {step : α → Except ε β} {items : List α} {values : List β}
    (collected : items.mapM step = .ok values) {value : β} (mem : value ∈ values) :
    ∃ item ∈ items, step item = .ok value := by
  induction items generalizing values with
  | nil =>
    cases collected
    cases mem
  | cons item rest ih =>
    rw [List.mapM_cons] at collected
    obtain ⟨first, made, collected⟩ := bind_eq_ok.mp collected
    obtain ⟨others, later, collected⟩ := bind_eq_ok.mp collected
    cases collected
    rcases List.mem_cons.mp mem with rfl | mem
    · exact ⟨item, List.mem_cons_self, made⟩
    · obtain ⟨source, inside, made⟩ := ih later mem
      exact ⟨source, List.mem_cons_of_mem _ inside, made⟩

end Results

/-! ## Programs -/

/-- A computation over an environment, a state and an error type. -/
def Program (ρ σ ε α : Type) : Type := ρ → σ → Except ε α × σ

namespace Program

variable {ρ σ ε α β γ : Type}

instance : Monad (Program ρ σ ε) where
  pure value := fun _ state => (.ok value, state)
  bind first next := fun env state =>
    match first env state with
    | (.ok value, last) => next value env last
    | (.error error, last) => (.error error, last)

def stop (error : ε) : Program ρ σ ε α := fun _ state => (.error error, state)

/-- Stop unless the condition holds. -/
def require (condition : Prop) [Decidable condition] (error : ε) : Program ρ σ ε Unit :=
  if condition then pure () else stop error

/-- The value, or stop when there is none. -/
def orStop (error : ε) : Option α → Program ρ σ ε α
  | some value => pure value
  | none => stop error

def read (view : σ → α) : Program ρ σ ε α := fun _ state => (.ok (view state), state)

def write (change : σ → σ) : Program ρ σ ε Unit := fun _ state => (.ok (), change state)

/-- Run a program to its end and return its outcome as a value. -/
def attempt (program : Program ρ σ ε α) : Program ρ σ ε (Except ε α) := fun env state =>
  (.ok (program env state).1, (program env state).2)

/-- Run one program for each element, in order, and collect what they return. -/
def forEach (step : α → Program ρ σ ε β) : List α → Program ρ σ ε (List β)
  | [] => pure []
  | head :: tail => do
    let first ← step head
    let rest ← forEach step tail
    pure (first :: rest)

/-- Run one program for each element, in order, threading an accumulator. -/
def foldEach (step : β → α → Program ρ σ ε β) (start : β) : List α → Program ρ σ ε β
  | [] => pure start
  | head :: tail => do
    let next ← step start head
    foldEach step next tail

theorem run_eq {program : Program ρ σ ε α} {env : ρ} {state : σ} {outcome : Except ε α}
    (ended : (program env state).1 = outcome) :
    program env state = (outcome, (program env state).2) :=
  Prod.ext ended rfl

/-- Discarding what a program returns leaves the state it reaches. -/
@[simp] theorem discard_snd {program : Program ρ σ ε α} {env : ρ} {state : σ} :
    ((do let _ ← program : Program ρ σ ε Unit) env state).2 =
      (program env state).2 := by
  change (match program env state with
    | (.ok _, last) => ((.ok (), last) : Except ε Unit × σ)
    | (.error error, last) => (.error error, last)).2 = _
  rcases program env state with ⟨outcome, last⟩
  cases outcome <;> rfl

theorem bind_assoc {program : Program ρ σ ε α} {next : α → Program ρ σ ε β}
    {last : β → Program ρ σ ε γ} :
    (program >>= next) >>= last = program >>= fun value => next value >>= last := by
  funext env state
  change (match (match program env state with
    | (.ok value, reached) => next value env reached
    | (.error error, reached) => (.error error, reached)) with
    | (.ok value, reached) => last value env reached
    | (.error error, reached) => (.error error, reached)) = _
  rcases run : program env state with ⟨outcome, reached⟩
  change _ = (match program env state with
    | (.ok value, reached) => (next value >>= last) env reached
    | (.error error, reached) => (.error error, reached))
  rw [run]
  cases outcome <;> rfl

theorem bind_congr {program : Program ρ σ ε α} {next other : α → Program ρ σ ε β}
    (same : ∀ value, next value = other value) : program >>= next = program >>= other := by
  rw [funext same]

theorem foldEach_append {step : β → α → Program ρ σ ε β} {first : β} {early late : List α} :
    foldEach step first (early ++ late) =
      foldEach step first early >>= fun next => foldEach step next late := by
  induction early generalizing first with
  | nil => rfl
  | cons head tail ih =>
    change (step first head >>= fun next => foldEach step next (tail ++ late)) =
      (step first head >>= fun next => foldEach step next tail) >>= _
    rw [bind_assoc]
    exact bind_congr fun next => ih

theorem pure_bind {value : α} {next : α → Program ρ σ ε β} :
    (pure value >>= next : Program ρ σ ε β) = next value :=
  rfl

/-! Steps that are known to return. -/

section Returning

variable {env : ρ} {start last : σ}

theorem bind_eq {program : Program ρ σ ε α} {next : α → Program ρ σ ε β} {value : α}
    (run : program env start = (.ok value, last)) :
    (program >>= next) env start = next value env last := by
  change (match program env start with
    | (.ok value, reached) => next value env reached
    | (.error error, reached) => (.error error, reached)) = _
  rw [run]

/-- A sequence returns if its parts return one after the other. -/
theorem bind_eq_ok_iff {program : Program ρ σ ε α} {next : α → Program ρ σ ε β} {result : β} :
    (program >>= next) env start = (.ok result, last) ↔ ∃ value middle,
      program env start = (.ok value, middle) ∧
        next value env middle = (.ok result, last) := by
  change (match program env start with
    | (.ok value, reached) => next value env reached
    | (.error error, reached) => (.error error, reached)) = _ ↔ _
  rcases program env start with ⟨outcome, reached⟩
  cases outcome with
  | ok value =>
    simp only [Prod.mk.injEq, Except.ok.injEq]
    constructor
    · exact fun run => ⟨value, reached, ⟨rfl, rfl⟩, run⟩
    · rintro ⟨_, _, ⟨rfl, rfl⟩, run⟩
      exact run
  | error error => simp

theorem pure_eq_ok_iff {value result : α} :
    (pure value : Program ρ σ ε α) env start = (.ok result, last) ↔
      result = value ∧ last = start := by
  change (Except.ok value, start) = _ ↔ _
  rw [Prod.mk.injEq, Except.ok.injEq, eq_comm, eq_comm (a := start)]

theorem stop_eq_ok_iff {error : ε} {result : α} :
    (stop error : Program ρ σ ε α) env start = (.ok result, last) ↔ False := by
  change (Except.error error, start) = _ ↔ _
  simp

theorem read_eq_ok_iff {view : σ → α} {result : α} :
    (read view : Program ρ σ ε α) env start = (.ok result, last) ↔
      result = view start ∧ last = start := by
  change (Except.ok (view start), start) = _ ↔ _
  rw [Prod.mk.injEq, Except.ok.injEq, eq_comm, eq_comm (a := start)]

theorem orStop_eq_ok_iff {value : Option α} {error : ε} {result : α} :
    (orStop error value : Program ρ σ ε α) env start = (.ok result, last) ↔
      value = some result ∧ last = start := by
  cases value with
  | none => simp [orStop, stop_eq_ok_iff]
  | some value =>
    rw [orStop, pure_eq_ok_iff, Option.some.injEq, eq_comm (a := result)]

theorem read_eq {view : σ → α} :
    (read view : Program ρ σ ε α) env start = (.ok (view start), start) :=
  rfl

theorem require_eq {condition : Prop} [Decidable condition] {error : ε} (holds : condition) :
    (require condition error : Program ρ σ ε Unit) env start = (.ok (), start) := by
  rw [require, if_pos holds]
  rfl

end Returning

/-! ## How a run ends -/

/-- From `start`, the program returns a value that satisfies `returned` in its
last state, or stops with an error that satisfies `stopped` in it. -/
def Ends (program : Program ρ σ ε α) (env : ρ) (start : σ)
    (returned : α → σ → Prop) (stopped : ε → σ → Prop) : Prop :=
  match program env start with
  | (.ok value, last) => returned value last
  | (.error error, last) => stopped error last

section Rules

variable {env : ρ} {start : σ} {program : Program ρ σ ε α} {error : ε}
variable {returned : α → σ → Prop} {stopped : ε → σ → Prop}

@[simp] theorem ends_pure {value : α} :
    (pure value : Program ρ σ ε α).Ends env start returned stopped ↔
      returned value start :=
  Iff.rfl

@[simp] theorem ends_stop :
    (stop error : Program ρ σ ε α).Ends env start returned stopped ↔
      stopped error start :=
  Iff.rfl

@[simp] theorem ends_read {view : σ → α} :
    (read view : Program ρ σ ε α).Ends env start returned stopped ↔
      returned (view start) start :=
  Iff.rfl

@[simp] theorem ends_write {change : σ → σ} {returned : Unit → σ → Prop} :
    (write change : Program ρ σ ε Unit).Ends env start returned stopped ↔
      returned () (change start) :=
  Iff.rfl

@[simp] theorem ends_bind {next : α → Program ρ σ ε β} {returned : β → σ → Prop} :
    (program >>= next).Ends env start returned stopped ↔
      program.Ends env start
        (fun value last => (next value).Ends env last returned stopped) stopped := by
  unfold Ends
  change (match (match program env start with
    | (.ok value, last) => next value env last
    | (.error error, last) => (.error error, last)) with
    | (.ok value, last) => returned value last
    | (.error error, last) => stopped error last) ↔ _
  rcases program env start with ⟨outcome, last⟩
  cases outcome <;> rfl

@[simp] theorem ends_require {condition : Prop} [Decidable condition]
    {returned : Unit → σ → Prop} :
    (require condition error : Program ρ σ ε Unit).Ends env start returned stopped ↔
      (condition → returned () start) ∧ (¬ condition → stopped error start) := by
  by_cases holds : condition <;> simp [require, holds]

@[simp] theorem ends_orStop {value : Option α} :
    (orStop error value : Program ρ σ ε α).Ends env start returned stopped ↔
      (∀ found, value = some found → returned found start) ∧
        (value = none → stopped error start) := by
  cases value <;> simp [orStop]

@[simp] theorem ends_attempt {returned : Except ε α → σ → Prop} :
    program.attempt.Ends env start returned stopped ↔
      program.Ends env start (fun value => returned (.ok value))
        (fun error => returned (.error error)) := by
  unfold Ends attempt
  rcases program env start with ⟨outcome, last⟩
  cases outcome <;> rfl

/-- A run that is known to end one way also ends every weaker way. -/
theorem Ends.imp {returned' : α → σ → Prop} {stopped' : ε → σ → Prop}
    (ends : program.Ends env start returned stopped)
    (returns : ∀ value last, returned value last → returned' value last)
    (stops : ∀ error last, stopped error last → stopped' error last) :
    program.Ends env start returned' stopped' := by
  unfold Ends at *
  rcases run : program env start with ⟨outcome, last⟩
  rw [run] at ends
  cases outcome with
  | ok value => exact returns value last ends
  | error error => exact stops error last ends

/-- Two ways in which one run is known to end hold together. -/
theorem Ends.and {returned' : α → σ → Prop} {stopped' : ε → σ → Prop}
    (left : program.Ends env start returned stopped)
    (right : program.Ends env start returned' stopped') :
    program.Ends env start (fun value last => returned value last ∧ returned' value last)
      (fun error last => stopped error last ∧ stopped' error last) := by
  unfold Ends at *
  rcases run : program env start with ⟨outcome, last⟩
  rw [run] at left right
  cases outcome with
  | ok value => exact ⟨left, right⟩
  | error error => exact ⟨left, right⟩

/-- How a run ends, read off the outcome that it computes. -/
theorem ends_iff : program.Ends env start returned stopped ↔
    (∀ value last, program env start = (.ok value, last) → returned value last) ∧
      ∀ error last, program env start = (.error error, last) → stopped error last := by
  unfold Ends
  rcases program env start with ⟨outcome, last⟩
  cases outcome with
  | ok value => simp
  | error error => simp

theorem Ends.of_returned {value : α} {last : σ} (ends : program.Ends env start returned stopped)
    (run : program env start = (.ok value, last)) : returned value last := by
  unfold Ends at ends
  rw [run] at ends
  exact ends

theorem Ends.of_stopped {last : σ} (ends : program.Ends env start returned stopped)
    (run : program env start = (.error error, last)) : stopped error last := by
  unfold Ends at ends
  rw [run] at ends
  exact ends

/-- What is known of a sequence holds of its second part, once the first returned. -/
theorem Ends.bind_of_returned {next : α → Program ρ σ ε β} {returned : β → σ → Prop} {value : α}
    {last : σ} (ends : (program >>= next).Ends env start returned stopped)
    (run : program env start = (.ok value, last)) : (next value).Ends env last returned stopped :=
  (ends_bind.mp ends).of_returned run

end Rules

/-! ## Loops -/

section Loops

variable {env : ρ} {stopped : ε → σ → Prop} {step : α → Program ρ σ ε β} {items : List α}

/-- The loop rule: `invariant` holds of the elements still to run, of what was
collected so far and of the state. -/
theorem ends_forEach {start : σ} (invariant : List β → List α → σ → Prop)
    (first : invariant [] items start)
    (body : ∀ collected item rest state, invariant collected (item :: rest) state →
      (step item).Ends env state
        (fun value last => invariant (collected ++ [value]) rest last) stopped) :
    (forEach step items).Ends env start (fun values last => invariant values [] last) stopped := by
  suffices general : ∀ (items : List α) (collected : List β) state,
      invariant collected items state →
        (forEach step items).Ends env state
          (fun values last => invariant (collected ++ values) [] last) stopped by
    simpa using general items [] start first
  intro items
  induction items with
  | nil =>
    intro collected state holds
    simpa [forEach] using holds
  | cons head tail ih =>
    intro collected state holds
    simp only [forEach, ends_bind, ends_pure]
    refine (body collected head tail state holds).imp ?_ fun _ _ stops => stops
    intro value last held
    exact (ih _ last held).imp (fun values final done => by simpa using done) fun _ _ stops => stops

/-- A loop that returns has collected one value for each element. -/
theorem forEach_length {env : ρ} {values : List β} {start last : σ}
    (run : forEach step items env start = (.ok values, last)) : values.length = items.length := by
  have ends : (forEach step items).Ends env start
      (fun values _ => values.length + ([] : List α).length = items.length) fun _ _ => True := by
    refine ends_forEach (fun collected rest _ => collected.length + rest.length = items.length)
      (by simp) ?_
    intro collected item rest state count
    refine ends_iff.mpr ⟨fun value last _ => ?_, fun _ _ _ => trivial⟩
    rw [List.length_append, List.length_singleton, ← count, List.length_cons]
    omega
  exact ends.of_returned run

/-- A run that returns reaches some state. -/
theorem exists_last {program : Program ρ σ ε α} {env : ρ} {start : σ} {value : α}
    (returned : (program env start).1 = .ok value) :
    ∃ last, program env start = (.ok value, last) :=
  ⟨(program env start).2, Prod.ext returned rfl⟩

/-- What a loop that returns has collected: the value of each element's own run. -/
theorem forEach_eq_ok {env : ρ} {values : List β} {start last : σ}
    (run : forEach step items env start = (.ok values, last)) :
    List.Forall₂ (fun item value => ∃ before after,
      step item env before = (.ok value, after)) items values := by
  induction items generalizing start values last with
  | nil =>
    obtain ⟨rfl, -⟩ := pure_eq_ok_iff.mp run
    exact .nil
  | cons head tail ih =>
    obtain ⟨value, middle, one, run⟩ := bind_eq_ok_iff.mp run
    obtain ⟨rest, reached, others, run⟩ := bind_eq_ok_iff.mp run
    obtain ⟨rfl, -⟩ := pure_eq_ok_iff.mp run
    exact .cons ⟨start, middle, one⟩ (ih others)

theorem ends_foldEach {step : β → α → Program ρ σ ε β} {first : β} {start : σ}
    (invariant : β → List α → σ → Prop) (initial : invariant first items start)
    (body : ∀ value item rest state, invariant value (item :: rest) state →
      (step value item).Ends env state (fun next last => invariant next rest last) stopped) :
    (foldEach step first items).Ends env start (fun value last => invariant value [] last)
      stopped := by
  induction items generalizing first start with
  | nil => simpa [foldEach] using initial
  | cons head tail ih =>
    simp only [foldEach, ends_bind]
    refine (body first head tail start initial).imp ?_ fun _ _ stops => stops
    intro next last held
    exact ih held

end Loops

/-! ## What failures are due to

A program `FailsOnly` by errors of one kind when it returns or stops with such an
error. A loop does exactly when each of its steps does, in every state in which the
loop arrives at it. -/

/-- A loop from `first` arrives at an item with a value in a state: every step before
it returned. -/
inductive Arrives (env : ρ) (step : β → α → Program ρ σ ε β) :
    β → List α → σ → β → α → σ → Prop
  | here {value item rest state} :
      Arrives env step value (item :: rest) state value item state
  | later {value next item rest start middle reached target last}
      (returns : step value item env start = (.ok next, middle))
      (further : Arrives env step next rest middle reached target last) :
      Arrives env step value (item :: rest) start reached target last

/-- A loop that runs one program for each element arrives at an element. -/
def Visits (env : ρ) (step : α → Program ρ σ ε β) (items : List α) (start : σ) (item : α)
    (state : σ) : Prop :=
  Arrives env (fun (_ : Unit) item => do let _ ← step item) () items start () item state

/-- From `start` the program returns, or stops with an error of the given kind. -/
def FailsOnly (env : ρ) (kind : ε → Prop) (program : Program ρ σ ε α) (start : σ) : Prop :=
  program.Ends env start (fun _ _ => True) fun error _ => kind error

section Failing

variable {env : ρ} {kind : ε → Prop} {start : σ} {program : Program ρ σ ε α}

theorem failsOnly_pure {value : α} : FailsOnly env kind (pure value : Program ρ σ ε α) start :=
  trivial

theorem failsOnly_bind {next : α → Program ρ σ ε β} : FailsOnly env kind (program >>= next) start ↔
      FailsOnly env kind program start ∧ ∀ value last,
        program env start = (.ok value, last) →
          FailsOnly env kind (next value) last := by
  unfold FailsOnly
  rw [ends_bind, ends_iff, ends_iff, and_comm]
  simp

theorem failsOnly_foldEach {step : β → α → Program ρ σ ε β} {first : β} {items : List α} :
    FailsOnly env kind (foldEach step first items) start ↔
      ∀ value item state, Arrives env step first items start value item state →
        FailsOnly env kind (step value item) state := by
  induction items generalizing first start with
  | nil => exact iff_of_true trivial fun _ _ _ arrives => nomatch arrives
  | cons head tail ih =>
    rw [foldEach, failsOnly_bind]
    constructor
    · rintro ⟨now, after⟩ value item state arrives
      cases arrives with
      | here => exact now
      | later returns further => exact ih.mp (after _ _ returns) _ _ _ further
    · intro all
      refine ⟨all _ _ _ .here, fun next middle returns => ih.mpr ?_⟩
      intro value item state further
      exact all _ _ _ (.later returns further)

theorem failsOnly_discard :
    FailsOnly env kind (do let _ ← program : Program ρ σ ε Unit) start ↔
      FailsOnly env kind program start := by
  rw [failsOnly_bind]
  exact and_iff_left fun _ _ _ => failsOnly_pure

/-- A loop that collects what its steps return arrives where one that discards it does. -/
theorem failsOnly_forEach {step : α → Program ρ σ ε β} {items : List α} :
    FailsOnly env kind (forEach step items) start ↔
      ∀ item state, Visits env step items start item state →
        FailsOnly env kind (step item) state := by
  have discards : FailsOnly env kind (forEach step items) start ↔
      FailsOnly env kind
        (foldEach (fun (_ : Unit) item => do let _ ← step item) () items) start := by
    induction items generalizing start with
    | nil => exact Iff.rfl
    | cons head tail ih =>
      have returns {value : Unit} {last : σ} :
          (do let _ ← step head : Program ρ σ ε Unit) env start = (.ok value, last) ↔
            ∃ first, step head env start = (.ok first, last) := by
        change (match step head env start with
          | (.ok _, last) => ((.ok (), last) : Except ε Unit × σ)
          | (.error error, last) => (.error error, last)) = _ ↔ _
        rcases step head env start with ⟨outcome, reached⟩
        cases outcome with
        | ok first => simp
        | error error => simp
      simp only [forEach, foldEach, failsOnly_bind, failsOnly_pure, implies_true, and_true,
        returns, forall_exists_index, ih]
      exact and_congr_right fun _ => ⟨fun all _ last first run => all first last run,
        fun all first last run => all () last first run⟩
  rw [discards, failsOnly_foldEach]
  simp only [failsOnly_discard]
  exact ⟨fun all item state visits => all () item state visits,
    fun all _ item state visits => all item state visits⟩

end Failing

/-! ## Relations kept by every run -/

/-- Every run relates its first state to its last one, however it ends. -/
def Keeps (env : ρ) (relation : σ → σ → Prop) (program : Program ρ σ ε α) : Prop :=
  ∀ start, relation start (program env start).2

section Keeping

variable {env : ρ} {relation : σ → σ → Prop} {program : Program ρ σ ε α}

theorem keeps_iff_ends : Keeps env relation program ↔ ∀ start, program.Ends env start
      (fun _ last => relation start last) (fun _ last => relation start last) := by
  refine forall_congr' fun start => ?_
  unfold Ends
  rcases program env start with ⟨outcome, last⟩
  cases outcome <;> rfl

theorem Keeps.ends (keeps : Keeps env relation program) (start : σ) :
    program.Ends env start (fun _ last => relation start last)
      (fun _ last => relation start last) :=
  keeps_iff_ends.mp keeps start

variable [IsPreorder σ relation]

@[simp] theorem keeps_pure {value : α} :
    Keeps env relation (pure value : Program ρ σ ε α) :=
  fun start => refl_of relation start

@[simp] theorem keeps_stop {error : ε} :
    Keeps env relation (stop error : Program ρ σ ε α) :=
  fun start => refl_of relation start

@[simp] theorem keeps_read {view : σ → α} :
    Keeps env relation (read view : Program ρ σ ε α) :=
  fun start => refl_of relation start

@[simp] theorem keeps_require {condition : Prop} [Decidable condition] {error : ε} :
    Keeps env relation (require condition error : Program ρ σ ε Unit) := by
  unfold require
  split
  · exact keeps_pure
  · exact keeps_stop

@[simp] theorem keeps_orStop {value : Option α} {error : ε} :
    Keeps env relation (orStop error value : Program ρ σ ε α) := by
  cases value with
  | none => exact keeps_stop
  | some value => exact keeps_pure

omit [IsPreorder σ relation] in
theorem Keeps.attempt (keeps : Keeps env relation program) : Keeps env relation program.attempt :=
  keeps

theorem Keeps.bind {next : α → Program ρ σ ε β} (first : Keeps env relation program)
    (then_ : ∀ value, Keeps env relation (next value)) : Keeps env relation (program >>= next) := by
  rw [keeps_iff_ends]
  intro start
  rw [ends_bind]
  refine (first.ends start).imp ?_ fun _ _ related => related
  intro value last related
  exact ((then_ value).ends last).imp
    (fun _ _ further => trans_of relation related further)
    (fun _ _ further => trans_of relation related further)

theorem Keeps.forEach {step : α → Program ρ σ ε β} {items : List α}
    (keeps : ∀ item ∈ items, Keeps env relation (step item)) :
    Keeps env relation (forEach step items) := by
  induction items with
  | nil => exact keeps_pure
  | cons head tail ih =>
    refine (keeps head List.mem_cons_self).bind fun first => ?_
    refine (ih fun item mem => keeps item (List.mem_cons_of_mem _ mem)).bind fun rest => ?_
    exact keeps_pure

theorem Keeps.foldEach {step : β → α → Program ρ σ ε β} {start : β} {items : List α}
    (keeps : ∀ value item, Keeps env relation (step value item)) :
    Keeps env relation (foldEach step start items) := by
  induction items generalizing start with
  | nil => exact keeps_pure
  | cons head tail ih => exact (keeps start head).bind fun _ => ih

end Keeping

end Program

end Nits.Logical
