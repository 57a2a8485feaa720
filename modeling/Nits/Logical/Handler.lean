import Mathlib.Data.List.Basic

/-!
# Handlers

A handler reads and writes a state, gives orders to its host and may stop with an
error. An error does not roll back what was written before it, and the orders given
before it are there to be dropped or carried out by whoever runs the handler.

`Within` says that a handler moves along a relation between the state before, the
orders given and the state after. Relations that compose are closed under the
handler's own sequencing, so each needs to be checked on the primitive writes only.
-/

namespace Nits.Logical

/-- How a handler ended, what it ordered and the state it left. -/
structure Handled (σ ω ε α : Type) where
  result : Except ε α
  orders : List ω
  state : σ

/-- A program over a state that survives its errors. -/
def Handler (σ ω ε α : Type) : Type :=
  σ → Handled σ ω ε α

namespace Handler

variable {σ ω ε α β : Type}

protected def pure (value : α) : Handler σ ω ε α := fun state =>
  ⟨.ok value, [], state⟩

protected def bind (first : Handler σ ω ε α) (next : α → Handler σ ω ε β) : Handler σ ω ε β :=
  fun state =>
    match first state with
    | ⟨.error error, orders, left⟩ => ⟨.error error, orders, left⟩
    | ⟨.ok value, orders, left⟩ =>
      match next value left with
      | ⟨result, later, last⟩ => ⟨result, orders ++ later, last⟩

instance : Monad (Handler σ ω ε) where
  pure := Handler.pure
  bind := Handler.bind

/-- The state as it is now. -/
def read : Handler σ ω ε σ := fun state => ⟨.ok state, [], state⟩

/-- Change the state. -/
def write (change : σ → σ) : Handler σ ω ε Unit := fun state => ⟨.ok (), [], change state⟩

/-- Give one order. -/
def order (one : ω) : Handler σ ω ε Unit := fun state => ⟨.ok (), [one], state⟩

/-- Stop here. -/
def fail (error : ε) : Handler σ ω ε α := fun state => ⟨.error error, [], state⟩

/-- A handler that cannot fail, where one that may is expected. -/
def always (safe : Handler σ ω Empty α) : Handler σ ω ε α := fun state =>
  match safe state with
  | ⟨.ok value, orders, left⟩ => ⟨.ok value, orders, left⟩

instance : MonadLift (Handler σ ω Empty) (Handler σ ω ε) where
  monadLift := always

/-- Run a handler and look at its error. What an erring handler ordered is lost. -/
def attempt {δ : Type} (risky : Handler σ ω ε α) : Handler σ ω δ (Except ε α) := fun state =>
  match risky state with
  | ⟨.ok value, orders, left⟩ => ⟨.ok (.ok value), orders, left⟩
  | ⟨.error error, _, left⟩ => ⟨.ok (.error error), [], left⟩

/-- Handle each item in turn. -/
def each (body : α → Handler σ ω ε Unit) : List α → Handler σ ω ε Unit
  | [] => Handler.pure ()
  | item :: items => Handler.bind (body item) fun _ => each body items

/-! ## What each way of putting handlers together does -/

section Results

variable (state : σ) {first : Handler σ ω ε α} {next : α → Handler σ ω ε β}

theorem bind_run (first : Handler σ ω ε α) (next : α → Handler σ ω ε β) :
    (first >>= next) state = Handler.bind first next state :=
  rfl

theorem bind_ok {value : α} (ended : (first state).result = .ok value) : (first >>= next) state =
      ⟨(next value (first state).state).result,
        (first state).orders ++ (next value (first state).state).orders,
        (next value (first state).state).state⟩ := by
  rw [bind_run, Handler.bind]
  cases ran : first state with
  | mk result orders left =>
    rw [ran] at ended
    cases ended
    rfl

theorem bind_error {error : ε} (ended : (first state).result = .error error) :
    (first >>= next) state = ⟨.error error, (first state).orders, (first state).state⟩ := by
  rw [bind_run, Handler.bind]
  cases ran : first state with
  | mk result orders left =>
    rw [ran] at ended
    cases ended
    rfl

/-- Reading goes on with the state as it is. -/
theorem read_bind (next : σ → Handler σ ω ε β) : (read >>= next) state = next state state :=
  rfl

/-- Writing goes on with the changed state. -/
theorem write_bind (change : σ → σ) (next : Unit → Handler σ ω ε β) :
    (write change >>= next) state = next () (change state) :=
  rfl

/-- A sequence fails in its first part or in what comes after it. -/
theorem bind_fails {error : ε} (failed : ((first >>= next) state).result = .error error) :
    (first state).result = .error error ∨ ∃ value, (first state).result = .ok value ∧
      (next value (first state).state).result = .error error := by
  cases ended : (first state).result with
  | error early =>
    rw [bind_error state ended] at failed
    cases failed
    exact .inl rfl
  | ok value =>
    rw [bind_ok state ended] at failed
    exact .inr ⟨value, rfl, failed⟩

theorem always_state (safe : Handler σ ω Empty α) :
    (always safe state : Handled σ ω ε α).state = (safe state).state := by
  unfold always
  split
  next ran => rw [ran]

theorem always_orders (safe : Handler σ ω Empty α) :
    (always safe state : Handled σ ω ε α).orders = (safe state).orders := by
  unfold always
  split
  next ran => rw [ran]

theorem attempt_result {δ : Type} (risky : Handler σ ω ε α) :
    (attempt risky state : Handled σ ω δ (Except ε α)).result = .ok (risky state).result := by
  unfold attempt
  split
  next ran => rw [ran]
  next ran => rw [ran]

theorem attempt_state {δ : Type} (risky : Handler σ ω ε α) :
    (attempt risky state : Handled σ ω δ (Except ε α)).state = (risky state).state := by
  unfold attempt
  split
  next ran => rw [ran]
  next ran => rw [ran]

end Results

/-! ## Moving along a relation -/

/-- A relation between states and the orders given on the way that composes. -/
class Course (R : σ → List ω → σ → Prop) : Prop where
  stay (state : σ) : R state [] state
  join {first second third : σ} {early late : List ω} :
    R first early second → R second late third → R first (early ++ late) third

/-- From every state the handler moves along the relation. -/
class Within (R : σ → List ω → σ → Prop) (handler : Handler σ ω ε α) : Prop where
  moves (state : σ) : R state (handler state).orders (handler state).state

section Within

variable {R : σ → List ω → σ → Prop} [Course R]

instance within_pure (value : α) : Within R (pure value : Handler σ ω ε α) where
  moves := Course.stay

instance within_read : Within R (read : Handler σ ω ε σ) where
  moves := Course.stay

instance within_fail (error : ε) : Within R (fail error : Handler σ ω ε α) where
  moves := Course.stay

instance within_bind (first : Handler σ ω ε α) (next : α → Handler σ ω ε β)
    [early : Within R first] [late : ∀ value, Within R (next value)] :
    Within R (first >>= next) where
  moves state := by
    cases ended : (first state).result with
    | error error =>
      rw [bind_error state ended]
      exact early.moves state
    | ok value =>
      rw [bind_ok state ended]
      exact Course.join (early.moves state) ((late value).moves _)

/-- First what moves along the relation by itself. -/
theorem within_next {first : Handler σ ω ε α} {next : α → Handler σ ω ε β} [Within R first]
    (late : ∀ value, Within R (next value)) : Within R (first >>= next) :=
  inferInstance

instance within_always (safe : Handler σ ω Empty α) [inner : Within R safe] :
    Within R (always safe : Handler σ ω ε α) where
  moves state := by
    have step := inner.moves state
    unfold always
    split
    next ran =>
      rw [ran] at step
      exact step

instance within_monadLift (safe : Handler σ ω Empty α) [Within R safe] :
    Within R (monadLift safe : Handler σ ω ε α) :=
  within_always safe

instance within_ite {condition : Prop} [Decidable condition] (yes no : Handler σ ω ε α)
    [first : Within R yes] [second : Within R no] : Within R (if condition then yes else no) := by
  split <;> assumption

instance within_each (body : α → Handler σ ω ε Unit) (items : List α)
    [steps : ∀ item, Within R (body item)] : Within R (each body items) := by
  induction items with
  | nil => exact within_pure ()
  | cons item items rest => exact within_bind (body item) fun _ => each body items

omit [Course R] in
/-- Losing orders must be harmless where errors are looked at. -/
theorem within_attempt {δ : Type} (risky : Handler σ ω ε α) [inner : Within R risky]
    (drop : ∀ state error, (risky state).result = .error error →
      R state [] (risky state).state) :
    Within R (attempt risky : Handler σ ω δ (Except ε α)) where
  moves state := by
    have step := inner.moves state
    have lost := drop state
    unfold attempt
    split
    next ran =>
      rw [ran] at step
      exact step
    next ran =>
      rw [ran] at lost
      exact lost _ rfl

end Within

/-! ## Moving from one state -/

/-- From this state the handler moves along the relation. -/
def Moves (R : σ → List ω → σ → Prop) (state : σ) (handler : Handler σ ω ε α) : Prop :=
  R state (handler state).orders (handler state).state

section Moves

variable {R : σ → List ω → σ → Prop} {state : σ}

theorem Within.from {handler : Handler σ ω ε α} (within : Within R handler) (state : σ) :
    Moves R state handler :=
  within.moves state

theorem moves_still [Course R] {handler : Handler σ ω ε α} (quiet : (handler state).orders = [])
    (still : (handler state).state = state) : Moves R state handler := by
  unfold Moves
  rw [quiet, still]
  exact Course.stay state

theorem moves_read {next : σ → Handler σ ω ε β} (late : Moves R state (next state)) :
    Moves R state (read >>= next) :=
  late

/-- A sequence moves when its parts do, one after the other. -/
theorem moves_then [Course R] {first : Handler σ ω ε α} {next : α → Handler σ ω ε β}
    (early : Moves R state first) (late : ∀ value, (first state).result = .ok value →
      Moves R (first state).state (next value)) : Moves R state (first >>= next) := by
  unfold Moves
  cases ended : (first state).result with
  | error error =>
    rw [bind_error state ended]
    exact early
  | ok value =>
    rw [bind_ok state ended]
    exact Course.join early (late value ended)

theorem moves_always {safe : Handler σ ω Empty α} (inner : Moves R state safe) :
    Moves R state (always safe : Handler σ ω ε α) := by
  unfold Moves
  rw [always_orders, always_state]
  exact inner

end Moves

/-! ## What an error leaves -/

/-- The handler never fails. -/
class Sure (handler : Handler σ ω ε α) : Prop where
  sure (state : σ) (error : ε) : (handler state).result ≠ .error error

/-- The handler never changes what `seen` shows of the state. -/
class Still {τ : Type} (seen : σ → τ) (handler : Handler σ ω ε α) : Prop where
  still (state : σ) : seen (handler state).state = seen state

/-- A failing handler has not changed what `seen` shows of the state. -/
class Atomic {τ : Type} (seen : σ → τ) (handler : Handler σ ω ε α) : Prop where
  atomic (state : σ) (error : ε) :
    (handler state).result = .error error → seen (handler state).state = seen state

section Atomic

instance sure_pure (value : α) : Sure (pure value : Handler σ ω ε α) where
  sure _ _ failed := nomatch failed

instance sure_read : Sure (read : Handler σ ω ε σ) where
  sure _ _ failed := nomatch failed

instance sure_always (safe : Handler σ ω Empty α) : Sure (always safe : Handler σ ω ε α) where
  sure state error failed := by
    unfold always at failed
    split at failed
    cases failed

instance sure_lift (safe : Handler σ ω Empty α) : Sure (liftM safe : Handler σ ω ε α) :=
  sure_always safe

instance sure_attempt {δ : Type} (risky : Handler σ ω ε α) :
    Sure (attempt risky : Handler σ ω δ (Except ε α)) where
  sure state error failed := by
    unfold attempt at failed
    split at failed <;> cases failed

instance sure_bind (first : Handler σ ω ε α) (next : α → Handler σ ω ε β)
    [early : Sure first] [late : ∀ value, Sure (next value)] : Sure (first >>= next) where
  sure state error failed := by
    cases ended : (first state).result with
    | error early' => exact early.sure state early' ended
    | ok value =>
      rw [bind_ok state ended] at failed
      exact (late value).sure _ error failed

instance sure_ite {condition : Prop} [Decidable condition] (yes no : Handler σ ω ε α)
    [first : Sure yes] [second : Sure no] : Sure (if condition then yes else no) := by
  split <;> assumption

variable {τ : Type} {seen : σ → τ}

instance still_pure (value : α) : Still seen (pure value : Handler σ ω ε α) where
  still _ := rfl

instance still_read : Still seen (read : Handler σ ω ε σ) where
  still _ := rfl

instance still_fail (error : ε) : Still seen (fail error : Handler σ ω ε α) where
  still _ := rfl

instance still_bind (first : Handler σ ω ε α) (next : α → Handler σ ω ε β)
    [early : Still seen first] [late : ∀ value, Still seen (next value)] :
    Still seen (first >>= next) where
  still state := by
    cases ended : (first state).result with
    | error error =>
      rw [bind_error state ended]
      exact early.still state
    | ok value =>
      rw [bind_ok state ended]
      exact ((late value).still _).trans (early.still state)

theorem still_next {first : Handler σ ω ε α} {next : α → Handler σ ω ε β}
    [Still seen first] (late : ∀ value, Still seen (next value)) : Still seen (first >>= next) :=
  inferInstance

instance still_ite {condition : Prop} [Decidable condition] (yes no : Handler σ ω ε α)
    [first : Still seen yes] [second : Still seen no] :
    Still seen (if condition then yes else no) := by
  split <;> assumption

instance still_always (safe : Handler σ ω Empty α) [inner : Still seen safe] :
    Still seen (always safe : Handler σ ω ε α) where
  still state := by
    have step := inner.still state
    unfold always
    split
    next ran =>
      rw [ran] at step
      exact step

instance still_lift (safe : Handler σ ω Empty α) [Still seen safe] :
    Still seen (liftM safe : Handler σ ω ε α) :=
  still_always safe

/-- What never changes is unchanged on failure. -/
instance (priority := low) atomic_of_still (handler : Handler σ ω ε α)
    [still : Still seen handler] : Atomic seen handler where
  atomic state _ _ := still.still state

/-- What never fails is unchanged on failure. -/
instance (priority := low) atomic_of_sure (handler : Handler σ ω ε α) [sure : Sure handler] :
    Atomic seen handler where
  atomic state error failed := absurd failed (sure.sure state error)

/-- First what changes nothing, then what fails cleanly. -/
instance (priority := low) atomic_guarded (first : Handler σ ω ε α) (next : α → Handler σ ω ε β)
    [early : Still seen first] [late : ∀ value, Atomic seen (next value)] :
    Atomic seen (first >>= next) where
  atomic state error failed := by
    cases ended : (first state).result with
    | error early' =>
      rw [bind_error state ended]
      exact early.still state
    | ok value =>
      rw [bind_ok state ended] at failed ⊢
      exact ((late value).atomic _ error failed).trans (early.still state)

theorem atomic_next {first : Handler σ ω ε α} {next : α → Handler σ ω ε β}
    [Still seen first] (late : ∀ value, Atomic seen (next value)) : Atomic seen (first >>= next) :=
  inferInstance

/-- First what fails cleanly, then what never fails. -/
instance (priority := low) atomic_then (first : Handler σ ω ε α) (next : α → Handler σ ω ε β)
    [early : Atomic seen first] [late : ∀ value, Sure (next value)] :
    Atomic seen (first >>= next) where
  atomic state error failed := by
    cases ended : (first state).result with
    | error early' =>
      rw [bind_error state ended]
      exact early.atomic state early' ended
    | ok value =>
      rw [bind_ok state ended] at failed
      exact absurd failed ((late value).sure _ error)

instance atomic_ite {condition : Prop} [Decidable condition] (yes no : Handler σ ω ε α)
    [first : Atomic seen yes] [second : Atomic seen no] :
    Atomic seen (if condition then yes else no) := by
  split <;> assumption

/-- An erring attempt of what is unchanged on failure is harmless. -/
theorem within_attempt_atomic {R : σ → List ω → σ → Prop} [Course R] {δ : Type}
    (risky : Handler σ ω ε α) (inner : Within R risky) (atomic : Atomic id risky) :
    Within R (attempt risky : Handler σ ω δ (Except ε α)) :=
  within_attempt risky fun state error failed => by
    have same : (risky state).state = state := atomic.atomic state error failed
    rw [same]
    exact Course.stay state

end Atomic

/-! ## Conditions before and after -/

/-- From every state that meets the first condition, a handler that cannot fail ends in
a state that meets the second. -/
def Leads (pre : σ → Prop) (handler : Handler σ ω Empty α) (post : σ → Prop) : Prop :=
  ∀ state, pre state → post (handler state).state

section Leads

variable {pre post : σ → Prop}

theorem each_cons_state (body : α → Handler σ ω Empty Unit) (item : α) (items : List α)
    (state : σ) :
    (each body (item :: items) state).state = (each body items (body item state).state).state := by
  have ended : (body item state).result = .ok () := by
    cases ended : (body item state).result with
    | error never => exact never.elim
    | ok _ => rfl
  have whole : each body (item :: items) state =
      (body item >>= fun _ => each body items) state := rfl
  rw [whole, bind_ok state ended]

theorem leads_pure (value : α) (weaker : ∀ state, pre state → post state) :
    Leads pre (pure value : Handler σ ω Empty α) post :=
  weaker

theorem leads_order (one : ω) (weaker : ∀ state, pre state → post state) :
    Leads pre (order one : Handler σ ω Empty Unit) post :=
  weaker

theorem leads_write (change : σ → σ) (changes : ∀ state, pre state → post (change state)) :
    Leads pre (write change : Handler σ ω Empty Unit) post :=
  changes

theorem leads_then (mid : σ → Prop) {first : Handler σ ω Empty α}
    {next : α → Handler σ ω Empty β} (early : Leads pre first mid) (late : ∀ value, Leads mid (next value) post) :
    Leads pre (first >>= next) post := by
  intro state before
  cases ended : (first state).result with
  | error never => exact never.elim
  | ok value =>
    rw [bind_ok state ended]
    exact late value _ (early state before)

/-- What is read is the state as it is. -/
theorem leads_read {next : σ → Handler σ ω Empty β}
    (late : ∀ now, pre now → Leads (fun state => state = now) (next now) post) :
    Leads pre (read >>= next) post := by
  intro state before
  rw [bind_ok state (rfl : ((read : Handler σ ω Empty σ) state).result = .ok state)]
  exact late state before state rfl

theorem leads_ite {condition : Prop} [Decidable condition] {yes no : Handler σ ω Empty α}
    (first : condition → Leads pre yes post) (second : ¬ condition → Leads pre no post) :
    Leads pre (if condition then yes else no) post := by
  split
  · exact first ‹_›
  · exact second ‹_›

/-- What is done on a condition, and what comes after it either way. -/
theorem leads_when (mid : σ → Prop) {condition : Prop} [Decidable condition]
    {first : Handler σ ω Empty Unit} {next : Unit → Handler σ ω Empty β}
    (done : condition → Leads pre first mid) (skipped : ¬ condition → ∀ state, pre state → mid state)
    (late : Leads mid (next ()) post) :
    Leads pre (if condition then first >>= next else next ()) post := by
  split
  next holds => exact leads_then mid (done holds) fun _ => late
  next fails => exact fun state before => late state (skipped fails state before)

theorem Leads.mono {stronger weaker : σ → Prop} {handler : Handler σ ω Empty α}
    (leads : Leads pre handler post) (before : ∀ state, stronger state → pre state)
    (after : ∀ state, post state → weaker state) : Leads stronger handler weaker :=
  fun state held => after _ (leads state (before state held))

/-- A relation that carries the condition over carries it over a whole handler. -/
theorem leads_within (R : σ → List ω → σ → Prop) {handler : Handler σ ω Empty α}
    (within : Within R handler)
    (carries : ∀ before orders after, R before orders after → pre before → post after) :
    Leads pre handler post :=
  fun state before => carries _ _ _ (within.moves state) before

end Leads

end Handler

end Nits.Logical
