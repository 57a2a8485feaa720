import Nits.ClientCore.Frames.Parts

/-!
# Which event a message folds in

`folds` reads off a message and the state before it which committed event, if any, the
core folds in. Every other message touches no more than the quiet ones do, and a message
that folds an event in does so in a state that is the one before it but for the cursor.
-/

set_option linter.dupNamespace false

namespace Nits.ClientCore

open Logical Logical.Handler Protocol

/-- The connection once an event has been taken. -/
def Connection.reached (seq : Seq) : Connection → Connection
  | .subscribed lastSeq => .subscribed (max lastSeq seq)
  | .connecting helloSent (some lastSeq) => .connecting helloSent (some (max lastSeq seq))
  | connection => connection

namespace ClientCore

/-- The committed event that a message has the core fold in. -/
def folds (core : ClientCore) : ServerMsg → Option Event
  | .event live => match core.connection with
    | .subscribed lastSeq => if lastSeq < live.seq then some live else none
    | .connecting true (some lastSeq) => if lastSeq < live.seq then some live else none
    | _ => none
  | .response id (.committed done) => match core.connection, core.inFlight.lookup id with
    | .subscribed lastSeq, some (.mutate _) => if lastSeq < done.seq then some done else none
    | .subscribed lastSeq, some (.createReview reviewId _) =>
      if done.body.reviewId = some reviewId ∧ lastSeq < done.seq then some done else none
    | .subscribed _, some (.applySuggestion reviewId commentId) =>
      if appliesSuggestion reviewId commentId done.body then some done else none
    | _, _ => none
  | _ => none

/-- Everything but the suggestions under way and the form. -/
def unsettled (core : ClientCore) : ClientCore :=
  { core with suggestions := ∅, view.creating := none }

/-- Everything but these and the connection's cursor. -/
def unready (core : ClientCore) : ClientCore :=
  { core.unsettled with connection := .disconnected none }

/-- Everything but the requests under way and the events kept for them. -/
def unwaited (core : ClientCore) : ClientCore :=
  { core with inFlight := [], snapshotEvents := [] }

end ClientCore

section Delivery

variable [Presentation] {R : ClientCore → List Effect → ClientCore → Prop} {core : ClientCore}
  {done : Event} {id : RequestId} {start : ClientCore}

/-! ## Messages that fold nothing in -/

/-- A live event that is not folded in is an echo, stale or out of place. -/
theorem event_unfolded [Course R] {live : Event} (unfolded : core.folds (.event live) = none) :
    Moves R core (event live) := by
  unfold event
  refine moves_read ?_
  simp only [ClientCore.folds] at unfolded
  split
  next lastSeq subscribed =>
    rw [subscribed] at unfolded
    have old : live.seq ≤ lastSeq := by simpa using unfolded
    rw [if_pos old]
    split <;> exact Course.stay core
  next lastSeq connecting =>
    rw [connecting] at unfolded
    have old : live.seq ≤ lastSeq := by simpa using unfolded
    rw [if_pos old]
    exact Course.stay core
  · exact Course.stay core
  · exact Course.stay core

theorem mutationCommitted_unfolded [Interface R] [Settles R] {clientSeq : ClientSeq}
    (old : ∀ lastSeq, core.connection = .subscribed lastSeq → done.seq ≤ lastSeq) :
    Moves R core (mutationCommitted clientSeq done) := by
  unfold mutationCommitted
  refine moves_read ?_
  split
  next lastSeq subscribed =>
    rw [if_pos (old lastSeq subscribed)]
    exact Within.from inferInstance core
  · exact Course.stay core

/-- Only the suggestions under way and the creation form change. -/
def Settling (before : ClientCore) (_ : List Effect) (after : ClientCore) : Prop :=
  before.unsettled = after.unsettled

instance : Course Settling where
  stay _ := rfl
  join early late := early.trans late

omit [Presentation] in
instance (done : Event) : Within Settling (creationObserve done) := by
  unfold creationObserve creationFound
  have puts (creation : Option ReviewCreation) : Within Settling (setCreating creation) :=
    ⟨fun _ => rfl⟩
  split
  · refine within_next fun _ => ?_
    split
    · infer_instance
    · split <;> infer_instance
  · infer_instance

omit [Presentation] in
instance (id : RequestId) (reviewId : ReviewId)
    (commentId : CommentId) : Within Settling (applicationEnded id reviewId commentId) := by
  unfold applicationEnded
  have puts (state : Suggestion.State) : Within Settling (setSuggestion commentId state) :=
    ⟨fun _ => rfl⟩
  refine within_next fun _ => ?_
  split <;> infer_instance

omit [Presentation] in
/-- Observing a creation settles the form only, whatever comes after it. -/
theorem moves_observed [Interface R] [Answers R] {α : Type} {next : Unit → Client α}
    (late : ∀ now, core.unsettled = now.unsettled → Moves R now (next ())) : Moves R core (do
      let observed ← creationObserve done
      if observed then do
        let shown ← changed
        next shown
      else next ()) := by
  have observes : Settling core _ (creationObserve done core).state := Within.moves core
  refine moves_then (Within.from inferInstance core) fun observed _ => ?_
  split
  · exact moves_then (Within.from inferInstance _) fun _ _ => late _ observes
  · exact late _ observes

theorem creationCommitted_unfolded [Interface R] [Answers R]
    (old : ∀ lastSeq, core.connection = .subscribed lastSeq → done.seq ≤ lastSeq) :
    Moves R core (creationCommitted done) := by
  unfold creationCommitted
  refine moves_observed fun now settled => moves_read ?_
  have same := congrArg ClientCore.connection settled
  split
  next lastSeq subscribed =>
    rw [if_neg (not_lt.mpr (old lastSeq (same.trans subscribed)))]
    exact Course.stay _
  · exact Course.stay _

theorem suggestionApplied_unfolded [Interface R] {reviewId : ReviewId} {commentId : CommentId}
    (out : ∀ lastSeq, core.connection = .subscribed lastSeq →
      appliesSuggestion reviewId commentId done.body = false) :
    Moves R core (suggestionApplied id reviewId commentId done) := by
  unfold suggestionApplied
  split
  · exact Course.stay core
  next applies =>
    have ends : Settling core _
        ((always (applicationEnded id reviewId commentId) : Risky Unit) core).state :=
      Within.moves core
    have early : Moves R core (always (applicationEnded id reviewId commentId) : Risky Unit) :=
      moves_always (Within.from inferInstance core)
    refine moves_then early fun _ _ => ?_
    refine moves_read ?_
    split
    next lastSeq subscribed =>
      have same := congrArg ClientCore.connection ends
      rw [out lastSeq (same.trans subscribed)] at applies
      exact absurd Bool.false_ne_true applies
    · exact Course.stay _

/-- An answered request that folds nothing in. -/
theorem routed_unfolded [Receives R] {waiting : InFlight}
    (awaited : core.inFlight.lookup id = some waiting)
    (unfolded : core.folds (.response id (.committed done)) = none) :
    Moves R core (routed id waiting (.committed done)) := by
  simp only [ClientCore.folds, awaited] at unfolded
  cases waiting with
  | mutate clientSeq =>
    unfold routed
    dsimp only
    refine mutationCommitted_unfolded fun lastSeq subscribed => ?_
    rw [subscribed] at unfolded
    simpa using unfolded
  | createReview reviewId submission =>
    unfold routed
    dsimp only
    split
    · exact Course.stay core
    next named =>
      refine moves_always (creationCommitted_unfolded fun lastSeq subscribed => ?_)
      rw [subscribed] at unfolded
      simpa [not_not.mp named] using unfolded
  | applySuggestion reviewId commentId =>
    unfold routed
    dsimp only
    refine suggestionApplied_unfolded fun lastSeq subscribed => ?_
    rw [subscribed] at unfolded
    simpa using unfolded
  | renderChunk key => cases key <;> exact moves_still rfl rfl
  | _ => exact moves_still rfl rfl

theorem response_unfolded [Receives R]
    (unfolded : core.folds (.response id (.committed done)) = none) :
    Moves R core (response id (.committed done)) := by
  unfold response
  refine moves_read ?_
  cases awaited : core.inFlight.lookup id with
  | none => exact Course.stay core
  | some waiting =>
    dsimp only
    split
    · exact Within.from inferInstance core
    · exact Course.stay core
    · exact moves_then (routed_unfolded awaited unfolded) fun _ _ => Within.from inferInstance _

/-- A message that folds nothing in touches what answers without events touch. -/
theorem server_unfolded [Receives R] [Streams R] [Fails R] [Loses R] {msg : ServerMsg}
    (unfolded : core.folds msg = none) : Moves R core (server msg) := by
  cases msg with
  | event live => exact event_unfolded unfolded
  | response id answer =>
    cases answer with
    | committed done => exact response_unfolded unfolded
    | _ => exact (within_server_quiet _ rfl).from core
  | _ => exact (within_server_quiet _ rfl).from core

/-! ## Messages that fold an event in -/

/-- A handler that started in one state and has come to another is about to fold an event
in, and does nothing else but settle what waited for it. -/
def Folding {ε : Type} (start core : ClientCore) (event : Event)
    (handler : Handler ClientCore Effect ε Unit) : Prop :=
  ∃ ready : ClientCore, start.unready = ready.unready ∧
    ready.connection = start.connection.reached event.seq ∧
    (∀ error, (handler core).result ≠ .error error) ∧
    (handler core).state = (ClientCore.applyEvent event ready).state

theorem folding_then {ε α : Type} {event : Event} {first : Handler ClientCore Effect ε α}
    {next : α → Handler ClientCore Effect ε Unit}
    (sure : ∀ error, (first core).result ≠ .error error)
    (late : ∀ value, Folding start (first core).state event (next value)) :
    Folding start core event (first >>= next) := by
  cases ended : (first core).result with
  | error error => exact absurd ended (sure error)
  | ok value =>
    unfold Folding
    rw [bind_ok core ended]
    exact late value

theorem folding_always {ε : Type} {event : Event} {safe : Client Unit}
    (inner : Folding start core event safe) :
    Folding start core event (always safe : Handler ClientCore Effect ε Unit) := by
  obtain ⟨ready, same, reached, _, folds⟩ := inner
  exact ⟨ready, same, reached, Sure.sure core, (always_state core safe).trans folds⟩

/-- Move the cursor and fold the event in. -/
theorem folding_apply {event : Event} {connection : Connection}
    (same : start.unsettled = core.unsettled)
    (reached : connection = start.connection.reached event.seq) : Folding start core event (do
      setConnection connection
      ClientCore.applyEvent event) := by
  refine ⟨{ core with connection }, ?_, reached, fun error => error.elim, rfl⟩
  have masked := congrArg (fun core : ClientCore =>
    { core with connection := Connection.disconnected none }) same
  exact masked

theorem folding_applyRisky {event : Event} {connection : Connection}
    (same : start.unsettled = core.unsettled)
    (reached : connection = start.connection.reached event.seq) : Folding start core event (do
      setConnection connection
      ClientCore.applyEvent event : Risky Unit) := by
  refine folding_then (Sure.sure core) fun _ => folding_always ?_
  obtain ⟨ready, masked, cursor, sure, folds⟩ := folding_apply same reached
  exact ⟨ready, masked, cursor, fun error => error.elim, folds⟩

theorem folding_read {ε : Type} {event : Event}
    {next : ClientCore → Handler ClientCore Effect ε Unit}
    (late : Folding start core event (next core)) : Folding start core event (read >>= next) :=
  late

theorem event_folded {live : Event} (folded : core.folds (.event live) = some done) :
    Folding core core done (event live) := by
  unfold event
  refine folding_read ?_
  cases connected : core.connection with
  | disconnected lastSeq =>
    simp only [ClientCore.folds, connected] at folded
    cases folded
  | subscribed lastSeq =>
    simp only [ClientCore.folds, connected] at folded
    obtain ⟨later, rfl⟩ : lastSeq < live.seq ∧ live = done := by simpa using folded
    dsimp only
    rw [if_neg fun echo => absurd echo.1 later.ne', if_neg (not_le.mpr later)]
    refine folding_applyRisky rfl ?_
    rw [connected, Connection.reached, max_eq_right later.le]
  | connecting helloSent lastSeq =>
    simp only [ClientCore.folds, connected] at folded
    cases helloSent
    · cases folded
    cases lastSeq with
    | none => cases folded
    | some lastSeq =>
      obtain ⟨later, rfl⟩ : lastSeq < live.seq ∧ live = done := by simpa using folded
      dsimp only
      rw [if_neg (not_le.mpr later)]
      refine folding_applyRisky rfl ?_
      rw [connected, Connection.reached, max_eq_right later.le]

theorem mutationCommitted_folded {clientSeq : ClientSeq} {lastSeq : Seq}
    (subscribed : core.connection = .subscribed lastSeq) (later : lastSeq < done.seq) :
    Folding core core done (mutationCommitted clientSeq done) := by
  unfold mutationCommitted
  refine folding_read ?_
  split
  next seen same =>
    obtain rfl : seen = lastSeq := by
      rw [subscribed] at same
      cases same
      rfl
    rw [if_neg (not_le.mpr later)]
    refine folding_applyRisky rfl ?_
    rw [subscribed, Connection.reached, max_eq_right later.le]
  next unsubscribed => exact absurd subscribed (unsubscribed lastSeq)

theorem creationCommitted_folded {lastSeq : Seq}
    (subscribed : core.connection = .subscribed lastSeq) (later : lastSeq < done.seq) :
    Folding core core done (creationCommitted done) := by
  have same {now : ClientCore} (settled : core.unsettled = now.unsettled) :
      now.connection = .subscribed lastSeq :=
    (congrArg ClientCore.connection settled).symm.trans subscribed
  have last {now : ClientCore} (settled : core.unsettled = now.unsettled) :
      Folding core now done (do
        setConnection (.subscribed done.seq)
        ClientCore.applyEvent done) := by
    refine folding_apply settled ?_
    rw [subscribed, Connection.reached, max_eq_right later.le]
  have observes : Settling core _ (creationObserve done core).state := Within.moves core
  unfold creationCommitted
  refine folding_then (fun error => error.elim) fun observed => ?_
  split
  · refine folding_then (fun error => error.elim) fun _ => folding_read ?_
    have settled : core.unsettled =
        (changed (creationObserve done core).state : Handled _ _ Empty _).state.unsettled := observes
    rw [same settled]
    dsimp only
    rw [if_pos later]
    exact last settled
  · refine folding_read ?_
    rw [same observes]
    dsimp only
    rw [if_pos later]
    exact last observes

theorem suggestionApplied_folded {reviewId : ReviewId} {commentId : CommentId} {lastSeq : Seq}
    (subscribed : core.connection = .subscribed lastSeq)
    (applies : appliesSuggestion reviewId commentId done.body = true) :
    Folding core core done (suggestionApplied id reviewId commentId done) := by
  have ends : Settling core _
      ((always (applicationEnded id reviewId commentId) : Risky Unit) core).state :=
    Within.moves core
  have still := (congrArg ClientCore.connection ends).symm.trans subscribed
  unfold suggestionApplied
  rw [if_neg (not_not.mpr applies)]
  refine folding_then (Sure.sure core) fun _ => folding_read ?_
  split
  next seen same =>
    obtain rfl : seen = lastSeq := by
      cases same.symm.trans still
      rfl
    refine folding_applyRisky ends ?_
    rw [subscribed, Connection.reached]
  next unsubscribed => exact absurd still (unsubscribed lastSeq)

/-- What the answer to a mutation leads to when it is folded in. -/
theorem routed_folded {waiting : InFlight} {answer : Event}
    (awaited : core.inFlight.lookup id = some waiting)
    (folded : core.folds (.response id (.committed answer)) = some done) :
    Folding core core done (routed id waiting (.committed answer)) := by
  cases connected : core.connection with
  | disconnected lastSeq =>
    simp only [ClientCore.folds, connected] at folded
    cases folded
  | connecting helloSent lastSeq =>
    simp only [ClientCore.folds, connected] at folded
    cases folded
  | subscribed lastSeq =>
    simp only [ClientCore.folds, awaited, connected] at folded
    cases waiting with
    | mutate clientSeq =>
      obtain ⟨later, rfl⟩ : lastSeq < answer.seq ∧ answer = done := by simpa using folded
      unfold routed
      dsimp only
      exact mutationCommitted_folded connected later
    | createReview reviewId submission =>
      obtain ⟨⟨named, later⟩, rfl⟩ :
          (answer.body.reviewId = some reviewId ∧ lastSeq < answer.seq) ∧ answer = done := by
        simpa using folded
      unfold routed
      dsimp only
      rw [if_neg (not_not.mpr named)]
      exact folding_always (creationCommitted_folded connected later)
    | applySuggestion reviewId commentId =>
      obtain ⟨applies, rfl⟩ :
          appliesSuggestion reviewId commentId answer.body = true ∧ answer = done := by
        simpa using folded
      unfold routed
      dsimp only
      exact suggestionApplied_folded connected applies
    | _ => cases folded

theorem response_folded {answer : Event}
    (folded : core.folds (.response id (.committed answer)) = some done) :
    ∃ ready : ClientCore, core.unready = ready.unready ∧
      ready.connection = core.connection.reached done.seq ∧
      (∀ error, (response id (.committed answer) core).result ≠ .error error) ∧
      (response id (.committed answer) core).state.unwaited =
        (ClientCore.applyEvent done ready).state.unwaited := by
  cases awaited : core.inFlight.lookup id with
  | none => cases connected : core.connection <;> simp [ClientCore.folds, awaited, connected] at folded
  | some waiting =>
    obtain ⟨ready, same, reached, sure, folds⟩ := routed_folded awaited folded
    have timely : core.late id waiting (.committed answer) = .no := by
      cases waiting with
      | reviewSnapshot reviewId =>
        cases connected : core.connection <;>
          simp [ClientCore.folds, awaited, connected] at folded
      | _ => rfl
    have ran : response id (.committed answer) core =
        (routed id waiting (.committed answer) >>= fun _ => always (finished id)) core := by
      unfold response
      rw [read_bind]
      simp only [awaited, timely]
      rfl
    cases ended : (routed id waiting (.committed answer) core).result with
    | error error => exact absurd ended (sure error)
    | ok done =>
      have left : (response id (.committed answer) core).state.unwaited =
          (routed id waiting (.committed answer) core).state.unwaited := by
        rw [ran, bind_ok core ended]
        rfl
      refine ⟨ready, same, reached, ?_, left.trans (congrArg ClientCore.unwaited folds)⟩
      rw [ran, bind_ok core ended]
      exact Sure.sure (routed id waiting (.committed answer) core).state

/-- A message that folds an event in leaves what folding the event leaves, and ends the
request that it answered. -/
theorem server_folded {msg : ServerMsg} (folded : core.folds msg = some done) :
    ∃ ready : ClientCore, core.unready = ready.unready ∧
      ready.connection = core.connection.reached done.seq ∧
      (∀ error, (server msg core).result ≠ .error error) ∧
      (server msg core).state.unwaited = (ClientCore.applyEvent done ready).state.unwaited := by
  cases msg with
  | event live =>
    obtain ⟨ready, same, reached, sure, folds⟩ := event_folded folded
    exact ⟨ready, same, reached, sure, congrArg ClientCore.unwaited folds⟩
  | response id answer =>
    cases answer with
    | committed answer => exact response_folded folded
    | _ => cases folded
  | _ => cases folded

end Delivery

end Nits.ClientCore
