import Nits.Mcp.Sessions

/-!
# The lines between the supervisor and its worker

In the order they will be read, the lines say at most once that a request is served, and
never after they say anything else of it. What is served is open. The checkpoints of the
lines follow the session, one `Session` call at a time.
-/

namespace Nits.Mcp

open Logical
open Protocol hiding UpgradeOperation
open Protocol.Lifecycle

variable {Params Arguments : Type}

section Marks

/-- What a line is about. -/
inductive Mark
  | serve (ticket : Ticket)
  | revoke (ticket : Ticket)

def Mark.ticket : Mark → Ticket
  | .serve ticket | .revoke ticket => ticket

def Input.mark : Input Params → Mark
  | .dispatch ticket _ => .serve ticket
  | .cancel ticket => .revoke ticket

def OutputEvent.mark : OutputEvent → Mark
  | .handled ticket _ => .serve ticket
  | .canceled ticket => .revoke ticket

theorem OutputEvent.mark_ticket (event : OutputEvent) : event.mark.ticket = event.ticket := by
  cases event <;> rfl

/-- Everything under way, in the order it will be read; open waits end before any line
not taken yet is answered. -/
def Child.marks (child : Child Params) : List Mark :=
  child.output.map (fun output => output.event.mark) ++
    (child.active.map Mark.serve ++ child.input.map Input.mark)

/-- Nothing about a request comes before it is served. -/
def Apart (first second : Mark) : Prop :=
  ∀ ticket, second = .serve ticket → first.ticket ≠ ticket

/-- Each request under way is served at most once, before it is revoked. -/
def Child.Single (child : Child Params) : Prop :=
  child.marks.Pairwise Apart

namespace Child.Single

theorem restored (server : Server) : (Child.restored server : Child Params).Single :=
  List.Pairwise.nil

variable {child : Child Params} (single : child.Single)
include single

/-- A line read is about nothing that is still to be served. -/
theorem reads {message : Output} {rest : List Output} (said : child.output = message :: rest) :
    ({ child with output := rest } : Child Params).Single ∧
      ∀ ticket, .serve ticket ∈ ({ child with output := rest } : Child Params).marks →
        message.event.ticket ≠ ticket := by
  have marks : child.marks = message.event.mark ::
      ({ child with output := rest } : Child Params).marks := by
    simp [Child.marks, said]
  unfold Child.Single at single
  rw [marks, List.pairwise_cons] at single
  refine ⟨single.2, fun ticket mem => ?_⟩
  rw [← message.event.mark_ticket]
  exact single.1 _ mem ticket rfl

theorem revokes (ticket : Ticket) :
    ({ child with input := child.input ++ [.cancel ticket] } : Child Params).Single := by
  have marks : ({ child with input := child.input ++ [.cancel ticket] } : Child Params).marks =
      child.marks ++ [.revoke ticket] := by
    simp [Child.marks, Input.mark]
  unfold Child.Single
  rw [marks, List.pairwise_append]
  refine ⟨single, List.pairwise_singleton _ _, fun first _ second mem other same => ?_⟩
  rw [List.mem_singleton.mp mem] at same
  cases same

theorem sends {ticket : Ticket} {message : Incoming Params}
    (fresh : ∀ mark ∈ child.marks, mark.ticket ≠ ticket) :
    ({ child with input := child.input ++ [.dispatch ticket message] } : Child Params).Single := by
  have marks : ({ child with
      input := child.input ++ [.dispatch ticket message] } : Child Params).marks =
      child.marks ++ [.serve ticket] := by
    simp [Child.marks, Input.mark]
  unfold Child.Single
  rw [marks, List.pairwise_append]
  refine ⟨single, List.pairwise_singleton _ _, fun first within second mem other same => ?_⟩
  rw [List.mem_singleton.mp mem] at same
  cases same
  exact fresh first within

omit single in
/-- A line taken overtakes the waits that are not about it. -/
theorem overtakes {said left : List Mark} {active kept : List Ticket} {mark : Mark}
    (single : (said ++ (active.map Mark.serve ++ mark :: left)).Pairwise Apart)
    (fewer : kept.Sublist active) (apart : ∀ ticket ∈ kept, mark.ticket ≠ ticket) :
    (said ++ mark :: (kept.map Mark.serve ++ left)).Pairwise Apart := by
  have single : (said ++ (kept.map Mark.serve ++ mark :: left)).Pairwise Apart :=
    single.sublist ((List.Sublist.refl said).append
      ((fewer.map Mark.serve).append (List.Sublist.refl _)))
  obtain ⟨early, late, between⟩ := List.pairwise_append.mp single
  obtain ⟨waits, rest, across⟩ := List.pairwise_append.mp late
  obtain ⟨first, rest⟩ := List.pairwise_cons.mp rest
  refine List.pairwise_append.mpr ⟨early, List.pairwise_cons.mpr ⟨?_, ?_⟩, ?_⟩
  · intro other mem
    rcases List.mem_append.mp mem with wait | after
    · obtain ⟨ticket, listed, rfl⟩ := List.mem_map.mp wait
      intro other same
      cases same
      exact apart ticket listed
    · exact first other after
  · exact List.pairwise_append.mpr ⟨waits, rest,
      fun wait listed other mem => across wait listed other (List.mem_cons_of_mem _ mem)⟩
  · intro before listed other mem
    refine between before listed other ?_
    rcases List.mem_cons.mp mem with same | mem
    · rw [same]
      exact List.mem_append_right _ List.mem_cons_self
    · rcases List.mem_append.mp mem with wait | after
      · exact List.mem_append_left _ wait
      · exact List.mem_append_right _ (List.mem_cons_of_mem _ after)

/-- The worker takes a line; nothing new is served by it. -/
theorem takes (decoding : Decoding Params Arguments) (answer : Answer) :
    (child.takes decoding answer).Single ∧
      ∀ ticket, .serve ticket ∈ (child.takes decoding answer).marks →
        .serve ticket ∈ child.marks := by
  have unchanged : child.Single ∧ ∀ ticket, .serve ticket ∈ child.marks →
      Mark.serve ticket ∈ child.marks := ⟨single, fun _ mem => mem⟩
  unfold Child.takes
  split
  · exact unchanged
  · split
    · exact unchanged
    · rename_i canceled rest taken
      have marks : child.marks = child.output.map (fun output => output.event.mark) ++
          (child.active.map Mark.serve ++ .revoke canceled :: rest.map Input.mark) := by
        simp [Child.marks, taken, Input.mark]
      have after : (({ child with
          input := rest, active := child.active.erase canceled } : Child Params).say
            (.canceled canceled)).marks =
          child.output.map (fun output => output.event.mark) ++ .revoke canceled ::
            ((child.active.erase canceled).map Mark.serve ++ rest.map Input.mark) := by
        simp [Child.marks, Child.say, OutputEvent.mark]
      unfold Child.Single at single ⊢
      rw [after]
      rw [marks] at single ⊢
      refine ⟨overtakes single List.erase_sublist ?_, fun ticket mem => ?_⟩
      · -- The canceled wait is over, and there was only one of it.
        have waits := (List.pairwise_append.mp (List.pairwise_append.mp single).2.1).1
        have distinct : child.active.Nodup := by
          rw [List.pairwise_map] at waits
          exact waits.imp fun apart => apart _ rfl
        intro ticket mem same
        exact (List.Nodup.mem_erase_iff distinct).mp mem |>.1 same.symm
      · simp only [List.mem_append, List.mem_cons, List.mem_map] at mem ⊢
        rcases mem with said | absurd | ⟨wait, listed, same⟩ | left
        · exact .inl said
        · cases absurd
        · exact .inr (.inl ⟨wait, List.mem_of_mem_erase listed, same⟩)
        · exact .inr (.inr (.inr left))
    · rename_i given message rest taken
      have marks : child.marks = child.output.map (fun output => output.event.mark) ++
          (child.active.map Mark.serve ++ .serve given :: rest.map Input.mark) := by
        simp [Child.marks, taken, Input.mark]
      have apart : ∀ ticket ∈ child.active, (Mark.serve given).ticket ≠ ticket := by
        unfold Child.Single at single
        rw [marks] at single
        have across := (List.pairwise_append.mp (List.pairwise_append.mp single).2.1).2.2
        intro ticket listed same
        exact across _ (List.mem_map.mpr ⟨ticket, listed, rfl⟩) _ List.mem_cons_self given rfl
          same.symm
      generalize child.server.dispatch decoding (Child.addressed given message) answer = outcome
      obtain ⟨server, outcome⟩ := outcome
      dsimp only
      have said : ∀ reply, (({ child with server, input := rest } : Child Params).say
            (.handled given reply)).Single ∧
          ∀ ticket, .serve ticket ∈ (({ child with server, input := rest } : Child Params).say
            (.handled given reply)).marks → .serve ticket ∈ child.marks := by
        intro reply
        have after : (({ child with server, input := rest } : Child Params).say
              (.handled given reply)).marks =
            child.output.map (fun output => output.event.mark) ++ .serve given ::
              (child.active.map Mark.serve ++ rest.map Input.mark) := by
          simp [Child.marks, Child.say, OutputEvent.mark]
        unfold Child.Single at single ⊢
        rw [after]
        rw [marks] at single ⊢
        refine ⟨overtakes single (List.Sublist.refl _) apart, fun ticket mem => ?_⟩
        simp only [List.mem_append, List.mem_cons] at mem ⊢
        grind
      have dropped : ({ child with server, input := rest, ended := true } : Child Params).Single ∧
          ∀ ticket, .serve ticket ∈
            ({ child with server, input := rest, ended := true } : Child Params).marks →
              .serve ticket ∈ child.marks := by
        have after : ({ child with server, input := rest, ended := true } : Child Params).marks =
            child.output.map (fun output => output.event.mark) ++
              (child.active.map Mark.serve ++ rest.map Input.mark) := rfl
        have shorter : (child.output.map (fun output => output.event.mark) ++
            (child.active.map Mark.serve ++ rest.map Input.mark)).Sublist child.marks := by
          rw [marks]
          exact (List.Sublist.refl _).append ((List.Sublist.refl _).append
            (List.sublist_cons_self _ _))
        unfold Child.Single at single ⊢
        rw [after]
        exact ⟨single.sublist shorter, fun ticket mem => shorter.subset mem⟩
      unfold Child.dispatched
      cases outcome with
      | reply reply => exact said _
      | notification => exact said _
      | cancel request => exact dropped
      | wait id =>
        dsimp only
        split
        · exact said _
        · split
          · exact dropped
          · have same : ({ child with
                server, input := rest, active := child.active ++ [given] } : Child Params).marks =
                child.marks := by
              rw [marks]
              simp [Child.marks]
            unfold Child.Single at single ⊢
            rw [same]
            exact ⟨single, fun _ mem => mem⟩

/-- A wait that ends is answered once. -/
theorem waitEnds (ended : Ticket) (content : String) : (child.waitEnds ended content).Single ∧
      ∀ ticket, .serve ticket ∈ (child.waitEnds ended content).marks →
        .serve ticket ∈ child.marks := by
  have unchanged : child.Single ∧ ∀ ticket, .serve ticket ∈ child.marks →
      Mark.serve ticket ∈ child.marks := ⟨single, fun _ mem => mem⟩
  unfold Child.waitEnds
  split
  · exact unchanged
  · split
    · rename_i listed
      have after : ∀ reply, (({ child with
          active := child.active.erase ended } : Child Params).say (.handled ended reply)).marks =
          child.output.map (fun output => output.event.mark) ++
            ((ended :: child.active.erase ended).map Mark.serve ++
              child.input.map Input.mark) := by
        intro reply
        simp [Child.marks, Child.say, OutputEvent.mark]
      have waits := (List.pairwise_append.mp (List.pairwise_append.mp single).2.1).1
      have distinct : child.active.Nodup := by
        rw [List.pairwise_map] at waits
        exact waits.imp fun apart => apart _ rfl
      unfold Child.Single at single ⊢
      rw [after]
      have moved := List.perm_cons_erase listed
      constructor
      · obtain ⟨early, late, between⟩ := List.pairwise_append.mp single
        obtain ⟨_, rest, across⟩ := List.pairwise_append.mp late
        have listing : ∀ mark, mark ∈ (ended :: child.active.erase ended).map Mark.serve ↔
            mark ∈ child.active.map Mark.serve := fun mark => (moved.map Mark.serve).mem_iff.symm
        refine List.pairwise_append.mpr ⟨early, List.pairwise_append.mpr ⟨?_, rest, ?_⟩, ?_⟩
        · rw [List.pairwise_map]
          refine List.Pairwise.imp ?_ (moved.nodup_iff.mp distinct)
          intro first second differ ticket same
          cases same
          exact differ
        · exact fun wait mem => across wait ((listing wait).mp mem)
        · intro before said other mem
          refine between before said other ?_
          rcases List.mem_append.mp mem with wait | left
          · exact List.mem_append_left _ ((listing other).mp wait)
          · exact List.mem_append_right _ left
      · intro ticket mem
        unfold Child.marks
        rcases List.mem_append.mp mem with said | mem
        · exact List.mem_append_left _ said
        · refine List.mem_append_right _ ?_
          rcases List.mem_append.mp mem with wait | left
          · exact List.mem_append_left _ ((moved.map Mark.serve).mem_iff.mpr wait)
          · exact List.mem_append_right _ left
    · exact unchanged

end Child.Single

end Marks

section Session

variable (decoding : Decoding Params Arguments)

/-- What the worker will do for a forwarded call. -/
def Plays (history : List (Event Params)) (ticket : Ticket) (message : Incoming Params) : Prop :=
  Scheduled history ticket .session ∧ Immediate decoding message ∨
    (∃ behavior, behavior ≠ .session ∧ Scheduled history ticket behavior) ∧
      Plain decoding message

theorem Plays.mono {history later : List (Event Params)} {ticket : Ticket}
    {message : Incoming Params} (plays : Plays decoding history ticket message)
    (kept : ∀ event ∈ history, event ∈ later) : Plays decoding later ticket message :=
  plays.imp (And.imp_left fun scheduled => scheduled.mono kept)
    (And.imp_left fun ⟨behavior, other, scheduled⟩ => ⟨behavior, other, scheduled.mono kept⟩)

/-- From a session, the lines carry its checkpoint, each answer to one of `calls` that of
the session after the call. -/
inductive Trail : Server → List Output → List (Ticket × Incoming Params × Answer) → Server → Prop
  | done (server : Server) : Trail server [] [] server
  | plain {server final : Server} {output : Output} {outputs : List Output}
      {calls : List (Ticket × Incoming Params × Answer)}
      (same : output.checkpoint = server.checkpoint) (rest : Trail server outputs calls final) :
      Trail server (output :: outputs) calls final
  | session {server final : Server} {output : Output} {outputs : List Output}
      {call : Ticket × Incoming Params × Answer}
      {calls : List (Ticket × Incoming Params × Answer)} {reply : Option Outgoing}
      (answers : output.event = .handled call.1 reply)
      (moves : output.checkpoint = (server.replay decoding [call]).checkpoint)
      (rest : Trail (server.replay decoding [call]) outputs calls final) :
      Trail server (output :: outputs) (call :: calls) final

namespace Trail

variable {decoding} {server final : Server} {outputs : List Output}
  {calls : List (Ticket × Incoming Params × Answer)} {child : Child Params}

theorem speaks (trail : Trail decoding server outputs calls final) {output : Output}
    (same : output.checkpoint = final.checkpoint) :
    Trail decoding server (outputs ++ [output]) calls final := by
  induction trail with
  | done server => exact plain same (done server)
  | plain own rest ih => exact plain own (ih same)
  | session answers moves rest ih => exact session answers moves (ih same)

theorem serves (trail : Trail decoding server outputs calls final) {output : Output}
    {call : Ticket × Incoming Params × Answer} {reply : Option Outgoing}
    (answers : output.event = .handled call.1 reply)
    (moves : output.checkpoint = (final.replay decoding [call]).checkpoint) :
    Trail decoding server (outputs ++ [output]) (calls ++ [call])
      (final.replay decoding [call]) := by
  induction trail with
  | done server => exact session answers moves (done _)
  | plain own rest ih => exact plain own (ih moves)
  | session before moved rest ih => exact session before moved (ih moves)

/-- Each of the calls is answered by one of the lines. -/
theorem handled (trail : Trail decoding server outputs calls final) :
    ∀ call ∈ calls, ∃ output ∈ outputs, output.event.mark = .serve call.1 := by
  induction trail with
  | done => exact fun _ mem => nomatch mem
  | plain _ _ ih =>
    intro call mem
    obtain ⟨output, within, same⟩ := ih call mem
    exact ⟨output, List.mem_cons_of_mem _ within, same⟩
  | session answers _ _ ih =>
    intro call mem
    rcases List.mem_cons.mp mem with rfl | later
    · exact ⟨_, List.mem_cons_self, by rw [answers]; rfl⟩
    · obtain ⟨output, within, same⟩ := ih call later
      exact ⟨output, List.mem_cons_of_mem _ within, same⟩

/-- The worker takes a line that is no `Session` call. -/
theorem takes_plain (answer : Answer)
    (trail : Trail decoding server child.output calls child.server)
    (plain : ∀ ticket message rest, child.input = .dispatch ticket message :: rest →
      Plain decoding message) : Trail decoding server (child.takes decoding answer).output calls
      (child.takes decoding answer).server := by
  unfold Child.takes
  split
  · exact trail
  · split
    · exact trail
    · exact trail.speaks rfl
    · rename_i ticket message rest taken
      have same := plain ticket message rest taken child.server ticket answer
      generalize child.server.dispatch decoding (Child.addressed ticket message) answer =
        outcome at same
      obtain ⟨after, outcome⟩ := outcome
      dsimp only at same ⊢
      subst same
      unfold Child.dispatched
      cases outcome with
      | reply reply => exact trail.speaks rfl
      | notification => exact trail.speaks rfl
      | cancel request => exact trail
      | wait id =>
        dsimp only
        split
        · exact trail.speaks rfl
        · split
          · exact trail
          · exact trail

/-- The worker takes a `Session` call, and answers it at once. -/
theorem takes_session {ticket : Ticket} {message : Incoming Params} {rest : List (Input Params)}
    (answer : Answer) (serving : child.ended = false)
    (taken : child.input = .dispatch ticket message :: rest)
    (immediate : Immediate decoding message)
    (trail : Trail decoding server child.output calls child.server) :
    Trail decoding server (child.takes decoding answer).output
      (calls ++ [(ticket, message, answer)]) (child.takes decoding answer).server := by
  obtain ⟨reply, outcome⟩ := immediate child.server ticket answer
  have moves : (child.server.dispatch decoding (Child.addressed ticket message) answer).1 =
      child.server.replay decoding [(ticket, message, answer)] := rfl
  unfold Child.takes
  rw [if_neg (by simp [serving]), taken]
  dsimp only
  rw [outcome, moves]
  exact trail.serves rfl rfl

theorem waitEnds (ticket : Ticket) (content : String)
    (trail : Trail decoding server child.output calls child.server) :
    Trail decoding server (child.waitEnds ticket content).output calls
      (child.waitEnds ticket content).server := by
  unfold Child.waitEnds
  split
  · exact trail
  · split
    · exact trail.speaks rfl
    · exact trail

end Trail

end Session

end Nits.Mcp
