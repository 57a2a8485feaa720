import Nits.Nitsd.Client

/-!
# Serving the requests of one connection

One task reads frames and polls the requests taken so far; a request runs until its answer
is queued, it is cancelled, or a planned restart interrupts it. A request's future is polled
to its end in the poll that queues its answer, so that completing it and taking it out of
the requests in flight are one step. Messages under no request's number come from the
connection's tails.
-/

namespace Nits.Nitsd

open Protocol

/-- A request being served, with the token that cancels it. -/
structure Served (α : Type) where
  id : RequestId
  token : Nat
  request : α
  cancelled : Bool
  /-- The handler was polled, and the daemon was not restarting then. -/
  started : Bool

/-- Where the read loop stands. -/
inductive ReadPhase
  | reading
  /-- A planned restart was announced; the requests in flight get a bounded time. -/
  | draining (operation : UpgradeOperation)
  | ended
  deriving DecidableEq

/-- The daemon's side of a connection. `taken` and `answers` are kept for the record only:
the frames read, and what the handlers of single requests came to. -/
structure Serving (α : Type) where
  phase : ReadPhase
  /-- The daemon's planned restart, once there is one. -/
  lifecycle : Option UpgradeOperation
  inFlight : List (RequestId × Nat)
  requests : List (Served α)
  nextToken : Nat
  sent : List ServerMsg
  taken : List (ClientFrame α)
  answers : List (RequestId × α × Except RpcError Response)

namespace Serving

variable {α : Type}

/-- A connection whose handshake is done. -/
def welcomed : Serving α := ⟨.reading, none, [], [], 0, [], [], []⟩

def post (serving : Serving α) (msgs : List ServerMsg) : Serving α :=
  { serving with sent := serving.sent ++ msgs }

/-- The top of the read loop: a planned restart is announced, and nothing more is read. -/
def announce (serving : Serving α) : Serving α :=
  match serving.lifecycle with
  | some operation => { serving with phase := .draining operation }.post [.restarting operation]
  | none => serving

/-- A request's future is done. An older completion must not remove a reused number. -/
def done (serving : Serving α) (task : Served α) : Serving α :=
  { serving with
    requests := serving.requests.filter fun other => other.token ≠ task.token
    inFlight := serving.inFlight.filter fun entry => entry ≠ (task.id, task.token) }

/-- One frame of the client. -/
def handle (serving : Serving α) : ClientFrame α → Serving α
  | .request id request =>
    { serving with
      nextToken := serving.nextToken + 1
      inFlight := (serving.inFlight.filter fun entry => entry.1 ≠ id) ++ [(id, serving.nextToken)]
      requests := serving.requests ++ [⟨id, serving.nextToken, request, false, false⟩] }
  | .cancel id =>
    match serving.inFlight.find? fun entry => entry.1 = id with
    | some (_, token) =>
      let left : Serving α := { serving with
        inFlight := serving.inFlight.filter fun entry => entry.1 ≠ id
        requests := serving.requests.map fun task =>
          if task.token = token then { task with cancelled := true } else task }
      left.post [.error id .cancelled, .streamEnd id]
    | none => serving

/-- The frame is kept for the record. -/
def heard (serving : Serving α) (frame : ClientFrame α) : Serving α :=
  { serving with taken := serving.taken ++ [frame] }

/-- The requests still in flight when a planned restart cuts the connection. -/
def interrupt (serving : Serving α) (operation : UpgradeOperation) : Serving α :=
  let cut : Serving α := { serving with phase := .ended, requests := [], inFlight := [] }
  cut.post (serving.inFlight.map fun entry => .error entry.1 (.restartInterrupted operation.id))

/-- What a connection takes, or what befalls it. -/
inductive Input (α : Type)
  /-- The daemon plans its restart. -/
  | restart (operation : UpgradeOperation)
  /-- The loop reads a frame. -/
  | take (frame : ClientFrame α)
  /-- A request is polled for the first time, or after it was cancelled. -/
  | poll (token : Nat)
  /-- A stream's handler queues an item. -/
  | item (token : Nat) (item : StreamItem)
  /-- A handler comes to its result. -/
  | answer (token : Nat) (result : Except RpcError Response)
  | complete (token : Nat) (error : Option RpcError)
  /-- The loop notices the planned restart. -/
  | notice
  /-- The requests have drained, or the time for it is over. -/
  | drained
  | deadline
  /-- The transport fails, or the client is gone. -/
  | hangup
  /-- A tail forwards an event or a change of a tree, or tells that it has lagged. -/
  | event (event : Event)
  | treeDelta (delta : TreeDelta)
  | lagged (oldest : Seq)

variable (shape : α → ResponseShape)

/-- The running request with a token. -/
def runningTask (serving : Serving α) (token : Nat) : Option (Served α) :=
  serving.requests.find? fun task => task.token = token && !task.cancelled && task.started

/-- One step of a connection. -/
def step (serving : Serving α) : Input α → Serving α
  | .restart operation =>
    { serving with lifecycle := serving.lifecycle.or (some operation) }
  | .take frame =>
    if serving.phase = .reading then
      ((serving.heard frame).handle frame).announce
    else serving
  | .poll token =>
    match serving.requests.find? fun task => task.token = token with
    | some task =>
      if task.cancelled then serving.done task
      else if task.started then serving
      else match serving.lifecycle with
        | some operation =>
          (serving.done task).post [.error task.id (.restarting operation.id)]
        | none =>
          { serving with
            requests := serving.requests.map fun other =>
              if other.token = token then { other with started := true } else other }
    | none => serving
  | .item token item =>
    match serving.runningTask token with
    | some task =>
      if shape task.request = .stream then serving.post [.streamItem task.id item] else serving
    | none => serving
  | .answer token result =>
    match serving.runningTask token with
    | some task =>
      if shape task.request = .single then
        let told : Serving α := { serving.done task with
          answers := serving.answers ++ [(task.id, task.request, result)] }
        told.post [match result with
          | .ok response => .response task.id response
          | .error error => .error task.id error]
      else serving
    | none => serving
  | .complete token error =>
    match serving.runningTask token with
    | some task =>
      if shape task.request = .stream then
        (serving.done task).post (error.toList.map (ServerMsg.error task.id) ++ [.streamEnd task.id])
      else serving
    | none => serving
  | .notice => if serving.phase = .reading then serving.announce else serving
  | .drained =>
    match serving.phase with
    | .draining operation =>
      if serving.requests = [] then serving.interrupt operation else serving
    | _ => serving
  | .deadline =>
    match serving.phase with
    | .draining operation => serving.interrupt operation
    | _ => serving
  | .hangup => { serving with phase := .ended, requests := [], inFlight := [] }
  | .event event => if serving.phase = .ended then serving else serving.post [.event event]
  | .treeDelta delta => if serving.phase = .ended then serving else serving.post [.treeDelta delta]
  | .lagged oldest =>
    if serving.phase = .ended then serving else serving.post [.error 0 (.seqTooOld oldest)]

/-! ## What is sent under one number -/

/-- The message stands under the number. -/
def names (id : RequestId) : ServerMsg → Bool
  | .response other _ | .streamItem other _ | .streamEnd other | .error other _ => other = id
  | .restarting _ | .welcome | .rejected _ | .event _ | .treeDelta _ => false

/-- What was sent under a number. -/
def transcript (msgs : List ServerMsg) (id : RequestId) : List ServerMsg := msgs.filter (names id)

/-- A request's terminal answer: its own, the answer to a request that was not begun because
the daemon restarts, a cancellation, or an interruption. -/
inductive Terminal (shape : ResponseShape) (id : RequestId) : List ServerMsg → Prop
  | response (response : Response) : shape = .single → Terminal shape id [.response id response]
  | failure (error : RpcError) : shape = .single → Terminal shape id [.error id error]
  | finished : shape = .stream → Terminal shape id [.streamEnd id]
  | broken (error : RpcError) : shape = .stream → Terminal shape id [.error id error, .streamEnd id]
  | restarting (operation : UpgradeId) : Terminal shape id [.error id (.restarting operation)]
  | cancelled : Terminal shape id [.error id .cancelled, .streamEnd id]
  | interrupted (operation : UpgradeId) :
    Terminal shape id [.error id (.restartInterrupted operation)]

/-- Items of a stream only. -/
def Items (id : RequestId) (msgs : List ServerMsg) : Prop :=
  ∀ msg ∈ msgs, ∃ item, msg = .streamItem id item

/-- Items, and at their end the terminal answer. -/
def Answered (shape : ResponseShape) (id : RequestId) (msgs : List ServerMsg) : Prop :=
  ∃ items terminal, msgs = items ++ terminal ∧ Items id items ∧ Terminal shape id terminal

/-- What was sent for the requests taken, given those that run. -/
structure Script (shape : α → ResponseShape) (runs : RequestId → Prop) (ended : Prop)
    (taken : List (ClientFrame α)) (sent : List ServerMsg)
    (answers : List (RequestId × α × Except RpcError Response)) : Prop where
  numbered : (Client.requested taken).Nodup
  positive : ∀ id ∈ Client.requested taken, 0 < id
  runsTaken : ∀ id, runs id → id ∈ Client.requested taken
  /-- A request that runs was sent items only. -/
  running : ∀ id, runs id → Items id (transcript sent id)
  /-- Any other was answered, unless the connection has ended. -/
  answered : ∀ id request, .request id request ∈ taken → runs id ∨
    Answered (shape request) id (transcript sent id) ∨ ended ∧ Items id (transcript sent id)
  /-- Nothing stands under a number that was not asked under. -/
  unasked : ∀ id, 0 < id → id ∉ Client.requested taken → transcript sent id = []
  /-- A response is what the request's handler came to. -/
  handled : ∀ id response, .response id response ∈ sent → ∃ request, .request id request ∈ taken ∧
    shape request = .single ∧ (id, request, .ok response) ∈ answers

section Transcripts

variable {shape : α → ResponseShape} {runs still : RequestId → Prop} {ended : Prop}
  {taken : List (ClientFrame α)} {sent msgs : List ServerMsg} {id other : RequestId} {request : α}
  {answers : List (RequestId × α × Except RpcError Response)}

@[simp] theorem transcript_append (sent msgs : List ServerMsg) (id : RequestId) :
    transcript (sent ++ msgs) id = transcript sent id ++ transcript msgs id :=
  List.filter_append ..

theorem transcript_eq_self (own : ∀ msg ∈ msgs, names id msg = true) : transcript msgs id = msgs :=
  List.filter_eq_self.mpr own

theorem transcript_eq_nil (foreign : ∀ msg ∈ msgs, names id msg = false) :
    transcript msgs id = [] :=
  List.filter_eq_nil_iff.mpr fun msg mem => by simp [foreign msg mem]

/-- A terminal answer stands under its request's number and no other. -/
theorem Terminal.names_iff {shape : ResponseShape} (terminal : Terminal shape id msgs)
    {msg : ServerMsg} (mem : msg ∈ msgs) : names other msg = true ↔ id = other := by
  cases terminal <;> simp at mem <;> (try rcases mem with rfl | rfl) <;> simp_all [names]

theorem Terminal.own {shape : ResponseShape} (terminal : Terminal shape id msgs) :
    transcript msgs id = msgs :=
  transcript_eq_self fun _ mem => (terminal.names_iff mem).mpr rfl

theorem Terminal.foreign {shape : ResponseShape} (terminal : Terminal shape id msgs)
    (different : id ≠ other) : transcript msgs other = [] :=
  transcript_eq_nil fun _ mem =>
    Bool.eq_false_iff.mpr fun named => different ((terminal.names_iff mem).mp named)

theorem Terminal.of_response {shape : ResponseShape} (terminal : Terminal shape id msgs)
    {response : Response} (mem : .response other response ∈ msgs) :
    other = id ∧ shape = .single ∧ msgs = [.response id response] := by
  cases terminal <;> simp_all

namespace Script

variable (script : Script shape runs ended taken sent answers)
include script

theorem runs_iff (same : ∀ id, still id ↔ runs id) : Script shape still ended taken sent answers :=
  { script with
    runsTaken := fun id stays => script.runsTaken id ((same id).mp stays)
    running := fun id stays => script.running id ((same id).mp stays)
    answered := fun id request mem =>
      (script.answered id request mem).imp_left (same id).mpr }

theorem ended_iff {concluded : Prop} (same : ended ↔ concluded) :
    Script shape runs concluded taken sent answers :=
  { script with
    answered := fun id request mem => by
      rw [← same]
      exact script.answered id request mem }

/-- Messages under no request's number. -/
theorem idle (nameless : ∀ msg ∈ msgs, ∀ id, 0 < id → names id msg = false)
    (silent : ∀ id response, .response id response ∉ msgs) :
    Script shape runs ended taken (sent ++ msgs) answers := by
  have same {id : RequestId} (positive : 0 < id) :
      transcript (sent ++ msgs) id = transcript sent id := by
    rw [transcript_append, transcript_eq_nil fun msg mem => nameless msg mem id positive,
      List.append_nil]
  exact { script with
    running := fun id runs_ => by
      rw [same (script.positive id (script.runsTaken id runs_))]
      exact script.running id runs_
    answered := fun id request mem => by
      rw [same (script.positive id (Client.mem_requested.mpr ⟨request, mem⟩))]
      exact script.answered id request mem
    unasked := fun id positive unasked => by
      rw [same positive]
      exact script.unasked id positive unasked
    handled := fun id response mem => by
      refine script.handled id response ((List.mem_append.mp mem).resolve_right ?_)
      exact silent id response }

/-- A request that runs is sent an item. -/
theorem item (runs_ : runs id) (item : StreamItem) :
    Script shape runs ended taken (sent ++ [.streamItem id item]) answers := by
  have own : transcript (sent ++ [.streamItem id item]) id =
      transcript sent id ++ [.streamItem id item] := by
    rw [transcript_append]
    simp [transcript, names]
  have foreign {other : RequestId} (different : id ≠ other) :
      transcript (sent ++ [.streamItem id item]) other = transcript sent other := by
    rw [transcript_append]
    simp [transcript, names, different]
  have items : Items id (transcript (sent ++ [.streamItem id item]) id) := by
    rw [own]
    intro msg mem
    rcases List.mem_append.mp mem with earlier | last
    · exact script.running id runs_ msg earlier
    · exact ⟨item, List.mem_singleton.mp last⟩
  exact { script with
    running := fun other also => by
      by_cases same : id = other
      · exact same ▸ items
      · rw [foreign same]
        exact script.running other also
    answered := fun other request mem => by
      by_cases same : id = other
      · exact .inl (same ▸ runs_)
      · rw [foreign same]
        exact script.answered other request mem
    unasked := fun other positive unasked => by
      rw [foreign]
      · exact script.unasked other positive unasked
      · rintro rfl
        exact unasked (script.runsTaken id runs_)
    handled := fun other response mem => by
      refine script.handled other response ((List.mem_append.mp mem).resolve_right ?_)
      simp }

/-- A request that runs is answered. -/
theorem settle (runs_ : runs id) (asked : .request id request ∈ taken)
    (terminal : Terminal (shape request) id msgs)
    {more : List (RequestId × α × Except RpcError Response)}
    (handled : ∀ response, .response id response ∈ msgs → (id, request, .ok response) ∈ more)
    (left : ∀ other, still other ↔ runs other ∧ other ≠ id) :
    Script shape still ended taken (sent ++ msgs) (answers ++ more) := by
  have foreign {other : RequestId} (different : id ≠ other) :
      transcript (sent ++ msgs) other = transcript sent other := by
    rw [transcript_append, terminal.foreign different, List.append_nil]
  exact { script with
    runsTaken := fun other stays => script.runsTaken other ((left other).mp stays).1
    running := fun other stays => by
      obtain ⟨also, different⟩ := (left other).mp stays
      rw [foreign (Ne.symm different)]
      exact script.running other also
    answered := fun other again mem => by
      by_cases same : id = other
      · subst same
        obtain rfl := Client.request_unique script.numbered asked mem
        refine .inr (.inl ⟨_, msgs, ?_, script.running id runs_, terminal⟩)
        rw [transcript_append, terminal.own]
      · rw [foreign same]
        refine (script.answered other again mem).imp_left fun also => ?_
        exact (left other).mpr ⟨also, Ne.symm same⟩
    unasked := fun other positive unasked => by
      rw [foreign]
      · exact script.unasked other positive unasked
      · rintro rfl
        exact unasked (Client.mem_requested.mpr ⟨request, asked⟩)
    handled := fun other response mem => by
      rcases List.mem_append.mp mem with earlier | last
      · obtain ⟨found, mem, single, answer⟩ := script.handled other response earlier
        exact ⟨found, mem, single, List.mem_append_left _ answer⟩
      · obtain ⟨rfl, single, _⟩ := terminal.of_response last
        exact ⟨request, asked, single, List.mem_append_right _ (handled response last)⟩ }

/-- A request is taken. -/
theorem ask (fresh : id ∉ Client.requested taken) (positive : 0 < id)
    (joins : ∀ other, still other ↔ runs other ∨ other = id) :
    Script shape still ended (taken ++ [.request id request]) sent answers := by
  have numbers : Client.requested (taken ++ [.request id request]) = Client.requested taken ++ [id] :=
    Client.requested_append ..
  have blank : transcript sent id = [] := script.unasked id positive fresh
  exact {
    numbered := by
      rw [numbers, List.nodup_append]
      refine ⟨script.numbered, List.nodup_singleton _, ?_⟩
      rintro other mem _ last rfl
      rw [List.mem_singleton.mp last] at mem
      exact fresh mem
    positive := fun other mem => by
      rw [numbers] at mem
      rcases List.mem_append.mp mem with earlier | last
      · exact script.positive other earlier
      · rw [List.mem_singleton.mp last]
        exact positive
    runsTaken := fun other stays => by
      rw [numbers]
      rcases (joins other).mp stays with also | rfl
      · exact List.mem_append_left _ (script.runsTaken other also)
      · exact List.mem_append_right _ List.mem_cons_self
    running := fun other stays => by
      rcases (joins other).mp stays with also | rfl
      · exact script.running other also
      · rw [blank]
        exact fun msg mem => absurd mem List.not_mem_nil
    answered := fun other again mem => by
      rcases List.mem_append.mp mem with earlier | last
      · refine (script.answered other again earlier).imp_left fun also => ?_
        exact (joins other).mpr (.inl also)
      · cases List.mem_singleton.mp last
        exact .inl ((joins id).mpr (.inr rfl))
    unasked := fun other positive unasked => by
      rw [numbers] at unasked
      exact script.unasked other positive fun mem => unasked (List.mem_append_left _ mem)
    handled := fun other response mem => by
      obtain ⟨found, asked, rest⟩ := script.handled other response mem
      exact ⟨found, List.mem_append_left _ asked, rest⟩ }

/-- A cancellation is taken. -/
theorem cancel : Script shape runs ended (taken ++ [.cancel id]) sent answers := by
  have numbers : Client.requested (taken ++ [.cancel id]) = Client.requested taken :=
    (Client.requested_append ..).trans (List.append_nil _)
  exact { script with
    numbered := numbers ▸ script.numbered
    positive := numbers ▸ script.positive
    runsTaken := numbers ▸ script.runsTaken
    answered := fun other request mem => script.answered other request (by simpa using mem)
    unasked := numbers ▸ script.unasked
    handled := fun other response mem => by
      obtain ⟨found, asked, rest⟩ := script.handled other response mem
      exact ⟨found, List.mem_append_left _ asked, rest⟩ }

/-- The connection ends. -/
theorem cut (stops : ∀ id, ¬ still id) : Script shape still True taken sent answers :=
  { script with
    runsTaken := fun id stays => absurd stays (stops id)
    running := fun id stays => absurd stays (stops id)
    answered := fun id request mem => by
      rcases script.answered id request mem with runs_ | answered | ⟨_, items⟩
      · exact .inr (.inr ⟨trivial, script.running id runs_⟩)
      · exact .inr (.inl answered)
      · exact .inr (.inr ⟨trivial, items⟩) }

/-- Requests that run are interrupted. -/
theorem interrupt {ids : List RequestId} (distinct : ids.Nodup) (run_ : ∀ id ∈ ids, runs id)
    (operation : UpgradeId) : Script shape (fun id => runs id ∧ id ∉ ids) ended taken
      (sent ++ ids.map fun id => .error id (.restartInterrupted operation)) answers := by
  induction ids generalizing runs sent with
  | nil =>
    rw [List.map_nil, List.append_nil]
    exact script.runs_iff fun id => and_iff_left List.not_mem_nil
  | cons id rest ih =>
    obtain ⟨fresh, distinct⟩ := List.nodup_cons.mp distinct
    have runs_ := run_ id List.mem_cons_self
    obtain ⟨request, asked⟩ := Client.mem_requested.mp (script.runsTaken id runs_)
    have settled : Script shape (fun other => runs other ∧ other ≠ id) ended taken
        (sent ++ [.error id (.restartInterrupted operation)]) (answers ++ []) :=
      script.settle runs_ asked (.interrupted operation) (by simp) fun _ => Iff.rfl
    rw [List.append_nil] at settled
    have rest_ := ih settled distinct fun other mem =>
      ⟨run_ other (List.mem_cons_of_mem _ mem), fun same => fresh (same ▸ mem)⟩
    rw [List.append_assoc] at rest_
    refine rest_.runs_iff fun other => ?_
    rw [List.mem_cons, not_or, and_assoc]

end Script

end Transcripts

/-! ## Requests in flight -/

/-- A request runs: it is being served and was not cancelled. -/
def Runs (serving : Serving α) (id : RequestId) : Prop :=
  ∃ task ∈ serving.requests, task.id = id ∧ task.cancelled = false

/-- What keeps the requests being served and those in flight in step. -/
structure Registered (serving : Serving α) : Prop where
  tokens : (serving.requests.map Served.token).Nodup
  issued : ∀ task ∈ serving.requests, task.token < serving.nextToken
  numbers : (serving.requests.map Served.id).Nodup
  /-- In flight is what runs. -/
  inFlight : ∀ id token, (id, token) ∈ serving.inFlight ↔
    ∃ task ∈ serving.requests, task.id = id ∧ task.token = token ∧ task.cancelled = false
  once : (serving.inFlight.map Prod.fst).Nodup
  taken : ∀ task ∈ serving.requests, .request task.id task.request ∈ serving.taken
  ended : serving.phase = .ended → serving.requests = []

/-- What keeps a connection's requests and what it sent for them in step. -/
structure Sound (shape : α → ResponseShape) (serving : Serving α) : Prop where
  registered : serving.Registered
  script : Script shape serving.Runs (serving.phase = .ended) serving.taken serving.sent
    serving.answers

theorem welcomed_sound (shape : α → ResponseShape) : Sound shape welcomed where
  registered := by
    constructor <;> simp [welcomed]
  script := by
    constructor <;> simp [welcomed, Runs, Client.requested, transcript]

section Flight

variable {shape : α → ResponseShape} {serving : Serving α} {task : Served α}

theorem Registered.same_task (registered : serving.Registered) {other : Served α}
    (mem : task ∈ serving.requests) (also : other ∈ serving.requests)
    (same : other.id = task.id) : other = task :=
  List.inj_on_of_nodup_map registered.numbers also mem same

theorem Registered.done (registered : serving.Registered) (mem : task ∈ serving.requests) :
    (serving.done task).Registered where
  tokens := registered.tokens.sublist (List.filter_sublist.map Served.token)
  issued other among := registered.issued other (List.mem_filter.mp among).1
  numbers := registered.numbers.sublist (List.filter_sublist.map Served.id)
  inFlight id token := by
    simp only [Serving.done, List.mem_filter, decide_eq_true_eq, registered.inFlight]
    constructor
    · rintro ⟨⟨other, among, rfl, rfl, running⟩, different⟩
      refine ⟨other, ⟨among, fun same => different ?_⟩, rfl, rfl, running⟩
      rw [List.inj_on_of_nodup_map registered.tokens among mem same]
    · rintro ⟨other, ⟨among, different⟩, rfl, rfl, running⟩
      exact ⟨⟨other, among, rfl, rfl, running⟩, fun same => different (Prod.mk.inj same).2⟩
  once := registered.once.sublist (List.filter_sublist.map Prod.fst)
  taken other among := registered.taken other (List.mem_filter.mp among).1
  ended gone := by
    rw [Serving.done, registered.ended gone]
    rfl

theorem Registered.runs_done (registered : serving.Registered) (mem : task ∈ serving.requests)
    (id : RequestId) : (serving.done task).Runs id ↔ serving.Runs id ∧ id ≠ task.id := by
  simp only [Runs, Serving.done, List.mem_filter, decide_eq_true_eq]
  constructor
  · rintro ⟨other, ⟨among, different⟩, rfl, running⟩
    refine ⟨⟨other, among, rfl, running⟩, fun same => different ?_⟩
    rw [registered.same_task mem among same]
  · rintro ⟨⟨other, among, rfl, running⟩, different⟩
    refine ⟨other, ⟨among, fun same => different ?_⟩, rfl, running⟩
    rw [List.inj_on_of_nodup_map registered.tokens among mem same]

/-- A request that runs is answered and done. -/
theorem Sound.finish (sound : Sound shape serving) (mem : task ∈ serving.requests)
    (running : task.cancelled = false) {msgs : List ServerMsg}
    (terminal : Terminal (shape task.request) task.id msgs)
    {more : List (RequestId × α × Except RpcError Response)}
    (handled : ∀ response, .response task.id response ∈ msgs →
      (task.id, task.request, .ok response) ∈ more) : Sound shape
      (({ serving.done task with answers := serving.answers ++ more } : Serving α).post msgs) where
  registered := { sound.registered.done mem with }
  script := sound.script.settle ⟨task, mem, rfl, running⟩ (sound.registered.taken task mem)
    terminal handled (sound.registered.runs_done mem)

/-- A request that runs is done without a response. -/
theorem Sound.finish_stream (sound : Sound shape serving) (mem : task ∈ serving.requests)
    (running : task.cancelled = false) {msgs : List ServerMsg}
    (terminal : Terminal (shape task.request) task.id msgs)
    (unanswered : ∀ response, .response task.id response ∉ msgs) :
    Sound shape ((serving.done task).post msgs) := by
  have finished : Sound shape
      (({ serving.done task with answers := serving.answers ++ [] } : Serving α).post msgs) :=
    sound.finish mem running terminal fun response sent => absurd sent (unanswered response)
  rw [List.append_nil] at finished
  exact finished

/-- A cancelled request's future is done. -/
theorem Sound.reap (sound : Sound shape serving) (mem : task ∈ serving.requests)
    (cancelled : task.cancelled = true) : Sound shape (serving.done task) where
  registered := sound.registered.done mem
  script := by
    refine sound.script.runs_iff fun id => ?_
    rw [sound.registered.runs_done mem]
    refine and_iff_left_of_imp ?_
    rintro ⟨other, among, rfl, running⟩ same
    rw [sound.registered.same_task mem among same, cancelled] at running
    cases running

theorem Sound.announce (sound : Sound shape serving) (reading : serving.phase ≠ .ended) :
    Sound shape serving.announce := by
  unfold Serving.announce
  split
  · exact {
      registered := { sound.registered with ended := fun gone => nomatch gone }
      script := by
        have idle : Script shape serving.Runs _ serving.taken
            (serving.sent ++ [.restarting ‹_›]) serving.answers :=
          sound.script.idle (by simp [names]) (by simp)
        simp only [reading] at idle
        exact { idle with
          answered := fun id request mem => by
            rcases idle.answered id request mem with runs | answered | ⟨never, _⟩
            · exact .inl runs
            · exact .inr (.inl answered)
            · exact never.elim } }
  · exact sound

/-- A request is taken under a number that was not used. -/
theorem Sound.request (sound : Sound shape serving) {id : RequestId} {request : α}
    (open_ : serving.phase ≠ .ended) (fresh : id ∉ Client.requested serving.taken)
    (positive : 0 < id) :
    Sound shape ((serving.heard (.request id request)).handle (.request id request)) := by
  have registered := sound.registered
  have unused {task : Served α} (mem : task ∈ serving.requests) : task.id ≠ id := by
    rintro rfl
    exact fresh (Client.mem_requested.mpr ⟨_, registered.taken task mem⟩)
  have others : serving.inFlight.filter (fun entry => entry.1 ≠ id) = serving.inFlight := by
    refine List.filter_eq_self.mpr fun entry mem => ?_
    obtain ⟨task, among, names, _⟩ := (registered.inFlight entry.1 entry.2).mp mem
    simpa [← names] using unused among
  constructor
  · constructor
    · change ((serving.requests ++ [_]).map Served.token).Nodup
      rw [List.map_append, List.nodup_append]
      refine ⟨registered.tokens, List.nodup_singleton _, ?_⟩
      rintro token mem _ last rfl
      obtain ⟨task, among, same⟩ := List.mem_map.mp mem
      rw [List.mem_singleton.mp last] at same
      exact absurd (same ▸ registered.issued task among) (Nat.lt_irrefl _)
    · intro task mem
      rcases List.mem_append.mp mem with earlier | last
      · exact Nat.lt_succ_of_lt (registered.issued task earlier)
      · rw [List.mem_singleton.mp last]
        exact Nat.lt_succ_self _
    · change ((serving.requests ++ [_]).map Served.id).Nodup
      rw [List.map_append, List.nodup_append]
      refine ⟨registered.numbers, List.nodup_singleton _, ?_⟩
      rintro other mem _ last rfl
      obtain ⟨task, among, same⟩ := List.mem_map.mp mem
      rw [List.mem_singleton.mp last] at same
      exact unused among same
    · intro other token
      change (other, token) ∈ serving.inFlight.filter (fun entry => entry.1 ≠ id) ++
        [(id, serving.nextToken)] ↔ ∃ task ∈ serving.requests ++ [_], _
      rw [others, List.mem_append, registered.inFlight]
      constructor
      · rintro (⟨task, among, rest⟩ | last)
        · exact ⟨task, List.mem_append_left _ among, rest⟩
        · cases List.mem_singleton.mp last
          exact ⟨_, List.mem_append_right _ List.mem_cons_self, rfl, rfl, rfl⟩
      · rintro ⟨task, among, names, tokens, running⟩
        rcases List.mem_append.mp among with earlier | last
        · exact .inl ⟨task, earlier, names, tokens, running⟩
        · rw [List.mem_singleton.mp last] at names tokens
          exact .inr (by rw [← names, ← tokens]; exact List.mem_cons_self)
    · change ((serving.inFlight.filter (fun entry => entry.1 ≠ id) ++
        [(id, serving.nextToken)]).map Prod.fst).Nodup
      rw [others, List.map_append, List.nodup_append]
      refine ⟨registered.once, List.nodup_singleton _, ?_⟩
      rintro other mem _ last rfl
      obtain ⟨entry, among, same⟩ := List.mem_map.mp mem
      obtain ⟨task, among, names, _⟩ := (registered.inFlight entry.1 entry.2).mp among
      rw [List.mem_singleton.mp last] at same
      exact unused among (names.trans same)
    · intro task mem
      rcases List.mem_append.mp mem with earlier | last
      · exact List.mem_append_left _ (registered.taken task earlier)
      · rw [List.mem_singleton.mp last]
        exact List.mem_append_right _ List.mem_cons_self
    · exact fun ended => absurd ended open_
  · refine sound.script.ask fresh positive fun other => ?_
    change (∃ task ∈ serving.requests ++ [_], _) ↔ _
    constructor
    · rintro ⟨task, among, names, running⟩
      rcases List.mem_append.mp among with earlier | last
      · exact .inl ⟨task, earlier, names, running⟩
      · rw [List.mem_singleton.mp last] at names
        exact .inr names.symm
    · rintro (⟨task, among, rest⟩ | rfl)
      · exact ⟨task, List.mem_append_left _ among, rest⟩
      · exact ⟨_, List.mem_append_right _ List.mem_cons_self, rfl, rfl⟩

/-- A cancellation is taken: what it names, if it runs, is answered. -/
theorem Sound.cancel (sound : Sound shape serving) (id : RequestId) :
    Sound shape ((serving.heard (.cancel id)).handle (.cancel id)) := by
  have heard : Sound shape (serving.heard (.cancel id)) := {
    registered := { sound.registered with
      taken := fun task mem => List.mem_append_left _ (sound.registered.taken task mem) }
    script := sound.script.cancel }
  dsimp only [Serving.handle]
  split
  · next named token found =>
    have entry : (id, token) ∈ serving.inFlight := by
      obtain rfl : named = id := by simpa using List.find?_some found
      exact List.mem_of_find?_eq_some found
    obtain ⟨task, mem, rfl, rfl, running⟩ := (heard.registered.inFlight _ _).mp entry
    have numbers := heard.registered.numbers
    have tokens := heard.registered.tokens
    -- Only the cancelled request changes, and it no longer runs.
    have kept {other : Served α} (among : other ∈ serving.requests) :
        other.token = task.token ↔ other = task :=
      ⟨fun same => List.inj_on_of_nodup_map tokens among mem same, fun same => same ▸ rfl⟩
    let mark (other : Served α) : Served α :=
      if other.token = task.token then { other with cancelled := true } else other
    have marked (other : Served α) : (mark other).id = other.id ∧ (mark other).token = other.token ∧
        (mark other).request = other.request := by
      dsimp only [mark]
      split <;> exact ⟨rfl, rfl, rfl⟩
    have runs_ (other : RequestId) (number : Nat) : (∃ served ∈ serving.requests.map mark,
        served.id = other ∧ served.token = number ∧ served.cancelled = false) ↔
        (∃ served ∈ serving.requests, served.id = other ∧ served.token = number ∧
          served.cancelled = false) ∧ other ≠ task.id := by
      simp only [List.mem_map, exists_exists_and_eq_and, marked]
      constructor
      · rintro ⟨served, among, rfl, rfl, still⟩
        dsimp only [mark] at still
        split at still
        · cases still
        · next other =>
          refine ⟨⟨served, among, rfl, rfl, still⟩, fun same => other ?_⟩
          rw [heard.registered.same_task mem among same]
      · rintro ⟨⟨served, among, rfl, rfl, still⟩, different⟩
        refine ⟨served, among, rfl, rfl, ?_⟩
        dsimp only [mark]
        rw [if_neg fun same => different (by rw [(kept among).mp same])]
        exact still
    refine {
      registered := {
        tokens := ?_, issued := ?_, numbers := ?_, inFlight := ?_, once := ?_, taken := ?_,
        ended := ?_ }
      script := ?_ }
    · change ((serving.requests.map mark).map Served.token).Nodup
      rw [List.map_map, show Served.token ∘ mark = Served.token from
        funext fun other => (marked other).2.1]
      exact tokens
    · intro other among
      obtain ⟨served, first, rfl⟩ := List.mem_map.mp among
      change (mark served).token < serving.nextToken
      rw [(marked served).2.1]
      exact heard.registered.issued served first
    · change ((serving.requests.map mark).map Served.id).Nodup
      rw [List.map_map, show Served.id ∘ mark = Served.id from
        funext fun other => (marked other).1]
      exact numbers
    · intro other number
      refine Iff.trans ?_ (runs_ other number).symm
      refine Iff.trans List.mem_filter ?_
      refine and_congr (heard.registered.inFlight other number) ?_
      simp
    · exact heard.registered.once.sublist (List.filter_sublist.map Prod.fst)
    · intro other among
      obtain ⟨served, first, rfl⟩ := List.mem_map.mp among
      change ClientFrame.request (mark served).id (mark served).request ∈ _
      rw [(marked served).1, (marked served).2.2]
      exact heard.registered.taken served first
    · intro gone
      have none_ := heard.registered.ended gone
      change serving.requests = [] at none_
      change serving.requests.map mark = []
      rw [none_]
      rfl
    · have settled : Script shape (fun other => serving.Runs other ∧ other ≠ task.id) _ _
          (serving.sent ++ [.error task.id .cancelled, .streamEnd task.id]) (serving.answers ++ []) :=
        heard.script.settle ⟨task, mem, rfl, running⟩ (heard.registered.taken task mem)
          .cancelled (by simp) fun _ => Iff.rfl
      rw [List.append_nil] at settled
      refine settled.runs_iff fun other => ?_
      constructor
      · rintro ⟨served, among, names, still⟩
        obtain ⟨⟨first, among, names, _, still⟩, different⟩ :=
          (runs_ other served.token).mp ⟨served, among, names, rfl, still⟩
        exact ⟨⟨first, among, names, still⟩, different⟩
      · rintro ⟨⟨served, among, names, still⟩, different⟩
        obtain ⟨first, among, names, _, still⟩ :=
          (runs_ other served.token).mpr ⟨⟨served, among, names, rfl, still⟩, different⟩
        exact ⟨first, among, names, still⟩
  · exact heard

/-- A request's first poll while the daemon does not restart. -/
theorem Sound.start (sound : Sound shape serving) (token : Nat) :
    Sound shape { serving with
      requests := serving.requests.map fun other =>
        if other.token = token then { other with started := true } else other } := by
  let mark (other : Served α) : Served α :=
    if other.token = token then { other with started := true } else other
  have marked (other : Served α) : (mark other).id = other.id ∧ (mark other).token = other.token ∧
      (mark other).request = other.request ∧ (mark other).cancelled = other.cancelled := by
    dsimp only [mark]
    split <;> exact ⟨rfl, rfl, rfl, rfl⟩
  have registered := sound.registered
  constructor
  · constructor
    · change ((serving.requests.map mark).map Served.token).Nodup
      rw [List.map_map, show Served.token ∘ mark = Served.token from
        funext fun other => (marked other).2.1]
      exact registered.tokens
    · intro other among
      obtain ⟨served, first, rfl⟩ := List.mem_map.mp among
      change (mark served).token < serving.nextToken
      rw [(marked served).2.1]
      exact registered.issued served first
    · change ((serving.requests.map mark).map Served.id).Nodup
      rw [List.map_map, show Served.id ∘ mark = Served.id from
        funext fun other => (marked other).1]
      exact registered.numbers
    · intro id number
      change _ ↔ ∃ task ∈ serving.requests.map mark, _
      rw [registered.inFlight]
      simp only [List.mem_map, exists_exists_and_eq_and, marked]
    · exact registered.once
    · intro other among
      obtain ⟨served, first, rfl⟩ := List.mem_map.mp among
      change ClientFrame.request (mark served).id (mark served).request ∈ serving.taken
      rw [(marked served).1, (marked served).2.2.1]
      exact registered.taken served first
    · intro gone
      change serving.requests.map mark = []
      rw [registered.ended gone]
      rfl
  · refine sound.script.runs_iff fun id => ?_
    change (∃ task ∈ serving.requests.map mark, _) ↔ _
    simp only [List.mem_map, exists_exists_and_eq_and, marked, Runs]

/-- Whatever still runs is cut off. -/
theorem Sound.hangup (sound : Sound shape serving) :
    Sound shape { serving with phase := .ended, requests := [], inFlight := [] } where
  registered := by
    constructor <;> simp
  script := by
    refine (sound.script.cut fun id => ?_).ended_iff (Iff.intro (fun _ => rfl) fun _ => trivial)
    simp [Runs]

/-- A planned restart answers what still runs and cuts the connection. -/
theorem Sound.interrupt (sound : Sound shape serving) (operation : UpgradeOperation) :
    Sound shape (serving.interrupt operation) where
  registered := by
    constructor <;> simp [Serving.interrupt, Serving.post]
  script := by
    have registered := sound.registered
    have runs_ (id : RequestId) : serving.Runs id ↔ id ∈ serving.inFlight.map Prod.fst := by
      rw [List.mem_map]
      constructor
      · rintro ⟨task, mem, rfl, running⟩
        exact ⟨(task.id, task.token),
          (registered.inFlight _ _).mpr ⟨task, mem, rfl, rfl, running⟩, rfl⟩
      · rintro ⟨⟨id, token⟩, among, rfl⟩
        obtain ⟨task, mem, names, _, running⟩ := (registered.inFlight id token).mp among
        exact ⟨task, mem, names, running⟩
    have told := sound.script.interrupt registered.once (fun id mem => (runs_ id).mpr mem)
      operation.id
    rw [List.map_map] at told
    refine (told.cut fun id => ?_).ended_iff (Iff.intro (fun _ => rfl) fun _ => trivial)
    simp [Runs, Serving.interrupt, Serving.post]

theorem runningTask_eq_some {token : Nat} (found : serving.runningTask token = some task) :
    task ∈ serving.requests ∧ task.cancelled = false := by
  refine ⟨List.mem_of_find?_eq_some found, ?_⟩
  have running := List.find?_some found
  simp only [Bool.and_eq_true, Bool.not_eq_eq_eq_not, Bool.not_true] at running
  exact running.1.2

/-- What keeps a request's number unused: it was not taken, and is positive. -/
def Fresh (serving : Serving α) : Input α → Prop
  | .take (.request id _) => id ∉ Client.requested serving.taken ∧ 0 < id
  | _ => True

/-- Every step keeps a connection sound, as long as no number is used twice. -/
theorem Sound.step (sound : Sound shape serving) {input : Input α} (fresh : serving.Fresh input) :
    Sound shape (serving.step shape input) := by
  cases input with
  | restart operation => exact { registered := { sound.registered with }, script := sound.script }
  | take frame =>
    dsimp only [Serving.step]
    split
    · next reading =>
      have open_ : serving.phase ≠ .ended := by
        rw [reading]
        exact fun same => nomatch same
      cases frame with
      | request id request =>
        exact (sound.request open_ fresh.1 fresh.2).announce open_
      | cancel id =>
        refine (sound.cancel id).announce ?_
        dsimp only [Serving.handle]
        split <;> exact open_
    · exact sound
  | poll token =>
    dsimp only [Serving.step]
    split
    · next task found =>
      have mem := List.mem_of_find?_eq_some found
      split
      · next cancelled => exact sound.reap mem cancelled
      · next running =>
        split
        · exact sound
        · split
          · next operation _ =>
            exact sound.finish_stream mem (by simpa using running) (.restarting operation.id)
              (by simp)
          · exact sound.start token
    · exact sound
  | item token item =>
    dsimp only [Serving.step]
    split
    · next task found =>
      obtain ⟨mem, running⟩ := runningTask_eq_some found
      split
      · exact {
          registered := { sound.registered with }
          script := sound.script.item ⟨task, mem, rfl, running⟩ item }
      · exact sound
    · exact sound
  | answer token result =>
    dsimp only [Serving.step]
    split
    · next task found =>
      obtain ⟨mem, running⟩ := runningTask_eq_some found
      split
      · next single =>
        cases result with
        | ok response =>
          exact sound.finish mem running (.response response single) (by simp)
        | error error =>
          exact sound.finish mem running (.failure error single) (by simp)
      · exact sound
    · exact sound
  | complete token error =>
    dsimp only [Serving.step]
    split
    · next task found =>
      obtain ⟨mem, running⟩ := runningTask_eq_some found
      split
      · next stream =>
        have terminal : Terminal (shape task.request) task.id
            (error.toList.map (ServerMsg.error task.id) ++ [.streamEnd task.id]) := by
          cases error with
          | none => exact .finished stream
          | some error => exact .broken error stream
        exact sound.finish_stream mem running terminal (by simp)
      · exact sound
    · exact sound
  | notice =>
    dsimp only [Serving.step]
    split
    · next reading =>
      refine sound.announce ?_
      rw [reading]
      exact fun same => nomatch same
    · exact sound
  | drained =>
    dsimp only [Serving.step]
    split
    · split
      · exact sound.interrupt _
      · exact sound
    · exact sound
  | deadline =>
    dsimp only [Serving.step]
    split
    · exact sound.interrupt _
    · exact sound
  | hangup => exact sound.hangup
  | event event | treeDelta delta =>
    dsimp only [Serving.step]
    split
    · exact sound
    · exact {
        registered := { sound.registered with }
        script := sound.script.idle (by simp [names]) (by simp) }
  | lagged oldest =>
    dsimp only [Serving.step]
    split
    · exact sound
    · refine {
        registered := { sound.registered with }
        script := sound.script.idle ?_ (by simp) }
      intro msg mem id positive
      rw [List.mem_singleton.mp mem]
      simpa [names] using (Nat.ne_of_gt positive).symm

end Flight

end Serving

end Nits.Nitsd
