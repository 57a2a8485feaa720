import Nits.Protocol.Rpc

/-!
# The daemon's own client

Calls register under the lock that the final cleanup takes, and the connection's task hands
each message of the daemon to the call it names. The task owns both directions: when either
ends, both end, and the cleanup tells every call that still waits. What is queued for the
daemon and what has reached it are one queue here, of which the daemon reads a prefix.
-/

namespace Nits.Nitsd

open Protocol

/-- What a request is answered with. -/
inductive ResponseShape
  | single | stream
  deriving DecidableEq

/-- What a client sends once the connection is negotiated. -/
inductive ClientFrame (α : Type)
  | request (id : RequestId) (request : α)
  | cancel (id : RequestId)

/-- Why a call failed. -/
inductive ClientError
  | closed
  | rpc (error : RpcError)
  deriving DecidableEq

/-- What reaches a client under no request of its own. -/
inductive Unsolicited
  | lifecycle (operation : UpgradeOperation)
  | event (event : Event)
  | treeDelta (delta : TreeDelta)
  | error (error : RpcError)

/-- Who waits for a response: one receiver of one, or the receiver of a stream. -/
inductive Pending
  | single | stream
  deriving DecidableEq

/-- Registration and final cleanup share one lock: a closed connection never acquires a
pending request. -/
inductive ConnectionState
  | opened (pending : List (RequestId × Pending))
  | closed

/-- What callers are told. -/
inductive Notice
  /-- A single request has its outcome. -/
  | resolved (id : RequestId) (outcome : Except ClientError Response)
  /-- A stream was refused because the connection is closed. -/
  | refused (id : RequestId)
  /-- A stream's receiver was handed something. -/
  | delivered (id : RequestId) (result : Except ClientError StreamItem)
  /-- A stream's receiver has ended. -/
  | ended (id : RequestId)
  deriving DecidableEq

/-- The connection's task: it runs, has stopped reading and writing, or is gone. -/
inductive Io
  | running | closing | ended
  deriving DecidableEq

/-- A connected client. The last three fields are kept for the record only: what was heard
from the daemon, every call, and what the callers were told. -/
structure Client (α : Type) where
  nextId : RequestId
  state : ConnectionState
  io : Io
  dropped : Bool
  out : List (ClientFrame α)
  unsolicited : List Unsolicited
  heard : List ServerMsg
  calls : List (RequestId × Pending × α)
  told : List Notice

namespace Client

variable {α : Type}

/-- A client whose handshake is done. -/
def welcomed : Client α := ⟨1, .opened [], .running, false, [], [], [], [], []⟩

/-- What a waiter is told when the connection closes. A stream that ends without its end
must not look complete. -/
def farewell : RequestId × Pending → List Notice
  | (id, .single) => [.resolved id (.error .closed)]
  | (id, .stream) => [.delivered id (.error .closed), .ended id]

/-- What a waiter is told when its sender is dropped. -/
def orphaned : RequestId × Pending → List Notice
  | (id, .single) => [.resolved id (.error .closed)]
  | (id, .stream) => [.ended id]

/-- The final cleanup. -/
def close (client : Client α) : Client α :=
  match client.state with
  | .opened pending =>
    { client with state := .closed, told := client.told ++ pending.flatMap farewell }
  | .closed => client

/-- Register a call and send its request. The number is used up however that ends. -/
def call (client : Client α) (kind : Pending) (request : α) : Client α :=
  let id := client.nextId
  let called := { client with nextId := id + 1, calls := client.calls ++ [(id, kind, request)] }
  match client.state with
  | .closed =>
    match kind with
    | .single => { called with told := client.told ++ [.resolved id (.error .closed)] }
    | .stream => { called with told := client.told ++ [.refused id] }
  | .opened pending =>
    let registered := { called with state := .opened (pending ++ [(id, kind)]) }
    if client.io = .running then { registered with out := client.out ++ [.request id request] }
    else registered.close

/-- Ask the daemon to stop a request early. -/
def cancel (client : Client α) (id : RequestId) : Client α :=
  if client.io = .running then { client with out := client.out ++ [.cancel id] } else client

def tell (client : Client α) (notes : List Notice) : Client α :=
  { client with told := client.told ++ notes }

/-- The waiter that a message is for. -/
def waiter (pending : List (RequestId × Pending)) (id : RequestId) : Option Pending :=
  (pending.find? fun entry => entry.1 = id).map Prod.snd

/-- The waiters without one. -/
def without (pending : List (RequestId × Pending)) (id : RequestId) : List (RequestId × Pending) :=
  pending.filter fun entry => entry.1 ≠ id

def queue (client : Client α) (message : Unsolicited) : Client α :=
  { client with unsolicited := client.unsolicited ++ [message] }

/-- Hand a message to the call it names. -/
def dispatch (client : Client α) (msg : ServerMsg) : Client α :=
  match client.state with
  | .closed => client
  | .opened pending =>
    match msg with
    | .restarting operation => client.queue (.lifecycle operation)
    | .response id response =>
      let left := { client with state := .opened (without pending id) }
      match waiter pending id with
      | some .single => left.tell [.resolved id (.ok response)]
      -- The stream's sender goes with its entry.
      | some .stream => left.tell [.ended id]
      | none => left
    | .streamItem id item =>
      match waiter pending id with
      | some .stream => client.tell [.delivered id (.ok item)]
      | _ => client
    | .streamEnd id =>
      let left := { client with state := .opened (without pending id) }
      match waiter pending id with
      | some .single => left.tell [.resolved id (.error .closed)]
      | some .stream => left.tell [.ended id]
      | none => left
    | .error id error =>
      if id = 0 then client.queue (.error error)
      else match waiter pending id with
        | some .single =>
          { client with state := .opened (without pending id) }.tell
            [.resolved id (.error (.rpc error))]
        -- The stream stays registered until its end.
        | some .stream => client.tell [.delivered id (.error (.rpc error))]
        | none => client
    | .event event => client.queue (.event event)
    | .treeDelta delta => client.queue (.treeDelta delta)
    | .welcome | .rejected _ => client

/-- What the client does or hears. -/
inductive Input (α : Type)
  | call (kind : Pending) (request : α)
  | cancel (id : RequestId)
  /-- The task reads a message. -/
  | receive (msg : ServerMsg)
  /-- A caller takes an unsolicited message. -/
  | poll
  /-- Reading or writing ends. -/
  | fail
  /-- The task's final cleanup. -/
  | close
  /-- The last owner drops the client. -/
  | drop
  /-- The task is aborted, which only a dropped client asks for. -/
  | abort

/-- One step of the client. -/
def step (client : Client α) : Input α → Client α
  | .call kind request => if client.dropped then client else client.call kind request
  | .cancel id => if client.dropped then client else client.cancel id
  | .receive msg =>
    if client.io = .running then { client with heard := client.heard ++ [msg] }.dispatch msg
    else client
  | .poll => { client with unsolicited := client.unsolicited.tail }
  | .fail => if client.io = .running then { client with io := .closing } else client
  | .close => if client.io = .closing then { client.close with io := .ended } else client
  | .drop => { client with dropped := true }
  | .abort =>
    if client.dropped ∧ client.io ≠ .ended then
      match client.state with
      | .opened pending =>
        { client with
          state := .closed, io := .ended, told := client.told ++ pending.flatMap orphaned }
      | .closed => { client with io := .ended }
    else client

/-! ## Calls and what they are told -/

/-- The outcomes that a single request was told. -/
def outcomes (told : List Notice) (id : RequestId) : List (Except ClientError Response) :=
  told.filterMap fun
    | .resolved other outcome => if other = id then some outcome else none
    | _ => none

/-- The calls that wait. -/
def waiting (client : Client α) : List (RequestId × Pending) :=
  match client.state with
  | .opened pending => pending
  | .closed => []

/-- The numbers of the requests among some frames. -/
def requested (frames : List (ClientFrame α)) : List RequestId :=
  frames.filterMap fun
    | .request id _ => some id
    | .cancel _ => none

/-- A message that ends the wait of a single request. -/
def Settles (id : RequestId) (msg : ServerMsg) : Prop :=
  (∃ response, msg = .response id response) ∨ (∃ error, msg = .error id error) ∨ msg = .streamEnd id

/-- What keeps the calls of a client and what they were told in step. -/
structure Sound (client : Client α) : Prop where
  /-- Numbers are used once, from one on. -/
  positive : 0 < client.nextId
  issued : ∀ call ∈ client.calls, 0 < call.1 ∧ call.1 < client.nextId
  distinct : (client.calls.map Prod.fst).Nodup
  waitsOnce : (client.waiting.map Prod.fst).Nodup
  /-- Whoever waits has called, and the request was sent. -/
  sent : ∀ entry ∈ client.waiting, ∃ request, (entry.1, entry.2, request) ∈ client.calls ∧
    .request entry.1 request ∈ client.out
  named : ∀ id request, .request id request ∈ client.out →
    ∃ kind, (id, kind, request) ∈ client.calls
  numbered : (requested client.out).Nodup
  /-- A single request waits, or has one outcome. -/
  once : ∀ id request, (id, .single, request) ∈ client.calls →
    ((id, .single) ∈ client.waiting ∧ outcomes client.told id = []) ∨
      ((id, .single) ∉ client.waiting ∧ ∃ outcome, outcomes client.told id = [outcome])
  /-- Outcomes are those of single requests. -/
  single : ∀ id outcome, .resolved id outcome ∈ client.told →
    ∃ request, (id, .single, request) ∈ client.calls
  answered : ∀ id response, .resolved id (.ok response) ∈ client.told →
    .response id response ∈ client.heard
  failed : ∀ id error, .resolved id (.error (.rpc error)) ∈ client.told →
    .error id error ∈ client.heard
  lost : ∀ id, .resolved id (.error .closed) ∈ client.told →
    client.state = .closed ∨ .streamEnd id ∈ client.heard
  /-- A single request that waits has heard nothing that settles it. -/
  unsettled : ∀ id, (id, .single) ∈ client.waiting → ∀ msg ∈ client.heard, ¬ Settles id msg
  /-- A task that is gone has left nobody waiting. -/
  shut : client.io = .ended → client.state = .closed

/-! ## Waiters -/

section Waiters

variable {pending : List (RequestId × Pending)} {id : RequestId} {kind : Pending}

theorem mem_without {entry : RequestId × Pending} :
    entry ∈ without pending id ↔ entry ∈ pending ∧ entry.1 ≠ id := by
  simp [without]

theorem waiter_mem (found : waiter pending id = some kind) : (id, kind) ∈ pending := by
  obtain ⟨⟨other, stored⟩, first, rfl⟩ := Option.map_eq_some_iff.mp found
  obtain rfl : other = id := by simpa using List.find?_some first
  exact List.mem_of_find?_eq_some first

theorem waiter_eq_none (absent : waiter pending id = none) (kind : Pending) :
    (id, kind) ∉ pending := by
  intro mem
  have unlike := List.find?_eq_none.mp (Option.map_eq_none_iff.mp absent) _ mem
  simp at unlike

theorem without_eq_self (absent : waiter pending id = none) : without pending id = pending := by
  refine List.filter_eq_self.mpr fun entry mem => ?_
  simp only [ne_eq, decide_not, Bool.not_eq_eq_eq_not, Bool.not_true, decide_eq_false_iff_not]
  rintro rfl
  exact waiter_eq_none absent entry.2 mem

/-- A waiter waits for one thing. -/
theorem kind_unique (once : (pending.map Prod.fst).Nodup) {other : Pending}
    (first : (id, kind) ∈ pending) (second : (id, other) ∈ pending) : kind = other :=
  (Prod.mk.inj (List.inj_on_of_nodup_map once first second rfl)).2

theorem waiter_eq_some (once : (pending.map Prod.fst).Nodup) (mem : (id, kind) ∈ pending) :
    waiter pending id = some kind := by
  cases found : waiter pending id with
  | none => exact absurd mem (waiter_eq_none found kind)
  | some other => rw [kind_unique once (waiter_mem found) mem]

theorem outcomes_append (told more : List Notice) :
    outcomes (told ++ more) id = outcomes told id ++ outcomes more id :=
  List.filterMap_append

/-- What a farewell and an orphan's end have in common for single requests. -/
theorem outcomes_parting {parting : RequestId × Pending → List Notice}
    (single : ∀ id, parting (id, .single) = [.resolved id (.error .closed)])
    (stream : ∀ id other, outcomes (parting (id, .stream)) other = [])
    (once : (pending.map Prod.fst).Nodup) :
    outcomes (pending.flatMap parting) id =
      if (id, .single) ∈ pending then [.error .closed] else [] := by
  induction pending with
  | nil => rfl
  | cons entry rest ih =>
    obtain ⟨other, kind⟩ := entry
    obtain ⟨fresh, once⟩ := List.nodup_cons.mp once
    rw [List.flatMap_cons, outcomes_append, ih once]
    cases kind with
    | single =>
      rw [single]
      by_cases same : other = id
      · subst same
        have gone : (other, Pending.single) ∉ rest := fun mem =>
          fresh (List.mem_map.mpr ⟨_, mem, rfl⟩)
        simp [outcomes, gone]
      · simp [outcomes, same, Ne.symm same]
    | stream =>
      rw [stream]
      simp

end Waiters

section Steps

variable {client : Client α}

theorem welcomed_sound : (welcomed : Client α).Sound where
  positive := Nat.one_pos
  issued := by simp [welcomed]
  distinct := by simp [welcomed]
  waitsOnce := by simp [welcomed, waiting]
  sent := by simp [welcomed, waiting]
  named := by simp [welcomed]
  numbered := by simp [welcomed, requested]
  once := by simp [welcomed]
  single := by simp [welcomed]
  answered := by simp [welcomed]
  failed := by simp [welcomed]
  lost := by simp [welcomed]
  unsettled := by simp [welcomed]
  shut := by simp [welcomed]

/-- A message that settles no waiting request is heard. -/
theorem Sound.hear (sound : client.Sound) {msg : ServerMsg}
    (quiet : ∀ id, (id, .single) ∈ client.waiting → ¬ Settles id msg) :
    Sound { client with heard := client.heard ++ [msg] } := by
  refine { sound with
    answered := fun id response told => List.mem_append_left _ (sound.answered id response told)
    failed := fun id error told => List.mem_append_left _ (sound.failed id error told)
    lost := fun id told => (sound.lost id told).imp_right (List.mem_append_left _)
    unsettled := ?_ }
  intro id waits other mem
  rcases List.mem_append.mp mem with earlier | last
  · exact sound.unsettled id waits other earlier
  · rw [List.mem_singleton.mp last]
    exact quiet id waits

/-- Telling callers what is no outcome. -/
theorem Sound.tell (sound : client.Sound) {notes : List Notice}
    (other : ∀ id outcome, Notice.resolved id outcome ∉ notes) : (client.tell notes).Sound := by
  have before {id : RequestId} {outcome : Except ClientError Response}
      (mem : Notice.resolved id outcome ∈ client.told ++ notes) :
      Notice.resolved id outcome ∈ client.told :=
    (List.mem_append.mp mem).resolve_right (other id outcome)
  have none_ (id : RequestId) : outcomes notes id = [] := by
    refine List.filterMap_eq_nil_iff.mpr fun note mem => ?_
    cases note with
    | resolved id outcome => exact absurd mem (other id outcome)
    | _ => rfl
  have same (id : RequestId) : outcomes (client.told ++ notes) id = outcomes client.told id := by
    rw [outcomes_append, none_, List.append_nil]
  exact { sound with
    once := fun id request called => by
      have once := sound.once id request called
      rw [← same id] at once
      exact once
    single := fun id outcome told => sound.single id outcome (before told)
    answered := fun id response told => sound.answered id response (before told)
    failed := fun id error told => sound.failed id error (before told)
    lost := fun id told => sound.lost id (before told) }

/-- A message that a waiter leaves with, and what it is told. -/
inductive Departs (id : RequestId) : Pending → ServerMsg → Notice → Prop
  | answered (response : Response) :
    Departs id .single (.response id response) (.resolved id (.ok response))
  | failed (error : RpcError) : Departs id .single (.error id error) (.resolved id (.error (.rpc error)))
  | lost : Departs id .single (.streamEnd id) (.resolved id (.error .closed))
  | finished : Departs id .stream (.streamEnd id) (.ended id)
  | dropped (response : Response) : Departs id .stream (.response id response) (.ended id)

section Departures

variable {id other : RequestId} {kind : Pending} {msg : ServerMsg} {note : Notice}

theorem Departs.own (departs : Departs id kind msg note) (settles : Settles other msg) :
    other = id := by
  cases departs <;> simp [Settles] at settles <;> exact settles.symm

theorem Departs.outcomes_other (departs : Departs id kind msg note) (different : other ≠ id) :
    outcomes [note] other = [] := by
  cases departs <;> simp [outcomes, Ne.symm different]

theorem Departs.outcomes_own (departs : Departs id .single msg note) :
    ∃ outcome, outcomes [note] id = [outcome] := by
  cases departs <;> simp [outcomes]

end Departures

/-- A waiter leaves with what it is told. -/
theorem Sound.leave (sound : client.Sound) {pending : List (RequestId × Pending)}
    (open_ : client.state = .opened pending) {id : RequestId} {kind : Pending}
    (waits : (id, kind) ∈ pending) {msg : ServerMsg} {note : Notice}
    (departs : Departs id kind msg note) :
    Sound { client with
      state := .opened (without pending id), heard := client.heard ++ [msg],
      told := client.told ++ [note] } := by
  have waiting_ : client.waiting = pending := by rw [waiting, open_]
  have still {entry : RequestId × Pending} (mem : entry ∈ without pending id) :
      entry ∈ client.waiting := by
    rw [waiting_]
    exact (mem_without.mp mem).1
  have once_ := sound.waitsOnce
  rw [waiting_] at once_
  obtain ⟨asked, called_, _⟩ := sound.sent (id, kind) (waiting_ ▸ waits)
  have told_ {entry : Notice} (mem : entry ∈ client.told ++ [note]) :
      entry ∈ client.told ∨ entry = note :=
    (List.mem_append.mp mem).imp_right List.mem_singleton.mp
  exact { sound with
    waitsOnce := once_.sublist (List.filter_sublist.map Prod.fst)
    sent := fun entry mem => sound.sent entry (still mem)
    once := by
      intro other request called
      rw [outcomes_append]
      by_cases same : other = id
      · subst same
        have same := List.inj_on_of_nodup_map sound.distinct called called_ rfl
        obtain rfl : kind = .single := (Prod.mk.inj (Prod.mk.inj same).2).1.symm
        refine .inr ⟨fun mem => (mem_without.mp mem).2 rfl, ?_⟩
        rcases sound.once other request called with ⟨_, none_⟩ | ⟨gone, _⟩
        · rw [none_]
          exact departs.outcomes_own
        · exact absurd (waiting_ ▸ waits) gone
      · rw [departs.outcomes_other same, List.append_nil]
        rcases sound.once other request called with ⟨waits, none_⟩ | ⟨gone, told⟩
        · exact .inl ⟨mem_without.mpr ⟨waiting_ ▸ waits, same⟩, none_⟩
        · exact .inr ⟨fun mem => gone (still mem), told⟩
    single := by
      intro other outcome told
      rcases told_ told with earlier | rfl
      · exact sound.single other outcome earlier
      · cases departs <;> exact ⟨asked, called_⟩
    answered := by
      intro other response told
      rcases told_ told with earlier | rfl
      · exact List.mem_append_left _ (sound.answered other response earlier)
      · cases departs
        exact List.mem_append_right _ List.mem_cons_self
    failed := by
      intro other error told
      rcases told_ told with earlier | rfl
      · exact List.mem_append_left _ (sound.failed other error earlier)
      · cases departs
        exact List.mem_append_right _ List.mem_cons_self
    lost := by
      intro other told
      rcases told_ told with earlier | rfl
      · rcases sound.lost other earlier with closed | ended
        · rw [open_] at closed
          cases closed
        · exact .inr (List.mem_append_left _ ended)
      · cases departs
        exact .inr (List.mem_append_right _ List.mem_cons_self)
    unsettled := by
      intro other waits_ heard_ mem settles
      have kept := mem_without.mp waits_
      rcases List.mem_append.mp mem with earlier | last
      · exact sound.unsettled other (still waits_) heard_ earlier settles
      · rw [List.mem_singleton.mp last] at settles
        exact kept.2 (departs.own settles)
    shut := fun gone => by
      have closed := sound.shut gone
      rw [open_] at closed
      cases closed }

/-- Everybody leaves: waiting requests are told that the connection is closed. -/
theorem Sound.part (sound : client.Sound) {parting : RequestId × Pending → List Notice}
    (single : ∀ id, parting (id, .single) = [.resolved id (.error .closed)])
    (stream : ∀ id note, note ∈ parting (id, .stream) → ∀ other outcome,
      note ≠ .resolved other outcome) (io : Io) :
    Sound { client with
      state := .closed, io, told := client.told ++ client.waiting.flatMap parting } := by
  have silent (id other : RequestId) : outcomes (parting (id, .stream)) other = [] := by
    refine List.filterMap_eq_nil_iff.mpr fun note mem => ?_
    cases note with
    | resolved named outcome => exact absurd rfl (stream id _ mem named outcome)
    | _ => rfl
  have told_ {id : RequestId} {outcome : Except ClientError Response}
      (mem : Notice.resolved id outcome ∈ client.told ++ client.waiting.flatMap parting) :
      Notice.resolved id outcome ∈ client.told ∨
        (id, .single) ∈ client.waiting ∧ outcome = .error .closed := by
    refine (List.mem_append.mp mem).imp_right fun parted => ?_
    obtain ⟨⟨other, kind⟩, waits, note⟩ := List.mem_flatMap.mp parted
    cases kind with
    | single =>
      rw [single] at note
      cases List.mem_singleton.mp note
      exact ⟨waits, rfl⟩
    | stream => exact absurd rfl (stream other _ note id outcome)
  exact { sound with
    waitsOnce := List.nodup_nil
    sent := fun entry mem => absurd mem List.not_mem_nil
    once := by
      intro id request called
      refine .inr ⟨List.not_mem_nil, ?_⟩
      rw [outcomes_append, outcomes_parting single silent sound.waitsOnce]
      rcases sound.once id request called with ⟨waits, none_⟩ | ⟨gone, told⟩
      · rw [none_, if_pos waits]
        exact ⟨_, rfl⟩
      · rw [if_neg gone, List.append_nil]
        exact told
    single := by
      intro id outcome told
      rcases told_ told with earlier | ⟨waits, _⟩
      · exact sound.single id outcome earlier
      · obtain ⟨request, called, _⟩ := sound.sent _ waits
        exact ⟨request, called⟩
    answered := by
      intro id response told
      rcases told_ told with earlier | ⟨_, same⟩
      · exact sound.answered id response earlier
      · cases same
    failed := by
      intro id error told
      rcases told_ told with earlier | ⟨_, same⟩
      · exact sound.failed id error earlier
      · cases same
    lost := fun id told => .inl rfl
    unsettled := fun id waits => absurd waits List.not_mem_nil
    shut := fun _ => rfl }

theorem farewell_single (id : RequestId) :
    farewell (id, .single) = [.resolved id (.error .closed)] :=
  rfl

theorem orphaned_single (id : RequestId) :
    orphaned (id, .single) = [.resolved id (.error .closed)] :=
  rfl

theorem farewell_stream (id : RequestId) (note : Notice) (mem : note ∈ farewell (id, .stream))
    (other : RequestId) (outcome : Except ClientError Response) : note ≠ .resolved other outcome := by
  rintro rfl
  simp [farewell] at mem

theorem orphaned_stream (id : RequestId) (note : Notice) (mem : note ∈ orphaned (id, .stream))
    (other : RequestId) (outcome : Except ClientError Response) : note ≠ .resolved other outcome := by
  rintro rfl
  simp [orphaned] at mem

theorem Sound.close (sound : client.Sound) (io : Io) : Sound { client.close with io } := by
  unfold Client.close
  split
  · next pending open_ =>
    have parted := sound.part farewell_single farewell_stream io
    rw [waiting, open_] at parted
    exact parted
  · next closed => exact { sound with shut := fun _ => closed }

theorem requested_append (frames more : List (ClientFrame α)) :
    requested (frames ++ more) = requested frames ++ requested more :=
  List.filterMap_append

theorem mem_requested {frames : List (ClientFrame α)} {id : RequestId} :
    id ∈ requested frames ↔ ∃ request, .request id request ∈ frames := by
  rw [requested, List.mem_filterMap]
  constructor
  · rintro ⟨frame, mem, names⟩
    cases frame with
    | request other request =>
      obtain rfl := Option.some.inj names
      exact ⟨request, mem⟩
    | cancel other => cases names
  · rintro ⟨request, mem⟩
    exact ⟨_, mem, rfl⟩

/-- Requests of one number are one request. -/
theorem request_unique {frames : List (ClientFrame α)} (numbered : (requested frames).Nodup)
    {id : RequestId} {first second : α} (one : .request id first ∈ frames)
    (two : .request id second ∈ frames) : first = second := by
  induction frames with
  | nil => cases one
  | cons frame rest ih =>
    rw [← List.singleton_append, requested_append] at numbered
    obtain ⟨_, numbered_, apart⟩ := List.nodup_append.mp numbered
    have head {request : α} (same : frame = .request id request) {other : α}
        (later : .request id other ∈ rest) : False := by
      subst same
      exact apart id (by simp [requested]) id (mem_requested.mpr ⟨other, later⟩) rfl
    rcases List.mem_cons.mp one with same | one
    · rcases List.mem_cons.mp two with again | two
      · exact (ClientFrame.request.inj (same.trans again.symm)).2
      · exact (head same.symm two).elim
    · rcases List.mem_cons.mp two with again | two
      · exact (head again.symm one).elim
      · exact ih numbered_ one two

/-- Nothing has been told under a number that is not in use. -/
theorem Sound.untold (sound : client.Sound) {id : RequestId} (free : client.nextId ≤ id) :
    outcomes client.told id = [] := by
  refine List.filterMap_eq_nil_iff.mpr fun note mem => ?_
  cases note with
  | resolved other outcome =>
    refine if_neg ?_
    rintro rfl
    obtain ⟨request, called⟩ := sound.single other outcome mem
    exact absurd (Nat.lt_of_lt_of_le (sound.issued _ called).2 free) (Nat.lt_irrefl _)
  | _ => rfl

theorem Sound.fresh (sound : client.Sound) : client.nextId ∉ client.calls.map Prod.fst := by
  intro mem
  obtain ⟨call, called, same⟩ := List.mem_map.mp mem
  exact absurd (same ▸ (sound.issued call called).2) (Nat.lt_irrefl _)

/-- A call takes a number that no call has. -/
theorem Sound.next_call (sound : client.Sound) (kind : Pending) (request : α) :
    (∀ call ∈ client.calls ++ [(client.nextId, kind, request)],
      0 < call.1 ∧ call.1 < client.nextId + 1) ∧
    ((client.calls ++ [(client.nextId, kind, request)]).map Prod.fst).Nodup := by
  constructor
  · intro call mem
    rcases List.mem_append.mp mem with earlier | last
    · exact ⟨(sound.issued call earlier).1, Nat.lt_succ_of_lt (sound.issued call earlier).2⟩
    · rw [List.mem_singleton.mp last]
      exact ⟨sound.positive, Nat.lt_succ_self _⟩
  · rw [List.map_append, List.nodup_append]
    refine ⟨sound.distinct, List.nodup_singleton _, ?_⟩
    rintro id mem _ last rfl
    rw [List.mem_singleton.mp last] at mem
    exact sound.fresh mem

/-- A call that is told at once, or told nothing because it is a stream's. -/
theorem Sound.call_closed (sound : client.Sound) (closed : client.state = .closed) (kind : Pending)
    (request : α) {note : Notice}
    (fits : note = .resolved client.nextId (.error .closed) ∧ kind = .single ∨
      note = .refused client.nextId ∧ kind = .stream) :
    Sound { client with
      nextId := client.nextId + 1, calls := client.calls ++ [(client.nextId, kind, request)],
      told := client.told ++ [note] } := by
  have nobody : client.waiting = [] := by rw [waiting, closed]
  have told_ {id : RequestId} {outcome : Except ClientError Response}
      (mem : Notice.resolved id outcome ∈ client.told ++ [note]) :
      Notice.resolved id outcome ∈ client.told ∨
        id = client.nextId ∧ outcome = .error .closed ∧ kind = .single := by
    refine (List.mem_append.mp mem).imp_right fun last => ?_
    rcases fits with ⟨rfl, single⟩ | ⟨rfl, _⟩
    · cases List.mem_singleton.mp last
      exact ⟨rfl, rfl, single⟩
    · cases List.mem_singleton.mp last
  exact { sound with
    positive := Nat.succ_pos _
    issued := (sound.next_call kind request).1
    distinct := (sound.next_call kind request).2
    sent := fun entry mem => by
      change entry ∈ client.waiting at mem
      rw [nobody] at mem
      cases mem
    named := fun id request sent => by
      obtain ⟨kind, called⟩ := sound.named id request sent
      exact ⟨kind, List.mem_append_left _ called⟩
    once := by
      intro id asked mem
      rw [outcomes_append]
      refine .inr ⟨by change _ ∉ client.waiting; rw [nobody]; exact List.not_mem_nil, ?_⟩
      rcases List.mem_append.mp mem with earlier | last
      · have old := (sound.issued _ earlier).2
        have none_ : outcomes [note] id = [] := by
          rcases fits with ⟨rfl, _⟩ | ⟨rfl, _⟩ <;> simp [outcomes, (Nat.ne_of_lt old).symm]
        rw [none_, List.append_nil]
        rcases sound.once id asked earlier with ⟨waits, _⟩ | ⟨_, told⟩
        · rw [nobody] at waits
          cases waits
        · exact told
      · cases List.mem_singleton.mp last
        rw [sound.untold (Nat.le_refl _)]
        rcases fits with ⟨rfl, _⟩ | ⟨_, other⟩
        · simp [outcomes]
        · cases other
    single := by
      intro id outcome mem
      rcases told_ mem with earlier | ⟨rfl, _, rfl⟩
      · obtain ⟨asked, called⟩ := sound.single id outcome earlier
        exact ⟨asked, List.mem_append_left _ called⟩
      · exact ⟨request, List.mem_append_right _ List.mem_cons_self⟩
    answered := by
      intro id response mem
      rcases told_ mem with earlier | ⟨_, same, _⟩
      · exact sound.answered id response earlier
      · cases same
    failed := by
      intro id error mem
      rcases told_ mem with earlier | ⟨_, same, _⟩
      · exact sound.failed id error earlier
      · cases same
    lost := fun _ _ => .inl closed }

/-- A call that waits for what its request is answered with. -/
theorem Sound.register (sound : client.Sound) {pending : List (RequestId × Pending)}
    (open_ : client.state = .opened pending) (kind : Pending) (request : α)
    (deaf : ∀ msg ∈ client.heard, ¬ Settles client.nextId msg) :
    Sound { client with
      nextId := client.nextId + 1, calls := client.calls ++ [(client.nextId, kind, request)],
      state := .opened (pending ++ [(client.nextId, kind)]),
      out := client.out ++ [.request client.nextId request] } := by
  have waiting_ : client.waiting = pending := by rw [waiting, open_]
  have issued_ {entry : RequestId × Pending} (mem : entry ∈ pending) :
      entry.1 < client.nextId := by
    obtain ⟨_, called, _⟩ := sound.sent entry (waiting_ ▸ mem)
    exact (sound.issued _ called).2
  have unsent : client.nextId ∉ requested client.out := by
    intro mem
    obtain ⟨_, sent⟩ := mem_requested.mp mem
    obtain ⟨_, called⟩ := sound.named _ _ sent
    exact absurd (sound.issued _ called).2 (Nat.lt_irrefl _)
  exact { sound with
    positive := Nat.succ_pos _
    issued := (sound.next_call kind request).1
    distinct := (sound.next_call kind request).2
    waitsOnce := by
      change ((pending ++ [(client.nextId, kind)]).map Prod.fst).Nodup
      rw [List.map_append, List.nodup_append]
      refine ⟨waiting_ ▸ sound.waitsOnce, List.nodup_singleton _, ?_⟩
      rintro id mem _ last rfl
      obtain ⟨entry, waits, same⟩ := List.mem_map.mp mem
      rw [List.mem_singleton.mp last] at same
      exact absurd (same ▸ issued_ waits) (Nat.lt_irrefl _)
    sent := by
      intro entry mem
      rcases List.mem_append.mp mem with earlier | last
      · obtain ⟨asked, called, sent⟩ := sound.sent entry (waiting_ ▸ earlier)
        exact ⟨asked, List.mem_append_left _ called, List.mem_append_left _ sent⟩
      · rw [List.mem_singleton.mp last]
        exact ⟨request, List.mem_append_right _ List.mem_cons_self,
          List.mem_append_right _ List.mem_cons_self⟩
    named := by
      intro id asked mem
      rcases List.mem_append.mp mem with earlier | last
      · obtain ⟨kind, called⟩ := sound.named id asked earlier
        exact ⟨kind, List.mem_append_left _ called⟩
      · cases List.mem_singleton.mp last
        exact ⟨kind, List.mem_append_right _ List.mem_cons_self⟩
    numbered := by
      rw [requested_append, List.nodup_append]
      refine ⟨sound.numbered, List.nodup_singleton _, ?_⟩
      rintro id mem _ last rfl
      rw [List.mem_singleton.mp last] at mem
      exact unsent mem
    once := by
      intro id asked mem
      change (id, Pending.single) ∈ pending ++ [(client.nextId, kind)] ∧ _ ∨
        (id, Pending.single) ∉ pending ++ [(client.nextId, kind)] ∧ _
      rcases List.mem_append.mp mem with earlier | last
      · have old := (sound.issued _ earlier).2
        rcases sound.once id asked earlier with ⟨waits, none_⟩ | ⟨gone, told⟩
        · exact .inl ⟨List.mem_append_left _ (waiting_ ▸ waits), none_⟩
        · refine .inr ⟨fun mem => ?_, told⟩
          rcases List.mem_append.mp mem with waits | last
          · exact gone (waiting_ ▸ waits)
          · cases List.mem_singleton.mp last
            exact absurd old (Nat.lt_irrefl _)
      · cases List.mem_singleton.mp last
        exact .inl ⟨List.mem_append_right _ List.mem_cons_self, sound.untold (Nat.le_refl _)⟩
    single := by
      intro id outcome mem
      obtain ⟨asked, called⟩ := sound.single id outcome mem
      exact ⟨asked, List.mem_append_left _ called⟩
    lost := by
      intro id mem
      rcases sound.lost id mem with closed | ended
      · rw [open_] at closed
        cases closed
      · exact .inr ended
    unsettled := by
      intro id mem
      rcases List.mem_append.mp mem with waits | last
      · exact sound.unsettled id (waiting_ ▸ waits)
      · cases List.mem_singleton.mp last
        exact deaf
    shut := fun gone => by
      have closed := sound.shut gone
      rw [open_] at closed
      cases closed }

/-- What nobody waits for need not be sent. -/
theorem Sound.unsent {frame : ClientFrame α}
    (sound : Sound { client with out := client.out ++ [frame] }) (nobody : client.waiting = []) :
    client.Sound :=
  { sound with
    sent := fun entry mem => by
      rw [nobody] at mem
      cases mem
    named := fun id request mem => sound.named id request (List.mem_append_left _ mem)
    numbered := by
      have numbered := sound.numbered
      rw [requested_append] at numbered
      exact (List.nodup_append.mp numbered).1 }

/-- A call leaves the client sound, as long as nothing was heard under its number. -/
theorem Sound.call (sound : client.Sound) (kind : Pending) (request : α)
    (deaf : ∀ msg ∈ client.heard, ¬ Settles client.nextId msg) :
    (client.call kind request).Sound := by
  unfold Client.call
  split
  · next closed =>
    cases kind with
    | single => exact sound.call_closed closed .single request (.inl ⟨rfl, rfl⟩)
    | stream => exact sound.call_closed closed .stream request (.inr ⟨rfl, rfl⟩)
  · next pending open_ =>
    have registered := sound.register open_ kind request deaf
    split
    · exact registered
    · exact (registered.close client.io).unsent rfl

/-- A message is heard and handed to its call. -/
theorem Sound.dispatch (sound : client.Sound) (msg : ServerMsg) :
    Sound ({ client with heard := client.heard ++ [msg] }.dispatch msg) := by
  unfold Client.dispatch
  split
  · next closed =>
    refine sound.hear fun id waits => ?_
    rw [waiting, show client.state = .closed from closed] at waits
    cases waits
  · next pending open_ =>
    have waiting_ : client.waiting = pending := by
      rw [waiting, show client.state = .opened pending from open_]
    have silent (none_ : ∀ id, ¬ Settles id msg) :
        Sound { client with heard := client.heard ++ [msg] } :=
      sound.hear fun id _ => none_ id
    -- A message for nobody who waits is heard and changes nothing.
    have ignored {id : RequestId} (absent : waiter pending id = none)
        (own : ∀ other, Settles other msg → other = id) :
        Sound { client with heard := client.heard ++ [msg] } := by
      refine sound.hear fun other waits settles => ?_
      rw [own other settles, waiting_] at waits
      exact waiter_eq_none absent _ waits
    have unchanged {id : RequestId} (absent : waiter pending id = none)
        (own : ∀ other, Settles other msg → other = id) :
        Sound { client with
          state := .opened (without pending id), heard := client.heard ++ [msg] } := by
      rw [without_eq_self absent, ← show client.state = .opened pending from open_]
      exact ignored absent own
    cases msg with
    | restarting operation => exact { silent (by simp [Settles]) with }
    | event event => exact { silent (by simp [Settles]) with }
    | treeDelta delta => exact { silent (by simp [Settles]) with }
    | welcome => exact silent (by simp [Settles])
    | rejected error => exact silent (by simp [Settles])
    | response id response =>
      dsimp only
      split
      · next found => exact sound.leave open_ (waiter_mem found) (.answered response)
      · next found => exact sound.leave open_ (waiter_mem found) (.dropped response)
      · next absent =>
        exact unchanged absent fun other settles => Eq.symm (by simpa [Settles] using settles)
    | streamItem id item =>
      have heard := silent (by simp [Settles])
      dsimp only
      split
      · exact heard.tell (by simp)
      · exact heard
    | streamEnd id =>
      dsimp only
      split
      · next found => exact sound.leave open_ (waiter_mem found) .lost
      · next found => exact sound.leave open_ (waiter_mem found) .finished
      · next absent =>
        exact unchanged absent fun other settles => Eq.symm (by simpa [Settles] using settles)
    | error id error =>
      dsimp only
      split
      · next zero =>
        subst zero
        have heard : Sound { client with heard := client.heard ++ [.error 0 error] } := by
          refine sound.hear fun other waits settles => ?_
          obtain rfl : 0 = other := by simpa [Settles] using settles
          obtain ⟨_, called, _⟩ := sound.sent _ waits
          exact absurd (sound.issued _ called).1 (Nat.lt_irrefl _)
        exact { heard with }
      · split
        · next found => exact sound.leave open_ (waiter_mem found) (.failed error)
        · next found =>
          have heard : Sound { client with heard := client.heard ++ [.error id error] } := by
            refine sound.hear fun other waits settles => ?_
            obtain rfl : id = other := by simpa [Settles] using settles
            have kinds := kind_unique (waiting_ ▸ sound.waitsOnce) (waiting_ ▸ waits)
              (waiter_mem found)
            cases kinds
          exact heard.tell (by simp)
        · next absent =>
          exact ignored absent fun other settles => Eq.symm (by simpa [Settles] using settles)

/-- Every step keeps a client sound, as long as nothing was heard under a number that the
client has yet to use. -/
theorem Sound.step (sound : client.Sound) (input : Input α)
    (deaf : ∀ msg ∈ client.heard, ¬ Settles client.nextId msg) :
    (Client.step client input).Sound := by
  cases input with
  | call kind request =>
    dsimp only [Client.step]
    split
    · exact sound
    · exact sound.call kind request deaf
  | cancel id =>
    dsimp only [Client.step, cancel]
    split
    · exact sound
    · split
      · have none_ : requested (client.out ++ [.cancel id]) = requested client.out := by
          rw [requested_append]
          exact List.append_nil _
        exact { sound with
          sent := fun entry mem => by
            obtain ⟨request, called, sent⟩ := sound.sent entry mem
            exact ⟨request, called, List.mem_append_left _ sent⟩
          named := fun other request mem => sound.named other request (by simpa using mem)
          numbered := by
            change (requested (client.out ++ [.cancel id])).Nodup
            rw [none_]
            exact sound.numbered }
      · exact sound
  | receive msg =>
    dsimp only [Client.step]
    split
    · exact sound.dispatch msg
    · exact sound
  | poll => exact { sound with }
  | fail =>
    dsimp only [Client.step]
    split
    · exact { sound with shut := fun gone => nomatch gone }
    · exact sound
  | close =>
    dsimp only [Client.step]
    split
    · exact sound.close .ended
    · exact sound
  | drop => exact { sound with }
  | abort =>
    dsimp only [Client.step]
    split
    · split
      · next pending open_ =>
        have parted := sound.part orphaned_single orphaned_stream .ended
        rw [waiting, open_] at parted
        exact parted
      · next closed => exact { sound with shut := fun _ => closed }
    · exact sound

/-! ## Streams that end -/

/-- A stream was told an error. -/
def Warned (client : Client α) (id : RequestId) : Prop :=
  ∃ error, .delivered id (.error error) ∈ client.told

/-- A stream ends after it was told an error, or when its end is known. -/
def Complete (concluded : RequestId → Prop) (client : Client α) : Prop :=
  ∀ id, .ended id ∈ client.told → client.Warned id ∨ concluded id

/-- A stream that waits may end now. -/
def MayEnd (concluded : RequestId → Prop) (client : Client α) (id : RequestId) : Prop :=
  (id, .stream) ∈ client.waiting → client.Warned id ∨ concluded id

/-- No stream is cut: those that wait when the task is aborted may end, and so may one that
is answered with a single response. -/
def Uncut (concluded : RequestId → Prop) (client : Client α) : Input α → Prop
  | .abort => client.dropped = true → ∀ id, client.MayEnd concluded id
  | .receive (.response id _) => client.io = .running → client.MayEnd concluded id
  | _ => True

section Ends

variable {concluded : RequestId → Prop}

theorem Complete.told (complete : client.Complete concluded) {notes : List Notice} {after : Client α}
    (tells : after.told = client.told ++ notes)
    (ends : ∀ id, .ended id ∈ notes → after.Warned id ∨ concluded id) : after.Complete concluded := by
  intro id mem
  rw [tells] at mem
  rcases List.mem_append.mp mem with earlier | last
  · refine (complete id earlier).imp_left fun ⟨error, delivered⟩ => ⟨error, ?_⟩
    rw [tells]
    exact List.mem_append_left _ delivered
  · exact ends id last

/-- What is told at a farewell says that the connection is closed. -/
theorem ended_farewell {pending : List (RequestId × Pending)} {id : RequestId}
    (mem : .ended id ∈ pending.flatMap farewell) :
    ∃ error, .delivered id (.error error) ∈ pending.flatMap farewell := by
  obtain ⟨⟨other, kind⟩, waits, note⟩ := List.mem_flatMap.mp mem
  cases kind with
  | single => simp [farewell] at note
  | stream =>
    obtain rfl : id = other := by simpa [farewell] using note
    exact ⟨.closed, List.mem_flatMap.mpr ⟨_, waits, by simp [farewell]⟩⟩

theorem mem_orphaned {pending : List (RequestId × Pending)} {id : RequestId} :
    .ended id ∈ pending.flatMap orphaned ↔ (id, .stream) ∈ pending := by
  rw [List.mem_flatMap]
  constructor
  · rintro ⟨⟨other, kind⟩, waits, note⟩
    cases kind with
    | single => simp [orphaned] at note
    | stream =>
      obtain rfl : id = other := by simpa [orphaned] using note
      exact waits
  · intro waits
    exact ⟨_, waits, by simp [orphaned]⟩

theorem Complete.dispatch (complete : client.Complete concluded) {msg : ServerMsg}
    (single : ∀ id response, msg = .response id response → client.MayEnd concluded id)
    (stream : ∀ id, msg = .streamEnd id → concluded id) :
    ({ client with heard := client.heard ++ [msg] }.dispatch msg).Complete concluded := by
  have silent {after : Client α} (tells : after.told = client.told) : after.Complete concluded := by
    refine complete.told (tells.trans (List.append_nil _).symm) fun id mem => ?_
    cases mem
  have tells {after : Client α} {note : Notice} (told : after.told = client.told ++ [note])
      (ends : ∀ id, note = .ended id → after.Warned id ∨ concluded id) : after.Complete concluded :=
    complete.told told fun id mem => ends id (List.mem_singleton.mp mem).symm
  unfold Client.dispatch
  split
  · exact silent rfl
  · next pending open_ =>
    cases msg with
    | response id response =>
      dsimp only
      split
      · exact tells rfl fun other named => nomatch named
      · next found =>
        refine tells rfl fun other named => ?_
        cases named
        have waits : (id, .stream) ∈ client.waiting := by
          rw [waiting, show client.state = .opened pending from open_]
          exact waiter_mem found
        refine (single id response rfl waits).imp_left fun ⟨error, delivered⟩ => ⟨error, ?_⟩
        exact List.mem_append_left _ delivered
      · exact silent rfl
    | streamItem id item =>
      dsimp only
      split
      · exact tells rfl fun other named => nomatch named
      · exact silent rfl
    | streamEnd id =>
      dsimp only
      split
      · exact tells rfl fun other named => nomatch named
      · refine tells rfl fun other named => ?_
        cases named
        exact .inr (stream id rfl)
      · exact silent rfl
    | error id error =>
      dsimp only
      split
      · exact silent rfl
      · split
        · exact tells rfl fun other named => nomatch named
        · exact tells rfl fun other named => nomatch named
        · exact silent rfl
    | _ => exact silent rfl

/-- Unless a stream is cut, every step keeps streams complete. -/
theorem Complete.step (complete : client.Complete concluded) {input : Input α}
    (uncut : client.Uncut concluded input)
    (stream : ∀ id, input = .receive (.streamEnd id) → concluded id) :
    (Client.step client input).Complete concluded := by
  have same {after : Client α} (tells : after.told = client.told) : after.Complete concluded := by
    refine complete.told (tells.trans (List.append_nil _).symm) fun id mem => ?_
    cases mem
  have closes {after : Client α} {pending : List (RequestId × Pending)}
      (tells : after.told = client.told ++ pending.flatMap farewell) : after.Complete concluded := by
    refine complete.told tells fun id mem => .inl ?_
    obtain ⟨error, delivered⟩ := ended_farewell mem
    refine ⟨error, ?_⟩
    rw [tells]
    exact List.mem_append_right _ delivered
  cases input with
  | call kind request =>
    dsimp only [Client.step]
    split
    · exact complete
    · unfold Client.call
      split
      · cases kind <;> exact complete.told rfl fun id mem => by simp at mem
      · split
        · exact same rfl
        · exact closes rfl
  | cancel id =>
    dsimp only [Client.step, cancel]
    split
    · exact complete
    · split
      · exact same rfl
      · exact complete
  | receive msg =>
    dsimp only [Client.step]
    split
    · next running =>
      refine complete.dispatch (fun id response named => ?_) fun id named => stream id (by rw [named])
      subst named
      exact uncut running
    · exact complete
  | poll => exact same rfl
  | fail =>
    dsimp only [Client.step]
    split
    · exact same rfl
    · exact complete
  | close =>
    dsimp only [Client.step, Client.close]
    split
    · split
      · exact closes rfl
      · exact same rfl
    · exact complete
  | drop => exact same rfl
  | abort =>
    dsimp only [Client.step]
    split
    · next aborts =>
      split
      · next pending open_ =>
        refine complete.told rfl fun id mem => ?_
        have waits : (id, .stream) ∈ client.waiting := by
          rw [waiting, open_]
          exact mem_orphaned.mp mem
        refine (uncut aborts.1 id waits).imp_left fun ⟨error, delivered⟩ => ⟨error, ?_⟩
        exact List.mem_append_left _ delivered
      · exact same rfl
    · exact complete

/-- A step that leaves streams complete cuts none. -/
theorem Sound.uncut (sound : client.Sound) {input : Input α}
    (complete : (Client.step client input).Complete concluded) : client.Uncut concluded input := by
  cases input with
  | abort =>
    intro dropped id waits
    have open_ : client.state = .opened client.waiting := by
      cases state : client.state with
      | opened pending => rw [waiting, state]
      | closed =>
        rw [waiting, state] at waits
        cases waits
    have running : client.io ≠ .ended := by
      intro gone
      rw [sound.shut gone] at open_
      cases open_
    have told : (Client.step client .abort).told =
        client.told ++ client.waiting.flatMap orphaned := by
      dsimp only [Client.step]
      rw [if_pos ⟨dropped, running⟩]
      split
      · next pending same =>
        rw [same] at open_
        rw [ConnectionState.opened.inj open_]
      · next closed =>
        rw [closed] at open_
        cases open_
    refine (complete id ?_).imp_left fun ⟨error, delivered⟩ => ⟨error, ?_⟩
    · rw [told]
      exact List.mem_append_right _ (mem_orphaned.mpr waits)
    · rw [told] at delivered
      refine (List.mem_append.mp delivered).resolve_right fun parted => ?_
      obtain ⟨⟨other, kind⟩, _, note⟩ := List.mem_flatMap.mp parted
      cases kind <;> simp [orphaned] at note
  | receive msg =>
    cases msg with
    | response id response =>
      intro running waits
      cases open_ : client.state with
      | closed =>
        rw [waiting, open_] at waits
        cases waits
      | opened pending =>
        have waiting_ : client.waiting = pending := by rw [waiting, open_]
        have found : waiter pending id = some .stream :=
          waiter_eq_some (waiting_ ▸ sound.waitsOnce) (waiting_ ▸ waits)
        have told : (Client.step client (.receive (.response id response))).told =
            client.told ++ [.ended id] := by
          dsimp only [Client.step]
          rw [if_pos running, Client.dispatch, open_]
          dsimp only
          rw [found]
          rfl
        refine (complete id ?_).imp_left fun ⟨error, delivered⟩ => ⟨error, ?_⟩
        · rw [told]
          exact List.mem_append_right _ List.mem_cons_self
        · rw [told] at delivered
          exact (List.mem_append.mp delivered).resolve_right (by simp)
    | _ => trivial
  | _ => trivial

end Ends

end Steps

end Client

end Nits.Nitsd
