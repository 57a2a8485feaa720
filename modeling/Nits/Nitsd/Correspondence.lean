import Nits.Logical.Run
import Nits.Nitsd.Serving

/-!
# Requests and outcomes

A client and the daemon's side of its connection, joined by two queues. The client hears
a prefix of what the daemon has sent, and the daemon has taken a prefix of what the client
queued; a transport that is lost loses the rest.
-/

namespace Nits.Nitsd

open Logical Protocol

/-- A client and its connection's server. -/
structure Link (α : Type) where
  client : Client α
  daemon : Serving α

namespace Link

variable {α : Type}

/-- A connection whose handshake is done. -/
def opened : Link α := ⟨.welcomed, .welcomed⟩

inductive Input (α : Type)
  /-- Something happens at the client that is not the arrival of a message. -/
  | client (input : Client.Input α)
  /-- Something happens at the daemon that is not the arrival of a frame. -/
  | daemon (input : Serving.Input α)
  /-- The client's task reads the next message. -/
  | receive
  /-- The daemon's loop reads the next frame. -/
  | take

/-- The next message that the client has not heard. -/
def nextMessage (link : Link α) : Option ServerMsg := link.daemon.sent[link.client.heard.length]?

/-- The next frame that the daemon has not taken. -/
def nextFrame (link : Link α) : Option (ClientFrame α) :=
  link.client.out[link.daemon.taken.length]?

variable (shape : α → ResponseShape)

def step (link : Link α) : Input α → Link α
  | .client (.receive _) | .daemon (.take _) => link
  | .client input => { link with client := link.client.step input }
  | .daemon input => { link with daemon := link.daemon.step shape input }
  | .receive =>
    match link.nextMessage with
    | some msg => { link with client := link.client.step (.receive msg) }
    | none => link
  | .take =>
    match link.nextFrame with
    | some frame => { link with daemon := link.daemon.step shape (.take frame) }
    | none => link

/-! ## Correspondence -/

/-- Requests and outcomes correspond one to one. -/
structure Corresponds (link : Link α) : Prop where
  /-- A single request waits, or has exactly one outcome. -/
  once : ∀ id request, (id, .single, request) ∈ link.client.calls →
    ((id, .single) ∈ link.client.waiting ∧ Client.outcomes link.client.told id = []) ∨
      ((id, .single) ∉ link.client.waiting ∧
        ∃ outcome, Client.outcomes link.client.told id = [outcome])
  /-- A response is the daemon's answer to that request. -/
  answer : ∀ id response, .resolved id (.ok response) ∈ link.client.told →
    ∃ request, (id, .single, request) ∈ link.client.calls ∧
      (id, request, .ok response) ∈ link.daemon.answers
  /-- An error was sent for the request. -/
  error : ∀ id error, .resolved id (.error (.rpc error)) ∈ link.client.told →
    .error id error ∈ link.daemon.sent
  /-- A request is closed with its connection, or because it was answered by a stream. -/
  closed : ∀ id, .resolved id (.error .closed) ∈ link.client.told →
    link.client.state = .closed ∨ .streamEnd id ∈ link.daemon.sent
  /-- For a request the daemon sends items of a stream, then at most one terminal answer,
  and nothing after it. -/
  terminal : ∀ id request, .request id request ∈ link.daemon.taken →
    Serving.Answered (shape request) id (Serving.transcript link.daemon.sent id) ∨
      Serving.Items id (Serving.transcript link.daemon.sent id)
  /-- Under a number that was not asked under the daemon sends nothing. -/
  silent : ∀ id, 0 < id → id ∉ Client.requested link.daemon.taken →
    Serving.transcript link.daemon.sent id = []
  /-- A single request that waits is on its way, is being served, has an answer on its way,
  or the daemon has ended the connection. -/
  underway : ∀ id, (id, .single) ∈ link.client.waiting →
    id ∈ Client.requested (link.client.out.drop link.daemon.taken.length) ∨
      link.daemon.Runs id ∨
      (∃ msg ∈ link.daemon.sent.drop link.client.heard.length, Client.Settles id msg) ∨
      link.daemon.phase = .ended
  /-- Once the connection's task is gone nobody waits, and nobody starts to wait once the task
  has stopped. -/
  shut : link.client.io = .ended → link.client.waiting = []
  refused : link.client.io ≠ .running → ∀ kind request,
    (link.client.call kind request).waiting = []
  /-- A stream ends after an error, or because the daemon sent its end. -/
  streams : ∀ id, .ended id ∈ link.client.told →
    link.client.Warned id ∨ .streamEnd id ∈ link.daemon.sent

/-- No stream is cut: neither by aborting the client's task while a stream waits that was
told no error and whose end the daemon has not sent, nor by handing it a single response. -/
def Spares (link : Link α) : Input α → Prop
  | .client .abort => link.client.dropped = true →
    ∀ id, link.client.MayEnd (fun id => .streamEnd id ∈ link.daemon.sent) id
  | .receive => ∀ id response, link.nextMessage = some (.response id response) →
    link.client.io = .running →
      link.client.MayEnd (fun id => .streamEnd id ∈ link.daemon.sent) id
  | _ => True

/-- What keeps both ends of a connection in step. -/
structure Sound (link : Link α) : Prop where
  client : link.client.Sound
  daemon : link.daemon.Sound shape
  heard : link.client.heard <+: link.daemon.sent
  taken : link.daemon.taken <+: link.client.out

/-! ## What one end does to its queues -/

section Queues

theorem close_frame (client : Client α) :
    client.close.out = client.out ∧ client.close.heard = client.heard := by
  unfold Client.close
  split <;> exact ⟨rfl, rfl⟩

theorem dispatch_frame (client : Client α) (msg : ServerMsg) :
    (client.dispatch msg).out = client.out ∧ (client.dispatch msg).heard = client.heard := by
  unfold Client.dispatch
  repeat' split
  all_goals exact ⟨rfl, rfl⟩

/-- A client only adds to what it queues for the daemon. -/
theorem out_step (client : Client α) (input : Client.Input α) :
    client.out <+: (client.step input).out := by
  have same {after : Client α} (kept : after.out = client.out) : client.out <+: after.out := by
    exact kept ▸ List.prefix_refl _
  cases input with
  | call kind request =>
    dsimp only [Client.step, Client.call]
    split
    · exact same rfl
    · split
      · split <;> exact same rfl
      · split
        · exact List.prefix_append ..
        · exact same (close_frame _).1
  | cancel id =>
    dsimp only [Client.step, Client.cancel]
    split
    · exact same rfl
    · split
      · exact List.prefix_append ..
      · exact same rfl
  | receive msg =>
    dsimp only [Client.step]
    split
    · exact same (dispatch_frame _ msg).1
    · exact same rfl
  | close =>
    dsimp only [Client.step]
    split
    · exact same (close_frame _).1
    · exact same rfl
  | poll | drop => exact same rfl
  | fail =>
    dsimp only [Client.step]
    split <;> exact same rfl
  | abort =>
    dsimp only [Client.step]
    split
    · split <;> exact same rfl
    · exact same rfl

/-- A client hears nothing but what arrives. -/
theorem heard_step (client : Client α) {input : Client.Input α}
    (own : ∀ msg, input ≠ .receive msg) : (client.step input).heard = client.heard := by
  cases input with
  | call kind request =>
    dsimp only [Client.step, Client.call]
    split
    · rfl
    · split
      · split <;> rfl
      · split
        · rfl
        · exact (close_frame _).2
  | cancel id =>
    dsimp only [Client.step, Client.cancel]
    split
    · rfl
    · split <;> rfl
  | receive msg => exact absurd rfl (own msg)
  | close =>
    dsimp only [Client.step]
    split
    · exact (close_frame _).2
    · rfl
  | poll | drop => rfl
  | fail =>
    dsimp only [Client.step]
    split <;> rfl
  | abort =>
    dsimp only [Client.step]
    split
    · split <;> rfl
    · rfl

theorem heard_receive (client : Client α) (msg : ServerMsg) :
    (client.step (.receive msg)).heard = client.heard ∨
      (client.step (.receive msg)).heard = client.heard ++ [msg] := by
  dsimp only [Client.step]
  split
  · exact .inr (dispatch_frame _ msg).2
  · exact .inl rfl

variable {shape}

/-- The daemon only adds to what it sends. -/
theorem sent_step (serving : Serving α) (input : Serving.Input α) :
    serving.sent <+: (serving.step shape input).sent := by
  have same {after : Serving α} (kept : after.sent = serving.sent) :
      serving.sent <+: after.sent := by
    exact kept ▸ List.prefix_refl _
  cases input with
  | take frame =>
    dsimp only [Serving.step]
    split
    · have handled : serving.sent <+: ((serving.heard frame).handle frame).sent := by
        unfold Serving.handle
        split
        · exact same rfl
        · split
          · exact List.prefix_append ..
          · exact same rfl
      refine handled.trans ?_
      unfold Serving.announce
      split
      · exact List.prefix_append ..
      · exact List.prefix_refl _
    · exact same rfl
  | poll token =>
    dsimp only [Serving.step]
    split
    · split
      · exact same rfl
      · split
        · exact same rfl
        · split
          · exact List.prefix_append ..
          · exact same rfl
    · exact same rfl
  | item token item | answer token result | complete token error =>
    dsimp only [Serving.step]
    split
    · split
      · exact List.prefix_append ..
      · exact same rfl
    · exact same rfl
  | notice =>
    dsimp only [Serving.step, Serving.announce]
    split
    · split
      · exact List.prefix_append ..
      · exact same rfl
    · exact same rfl
  | drained =>
    dsimp only [Serving.step]
    split
    · split
      · exact List.prefix_append ..
      · exact same rfl
    · exact same rfl
  | deadline =>
    dsimp only [Serving.step]
    split
    · exact List.prefix_append ..
    · exact same rfl
  | restart operation | hangup => exact same rfl
  | event event | treeDelta delta | lagged oldest =>
    dsimp only [Serving.step]
    split
    · exact same rfl
    · exact List.prefix_append ..

theorem handle_taken (serving : Serving α) (frame : ClientFrame α) :
    (serving.handle frame).taken = serving.taken := by
  unfold Serving.handle
  repeat' split
  all_goals rfl

theorem announce_taken (serving : Serving α) : serving.announce.taken = serving.taken := by
  unfold Serving.announce
  split <;> rfl

/-- The daemon takes nothing but what arrives. -/
theorem taken_step (serving : Serving α) {input : Serving.Input α}
    (own : ∀ frame, input ≠ .take frame) : (serving.step shape input).taken = serving.taken := by
  cases input with
  | take frame => exact absurd rfl (own frame)
  | notice =>
    dsimp only [Serving.step]
    split
    · exact announce_taken serving
    · rfl
  | _ =>
    dsimp only [Serving.step]
    repeat' split
    all_goals rfl

theorem taken_take (serving : Serving α) (frame : ClientFrame α) :
    (serving.step shape (.take frame)).taken = serving.taken ∨
      (serving.step shape (.take frame)).taken = serving.taken ++ [frame] := by
  dsimp only [Serving.step]
  split
  · exact .inr ((announce_taken _).trans (handle_taken _ frame))
  · exact .inl rfl

end Queues

/-! ## Both ends in step -/

section Steps

variable {shape} {link : Link α}

theorem opened_sound : Sound shape (opened : Link α) where
  client := Client.welcomed_sound
  daemon := Serving.welcomed_sound shape
  heard := List.prefix_refl _
  taken := List.prefix_refl _

theorem settles_names {id : RequestId} {msg : ServerMsg} (settles : Client.Settles id msg) :
    Serving.names id msg = true := by
  rcases settles with ⟨response, rfl⟩ | ⟨error, rfl⟩ | rfl <;> simp [Serving.names]

theorem mem_transcript {msgs : List ServerMsg} {msg : ServerMsg} {id : RequestId}
    (mem : msg ∈ msgs) (settles : Client.Settles id msg) : msg ∈ Serving.transcript msgs id :=
  List.mem_filter.mpr ⟨mem, settles_names settles⟩

/-- What was asked under a number was called under it. -/
theorem Sound.called (sound : Sound shape link) {id : RequestId} {request : α}
    (asked : .request id request ∈ link.daemon.taken) :
    ∃ kind, (id, kind, request) ∈ link.client.calls :=
  sound.client.named id request (sound.taken.subset asked)

/-- Nothing is heard under a number before the client uses it. -/
theorem Sound.deaf (sound : Sound shape link) :
    ∀ msg ∈ link.client.heard, ¬ Client.Settles link.client.nextId msg := by
  intro msg mem settles
  have unasked : link.client.nextId ∉ Client.requested link.daemon.taken := by
    intro asked
    obtain ⟨request, asked⟩ := Client.mem_requested.mp asked
    obtain ⟨kind, called⟩ := sound.called asked
    exact absurd (sound.client.issued _ called).2 (Nat.lt_irrefl _)
  have named := mem_transcript (sound.heard.subset mem) settles
  rw [sound.daemon.script.unasked _ sound.client.positive unasked] at named
  cases named

/-- The next frame's number was not used before. -/
theorem Sound.fresh (sound : Sound shape link) {frame : ClientFrame α}
    (next : link.nextFrame = some frame) : link.daemon.Fresh (.take frame) := by
  cases frame with
  | cancel id => trivial
  | request id request =>
    obtain ⟨rest, out⟩ := sound.taken
    have next : link.client.out[link.daemon.taken.length]? = some (.request id request) := next
    rw [← out, List.getElem?_append_right (Nat.le_refl _), Nat.sub_self] at next
    obtain ⟨first, rest, rfl⟩ : ∃ first others, rest = first :: others := by
      cases rest with
      | nil => cases next
      | cons first others => exact ⟨first, others, rfl⟩
    obtain rfl := Option.some.inj next
    have numbered := sound.client.numbered
    rw [← out, Client.requested_append] at numbered
    obtain ⟨_, _, apart⟩ := List.nodup_append.mp numbered
    have sent : .request id request ∈ link.client.out := by
      rw [← out]
      exact List.mem_append_right _ List.mem_cons_self
    obtain ⟨kind, called⟩ := sound.client.named id request sent
    refine ⟨fun mem => apart id mem id ?_ rfl, (sound.client.issued _ called).1⟩
    exact Client.mem_requested.mpr ⟨request, List.mem_cons_self⟩

/-- What follows the next element of a list that another one begins. -/
theorem prefix_next {A : Type} {part whole : List A} {next : A} (begins : part <+: whole)
    (found : whole[part.length]? = some next) : part ++ [next] <+: whole := by
  obtain ⟨rest, rfl⟩ := begins
  rw [List.getElem?_append_right (Nat.le_refl _), Nat.sub_self] at found
  cases rest with
  | nil => cases found
  | cons first others =>
    obtain rfl := Option.some.inj found
    exact ⟨others, by rw [List.append_assoc, List.singleton_append]⟩

/-- Every step keeps both ends in step. -/
theorem Sound.step (sound : Sound shape link) (input : Input α) :
    Sound shape (link.step shape input) := by
  have atClient {input : Client.Input α} (own : ∀ msg, input ≠ .receive msg) :
      Sound shape { link with client := link.client.step input } := {
    client := sound.client.step input sound.deaf
    daemon := sound.daemon
    heard := by
      rw [heard_step link.client own]
      exact sound.heard
    taken := sound.taken.trans (out_step link.client input) }
  have atDaemon {input : Serving.Input α} (own : ∀ frame, input ≠ .take frame) :
      Sound shape { link with daemon := link.daemon.step shape input } := {
    client := sound.client
    daemon := sound.daemon.step (by cases input <;> first | exact absurd rfl (own _) | trivial)
    heard := sound.heard.trans (sent_step link.daemon input)
    taken := by
      rw [taken_step link.daemon own]
      exact sound.taken }
  cases input with
  | client input =>
    cases input with
    | receive msg => exact sound
    | _ => exact atClient fun msg same => nomatch same
  | daemon input =>
    cases input with
    | take frame => exact sound
    | _ => exact atDaemon fun frame same => nomatch same
  | receive =>
    dsimp only [Link.step]
    split
    · next msg found =>
      refine {
        client := sound.client.step (.receive msg) sound.deaf
        daemon := sound.daemon
        heard := ?_
        taken := sound.taken.trans (out_step link.client _) }
      rcases heard_receive link.client msg with same | more
      · rw [same]
        exact sound.heard
      · rw [more]
        exact prefix_next sound.heard found
    · exact sound
  | take =>
    dsimp only [Link.step]
    split
    · next frame found =>
      refine {
        client := sound.client
        daemon := sound.daemon.step (sound.fresh found)
        heard := sound.heard.trans (sent_step link.daemon _)
        taken := ?_ }
      rcases taken_take link.daemon frame with same | more
      · rw [same]
        exact sound.taken
      · rw [more]
        exact prefix_next sound.taken found
    · exact sound

/-- A terminal answer settles a single request. -/
theorem terminal_settles {shape : ResponseShape} {id : RequestId} {msgs : List ServerMsg}
    (terminal : Serving.Terminal shape id msgs) : ∃ msg ∈ msgs, Client.Settles id msg := by
  cases terminal with
  | response response => exact ⟨_, List.mem_cons_self, .inl ⟨response, rfl⟩⟩
  | failure error | broken error => exact ⟨_, List.mem_cons_self, .inr (.inl ⟨error, rfl⟩)⟩
  | finished => exact ⟨_, List.mem_cons_self, .inr (.inr rfl)⟩
  | restarting | cancelled | interrupted => exact ⟨_, List.mem_cons_self, .inr (.inl ⟨_, rfl⟩)⟩

/-- A single request that waits has not been forgotten. -/
theorem Sound.underway (sound : Sound shape link) {id : RequestId}
    (waits : (id, .single) ∈ link.client.waiting) :
    id ∈ Client.requested (link.client.out.drop link.daemon.taken.length) ∨
      link.daemon.Runs id ∨
      (∃ msg ∈ link.daemon.sent.drop link.client.heard.length, Client.Settles id msg) ∨
      link.daemon.phase = .ended := by
  obtain ⟨request, _, asked⟩ := sound.client.sent _ waits
  have out : link.client.out =
      link.daemon.taken ++ link.client.out.drop link.daemon.taken.length :=
    (List.prefix_iff_eq_append.mp sound.taken).symm
  have sent : link.daemon.sent =
      link.client.heard ++ link.daemon.sent.drop link.client.heard.length :=
    (List.prefix_iff_eq_append.mp sound.heard).symm
  rw [out] at asked
  rcases List.mem_append.mp asked with taken | later
  · rcases sound.daemon.script.answered id request taken with runs | answered | ⟨concluded, _⟩
    · exact .inr (.inl runs)
    · obtain ⟨items, terminal, same, _, ends⟩ := answered
      obtain ⟨msg, mem, settles⟩ := terminal_settles ends
      have posted : msg ∈ Serving.transcript link.daemon.sent id := by
        rw [same]
        exact List.mem_append_right _ mem
      have posted := (List.mem_filter.mp posted).1
      rw [sent] at posted
      rcases List.mem_append.mp posted with heard | coming
      · exact absurd settles (sound.client.unsettled id waits msg heard)
      · exact .inr (.inr (.inl ⟨msg, coming, settles⟩))
    · exact .inr (.inr (.inr concluded))
  · exact .inl (Client.mem_requested.mpr ⟨request, later⟩)

/-- A stream's end is the end that the daemon sent. -/
def ended (link : Link α) (id : RequestId) : Prop := .streamEnd id ∈ link.daemon.sent

/-- Requests and outcomes correspond as soon as streams are complete. -/
theorem Sound.corresponds (sound : Sound shape link)
    (streams : link.client.Complete link.ended) : Corresponds shape link where
  once := sound.client.once
  answer id response told := by
    have sent := sound.heard.subset (sound.client.answered id response told)
    obtain ⟨request, asked, _, answer⟩ := sound.daemon.script.handled id response sent
    obtain ⟨kind, called⟩ := sound.called asked
    obtain ⟨again, single⟩ := sound.client.single id _ told
    have same := List.inj_on_of_nodup_map sound.client.distinct called single rfl
    rw [same] at called
    obtain rfl : request = again := (Prod.mk.inj (Prod.mk.inj same).2).2
    exact ⟨request, called, answer⟩
  error id error told := sound.heard.subset (sound.client.failed id error told)
  closed id told := (sound.client.lost id told).imp_right fun heard => sound.heard.subset heard
  terminal id request asked := by
    rcases sound.daemon.script.answered id request asked with runs | answered | ⟨_, items⟩
    · exact .inr (sound.daemon.script.running id runs)
    · exact .inl answered
    · exact .inr items
  silent := sound.daemon.script.unasked
  underway _ waits := sound.underway waits
  shut gone := by
    rw [Client.waiting, sound.client.shut gone]
  refused stopped kind request := by
    unfold Client.call
    split
    · next closed => cases kind <;> simp [Client.waiting, closed]
    · rw [if_neg stopped]
      rfl
  streams := streams

theorem complete_mono {client : Client α} {before after : RequestId → Prop}
    (more : ∀ id, before id → after id) (complete : client.Complete before) :
    client.Complete after :=
  fun id told => (complete id told).imp_right (more id)

/-- A step that leaves streams complete cuts none. -/
theorem Sound.spares (sound : Sound shape link) {input : Input α}
    (complete : (link.step shape input).client.Complete (link.step shape input).ended) :
    link.Spares input := by
  cases input with
  | client input =>
    cases input with
    | abort => exact @Client.Sound.uncut α link.client link.ended sound.client .abort complete
    | _ => trivial
  | receive =>
    intro id response next
    dsimp only [Link.step] at complete
    rw [next] at complete
    exact @Client.Sound.uncut α link.client link.ended sound.client (.receive (.response id response))
      complete
  | daemon | take => trivial

/-- Unless a stream is cut, streams stay complete. -/
theorem complete_step {input : Input α} (complete : link.client.Complete link.ended)
    (spares : link.Spares input) :
    (link.step shape input).client.Complete (link.step shape input).ended := by
  have atDaemon (input : Serving.Input α) :
      link.client.Complete (Link.ended { link with daemon := link.daemon.step shape input }) :=
    complete_mono (fun id sent => (sent_step link.daemon input).subset sent) complete
  cases input with
  | client input =>
    cases input with
    | receive msg => exact complete
    | abort => exact complete.step spares fun id same => nomatch same
    | _ => exact complete.step trivial fun id same => nomatch same
  | daemon input =>
    cases input with
    | take frame => exact complete
    | _ => exact atDaemon _
  | receive =>
    dsimp only [Link.step]
    split
    · next msg next =>
      refine complete.step ?_ fun id same => ?_
      · cases msg with
        | response id response => exact spares id response next
        | _ => trivial
      · cases same
        exact List.mem_of_getElem? next
    · exact complete
  | take =>
    dsimp only [Link.step]
    split
    · exact atDaemon _
    · exact complete

/-- Requests and outcomes correspond in every state of a run exactly when no stream of it is
cut. -/
theorem run_corresponds_iff (shape : α → ResponseShape) (inputs : List (Input α)) :
    Run.Always (step shape) (Corresponds shape) opened inputs ↔
      Run.Steps (step shape) Spares opened inputs := by
  let invariant (link : Link α) : Prop := Sound shape link ∧ link.client.Complete link.ended
  refine @Run.always_iff_steps _ _ (step shape) invariant _ _ _ _ ?keeps ?holds ?needs ?initial
  case keeps =>
    rintro link input ⟨sound, complete⟩ spares
    exact ⟨sound.step input, complete_step complete spares⟩
  case holds =>
    rintro link ⟨sound, complete⟩
    exact sound.corresponds complete
  case needs =>
    rintro link input ⟨sound, _⟩ corresponds
    exact sound.spares corresponds.streams
  case initial => exact ⟨opened_sound, fun id told => absurd told List.not_mem_nil⟩

/-- Dropping a client whose stream is still served. -/
def droppedRun : List (Input ResponseShape) :=
  [.client (.call .stream .stream), .take, .daemon (.poll 0), .client .drop, .client .abort]

/-- The stream's receiver ends as if the stream were complete. -/
theorem droppedRun_cuts : ¬ Run.Always (step id) (Corresponds id) opened droppedRun := by
  intro always
  have corresponds := always droppedRun (List.prefix_refl _)
  have told : .ended 1 ∈ (droppedRun.foldl (step id) opened).client.told := by decide
  rcases corresponds.streams 1 told with ⟨error, warned⟩ | sent
  · have never : (droppedRun.foldl (step id) opened).client.told = [.ended 1] := by decide
    rw [never] at warned
    cases List.mem_singleton.mp warned
  · have never : (droppedRun.foldl (step id) opened).daemon.sent = [] := by decide
    rw [never] at sent
    cases sent

end Steps

end Link

end Nits.Nitsd
