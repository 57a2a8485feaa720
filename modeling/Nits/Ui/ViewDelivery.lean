import Nits.ClientCore.ViewEncoder
import Nits.Logical.Run

/-!
# Putting view batches together

The page puts the fragments of a batch together and applies whole batches only. A gap
makes it wait for a snapshot. Whatever arrives of what the host has sent, and in whatever
order, each batch that is applied is one that was encoded, and each delta is applied on top of
the batch before it.
-/

namespace Nits.Ui

open Logical ClientCore

variable {Patch : Type}

/-! ## The assembler -/

/-- A batch of which some fragments have arrived. -/
structure Pending where
  revision : Nat
  kind : ViewBatchKind
  next : Nat
  bytes : Nat
  received : Nat
  pieces : List String

/-- What the page holds of a delivery under way. -/
inductive Decoder
  | starting
  | ready (revision : Nat)
  | receiving (pending : Pending)
  /-- The last revision that was accepted or put together is kept. -/
  | awaitingSnapshot (after : Option Nat)

/-- What a frame comes to at the page. -/
inductive Outcome (Patch : Type)
  | buffered
  | applied (kind : ViewBatchKind) (patches : List Patch)
  | resync (reason : String)

namespace Decoder

/-- A page starts without a revision. -/
def make : Decoder := .starting

def beginResync (after : Option Nat) (reason : String) : Decoder × Outcome Patch :=
  (.awaitingSnapshot after, .resync reason)

def fail (decoder : Decoder) (reason : String) : Decoder × Outcome Patch :=
  match decoder with
  | .starting => beginResync none reason
  | .ready revision => beginResync (some revision) reason
  | .receiving pending => beginResync (some pending.revision) reason
  | .awaitingSnapshot after => (.awaitingSnapshot after, .buffered)

def unsigned (value : Nat) : Prop := value ≤ 4294967295

instance (value : Nat) : Decidable (unsigned value) := inferInstanceAs (Decidable (_ ≤ _))

def positive (value : Nat) : Prop := 0 < value ∧ unsigned value

instance (value : Nat) : Decidable (positive value) := inferInstanceAs (Decidable (_ ∧ _))

def finish (revision : Nat) (kind : ViewBatchKind) (patches : List Patch) :
    Decoder × Outcome Patch :=
  (.ready revision, .applied kind patches)

def start (decoder : Decoder) (frame : ViewFrame Patch) : Decoder × Outcome Patch :=
  match frame.body with
  | .complete patches => finish frame.revision frame.kind patches
  | .fragment (.start bytes) json =>
    let received := json.utf8ByteSize
    if ¬ positive bytes ∨ received = 0 ∨ received ≥ bytes then
      decoder.fail "invalid view fragment byte count"
    else
      (.receiving ⟨frame.revision, frame.kind, 1, bytes, received, [json]⟩, .buffered)
  | .fragment (.more _) _ | .fragment (.end_ _) _ =>
    decoder.fail "view fragment arrived without its start"

variable [PatchText Patch]

/-- The batch is complete once its pieces have been read. -/
def conclude (decoder : Decoder) (pending : Pending) (frame : ViewFrame Patch) (json : String) :
    Decoder × Outcome Patch :=
  match PatchText.patchesOfJson (String.join (pending.pieces ++ [json])) with
  | .error reason => decoder.fail reason
  | .ok patches => finish frame.revision frame.kind patches

/-- A fragment behind the first. -/
def continue_ (decoder : Decoder) (pending : Pending) (frame : ViewFrame Patch)
    (index : Nat) (final : Bool) (json : String) : Decoder × Outcome Patch :=
  let received := pending.received + json.utf8ByteSize
  if ¬ positive index ∨ index ≠ pending.next ∨ json = "" ∨ received > pending.bytes then
    decoder.fail "invalid or out-of-order view fragment"
  else if final then
    if received ≠ pending.bytes then decoder.fail "incomplete view batch"
    else decoder.conclude pending frame json
  else if received ≥ pending.bytes then decoder.fail "view batch has no final fragment"
  else
    (.receiving { pending with
      next := index + 1
      received
      pieces := pending.pieces ++ [json] }, .buffered)

def frame (decoder : Decoder) (frame : ViewFrame Patch) : Decoder × Outcome Patch :=
  if ¬ unsigned frame.revision then decoder.fail "invalid view revision"
  else match decoder with
  | .starting =>
    match frame.kind with
    | .delta => (decoder, .buffered)
    | .snapshot => decoder.start frame
  | .awaitingSnapshot after =>
    match frame.kind, after with
    | .delta, _ => (decoder, .buffered)
    | .snapshot, some previous =>
      if frame.revision ≤ previous then (decoder, .buffered) else decoder.start frame
    | .snapshot, none => decoder.start frame
  | .ready previous =>
    if frame.revision ≤ previous then decoder.fail "duplicate or stale view revision"
    else if frame.kind = .delta ∧ frame.revision ≠ previous + 1 then
      decoder.fail "missing view revision"
    else decoder.start frame
  | .receiving pending =>
    if frame.revision ≠ pending.revision ∨ frame.kind ≠ pending.kind then
      decoder.fail "view fragment changed batch identity"
    else match frame.body with
    | .complete _ | .fragment (.start _) _ => decoder.fail "view batch restarted before completion"
    | .fragment (.more index) json => decoder.continue_ pending frame index false json
    | .fragment (.end_ index) json => decoder.continue_ pending frame index true json

end Decoder

/-! ## The pieces of a batch -/

section Pieces

variable [PatchText Patch]

/-- The bytes of the first pieces. -/
def bytesOf (pieces : List (List Char)) (count : Nat) : Nat :=
  textBytes (pieces.take count).flatten

/-- The fragment of a piece. -/
def pieceFrame (batch : Batch Patch) (pieces : List (List Char)) (piece : List Char × Nat) :
    ViewFrame Patch :=
  fragmentAt batch.revision batch.kind (PatchText.toJson batch.patches).utf8ByteSize
    (pieces.length - 1) piece

/-- A batch goes in a fragment for each of the pieces. -/
structure Fragmented (batch : Batch Patch) (pieces : List (List Char)) : Prop where
  cut : Cut (PatchText.toJson batch.patches) pieces
  frames : batch.frames = pieces.zipIdx.map (pieceFrame batch pieces)

/-- What the assembler holds of a batch once its first fragments have arrived. -/
def held (batch : Batch Patch) (pieces : List (List Char)) (count : Nat) : Pending :=
  ⟨batch.revision, batch.kind, count, (PatchText.toJson batch.patches).utf8ByteSize,
    bytesOf pieces count, (pieces.take count).map String.ofList⟩

variable {batch : Batch Patch} {pieces : List (List Char)} {count : Nat} {decoder : Decoder}

theorem bytesOf_succ (inside : count < pieces.length) :
    bytesOf pieces (count + 1) = bytesOf pieces count + textBytes pieces[count] := by
  rw [bytesOf, bytesOf, List.take_succ_eq_append_getElem inside, List.flatten_append,
    textBytes_append, List.flatten_singleton]

theorem textBytes_pos {piece : List Char} (nonempty : piece ≠ []) : 0 < textBytes piece := by
  obtain ⟨c, rest, rfl⟩ := List.exists_cons_of_ne_nil nonempty
  have := c.utf8Size_pos
  rw [textBytes_cons]
  omega

namespace Fragmented

theorem bytesOf_length (fragmented : Fragmented batch pieces) :
    bytesOf pieces pieces.length = (PatchText.toJson batch.patches).utf8ByteSize := by
  rw [bytesOf, List.take_length, fragmented.cut.whole, textBytes_toList]

/-- The bytes of some of the pieces are fewer than those of all. -/
theorem bytesOf_lt (fragmented : Fragmented batch pieces) (inside : count < pieces.length) :
    bytesOf pieces count < (PatchText.toJson batch.patches).utf8ByteSize := by
  have pos := textBytes_pos (fragmented.cut.nonempty _ (List.getElem_mem inside))
  have split : bytesOf pieces count + textBytes (pieces.drop count).flatten =
      (PatchText.toJson batch.patches).utf8ByteSize := by
    rw [← fragmented.bytesOf_length, bytesOf, bytesOf, ← textBytes_append, ← List.flatten_append,
      List.take_append_drop, List.take_length]
  rw [List.drop_eq_getElem_cons inside, List.flatten_cons, textBytes_append] at split
  omega

theorem length_le (fragmented : Fragmented batch pieces) : pieces.length ≤ U32_MAX :=
  fragmented.cut.length_le.trans fragmented.cut.room

/-- The pieces together are the text that was cut. -/
theorem join_eq (fragmented : Fragmented batch pieces) :
    String.join (pieces.map String.ofList) = PatchText.toJson batch.patches := by
  apply String.toList_inj.mp
  rw [String.toList_join, ← fragmented.cut.whole, List.flatMap_map, List.flatten_eq_flatMap]
  simp

theorem index_pos (fragmented : Fragmented batch pieces) (some_ : 0 < count)
    (inside : count < pieces.length) : Decoder.positive count :=
  ⟨some_, (Nat.le_of_lt inside).trans fragmented.length_le⟩

theorem ofList_ne (fragmented : Fragmented batch pieces) (inside : count < pieces.length) :
    String.ofList pieces[count] ≠ "" := by
  intro none_
  apply fragmented.cut.nonempty _ (List.getElem_mem inside)
  simpa using congrArg String.toList none_

theorem utf8ByteSize_ofList (piece : List Char) :
    (String.ofList piece).utf8ByteSize = textBytes piece := by
  rw [← textBytes_toList, String.toList_ofList]

/-! ### Its fragments in order -/

/-- The first fragment opens the batch. -/
theorem start_first (fragmented : Fragmented batch pieces) (inside : 0 < pieces.length) :
    decoder.start (pieceFrame batch pieces (pieces[0], 0)) =
      (.receiving (held batch pieces 1), .buffered) := by
  have first : bytesOf pieces 1 = textBytes pieces[0] := by
    simpa [bytesOf] using bytesOf_succ inside
  have short := fragmented.bytesOf_lt fragmented.cut.several
  have some_ := textBytes_pos (fragmented.cut.nonempty _ (List.getElem_mem inside))
  have total : Decoder.positive (PatchText.toJson batch.patches).utf8ByteSize :=
    ⟨by omega, fragmented.cut.room⟩
  have taken : (pieces.take 1).map String.ofList = [String.ofList pieces[0]] := by
    rw [List.take_succ_eq_append_getElem inside]
    rfl
  simp only [Decoder.start, pieceFrame, fragmentAt, positionAt, if_pos, utf8ByteSize_ofList, held, taken, first]
  rw [if_neg]
  rintro (none_ | none_ | whole)
  · exact none_ total
  · omega
  · omega

/-- A fragment that is not the last is kept. -/
theorem frame_next (fragmented : Fragmented batch pieces) (numbered : batch.revision ≤ U32_MAX)
    (some_ : 0 < count) (inside : count < pieces.length) (more : count + 1 < pieces.length) :
    Decoder.frame (.receiving (held batch pieces count))
      (pieceFrame batch pieces (pieces[count], count)) =
      (.receiving (held batch pieces (count + 1)), .buffered) := by
  have position : positionAt (PatchText.toJson batch.patches).utf8ByteSize (pieces.length - 1)
      count = .more count := by
    rw [positionAt, if_neg (by omega), if_neg (by omega)]
  have grown := bytesOf_succ inside
  have short := fragmented.bytesOf_lt more
  have taken : (pieces.take (count + 1)).map String.ofList =
      (pieces.take count).map String.ofList ++ [String.ofList pieces[count]] := by
    rw [List.take_succ_eq_append_getElem inside, List.map_append, List.map_singleton]
  have known : Decoder.unsigned batch.revision := numbered
  simp only [Decoder.frame, pieceFrame, fragmentAt, position, held, known, not_true, if_false, ne_eq, or_self,
    Decoder.continue_, utf8ByteSize_ofList, ← grown, taken]
  rw [if_neg, if_neg (by simp), if_neg (by omega)]
  rintro (none_ | other | empty | beyond)
  · exact none_ (fragmented.index_pos some_ inside)
  · exact other
  · exact fragmented.ofList_ne inside empty
  · omega

/-- The last fragment concludes the batch. -/
theorem frame_last (reads : ReadsBack Patch) (fragmented : Fragmented batch pieces)
    (numbered : batch.revision ≤ U32_MAX) (some_ : 0 < count) (inside : count < pieces.length)
    (last : count + 1 = pieces.length) : Decoder.frame (.receiving (held batch pieces count))
      (pieceFrame batch pieces (pieces[count], count)) =
      (.ready batch.revision, .applied batch.kind batch.patches) := by
  have position : positionAt (PatchText.toJson batch.patches).utf8ByteSize (pieces.length - 1)
      count = .end_ count := by
    rw [positionAt, if_neg (by omega), if_pos (by omega)]
  have grown := bytesOf_succ inside
  have total := fragmented.bytesOf_length
  have known : Decoder.unsigned batch.revision := numbered
  have taken : (pieces.take count).map String.ofList ++ [String.ofList pieces[count]] =
      pieces.map String.ofList := by
    rw [← List.map_singleton, ← List.map_append, ← List.take_succ_eq_append_getElem inside, last,
      List.take_length]
  simp only [Decoder.frame, pieceFrame, fragmentAt, position, held, known, not_true, if_false, ne_eq, or_self,
    Decoder.continue_, utf8ByteSize_ofList, ← grown, last, total, Decoder.conclude, taken,
    fragmented.join_eq, reads batch.patches]
  rw [if_neg]
  · rfl
  · rintro (none_ | other | empty | beyond)
    · exact none_ (fragmented.index_pos some_ inside)
    · exact other
    · exact fragmented.ofList_ne inside empty
    · omega

omit [PatchText Patch] in
theorem positionAt_body {bytes last offset : Nat} (later : offset ≠ 0) :
    positionAt bytes last offset = .more offset ∨ positionAt bytes last offset = .end_ offset := by
  rw [positionAt, if_neg later]
  split <;> simp

end Fragmented

/-- A batch does not begin with a later fragment. -/
theorem start_later {piece : List Char × Nat} (later : piece.2 ≠ 0) :
    decoder.start (pieceFrame batch pieces piece) =
      decoder.fail "view fragment arrived without its start" := by
  simp only [pieceFrame, fragmentAt, Decoder.start]
  rcases Fragmented.positionAt_body later with position | position
  all_goals rw [position]

theorem Fragmented.exists_piece (fragmented : Fragmented batch pieces) {frame : ViewFrame Patch}
    (mem : frame ∈ batch.frames) : ∃ (index : Nat) (bound : index < pieces.length),
      frame = pieceFrame batch pieces (pieces[index], index) := by
  rw [fragmented.frames] at mem
  obtain ⟨⟨piece, index⟩, isPiece, rfl⟩ := List.mem_map.mp mem
  obtain ⟨bound, same⟩ := List.mem_zipIdx' isPiece
  exact ⟨index, bound, by rw [same]⟩

/-- A frame of the batch that is not the next fragment ends it. -/
theorem frame_other (batch : Batch Patch) (pieces : List (List Char)) {piece : List Char}
    {index : Nat} (other : index ≠ count) :
    ∃ reason, Decoder.frame (.receiving (held batch pieces count))
      (pieceFrame batch pieces (piece, index)) =
        Decoder.fail (.receiving (held batch pieces count)) reason := by
  by_cases known : Decoder.unsigned batch.revision
  · simp only [Decoder.frame, pieceFrame, fragmentAt, held, known, not_true, if_false, ne_eq,
      or_self]
    by_cases first : index = 0
    · refine ⟨"view batch restarted before completion", ?_⟩
      simp only [positionAt, if_pos first]
    · refine ⟨"invalid or out-of-order view fragment", ?_⟩
      rcases Fragmented.positionAt_body first with position | position
      all_goals
        rw [position]
        exact if_pos (.inr (.inl other))
  · exact ⟨"invalid view revision", if_pos known⟩

/-- A batch that was sent goes in one frame or in fragments. -/
theorem frames_cases (sound : batch.Sound) :
    batch.frames = [⟨batch.revision, batch.kind, .complete batch.patches⟩] ∨
      ∃ pieces, Fragmented batch pieces := by
  obtain ⟨revision, kind, patches, frames⟩ := batch
  change Framed revision kind patches frames at sound
  cases sound with
  | complete => exact .inl rfl
  | fragments cut => exact .inr ⟨_, cut, rfl⟩

end Pieces

/-! ## What has been applied -/

/-- A batch that was applied, with the revision of its frames. -/
structure Applied (Patch : Type) where
  revision : Nat
  kind : ViewBatchKind
  patches : List Patch

def entryOf (batch : Batch Patch) : Applied Patch := ⟨batch.revision, batch.kind, batch.patches⟩

/-- What reaches the page: a frame, a message that is none, or word of a new host. -/
inductive Arrival (Patch : Type)
  | frame (frame : ViewFrame Patch)
  | unreadable (reason : String)
  | reset

/-- The assembler, with what it has applied since it was last reset. -/
structure Page (Patch : Type) where
  decoder : Decoder
  applied : List (Applied Patch)

namespace Page

def new : Page Patch := ⟨.make, []⟩

/-- Apply the outcome of a frame. -/
def took (page : Page Patch) (frame : ViewFrame Patch) : Decoder × Outcome Patch → Page Patch
  | (decoder, .applied kind patches) => ⟨decoder, page.applied ++ [⟨frame.revision, kind, patches⟩]⟩
  | (decoder, .buffered) | (decoder, .resync _) => ⟨decoder, page.applied⟩

variable [PatchText Patch]

/-- Something arrives at the page. -/
def arrive (page : Page Patch) : Arrival Patch → Page Patch
  | .frame frame => page.took frame (page.decoder.frame frame)
  | .unreadable reason => ⟨(page.decoder.fail reason : Decoder × Outcome Patch).1, page.applied⟩
  | .reset => new

end Page

/-- A batch of this revision and kind may be applied next. -/
structure Follows (entries : List (Applied Patch)) (revision : Nat) (kind : ViewBatchKind) :
    Prop where
  later : ∀ entry ∈ entries, entry.revision < revision
  stacked : kind = .delta → ∃ last, entries.getLast? = some last ∧ last.revision + 1 = revision

/-- Each batch that was applied was sent, and could be applied next. -/
inductive Faithful (sent : List (Batch Patch)) : List (Applied Patch) → Prop
  | nil : Faithful sent []
  | snoc {entries : List (Applied Patch)} {batch : Batch Patch} (before : Faithful sent entries)
      (mem : batch ∈ sent) (next : Follows entries batch.revision batch.kind) :
      Faithful sent (entries ++ [entryOf batch])

section Standing

variable [PatchText Patch] {sent : List (Batch Patch)} {entries : List (Applied Patch)}
  {decoder : Decoder}

/-- How an assembler stands to what has been applied. -/
def Standing (sent : List (Batch Patch)) (entries : List (Applied Patch)) : Decoder → Prop
  | .starting => entries = []
  | .ready revision => (∀ entry ∈ entries, entry.revision ≤ revision) ∧
      ∃ last, entries.getLast? = some last ∧ last.revision = revision
  | .receiving pending => ∃ batch ∈ sent, ∃ pieces count, Fragmented batch pieces ∧ 0 < count ∧
      count < pieces.length ∧ pending = held batch pieces count ∧
      Follows entries batch.revision batch.kind
  | .awaitingSnapshot after => ∀ entry ∈ entries, ∃ previous ∈ after, entry.revision ≤ previous

/-- An assembler that gives up waits for a snapshot beyond all that it has applied. -/
theorem Standing.fail (standing : Standing sent entries decoder) (reason : String) :
    Standing sent entries (decoder.fail reason : Decoder × Outcome Patch).1 := by
  cases decoder with
  | starting =>
    have none_ : entries = [] := standing
    simp [none_, Decoder.fail, Decoder.beginResync, Standing]
  | ready revision => exact fun entry mem => ⟨revision, rfl, standing.1 entry mem⟩
  | receiving pending =>
    obtain ⟨batch, -, pieces, count, -, -, -, rfl, follows⟩ := standing
    exact fun entry mem => ⟨batch.revision, rfl, Nat.le_of_lt (follows.later entry mem)⟩
  | awaitingSnapshot after => exact standing

/-- What an assembler can begin to take follows what has been applied. -/
def Begins (revision : Nat) (kind : ViewBatchKind) : Decoder → Prop
  | .starting => kind = .snapshot
  | .ready previous => previous < revision ∧ (kind = .delta → revision = previous + 1)
  | .receiving _ => False
  | .awaitingSnapshot after => kind = .snapshot ∧ ∀ previous ∈ after, previous < revision

theorem Standing.follows {revision : Nat} {kind : ViewBatchKind}
    (standing : Standing sent entries decoder) (begins : Begins revision kind decoder) :
    Follows entries revision kind := by
  cases decoder with
  | starting =>
    have none_ : entries = [] := standing
    have snapshot : kind = .snapshot := begins
    exact ⟨by simp [none_], by simp [snapshot]⟩
  | ready previous =>
    obtain ⟨below, last, isLast, same⟩ := standing
    refine ⟨fun entry mem => Nat.lt_of_le_of_lt (below entry mem) begins.1, fun delta => ?_⟩
    exact ⟨last, isLast, by rw [same, begins.2 delta]⟩
  | receiving pending => exact begins.elim
  | awaitingSnapshot after =>
    refine ⟨fun entry mem => ?_, by simp [begins.1]⟩
    obtain ⟨previous, isAfter, below⟩ := standing entry mem
    exact Nat.lt_of_le_of_lt below (begins.2 previous isAfter)

/-- Once the batch that follows is applied the assembler is ready at its revision. -/
theorem Follows.ready {batch : Batch Patch} (follows : Follows entries batch.revision batch.kind) :
    Standing sent (entries ++ [entryOf batch]) (.ready batch.revision) := by
  refine ⟨fun entry mem => ?_, entryOf batch, by simp, rfl⟩
  rcases List.mem_append.mp mem with earlier | last
  · exact Nat.le_of_lt (follows.later entry earlier)
  · exact Nat.le_of_eq (congrArg Applied.revision (List.mem_singleton.mp last))

/-- A frame is dropped, ends what was under way, or begins a batch that may follow; or it is
for the batch under way. -/
theorem frame_cases (decoder : Decoder) (frame : ViewFrame Patch) :
    decoder.frame frame = (decoder, .buffered) ∨
      (∃ reason, decoder.frame frame = decoder.fail reason) ∨
      (Begins frame.revision frame.kind decoder ∧ decoder.frame frame = decoder.start frame) ∨
      ∃ pending, decoder = .receiving pending ∧ frame.revision = pending.revision ∧
        frame.kind = pending.kind := by
  by_cases known : Decoder.unsigned frame.revision
  · simp only [Decoder.frame, known, not_true, if_false]
    cases decoder with
    | starting =>
      cases kind : frame.kind with
      | delta => simp
      | snapshot => simp [Begins]
    | ready previous =>
      dsimp only
      split_ifs with stale gap
      · exact .inr (.inl ⟨_, rfl⟩)
      · exact .inr (.inl ⟨_, rfl⟩)
      · refine .inr (.inr (.inl ⟨⟨by omega, fun delta => ?_⟩, rfl⟩))
        by_contra apart
        exact gap ⟨delta, apart⟩
    | receiving pending =>
      dsimp only
      split_ifs with changed
      · exact .inr (.inl ⟨_, rfl⟩)
      · rw [not_or, not_not, not_not] at changed
        exact .inr (.inr (.inr ⟨pending, rfl, changed⟩))
    | awaitingSnapshot after =>
      cases kind : frame.kind with
      | delta => simp
      | snapshot =>
        cases after with
        | none => simp [Begins]
        | some previous =>
          dsimp only
          split_ifs with stale
          · exact .inl rfl
          · refine .inr (.inr (.inl ⟨⟨rfl, fun other same => ?_⟩, rfl⟩))
            cases same
            omega
  · exact .inr (.inl ⟨"invalid view revision", if_pos known⟩)

/-- Every frame of a batch has its revision and kind. -/
theorem identity_of_mem {batch : Batch Patch} (sound : batch.Sound) {frame : ViewFrame Patch}
    (mem : frame ∈ batch.frames) : frame.revision = batch.revision ∧ frame.kind = batch.kind := by
  rcases frames_cases sound with whole | ⟨pieces, fragmented⟩
  · rw [whole, List.mem_singleton] at mem
    simp [mem]
  · obtain ⟨index, bound, rfl⟩ := fragmented.exists_piece mem
    exact ⟨rfl, rfl⟩

/-- What every page comes to that hears from one host only. -/
structure Page.Sound (sent : List (Batch Patch)) (page : Page Patch) : Prop where
  faithful : Faithful sent page.applied
  standing : Standing sent page.applied page.decoder

variable {page : Page Patch} {batch : Batch Patch} {frame : ViewFrame Patch}

theorem Page.Sound.failed (sound : page.Sound sent) {reason : String}
    (fails : page.decoder.frame frame = page.decoder.fail reason) :
    (page.arrive (.frame frame)).Sound sent := by
  have standing := sound.standing.fail reason
  have arrives : page.arrive (.frame frame) = page.took frame (page.decoder.fail reason) := by
    rw [← fails]
    rfl
  rw [arrives]
  cases decoder : page.decoder
  all_goals
    rw [decoder] at standing
    exact ⟨sound.faithful, standing⟩

theorem Page.Sound.kept (sound : page.Sound sent)
    (keeps : page.decoder.frame frame = (decoder, .buffered))
    (standing : Standing sent page.applied decoder) : (page.arrive (.frame frame)).Sound sent := by
  rw [Page.arrive, keeps]
  exact ⟨sound.faithful, standing⟩

theorem Page.Sound.applies (sound : page.Sound sent) (mem : batch ∈ sent)
    (same : frame.revision = batch.revision)
    (follows : Follows page.applied batch.revision batch.kind) (applies : page.decoder.frame frame =
      (.ready batch.revision, .applied batch.kind batch.patches)) :
    (page.arrive (.frame frame)).Sound sent := by
  rw [Page.arrive, applies, Page.took, same]
  exact ⟨.snoc sound.faithful mem follows, follows.ready⟩

/-- A frame that begins its batch. -/
theorem Page.Sound.starts (sound : page.Sound sent) (mem : batch ∈ sent)
    (framed : batch.Sound) (inside : frame ∈ batch.frames)
    (begins : Begins frame.revision frame.kind page.decoder)
    (starts : page.decoder.frame frame = page.decoder.start frame) :
    (page.arrive (.frame frame)).Sound sent := by
  obtain ⟨revision, kind⟩ := identity_of_mem framed inside
  have follows : Follows page.applied batch.revision batch.kind := by
    rw [← revision, ← kind]
    exact sound.standing.follows begins
  rcases frames_cases framed with whole | ⟨pieces, fragmented⟩
  · rw [whole, List.mem_singleton] at inside
    subst inside
    exact sound.applies mem rfl follows starts
  · obtain ⟨index, bound, rfl⟩ := fragmented.exists_piece inside
    by_cases first : index = 0
    · subst first
      rw [fragmented.start_first bound] at starts
      exact sound.kept starts ⟨batch, mem, pieces, 1, fragmented, Nat.one_pos,
        fragmented.cut.several, rfl, follows⟩
    · exact sound.failed (starts.trans (start_later first))

/-- A frame of the batch that is under way. -/
theorem Page.Sound.continues {pieces : List (List Char)} {count : Nat} (reads : ReadsBack Patch)
    (sound : page.Sound sent) (mem : batch ∈ sent) (numbered : batch.revision ≤ U32_MAX)
    (fragmented : Fragmented batch pieces) (some_ : 0 < count) (more : count < pieces.length)
    (receiving : page.decoder = .receiving (held batch pieces count))
    (follows : Follows page.applied batch.revision batch.kind) (inside : frame ∈ batch.frames) :
    (page.arrive (.frame frame)).Sound sent := by
  obtain ⟨index, bound, rfl⟩ := fragmented.exists_piece inside
  by_cases next : index = count
  · subst next
    by_cases last : index + 1 = pieces.length
    · apply sound.applies mem rfl follows
      rw [receiving]
      exact fragmented.frame_last reads numbered some_ bound last
    · have later : index + 1 < pieces.length := by omega
      have keeps : page.decoder.frame (pieceFrame batch pieces (pieces[index], index)) =
          (.receiving (held batch pieces (index + 1)), .buffered) := by
        rw [receiving]
        exact fragmented.frame_next numbered some_ bound later
      exact sound.kept keeps
        ⟨batch, mem, pieces, index + 1, fragmented, by omega, later, rfl, follows⟩
  · obtain ⟨reason, fails⟩ := frame_other batch pieces next
    rw [← receiving] at fails
    exact sound.failed fails

/-- Whatever frame of the host's arrives, the page stays sound. -/
theorem Page.Sound.arrive {host : Host Patch} (reads : ReadsBack Patch) (hosts : host.Sound)
    (sound : page.Sound host.sent) (mem : batch ∈ host.sent) (inside : frame ∈ batch.frames) :
    (page.arrive (.frame frame)).Sound host.sent := by
  have framed := hosts.framed batch mem
  obtain ⟨revision, kind⟩ := identity_of_mem framed inside
  rcases frame_cases page.decoder frame with
    keeps | ⟨reason, fails⟩ | ⟨begins, starts⟩ | ⟨pending, receiving, same, -⟩
  · exact sound.kept keeps sound.standing
  · exact sound.failed fails
  · exact sound.starts mem framed inside begins starts
  · have standing := sound.standing
    rw [receiving] at standing
    obtain ⟨current, isSent, pieces, count, fragmented, some_, more, rfl, follows⟩ := standing
    obtain rfl : batch = current := hosts.unique mem isSent (revision.symm.trans same)
    exact sound.continues reads mem (hosts.revision_le mem) fragmented some_ more receiving
      follows inside

/-- A frame that arrives is one of those that the host sent. -/
def Arrival.From (host : Host Patch) : Arrival Patch → Prop
  | .frame frame => ∃ batch ∈ host.sent, frame ∈ batch.frames
  | .unreadable _ | .reset => True

/-- Frames may be lost, repeated and reordered: what the page applies is what was encoded, with
revisions that grow, and each delta on top of the batch before it. -/
theorem delivery_faithful (reads : ReadsBack Patch)
    (batches : List (ViewBatchKind × List Patch)) (arrivals : List (Arrival Patch))
    (heard : ∀ arrival ∈ arrivals, arrival.From (Host.after batches)) :
    Faithful (Host.after batches).sent (arrivals.foldl Page.arrive .new).applied := by
  have hosts := Host.after_sound batches
  have kept (page : Page Patch) (sound : page.Sound (Host.after batches).sent) :
      (arrivals.foldl Page.arrive page).Sound (Host.after batches).sent := by
    induction arrivals generalizing page with
    | nil => exact sound
    | cons arrival later ih =>
      apply ih fun other mem => heard other (List.mem_cons_of_mem _ mem)
      cases arrival with
      | frame frame =>
        obtain ⟨batch, mem, inside⟩ := heard _ List.mem_cons_self
        exact sound.arrive reads hosts mem inside
      | unreadable reason => exact ⟨sound.faithful, sound.standing.fail reason⟩
      | reset => exact ⟨.nil, rfl⟩
  exact (kept .new ⟨.nil, rfl⟩).faithful

/-! ## In order -/

theorem frame_of_begins (numbered : frame.revision ≤ U32_MAX)
    (begins : Begins frame.revision frame.kind decoder) :
    decoder.frame frame = decoder.start frame := by
  have known : Decoder.unsigned frame.revision := numbered
  cases decoder with
  | starting =>
    have snapshot : frame.kind = .snapshot := begins
    simp [Decoder.frame, known, snapshot]
  | ready previous =>
    have later : ¬ frame.revision ≤ previous := Nat.not_le.mpr begins.1
    have adjacent : ¬ (frame.kind = .delta ∧ frame.revision ≠ previous + 1) :=
      fun gap => gap.2 (begins.2 gap.1)
    simp only [Decoder.frame, known, not_true, if_false, if_neg later, if_neg adjacent]
  | receiving pending => exact begins.elim
  | awaitingSnapshot after =>
    cases after with
    | none => simp [Decoder.frame, known, begins.1]
    | some previous =>
      have later : ¬ frame.revision ≤ previous := Nat.not_le.mpr (begins.2 previous rfl)
      simp only [Decoder.frame, known, not_true, if_false, begins.1, if_neg later]

/-- A page that hears frames. -/
def Page.hear (page : Page Patch) (frames : List (ViewFrame Patch)) : Page Patch :=
  frames.foldl (fun page frame => page.arrive (.frame frame)) page

theorem Page.hear_cons (frames : List (ViewFrame Patch)) :
    page.hear (frame :: frames) = (page.arrive (.frame frame)).hear frames := rfl

theorem Page.hear_append (frames others : List (ViewFrame Patch)) :
    page.hear (frames ++ others) = (page.hear frames).hear others := List.foldl_append

/-- The rest of a batch's fragments conclude it. -/
theorem Page.hear_rest {pieces : List (List Char)} {count : Nat} (reads : ReadsBack Patch)
    (fragmented : Fragmented batch pieces) (numbered : batch.revision ≤ U32_MAX)
    (some_ : 0 < count) (more : count < pieces.length) :
    Page.hear ⟨.receiving (held batch pieces count), entries⟩
      ((pieces.zipIdx.drop count).map (pieceFrame batch pieces)) =
        ⟨.ready batch.revision, entries ++ [entryOf batch]⟩ := by
  have bound : count < pieces.zipIdx.length := by simpa using more
  rw [List.drop_eq_getElem_cons bound, List.map_cons, List.getElem_zipIdx, Nat.zero_add, hear_cons]
  by_cases last : count + 1 = pieces.length
  · have done_ : pieces.zipIdx.drop (count + 1) = [] := by simp [last]
    rw [done_, arrive, fragmented.frame_last reads numbered some_ more last]
    rfl
  · have later : count + 1 < pieces.length := by omega
    rw [arrive, fragmented.frame_next numbered some_ more later]
    exact hear_rest reads fragmented numbered (Nat.succ_pos count) later
termination_by pieces.length - count

/-- A batch that may follow is applied once its frames have come. -/
theorem Page.hear_batch (reads : ReadsBack Patch) (framed : batch.Sound)
    (numbered : batch.revision ≤ U32_MAX) (begins : Begins batch.revision batch.kind page.decoder) :
    page.hear batch.frames = ⟨.ready batch.revision, page.applied ++ [entryOf batch]⟩ := by
  rcases frames_cases framed with whole | ⟨pieces, fragmented⟩
  · rw [whole, hear_cons, arrive, frame_of_begins numbered begins]
    rfl
  · have inside : 0 < pieces.length := Nat.zero_lt_of_lt fragmented.cut.several
    have bound : 0 < pieces.zipIdx.length := by simpa using inside
    rw [fragmented.frames, ← List.drop_zero (l := pieces.zipIdx), List.drop_eq_getElem_cons bound,
      List.map_cons, List.getElem_zipIdx, hear_cons, arrive, frame_of_begins numbered begins,
      fragmented.start_first inside]
    exact hear_rest reads fragmented numbered Nat.one_pos fragmented.cut.several

/-- Batches that are numbered on from the page's revision are all applied. -/
theorem Page.hear_numbered {rest : List (Batch Patch)} {revision : Nat} (reads : ReadsBack Patch)
    (framed : ∀ batch ∈ rest, batch.Sound) (bounded : ∀ batch ∈ rest, batch.revision ≤ U32_MAX)
    (numbered : rest.map Batch.revision = List.range' (revision + 1) rest.length)
    (ready : page.decoder = .ready revision) :
    (page.hear (rest.flatMap Batch.frames)).applied = page.applied ++ rest.map entryOf := by
  induction rest generalizing page revision with
  | nil => simp [hear]
  | cons batch rest ih =>
    rw [List.map_cons, List.length_cons, List.range'_succ, List.cons.injEq] at numbered
    have begins : Begins batch.revision batch.kind page.decoder := by
      rw [ready, numbered.1]
      exact ⟨Nat.lt_succ_self revision, fun _ => rfl⟩
    rw [List.flatMap_cons, hear_append,
      hear_batch reads (framed batch (by simp)) (bounded batch (by simp)) begins,
      ih (fun other mem => framed other (by simp [mem]))
        (fun other mem => bounded other (by simp [mem])) numbered.2 (by rw [numbered.1])]
    simp

/-- A page that has seen no snapshot drops deltas. -/
theorem Page.hear_delta {frames : List (ViewFrame Patch)}
    (deltas : ∀ frame ∈ frames, frame.revision ≤ U32_MAX ∧ frame.kind = .delta)
    (starting : page.decoder = .starting) : page.hear frames = page := by
  induction frames with
  | nil => rfl
  | cons frame later ih =>
    obtain ⟨known, kind⟩ := deltas frame (by simp)
    have dropped : page.decoder.frame frame = (page.decoder, .buffered) := by
      rw [starting]
      simp [Decoder.frame, show Decoder.unsigned frame.revision from known, kind]
    rw [hear_cons, arrive, dropped]
    exact ih fun other mem => deltas other (by simp [mem])

theorem Page.hear_starting {rest : List (Batch Patch)} {revision : Nat} (reads : ReadsBack Patch)
    (framed : ∀ batch ∈ rest, batch.Sound) (bounded : ∀ batch ∈ rest, batch.revision ≤ U32_MAX)
    (numbered : rest.map Batch.revision = List.range' revision rest.length)
    (starting : page.decoder = .starting) : (page.hear (rest.flatMap Batch.frames)).applied =
      page.applied ++ (rest.dropWhile fun batch => batch.kind = .delta).map entryOf := by
  induction rest generalizing revision with
  | nil => simp [hear]
  | cons batch rest ih =>
    have numbers := numbered
    rw [List.map_cons, List.length_cons, List.range'_succ, List.cons.injEq] at numbers
    have here := framed batch (by simp)
    have number := bounded batch (by simp)
    have others (other : Batch Patch) (mem : other ∈ rest) := framed other (by simp [mem])
    have numbers_ (other : Batch Patch) (mem : other ∈ rest) := bounded other (by simp [mem])
    rw [List.flatMap_cons, hear_append]
    cases kind : batch.kind with
    | delta =>
      have deltas : ∀ frame ∈ batch.frames, frame.revision ≤ U32_MAX ∧ frame.kind = .delta := by
        intro frame mem
        obtain ⟨revision, same⟩ := identity_of_mem here mem
        exact ⟨revision ▸ number, same.trans kind⟩
      rw [hear_delta deltas starting, ih others numbers_ numbers.2,
        List.dropWhile_cons_of_pos (by simpa using kind)]
    | snapshot =>
      have begins : Begins batch.revision batch.kind page.decoder := by
        rw [starting]
        exact kind
      rw [hear_batch reads here number begins,
        hear_numbered reads others numbers_ (by rw [numbers.1]; exact numbers.2) rfl,
        List.dropWhile_cons_of_neg (by simp [kind])]
      simp

/-- Frames that all arrive in order apply every batch from the first snapshot on. -/
theorem delivery_in_order (reads : ReadsBack Patch) (batches : List (ViewBatchKind × List Patch)) :
    (Page.hear .new ((Host.after batches).sent.flatMap Batch.frames)).applied =
      ((Host.after batches).sent.dropWhile fun batch => batch.kind = .delta).map entryOf := by
  have hosts := Host.after_sound batches
  have starting : (Page.new : Page Patch).decoder = .starting := rfl
  simpa [Page.new] using Page.hear_starting reads hosts.framed
    (fun batch mem => hosts.revision_le mem) hosts.numbered starting

end Standing

/-! ## Batches of JSON values -/

/-- Patches that are JSON values are written as an array, and no text is that of two arrays. -/
noncomputable instance jsonPatches : PatchText Json where
  toJson patches := String.ofList (Json.print (.array patches))
  patchesOfJson text :=
    open Classical in
    if written : ∃ patches, String.ofList (Json.print (.array patches)) = text then
      .ok written.choose
    else .error "expected an array"

theorem jsonPatches_readsBack : ReadsBack Json := by
  intro patches
  have written : ∃ others, String.ofList (Json.print (.array others)) =
      PatchText.toJson patches := ⟨patches, rfl⟩
  have same := congrArg String.toList written.choose_spec
  have values : written.choose = patches := by
    apply Json.array.inj
    apply Json.print_injective
    simpa [PatchText.toJson] using same
  simp only [PatchText.patchesOfJson, dif_pos written, values]

/-- A delta that comes too early, and the snapshot and the deltas behind it. The second delta
is longer than a frame's data. -/
def session : List (ViewBatchKind × List Json) :=
  [(.delta, [.number 1]), (.snapshot, [.null]),
    (.delta, [.string (String.ofList (List.replicate DATA_LIMIT 'x'))]), (.delta, [.string "more"])]

/-- A session with fragments. -/
theorem session_in_order :
    (Page.hear .new ((Host.after session).sent.flatMap Batch.frames)).applied =
      ((Host.after session).sent.dropWhile fun batch => batch.kind = .delta).map entryOf :=
  delivery_in_order jsonPatches_readsBack session

/-- The frames of a session come backwards, and once more in order. -/
theorem session_faithful : Faithful (Host.after session).sent
      ((((Host.after session).sent.flatMap Batch.frames).reverse ++
        (Host.after session).sent.flatMap Batch.frames).map Arrival.frame |>.foldl
          Page.arrive .new).applied := by
  apply delivery_faithful jsonPatches_readsBack
  intro arrival mem
  obtain ⟨frame, listed, rfl⟩ := List.mem_map.mp mem
  have sent : frame ∈ (Host.after session).sent.flatMap Batch.frames := by simpa using listed
  exact List.mem_flatMap.mp sent

end Nits.Ui
