import Mathlib.Algebra.Group.Nat.Defs
import Mathlib.Order.Basic
import Mathlib.Tactic.ByContra
import Nits.Logical.Incoming

/-!
# Length-prefixed frames

A frame is the length of its payload in four bytes, most significant first, and then the
payload. A reader takes frames off a stream that its peer may end anywhere; what it asks
memory for is on record, because a peer chooses the lengths.
-/

namespace Nits.Nitsd.Codec

open Logical

/-- The largest payload accepted or produced, in bytes. -/
def MAX_FRAME : UInt32 := 64 * 1024 * 1024

abbrev Payload := List UInt8

inductive CodecError
  | oversized (len : UInt32)
  /-- The stream ended before a buffer was full. -/
  | unexpectedEof

/-! ## Lengths -/

def toBeBytes (value : UInt32) : List UInt8 :=
  [.ofNat (value.toNat / 2 ^ 24), .ofNat (value.toNat / 2 ^ 16), .ofNat (value.toNat / 2 ^ 8),
    .ofNat value.toNat]

def fromBeBytes (bytes : List UInt8) : UInt32 :=
  .ofNat (bytes.foldl (fun value byte => value * 2 ^ 8 + byte.toNat) 0)

theorem fromBeBytes_toBeBytes (value : UInt32) : fromBeBytes (toBeBytes value) = value := by
  have small := value.toNat_lt
  rw [← UInt32.toNat_inj]
  simp only [fromBeBytes, toBeBytes, List.foldl_cons, List.foldl_nil, UInt8.toNat_ofNat',
    UInt32.toNat_ofNat']
  omega

/-- A length as a `u32`, if it is one. -/
def u32TryFrom (length : Nat) : Option UInt32 :=
  if length < 2 ^ 32 then some (.ofNat length) else none

/-! ## Writing -/

/-- Write one frame to what was written before. -/
def writeFrame (written : List UInt8) (payload : Payload) : Except CodecError (List UInt8) :=
  match (u32TryFrom payload.length).filter fun len => len ≤ MAX_FRAME with
  | none => .error (.oversized ((u32TryFrom payload.length).getD (.ofNat (2 ^ 32 - 1))))
  | some len => .ok (written ++ toBeBytes len ++ payload)

/-- A payload and the length before it. -/
def frame (payload : Payload) : List UInt8 := toBeBytes (.ofNat payload.length) ++ payload

/-- A payload that fits into a frame. -/
def Fits (payload : Payload) : Prop := payload.length ≤ MAX_FRAME.toNat

instance (payload : Payload) : Decidable (Fits payload) := inferInstanceAs (Decidable (_ ≤ _))

theorem toNat_max_frame : MAX_FRAME.toNat = 67108864 := rfl

theorem Fits.toNat {payload : Payload} (fits : Fits payload) :
    (UInt32.ofNat payload.length).toNat = payload.length := by
  unfold Fits at fits
  rw [toNat_max_frame] at fits
  rw [UInt32.toNat_ofNat']
  omega

theorem Fits.not_large {payload : Payload} (fits : Fits payload) :
    ¬ MAX_FRAME < UInt32.ofNat payload.length := by
  rw [UInt32.lt_iff_toNat_lt, fits.toNat]
  exact Nat.not_lt.mpr fits

theorem writeFrame_of_fits {payload : Payload} (fits : Fits payload) (written : List UInt8) :
    writeFrame written payload = .ok (written ++ frame payload) := by
  have bound : payload.length ≤ 67108864 := fits
  have len : u32TryFrom payload.length = some (.ofNat payload.length) := if_pos (by omega)
  have small : UInt32.ofNat payload.length ≤ MAX_FRAME := by
    rw [UInt32.le_iff_toNat_le, fits.toNat]
    exact fits
  rw [writeFrame, len, Option.filter_some, if_pos (decide_eq_true small)]
  exact congrArg Except.ok (List.append_assoc _ _ _)

theorem writeFrame_of_not_fits {payload : Payload} (unfit : ¬ Fits payload)
    (written : List UInt8) : ∃ len, writeFrame written payload = .error (.oversized len) := by
  have refused : (u32TryFrom payload.length).filter (fun len => len ≤ MAX_FRAME) = none := by
    unfold u32TryFrom
    split
    next small =>
      have large : ¬ UInt32.ofNat payload.length ≤ MAX_FRAME := by
        intro fits
        rw [UInt32.le_iff_toNat_le, UInt32.toNat_ofNat', Nat.mod_eq_of_lt small] at fits
        exact unfit fits
      rw [Option.filter_some, if_neg (by simpa using large)]
    · rfl
  rw [writeFrame, refused]
  exact ⟨_, rfl⟩

/-- Exactly the payloads up to the limit are written. -/
theorem writeFrame_iff (written : List UInt8) (payload : Payload) :
    (∃ after, writeFrame written payload = .ok after) ↔ Fits payload := by
  constructor
  · rintro ⟨after, accepted⟩
    by_contra unfit
    obtain ⟨len, refused⟩ := writeFrame_of_not_fits unfit written
    rw [refused] at accepted
    cases accepted
  · exact fun fits => ⟨_, writeFrame_of_fits fits written⟩

/-- What is written when payloads are written in order; a refused one leaves nothing. -/
def writeFrames (payloads : List Payload) : List UInt8 :=
  payloads.foldl (fun written payload => match writeFrame written payload with
    | .ok after => after
    | .error _ => written) []

theorem writeFrames_eq (payloads : List Payload) :
    writeFrames payloads = (payloads.filter fun payload => Fits payload).flatMap frame := by
  suffices ∀ written, payloads.foldl (fun written payload => match writeFrame written payload with
      | .ok after => after
      | .error _ => written) written =
      written ++ (payloads.filter fun payload => Fits payload).flatMap frame from this []
  induction payloads with
  | nil => exact fun written => (List.append_nil written).symm
  | cons payload later ih =>
    intro written
    rw [List.foldl_cons, ih]
    by_cases fits : Fits payload
    · rw [writeFrame_of_fits fits, List.filter_cons, if_pos (decide_eq_true fits),
        List.flatMap_cons, ← List.append_assoc]
    · obtain ⟨len, refused⟩ := writeFrame_of_not_fits fits written
      rw [refused, List.filter_cons, if_neg (by simpa using fits)]

/-! ## Reading -/

/-- What is still to come, and the sizes of the buffers made so far. -/
structure Reader where
  incoming : Incoming UInt8
  allocated : List Nat

/-- Read one frame. The end of the stream inside a length reads as one before it. -/
def readFrame (reader : Reader) : Except CodecError (Option Payload) × Reader :=
  match reader.incoming.readExact 4 with
  | (none, rest) => (.ok none, ⟨rest, reader.allocated⟩)
  | (some bytes, rest) =>
    let len := fromBeBytes bytes
    if MAX_FRAME < len then (.error (.oversized len), ⟨rest, reader.allocated⟩)
    else
      let made := reader.allocated ++ [len.toNat]
      match rest.readExact len.toNat with
      | (none, rest) => (.error .unexpectedEof, ⟨rest, made⟩)
      | (some payload, rest) => (.ok (some payload), ⟨rest, made⟩)

/-- What so many successive reads return. -/
def readFrames : Nat → Reader → List (Except CodecError (Option Payload))
  | 0, _ => []
  | count + 1, reader => (readFrame reader).1 :: readFrames count (readFrame reader).2

/-- The bytes still to come. -/
def Reader.content (reader : Reader) : List UInt8 := reader.incoming.content

theorem length_frame (payload : Payload) : (frame payload).length = 4 + payload.length := by
  rw [frame, List.length_append]
  rfl

variable {reader : Reader}

/-- A whole frame is read, whatever follows it. -/
theorem readFrame_frame {payload : Payload} (fits : Fits payload) {later : List UInt8}
    (sent : reader.content = frame payload ++ later) :
    (readFrame reader).1 = .ok (some payload) ∧ (readFrame reader).2.content = later := by
  have content : reader.incoming.content =
      toBeBytes (.ofNat payload.length) ++ (payload ++ later) := by
    rw [← List.append_assoc]
    exact sent
  obtain ⟨rest, read, left⟩ := Incoming.readExact_enough 4 reader.incoming (by
    rw [content, List.length_append]
    exact Nat.le_add_right 4 _)
  have bytes : reader.incoming.content.take 4 = toBeBytes (.ofNat payload.length) := by
    rw [content]
    exact List.take_left' rfl
  have behind : rest.content = payload ++ later := by
    rw [left, content]
    exact List.drop_left' rfl
  obtain ⟨last, readRest, leftRest⟩ := Incoming.readExact_enough payload.length rest
    (by rw [behind, List.length_append]; exact Nat.le_add_right _ _)
  unfold readFrame
  rw [read, bytes]
  dsimp only
  rw [fromBeBytes_toBeBytes, if_neg fits.not_large, fits.toNat, readRest, behind]
  refine ⟨?_, ?_⟩
  · rw [List.take_left]
  · exact (leftRest.trans (congrArg (List.drop _) behind)).trans (List.drop_left)

/-- An end before the length is whole reads as the end of the stream. -/
theorem readFrame_short (short : reader.content.length < 4) :
    (readFrame reader).1 = .ok none ∧ (readFrame reader).2.content = [] := by
  obtain ⟨rest, read, left⟩ := Incoming.readExact_short _ _ short
  unfold readFrame
  rw [read]
  exact ⟨rfl, left⟩

/-- An end inside a payload is an error. -/
theorem readFrame_cut {payload : Payload} (fits : Fits payload)
    (started : reader.content <+: frame payload) (long : 4 ≤ reader.content.length)
    (cut : reader.content.length < 4 + payload.length) :
    (readFrame reader).1 = .error .unexpectedEof := by
  obtain ⟨rest, read, left⟩ := Incoming.readExact_enough 4 reader.incoming long
  have bytes : reader.incoming.content.take 4 = toBeBytes (.ofNat payload.length) := by
    have front : reader.content.take 4 <+: frame payload := (List.take_prefix 4 _).trans started
    refine (List.prefix_of_prefix_length_le front (List.prefix_append _ payload) ?_).eq_of_length ?_
    · exact List.length_take_le 4 _
    · rw [List.length_take, Nat.min_eq_left long]
      rfl
  have short : rest.content.length < payload.length := by
    rw [left, List.length_drop]
    unfold Reader.content at cut long
    omega
  obtain ⟨last, readRest, _⟩ := Incoming.readExact_short _ _ short
  unfold readFrame
  rw [read, bytes]
  dsimp only
  rw [fromBeBytes_toBeBytes, if_neg fits.not_large, fits.toNat, readRest]

/-- No buffer of more than a frame's largest payload is ever made. -/
theorem readFrame_allocates (reader : Reader) :
    ∃ made, (readFrame reader).2.allocated = reader.allocated ++ made ∧
      ∀ size ∈ made, size ≤ MAX_FRAME.toNat := by
  unfold readFrame
  split
  · exact ⟨[], (List.append_nil _).symm, by simp⟩
  · dsimp only
    split
    · exact ⟨[], (List.append_nil _).symm, by simp⟩
    next bytes rest _ small =>
      have bound : (fromBeBytes bytes).toNat ≤ MAX_FRAME.toNat := by
        rw [UInt32.lt_iff_toNat_lt] at small
        omega
      split <;> exact ⟨[(fromBeBytes bytes).toNat], rfl, by simpa using bound⟩

/-- A length above the limit is refused before a buffer is made. -/
theorem readFrame_oversized {bytes : List UInt8} {rest : Incoming UInt8}
    (read : reader.incoming.readExact 4 = (some bytes, rest))
    (large : MAX_FRAME < fromBeBytes bytes) :
    readFrame reader = (.error (.oversized (fromBeBytes bytes)), ⟨rest, reader.allocated⟩) := by
  unfold readFrame
  rw [read]
  dsimp only
  rw [if_pos large]

/-! ## A stream that ends anywhere -/

/-- The frames that are whole before a cut of so many bytes, and how far into the next
frame the cut is. -/
def wholeBefore : List Payload → Nat → List Payload × Nat
  | [], cut => ([], cut)
  | payload :: later, cut =>
    if 4 + payload.length ≤ cut then
      let rest := wholeBefore later (cut - (4 + payload.length))
      (payload :: rest.1, rest.2)
    else ([], cut)

/-- Successive reads return exactly the frames that are whole, and then the end of the
stream at a boundary and an error inside a frame. -/
def ReadsWhole (payloads : List Payload) (reader : Reader) : Prop :=
  let before := wholeBefore payloads reader.content.length
  ∃ last, readFrames (before.1.length + 1) reader =
      before.1.map (fun payload => .ok (some payload)) ++ [last] ∧
    if before.2 = 0 then last = .ok none else ∃ error, last = .error error

/-- The stream ends inside a frame's length. -/
def EndsInLength (payloads : List Payload) (reader : Reader) : Prop :=
  let left := (wholeBefore payloads reader.content.length).2
  0 < left ∧ left < 4

instance (payloads : List Payload) (reader : Reader) : Decidable (EndsInLength payloads reader) :=
  inferInstanceAs (Decidable (_ ∧ _))

/-- The frames that are whole are read, and then one more read is made of what is left. -/
theorem readFrames_spec {payloads : List Payload} (fit : ∀ payload ∈ payloads, Fits payload)
    (sent : reader.content <+: payloads.flatMap frame) :
    let before := wholeBefore payloads reader.content.length
    readFrames (before.1.length + 1) reader =
      before.1.map (fun payload => .ok (some payload)) ++
        [if before.2 < 4 then .ok none else .error .unexpectedEof] := by
  induction payloads generalizing reader with
  | nil =>
    have empty : reader.content = [] := List.prefix_nil.mp sent
    have short : reader.content.length < 4 := by rw [empty]; decide
    dsimp only [wholeBefore]
    rw [if_pos short]
    exact congrArg (· :: []) (readFrame_short short).1
  | cons payload later ih =>
    obtain ⟨fits, fitLater⟩ := List.forall_mem_cons.mp fit
    rw [List.flatMap_cons] at sent
    by_cases whole : 4 + payload.length ≤ reader.content.length
    · obtain ⟨rest, content⟩ : ∃ rest, reader.content = frame payload ++ rest := by
        have front := List.prefix_of_prefix_length_le (List.prefix_append (frame payload) _) sent
          (by rw [length_frame]; exact whole)
        exact ⟨_, (List.prefix_iff_eq_append.mp front).symm⟩
      obtain ⟨read, left⟩ := readFrame_frame fits content
      have sentLater : (readFrame reader).2.content <+: later.flatMap frame := by
        rw [left]
        rw [content] at sent
        exact (List.prefix_append_right_inj _).mp sent
      have after := ih fitLater sentLater
      have length : (readFrame reader).2.content.length =
          reader.content.length - (4 + payload.length) := by
        rw [left, content, List.length_append, length_frame]
        omega
      rw [length] at after
      dsimp only [wholeBefore] at after ⊢
      rw [if_pos whole]
      dsimp only
      rw [List.length_cons, readFrames, read, after]
      rfl
    · have started : reader.content <+: frame payload :=
        List.prefix_of_prefix_length_le sent (List.prefix_append _ _) (by
          rw [length_frame]
          omega)
      dsimp only [wholeBefore]
      rw [if_neg whole]
      dsimp only
      split
      next short => exact congrArg (· :: []) (readFrame_short short).1
      next long => exact congrArg (· :: []) (readFrame_cut fits started (by omega) (by omega))

/-- Reads are as documented exactly when the stream does not end inside a length. -/
theorem readsWhole_iff {payloads : List Payload} (fit : ∀ payload ∈ payloads, Fits payload)
    (sent : reader.content <+: payloads.flatMap frame) :
    ReadsWhole payloads reader ↔ ¬ EndsInLength payloads reader := by
  have reads := readFrames_spec fit sent
  unfold ReadsWhole EndsInLength
  generalize wholeBefore payloads reader.content.length = position at reads ⊢
  obtain ⟨whole, left⟩ := position
  dsimp only at reads ⊢
  constructor
  · rintro ⟨last, same, documented⟩ ⟨inside, short⟩
    rw [reads, if_pos short, List.append_cancel_left_eq, List.singleton_inj] at same
    rw [if_neg (by omega)] at documented
    obtain ⟨error, failed⟩ := documented
    rw [failed] at same
    cases same
  · intro outside
    refine ⟨_, reads, ?_⟩
    by_cases boundary : left = 0
    · rw [if_pos boundary, if_pos (by omega)]
    · rw [if_neg boundary, if_neg (by omega)]
      exact ⟨_, rfl⟩

/-- Frames are delivered whole or not at all, unless the stream ends inside a length. -/
theorem frames_delivered_iff (reader : Reader) :
    (∀ written payload, (∃ after, writeFrame written payload = .ok after) ↔
      payload.length ≤ MAX_FRAME.toNat) ∧
    (∀ payloads, reader.content <+: writeFrames payloads →
      (ReadsWhole (payloads.filter fun payload => Fits payload) reader ↔
        ¬ EndsInLength (payloads.filter fun payload => Fits payload) reader)) ∧
    (∀ bytes rest, reader.incoming.readExact 4 = (some bytes, rest) →
      MAX_FRAME < fromBeBytes bytes →
        readFrame reader = (.error (.oversized (fromBeBytes bytes)), ⟨rest, reader.allocated⟩)) ∧
    ∃ made, (readFrame reader).2.allocated = reader.allocated ++ made ∧
      ∀ size ∈ made, size ≤ MAX_FRAME.toNat := by
  refine ⟨writeFrame_iff, fun payloads sent => ?_, fun _ _ => readFrame_oversized,
    readFrame_allocates reader⟩
  rw [writeFrames_eq] at sent
  exact readsWhole_iff (fun payload isSent => of_decide_eq_true (List.mem_filter.mp isSent).2) sent

/-- A frame of two bytes and an empty one that come in three pieces. -/
def splitReader : Reader := ⟨⟨[[0, 0], [0, 2, 1], [2, 0, 0, 0, 0]], by decide⟩, []⟩

theorem content_splitReader : splitReader.content = writeFrames [[1, 2], []] := by
  rw [writeFrames_eq]
  decide

/-- A stream that begins with a length of more than a gigabyte. -/
def greedyReader : Reader := ⟨⟨[[64, 0, 0, 1]], by decide⟩, []⟩

/-- A frame that arrives in pieces. -/
theorem split_reads_whole :
    ReadsWhole ([[1, 2], []].filter fun payload => Fits payload) splitReader ∧
      ∃ rest, readFrame greedyReader = (.error (.oversized 1073741825), ⟨rest, []⟩) := by
  obtain ⟨rest, read, _⟩ := Incoming.readExact_enough 4 greedyReader.incoming (by decide)
  refine ⟨?_, rest, ?_⟩
  · have sent : splitReader.content <+: writeFrames [[1, 2], []] :=
      ⟨[], (List.append_nil _).trans content_splitReader⟩
    exact ((frames_delivered_iff splitReader).2.1 _ sent).mpr (by decide)
  · exact (frames_delivered_iff greedyReader).2.2.1 [64, 0, 0, 1] rest read (by decide)

/-- One empty frame, cut after two bytes of its length. -/
def cutReader : Reader := ⟨⟨[[0, 0]], by decide⟩, []⟩

/-- A stream cut inside the length of its only frame reads as a clean end. -/
theorem cut_reads_clean : cutReader.content <+: writeFrames [[]] ∧ ¬ ReadsWhole [[]] cutReader ∧
      readFrames 1 cutReader = [.ok none] := by
  have sent : cutReader.content <+: frame [] := ⟨[0, 0], by decide⟩
  have written : writeFrames [[]] = [[]].flatMap frame :=
    (writeFrames_eq [[]]).trans (congrArg _ (by decide))
  refine ⟨?_, ?_, ?_⟩
  · rw [written, List.flatMap_singleton]
    exact sent
  · rw [readsWhole_iff (by decide) (by rwa [List.flatMap_singleton])]
    decide
  · exact congrArg (· :: []) (readFrame_short (by decide)).1

end Nits.Nitsd.Codec
