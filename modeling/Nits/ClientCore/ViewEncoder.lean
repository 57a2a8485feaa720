import Mathlib.Algebra.Order.BigOperators.Group.List
import Mathlib.Data.List.Nodup
import Mathlib.Tactic.IntervalCases
import Nits.Logical.Greedy
import Nits.Logical.Json
import Nits.Logical.Program

/-!
# Bounded view messages

A batch of patches goes to the page in one frame if its message stays below the budget.
Otherwise its text is cut into fragments, which the page puts together again.
-/

namespace Nits.ClientCore

open Logical

/-- The complete message of a frame must stay below this. -/
def VIEW_MESSAGE_LIMIT : Nat := 64 * 1024

def FRAME_LIMIT : Nat := VIEW_MESSAGE_LIMIT - 1024

def U32_MAX : Nat := 2 ^ 32 - 1

/-- How the patches of a batch are written, and read back by the page. -/
class PatchText (Patch : Type) where
  toJson : List Patch → String
  patchesOfJson : String → Except String (List Patch)

/-- The page reads the patches that were written. -/
def ReadsBack (Patch : Type) [PatchText Patch] : Prop :=
  ∀ patches : List Patch, PatchText.patchesOfJson (PatchText.toJson patches) = .ok patches

inductive ViewBatchKind
  | snapshot
  | delta
  deriving DecidableEq

inductive ViewFragmentPosition
  | start (bytes : Nat)
  | more (index : Nat)
  | end_ (index : Nat)

inductive ViewFrameBody (Patch : Type)
  | complete (patches : List Patch)
  | fragment (position : ViewFragmentPosition) (json : String)

/-- A frame: its revision and kind, and what it carries. -/
structure ViewFrame (Patch : Type) where
  revision : Nat
  kind : ViewBatchKind
  body : ViewFrameBody Patch

inductive ViewDeliveryError
  | revisionExhausted
  | batchTooLarge
  | frameTooLarge

/-! ## The message of a frame -/

/-- The bytes of a text. -/
def textBytes (text : List Char) : Nat := extent Char.utf8Size text

/-- An object whose fields have been written. -/
def objectText (fields : List (String × List Char)) : List Char :=
  '{' :: ([','].intercalate (fields.map fun field => Json.quote field.1 ++ ':' :: field.2) ++ ['}'])

def numberText (value : Nat) : List Char := Nat.toDigits 10 value

def ViewBatchKind.text : ViewBatchKind → List Char
  | .snapshot => Json.quote "Snapshot"
  | .delta => Json.quote "Delta"

def ViewFragmentPosition.text : ViewFragmentPosition → List Char
  | .start bytes => objectText [("type", Json.quote "Start"), ("bytes", numberText bytes)]
  | .more index => objectText [("type", Json.quote "More"), ("index", numberText index)]
  | .end_ index => objectText [("type", Json.quote "End"), ("index", numberText index)]

section

variable {Patch : Type} [PatchText Patch]

def ViewFrameBody.text : ViewFrameBody Patch → List Char
  | .complete patches => objectText
      [("type", Json.quote "Complete"), ("patches", (PatchText.toJson patches).toList)]
  | .fragment position json => objectText
      [("type", Json.quote "Fragment"), ("position", position.text), ("json", Json.quote json)]

def ViewFrame.text (frame : ViewFrame Patch) : List Char :=
  objectText [("revision", numberText frame.revision), ("kind", frame.kind.text),
    ("body", frame.body.text)]

/-- The length of the frame's message. -/
def ViewFrame.bytes (frame : ViewFrame Patch) : Nat := textBytes frame.text

/-! ## Encoding -/

/-- What a character takes inside a string. -/
def escapedLen (c : Char) : Nat :=
  if c = '"' ∨ c = '\\' ∨ c.toNat = 0x08 ∨ c.toNat = 0x0C ∨ c.toNat = 0x0A ∨ c.toNat = 0x0D ∨
      c.toNat = 0x09 then 2
  else if c.toNat < 0x20 then 6
  else c.utf8Size

/-- Room is left for the rest of the message. -/
def DATA_LIMIT : Nat := FRAME_LIMIT - 1024

def fragmentPosition (bytes last offset : Nat) : Except ViewDeliveryError ViewFragmentPosition :=
  if offset = 0 then .ok (.start bytes)
  else if offset ≤ U32_MAX then .ok (if offset = last then .end_ offset else .more offset)
  else .error .batchTooLarge

def fragment (revision : Nat) (kind : ViewBatchKind) (json : String) :
    Except ViewDeliveryError (List (ViewFrame Patch)) := do
  let bytes ← if json.utf8ByteSize ≠ 0 ∧ json.utf8ByteSize ≤ U32_MAX then .ok json.utf8ByteSize
    else .error .batchTooLarge
  let pieces := cutFrom escapedLen DATA_LIMIT [] 0 json.toList
  pieces.zipIdx.mapM fun (piece, offset) => do
    let position ← fragmentPosition bytes (pieces.length - 1) offset
    pure ⟨revision, kind, .fragment position (String.ofList piece)⟩

/-- The last revision that was framed. -/
structure ViewEncoder where
  revision : Nat

def ViewEncoder.default : ViewEncoder := ⟨0⟩

def ViewEncoder.next (encoder : ViewEncoder) : Except ViewDeliveryError Nat :=
  if encoder.revision < U32_MAX then .ok (encoder.revision + 1) else .error .revisionExhausted

def framed (complete : ViewFrame Patch) (patches : List Patch) :
    Except ViewDeliveryError (List (ViewFrame Patch)) :=
  if complete.bytes < FRAME_LIMIT then .ok [complete]
  else fragment complete.revision complete.kind (PatchText.toJson patches)

/-- The real messages are checked too, not only the estimate that they were cut by. -/
def checked (frames : List (ViewFrame Patch)) :
    Except ViewDeliveryError (List (ViewFrame Patch)) :=
  if frames.any fun frame => FRAME_LIMIT ≤ frame.bytes then .error .frameTooLarge
  else .ok frames

/-- The frames of the next batch. The revision moves on only with them. -/
def ViewEncoder.encode (encoder : ViewEncoder) (kind : ViewBatchKind) (patches : List Patch) :
    Except ViewDeliveryError (List (ViewFrame Patch) × ViewEncoder) := do
  let revision ← encoder.next
  let frames ← checked (← framed ⟨revision, kind, .complete patches⟩ patches)
  pure (frames, ⟨revision⟩)

end

/-! ## Lengths -/

@[simp] theorem textBytes_nil : textBytes [] = 0 := rfl

@[simp] theorem textBytes_cons (c : Char) (text : List Char) :
    textBytes (c :: text) = c.utf8Size + textBytes text := extent_cons _ _ _

@[simp] theorem textBytes_append (text others : List Char) :
    textBytes (text ++ others) = textBytes text + textBytes others := extent_append _ _ _

theorem textBytes_toList (text : String) : textBytes text.toList = text.utf8ByteSize :=
  (utf8ByteSize_eq text).symm

/-- A character that is written as one byte. -/
theorem utf8Size_of_ascii {c : Char} (ascii : c.toNat < 0x80) : c.utf8Size = 1 := by
  have small : c.val ≤ 0x7f := UInt32.le_iff_toNat_le.mpr (Nat.le_of_lt_succ ascii)
  simp [Char.utf8Size, small]

theorem utf8Size_hexDigit (n : Nat) : (Json.hexDigit n).utf8Size = 1 := by
  by_cases small : n < 16
  · interval_cases n <;> rfl
  · have outside : "0123456789abcdef".toList.length ≤ n := Nat.le_of_not_lt small
    rw [Json.hexDigit, List.getD_eq_getElem?_getD, List.getElem?_eq_none outside]
    rfl

/-- The cost of a character is what it takes in the message. -/
theorem textBytes_escape (c : Char) : textBytes (Json.escape c) = escapedLen c := by
  unfold Json.escape escapedLen
  split_ifs <;> simp_all [utf8Size_hexDigit] <;> rfl

theorem utf8Size_le_escapedLen (c : Char) : c.utf8Size ≤ escapedLen c := by
  unfold escapedLen
  split_ifs with marked low
  · have ascii : c.toNat < 0x80 := by
      rcases marked with rfl | rfl | marked | marked | marked | marked | marked
      · decide
      · decide
      all_goals omega
    rw [utf8Size_of_ascii ascii]
    omega
  · rw [utf8Size_of_ascii (by omega)]
    omega
  · exact Nat.le_refl _

theorem escapedLen_le (c : Char) : escapedLen c ≤ 6 := by
  unfold escapedLen
  have := c.utf8Size_le_four
  split_ifs <;> omega

theorem textBytes_quote (text : String) :
    textBytes (Json.quote text) = extent escapedLen text.toList + 2 := by
  have inside (chars : List Char) :
      textBytes (chars.flatMap Json.escape) = extent escapedLen chars := by
    induction chars with
    | nil => rfl
    | cons c rest ih => simp [textBytes_escape, ih]
  have mark : '"'.utf8Size = 1 := rfl
  simp [Json.quote, inside, mark]
  omega

theorem textBytes_numberText {value : Nat} (bounded : value ≤ U32_MAX) :
    textBytes (numberText value) ≤ 10 := by
  have single : ∀ c ∈ numberText value, c.utf8Size = 1 := by
    intro c mem
    have digit := Nat.isDigit_of_mem_toDigits (by decide) (by decide) mem
    apply utf8Size_of_ascii
    simp only [Char.isDigit, Bool.and_eq_true, decide_eq_true_eq] at digit
    have := UInt32.le_iff_toNat_le.mp digit.2
    have nine : '9'.val.toNat = 57 := rfl
    have same : c.toNat = c.val.toNat := rfl
    omega
  have counted : textBytes (numberText value) = (numberText value).length := by
    rw [textBytes, extent, List.map_congr_left single]
    simp
  rw [counted, numberText, Nat.length_toDigits_le_iff (by decide) (by decide)]
  exact Nat.lt_of_le_of_lt bounded (by decide)

/-! ## What a batch is sent as -/

section

variable {Patch : Type} [PatchText Patch] {revision : Nat} {kind : ViewBatchKind}
  {patches : List Patch} {encoder after : ViewEncoder} {frames : List (ViewFrame Patch)}

/-- Where a piece is among those of its batch. -/
def positionAt (bytes last offset : Nat) : ViewFragmentPosition :=
  if offset = 0 then .start bytes else if offset = last then .end_ offset else .more offset

/-- The frame of a piece. -/
def fragmentAt (revision : Nat) (kind : ViewBatchKind) (bytes last : Nat)
    (piece : List Char × Nat) : ViewFrame Patch :=
  ⟨revision, kind, .fragment (positionAt bytes last piece.2) (String.ofList piece.1)⟩

/-- Several pieces, none of them empty, that make up a text. -/
structure Cut (json : String) (pieces : List (List Char)) : Prop where
  whole : pieces.flatten = json.toList
  several : 1 < pieces.length
  nonempty : ∀ piece ∈ pieces, piece ≠ []
  room : json.utf8ByteSize ≤ U32_MAX

/-- A batch goes in one frame, or in a fragment for each piece of its text. -/
inductive Framed (revision : Nat) (kind : ViewBatchKind) (patches : List Patch) :
    List (ViewFrame Patch) → Prop
  | complete : Framed revision kind patches [⟨revision, kind, .complete patches⟩]
  | fragments {pieces : List (List Char)} (cut : Cut (PatchText.toJson patches) pieces) :
      Framed revision kind patches (pieces.zipIdx.map (fragmentAt revision kind
        (PatchText.toJson patches).utf8ByteSize (pieces.length - 1)))

theorem textBytes_objectText_two (first second : String) (one two : List Char) :
    textBytes (objectText [(first, one), (second, two)]) =
      textBytes (Json.quote first) + textBytes one + textBytes (Json.quote second) +
        textBytes two + 5 := by
  have marks : '{'.utf8Size = 1 ∧ '}'.utf8Size = 1 ∧ ':'.utf8Size = 1 ∧ ','.utf8Size = 1 := by
    decide
  simp [objectText, List.intercalate, marks]
  omega

theorem textBytes_objectText_three (first second third : String) (one two three : List Char) :
    textBytes (objectText [(first, one), (second, two), (third, three)]) =
      textBytes (Json.quote first) + textBytes one + textBytes (Json.quote second) +
        textBytes two + textBytes (Json.quote third) + textBytes three + 7 := by
  have marks : '{'.utf8Size = 1 ∧ '}'.utf8Size = 1 ∧ ':'.utf8Size = 1 ∧ ','.utf8Size = 1 := by
    decide
  simp [objectText, List.intercalate, marks]
  omega

/-- No name of a message is long. -/
theorem textBytes_names : ∀ name ∈ ["revision", "kind", "body", "type", "position", "json",
    "patches", "bytes", "index", "Start", "More", "End", "Complete", "Fragment", "Snapshot",
    "Delta"], textBytes (Json.quote name) ≤ 10 := by decide

theorem textBytes_positionAt {bytes offset : Nat} (last : Nat) (total : bytes ≤ U32_MAX)
    (bounded : offset ≤ U32_MAX) : textBytes (positionAt bytes last offset).text ≤ 45 := by
  have types := textBytes_names "type" (by simp)
  have totals := textBytes_names "bytes" (by simp)
  have indexes := textBytes_names "index" (by simp)
  have starts := textBytes_names "Start" (by simp)
  have mores := textBytes_names "More" (by simp)
  have ends := textBytes_names "End" (by simp)
  have total_ := textBytes_numberText total
  have index_ := textBytes_numberText bounded
  unfold positionAt
  split_ifs <;> simp only [ViewFragmentPosition.text, textBytes_objectText_two] <;> omega

/-- What is around the body of a frame is short. -/
theorem bytes_le (frame : ViewFrame Patch) (bounded : frame.revision ≤ U32_MAX) :
    frame.bytes ≤ textBytes frame.body.text + 57 := by
  have number := textBytes_numberText bounded
  have revisions := textBytes_names "revision" (by simp)
  have kinds := textBytes_names "kind" (by simp)
  have kind_ : textBytes frame.kind.text ≤ 10 := by
    cases frame.kind
    · exact textBytes_names "Snapshot" (by simp)
    · exact textBytes_names "Delta" (by simp)
  have bodies := textBytes_names "body" (by simp)
  simp only [ViewFrame.bytes, ViewFrame.text, textBytes_objectText_three]
  omega

theorem bytes_complete (kind : ViewBatchKind) (patches : List Patch)
    (bounded : revision ≤ U32_MAX) : (⟨revision, kind, .complete patches⟩ : ViewFrame Patch).bytes ≤
      (PatchText.toJson patches).utf8ByteSize + 92 := by
  have around := bytes_le (⟨revision, kind, .complete patches⟩ : ViewFrame Patch) bounded
  have types := textBytes_names "type" (by simp)
  have completes := textBytes_names "Complete" (by simp)
  have patches_ := textBytes_names "patches" (by simp)
  simp only [ViewFrameBody.text, textBytes_objectText_two, textBytes_toList] at around
  omega

theorem bytes_fragmentAt {bytes : Nat} (kind : ViewBatchKind) (last : Nat)
    (piece : List Char × Nat) (bounded : revision ≤ U32_MAX) (total : bytes ≤ U32_MAX)
    (index : piece.2 ≤ U32_MAX) :
    (fragmentAt revision kind bytes last piece : ViewFrame Patch).bytes ≤
      extent escapedLen piece.1 + 151 := by
  have around := bytes_le (fragmentAt revision kind bytes last piece : ViewFrame Patch) bounded
  have body : (fragmentAt revision kind bytes last piece : ViewFrame Patch).body.text =
      objectText [("type", Json.quote "Fragment"),
        ("position", (positionAt bytes last piece.2).text),
        ("json", Json.quote (String.ofList piece.1))] := rfl
  have types := textBytes_names "type" (by simp)
  have fragments := textBytes_names "Fragment" (by simp)
  have positions := textBytes_names "position" (by simp)
  have jsons := textBytes_names "json" (by simp)
  have position := textBytes_positionAt last total index
  have text := textBytes_quote (String.ofList piece.1)
  rw [body, textBytes_objectText_three] at around
  rw [String.toList_ofList] at text
  omega

/-- The pieces of a text that is too long for one of them. -/
theorem cut_of_large {json : String} (large : DATA_LIMIT < json.utf8ByteSize)
    (room : json.utf8ByteSize ≤ U32_MAX) :
    Cut json (cutFrom escapedLen DATA_LIMIT [] 0 json.toList) := by
  have each : ∀ c ∈ json.toList, escapedLen c ≤ DATA_LIMIT :=
    fun c _ => Nat.le_trans (escapedLen_le c) (by decide)
  have costs : json.utf8ByteSize ≤ extent escapedLen json.toList := by
    rw [utf8ByteSize_eq]
    exact List.sum_le_sum fun c _ => utf8Size_le_escapedLen c
  have some_ : json.toList ≠ [] := by
    intro none_
    rw [none_, extent_nil] at costs
    omega
  refine ⟨by simp, one_lt_length_cutFrom each rfl (Nat.zero_le _) ?_, ?_, room⟩
  · simp only [List.nil_append]
    omega
  · exact nonempty_of_mem_cutFrom each (.inr ⟨some_, rfl⟩)

/-- There are no more pieces than bytes. -/
theorem Cut.length_le {json : String} {pieces : List (List Char)} (cut : Cut json pieces) :
    pieces.length ≤ json.utf8ByteSize := by
  have counted : ∀ parts : List (List Char), (∀ part ∈ parts, part ≠ []) →
      parts.length ≤ textBytes parts.flatten := by
    intro parts nonempty
    induction parts with
    | nil => simp
    | cons part rest ih =>
      have later := ih fun other mem => nonempty other (by simp [mem])
      obtain ⟨c, others, rfl⟩ := List.exists_cons_of_ne_nil (nonempty part (by simp))
      have := c.utf8Size_pos
      simp
      omega
  rw [← textBytes_toList, ← cut.whole]
  exact counted pieces cut.nonempty

/-- The frames of the fragments of a batch. -/
def fragments (revision : Nat) (kind : ViewBatchKind) (patches : List Patch) :
    List (ViewFrame Patch) :=
  let pieces := cutFrom escapedLen DATA_LIMIT [] 0 (PatchText.toJson patches).toList
  pieces.zipIdx.map (fragmentAt revision kind (PatchText.toJson patches).utf8ByteSize
    (pieces.length - 1))

theorem fragment_eq (revision : Nat) (kind : ViewBatchKind)
    (large : DATA_LIMIT < (PatchText.toJson patches).utf8ByteSize)
    (room : (PatchText.toJson patches).utf8ByteSize ≤ U32_MAX) :
    fragment revision kind (PatchText.toJson patches) =
      .ok (fragments revision kind patches) := by
  have fits := (cut_of_large large room).length_le
  have some_ : (PatchText.toJson patches).utf8ByteSize ≠ 0 := by omega
  unfold fragment
  rw [if_pos ⟨some_, room⟩]
  refine mapM_eq_ok fun ⟨piece, offset⟩ mem => ?_
  have bound := (List.mem_zipIdx' mem).1
  have small : offset ≤ U32_MAX := by omega
  simp only [fragmentPosition, fragmentAt, positionAt]
  split_ifs <;> rfl

theorem fragment_error (revision : Nat) (kind : ViewBatchKind)
    (large : U32_MAX < (PatchText.toJson patches).utf8ByteSize) :
    (fragment revision kind (PatchText.toJson patches) :
      Except ViewDeliveryError (List (ViewFrame Patch))) = .error .batchTooLarge := by
  unfold fragment
  rw [if_neg (by omega)]
  rfl

/-- A fragment always fits: the room left for the rest of the message is enough. -/
theorem bytes_fragments (kind : ViewBatchKind) (bounded : revision ≤ U32_MAX)
    (room : (PatchText.toJson patches).utf8ByteSize ≤ U32_MAX)
    (large : DATA_LIMIT < (PatchText.toJson patches).utf8ByteSize) :
    ∀ frame ∈ fragments revision kind patches, frame.bytes < FRAME_LIMIT := by
  intro frame mem
  obtain ⟨⟨piece, offset⟩, isPiece, rfl⟩ := List.mem_map.mp mem
  have inside := (List.mem_zipIdx' isPiece).1
  have listed := List.fst_mem_of_mem_zipIdx isPiece
  have fits : extent escapedLen piece ≤ DATA_LIMIT :=
    extent_cutFrom (fun c _ => Nat.le_trans (escapedLen_le c) (by decide)) rfl (Nat.zero_le _)
      piece listed
  have few := (cut_of_large large room).length_le
  have small : offset ≤ U32_MAX := by omega
  have bytes := @bytes_fragmentAt Patch _ _ _ kind
    ((cutFrom escapedLen DATA_LIMIT [] 0 (PatchText.toJson patches).toList).length - 1)
    (piece, offset) bounded room small
  have limits : DATA_LIMIT + 1024 = FRAME_LIMIT := by decide
  dsimp only at bytes
  omega

/-- What encoding comes to. The check of the real lengths never fails. -/
theorem encode_eq (encoder : ViewEncoder) (kind : ViewBatchKind) (patches : List Patch) :
    encoder.encode kind patches =
      if U32_MAX ≤ encoder.revision then .error .revisionExhausted
      else if (⟨encoder.revision + 1, kind, .complete patches⟩ : ViewFrame Patch).bytes <
          FRAME_LIMIT then
        .ok ([⟨encoder.revision + 1, kind, .complete patches⟩], ⟨encoder.revision + 1⟩)
      else if U32_MAX < (PatchText.toJson patches).utf8ByteSize then .error .batchTooLarge
      else .ok (fragments (encoder.revision + 1) kind patches, ⟨encoder.revision + 1⟩) := by
  by_cases exhausted : U32_MAX ≤ encoder.revision
  · have next : encoder.next = .error .revisionExhausted := if_neg (by omega)
    rw [if_pos exhausted, ViewEncoder.encode, next]
    rfl
  have next : encoder.next = .ok (encoder.revision + 1) := if_pos (by omega)
  rw [if_neg exhausted, ViewEncoder.encode, next]
  have bounded : encoder.revision + 1 ≤ U32_MAX := by omega
  by_cases fits : (⟨encoder.revision + 1, kind, .complete patches⟩ : ViewFrame Patch).bytes <
      FRAME_LIMIT
  · have one : framed (⟨encoder.revision + 1, kind, .complete patches⟩ : ViewFrame Patch) patches =
        .ok [⟨encoder.revision + 1, kind, .complete patches⟩] := if_pos fits
    have all_ : checked [(⟨encoder.revision + 1, kind, .complete patches⟩ : ViewFrame Patch)] =
        .ok [⟨encoder.revision + 1, kind, .complete patches⟩] := by
      apply if_neg
      simpa using fits
    rw [if_pos fits, ok_bind, one, ok_bind, all_, ok_bind]
    rfl
  rw [if_neg fits]
  have several : framed (⟨encoder.revision + 1, kind, .complete patches⟩ : ViewFrame Patch)
      patches = fragment (encoder.revision + 1) kind (PatchText.toJson patches) := if_neg fits
  by_cases huge : U32_MAX < (PatchText.toJson patches).utf8ByteSize
  · rw [if_pos huge, ok_bind, several, fragment_error _ _ huge]
    rfl
  have room := Nat.le_of_not_lt huge
  have whole := bytes_complete kind patches bounded
  have limits : DATA_LIMIT + 1024 = FRAME_LIMIT := by decide
  have large : DATA_LIMIT < (PatchText.toJson patches).utf8ByteSize := by omega
  have all_ : checked (fragments (encoder.revision + 1) kind patches) =
      .ok (fragments (encoder.revision + 1) kind patches) := by
    apply if_neg
    simpa using bytes_fragments kind bounded room large
  rw [if_neg huge, ok_bind, several, fragment_eq _ _ large room, ok_bind, all_, ok_bind]
  rfl

theorem framed_fragments (large : DATA_LIMIT < (PatchText.toJson patches).utf8ByteSize)
    (room : (PatchText.toJson patches).utf8ByteSize ≤ U32_MAX) :
    Framed revision kind patches (fragments revision kind patches) :=
  .fragments (cut_of_large large room)

/-- A batch that is encoded goes in frames of the next revision, whose messages are below the
budget. -/
theorem encode_sound (encoded : encoder.encode kind patches = .ok (frames, after)) :
    encoder.revision < U32_MAX ∧ after = ⟨encoder.revision + 1⟩ ∧
      Framed (encoder.revision + 1) kind patches frames ∧
      ∀ frame ∈ frames, frame.bytes < FRAME_LIMIT := by
  rw [encode_eq] at encoded
  split_ifs at encoded with exhausted fits huge
  · obtain ⟨rfl, rfl⟩ := Prod.mk.inj (Except.ok.inj encoded)
    exact ⟨by omega, rfl, .complete, by simpa using fits⟩
  · obtain ⟨rfl, rfl⟩ := Prod.mk.inj (Except.ok.inj encoded)
    have bounded : encoder.revision + 1 ≤ U32_MAX := by omega
    have whole := bytes_complete kind patches bounded
    have limits : DATA_LIMIT + 1024 = FRAME_LIMIT := by decide
    have large : DATA_LIMIT < (PatchText.toJson patches).utf8ByteSize := by omega
    have room := Nat.le_of_not_lt huge
    exact ⟨by omega, rfl, framed_fragments large room, bytes_fragments kind bounded room large⟩

/-- Every batch is encoded while there are revisions left and its text can be counted, and
otherwise the error says which it is. -/
theorem encode_bounded (encoder : ViewEncoder) (kind : ViewBatchKind) (patches : List Patch) :
    match encoder.encode kind patches with
    | .ok (frames, after) => after.revision = encoder.revision + 1 ∧
        Framed (encoder.revision + 1) kind patches frames ∧
        ∀ frame ∈ frames, frame.bytes < VIEW_MESSAGE_LIMIT - 1024
    | .error error =>
        error = .revisionExhausted ∧ U32_MAX ≤ encoder.revision ∨
          error = .batchTooLarge ∧ U32_MAX < (PatchText.toJson patches).utf8ByteSize := by
  cases encoded : encoder.encode kind patches with
  | ok result =>
    obtain ⟨-, after, framed, fits⟩ := encode_sound encoded
    exact ⟨congrArg ViewEncoder.revision after, framed, fits⟩
  | error error =>
    rw [encode_eq] at encoded
    split_ifs at encoded with exhausted fits huge
    · exact .inl ⟨(Except.error.inj encoded).symm, exhausted⟩
    · exact .inr ⟨(Except.error.inj encoded).symm, huge⟩

end

/-! ## A session -/

section

variable {Patch : Type}

/-- A batch that has been encoded, with the frames that it goes in. -/
structure Batch (Patch : Type) where
  revision : Nat
  kind : ViewBatchKind
  patches : List Patch
  frames : List (ViewFrame Patch)

/-- The host's side of a delivery. -/
structure Host (Patch : Type) where
  encoder : ViewEncoder
  sent : List (Batch Patch)

def Host.new : Host Patch := ⟨.default, []⟩

variable [PatchText Patch] {host : Host Patch}

/-- Encode the next batch. One that cannot be encoded is not sent. -/
def Host.deliver (host : Host Patch) (batch : ViewBatchKind × List Patch) : Host Patch :=
  match host.encoder.encode batch.1 batch.2 with
  | .error _ => host
  | .ok (frames, encoder) =>
    ⟨encoder, host.sent ++ [⟨encoder.revision, batch.1, batch.2, frames⟩]⟩

/-- What a host has sent once it has encoded some batches. -/
def Host.after (batches : List (ViewBatchKind × List Patch)) : Host Patch :=
  batches.foldl Host.deliver .new

def Batch.Sound (batch : Batch Patch) : Prop :=
  Framed batch.revision batch.kind batch.patches batch.frames

/-- The batches that were sent are numbered from one on. -/
structure Host.Sound (host : Host Patch) : Prop where
  numbered : host.sent.map Batch.revision = List.range' 1 host.sent.length
  next : host.encoder.revision = host.sent.length
  within : host.sent.length ≤ U32_MAX
  framed : ∀ batch ∈ host.sent, batch.Sound

theorem Host.Sound.deliver (sound : host.Sound) (batch : ViewBatchKind × List Patch) :
    (host.deliver batch).Sound := by
  unfold Host.deliver
  split
  · exact sound
  next frames encoder encoded =>
    obtain ⟨room, rfl, framed, -⟩ := encode_sound encoded
    have next := sound.next
    refine ⟨?_, ?_, ?_, ?_⟩
    · rw [List.map_append, sound.numbered, List.length_append, List.length_singleton,
        List.range'_1_concat]
      simp [next, Nat.add_comm]
    · simp [next]
    · simp only [List.length_append, List.length_singleton]
      omega
    · simpa [or_imp, forall_and] using ⟨sound.framed, framed⟩

theorem Host.after_sound (batches : List (ViewBatchKind × List Patch)) :
    (Host.after batches).Sound := by
  have kept (host : Host Patch) (sound : host.Sound) : (batches.foldl Host.deliver host).Sound := by
    induction batches generalizing host with
    | nil => exact sound
    | cons batch rest ih => exact ih _ (sound.deliver batch)
  exact kept .new ⟨rfl, rfl, Nat.zero_le _, by simp [Host.new]⟩

theorem Host.Sound.revision_le (sound : host.Sound) {batch : Batch Patch}
    (sent : batch ∈ host.sent) : batch.revision ≤ U32_MAX := by
  have listed : batch.revision ∈ List.range' 1 host.sent.length := by
    rw [← sound.numbered]
    exact List.mem_map_of_mem sent
  have := sound.within
  have := List.mem_range'_1.mp listed
  omega

/-- Batches of one revision are the same batch. -/
theorem Host.Sound.unique (sound : host.Sound) {batch other : Batch Patch}
    (sent : batch ∈ host.sent) (alsoSent : other ∈ host.sent)
    (same : batch.revision = other.revision) : batch = other := by
  have distinct : (host.sent.map Batch.revision).Nodup := by
    rw [sound.numbered]
    exact List.nodup_range'
  exact List.inj_on_of_nodup_map distinct sent alsoSent same

end

end Nits.ClientCore
