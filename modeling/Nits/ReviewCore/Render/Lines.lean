import Nits.Protocol.Render

/-!
# Lines of a blob

A blob is split after every `\n`; a `\n` or `\r\n` terminator is not part of the
line's text, and the text is decoded lossily. A trailing terminator does not
produce an extra empty line.
-/

namespace Nits.ReviewCore

open Protocol

/-- Pieces of `bytes`, each ending after a newline except possibly the last. -/
def splitInclusive : List UInt8 → List (List UInt8)
  | [] => []
  | byte :: rest =>
    if byte = 10 then [byte] :: splitInclusive rest
    else
      match splitInclusive rest with
      | [] => [[byte]]
      | piece :: pieces => (byte :: piece) :: pieces

/-- A piece without its `\n` or `\r\n` terminator. -/
def stripTerminator (raw : List UInt8) : List UInt8 :=
  if raw.getLast? = some 10 then
    let line := raw.dropLast
    if line.getLast? = some 13 then line.dropLast else line
  else raw

def isContinuation (byte : UInt8) : Bool := byte &&& 192 = 128

/-- Whether a second byte may follow the first byte of a three-byte sequence. -/
def followsThree (first second : UInt8) : Bool :=
  (first = 0xE0 && 0xA0 ≤ second && second ≤ 0xBF) ||
    (0xE1 ≤ first && first ≤ 0xEC && 0x80 ≤ second && second ≤ 0xBF) ||
    (first = 0xED && 0x80 ≤ second && second ≤ 0x9F) ||
    (0xEE ≤ first && first ≤ 0xEF && 0x80 ≤ second && second ≤ 0xBF)

/-- Whether a second byte may follow the first byte of a four-byte sequence. -/
def followsFour (first second : UInt8) : Bool :=
  (first = 0xF0 && 0x90 ≤ second && second ≤ 0xBF) ||
    (0xF1 ≤ first && first ≤ 0xF3 && 0x80 ≤ second && second ≤ 0xBF) ||
    (first = 0xF4 && 0x80 ≤ second && second ≤ 0x8F)

def replacement : Char := '\uFFFD'

/-- The character at the head of the bytes and the number of bytes it takes. An
ill-formed sequence is one replacement character over its maximal valid part. -/
def decodeHead (first : UInt8) (rest : List UInt8) : Char × Nat :=
  let byte (index : Nat) : UInt8 := rest.getD index 0
  let low (index : Nat) : Nat := (byte index &&& 0x3F).toNat
  if first < 0x80 then (Char.ofNat first.toNat, 1)
  else if 0xC2 ≤ first && first ≤ 0xDF then
    if isContinuation (byte 0) then (Char.ofNat ((first &&& 0x1F).toNat * 64 + low 0), 2)
    else (replacement, 1)
  else if 0xE0 ≤ first && first ≤ 0xEF then
    if ¬ followsThree first (byte 0) then (replacement, 1)
    else if ¬ isContinuation (byte 1) then (replacement, 2)
    else (Char.ofNat (((first &&& 0x0F).toNat * 64 + low 0) * 64 + low 1), 3)
  else if 0xF0 ≤ first && first ≤ 0xF4 then
    if ¬ followsFour first (byte 0) then (replacement, 1)
    else if ¬ isContinuation (byte 1) then (replacement, 2)
    else if ¬ isContinuation (byte 2) then (replacement, 3)
    else (Char.ofNat ((((first &&& 0x07).toNat * 64 + low 0) * 64 + low 1) * 64 + low 2), 4)
  else (replacement, 1)

/-- Decode at most `fuel` characters. -/
def decodeLossy : Nat → List UInt8 → List Char
  | 0, _ => []
  | _ + 1, [] => []
  | fuel + 1, first :: rest =>
    let (char, width) := decodeHead first rest
    char :: decodeLossy fuel (rest.drop (width - 1))

/-- A byte string has no more characters than bytes, so its length is enough fuel. -/
def fromUtf8Lossy (bytes : List UInt8) : String :=
  String.ofList (decodeLossy bytes.length bytes)

/-- How a piece is terminated. -/
def endingOf (raw : List UInt8) : LineEnding :=
  if raw.getLast? = some 10 then
    if raw.dropLast.getLast? = some 13 then .crLf else .lf
  else .missing

/-- One source line. -/
structure Line where
  /-- Text without its terminator, lossily decoded. -/
  text : String
  ending : LineEnding
  /-- `text` with all whitespace removed: the diff key under `ignoreWhitespace`. -/
  normalised : String
  deriving DecidableEq

/-- Split into lines. A missing terminator still yields the last line. -/
def splitLines (bytes : List UInt8) : List Line :=
  (splitInclusive bytes).map fun raw =>
    let text := fromUtf8Lossy (stripTerminator raw)
    ⟨text, endingOf raw, String.ofList (text.toList.filter fun c => !isWhitespace c)⟩

/-- The line texts of a blob. -/
def linesOf (bytes : List UInt8) : List String :=
  (splitInclusive bytes).map fun raw => fromUtf8Lossy (stripTerminator raw)

/-- The bytes of a text in UTF-8. -/
def utf8Bytes (text : String) : List UInt8 := text.toByteArray.data.toList

example : linesOf [97, 13, 10, 0xC3, 0xA9, 10, 10, 0xE2, 0x82, 98] = ["a", "é", "", "�b"] := by
  decide

end Nits.ReviewCore
