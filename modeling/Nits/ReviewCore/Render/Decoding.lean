import Nits.Logical.Utf8
import Nits.ReviewCore.Render.Lines

/-!
# What a lossy decoding keeps

Decoding reads every byte once. A character other than the replacement character was read
from its own encoding; a replacement character may stand for any ill-formed bytes, and only
the bytes tell which.
-/

namespace Nits.ReviewCore

open Logical Protocol

/-- A character as it was read, with the bytes it was read from. -/
structure Reading where
  char : Char
  bytes : List UInt8

/-- Read at most `fuel` characters. -/
def readings : Nat → List UInt8 → List Reading
  | 0, _ => []
  | _ + 1, [] => []
  | fuel + 1, first :: rest =>
    let (char, width) := decodeHead first rest
    ⟨char, first :: rest.take (width - 1)⟩ :: readings fuel (rest.drop (width - 1))

def readingsOf (bytes : List UInt8) : List Reading := readings bytes.length bytes

theorem chars_readings (fuel : Nat) (bytes : List UInt8) :
    (readings fuel bytes).map Reading.char = decodeLossy fuel bytes := by
  induction fuel generalizing bytes with
  | zero => rfl
  | succ fuel ih =>
    cases bytes with
    | nil => rfl
    | cons first rest => rw [readings, decodeLossy, List.map_cons, ih]

theorem bytes_readings {fuel : Nat} {bytes : List UInt8} (enough : bytes.length ≤ fuel) :
    (readings fuel bytes).flatMap Reading.bytes = bytes := by
  induction fuel generalizing bytes with
  | zero =>
    rw [List.length_eq_zero_iff.mp (by omega : bytes.length = 0)]
    rfl
  | succ fuel ih =>
    cases bytes with
    | nil => rfl
    | cons first rest =>
      have fewer : (rest.drop ((decodeHead first rest).2 - 1)).length ≤ fuel := by
        rw [List.length_drop]
        rw [List.length_cons] at enough
        omega
      rw [readings, List.flatMap_cons, ih fewer, List.cons_append,
        List.take_append_drop]

/-! ## Well-formed sequences -/

theorem isTail_of_isContinuation {byte : UInt8} (continues : isContinuation byte) : IsTail byte := by
  have all : ∀ n : Fin 256, n.val &&& 192 = 128 → 0x80 ≤ n.val ∧ n.val ≤ 0xBF := by decide +kernel
  have masked : byte &&& 192 = 128 := by simpa [isContinuation] using continues
  have value := congrArg UInt8.toNat masked
  rw [UInt8.toNat_and] at value
  exact all ⟨byte.toNat, byte.toNat_lt⟩ value

theorem followsThree_range {first second : UInt8} (follows : followsThree first second) :
    IsTail second ∧ (first.toNat = 0xE0 → 0xA0 ≤ second.toNat) ∧
      (first.toNat = 0xED → second.toNat ≤ 0x9F) := by
  simp only [followsThree, Bool.or_eq_true, Bool.and_eq_true, decide_eq_true_eq, UInt8.le_iff_toNat_le,
    ← UInt8.toNat_inj, UInt8.reduceToNat] at follows
  unfold IsTail
  omega

theorem followsFour_range {first second : UInt8} (follows : followsFour first second) :
    IsTail second ∧ (first.toNat = 0xF0 → 0x90 ≤ second.toNat) ∧
      (first.toNat = 0xF4 → second.toNat ≤ 0x8F) := by
  simp only [followsFour, Bool.or_eq_true, Bool.and_eq_true, decide_eq_true_eq, UInt8.le_iff_toNat_le,
    ← UInt8.toNat_inj, UInt8.reduceToNat] at follows
  unfold IsTail
  omega

/-- A continuation byte is there to be read. -/
theorem length_of_isTail {rest : List UInt8} {index : Nat} (tail : IsTail (rest.getD index 0)) :
    index < rest.length := by
  by_contra beyond
  rw [List.getD_eq_getElem?_getD, List.getElem?_eq_none (by omega), Option.getD_none] at tail
  exact absurd tail.1 (by decide)

theorem take_eq_map {rest : List UInt8} {count : Nat} (enough : count ≤ rest.length) :
    rest.take count = (List.range count).map fun index => rest.getD index 0 := by
  refine List.ext_getElem (by simp; omega) fun index below _ => ?_
  have inside : index < rest.length := by
    rw [List.length_take] at below
    omega
  simp [inside]

/-- A character that is not the replacement was read from its encoding. -/
theorem decodeHead_encodes (first : UInt8) (rest : List UInt8) :
    (decodeHead first rest).1 = replacement ∨
      Encodes (decodeHead first rest).1 (first :: rest.take ((decodeHead first rest).2 - 1)) := by
  have low (byte : UInt8) : (byte &&& 0x3F).toNat = byte.toNat % 64 := toNat_and_low byte 6 _ rfl
  have low' (byte : UInt8) : (byte &&& 0x1F).toNat = byte.toNat % 32 := toNat_and_low byte 5 _ rfl
  have low'' (byte : UInt8) : (byte &&& 0x0F).toNat = byte.toNat % 16 := toNat_and_low byte 4 _ rfl
  have low''' (byte : UInt8) : (byte &&& 0x07).toNat = byte.toNat % 8 := toNat_and_low byte 3 _ rfl
  unfold decodeHead
  dsimp only
  simp only [UInt8.lt_iff_toNat_lt, UInt8.le_iff_toNat_le, Bool.and_eq_true, decide_eq_true_eq,
    UInt8.reduceToNat, low, low', low'', low''']
  split_ifs with ascii two tail three follows tail four follows tail tail'
  · right
    exact .one ascii (toNat_ofNat (by omega))
  · right
    have tail := isTail_of_isContinuation tail
    have here := length_of_isTail tail
    have taken : rest.take 1 = [rest.getD 0 0] := take_eq_map here
    dsimp only
    rw [taken]
    unfold IsTail at tail
    refine .two two.1 two.2 tail ?_
    rw [toNat_ofNat (by omega)]
    omega
  · exact .inl rfl
  · right
    have follows := followsThree_range follows
    have tail := isTail_of_isContinuation tail
    have here := length_of_isTail tail
    have taken : rest.take 2 = [rest.getD 0 0, rest.getD 1 0] := take_eq_map here
    dsimp only
    rw [taken]
    unfold IsTail at follows tail
    have value := toNat_ofNat (n := (first.toNat % 16 * 64 + (rest.getD 0 0).toNat % 64) * 64 +
      (rest.getD 1 0).toNat % 64) (by omega)
    refine .three three.1 three.2 follows.1 tail ?_ ?_
    · rw [value]
      omega
    · rw [value]
      omega
  · exact .inl rfl
  · exact .inl rfl
  · right
    have follows := followsFour_range follows
    have tail := isTail_of_isContinuation tail
    have tail' := isTail_of_isContinuation tail'
    have here := length_of_isTail tail'
    have taken : rest.take 3 = [rest.getD 0 0, rest.getD 1 0, rest.getD 2 0] := take_eq_map here
    dsimp only
    rw [taken]
    unfold IsTail at follows tail tail'
    have value := toNat_ofNat (n := ((first.toNat % 8 * 64 + (rest.getD 0 0).toNat % 64) * 64 +
      (rest.getD 1 0).toNat % 64) * 64 + (rest.getD 2 0).toNat % 64) (by omega)
    refine .four four.1 four.2 follows.1 tail tail' ?_ ?_
    · rw [value]
      omega
    · rw [value]
      omega
  · exact .inl rfl
  · exact .inl rfl
  · exact .inl rfl
  · exact .inl rfl

theorem encodes_of_reading {fuel : Nat} {bytes : List UInt8} {reading : Reading}
    (mem : reading ∈ readings fuel bytes) (kept : reading.char ≠ replacement) :
    Encodes reading.char reading.bytes := by
  induction fuel generalizing bytes with
  | zero => cases mem
  | succ fuel ih =>
    cases bytes with
    | nil => cases mem
    | cons first rest =>
      rcases List.mem_cons.mp mem with rfl | later
      · exact (decodeHead_encodes first rest).resolve_left kept
      · exact ih later

/-! ## Decoding what was encoded -/

/-- The character at the head of its encoding. -/
theorem decodeHead_encodeChar (char : Char) (rest : List UInt8) :
    ∃ first tail, String.utf8EncodeChar char = first :: tail ∧
      decodeHead first (tail ++ rest) = (char, tail.length + 1) := by
  have back : Char.ofNat char.toNat = char := Char.ofNat_toNat char
  have scalar : char.val.toNat < 0xD800 ∨ 0xDFFF < char.val.toNat ∧ char.val.toNat < 0x110000 :=
    char.valid
  have code : char.toNat = char.val.toNat := rfl
  have low (byte : UInt8) : (byte &&& 0x3F).toNat = byte.toNat % 64 := toNat_and_low byte 6 _ rfl
  have low' (byte : UInt8) : (byte &&& 0x1F).toNat = byte.toNat % 32 := toNat_and_low byte 5 _ rfl
  have low'' (byte : UInt8) : (byte &&& 0x0F).toNat = byte.toNat % 16 := toNat_and_low byte 4 _ rfl
  have low''' (byte : UInt8) : (byte &&& 0x07).toNat = byte.toNat % 8 := toNat_and_low byte 3 _ rfl
  have continues (value : Nat) : isContinuation (UInt8.ofNat (value % 64 + 0x80)) = true := by
    have all : ∀ n : Fin 64, isContinuation (UInt8.ofNat (n.val + 0x80)) = true := by decide +kernel
    exact all ⟨value % 64, Nat.mod_lt _ (by decide)⟩
  simp only [String.utf8EncodeChar]
  generalize char.val.toNat = value at scalar code ⊢
  split_ifs with one two three
  · refine ⟨_, _, rfl, ?_⟩
    simp only [decodeHead, UInt8.lt_iff_toNat_lt, UInt8.toNat_ofNat', UInt8.reduceToNat]
    rw [if_pos (by omega), ← back, code, Nat.mod_eq_of_lt (by omega : value < 2 ^ 8)]
    rfl
  · refine ⟨_, _, rfl, ?_⟩
    simp only [decodeHead, UInt8.lt_iff_toNat_lt, UInt8.le_iff_toNat_le, UInt8.toNat_ofNat',
      UInt8.reduceToNat, Bool.and_eq_true, decide_eq_true_eq, low, low', List.cons_append,
      List.nil_append, List.getD_cons_zero, continues]
    rw [if_neg (by omega), if_pos (by omega), if_pos trivial, ← back, code]
    refine Prod.ext (congrArg Char.ofNat ?_) rfl
    omega
  · refine ⟨_, _, rfl, ?_⟩
    have follows : followsThree (UInt8.ofNat (value / 4096 % 16 + 0xE0))
        (UInt8.ofNat (value / 64 % 64 + 0x80)) = true := by
      simp only [followsThree, Bool.or_eq_true, Bool.and_eq_true, decide_eq_true_eq,
        UInt8.le_iff_toNat_le, ← UInt8.toNat_inj, UInt8.reduceToNat, UInt8.toNat_ofNat']
      omega
    simp only [decodeHead, UInt8.lt_iff_toNat_lt, UInt8.le_iff_toNat_le, UInt8.toNat_ofNat',
      UInt8.reduceToNat, Bool.and_eq_true, decide_eq_true_eq, low, low'', List.cons_append,
      List.nil_append, List.getD_cons_zero, List.getD_cons_succ, continues, follows]
    rw [if_neg (by omega), if_neg (by omega), if_pos (by omega), if_neg (by simp),
      if_neg (by simp), ← back, code]
    refine Prod.ext (congrArg Char.ofNat ?_) rfl
    omega
  · refine ⟨_, _, rfl, ?_⟩
    have follows : followsFour (UInt8.ofNat (value / 262144 % 8 + 0xF0))
        (UInt8.ofNat (value / 4096 % 64 + 0x80)) = true := by
      simp only [followsFour, Bool.or_eq_true, Bool.and_eq_true, decide_eq_true_eq,
        UInt8.le_iff_toNat_le, ← UInt8.toNat_inj, UInt8.reduceToNat, UInt8.toNat_ofNat']
      omega
    simp only [decodeHead, UInt8.lt_iff_toNat_lt, UInt8.le_iff_toNat_le, UInt8.toNat_ofNat',
      UInt8.reduceToNat, Bool.and_eq_true, decide_eq_true_eq, low, low''', List.cons_append,
      List.nil_append, List.getD_cons_zero, List.getD_cons_succ, continues, follows]
    rw [if_neg (by omega), if_neg (by omega), if_neg (by omega), if_pos (by omega),
      if_neg (by simp), if_neg (by simp), if_neg (by simp), ← back, code]
    refine Prod.ext (congrArg Char.ofNat ?_) rfl
    omega

theorem decodeLossy_encode {fuel : Nat} {text : List Char}
    (enough : (text.flatMap String.utf8EncodeChar).length ≤ fuel) :
    decodeLossy fuel (text.flatMap String.utf8EncodeChar) = text := by
  induction text generalizing fuel with
  | nil => cases fuel <;> rfl
  | cons char later ih =>
    obtain ⟨first, tail, encoded, decoded⟩ :=
      decodeHead_encodeChar char (later.flatMap String.utf8EncodeChar)
    rw [List.flatMap_cons, encoded, List.cons_append] at enough ⊢
    rw [List.length_cons, List.length_append] at enough
    obtain ⟨fuel, rfl⟩ : ∃ less, fuel = less + 1 := ⟨fuel - 1, by omega⟩
    rw [decodeLossy, decoded]
    dsimp only
    rw [Nat.add_sub_cancel, List.drop_left, ih (by omega)]

theorem utf8Bytes_eq (text : String) :
    utf8Bytes text = text.toList.flatMap String.utf8EncodeChar := by
  rw [utf8Bytes, ← String.utf8Encode_toList, List.utf8Encode]
  simp

/-- Decoding a text's own bytes gives the text back. -/
theorem fromUtf8Lossy_utf8Bytes (text : String) : fromUtf8Lossy (utf8Bytes text) = text := by
  rw [fromUtf8Lossy, utf8Bytes_eq, decodeLossy_encode (Nat.le_refl _)]
  exact String.ofList_toList

/-! ## Files -/

/-- The characters of a file's lines, without their terminators. -/
def fileReadings (bytes : List UInt8) : List Reading :=
  (splitInclusive bytes).flatMap fun raw => readingsOf (stripTerminator raw)

/-- What a file holds apart from whitespace and line endings. -/
def visible (bytes : List UInt8) : List Reading :=
  (fileReadings bytes).filter fun reading => !isWhitespace reading.char

/-- The bytes behind each replacement character, in order. -/
def replaced (readings : List Reading) : List (List UInt8) :=
  (readings.filter fun reading => reading.char = replacement).map Reading.bytes

/-- Each character was read from its own encoding, replacement characters apart. -/
def WellRead (readings : List Reading) : Prop :=
  ∀ reading ∈ readings, reading.char ≠ replacement → Encodes reading.char reading.bytes

theorem wellRead_readingsOf (bytes : List UInt8) : WellRead (readingsOf bytes) :=
  fun _ mem kept => encodes_of_reading mem kept

theorem wellRead_fileReadings (bytes : List UInt8) : WellRead (fileReadings bytes) := by
  intro reading mem kept
  obtain ⟨raw, -, mem⟩ := List.mem_flatMap.mp mem
  exact wellRead_readingsOf _ reading mem kept

theorem WellRead.filter {readings : List Reading} (wellRead : WellRead readings)
    (keep : Reading → Bool) : WellRead (readings.filter keep) :=
  fun reading mem => wellRead reading (List.mem_of_mem_filter mem)

/-- The same characters with the same bytes behind their replacement characters are the
same readings. -/
theorem readings_eq {left right : List Reading} (wellRead : WellRead left)
    (wellRead' : WellRead right) (chars : left.map Reading.char = right.map Reading.char)
    (same : replaced left = replaced right) : left = right := by
  induction left generalizing right with
  | nil =>
    cases right with
    | nil => rfl
    | cons => cases chars
  | cons head tail ih =>
    cases right with
    | nil => cases chars
    | cons head' tail' =>
      obtain ⟨char, chars⟩ := List.cons.inj chars
      unfold replaced at same
      have bytes : head.bytes = head'.bytes ∧ replaced tail = replaced tail' := by
        by_cases replaced_ : head.char = replacement
        · rw [List.filter_cons_of_pos (by simpa using replaced_),
            List.filter_cons_of_pos (by simpa [← char] using replaced_)] at same
          exact List.cons.inj same
        · rw [List.filter_cons_of_neg (by simpa using replaced_),
            List.filter_cons_of_neg (by simpa [← char] using replaced_)] at same
          have encodes := wellRead head List.mem_cons_self replaced_
          have encodes' := wellRead' head' List.mem_cons_self (by rwa [← char])
          exact ⟨encodes.unique (char ▸ encodes'), same⟩
      have heads : head = head' := by
        cases head
        cases head'
        simp_all
      rw [heads, ih (fun reading mem => wellRead reading
        (List.mem_cons_of_mem _ mem)) (fun reading mem => wellRead' reading
        (List.mem_cons_of_mem _ mem)) chars bytes.2]

/-! ## Pieces -/

/-- The bytes of a line ending. -/
def terminator : LineEnding → List UInt8
  | .lf => [10]
  | .crLf => [13, 10]
  | .missing => []

theorem eq_dropLast_append {α : Type} {list : List α} {last : α} (ends : list.getLast? = some last) :
    list = list.dropLast ++ [last] := by
  obtain ⟨nonempty, here⟩ := List.getLast?_eq_some_iff.mp ends
  rw [here, List.dropLast_concat]

theorem strip_append_terminator (raw : List UInt8) :
    stripTerminator raw ++ terminator (endingOf raw) = raw := by
  unfold stripTerminator endingOf
  dsimp only
  split_ifs with ends carriage
  · rw [terminator, eq_dropLast_append ends, List.dropLast_concat]
    conv => rhs; rw [eq_dropLast_append carriage]
    rw [List.append_assoc]
    rfl
  · exact (eq_dropLast_append ends).symm
  · exact List.append_nil raw

theorem flatten_splitInclusive (bytes : List UInt8) : (splitInclusive bytes).flatten = bytes := by
  induction bytes with
  | nil => rfl
  | cons byte rest ih =>
    unfold splitInclusive
    split_ifs with newline
    · rw [List.flatten_cons, ih]
      rfl
    · cases pieces : splitInclusive rest with
      | nil =>
        rw [pieces] at ih
        rw [← ih]
        rfl
      | cons piece later =>
        rw [pieces] at ih
        rw [← ih]
        rfl

theorem toList_text (bytes : List UInt8) :
    (fromUtf8Lossy bytes).toList = (readingsOf bytes).map Reading.char := by
  rw [fromUtf8Lossy, String.toList_ofList, readingsOf, chars_readings]

/-- Pieces with the same texts and endings that were read from the same bytes are the same. -/
theorem pieces_eq {left right : List (List UInt8)}
    (texts : left.map (fun raw => (fromUtf8Lossy (stripTerminator raw), endingOf raw)) =
      right.map fun raw => (fromUtf8Lossy (stripTerminator raw), endingOf raw))
    (same : left.flatMap (fun raw => readingsOf (stripTerminator raw)) =
      right.flatMap fun raw => readingsOf (stripTerminator raw)) : left = right := by
  induction left generalizing right with
  | nil =>
    cases right with
    | nil => rfl
    | cons => cases texts
  | cons head tail ih =>
    cases right with
    | nil => cases texts
    | cons head' tail' =>
      obtain ⟨line, texts⟩ := List.cons.inj texts
      obtain ⟨text, ending⟩ := Prod.mk.inj line
      rw [List.flatMap_cons, List.flatMap_cons] at same
      have length : (readingsOf (stripTerminator head)).length =
          (readingsOf (stripTerminator head')).length := by
        have chars := congrArg (fun text => text.toList.length) text
        simpa only [toList_text, List.length_map] using chars
      obtain ⟨here, later⟩ := List.append_inj same length
      have stripped := congrArg (fun list => list.flatMap Reading.bytes) here
      rw [readingsOf, readingsOf, bytes_readings (Nat.le_refl _), bytes_readings (Nat.le_refl _)]
        at stripped
      have heads : head = head' := by
        rw [← strip_append_terminator head, stripped, ending, strip_append_terminator]
      rw [heads, ih texts later]

/-- Two files with the same lines differ, if anywhere, behind a replacement character. -/
theorem file_eq {old new : List UInt8} (lines : splitLines old = splitLines new)
    (same : replaced (fileReadings old) = replaced (fileReadings new)) : old = new := by
  have texts (bytes : List UInt8) : (splitInclusive bytes).map (fun raw =>
      (fromUtf8Lossy (stripTerminator raw), endingOf raw)) =
      (splitLines bytes).map fun line => (line.text, line.ending) := by
    rw [splitLines, List.map_map]
    rfl
  have chars (bytes : List UInt8) : (fileReadings bytes).map Reading.char =
      (splitLines bytes).flatMap fun line => line.text.toList := by
    rw [fileReadings, List.map_flatMap, splitLines, List.flatMap_map]
    exact congrArg (List.flatMap · _) (funext fun raw => (toList_text _).symm)
  have readings := readings_eq (wellRead_fileReadings old) (wellRead_fileReadings new)
    (by rw [chars, chars, lines]) same
  have pieces := pieces_eq (by rw [texts, texts, lines]) readings
  rw [← flatten_splitInclusive old, pieces, flatten_splitInclusive]

/-- A replacement character is not whitespace. -/
theorem replaced_visible (bytes : List UInt8) :
    replaced (visible bytes) = replaced (fileReadings bytes) := by
  unfold replaced visible
  rw [List.filter_filter]
  refine congrArg (List.map Reading.bytes) (List.filter_congr fun reading _ => ?_)
  by_cases replaced_ : reading.char = replacement
  · rw [replaced_]
    decide
  · simp [replaced_]

/-- Two files with the same lines apart from whitespace differ, if anywhere, in whitespace,
line endings or behind a replacement character. -/
theorem visible_eq {old new : List UInt8}
    (lines : (splitLines old).map Line.normalised = (splitLines new).map Line.normalised)
    (same : replaced (fileReadings old) = replaced (fileReadings new)) :
    visible old = visible new := by
  have chars (bytes : List UInt8) : (visible bytes).map Reading.char =
      ((splitLines bytes).map Line.normalised).flatMap String.toList := by
    rw [visible, fileReadings, List.filter_flatMap, List.map_flatMap, splitLines, List.map_map,
      List.flatMap_map]
    refine congrArg (List.flatMap · _) (funext fun raw => ?_)
    rw [Function.comp_apply, String.toList_ofList, toList_text, List.filter_map]
    rfl
  have wellRead (bytes : List UInt8) : WellRead (visible bytes) :=
    (wellRead_fileReadings bytes).filter _
  refine readings_eq (wellRead old) (wellRead new) ?_ ?_
  · rw [chars, chars, lines]
  · rw [replaced_visible, replaced_visible, same]

end Nits.ReviewCore
