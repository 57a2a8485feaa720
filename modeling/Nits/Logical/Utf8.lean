import Mathlib.Algebra.Group.Nat.Defs
import Mathlib.Data.Char
import Mathlib.Data.List.Basic

/-!
# Characters in UTF-8

A character has one encoding: a lead byte says how many continuation bytes follow, and
a sequence of each length reaches only characters that no shorter one reaches.
-/

namespace Nits.Logical

/-- A byte that continues a sequence. -/
def IsTail (byte : UInt8) : Prop := 0x80 ≤ byte.toNat ∧ byte.toNat ≤ 0xBF

/-- The bytes are a character's encoding. -/
inductive Encodes (char : Char) : List UInt8 → Prop
  | one {first : UInt8} (ascii : first.toNat < 0x80) (value : char.toNat = first.toNat) :
      Encodes char [first]
  | two {first second : UInt8} (lead : 0xC2 ≤ first.toNat) (below : first.toNat ≤ 0xDF)
      (tail : IsTail second)
      (value : char.toNat = (first.toNat - 0xC0) * 64 + (second.toNat - 0x80)) :
      Encodes char [first, second]
  | three {first second third : UInt8} (lead : 0xE0 ≤ first.toNat) (below : first.toNat ≤ 0xEF)
      (tail : IsTail second) (tail' : IsTail third) (wide : 0x800 ≤ char.toNat)
      (value : char.toNat = ((first.toNat - 0xE0) * 64 + (second.toNat - 0x80)) * 64 +
        (third.toNat - 0x80)) :
      Encodes char [first, second, third]
  | four {first second third fourth : UInt8} (lead : 0xF0 ≤ first.toNat)
      (below : first.toNat ≤ 0xF4) (tail : IsTail second) (tail' : IsTail third)
      (tail'' : IsTail fourth) (wide : 0x10000 ≤ char.toNat)
      (value : char.toNat = (((first.toNat - 0xF0) * 64 + (second.toNat - 0x80)) * 64 +
        (third.toNat - 0x80)) * 64 + (fourth.toNat - 0x80)) :
      Encodes char [first, second, third, fourth]

/-- A character has at most one encoding. -/
theorem Encodes.unique {char : Char} {bytes others : List UInt8} (encodes : Encodes char bytes)
    (encodes' : Encodes char others) : bytes = others := by
  cases encodes <;> cases encodes' <;> unfold IsTail at * <;>
    simp only [List.cons.injEq, and_true, ← UInt8.toNat_inj, reduceCtorEq, and_false] <;> omega

/-- The value of a Unicode scalar is kept. -/
theorem toNat_ofNat {n : Nat} (scalar : n < 0xD800 ∨ (0xDFFF < n ∧ n < 0x110000)) :
    (Char.ofNat n).toNat = n := by
  have valid : n.isValidChar := scalar
  rw [Char.ofNat, dif_pos valid]
  rfl

/-- The low bits of a byte. -/
theorem toNat_and_low (byte : UInt8) (width : Nat) (low : UInt8) (mask : low.toNat = 2 ^ width - 1) :
    (byte &&& low).toNat = byte.toNat % 2 ^ width := by
  rw [UInt8.toNat_and, mask]
  exact Nat.and_two_pow_sub_one_eq_mod _ width

/-- Only an ASCII character is encoded with an ASCII byte, and then with that one. -/
theorem encodeChar_of_ascii {char : Char} {byte : UInt8} (ascii : byte.toNat < 0x80)
    (mem : byte ∈ String.utf8EncodeChar char) : char.toNat = byte.toNat := by
  have plain : ∀ value : Nat, byte = UInt8.ofNat value → byte.toNat = value % 256 := by
    rintro value rfl
    exact UInt8.toNat_ofNat'
  have small : char.val.toNat < 0x110000 := by
    rcases char.valid with low | ⟨_, high⟩ <;> omega
  change char.val.toNat = byte.toNat
  simp only [String.utf8EncodeChar] at mem
  split at mem
  · have value := plain _ (List.mem_singleton.mp mem)
    omega
  · split at mem
    · simp only [List.mem_cons, List.not_mem_nil, or_false] at mem
      rcases mem with same | same <;> have value := plain _ same <;> omega
    · split at mem
      · simp only [List.mem_cons, List.not_mem_nil, or_false] at mem
        rcases mem with same | same | same <;> have value := plain _ same <;> omega
      · simp only [List.mem_cons, List.not_mem_nil, or_false] at mem
        rcases mem with same | same | same | same <;> have value := plain _ same <;> omega

/-- An ASCII byte is its own encoding. -/
theorem encodeChar_ascii {byte : UInt8} (ascii : byte.toNat < 0x80) :
    String.utf8EncodeChar (Char.ofNat byte.toNat) = [byte] := by
  have value : (Char.ofNat byte.toNat).val.toNat = byte.toNat := toNat_ofNat (.inl (by omega))
  simp only [String.utf8EncodeChar, value]
  rw [if_pos (by omega)]
  exact congrArg (· :: []) UInt8.ofNat_toNat

/-- ASCII bytes are a valid encoding. -/
theorem isValidUTF8_of_ascii {bytes : List UInt8} (ascii : ∀ byte ∈ bytes, byte.toNat < 0x80) :
    ByteArray.IsValidUTF8 bytes.toByteArray := by
  refine ⟨bytes.map fun byte => Char.ofNat byte.toNat, ?_⟩
  rw [List.utf8Encode, List.flatMap_map]
  congr 1
  induction bytes with
  | nil => rfl
  | cons byte later ih =>
    obtain ⟨first, rest⟩ := List.forall_mem_cons.mp ascii
    rw [List.flatMap_cons, encodeChar_ascii first, ← ih rest]
    rfl

/-! ## Texts -/

/-- The bytes of a text. -/
def utf8Of (text : String) : List UInt8 := text.toList.flatMap String.utf8EncodeChar

/-- The text that bytes encode, if they encode one. -/
def ofUtf8 (bytes : List UInt8) : Option String := String.fromUTF8? bytes.toByteArray

theorem toByteArray_utf8Of (text : String) : (utf8Of text).toByteArray = text.toByteArray := by
  rw [← String.utf8Encode_toList]
  rfl

theorem length_utf8Of (text : String) : (utf8Of text).length = text.utf8ByteSize := by
  rw [← List.size_toByteArray, toByteArray_utf8Of, String.size_toByteArray]

theorem ofUtf8_eq_some_iff {bytes : List UInt8} {text : String} :
    ofUtf8 bytes = some text ↔ bytes = utf8Of text := by
  constructor
  · intro read
    unfold ofUtf8 String.fromUTF8? at read
    split at read
    next valid =>
      obtain rfl := Option.some.inj read
      exact List.toByteArray_inj.mp (toByteArray_utf8Of (String.fromUTF8 bytes.toByteArray valid)).symm
    next => cases read
  · rintro rfl
    have valid : (utf8Of text).toByteArray.IsValidUTF8 := by
      rw [toByteArray_utf8Of]
      exact text.isValidUTF8
    rw [ofUtf8, String.fromUTF8?, dif_pos valid]
    exact congrArg some (String.toByteArray_inj.mp (toByteArray_utf8Of text))

/-- Of ASCII characters each is one byte. -/
theorem utf8Of_ascii {chars : List Char} (ascii : ∀ char ∈ chars, char.toNat < 0x80) :
    utf8Of (String.ofList chars) = chars.map fun char => UInt8.ofNat char.toNat := by
  rw [utf8Of, String.toList_ofList]
  induction chars with
  | nil => rfl
  | cons char later ih =>
    obtain ⟨first, rest⟩ := List.forall_mem_cons.mp ascii
    have byte : (UInt8.ofNat char.toNat).toNat = char.toNat := by
      rw [UInt8.toNat_ofNat']
      omega
    have single := @encodeChar_ascii (UInt8.ofNat char.toNat) (by omega)
    rw [byte, Char.ofNat_toNat] at single
    rw [List.flatMap_cons, single, ih rest, List.map_cons, List.singleton_append]

/-- A text whose bytes end in an ASCII byte is a text without it. -/
theorem utf8Of_init {text : String} {front : List UInt8} {byte : UInt8}
    (ends : utf8Of text = front ++ [byte]) (ascii : byte.toNat < 0x80) :
    ∃ init, front = utf8Of init := by
  rcases List.eq_nil_or_concat' text.toList with none_ | ⟨init, char, whole⟩
  · rw [utf8Of, none_, List.flatMap_nil] at ends
    simp at ends
  · rw [utf8Of, whole, List.flatMap_append, List.flatMap_singleton] at ends
    -- The byte is one of the last character's, which therefore has no other.
    have last : byte ∈ String.utf8EncodeChar char := by
      have lasts := congrArg List.getLast? ends
      rw [List.getLast?_concat, List.getLast?_append_of_ne_nil _ String.utf8EncodeChar_ne_nil] at lasts
      exact List.mem_of_getLast? lasts
    have single : String.utf8EncodeChar char = [byte] := by
      rw [← encodeChar_ascii ascii, ← encodeChar_of_ascii ascii last, Char.ofNat_toNat]
    rw [single] at ends
    refine ⟨String.ofList init, ?_⟩
    rw [utf8Of, String.toList_ofList]
    exact (List.append_cancel_right ends).symm

end Nits.Logical
