import Nits.Logical.Positional
import Nits.Logical.Program
import Nits.Logical.Utf8
import Nits.Protocol.Ids
import Nits.Protocol.Invariants

/-!
# References

A reference names a daemon's context and, by identifiers, a review or a part of it. Its
context is kept in one spelling, percent-encoded, so the text of a reference has a fixed
place for each of its parts.
-/

namespace Nits.Protocol

open Logical

/-- Why a text is no reference. -/
inductive ReferenceError
  | malformed | wrongReview | missing | deleted
  deriving DecidableEq

/-! ## Percent encoding -/

/-- The bytes that stand for themselves. -/
def unreserved (byte : UInt8) : Bool :=
  let code := byte.toNat
  (48 ≤ code && code ≤ 57) || (65 ≤ code && code ≤ 90) || (97 ≤ code && code ≤ 122) ||
    code = 45 || code = 95 || code = 46 || code = 126

/-- The uppercase digit of a value below 16. -/
def hexDigit (n : Nat) : Char := "0123456789ABCDEF".toList.getD n '0'

/-- A byte as it stands in a reference, or its escape. -/
def escape (byte : UInt8) : List Char :=
  if unreserved byte then [Char.ofNat byte.toNat]
  else ['%', hexDigit (byte.toNat / 16), hexDigit (byte.toNat % 16)]

/-- Percent-encode the UTF-8 bytes of a value. -/
def encode (value : String) : String := String.ofList ((utf8Of value).flatMap escape)

/-- `char::to_digit` in base sixteen. -/
def toDigit (byte : UInt8) : Option Nat :=
  let code := byte.toNat
  if 48 ≤ code ∧ code ≤ 57 then some (code - 48)
  else if 97 ≤ code ∧ code ≤ 102 then some (code - 87)
  else if 65 ≤ code ∧ code ≤ 70 then some (code - 55)
  else none

/-- The bytes that are spelled; none at a broken escape or a reserved byte. -/
def decodeBytes : List UInt8 → Option (List UInt8)
  | [] => some []
  | byte :: rest =>
    if byte = 37 then
      match rest with
      | high :: low :: rest => do
        let high ← toDigit high
        let low ← toDigit low
        let later ← decodeBytes rest
        some (UInt8.ofNat (high * 16 + low) :: later)
      | _ => none
    else if unreserved byte then (decodeBytes rest).map (byte :: ·)
    else none

/-- Read a percent-encoded value back, if it is UTF-8. -/
def decode (value : String) : Except ReferenceError String :=
  match (decodeBytes (utf8Of value)).bind ofUtf8 with
  | some decoded => .ok decoded
  | none => .error .malformed

/-! ## Contexts -/

/-- How a reference names its daemon. -/
inductive ContextKind
  | context | socket | websocket
  deriving DecidableEq

namespace ContextKind

/-- The spelling of the kind. -/
def text : ContextKind → String
  | .context => "context"
  | .socket => "socket"
  | .websocket => "websocket"

/-- Read a kind back. -/
def parse (kind : List Char) : Except ReferenceError ContextKind :=
  if kind = "context".toList then .ok .context
  else if kind = "socket".toList then .ok .socket
  else if kind = "websocket".toList then .ok .websocket
  else .error .malformed

/-- A locator of the kind starts as the kind asks. -/
def admits (kind : ContextKind) (decoded : List Char) : Bool :=
  match kind with
  | .context => true
  | .socket => "/".toList.isPrefixOf decoded
  | .websocket => "ws://".toList.isPrefixOf decoded || "wss://".toList.isPrefixOf decoded

end ContextKind

/-- `str::split_once` at a slash. -/
def splitSlash : List Char → Option (List Char × List Char)
  | [] => none
  | c :: rest =>
    if c = '/' then some ([], rest)
    else (splitSlash rest).map fun halves => (c :: halves.1, halves.2)

/-- A nonempty locator of the kind, without surrounding whitespace and control characters. -/
def accepts (kind : ContextKind) (decoded : String) : Bool :=
  !decoded.isEmpty && trim decoded = decoded && !decoded.toList.any isControl &&
    kind.admits decoded.toList

/-- A context in its one spelling. -/
def contextString (kind : ContextKind) (decoded : String) : String :=
  kind.text ++ "/" ++ encode decoded

/-- The text that a context in any spelling is kept as. -/
def canonical (s : String) : Except ReferenceError String :=
  match splitSlash s.toList with
  | none => .error .malformed
  | some (kind, value) => do
    let kind ← ContextKind.parse kind
    let decoded ← decode (String.ofList value)
    if accepts kind decoded then .ok (contextString kind decoded) else .error .malformed

/-! ## What encoding keeps -/

/-- The bytes of an escape. -/
def escapeBytes (byte : UInt8) : List UInt8 := (escape byte).map fun c => UInt8.ofNat c.toNat

/-- An unreserved byte is ASCII, and neither a percent sign nor a slash. -/
theorem unreserved_ascii {byte : UInt8} (plain : unreserved byte = true) :
    byte.toNat < 0x80 ∧ byte.toNat ≠ 37 ∧ byte.toNat ≠ 47 := by
  simp only [unreserved, Bool.or_eq_true, Bool.and_eq_true, decide_eq_true_eq] at plain
  omega

/-- A digit is ASCII, no slash, and reads back. -/
theorem hexDigit_spec : ∀ n < 16, (hexDigit n).toNat < 0x80 ∧ hexDigit n ≠ '/' ∧
    toDigit (UInt8.ofNat (hexDigit n).toNat) = some n := by decide

/-- Escapes are in ASCII, without slashes. -/
theorem escape_spec (byte : UInt8) : ∀ c ∈ escape byte, c.toNat < 0x80 ∧ c ≠ '/' := by
  have bound := byte.toNat_lt
  have high := hexDigit_spec (byte.toNat / 16) (by omega)
  have low := hexDigit_spec (byte.toNat % 16) (by omega)
  unfold escape
  split
  next plain =>
    obtain ⟨ascii, -, noSlash⟩ := unreserved_ascii plain
    have value : (Char.ofNat byte.toNat).toNat = byte.toNat := toNat_ofNat (.inl (by omega))
    intro c mem
    obtain rfl := List.mem_singleton.mp mem
    refine ⟨by rwa [value], fun same => ?_⟩
    rw [same] at value
    exact noSlash value.symm
  next =>
    intro c mem
    simp only [List.mem_cons, List.not_mem_nil, or_false] at mem
    rcases mem with rfl | rfl | rfl
    · decide
    · exact ⟨high.1, high.2.1⟩
    · exact ⟨low.1, low.2.1⟩

/-- An escape takes three characters, a plain byte one. -/
theorem escape_length (byte : UInt8) : (escape byte).length = if unreserved byte then 1 else 3 := by
  unfold escape
  split <;> rfl

/-- Encoding, seen in bytes. -/
theorem utf8Of_encode (value : String) : utf8Of (encode value) = (utf8Of value).flatMap escapeBytes := by
  rw [encode, utf8Of_ascii, List.map_flatMap]
  · rfl
  · intro c mem
    obtain ⟨byte, -, mem⟩ := List.mem_flatMap.mp mem
    exact (escape_spec byte c mem).1

/-- An encoded value has no separator in it. -/
theorem slash_not_mem_encode (value : String) : '/' ∉ (encode value).toList := by
  rw [encode, String.toList_ofList]
  intro mem
  obtain ⟨byte, -, mem⟩ := List.mem_flatMap.mp mem
  exact (escape_spec byte '/' mem).2 rfl

/-- An escaped byte reads back, whatever follows. -/
theorem decodeBytes_escape (byte : UInt8) (rest : List UInt8) :
    decodeBytes (escapeBytes byte ++ rest) = (decodeBytes rest).map (byte :: ·) := by
  have bound := byte.toNat_lt
  unfold escapeBytes escape
  split
  next plain =>
    obtain ⟨ascii, noPercent, -⟩ := unreserved_ascii plain
    have value : UInt8.ofNat (Char.ofNat byte.toNat).toNat = byte := by
      rw [toNat_ofNat (.inl (by omega)), UInt8.ofNat_toNat]
    rw [List.map_singleton, value, List.singleton_append, decodeBytes.eq_def]
    dsimp only
    rw [if_neg (fun same => noPercent (by rw [same]; rfl)), if_pos plain]
  next =>
    have high := (hexDigit_spec (byte.toNat / 16) (by omega)).2.2
    have low := (hexDigit_spec (byte.toNat % 16) (by omega)).2.2
    have whole : UInt8.ofNat (byte.toNat / 16 * 16 + byte.toNat % 16) = byte := by
      rw [Nat.div_add_mod', UInt8.ofNat_toNat]
    rw [List.map_cons, List.map_cons, List.map_singleton, List.cons_append, List.cons_append,
      List.singleton_append, decodeBytes, if_pos (by decide)]
    simp only [high, low, Option.bind_eq_bind, Option.bind_some, whole]
    cases decodeBytes rest <;> rfl

/-- A run of escaped bytes reads back. -/
theorem decodeBytes_escapes (bytes : List UInt8) :
    decodeBytes (bytes.flatMap escapeBytes) = some bytes := by
  induction bytes with
  | nil => rfl
  | cons byte bytes ih =>
    rw [List.flatMap_cons, decodeBytes_escape, ih, Option.map_some]

/-- What was encoded is decoded. -/
theorem decode_encode (value : String) : decode (encode value) = .ok value := by
  have whole : ofUtf8 (utf8Of value) = some value := ofUtf8_eq_some_iff.mpr rfl
  rw [decode, utf8Of_encode, decodeBytes_escapes, Option.bind_some, whole]

/-- No spelling of a text is shorter than the one that encoding gives. -/
theorem length_escapes_le {bytes decoded : List UInt8} (read : decodeBytes bytes = some decoded) :
    (decoded.flatMap escape).length ≤ bytes.length := by
  induction bytes using decodeBytes.induct generalizing decoded with
  | case1 =>
    obtain rfl := Option.some.inj read
    rfl
  | case2 high low rest ih =>
    rw [decodeBytes, if_pos rfl] at read
    simp only [Option.bind_eq_bind, Option.bind_eq_some_iff, Option.some.injEq] at read
    obtain ⟨first, -, second, -, later, readLater, rfl⟩ := read
    have shorter := ih readLater
    have width : (escape (UInt8.ofNat (first * 16 + second))).length ≤ 3 := by
      rw [escape_length]
      split <;> omega
    rw [List.flatMap_cons, List.length_append, List.length_cons, List.length_cons, List.length_cons]
    omega
  | case3 rest short =>
    rw [decodeBytes.eq_def] at read
    dsimp only at read
    rw [if_pos rfl] at read
    split at read
    · exact absurd rfl (short _ _ _)
    · cases read
  | case4 byte rest other plain ih =>
    rw [decodeBytes.eq_def] at read
    dsimp only at read
    rw [if_neg other, if_pos plain, Option.map_eq_some_iff] at read
    obtain ⟨later, readLater, rfl⟩ := read
    have shorter := ih readLater
    rw [List.flatMap_cons, List.length_append, escape_length, if_pos plain, List.length_cons]
    omega
  | case5 byte rest other reserved =>
    rw [decodeBytes.eq_def] at read
    dsimp only at read
    rw [if_neg other, if_neg reserved] at read
    cases read

/-- An encoded value is all ASCII, so its bytes are its characters. -/
theorem utf8ByteSize_encode (value : String) :
    (encode value).utf8ByteSize = ((utf8Of value).flatMap escape).length := by
  rw [← length_utf8Of, utf8Of_encode, List.length_flatMap, List.length_flatMap]
  exact congrArg List.sum (List.map_congr_left fun byte _ => List.length_map _)

/-- What was read is encoded in no more bytes than it was read from. -/
theorem utf8ByteSize_encode_le {value decoded : String} (read : decode value = .ok decoded) :
    (encode decoded).utf8ByteSize ≤ value.utf8ByteSize := by
  unfold decode at read
  split at read
  next same =>
    obtain rfl := Except.ok.inj read
    obtain ⟨bytes, decodes, valid⟩ := Option.bind_eq_some_iff.mp same
    rw [ofUtf8_eq_some_iff.mp valid] at decodes
    rw [utf8ByteSize_encode, ← length_utf8Of value]
    exact length_escapes_le decodes
  next => cases read

/-! ## The spelling a context is kept in -/

/-- A kind's spelling reads back. -/
theorem ContextKind.parse_text (kind : ContextKind) : parse kind.text.toList = .ok kind := by
  cases kind <;> decide

/-- Only the spelling of a kind reads as it. -/
theorem ContextKind.text_of_parse {text : List Char} {kind : ContextKind}
    (read : parse text = .ok kind) : text = kind.text.toList := by
  unfold parse at read
  split_ifs at read with context socket websocket <;> obtain rfl := Except.ok.inj read
  · exact context
  · exact socket
  · exact websocket

/-- No kind has a slash in it. -/
theorem ContextKind.slash_not_mem_text (kind : ContextKind) : '/' ∉ kind.text.toList := by
  cases kind <;> decide

/-- A text is cut at its first slash. -/
theorem splitSlash_append {before after : List Char} (none_ : '/' ∉ before) :
    splitSlash (before ++ '/' :: after) = some (before, after) := by
  induction before with
  | nil => rfl
  | cons c before ih =>
    obtain ⟨first, later⟩ := not_or.mp (mt List.mem_cons.mpr none_)
    rw [List.cons_append, splitSlash, if_neg (Ne.symm first), ih later]
    rfl

/-- The pieces of a cut make the text again. -/
theorem append_of_splitSlash {text before after : List Char}
    (split : splitSlash text = some (before, after)) : text = before ++ '/' :: after := by
  induction text generalizing before with
  | nil => cases split
  | cons c rest ih =>
    unfold splitSlash at split
    split at split
    next slash =>
      obtain ⟨rfl, rfl⟩ := Prod.mk.inj (Option.some.inj split)
      rw [slash, List.nil_append]
    next =>
      obtain ⟨halves, later, same⟩ := Option.map_eq_some_iff.mp split
      obtain ⟨rfl, rfl⟩ := Prod.mk.inj same
      rw [List.cons_append, ← ih later]

/-- What a text of a known kind is kept as. -/
theorem canonical_spelled (kind : ContextKind) (value : String) :
    canonical (kind.text ++ "/" ++ value) = decode value >>= fun decoded =>
      if accepts kind decoded then .ok (contextString kind decoded) else .error .malformed := by
  have chars : (kind.text ++ "/" ++ value).toList = kind.text.toList ++ '/' :: value.toList := by
    simp [String.toList_append]
  rw [canonical, chars, splitSlash_append kind.slash_not_mem_text]
  dsimp only
  rw [ContextKind.parse_text, String.ofList_toList, ok_bind]

/-- A text is kept exactly when it spells a locator of some kind, and then as what encoding
gives of it. -/
theorem canonical_eq_ok_iff {s text : String} : canonical s = .ok text ↔
    ∃ kind value decoded, s = kind.text ++ "/" ++ value ∧ decode value = .ok decoded ∧
      accepts kind decoded = true ∧ text = contextString kind decoded := by
  constructor
  · intro read
    have kept := read
    unfold canonical at read
    split at read
    next => cases read
    next before after split =>
      obtain ⟨kind, parsed, -⟩ := bind_eq_ok.mp read
      have whole : s = kind.text ++ "/" ++ String.ofList after := by
        rw [← String.toList_inj, append_of_splitSlash split, ContextKind.text_of_parse parsed]
        simp [String.toList_append]
      rw [whole, canonical_spelled] at kept
      obtain ⟨decoded, decodes, kept⟩ := bind_eq_ok.mp kept
      split at kept
      next accepted => exact ⟨kind, _, decoded, whole, decodes, accepted, (Except.ok.inj kept).symm⟩
      next => cases kept
  · rintro ⟨kind, value, decoded, rfl, decodes, accepted, rfl⟩
    rw [canonical_spelled, decodes, ok_bind, if_pos accepted]

/-- The one spelling is kept as it is. -/
theorem canonical_contextString {kind : ContextKind} {decoded : String}
    (accepted : accepts kind decoded = true) :
    canonical (contextString kind decoded) = .ok (contextString kind decoded) :=
  canonical_eq_ok_iff.mpr ⟨kind, encode decoded, decoded, rfl, decode_encode decoded, accepted, rfl⟩

/-- What was kept is kept as it is. -/
theorem canonical_idem {s text : String} (read : canonical s = .ok text) :
    canonical text = .ok text := by
  obtain ⟨kind, value, decoded, -, -, accepted, rfl⟩ := canonical_eq_ok_iff.mp read
  exact canonical_contextString accepted

/-- A context locator with a nonempty, control-free value, in its one spelling. -/
structure ReferenceContext where
  text : String
  kept : canonical text = .ok text

/-- Where a context is found. -/
inductive ReferenceLocator
  | named (value : String)
  | socket (value : String)
  | webSocket (value : String)

/-- Where a value of the kind is found. -/
def ContextKind.locator : ContextKind → String → ReferenceLocator
  | .context => .named
  | .socket => .socket
  | .websocket => .webSocket

namespace ReferenceContext

/-- Keep a text in its one spelling. -/
def parse (s : String) : Except ReferenceError ReferenceContext :=
  match read : canonical s with
  | .ok text => .ok ⟨text, canonical_idem read⟩
  | .error error => .error error

/-- The context of a value. -/
def new (kind : ContextKind) (value : String) : Except ReferenceError ReferenceContext :=
  parse (kind.text ++ "/" ++ encode value)

/-- A context by its name. -/
def named : String → Except ReferenceError ReferenceContext := new .context

/-- A context by the path of its socket. -/
def socket : String → Except ReferenceError ReferenceContext := new .socket

/-- A context by its address. -/
def websocket : String → Except ReferenceError ReferenceContext := new .websocket

/-- Where the context is found. -/
def locator (context : ReferenceContext) : Except ReferenceError ReferenceLocator :=
  match splitSlash context.text.toList with
  | none => .error .malformed
  | some (kind, value) => do
    let value ← decode (String.ofList value)
    let kind ← ContextKind.parse kind
    .ok (kind.locator value)

end ReferenceContext

/-- A context is parsed from the texts that are kept as its own. -/
theorem ReferenceContext.parse_eq_ok_iff {s : String} {context : ReferenceContext} :
    parse s = .ok context ↔ canonical s = .ok context.text := by
  unfold parse
  split
  next text read =>
    constructor
    · intro same
      rw [read, ← Except.ok.inj same]
    · intro same
      have equal := Except.ok.inj (read.symm.trans same)
      subst equal
      rfl
  next error read =>
    rw [read]
    exact iff_of_false (fun same => by cases same) fun same => by cases same

/-- A context is the spelling of one locator. -/
theorem ReferenceContext.eq_contextString (context : ReferenceContext) :
    ∃ kind decoded, accepts kind decoded = true ∧ context.text = contextString kind decoded := by
  obtain ⟨kind, -, decoded, -, -, accepted, same⟩ := canonical_eq_ok_iff.mp context.kept
  exact ⟨kind, decoded, accepted, same⟩

/-- A context is found where the value in its spelling says. -/
theorem ReferenceContext.locator_eq {context : ReferenceContext} {kind : ContextKind}
    {decoded : String} (spelled : context.text = contextString kind decoded) :
    context.locator = .ok (kind.locator decoded) := by
  have chars : (contextString kind decoded).toList =
      kind.text.toList ++ '/' :: (encode decoded).toList := by
    simp [contextString, String.toList_append]
  rw [locator, spelled, chars, splitSlash_append kind.slash_not_mem_text]
  dsimp only
  rw [String.ofList_toList, decode_encode, ok_bind, ContextKind.parse_text, ok_bind]

/-- What a constructor accepts is kept under its kind. -/
theorem ReferenceContext.new_eq_ok_iff {kind : ContextKind} {value : String}
    {context : ReferenceContext} : new kind value = .ok context ↔
      accepts kind value = true ∧ context.text = contextString kind value := by
  have kept : canonical (kind.text ++ "/" ++ encode value) =
      if accepts kind value then .ok (contextString kind value) else .error .malformed := by
    rw [canonical_spelled, decode_encode, ok_bind]
  rw [new, parse_eq_ok_iff, kept]
  split
  next accepted =>
    rw [Except.ok.injEq]
    exact ⟨fun same => ⟨accepted, same.symm⟩, fun both => both.2.symm⟩
  next refused => exact iff_of_false (fun same => by cases same) fun both => refused both.1

/-! ## References -/

/-- What within its review a reference names. -/
inductive ReferenceTarget
  | review
  | thread (threadId : ThreadId)
  | comment (commentId : CommentId)

/-- A review, or a thread or comment of it, in one daemon's context. -/
structure ReviewReference where
  context : ReferenceContext
  reviewId : ReviewId
  target : ReferenceTarget

/-- The parts of a target's text, each behind a slash. -/
def ReferenceTarget.parts : ReferenceTarget → List (List Char)
  | .review => []
  | .thread threadId => ["thread".toList, threadId.toString.toList]
  | .comment commentId => ["comment".toList, commentId.toString.toList]

/-- How the target ends a reference. -/
def ReferenceTarget.suffix : ReferenceTarget → String
  | .review => ""
  | .thread threadId => "/thread/" ++ threadId.toString
  | .comment commentId => "/comment/" ++ commentId.toString

namespace ReviewReference

/-- The reference's text. -/
def toString (reference : ReviewReference) : String :=
  "nits://" ++ reference.context.text ++ "/review/" ++ reference.reviewId.toString ++
    reference.target.suffix

/-- Query accepted by the browser bridge. -/
def browserQuery (reference : ReviewReference) : String :=
  "?reference=" ++ encode reference.toString

end ReviewReference

/-- `str::strip_prefix`. -/
def stripPrefix (start text : List Char) : Option (List Char) :=
  if start.isPrefixOf text then some (text.drop start.length) else none

/-- What was stripped stood in front. -/
theorem append_of_stripPrefix {start text rest : List Char}
    (stripped : stripPrefix start text = some rest) : text = start ++ rest := by
  unfold stripPrefix at stripped
  split at stripped
  next isPrefix =>
    obtain rfl := Option.some.inj stripped
    exact (List.prefix_iff_eq_append.mp (List.isPrefixOf_iff_prefix.mp isPrefix)).symm
  next => cases stripped

section Parse

-- `Ulid::from_string`.
variable (fromString : String → Option (BitVec 128))

/-- Read an id of a kind. -/
def Id.parse {kind : IdKind} (text : List Char) : Except ReferenceError (Id kind) :=
  match fromString (String.ofList text) with
  | some ulid => .ok ⟨ulid⟩
  | none => .error .malformed

/-- Read a target from the parts behind the review. -/
def ReferenceTarget.parse : List (List Char) → Except ReferenceError ReferenceTarget
  | [] => .ok .review
  | [part, id] =>
    if part = "thread".toList then do
      let threadId ← Id.parse fromString id
      .ok (.thread threadId)
    else if part = "comment".toList then do
      let commentId ← Id.parse fromString id
      .ok (.comment commentId)
    else .error .malformed
  | _ => .error .malformed

/-- Read a reference: its scheme, context, review and target. -/
def ReviewReference.parse (s : String) : Except ReferenceError ReviewReference :=
  if 16384 < s.utf8ByteSize then .error .malformed
  else match stripPrefix "nits://".toList s.toList with
  | none => .error .malformed
  | some rest => match rest.splitOn '/' with
    | kind :: value :: word :: id :: target => do
      if target.length ≠ 0 ∧ target.length ≠ 2 then .error .malformed
      else if word ≠ "review".toList then .error .malformed
      else do
        let context ← ReferenceContext.parse (String.ofList (kind ++ '/' :: value))
        let reviewId ← Id.parse fromString id
        let target ← ReferenceTarget.parse fromString target
        .ok ⟨context, reviewId, target⟩
    | _ => .error .malformed

end Parse

/-- What is asked of the parser of identifiers: it reads what is written, and nothing of
another length. -/
structure ReadsUlids (fromString : String → Option (BitVec 128)) : Prop where
  written : ∀ {kind : IdKind} (id : Id kind), fromString id.toString = some id.ulid
  length : ∀ {text : String} {ulid : BitVec 128}, fromString text = some ulid →
    text.utf8ByteSize = 26

/-! ## The text of a reference -/

/-- The digits of ids are single bytes and no slashes. -/
theorem Id.alphabet_plain : ∀ c ∈ Id.alphabet, c.utf8Size = 1 ∧ c ≠ '/' := by
  have plain : Id.alphabet.all (fun c => c.utf8Size == 1 && c != '/') = true := by decide
  simpa using List.all_eq_true.mp plain

/-- An id's characters are single bytes and no slashes. -/
theorem Id.toString_plain {kind : IdKind} (id : Id kind) :
    ∀ c ∈ id.toString.toList, c.utf8Size = 1 ∧ c ≠ '/' := by
  intro c mem
  rw [Id.toString, String.toList_ofList] at mem
  obtain ⟨place, -, rfl⟩ := List.mem_map.mp mem
  have inside : id.ulid.toNat / 32 ^ place % 32 < Id.alphabet.length := Nat.mod_lt _ (by decide)
  rw [List.getD_eq_getElem?_getD, List.getElem?_eq_getElem inside, Option.getD_some]
  exact Id.alphabet_plain _ (List.getElem_mem inside)

/-- The parts of a reference's text, each behind a slash but the first. -/
def ReviewReference.parts (kind : ContextKind) (value : String) (reviewId : ReviewId)
    (target : ReferenceTarget) : List (List Char) :=
  kind.text.toList :: (encode value).toList :: "review".toList :: reviewId.toString.toList ::
    target.parts

/-- A reference's text is its parts, separated by slashes. -/
theorem ReviewReference.toList_toString {reference : ReviewReference} {kind : ContextKind}
    {value : String} (spelled : reference.context.text = contextString kind value) :
    reference.toString.toList = "nits://".toList ++
      List.intercalate ['/'] (parts kind value reference.reviewId reference.target) := by
  rw [toString, spelled, contextString, parts]
  cases reference.target <;>
    simp [ReferenceTarget.suffix, ReferenceTarget.parts, String.toList_append, List.intercalate]

/-- No part of a reference has a slash in it. -/
theorem ReviewReference.slash_not_mem_parts (kind : ContextKind) (value : String)
    (reviewId : ReviewId) (target : ReferenceTarget) :
    ∀ part ∈ parts kind value reviewId target, '/' ∉ part := by
  have plain {kind : IdKind} (id : Id kind) : '/' ∉ id.toString.toList := fun mem =>
    (id.toString_plain '/' mem).2 rfl
  have suffix : ∀ part ∈ target.parts, '/' ∉ part := by
    cases target with
    | review => simp [ReferenceTarget.parts]
    | thread threadId =>
      exact List.forall_mem_cons.mpr ⟨by decide, List.forall_mem_singleton.mpr (plain threadId)⟩
    | comment commentId =>
      exact List.forall_mem_cons.mpr ⟨by decide, List.forall_mem_singleton.mpr (plain commentId)⟩
  exact List.forall_mem_cons.mpr ⟨kind.slash_not_mem_text, List.forall_mem_cons.mpr
    ⟨slash_not_mem_encode value, List.forall_mem_cons.mpr ⟨by decide, List.forall_mem_cons.mpr
      ⟨plain reviewId, suffix⟩⟩⟩⟩

section RoundTrip

variable {fromString : String → Option (BitVec 128)} (reads : ReadsUlids fromString)

include reads

/-- An id reads back. -/
theorem Id.parse_toString {kind : IdKind} (id : Id kind) :
    Id.parse fromString id.toString.toList = .ok id := by
  rw [Id.parse, String.ofList_toList, reads.written]

/-- A target reads back. -/
theorem ReferenceTarget.parse_parts (target : ReferenceTarget) :
    ReferenceTarget.parse fromString target.parts = .ok target := by
  cases target with
  | review => rfl
  | thread threadId =>
    rw [parts, ReferenceTarget.parse, if_pos rfl, Id.parse_toString reads, ok_bind]
  | comment commentId =>
    rw [parts, ReferenceTarget.parse, if_neg (by decide), if_pos rfl, Id.parse_toString reads,
      ok_bind]

/-- The text of a reference is read back unless it is too long to be read at all. -/
theorem ReviewReference.parse_toString (reference : ReviewReference) :
    parse fromString reference.toString =
      if 16384 < reference.toString.utf8ByteSize then .error .malformed else .ok reference := by
  obtain ⟨kind, value, accepted, spelled⟩ := reference.context.eq_contextString
  have context : ReferenceContext.parse (String.ofList
      (kind.text.toList ++ '/' :: (encode value).toList)) = .ok reference.context := by
    have text : String.ofList (kind.text.toList ++ '/' :: (encode value).toList) =
        contextString kind value := by
      rw [← String.toList_inj]
      simp [contextString, String.toList_append]
    rw [text, ReferenceContext.parse_eq_ok_iff, ← spelled]
    exact reference.context.kept
  unfold parse
  split
  next => rfl
  next =>
    rw [toList_toString spelled, stripPrefix, if_pos (by simp), List.drop_left]
    dsimp only
    rw [List.splitOn_intercalate '/' (slash_not_mem_parts kind value _ _) (by simp [parts]), parts]
    dsimp only
    rw [if_neg (by cases reference.target <;> simp [ReferenceTarget.parts]), if_neg (by simp), context,
      ok_bind, Id.parse_toString reads, ok_bind, ReferenceTarget.parse_parts reads, ok_bind]

end RoundTrip

/-! ## How long the text is -/

/-- The bytes of some characters. -/
def width (chars : List Char) : Nat := (chars.flatMap String.utf8EncodeChar).length

/-- Widths add up. -/
theorem width_append (chars others : List Char) :
    width (chars ++ others) = width chars + width others := by
  rw [width, List.flatMap_append, List.length_append, width, width]

/-- The width of a text is its length in bytes. -/
theorem width_toList (text : String) : width text.toList = text.utf8ByteSize := length_utf8Of text

/-- The length in bytes is the width. -/
theorem width_ofList (chars : List Char) : (String.ofList chars).utf8ByteSize = width chars := by
  rw [← width_toList, String.toList_ofList]

/-- Separated parts are as wide as they and their separators. -/
theorem width_intercalate (first : List Char) (parts : List (List Char)) :
    width (List.intercalate ['/'] (first :: parts)) =
      width first + (parts.map fun part => 1 + width part).sum := by
  induction parts generalizing first with
  | nil => simp [List.intercalate]
  | cons part parts ih =>
    have split : List.intercalate ['/'] (first :: part :: parts) =
        first ++ '/' :: List.intercalate ['/'] (part :: parts) := by
      simp [List.intercalate]
    have slash : width ['/'] = 1 := rfl
    rw [split, width_append, ← List.singleton_append, width_append, ih, slash,
      List.map_cons, List.sum_cons]
    omega

/-- An id is written in 26 bytes. -/
theorem Id.width_toString {kind : IdKind} (id : Id kind) : width id.toString.toList = 26 := by
  have single : ∀ c ∈ id.toString.toList, (String.utf8EncodeChar c).length = 1 := fun c mem => by
    rw [String.length_utf8EncodeChar]
    exact (id.toString_plain c mem).1
  have count : id.toString.toList.length = 26 := by simp [Id.toString]
  rw [width, List.length_flatMap, List.map_congr_left single, List.map_const', count]
  rfl

/-- The bytes that name the part of a review. -/
def ReferenceTarget.size : ReferenceTarget → Nat
  | .review => 0
  | .thread _ => 34
  | .comment _ => 35

/-- How wide the parts of a target are, each with its slash. -/
theorem ReferenceTarget.width_parts (target : ReferenceTarget) :
    (target.parts.map fun part => 1 + width part).sum = target.size := by
  cases target with
  | review => rfl
  | thread threadId =>
    have word : width "thread".toList = 6 := by decide
    simp only [parts, List.map_cons, List.map_nil, List.sum_cons, List.sum_nil, word,
      Id.width_toString]
    rfl
  | comment commentId =>
    have word : width "comment".toList = 7 := by decide
    simp only [parts, List.map_cons, List.map_nil, List.sum_cons, List.sum_nil, word,
      Id.width_toString]
    rfl

/-- The bytes that encoding makes of a value. -/
def escapedSize (value : String) : Nat :=
  ((utf8Of value).map fun byte => if unreserved byte then 1 else 3).sum

/-- Encoding is as long as its escaped size. -/
theorem utf8ByteSize_encode_eq (value : String) : (encode value).utf8ByteSize = escapedSize value := by
  rw [utf8ByteSize_encode, List.length_flatMap, escapedSize]
  exact congrArg List.sum (List.map_congr_left fun byte _ => escape_length byte)

/-- How long a reference is. -/
theorem ReviewReference.utf8ByteSize_toString {reference : ReviewReference} {kind : ContextKind}
    {value : String} (spelled : reference.context.text = contextString kind value) :
    reference.toString.utf8ByteSize =
      42 + kind.text.utf8ByteSize + escapedSize value + reference.target.size := by
  have scheme : width "nits://".toList = 7 := by decide
  have word : width "review".toList = 6 := by decide
  have value := width_toList (encode value)
  rw [utf8ByteSize_encode_eq] at value
  rw [← width_toList, toList_toString spelled, width_append, parts, width_intercalate, scheme]
  simp only [List.map_cons, List.sum_cons, ReferenceTarget.width_parts, word, Id.width_toString,
    value, width_toList kind.text]
  omega

section Shorter

variable {fromString : String → Option (BitVec 128)} (reads : ReadsUlids fromString)

include reads

/-- Texts that read as ids are 26 bytes long. -/
theorem Id.width_of_parse {kind : IdKind} {text : List Char} {id : Id kind}
    (read : Id.parse fromString text = .ok id) : width text = 26 := by
  unfold Id.parse at read
  split at read
  next known =>
    rw [← width_ofList]
    exact reads.length known
  next => cases read

/-- Parts that read as a target are as wide as the target is written. -/
theorem ReferenceTarget.width_of_parse {parts : List (List Char)} {target : ReferenceTarget}
    (read : ReferenceTarget.parse fromString parts = .ok target) :
    (parts.map fun part => 1 + width part).sum = target.size := by
  unfold ReferenceTarget.parse at read
  split at read
  next =>
    obtain rfl := Except.ok.inj read
    rfl
  next part id =>
    split_ifs at read with thread comment
    · obtain ⟨threadId, known, same⟩ := bind_eq_ok.mp read
      obtain rfl := Except.ok.inj same
      have word : width "thread".toList = 6 := by decide
      simp only [thread, List.map_cons, List.map_nil, List.sum_cons, List.sum_nil, word,
        Id.width_of_parse reads known]
      rfl
    · obtain ⟨commentId, known, same⟩ := bind_eq_ok.mp read
      obtain rfl := Except.ok.inj same
      have word : width "comment".toList = 7 := by decide
      simp only [comment, List.map_cons, List.map_nil, List.sum_cons, List.sum_nil, word,
        Id.width_of_parse reads known]
      rfl
  next => cases read

/-- What is read of a text is written no longer than the text. -/
theorem ReviewReference.utf8ByteSize_le {s : String} {reference : ReviewReference}
    (read : parse fromString s = .ok reference) :
    s.utf8ByteSize ≤ 16384 ∧ reference.toString.utf8ByteSize ≤ s.utf8ByteSize := by
  unfold parse at read
  split at read
  next => cases read
  next short =>
    refine ⟨Nat.not_lt.mp short, ?_⟩
    split at read
    next => cases read
    next rest stripped =>
      split at read
      next kind value word id target split =>
        split_ifs at read with count named
        obtain ⟨context_, known, read⟩ := bind_eq_ok.mp read
        obtain ⟨reviewId, knownId, read⟩ := bind_eq_ok.mp read
        obtain ⟨part, knownPart, same⟩ := bind_eq_ok.mp read
        obtain rfl := Except.ok.inj same
        obtain ⟨sort, spelling, decoded, whole, decodes, -, spelled⟩ :=
          canonical_eq_ok_iff.mp (ReferenceContext.parse_eq_ok_iff.mp known)
        -- The text is its parts, and only the value can have been spelled longer.
        have text : width s.toList = 7 + width (List.intercalate ['/'] (rest.splitOn '/')) := by
          rw [List.intercalate_splitOn, append_of_stripPrefix stripped, width_append]
          rfl
        have context : width kind + (1 + width value) =
            sort.text.utf8ByteSize + 1 + spelling.utf8ByteSize := by
          have sizes := congrArg String.utf8ByteSize whole
          rw [width_ofList, width_append, ← List.singleton_append, width_append,
            String.utf8ByteSize_append, String.utf8ByteSize_append] at sizes
          exact sizes
        have shorter := utf8ByteSize_encode_le decodes
        have wordSize : width word = 6 := by
          rw [not_not.mp named]
          decide
        have idSize := Id.width_of_parse reads knownId
        have targetSize := ReferenceTarget.width_of_parse reads knownPart
        rw [utf8ByteSize_encode_eq] at shorter
        rw [split, width_intercalate, List.map_cons, List.map_cons, List.map_cons, List.sum_cons,
          List.sum_cons, List.sum_cons, wordSize, idSize, targetSize, width_toList] at text
        have written := @utf8ByteSize_toString ⟨context_, reviewId, part⟩ _ _ spelled
        dsimp only at written
        omega
      next => cases read

end Shorter

/-- A locator is kept in one spelling. -/
theorem ReferenceContext.eq_of_locator {context other : ReferenceContext}
    (same : context.locator = other.locator) : context = other := by
  obtain ⟨kind, value, -, spelled⟩ := context.eq_contextString
  obtain ⟨kind', value', -, spelled'⟩ := other.eq_contextString
  rw [locator_eq spelled, locator_eq spelled', Except.ok.injEq] at same
  have text : context.text = other.text := by
    rw [spelled, spelled']
    cases kind <;> cases kind' <;> cases same <;> rfl
  cases context
  cases other
  cases text
  rfl

/-- A reference to a context that a constructor accepts prints to a text that is read back,
also from the query made of it, exactly when its size is in bounds. The text of a reference
that was read is always read back, and is one text for all spellings of what it names. -/
theorem reference_round_trip {fromString : String → Option (BitVec 128)}
    (reads : ReadsUlids fromString) :
    (∀ kind value context, ReferenceContext.new kind value = .ok context →
      context.locator = .ok (kind.locator value) ∧ ∀ reviewId target,
        (∃ query, ReviewReference.browserQuery ⟨context, reviewId, target⟩ = "?reference=" ++ query ∧
          decode query = .ok (ReviewReference.toString ⟨context, reviewId, target⟩)) ∧
        (ReviewReference.parse fromString (ReviewReference.toString ⟨context, reviewId, target⟩) =
            .ok ⟨context, reviewId, target⟩ ↔
          42 + kind.text.utf8ByteSize + escapedSize value + target.size ≤ 16384)) ∧
    ∀ s reference, ReviewReference.parse fromString s = .ok reference →
      ReviewReference.parse fromString reference.toString = .ok reference ∧
      ∀ s' other, ReviewReference.parse fromString s' = .ok other →
        other.context.locator = reference.context.locator → other.reviewId = reference.reviewId →
        other.target = reference.target → other.toString = reference.toString := by
  constructor
  · intro kind value context made
    obtain ⟨-, spelled⟩ := ReferenceContext.new_eq_ok_iff.mp made
    refine ⟨ReferenceContext.locator_eq spelled, fun reviewId target =>
      ⟨⟨_, rfl, decode_encode _⟩, ?_⟩⟩
    rw [ReviewReference.parse_toString reads,
      @ReviewReference.utf8ByteSize_toString ⟨context, reviewId, target⟩ _ _ spelled]
    split
    next long => exact iff_of_false (fun same => by cases same) (Nat.not_le.mpr long)
    next short => exact iff_of_true rfl (Nat.not_lt.mp short)
  · intro s reference read
    obtain ⟨bound, shorter⟩ := ReviewReference.utf8ByteSize_le reads read
    refine ⟨?_, fun s' other _ located named targeted => ?_⟩
    · rw [ReviewReference.parse_toString reads, if_neg (by omega)]
    · have context := ReferenceContext.eq_of_locator located
      obtain ⟨_, _, _⟩ := other
      obtain ⟨_, _, _⟩ := reference
      cases context
      cases named
      cases targeted
      rfl

/-- A reader of identifiers in letters of either case. -/
def crockford (text : String) : Option (BitVec 128) :=
  if text.utf8ByteSize = 26 then
    (text.toList.mapM fun c => Id.alphabet.idxOf? c.toUpper).map fun digits =>
      BitVec.ofNat 128 (valueOf 32 0 digits)
  else none

/-- A digit is found at its place. -/
theorem idxOf_alphabet : ∀ digit < 32,
    Id.alphabet.idxOf? (Id.alphabet.getD digit '0').toUpper = some digit := by decide

/-- Digits read back one by one. -/
theorem mapM_alphabet {digits : List Nat} (small : ∀ digit ∈ digits, digit < 32) :
    ((digits.map fun digit => Id.alphabet.getD digit '0').mapM fun c =>
      Id.alphabet.idxOf? c.toUpper) = some digits := by
  induction digits with
  | nil => rfl
  | cons digit digits ih =>
    obtain ⟨first, later⟩ := List.forall_mem_cons.mp small
    rw [List.map_cons, List.mapM_cons, idxOf_alphabet digit first, ih later]
    rfl

/-- It reads what is written, and nothing of another length. -/
theorem crockford_reads : ReadsUlids crockford where
  written := by
    intro kind id
    have chars : id.toString.toList =
        (digitsOf 32 26 id.ulid.toNat).map fun digit => Id.alphabet.getD digit '0' := by
      rw [Id.toString, String.toList_ofList, digitsOf, List.map_map]
      rfl
    have small : id.ulid.toNat < 32 ^ 26 := by
      have bound := id.ulid.isLt
      omega
    rw [crockford, if_pos (by rw [← width_toList, Id.width_toString]), chars,
      mapM_alphabet fun digit mem => digitsOf_lt (by decide) mem, Option.map_some,
      valueOf_digitsOf_of_lt small, BitVec.ofNat_toNat, BitVec.setWidth_eq]
  length := by
    intro text ulid known
    unfold crockford at known
    split at known
    next size => exact size
    next => cases known

/-- With that reader. -/
theorem reference_round_trip_crockford :
    (∀ kind value context, ReferenceContext.new kind value = .ok context →
      context.locator = .ok (kind.locator value) ∧ ∀ reviewId target,
        (∃ query, ReviewReference.browserQuery ⟨context, reviewId, target⟩ = "?reference=" ++ query ∧
          decode query = .ok (ReviewReference.toString ⟨context, reviewId, target⟩)) ∧
        (ReviewReference.parse crockford (ReviewReference.toString ⟨context, reviewId, target⟩) =
            .ok ⟨context, reviewId, target⟩ ↔
          42 + kind.text.utf8ByteSize + escapedSize value + target.size ≤ 16384)) ∧
    ∀ s reference, ReviewReference.parse crockford s = .ok reference →
      ReviewReference.parse crockford reference.toString = .ok reference ∧
      ∀ s' other, ReviewReference.parse crockford s' = .ok other →
        other.context.locator = reference.context.locator → other.reviewId = reference.reviewId →
        other.target = reference.target → other.toString = reference.toString :=
  reference_round_trip crockford_reads

/-- A long name of letters is accepted. -/
theorem accepts_letters (n : Nat) :
    accepts .context (String.ofList (List.replicate (n + 1) 'a')) = true := by
  have plain : isWhitespace 'a' = false := by decide
  have kept : ∀ count, (List.replicate (count + 1) 'a').dropWhile isWhitespace =
      List.replicate (count + 1) 'a' := fun count => by
    rw [List.replicate_succ, List.dropWhile_cons_of_neg (by rw [plain]; decide)]
  have trimmed : trim (String.ofList (List.replicate (n + 1) 'a')) =
      String.ofList (List.replicate (n + 1) 'a') := by
    rw [trim, String.toList_ofList, kept, List.reverse_replicate, kept, List.reverse_replicate]
  have control : (List.replicate (n + 1) 'a').any isControl = false := by
    rw [List.any_eq_false]
    intro c mem
    rw [List.eq_of_mem_replicate mem]
    decide
  have some_ : (String.ofList (List.replicate (n + 1) 'a')).isEmpty = false := by
    rw [Bool.eq_false_iff]
    intro empty
    have none_ := congrArg String.toList (String.isEmpty_iff.mp empty)
    rw [String.toList_ofList, List.replicate_succ] at none_
    cases none_
  rw [accepts, some_, trimmed, String.toList_ofList, control, decide_eq_true rfl]
  rfl

/-- Encoding n letters takes n bytes or more. -/
theorem le_escapedSize (n : Nat) : n ≤ escapedSize (String.ofList (List.replicate n 'a')) := by
  have bytes : utf8Of (String.ofList (List.replicate n 'a')) = List.replicate n 97 := by
    rw [utf8Of_ascii fun c mem => by rw [List.eq_of_mem_replicate mem]; decide,
      List.map_replicate]
    rfl
  have plain : unreserved 97 = true := by decide
  rw [escapedSize, bytes, List.map_replicate, if_pos plain]
  simp

/-- A context with a long name is accepted, and a reference to it is not read. -/
theorem reference_not_read : ¬ ∀ kind value context reviewId target,
    ReferenceContext.new kind value = .ok context →
      ReviewReference.parse crockford (ReviewReference.toString ⟨context, reviewId, target⟩) =
        .ok ⟨context, reviewId, target⟩ := by
  intro all
  have accepted := accepts_letters 16383
  have made : ReferenceContext.new .context (String.ofList (List.replicate (16383 + 1) 'a')) =
      .ok ⟨_, canonical_contextString accepted⟩ :=
    ReferenceContext.new_eq_ok_iff.mpr ⟨accepted, rfl⟩
  have read := all _ _ _ ⟨0⟩ .review made
  have long := le_escapedSize (16383 + 1)
  rw [ReviewReference.parse_toString crockford_reads, if_pos] at read
  · cases read
  · rw [@ReviewReference.utf8ByteSize_toString ⟨_, _, _⟩ .context _ rfl]
    omega

end Nits.Protocol
