import Mathlib.Data.Nat.Log
import Nits.Logical.Positional
import Nits.ReviewCore.Render.Decoding

/-!
# Raw tree diffs

What `git diff-tree -r -z --raw` prints is one record for each change: a head of five parts
and then one path, or two for a rename or a copy, each ended by a NUL. The parser takes the
fields between NULs in order; an empty status is indexed out of range.
-/

namespace Nits.ReviewCore

open Logical Protocol

/-- The bytes between two NULs, or between two spaces. -/
abbrev Field := List UInt8

/-- An object id of any kind. -/
abbrev RawOid := BitVec 160

/-- What happened to a path. -/
inductive RawStatus
  | added
  | deleted
  | modified
  | typeChanged
  | renamed («from» : RepoPath)

/-- One entry of a raw diff. -/
structure RawChange where
  oldMode : UInt32
  newMode : UInt32
  old : RawOid
  new : RawOid
  status : RawStatus
  path : RepoPath

inductive ParseIntError
  | empty
  | invalidDigit
  | posOverflow

/-- What is wrong with a diff. -/
inductive RawDiffError
  | utf8
  | rawLine (line : Field)
  | missingPath
  | path (error : InvariantError)
  | unknownStatus (letter : UInt8)
  | mode (error : ParseIntError)
  | oid (text : Field)

inductive RawDiffFailure
  | parse (error : RawDiffError)
  | panicked

/-! ## Numbers -/

def octalDigits : Nat → Field → Except ParseIntError Nat
  | value, [] => .ok value
  | value, byte :: rest =>
    if byte < 48 ∨ 55 < byte then .error .invalidDigit
    else
      let value := value * 8 + (byte.toNat - 48)
      if 2 ^ 32 ≤ value then .error .posOverflow else octalDigits value rest

/-- An unsigned number in base eight; a plus sign may come first. -/
def fromStrRadix8 : Field → Except ParseIntError UInt32
  | [] => .error .empty
  | [43] | [45] => .error .invalidDigit
  | 43 :: rest => (octalDigits 0 rest).map UInt32.ofNat
  | text => (octalDigits 0 text).map UInt32.ofNat

def hexVal (c : UInt8) : Option Nat :=
  if 48 ≤ c ∧ c ≤ 57 then some (c.toNat - 48)
  else if 97 ≤ c ∧ c ≤ 102 then some (c.toNat - 97 + 10)
  else if 65 ≤ c ∧ c ≤ 70 then some (c.toNat - 65 + 10)
  else none

def parseMode (text : Field) : Except RawDiffFailure UInt32 :=
  (fromStrRadix8 text).mapError fun error => .parse (.mode error)

def parseOid (text : Field) : Except RawDiffFailure RawOid :=
  if text.length ≠ 40 then .error (.parse (.oid text))
  else match text.mapM hexVal with
    | none => .error (.parse (.oid text))
    | some digits => .ok (BitVec.ofNat 160 (valueOf 16 0 digits))

/-! ## Records -/

/-- The parts of a record's head. -/
structure RawHead where
  oldMode : Field
  newMode : Field
  old : Field
  new : Field
  status : Field

def splitHead (meta_ : Field) : Except RawDiffFailure RawHead :=
  if meta_.toByteArray.validateUTF8 then
    match meta_ with
    | 58 :: line => match line.splitOn 32 with
      | [oldMode, newMode, old, new, status] => .ok ⟨oldMode, newMode, old, new, status⟩
      | _ => .error (.parse (.rawLine line))
    | _ => .error (.parse (.rawLine meta_))
  else .error (.parse .utf8)

def nextPath : List Field → Except RawDiffFailure RepoPath
  | [] => .error (.parse .missingPath)
  | field :: _ =>
    (RepoPath.new (fromUtf8Lossy field)).mapError fun error => .parse (.path error)

/-- The status and the path of a record, and how many of the fields that follow are its
paths. -/
def readStatus (rest : List Field) : Field → Except RawDiffFailure (RawStatus × RepoPath × Nat)
  | [] => .error .panicked
  | letter :: _ =>
    let one (status : RawStatus) := (nextPath rest).map fun path => (status, path, 1)
    if letter = 65 then one .added
    else if letter = 68 then one .deleted
    else if letter = 77 then one .modified
    else if letter = 84 then one .typeChanged
    else if letter = 82 ∨ letter = 67 then do
      let from_ ← nextPath rest
      let path ← nextPath rest.tail
      return (.renamed from_, path, 2)
    else .error (.parse (.unknownStatus letter))

/-- A record's change, and how many of the fields that follow its head are its paths. -/
def parseRecord (meta_ : Field) (rest : List Field) : Except RawDiffFailure (RawChange × Nat) := do
  let head ← splitHead meta_
  let (status, path, taken) ← readStatus rest head.status
  let oldMode ← parseMode head.oldMode
  let newMode ← parseMode head.newMode
  let old ← parseOid head.old
  let new ← parseOid head.new
  return (⟨oldMode, newMode, old, new, status, path⟩, taken)

def parseFields : List Field → Except RawDiffFailure (List RawChange)
  | [] => .ok []
  | meta_ :: rest =>
    match parseRecord meta_ rest with
    | .error failure => .error failure
    | .ok (change, taken) => (parseFields (rest.drop taken)).map (change :: ·)
termination_by fields => fields.length
decreasing_by
  rw [List.length_cons, List.length_drop]
  omega

def fieldsOf (out : List UInt8) : List Field :=
  (out.splitOn 0).filter fun field => ¬ field.isEmpty

/-- Read the output of a raw diff. -/
def parseRawDiff (out : List UInt8) : Except RawDiffFailure (List RawChange) :=
  parseFields (fieldsOf out)

/-! ## Panics -/

/-- A well-formed head whose status is empty. -/
def LacksStatus (meta_ : Field) : Prop := ∃ head, splitHead meta_ = .ok head ∧ head.status = []

/-- After some whole records these fields are left. -/
inductive Reaches : List Field → List Field → Prop
  | here {fields : List Field} : Reaches fields fields
  | past {meta_ : Field} {rest left : List Field} {change : RawChange} {taken : Nat}
      (record : parseRecord meta_ rest = .ok (change, taken))
      (later : Reaches (rest.drop taken) left) : Reaches (meta_ :: rest) left

/-- After some whole records comes a head whose status is empty. -/
def StatusMissing (out : List UInt8) : Prop :=
  ∃ meta_ rest, Reaches (fieldsOf out) (meta_ :: rest) ∧ LacksStatus meta_

theorem mapError_ne_panicked {ε α : Type} (result : Except ε α) (reason : ε → RawDiffError) :
    result.mapError (fun error => RawDiffFailure.parse (reason error)) ≠ .error .panicked := by
  cases result <;> simp [Except.mapError]

theorem parseOid_ne_panicked (text : Field) : parseOid text ≠ .error .panicked := by
  unfold parseOid
  split
  · simp
  · split <;> simp

theorem nextPath_ne_panicked (rest : List Field) : nextPath rest ≠ .error .panicked := by
  cases rest with
  | nil => simp [nextPath]
  | cons field later => exact mapError_ne_panicked _ _

theorem splitHead_ne_panicked (meta_ : Field) : splitHead meta_ ≠ .error .panicked := by
  unfold splitHead
  split
  · split
    · split <;> simp
    · simp
  · simp

/-- A sequence of steps panics when the first does, or when a later one does. -/
theorem bind_panicked {α β : Type} {first : Except RawDiffFailure α}
    {next : α → Except RawDiffFailure β} : (first >>= next) = .error .panicked ↔
      first = .error .panicked ∨ ∃ value, first = .ok value ∧ next value = .error .panicked := by
  cases first with
  | error failure => simp [bind, Except.bind]
  | ok value => simp [bind, Except.bind]

theorem readStatus_panicked {rest : List Field} {status : Field} :
    readStatus rest status = .error .panicked ↔ status = [] := by
  cases status with
  | nil => simp [readStatus]
  | cons letter score =>
    have next := nextPath_ne_panicked rest
    have last := nextPath_ne_panicked rest.tail
    have one (value : RawStatus) :
        (nextPath rest).map (fun path => (value, path, 1)) ≠ .error .panicked := by
      cases read : nextPath rest with
      | error failure =>
        rw [read] at next
        simpa [Except.map] using next
      | ok path => simp [Except.map]
    have two : (do
        let from_ ← nextPath rest
        let path ← nextPath rest.tail
        return (RawStatus.renamed from_, path, 2)) ≠ Except.error RawDiffFailure.panicked := by
      rw [Ne, bind_panicked]
      rintro (first | ⟨from_, -, second⟩)
      · exact next first
      · rw [bind_panicked] at second
        rcases second with failed | ⟨_, -, done⟩
        · exact last failed
        · cases done
    simp only [readStatus, reduceCtorEq, iff_false]
    split_ifs
    · exact one _
    · exact one _
    · exact one _
    · exact one _
    · exact two
    · simp

theorem parseRecord_panicked {meta_ : Field} {rest : List Field} :
    parseRecord meta_ rest = .error .panicked ↔ LacksStatus meta_ := by
  unfold parseRecord LacksStatus
  rw [bind_panicked]
  constructor
  · rintro (failed | ⟨head, isHead, failed⟩)
    · exact absurd failed (splitHead_ne_panicked meta_)
    · refine ⟨head, isHead, ?_⟩
      rw [bind_panicked] at failed
      rcases failed with failed | ⟨_, -, failed⟩
      · exact readStatus_panicked.mp failed
      · simp only [bind_panicked] at failed
        rcases failed with failed | ⟨_, -, failed | ⟨_, -, failed | ⟨_, -, failed | ⟨_, -, done⟩⟩⟩⟩
        · exact absurd failed (mapError_ne_panicked _ _)
        · exact absurd failed (mapError_ne_panicked _ _)
        · exact absurd failed (parseOid_ne_panicked _)
        · exact absurd failed (parseOid_ne_panicked _)
        · cases done
  · rintro ⟨head, isHead, missing⟩
    refine .inr ⟨head, isHead, bind_panicked.mpr (.inl ?_)⟩
    exact readStatus_panicked.mpr missing

theorem parseFields_panicked (fields : List Field) : parseFields fields = .error .panicked ↔
      ∃ meta_ rest, Reaches fields (meta_ :: rest) ∧ LacksStatus meta_ := by
  induction fields using parseFields.induct with
  | case1 =>
    rw [parseFields]
    constructor
    · intro impossible
      cases impossible
    · rintro ⟨meta_, rest, reaches, -⟩
      cases reaches
  | case2 meta_ rest failure record =>
    rw [parseFields, record]
    have whole : failure = .panicked ↔ LacksStatus meta_ := by
      rw [← @parseRecord_panicked meta_ rest, record, Except.error.injEq]
    dsimp only
    rw [Except.error.injEq, whole]
    constructor
    · exact fun lacks => ⟨meta_, rest, .here, lacks⟩
    · rintro ⟨last, later, reaches, lacks⟩
      cases reaches with
      | here => exact lacks
      | past other => rw [record] at other; cases other
  | case3 meta_ rest change taken record ih =>
    rw [parseFields, record]
    have rest_ : (parseFields (rest.drop taken)).map (change :: ·) = .error .panicked ↔
        parseFields (rest.drop taken) = .error .panicked := by
      cases parseFields (rest.drop taken) <;> simp [Except.map]
    dsimp only
    rw [rest_, ih]
    constructor
    · rintro ⟨last, later, reaches, lacks⟩
      exact ⟨last, later, .past record reaches, lacks⟩
    · rintro ⟨last, later, reaches, lacks⟩
      cases reaches with
      | here =>
        have failed := (@parseRecord_panicked meta_ rest).mpr lacks
        rw [record] at failed
        cases failed
      | past other reaches =>
        rw [record] at other
        cases other
        exact ⟨last, later, reaches, lacks⟩

/-- Parsing panics exactly when a head without a status follows whole records. -/
theorem parseRawDiff_panicked (out : List UInt8) :
    parseRawDiff out = .error .panicked ↔ StatusMissing out :=
  parseFields_panicked (fieldsOf out)

/-! ## Printing -/

/-- A status as git writes it; a rename or a copy has a similarity score in percent. -/
inductive ChangeStatus
  | added
  | deleted
  | modified
  | typeChanged
  | renamed (score : Fin 101) («from» : RepoPath)
  | copied (score : Fin 101) («from» : RepoPath)

/-- A change as git writes it. -/
structure PrintedChange where
  oldMode : UInt32
  newMode : UInt32
  old : RawOid
  new : RawOid
  status : ChangeStatus
  path : RepoPath

def decimalDigit (digit : Nat) : UInt8 := .ofNat (48 + digit)

def hexDigit (digit : Nat) : UInt8 := .ofNat (if digit < 10 then 48 + digit else 87 + digit)

/-- At least six octal digits. -/
def modeText (mode : UInt32) : Field :=
  (digitsOf 8 (max 6 (Nat.log 8 mode.toNat + 1)) mode.toNat).map decimalDigit

def oidText (oid : RawOid) : Field := (digitsOf 16 40 oid.toNat).map hexDigit

def scoreText (score : Fin 101) : Field := (digitsOf 10 3 score).map decimalDigit

def ChangeStatus.text : ChangeStatus → Field
  | .added => [65]
  | .deleted => [68]
  | .modified => [77]
  | .typeChanged => [84]
  | .renamed score _ => 82 :: scoreText score
  | .copied score _ => 67 :: scoreText score

/-- The other path of a rename or a copy. -/
def ChangeStatus.«from» : ChangeStatus → Option RepoPath
  | .renamed _ «from» | .copied _ «from» => some «from»
  | .added | .deleted | .modified | .typeChanged => none

/-- A status as it is parsed: without the score, and a copy as a rename. -/
def ChangeStatus.raw : ChangeStatus → RawStatus
  | .added => .added
  | .deleted => .deleted
  | .modified => .modified
  | .typeChanged => .typeChanged
  | .renamed _ «from» | .copied _ «from» => .renamed «from»

namespace PrintedChange

def raw (change : PrintedChange) : RawChange :=
  ⟨change.oldMode, change.newMode, change.old, change.new, change.status.raw, change.path⟩

def head (change : PrintedChange) : RawHead :=
  ⟨modeText change.oldMode, modeText change.newMode, oidText change.old, oidText change.new,
    change.status.text⟩

def paths (change : PrintedChange) : List RepoPath :=
  change.status.from.toList ++ [change.path]

/-- The fields of a record. -/
def fields (change : PrintedChange) : List Field :=
  (58 :: (change.head.oldMode ++ 32 :: (change.head.newMode ++ 32 :: (change.head.old ++
    32 :: (change.head.new ++ 32 :: change.head.status))))) ::
    change.paths.map fun path => utf8Bytes path.asStr

/-- The record, each field ended by a NUL. -/
def text (change : PrintedChange) : List UInt8 := change.fields.flatMap fun field => field ++ [0]

end PrintedChange

/-! ## Round trip -/

/-- Bytes of a head's part: printable and neither a space nor beyond ASCII. -/
def Plain (field : Field) : Prop := ∀ byte ∈ field, 32 < byte.toNat ∧ byte.toNat < 128

theorem toNat_decimalDigit {digit : Nat} (small : digit < 10) :
    (decimalDigit digit).toNat = 48 + digit := by
  rw [decimalDigit, UInt8.toNat_ofNat']
  omega

variable {digits : List Nat}

theorem plain_decimal (small : ∀ digit ∈ digits, digit < 10) : Plain (digits.map decimalDigit) := by
  intro byte mem
  obtain ⟨digit, isDigit, rfl⟩ := List.mem_map.mp mem
  rw [toNat_decimalDigit (small digit isDigit)]
  have bound := small digit isDigit
  omega

theorem plain_modeText (mode : UInt32) : Plain (modeText mode) :=
  plain_decimal fun _ mem => (digitsOf_lt (by decide) mem).trans (by decide)

theorem plain_oidText (oid : RawOid) : Plain (oidText oid) := by
  intro byte mem
  obtain ⟨digit, isDigit, rfl⟩ := List.mem_map.mp mem
  have bound := digitsOf_lt (by decide) isDigit
  rw [hexDigit, UInt8.toNat_ofNat']
  split <;> omega

theorem plain_statusText (status : ChangeStatus) : Plain status.text := by
  have scored (letter : UInt8) (printable : 32 < letter.toNat ∧ letter.toNat < 128)
      (score : Fin 101) : Plain (letter :: scoreText score) :=
    List.forall_mem_cons.mpr ⟨printable, plain_decimal fun _ => digitsOf_lt (by decide)⟩
  cases status with
  | renamed score «from» => exact scored 82 (by decide) score
  | copied score «from» => exact scored 67 (by decide) score
  | _ => simp [ChangeStatus.text, Plain]

theorem octalDigits_decimal (small : ∀ digit ∈ digits, digit < 8) {start : Nat}
    (bound : valueOf 8 start digits < 2 ^ 32) :
    octalDigits start (digits.map decimalDigit) = .ok (valueOf 8 start digits) := by
  induction digits generalizing start with
  | nil => rfl
  | cons digit later ih =>
    obtain ⟨first, rest⟩ := List.forall_mem_cons.mp small
    have byte := toNat_decimalDigit (first.trans (by decide : 8 < 10))
    have within : valueOf 8 (start * 8 + digit) later < 2 ^ 32 := bound
    have fits := (le_valueOf (by decide : 0 < 8) (start * 8 + digit) later).trans_lt within
    rw [List.map_cons, octalDigits, if_neg, byte, Nat.add_sub_cancel_left, if_neg (by omega)]
    · exact ih rest within
    · rw [UInt8.lt_iff_toNat_lt, UInt8.lt_iff_toNat_lt, byte]
      simp only [UInt8.reduceToNat]
      omega

theorem parseMode_modeText (mode : UInt32) : parseMode (modeText mode) = .ok mode := by
  have small := mode.toNat_lt
  have wide : mode.toNat < 8 ^ max 6 (Nat.log 8 mode.toNat + 1) :=
    (Nat.lt_pow_succ_log_self (by decide) _).trans_le
      (Nat.pow_le_pow_right (by decide) (Nat.le_max_right _ _))
  have value := valueOf_digitsOf_of_lt wide
  have read : octalDigits 0 (modeText mode) = .ok mode.toNat := by
    rw [modeText, octalDigits_decimal (fun _ => digitsOf_lt (by decide)) (by rw [value]; exact small),
      value]
  have digits : fromStrRadix8 (modeText mode) = (octalDigits 0 (modeText mode)).map UInt32.ofNat := by
    have long : 6 ≤ (modeText mode).length := by
      rw [modeText, List.length_map, length_digitsOf]
      exact Nat.le_max_left _ _
    have numeric : ∀ byte ∈ modeText mode, 48 ≤ byte.toNat := by
      intro byte mem
      obtain ⟨digit, isDigit, rfl⟩ := List.mem_map.mp mem
      rw [toNat_decimalDigit ((digitsOf_lt (by decide) isDigit).trans (by decide))]
      exact Nat.le_add_right 48 digit
    unfold fromStrRadix8
    split
    next empty => rw [empty] at long; cases long
    next sign => rw [sign] at long; exact absurd long (by decide)
    next sign => rw [sign] at long; exact absurd long (by decide)
    next rest _ sign =>
      have plus := numeric 43 (by rw [sign]; exact List.mem_cons_self)
      exact absurd plus (by decide)
    · rfl
  rw [parseMode, digits, read]
  exact congrArg Except.ok UInt32.ofNat_toNat

theorem mapM_hexVal (small : ∀ digit ∈ digits, digit < 16) :
    (digits.map hexDigit).mapM hexVal = some digits := by
  have one : ∀ digit : Fin 16, hexVal (hexDigit digit) = some digit.val := by decide
  induction digits with
  | nil => rfl
  | cons digit later ih =>
    obtain ⟨first, rest⟩ := List.forall_mem_cons.mp small
    rw [List.map_cons, List.mapM_cons, one ⟨digit, first⟩, ih rest]
    rfl

theorem parseOid_oidText (oid : RawOid) : parseOid (oidText oid) = .ok oid := by
  have length : (oidText oid).length = 40 := by
    rw [oidText, List.length_map, length_digitsOf]
  have small : oid.toNat < 16 ^ 40 := oid.isLt
  have digits := mapM_hexVal (fun _ => digitsOf_lt (by decide : 0 < 16) :
    ∀ digit ∈ digitsOf 16 40 oid.toNat, digit < 16)
  rw [parseOid, if_neg (by rw [length]; simp), oidText, digits]
  dsimp only
  rw [valueOf_digitsOf_of_lt small, BitVec.ofNat_toNat, BitVec.setWidth_eq]

theorem splitOn_cons {field : Field} (plain : Plain field) (rest : List UInt8) :
    (field ++ 32 :: rest).splitOn 32 = field :: rest.splitOn 32 := by
  refine List.splitOnP_append_cons_of_forall_mem (fun byte mem => ?_) 32 rfl rest
  have bound := (plain byte mem).1
  exact beq_eq_false_iff_ne.mpr fun same => by rw [same] at bound; exact absurd bound (by decide)

theorem splitOn_plain {field : Field} (plain : Plain field) : field.splitOn 32 = [field] := by
  refine List.splitOnP_eq_singleton fun byte mem => ?_
  have bound := (plain byte mem).1
  exact beq_eq_false_iff_ne.mpr fun same => by rw [same] at bound; exact absurd bound (by decide)

theorem fieldsOf_cons {field : Field} (nonempty : field ≠ []) (quiet : 0 ∉ field)
    (rest : List UInt8) : fieldsOf (field ++ 0 :: rest) = field :: fieldsOf rest := by
  have split : (field ++ 0 :: rest).splitOn 0 = field :: rest.splitOn 0 :=
    List.splitOnP_append_cons_of_forall_mem
      (fun byte mem => beq_eq_false_iff_ne.mpr fun same : byte = 0 => quiet (same ▸ mem))
      0 rfl rest
  rw [fieldsOf, split, List.filter_cons, if_pos (by simpa using nonempty)]
  rfl

theorem fieldsOf_fields {fields : List Field} (plain : ∀ field ∈ fields, field ≠ [] ∧ 0 ∉ field)
    (rest : List UInt8) :
    fieldsOf (fields.flatMap (fun field => field ++ [0]) ++ rest) = fields ++ fieldsOf rest := by
  induction fields with
  | nil => rfl
  | cons field later ih =>
    obtain ⟨⟨nonempty, quiet⟩, others⟩ := List.forall_mem_cons.mp plain
    rw [List.flatMap_cons, List.append_assoc, List.append_assoc, List.singleton_append,
      fieldsOf_cons nonempty quiet, ih others, List.cons_append]

/-- A valid path is not empty and has no NUL. -/
theorem utf8Bytes_path (path : RepoPath) :
    utf8Bytes path.asStr ≠ [] ∧ 0 ∉ utf8Bytes path.asStr := by
  have valid := path.valid
  unfold RepoPath.invalidity at valid
  dsimp only at valid
  split_ifs at valid with empty nul
  rw [utf8Bytes_eq]
  constructor
  · intro none_
    have chars : path.asStr.toList = [] := by
      by_contra longer
      obtain ⟨char, isChar⟩ := List.exists_mem_of_ne_nil _ longer
      exact String.utf8EncodeChar_ne_nil (List.flatMap_eq_nil_iff.mp none_ char isChar)
    exact empty (by rw [chars]; rfl)
  · intro zero
    obtain ⟨char, isChar, encoded⟩ := List.mem_flatMap.mp zero
    have code := encodeChar_of_ascii (by decide) encoded
    have same : char = '\x00' := Char.ext (UInt32.toNat_inj.mp code)
    exact nul (List.contains_iff_mem.mpr (same ▸ isChar))

namespace PrintedChange

variable (change : PrintedChange)

theorem fields_plain : ∀ field ∈ change.fields, field ≠ [] ∧ 0 ∉ field := by
  refine List.forall_mem_cons.mpr ⟨⟨List.cons_ne_nil _ _, fun zero => ?_⟩, fun field mem => ?_⟩
  · have plain (part : Field) (isPlain : Plain part) : 0 ∉ part := fun mem =>
      absurd (isPlain 0 mem).1 (by decide)
    simp only [List.mem_cons, List.mem_append, head] at zero
    rcases zero with impossible | part | impossible | part | impossible | part | impossible | part |
      impossible | part
    · cases impossible
    · exact plain _ (plain_modeText _) part
    · cases impossible
    · exact plain _ (plain_modeText _) part
    · cases impossible
    · exact plain _ (plain_oidText _) part
    · cases impossible
    · exact plain _ (plain_oidText _) part
    · cases impossible
    · exact plain _ (plain_statusText _) part
  · obtain ⟨path, -, rfl⟩ := List.mem_map.mp mem
    exact utf8Bytes_path path

theorem splitHead_fields :
    splitHead (58 :: (change.head.oldMode ++ 32 :: (change.head.newMode ++ 32 :: (change.head.old ++
      32 :: (change.head.new ++ 32 :: change.head.status))))) = .ok change.head := by
  have ascii : ∀ byte ∈ 58 :: (change.head.oldMode ++ 32 :: (change.head.newMode ++
      32 :: (change.head.old ++ 32 :: (change.head.new ++ 32 :: change.head.status)))),
      byte.toNat < 0x80 := by
    intro byte mem
    simp only [List.mem_cons, List.mem_append, head] at mem
    rcases mem with rfl | part | rfl | part | rfl | part | rfl | part | rfl | part
    · decide
    · exact (plain_modeText _ byte part).2
    · decide
    · exact (plain_modeText _ byte part).2
    · decide
    · exact (plain_oidText _ byte part).2
    · decide
    · exact (plain_oidText _ byte part).2
    · decide
    · exact (plain_statusText _ byte part).2
  rw [splitHead, if_pos (ByteArray.validateUTF8_eq_true_iff.mpr (isValidUTF8_of_ascii ascii))]
  simp only [head, splitOn_cons (plain_modeText _), splitOn_cons (plain_oidText _),
    splitOn_plain (plain_statusText _)]

theorem nextPath_fields (path : RepoPath) (rest : List Field) :
    nextPath (utf8Bytes path.asStr :: rest) = .ok path := by
  rw [nextPath, fromUtf8Lossy_utf8Bytes, RepoPath.new]
  split
  next why invalid => rw [path.valid] at invalid; cases invalid
  · rfl

theorem readStatus_fields (rest : List Field) :
    readStatus ((change.paths.map fun path => utf8Bytes path.asStr) ++ rest) change.head.status =
      .ok (change.status.raw, change.path, change.paths.length) := by
  obtain ⟨oldMode, newMode, old, new, status, path⟩ := change
  cases status with
  | renamed score «from» | copied score «from» =>
    simp only [head, ChangeStatus.text, readStatus, paths, ChangeStatus.from, Option.toList_some,
      List.map_cons, List.map_nil, List.cons_append, List.nil_append, nextPath_fields,
      List.tail_cons]
    rfl
  | _ =>
    simp only [head, ChangeStatus.text, readStatus, paths, ChangeStatus.from, Option.toList_none,
      List.map_cons, List.map_nil, List.cons_append, List.nil_append, nextPath_fields]
    rfl

/-- A printed record is parsed as its change, and only its own paths are taken. -/
theorem parseRecord_fields (rest : List Field) : ∃ meta_ paths, change.fields = meta_ :: paths ∧
      parseRecord meta_ (paths ++ rest) = .ok (change.raw, paths.length) := by
  refine ⟨_, _, rfl, ?_⟩
  have status := change.readStatus_fields rest
  rw [parseRecord, splitHead_fields]
  simp only [bind, Except.bind, status]
  simp only [head, parseMode_modeText, parseOid_oidText, List.length_map]
  rfl

end PrintedChange

theorem parseFields_printed (changes : List PrintedChange) :
    parseFields (changes.flatMap PrintedChange.fields) = .ok (changes.map PrintedChange.raw) := by
  induction changes with
  | nil => rw [List.flatMap_nil, parseFields]; rfl
  | cons change later ih =>
    obtain ⟨meta_, paths, fields, record⟩ :=
      change.parseRecord_fields (later.flatMap PrintedChange.fields)
    rw [List.flatMap_cons, fields, List.cons_append, parseFields, record]
    dsimp only
    rw [List.drop_left, ih]
    rfl

/-- What git prints of a list of changes is parsed as that list. -/
theorem parseRawDiff_printed (changes : List PrintedChange) :
    parseRawDiff (changes.flatMap PrintedChange.text) = .ok (changes.map PrintedChange.raw) := by
  have fields : fieldsOf (changes.flatMap PrintedChange.text) =
      changes.flatMap PrintedChange.fields := by
    induction changes with
    | nil => rfl
    | cons change later ih =>
      rw [List.flatMap_cons, List.flatMap_cons, PrintedChange.text,
        fieldsOf_fields change.fields_plain, ih]
  rw [parseRawDiff, fields, parseFields_printed]

/-- Parsing is total but for a head without a status, and exact on what git prints. -/
theorem rawDiff_exact (out : List UInt8) (changes : List PrintedChange) :
    ((∃ result, parseRawDiff out = .ok result) ∨
        (∃ error, parseRawDiff out = .error (.parse error)) ↔ ¬ StatusMissing out) ∧
      parseRawDiff (changes.flatMap PrintedChange.text) =
        .ok (changes.map PrintedChange.raw) := by
  refine ⟨?_, parseRawDiff_printed changes⟩
  rw [← parseRawDiff_panicked]
  cases parsed : parseRawDiff out with
  | ok result => simp
  | error failure => cases failure <;> simp

/-- A head that ends after the space before its status. -/
def statuslessDiff : List UInt8 := [58, 49, 32, 50, 32, 51, 32, 52, 32, 0]

/-- An entry without a status. -/
theorem statuslessDiff_panics : parseRawDiff statuslessDiff = .error .panicked := by
  have head : splitHead [58, 49, 32, 50, 32, 51, 32, 52, 32] = .ok ⟨[49], [50], [51], [52], []⟩ := by
    rw [splitHead, if_pos (ByteArray.validateUTF8_eq_true_iff.mpr (isValidUTF8_of_ascii (by simp)))]
    rfl
  have fields : fieldsOf statuslessDiff = [[58, 49, 32, 50, 32, 51, 32, 52, 32]] := rfl
  refine (parseRawDiff_panicked statuslessDiff).mpr ⟨_, [], ?_, _, head, rfl⟩
  rw [fields]
  exact .here

end Nits.ReviewCore
