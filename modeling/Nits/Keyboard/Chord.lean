import Nits.Logical.Program
import Nits.Protocol.Invariants

/-!
# Chords and sequences

A key with its modifiers, sequences of such chords, and their texts in a keys
configuration. A chord reads back as itself, up to the two spellings of a space, and a
sequence does exactly when none of its characters is whitespace.
-/

namespace Nits.Keyboard

open Logical Protocol

/-! ## Chords -/

/-- A named key that is not a character. -/
inductive NamedKey
  | enter | esc | tab | backspace | space | up | down | left | right | pageUp | pageDown
  | home | end_
  deriving DecidableEq

def NamedKey.text : NamedKey → List Char
  | .enter => ['e', 'n', 't', 'e', 'r']
  | .esc => ['e', 's', 'c']
  | .tab => ['t', 'a', 'b']
  | .backspace => ['b', 'a', 'c', 'k', 's', 'p', 'a', 'c', 'e']
  | .space => ['s', 'p', 'a', 'c', 'e']
  | .up => ['u', 'p']
  | .down => ['d', 'o', 'w', 'n']
  | .left => ['l', 'e', 'f', 't']
  | .right => ['r', 'i', 'g', 'h', 't']
  | .pageUp => ['p', 'a', 'g', 'e', 'u', 'p']
  | .pageDown => ['p', 'a', 'g', 'e', 'd', 'o', 'w', 'n']
  | .home => ['h', 'o', 'm', 'e']
  | .end_ => ['e', 'n', 'd']

def NamedKey.fromStr (text : List Char) : Option NamedKey :=
  [NamedKey.enter, .esc, .tab, .backspace, .space, .up, .down, .left, .right, .pageUp,
    .pageDown, .home, .end_].find? fun key => key.text = text

inductive KeyCode
  | char (c : Char)
  | named (key : NamedKey)
  deriving DecidableEq

/-- Modifier keys held with a key. -/
structure Modifiers where
  ctrl : Bool := false
  alt : Bool := false
  shift : Bool := false
  super : Bool := false
  deriving DecidableEq

/-- One key press with its modifiers. -/
structure KeyChord where
  key : KeyCode
  mods : Modifiers := {}
  deriving DecidableEq

/-- Why a chord or sequence text could not be parsed. -/
inductive KeyParseError
  | empty
  | unknownModifier (text : List Char)
  | unknownKey (text : List Char)
  deriving DecidableEq

def KeyCode.text : KeyCode → List Char
  | .char c => if c = ' ' then NamedKey.space.text else [c]
  | .named key => key.text

/-- The names of the modifiers that are held, in the order in which they are written. -/
def Modifiers.names (mods : Modifiers) : List (List Char) :=
  (if mods.ctrl then [['c', 't', 'r', 'l']] else []) ++
    (if mods.alt then [['a', 'l', 't']] else []) ++
    (if mods.shift then [['s', 'h', 'i', 'f', 't']] else []) ++
    if mods.super then [['m', 'e', 't', 'a']] else []

def KeyChord.text (chord : KeyChord) : List Char :=
  chord.mods.names.flatMap (fun name => name ++ ['+']) ++ chord.key.text

/-- Hold the modifier of this name as well. -/
def Modifiers.press (mods : Modifiers) (name : List Char) : Except KeyParseError Modifiers :=
  let name := name.map Char.toLower
  if name ∈ [['c', 't', 'r', 'l'], ['c', 'o', 'n', 't', 'r', 'o', 'l'], ['c']] then
    .ok { mods with ctrl := true }
  else if name ∈ [['a', 'l', 't'], ['o', 'p', 't', 'i', 'o', 'n'], ['a']] then
    .ok { mods with alt := true }
  else if name ∈ [['s', 'h', 'i', 'f', 't'], ['s']] then .ok { mods with shift := true }
  else if name ∈ [['m', 'e', 't', 'a'], ['c', 'm', 'd'], ['s', 'u', 'p', 'e', 'r'],
      ['w', 'i', 'n'], ['m']] then .ok { mods with super := true }
  else .error (.unknownModifier name)

/-- The key after the last modifier. A single character is taken as it is. -/
def KeyCode.fromStr : List Char → Except KeyParseError KeyCode
  | [] => .error .empty
  | [c] => .ok (.char c)
  | text =>
    match NamedKey.fromStr (text.map Char.toLower) with
    | some key => .ok (.named key)
    | none => .error (.unknownKey text)

/-- The parts before the key, and the key. A text that ends in a plus sign ends in two
empty parts, which are the key. -/
def chordParts (text : List Char) : List (List Char) × List Char :=
  let parts := text.splitOn '+'
  if 2 ≤ parts.length ∧ parts.getLast? = some [] then (parts.dropLast.dropLast, ['+'])
  else (parts.dropLast, parts.getLastD [])

def KeyChord.fromStr (text : List Char) : Except KeyParseError KeyChord :=
  if text = [] then .error .empty
  else do
    let mods ← (chordParts text).1.foldlM Modifiers.press {}
    let key ← KeyCode.fromStr (chordParts text).2
    pure { key, mods }

/-- A space character is written and read as the named key. -/
def KeyChord.normal (chord : KeyChord) : KeyChord :=
  if chord.key = .char ' ' then { chord with key := .named .space } else chord

section Chords

variable {mods : Modifiers} {code : KeyCode} {chord : KeyChord} {text : List Char}

theorem not_mem_name {name : List Char} (held : name ∈ mods.names) : '+' ∉ name := by
  rcases mods with ⟨_ | _, _ | _, _ | _, _ | _⟩ <;>
    simp only [Modifiers.names, Bool.false_eq_true, if_true, if_false,
      List.nil_append, List.cons_append, List.mem_cons, List.not_mem_nil, or_false] at held <;>
    rcases held with rfl | rfl | rfl | rfl <;> decide

theorem splitOn_names {names : List (List Char)} (plain : ∀ name ∈ names, '+' ∉ name) :
    (names.flatMap (fun name => name ++ ['+']) ++ text).splitOn '+' = names ++ text.splitOn '+' := by
  induction names with
  | nil => rfl
  | cons name names ih =>
    have rest := ih fun other mem => plain other (List.mem_cons_of_mem _ mem)
    rw [List.flatMap_cons, List.append_assoc, List.append_assoc, List.singleton_append,
      List.splitOn_append_cons_self, List.splitOn_eq_singleton (plain name List.mem_cons_self),
      rest]
    rfl

theorem press_names : mods.names.foldlM Modifiers.press {} = .ok mods := by
  rcases mods with ⟨_ | _, _ | _, _ | _, _ | _⟩ <;> decide

/-- A key's text is not empty, and is only a plus sign or has none. -/
theorem text_cases : code.text = ['+'] ∨ code.text ≠ [] ∧ '+' ∉ code.text := by
  rcases code with c | key
  · by_cases blank : c = ' '
    · rw [KeyCode.text, if_pos blank]
      decide
    · rw [KeyCode.text, if_neg blank]
      by_cases plus : c = '+'
      · exact .inl (by rw [plus])
      · exact .inr ⟨by simp, by simpa using Ne.symm plus⟩
  · cases key <;> decide

theorem chordParts_text : chordParts chord.text = (chord.mods.names, chord.key.text) := by
  have split : chord.text.splitOn '+' = chord.mods.names ++ chord.key.text.splitOn '+' :=
    splitOn_names fun _ held => not_mem_name held
  unfold chordParts
  rw [split]
  rcases @text_cases chord.key with plus | ⟨some, plain⟩
  · have two : (['+'] : List Char).splitOn '+' = [[], []] := by decide
    rw [plus, two, if_pos ⟨by simp, by simp⟩]
    simp
  · rw [List.splitOn_eq_singleton plain, if_neg (by simpa using fun _ => some)]
    simp

theorem fromStr_key : KeyCode.fromStr code.text =
    .ok (if code = .char ' ' then .named .space else code) := by
  rcases code with c | key
  · by_cases blank : c = ' '
    · subst blank
      decide
    · rw [KeyCode.text, if_neg blank, KeyCode.fromStr, if_neg (by simpa using blank)]
  · cases key <;> decide

theorem text_ne_nil : chord.text ≠ [] := by
  rcases @text_cases chord.key with plus | ⟨some, -⟩
  · simp [KeyChord.text, plus]
  · simp [KeyChord.text, some]

/-- A chord reads back as it was written. -/
theorem fromStr_text : KeyChord.fromStr chord.text = .ok chord.normal := by
  rw [KeyChord.fromStr, if_neg text_ne_nil, chordParts_text, press_names, fromStr_key]
  unfold KeyChord.normal
  split <;> rfl

/-- What stands between separators is of the text, and no separator. -/
theorem mem_splitOnP {separates : Char → Bool} {part : List Char} {c : Char}
    (mem : part ∈ text.splitOnP separates) (inside : c ∈ part) :
    c ∈ text ∧ separates c = false := by
  induction text generalizing part with
  | nil =>
    rw [List.splitOnP_nil, List.mem_singleton] at mem
    subst mem
    cases inside
  | cons first rest ih =>
    rw [List.splitOnP_cons_eq_if_modifyHead] at mem
    split at mem
    · rcases List.mem_cons.mp mem with rfl | later
      · cases inside
      · exact ⟨List.mem_cons_of_mem _ (ih later inside).1, (ih later inside).2⟩
    · next plain =>
      cases split : rest.splitOnP separates with
      | nil => exact absurd split (List.splitOnP_ne_nil _ _)
      | cons head tail =>
        rw [split, List.modifyHead_cons] at mem
        rcases List.mem_cons.mp mem with rfl | later
        · rcases List.mem_cons.mp inside with rfl | inside
          · exact ⟨List.mem_cons_self, Bool.not_eq_true _ ▸ plain⟩
          · have found := ih (split ▸ List.mem_cons_self) inside
            exact ⟨List.mem_cons_of_mem _ found.1, found.2⟩
        · have found := ih (split ▸ List.mem_cons_of_mem _ later) inside
          exact ⟨List.mem_cons_of_mem _ found.1, found.2⟩

/-- The character that a text without whitespace names is none. -/
theorem plain_of_fromStr {c : Char} (plain : ∀ c ∈ text, isWhitespace c = false)
    (read : KeyChord.fromStr text = .ok chord) (key : chord.key = .char c) :
    isWhitespace c = false := by
  unfold KeyChord.fromStr at read
  split at read
  · cases read
  obtain ⟨mods, -, read⟩ := bind_eq_ok.mp read
  obtain ⟨code, named, read⟩ := bind_eq_ok.mp read
  cases read
  subst key
  have last : (chordParts text).2 = [c] := by
    generalize (chordParts text).2 = last at named
    unfold KeyCode.fromStr at named
    split at named
    · cases named
    · cases named
      rfl
    · split at named <;> cases named
  unfold chordParts at last
  dsimp only at last
  split at last
  · cases last
    decide
  · rw [List.getLastD_eq_getLast?, List.getLast?_eq_some_getLast (List.splitOn_ne_nil _ _)] at last
    have mem := List.getLast_mem (List.splitOn_ne_nil '+' text)
    rw [Option.getD_some] at last
    have inside : c ∈ (text.splitOn '+').getLast (List.splitOn_ne_nil _ _) := by
      rw [show (text.splitOn '+').getLast _ = [c] from last]
      exact List.mem_singleton_self c
    exact plain c (mem_splitOnP mem inside).1

end Chords

/-! ## Sequences -/

/-- One or more chords pressed in order. -/
structure KeySeq where
  chords : List KeyChord
  nonempty : chords ≠ []
  deriving DecidableEq

def KeySeq.new (chords : List KeyChord) : Except KeyParseError KeySeq :=
  if nonempty : chords = [] then .error .empty else .ok ⟨chords, nonempty⟩

def KeySeq.text (keys : KeySeq) : List Char := [' '].intercalate (keys.chords.map KeyChord.text)

/-- The words of a text, apart by whitespace. -/
def splitWhitespace (text : List Char) : List (List Char) :=
  (text.splitOnP isWhitespace).filter fun word => word ≠ []

def KeySeq.fromStr (text : List Char) : Except KeyParseError KeySeq := do
  KeySeq.new (← (splitWhitespace text).mapM KeyChord.fromStr)

/-- The chord's character is no whitespace. -/
def KeyChord.Plain (chord : KeyChord) : Prop :=
  ∀ c, chord.key = .char c → isWhitespace c = false

section Sequences

variable {chord : KeyChord} {keys : KeySeq} {words : List (List Char)}

theorem KeyChord.Plain.normal_eq (plain : chord.Plain) : chord.normal = chord :=
  if_neg fun space => absurd (plain ' ' space) (by decide)

/-- A plain chord's text has no whitespace. -/
theorem KeyChord.Plain.text (plain : chord.Plain) : ∀ c ∈ chord.text, isWhitespace c = false := by
  obtain ⟨code, mods⟩ := chord
  have names : (mods.names.flatMap fun name => name ++ ['+']).all
      (fun c => !isWhitespace c) = true := by
    rcases mods with ⟨_ | _, _ | _, _ | _, _ | _⟩ <;> decide
  have key : code.text.all (fun c => !isWhitespace c) = true := by
    rcases code with letter | key
    · have blank : letter ≠ ' ' := fun blank => absurd (plain letter rfl) (by rw [blank]; decide)
      rw [KeyCode.text, if_neg blank]
      simpa using plain letter rfl
    · cases key <;> decide
  intro c inside
  rcases List.mem_append.mp inside with held | inside
  · simpa using List.all_eq_true.mp names c held
  · simpa using List.all_eq_true.mp key c inside

theorem splitWhitespace_intercalate
    (plain : ∀ word ∈ words, word ≠ [] ∧ ∀ c ∈ word, isWhitespace c = false) :
    splitWhitespace ([' '].intercalate words) = words := by
  unfold splitWhitespace
  induction words with
  | nil => rfl
  | cons word words ih =>
    obtain ⟨some, apart⟩ := plain word List.mem_cons_self
    have kept : [word].filter (fun word => word ≠ []) = [word] := by simpa using some
    cases words with
    | nil => rw [List.intercalate_singleton, List.splitOnP_eq_singleton apart, kept]
    | cons next words =>
      rw [List.intercalate_cons_cons, List.append_assoc, List.singleton_append,
        List.splitOnP_append_cons _ _ (by decide), List.splitOnP_eq_singleton apart,
        List.filter_append, kept, ih fun other mem => plain other (List.mem_cons_of_mem _ mem)]
      rfl

/-- A sequence that was read has no whitespace among its characters. -/
theorem KeySeq.plain {text : List Char} (read : KeySeq.fromStr text = .ok keys) :
    ∀ chord ∈ keys.chords, chord.Plain := by
  intro chord mem
  obtain ⟨chords, parsed, made⟩ := bind_eq_ok.mp read
  unfold KeySeq.new at made
  split at made
  · cases made
  cases made
  obtain ⟨word, inside, made⟩ := mem_of_mapM parsed mem
  have part := (List.mem_filter.mp inside).1
  exact fun c key => plain_of_fromStr (fun c inside => (mem_splitOnP part inside).2) made key

/-- A sequence reads back as it was written exactly if its characters are no whitespace. -/
theorem keySeq_fromStr_text :
    KeySeq.fromStr keys.text = .ok keys ↔ ∀ chord ∈ keys.chords, chord.Plain := by
  refine ⟨KeySeq.plain, fun plain => ?_⟩
  have words : splitWhitespace keys.text = keys.chords.map KeyChord.text := by
    refine splitWhitespace_intercalate fun word mem => ?_
    obtain ⟨chord, inside, rfl⟩ := List.mem_map.mp mem
    exact ⟨text_ne_nil, (plain chord inside).text⟩
  have read : (keys.chords.map KeyChord.text).mapM KeyChord.fromStr = .ok keys.chords := by
    rw [List.mapM_map, @mapM_eq_ok _ _ _ _ id _ fun chord mem => ?_, List.map_id]
    exact fromStr_text.trans (congrArg Except.ok (plain chord mem).normal_eq)
  rw [KeySeq.fromStr, words, read, ok_bind, KeySeq.new, dif_neg keys.nonempty]

end Sequences

end Nits.Keyboard
