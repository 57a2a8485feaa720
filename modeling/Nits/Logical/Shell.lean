import Mathlib.Data.List.Forall2
import Mathlib.Data.List.TakeWhile

/-!
# Simple commands of the POSIX shell

A line is read character by character into words. A word keeps of each character whether it
was quoted: a quoted character stands for itself, and only what is not quoted is reserved or
assigns. A line with an operator, an expansion or a pattern is more than a simple command.
-/

namespace Nits.Logical.Shell

/-- A character of a word, and whether it was quoted. -/
structure Mark where
  char : Char
  quoted : Bool
  deriving DecidableEq

abbrev Word := List Mark

/-- What a word says once its quotes are gone. -/
def text (word : Word) : String := String.ofList (word.map Mark.char)

/-- Where in a line a character is read. -/
inductive Place
  | between | plain | single | double | escaped | escapedInDouble | comment

/-- The words that were read, and the one that is being read. -/
structure Reading where
  place : Place
  words : List Word
  word : Word

def isBlank (char : Char) : Bool := char ∈ [' ', '\t']

/-- Outside of quotes these end a command, redirect, expand or match names. -/
def isActive (char : Char) : Bool :=
  char ∈ ['|', '&', ';', '<', '>', '(', ')', '\n', '$', '\x60', '*', '?', '[']

def Reading.push (reading : Reading) (char : Char) (quoted : Bool) : Reading :=
  { reading with word := reading.word ++ [⟨char, quoted⟩] }

/-- A character outside of quotes, in a word. -/
def Reading.bare (reading : Reading) (char : Char) : Option Reading :=
  if char = '\'' then some { reading with place := .single }
  else if char = '"' then some { reading with place := .double }
  else if char = '\\' then some { reading with place := .escaped }
  else if isActive char ∨ (char = '~' ∧ reading.word = []) then none
  else some (reading.push char false)

def Reading.read (reading : Reading) (char : Char) : Option Reading :=
  match reading.place with
  | .between =>
    if isBlank char then some reading
    else if char = '#' then some { reading with place := .comment }
    else Reading.bare { reading with place := .plain } char
  | .plain =>
    if isBlank char then some ⟨.between, reading.words ++ [reading.word], []⟩
    else reading.bare char
  | .single =>
    if char = '\'' then some { reading with place := .plain } else some (reading.push char true)
  | .double =>
    if char = '"' then some { reading with place := .plain }
    else if char = '$' ∨ char = '\x60' then none
    else if char = '\\' then some { reading with place := .escapedInDouble }
    else some (reading.push char true)
  | .escaped =>
    -- An escaped newline joins two lines.
    if char = '\n' then some { reading with place := .plain }
    else some ({ reading with place := .plain }.push char true)
  | .escapedInDouble =>
    let reading := { reading with place := .double }
    if char = '\n' then some reading
    else if char ∈ ['$', '\x60', '"', '\\'] then some (reading.push char true)
    else some ((reading.push '\\' true).push char true)
  | .comment => if char = '\n' then none else some reading

/-- The words at the end of a line. -/
def Reading.finish (reading : Reading) : Option (List Word) :=
  match reading.place with
  | .between | .comment => some reading.words
  | .plain => some (reading.words ++ [reading.word])
  | .single | .double | .escaped | .escapedInDouble => none

def tokens (line : List Char) : Option (List Word) :=
  (line.foldlM Reading.read ⟨.between, [], []⟩).bind Reading.finish

/-- Reserved where a command starts, the last six by some shells only. -/
def RESERVED : List String :=
  ["!", "\x7b", "\x7d", "case", "do", "done", "elif", "else", "esac", "fi", "for", "if", "in",
    "then", "until", "while", "[[", "]]", "function", "namespace", "select", "time"]

/-- The word as it is without quotes. -/
def unquoted (text : String) : Word := text.toList.map fun char => ⟨char, false⟩

def isNameStart (char : Char) : Bool := char.isAlpha ∨ char = '_'

def isName : Word → Bool
  | [] => false
  | first :: later => isNameStart first.char ∧ (first :: later).all fun mark =>
      ¬ mark.quoted ∧ (isNameStart mark.char ∨ mark.char.isDigit)

/-- A name with a colon behind it; what a shell makes of one is not specified. -/
def isLabel (word : Word) : Bool := word.getLast? = some ⟨':', false⟩ ∧ isName word.dropLast

def isReserved (word : Word) : Bool :=
  (RESERVED.any fun text => word = unquoted text) ∨ isLabel word

/-- A name stands before the first bare equals sign. -/
def isAssignment (word : Word) : Bool :=
  ⟨'=', false⟩ ∈ word ∧ isName (word.takeWhile fun mark => mark ≠ ⟨'=', false⟩)

/-- A simple command: what it assigns, and its program with the arguments. -/
structure Command where
  assignments : List String
  words : List String
  deriving DecidableEq

/-- The simple command that a line is, if it is one and nothing more. -/
def parse (line : List Char) : Option Command :=
  match tokens line with
  | none | some [] => none
  | some (first :: later) =>
    if isReserved first then none
    else some ⟨((first :: later).takeWhile isAssignment).map text,
      ((first :: later).dropWhile isAssignment).map text⟩

/-! ## Reading words -/

/-- A text is read as one word wherever a word may start. -/
def Reads (chars : List Char) (word : Word) : Prop :=
  ∀ words, chars.foldlM Reading.read ⟨.between, words, []⟩ = some ⟨.plain, words, word⟩

/-- A character that stands for itself in every place outside of quotes. -/
def isPlain (char : Char) : Bool :=
  ¬ isBlank char ∧ ¬ isActive char ∧ char ∉ ['\'', '"', '\\', '#', '~']

end Nits.Logical.Shell
