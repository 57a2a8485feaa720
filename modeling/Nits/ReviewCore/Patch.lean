import Nits.ReviewCore.Anchor

/-!
# Suggestion patches

Strict, byte-preserving unified-diff application. Both ranges and body counts of
every hunk must agree; context and removed lines match exactly. Body lines end in
a newline; a no-newline marker removes it from the preceding source line.
-/

namespace Nits.ReviewCore.Patch

open ReviewCore

/-- Why a patch does not apply. -/
inductive PatchError
  | header (text : String)
  | line (text : String)
  | empty
  | count (header : String)
  | unterminatedPatchLine
  | misplacedEndOfFile
  | mismatch (line : Nat) (expected : String) (found : Option String)
  deriving DecidableEq

/-- A validated range as a zero-based line offset. Zero-count ranges point after
the stated line; nonempty ranges point at the stated one-based line. -/
structure HunkRange where
  offset : Nat
  count : Nat
  deriving DecidableEq

/-- Platform words are 64 bits wide. -/
def WORD : Nat := 2 ^ 64

/-- A decimal number that fits a word. -/
def number (value : List Char) : Option Nat :=
  if value.isEmpty || value.any (fun c => ¬ c.isDigit) then none
  else
    let parsed := value.foldl (fun total c => total * 10 + (c.toNat - '0'.toNat)) 0
    if parsed < WORD then some parsed else none

/-- The text before and after the first occurrence of a separator. -/
def splitOnce (separator : List Char) : List Char → Option (List Char × List Char)
  | [] => if separator.isEmpty then some ([], []) else none
  | c :: rest =>
    if separator.isPrefixOf (c :: rest) then some ([], (c :: rest).drop separator.length)
    else (splitOnce separator rest).map fun halves => (c :: halves.1, halves.2)

def stripPrefix (start text : List Char) : Option (List Char) :=
  if start.isPrefixOf text then some (text.drop start.length) else none

def HunkRange.parse (value : List Char) : Option HunkRange := do
  let (start, count) ← match splitOnce [','] value with
    | some (start, count) => do pure (← number start, ← number count)
    | none => do pure (← number value, 1)
  let offset ← if count = 0 then some start else if start = 0 then none else some (start - 1)
  if offset + count < WORD then some ⟨offset, count⟩ else none

inductive LineKind
  | context
  | remove
  | add
  deriving DecidableEq

/-- A body line with its exact source bytes. -/
structure BodyLine where
  kind : LineKind
  bytes : List UInt8
  deriving DecidableEq

/-- A hunk: its ranges and its lines. -/
structure Hunk where
  header : String
  old : HunkRange
  new : HunkRange
  lines : List BodyLine
  deriving DecidableEq

/-- Parse a hunk header; the body is still empty. -/
def parseHeader (header : List Char) : Except PatchError Hunk :=
  let parsed := do
    let (old, rest) ← splitOnce " +".toList (← stripPrefix "@@ -".toList header)
    let (new, suffix) ← splitOnce " @@".toList rest
    if suffix ≠ [] ∧ suffix.head? ≠ some ' ' then none
    let old ← HunkRange.parse old
    let new ← HunkRange.parse new
    if old.count = 0 ∧ new.count = 0 then none
    pure { header := String.ofList header, old, new, lines := [] }
  match parsed with
  | some hunk => .ok hunk
  | none => .error (.header (String.ofList header))

def countsOld (line : BodyLine) : Bool := line.kind = .context || line.kind = .remove

def countsNew (line : BodyLine) : Bool := line.kind = .context || line.kind = .add

def validateCounts (hunk : Hunk) : Except PatchError Unit :=
  if hunk.lines.countP countsOld ≠ hunk.old.count ∨ hunk.lines.countP countsNew ≠ hunk.new.count
  then .error (.count hunk.header)
  else .ok ()

/-- Lines of a text, each keeping its newline. -/
def splitLines : List Char → List (List Char)
  | [] => []
  | c :: rest =>
    if c = '\n' then [c] :: splitLines rest
    else
      match splitLines rest with
      | [] => [[c]]
      | line :: lines => (c :: line) :: lines

def trimNewlines (line : List Char) : List Char :=
  (line.reverse.dropWhile fun c => c = '\n').reverse

def isNoNewlineMarker (line : List Char) : Bool :=
  trimNewlines line = "\\ No newline at end of file".toList

def lineKind (body : List Char) : Except PatchError LineKind :=
  match body.head? with
  | some ' ' => .ok .context
  | some '-' => .ok .remove
  | some '+' => .ok .add
  | _ => .error (.line (String.ofList (trimNewlines body)))

/-- The source line a body line stands for, without its newline if a marker
follows. -/
def bodyLine (kind : LineKind) (content : List Char) (marked : Bool) :
    Except PatchError BodyLine :=
  if content.getLast? ≠ some '\n' then .error .unterminatedPatchLine
  else
    let source := if marked then content.dropLast else content
    if source = [] then .error .misplacedEndOfFile
    else .ok ⟨kind, utf8Bytes (String.ofList source)⟩

/-- The body lines up to the next hunk header, and the lines from there on. -/
def parseBody : List (List Char) → Except PatchError (List BodyLine × List (List Char))
  | [] => .ok ([], [])
  | body :: rest => do
    if "@@ ".toList.isPrefixOf body then pure ([], body :: rest)
    else
      let kind ← lineKind body
      match rest with
      | marker :: after =>
        if isNoNewlineMarker marker then
          let line ← bodyLine kind body.tail true
          let (lines, remaining) ← parseBody after
          pure (line :: lines, remaining)
        else
          let line ← bodyLine kind body.tail false
          let (lines, remaining) ← parseBody (marker :: after)
          pure (line :: lines, remaining)
      | [] =>
        let line ← bodyLine kind body.tail false
        pure ([line], [])

/-- Parse at most `fuel` hunks. -/
def parseHunks : Nat → List (List Char) → Except PatchError (List Hunk)
  | 0, _ | _, [] => .ok []
  | fuel + 1, header :: rest => do
    let opened ← parseHeader (if header.getLast? = some '\n' then header.dropLast else header)
    let (lines, remaining) ← parseBody rest
    let hunk := { opened with lines }
    validateCounts hunk
    let hunks ← parseHunks fuel remaining
    pure (hunk :: hunks)

/-- Parse a patch, optionally preceded by a file-header pair. Every hunk takes at
least one line, so the number of lines is enough fuel. -/
def parse (patch : String) : Except PatchError (List Hunk) := do
  let lines := splitLines patch.toList
  let body ←
    if lines.head?.any fun line => "--- ".toList.isPrefixOf line then
      if lines.tail.head?.any fun line => "+++ ".toList.isPrefixOf line then pure lines.tail.tail
      else throw (.header "expected +++ file header")
    else pure lines
  let hunks ← parseHunks body.length body
  if hunks = [] then throw .empty
  pure hunks

/-- What has been written so far, and the old line reached. -/
structure Progress where
  out : List (List UInt8)
  cursor : Nat
  deriving DecidableEq

def applyLine (old : List (List UInt8)) (progress : Progress) (line : BodyLine) :
    Except PatchError Progress :=
  match line.kind with
  | .add => .ok { progress with out := progress.out ++ [line.bytes] }
  | .context | .remove =>
    let found := old[progress.cursor]?
    if found ≠ some line.bytes then
      .error (.mismatch (progress.cursor + 1) (fromUtf8Lossy line.bytes) (found.map fromUtf8Lossy))
    else
      .ok {
        out := if line.kind = .context then progress.out ++ [line.bytes] else progress.out
        cursor := progress.cursor + 1 }

def applyHunk (old : List (List UInt8)) (progress : Progress) (hunk : Hunk) :
    Except PatchError Progress :=
  if hunk.old.offset < progress.cursor ∨ old.length < hunk.old.offset then
    .error (.header hunk.header)
  else
    let untouched := (old.take hunk.old.offset).drop progress.cursor
    let out := progress.out ++ untouched
    -- The new range includes the cumulative line delta of earlier hunks.
    if out.length ≠ hunk.new.offset then .error (.header hunk.header)
    else hunk.lines.foldlM (applyLine old) ⟨out, hunk.old.offset⟩

def applyParsed (original : List UInt8) (hunks : List Hunk) : Except PatchError (List UInt8) := do
  let old := splitInclusive original
  let progress ← hunks.foldlM (applyHunk old) ⟨[], 0⟩
  if old.length < progress.cursor then throw .misplacedEndOfFile
  let out := progress.out ++ old.drop progress.cursor
  -- An insertion cannot silently join with an unterminated preceding line.
  if out.dropLast.any fun line => line.getLast? ≠ some 10 then throw .misplacedEndOfFile
  pure out.flatten

/-- Apply a patch to a text. -/
def apply (original : List UInt8) (patch : String) : Except PatchError (List UInt8) := do
  applyParsed original (← parse patch)

example : apply (utf8Bytes "a\nb\nc\n") "@@ -2,1 +2,1 @@\n-b\n+B\n" =
    .ok (utf8Bytes "a\nB\nc\n") := by
  decide +kernel

/-- The text of an error. -/
def PatchError.toString [Platform] : PatchError → String
  | .header text => s!"malformed hunk header or range: {Platform.debugStr text}"
  | .line text => s!"unexpected line in hunk: {Platform.debugStr text}"
  | .empty => "patch must contain at least one hunk"
  | .count shown => s!"hunk body does not match the counts in {Platform.debugStr shown}"
  | .unterminatedPatchLine =>
    "patch body line must end in LF; use a no-newline marker for an unterminated source line"
  | .misplacedEndOfFile =>
    "a line without a final newline must be nonempty and only appear at the end of the " ++
      "resulting file"
  | .mismatch position expected found =>
    let shown := match found with
      | some text => s!"Some({Platform.debugStr text})"
      | none => "None"
    s!"hunk at old line {position} does not match: expected {Platform.debugStr expected}, " ++
      s!"found {shown}"

end Nits.ReviewCore.Patch
