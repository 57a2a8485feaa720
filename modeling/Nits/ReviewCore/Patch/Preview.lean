import Nits.Logical.Spared
import Nits.ReviewCore.Patch.Exact
import Nits.ReviewCore.Render.Decoding

/-!
# Previews of a patch

A preview shows the body of every hunk with the lines it stands for: a counter on each
side starts where the hunk's range does. Applying the patch moves two cursors of its own,
and a line is numbered as the cursor that read, or wrote, it.
-/

namespace Nits.Protocol

inductive SuggestionLineKind
  | context (old new : LineNo)
  | remove (old : LineNo)
  | add (new : LineNo)

structure SuggestionLine where
  kind : SuggestionLineKind
  text : String
  ending : LineEnding

structure SuggestionHunk where
  header : String
  lines : List SuggestionLine

/-- The line of the original that is shown. -/
def SuggestionLineKind.old : SuggestionLineKind → Option LineNo
  | .context old _ | .remove old => some old
  | .add _ => none

/-- The line of the result that is shown. -/
def SuggestionLineKind.new : SuggestionLineKind → Option LineNo
  | .context _ new | .add new => some new
  | .remove _ => none

end Nits.Protocol

namespace Nits.ReviewCore.Patch

open Logical Protocol ReviewCore

/-- The proposed bytes and their presentation as source lines. -/
structure PatchPreview where
  hunks : List SuggestionHunk
  result : List UInt8

/-- `slice::strip_suffix`. -/
def stripSuffix (suffix bytes : List UInt8) : Option (List UInt8) :=
  if suffix.isSuffixOf bytes then some (bytes.take (bytes.length - suffix.length)) else none

/-- The text of a body line, and its ending. -/
def lineParts (bytes : List UInt8) : List UInt8 × LineEnding :=
  match stripSuffix [13, 10] bytes with
  | some text => (text, .crLf)
  | none =>
    match stripSuffix [10] bytes with
    | some text => (text, .lf)
    | none => (bytes, .missing)

/-- The number of the line at an offset, in a hunk with the header. -/
def lineNo (header : String) (offset : Nat) : Except PatchError LineNo :=
  if offset + 1 < WORD ∧ offset + 1 < 2 ^ 32 then
    match LineNo.new (UInt32.ofNat (offset + 1)) with
    | some line => .ok line
    | none => .error (.header header)
  else .error (.header header)

def lineNumbers (header : String) (old new : Nat) : LineKind → Except PatchError SuggestionLineKind
  | .context => do
    let old ← lineNo header old
    let new ← lineNo header new
    .ok (.context old new)
  | .remove => do
    let old ← lineNo header old
    .ok (.remove old)
  | .add => do
    let new ← lineNo header new
    .ok (.add new)

section Preview

-- The text of the error of `str::from_utf8`.
variable (utf8Error : List UInt8 → String)

def previewLines (header : String) : Nat → Nat → List BodyLine →
    Except PatchError (List SuggestionLine)
  | _, _, [] => .ok []
  | old, new, line :: lines => do
    let kind ← lineNumbers header old new line.kind
    let parts := lineParts line.bytes
    let text ← match ofUtf8 parts.1 with
      | some text => .ok text
      | none => .error (.line (utf8Error parts.1))
    let others ← previewLines header (if countsOld line then old + 1 else old)
      (if countsNew line then new + 1 else new) lines
    .ok (⟨kind, text, parts.2⟩ :: others)

def previewHunks : List Hunk → Except PatchError (List SuggestionHunk)
  | [] => .ok []
  | hunk :: hunks => do
    let lines ← previewLines utf8Error hunk.header hunk.old.offset hunk.new.offset hunk.lines
    let others ← previewHunks hunks
    .ok (⟨hunk.header, lines⟩ :: others)

/-- The lines that a patch would change. -/
def preview (original : List UInt8) (source : String) : Except PatchError PatchPreview := do
  let patch ← parse source
  let result ← applyParsed original patch
  let hunks ← previewHunks utf8Error patch
  .ok ⟨hunks, result⟩

end Preview

/-! ### What a preview shows -/

/-- The bytes that end a line. -/
def terminator : LineEnding → List UInt8
  | .crLf => [13, 10]
  | .lf => [10]
  | .missing => []

/-- The text and the ending of a raw line are shown. -/
def Shows (line : SuggestionLine) (raw : List UInt8) : Prop :=
  raw = utf8Of line.text ++ terminator line.ending ∧ line.ending = endingOf raw

/-- A line shows what the sides have at its numbers. -/
structure Faithful (old new : List (List UInt8)) (line : SuggestionLine) : Prop where
  old : ∀ no ∈ line.kind.old, ∃ raw, old[no.index]? = some raw ∧ Shows line raw
  new : ∀ no ∈ line.kind.new, ∃ raw, new[no.index]? = some raw ∧ Shows line raw

/-- Some hunk mentions the line with the index. -/
def mentions (number : SuggestionLineKind → Option LineNo) (hunks : List SuggestionHunk)
    (index : Nat) : Bool :=
  hunks.any fun hunk => hunk.lines.any fun line =>
    (number line.kind).any fun no => no.index = index

/-! ### The text of a line -/

theorem stripSuffix_eq_some {suffix bytes text : List UInt8} :
    stripSuffix suffix bytes = some text ↔ bytes = text ++ suffix := by
  unfold stripSuffix
  constructor
  · intro stripped
    split at stripped
    next isSuffix =>
      obtain rfl := Option.some.inj stripped
      obtain ⟨front, rfl⟩ := List.isSuffixOf_iff_suffix.mp isSuffix
      rw [List.length_append, Nat.add_sub_cancel, List.take_left]
    next => cases stripped
  · rintro rfl
    rw [if_pos (List.isSuffixOf_iff_suffix.mpr (List.suffix_append text suffix)),
      List.length_append, Nat.add_sub_cancel, List.take_left]

theorem lineParts_spec (bytes : List UInt8) :
    bytes = (lineParts bytes).1 ++ terminator (lineParts bytes).2 ∧
      (lineParts bytes).2 = endingOf bytes := by
  unfold lineParts
  split
  next text stripped =>
    obtain rfl := stripSuffix_eq_some.mp stripped
    exact ⟨rfl, by simp [endingOf]⟩
  next notCrLf =>
    split
    next text stripped =>
      obtain rfl := stripSuffix_eq_some.mp stripped
      refine ⟨rfl, ?_⟩
      have noReturn : text.getLast? ≠ some 13 := by
        intro last
        obtain ⟨front, rfl⟩ := List.getLast?_eq_some_iff.mp last
        have both := stripSuffix_eq_some.mpr (show front ++ [13] ++ [10] = front ++ [13, 10] by simp)
        rw [notCrLf] at both
        cases both
      simp [endingOf, noReturn]
    next notLf =>
      refine ⟨(List.append_nil bytes).symm, ?_⟩
      have noNewline : bytes.getLast? ≠ some 10 := by
        intro last
        obtain ⟨front, rfl⟩ := List.getLast?_eq_some_iff.mp last
        rw [stripSuffix_eq_some.mpr rfl] at notLf
        cases notLf
      rw [endingOf, if_neg noNewline]

/-- A text without the bytes that end it is a text. -/
theorem lineParts_text (text : String) : ∃ shown, (lineParts (utf8Of text)).1 = utf8Of shown := by
  have whole := (lineParts_spec (utf8Of text)).1
  generalize lineParts (utf8Of text) = parts at whole
  obtain ⟨shown, ending⟩ := parts
  cases ending with
  | crLf =>
    have split : utf8Of text = (shown ++ [13]) ++ [10] := by
      rw [whole, List.append_assoc]
      rfl
    obtain ⟨line, inner⟩ := utf8Of_init split (by decide)
    exact utf8Of_init inner.symm (by decide)
  | lf => exact utf8Of_init whole (by decide)
  | missing => exact ⟨text, by rw [whole, terminator, List.append_nil]⟩

variable {lines : List BodyLine} {hunks : List Hunk}

/-- The source lines of a body are texts. -/
theorem Body.texts {text remaining : List (List Char)} (read : Body text lines remaining) :
    ∀ line ∈ lines, ∃ text, line.bytes = utf8Of text := by
  induction read with
  | stop => simp
  | marked _ _ _ taken _ ih =>
    obtain ⟨-, -, rfl⟩ := bodyLine_eq_ok.mp taken
    exact List.forall_mem_cons.mpr ⟨⟨_, utf8Bytes_eq _⟩, ih⟩
  | plain _ _ _ taken _ ih =>
    obtain ⟨-, -, rfl⟩ := bodyLine_eq_ok.mp taken
    exact List.forall_mem_cons.mpr ⟨⟨_, utf8Bytes_eq _⟩, ih⟩

theorem Hunks.texts {text : List (List Char)} (read : Hunks text hunks) :
    ∀ hunk ∈ hunks, ∀ line ∈ hunk.lines, ∃ text, line.bytes = utf8Of text := by
  induction read with
  | nil => simp
  | cons _ body _ _ ih =>
    exact List.forall_mem_cons.mpr ⟨body.texts, ih⟩

/-! ### The numbers of a hunk's lines -/

theorem lineNo_of_lt {offset count : Nat} (header : String) (inside : offset < count)
    (small : count < 2 ^ 32) : ∃ no, lineNo header offset = .ok no ∧ no.index = offset := by
  have value : (UInt32.ofNat (offset + 1)).toNat = offset + 1 := by
    rw [UInt32.toNat_ofNat']
    omega
  have positive : 0 < (UInt32.ofNat (offset + 1)).toNat := by omega
  refine ⟨⟨_, positive, UInt32.toNat_lt _⟩, ?_, ?_⟩
  · rw [lineNo, if_pos ⟨by unfold WORD; omega, by omega⟩, LineNo.new, dif_pos positive]
  · exact (congrArg (· - 1) value).trans (Nat.add_sub_cancel offset 1)

/-- The index is the one a number names. -/
def Names (number : Option LineNo) (index : Nat) : Prop := ∃ no ∈ number, no.index = index

theorem names_some {no : LineNo} {index : Nat} : Names (some no) index ↔ no.index = index := by
  simp [Names]

theorem not_names_none {index : Nat} : ¬ Names none index := by
  simp [Names]

/-- A line is numbered by the counters of the sides that have it. -/
theorem lineNumbers_ok {header : String} {line : BodyLine} {o n : Nat}
    (oldNumber : countsOld line = true → ∃ no, lineNo header o = .ok no ∧ no.index = o)
    (newNumber : countsNew line = true → ∃ no, lineNo header n = .ok no ∧ no.index = n) :
    ∃ kind, lineNumbers header o n line.kind = .ok kind ∧
      (∀ index, Names kind.old index ↔ countsOld line = true ∧ index = o) ∧
      ∀ index, Names kind.new index ↔ countsNew line = true ∧ index = n := by
  obtain ⟨kind, bytes⟩ := line
  cases kind with
  | context =>
    obtain ⟨old, oldIs, oldAt⟩ := oldNumber rfl
    obtain ⟨new, newIs, newAt⟩ := newNumber rfl
    refine ⟨.context old new, ?_, fun index => ?_, fun index => ?_⟩
    · rw [lineNumbers, oldIs, ok_bind, newIs, ok_bind]
    · rw [SuggestionLineKind.old, names_some, oldAt]
      simp [countsOld, eq_comm]
    · rw [SuggestionLineKind.new, names_some, newAt]
      simp [countsNew, eq_comm]
  | remove =>
    obtain ⟨old, oldIs, oldAt⟩ := oldNumber rfl
    refine ⟨.remove old, ?_, fun index => ?_, fun index => ?_⟩
    · rw [lineNumbers, oldIs, ok_bind]
    · rw [SuggestionLineKind.old, names_some, oldAt]
      simp [countsOld, eq_comm]
    · exact iff_of_false not_names_none (by simp [countsNew])
  | add =>
    obtain ⟨new, newIs, newAt⟩ := newNumber rfl
    refine ⟨.add new, ?_, fun index => ?_, fun index => ?_⟩
    · rw [lineNumbers, newIs, ok_bind]
    · exact iff_of_false not_names_none (by simp [countsOld])
    · rw [SuggestionLineKind.new, names_some, newAt]
      simp [countsNew, eq_comm]

/-- What numbering the lines of a hunk gives: each line at the counters of its sides, which
is where the sides have it. -/
structure Numbered (old new : List (List UInt8)) (o n : Nat) (lines : List BodyLine)
    (shown : List SuggestionLine) : Prop where
  faithful : ∀ line ∈ shown, Faithful old new line
  oldMentioned : ∀ index, (∃ line ∈ shown, Names line.kind.old index) ↔
    o ≤ index ∧ index < o + (side countsOld lines).length
  newMentioned : ∀ index, (∃ line ∈ shown, Names line.kind.new index) ↔
    n ≤ index ∧ index < n + (side countsNew lines).length

/-- A side's lines from the first one of a body on. -/
theorem side_step {counts : BodyLine → Bool} {text rest : List (List UInt8)} {line : BodyLine}
    {position : Nat} (here : text.drop position = side counts (line :: lines) ++ rest) :
    (counts line = true → text[position]? = some line.bytes) ∧
      text.drop (if counts line then position + 1 else position) = side counts lines ++ rest := by
  rw [side_cons] at here
  by_cases counted : counts line = true
  · rw [if_pos counted, List.cons_append, drop_eq_cons_iff] at here
    rw [if_pos counted]
    exact ⟨fun _ => here.1, here.2.symm⟩
  · rw [if_neg counted] at here
    rw [if_neg counted]
    exact ⟨fun counted' => absurd counted' counted, here⟩

theorem names_step {counts : BodyLine → Bool} {number : SuggestionLineKind → Option LineNo}
    {line : BodyLine} {first : SuggestionLine} {shown : List SuggestionLine} {position index : Nat}
    (here : Names (number first.kind) index ↔ counts line = true ∧ index = position)
    (later : (∃ other ∈ shown, Names (number other.kind) index) ↔
      (if counts line then position + 1 else position) ≤ index ∧
        index < (if counts line then position + 1 else position) + (side counts lines).length) :
    (∃ other ∈ first :: shown, Names (number other.kind) index) ↔
      position ≤ index ∧ index < position + (side counts (line :: lines)).length := by
  rw [List.exists_mem_cons_iff, here, later, side_cons]
  by_cases counted : counts line = true
  · simp only [counted, ↓reduceIte, true_and, List.length_cons]
    omega
  · simp only [counted, ↓reduceIte, false_and, false_or, Bool.false_eq_true]

section Numbers

variable {utf8Error : List UInt8 → String} {old new : List (List UInt8)}

theorem previewLines_numbered (header : String) (smallOld : old.length < 2 ^ 32)
    (smallNew : new.length < 2 ^ 32) {lines : List BodyLine} {o n : Nat}
    {oldRest newRest : List (List UInt8)} (oldHere : old.drop o = side countsOld lines ++ oldRest)
    (newHere : new.drop n = side countsNew lines ++ newRest)
    (texts : ∀ line ∈ lines, ∃ text, line.bytes = utf8Of text) :
    ∃ shown, previewLines utf8Error header o n lines = .ok shown ∧
      Numbered old new o n lines shown := by
  induction lines generalizing o n with
  | nil =>
    refine ⟨[], rfl, by simp, fun index => ?_, fun index => ?_⟩
    · simp only [List.not_mem_nil, false_and, exists_false, side_nil, List.length_nil, false_iff]
      omega
    · simp only [List.not_mem_nil, false_and, exists_false, side_nil, List.length_nil, false_iff]
      omega
  | cons line lines ih =>
    obtain ⟨⟨source, isText⟩, others⟩ := List.forall_mem_cons.mp texts
    obtain ⟨text, shownText⟩ := lineParts_text source
    rw [← isText] at shownText
    have parsed : ofUtf8 (lineParts line.bytes).1 = some text := ofUtf8_eq_some_iff.mpr shownText
    obtain ⟨whole, ending⟩ := lineParts_spec line.bytes
    rw [shownText] at whole
    obtain ⟨oldLine, oldLater⟩ := side_step oldHere
    obtain ⟨newLine, newLater⟩ := side_step newHere
    have inside {text : List (List UInt8)} {position : Nat}
        (found : text[position]? = some line.bytes) : position < text.length :=
      (List.getElem?_eq_some_iff.mp found).1
    obtain ⟨kind, numbered, oldNames, newNames⟩ := @lineNumbers_ok header line o n
      (fun counted => lineNo_of_lt header (inside (oldLine counted)) smallOld)
      (fun counted => lineNo_of_lt header (inside (newLine counted)) smallNew)
    obtain ⟨shown, previewed, later⟩ := ih oldLater newLater others
    refine ⟨⟨kind, text, (lineParts line.bytes).2⟩ :: shown, ?_, ?_, fun index => ?_, fun index => ?_⟩
    · rw [previewLines, numbered, ok_bind]
      simp only [parsed, ok_bind, previewed]
    · refine List.forall_mem_cons.mpr ⟨⟨fun no named => ?_, fun no named => ?_⟩, later.faithful⟩
      · obtain ⟨counted, at_⟩ := (oldNames no.index).mp ⟨no, named, rfl⟩
        exact ⟨line.bytes, at_ ▸ oldLine counted, whole, ending⟩
      · obtain ⟨counted, at_⟩ := (newNames no.index).mp ⟨no, named, rfl⟩
        exact ⟨line.bytes, at_ ▸ newLine counted, whole, ending⟩
    · exact names_step (oldNames index) (later.oldMentioned index)
    · exact names_step (newNames index) (later.newMentioned index)

end Numbers

/-! ### The lines between hunks -/

/-- The old lines a hunk takes up. -/
def oldSpan (hunk : Hunk) : Nat × Nat :=
  (hunk.old.offset, hunk.old.offset + (side countsOld hunk.lines).length)

/-- The new lines a hunk takes up. -/
def newSpan (hunk : Hunk) : Nat × Nat :=
  (hunk.new.offset, hunk.new.offset + (side countsNew hunk.lines).length)

theorem Fits.spansOld {o n : Nat} {old new : List (List UInt8)} (fits : Fits o n hunks old new) :
    SpansFrom o (hunks.map oldSpan) := by
  induction fits with
  | done => trivial
  | hunk hunk untouched oldAt newAt after ih =>
    refine ⟨?_, Nat.le_add_right _ _, ih⟩
    simp only [oldSpan]
    omega

theorem Fits.spansNew {o n : Nat} {old new : List (List UInt8)} (fits : Fits o n hunks old new) :
    SpansFrom n (hunks.map newSpan) := by
  induction fits with
  | done => trivial
  | hunk hunk untouched oldAt newAt after ih =>
    refine ⟨?_, Nat.le_add_right _ _, ih⟩
    simp only [newSpan]
    omega

/-- The lines that no hunk takes up are the same on both sides. -/
theorem Fits.spared {o n : Nat} {old new : List (List UInt8)} (fits : Fits o n hunks old new) :
    spare (fun _ => 1) (within (hunks.map oldSpan)) o old =
      spare (fun _ => 1) (within (hunks.map newSpan)) n new := by
  induction fits with
  | done rest =>
    have none : within [] = fun _ => false := funext within_nil
    rw [List.map_nil, List.map_nil, none, spare_nothing, spare_nothing]
  | @hunk o n hunks old new hunk untouched oldAt newAt after ih =>
    have behindOld := after.spansOld
    have behindNew := after.spansNew
    rw [oldAt] at behindOld ih
    rw [newAt] at behindNew ih
    rw [List.map_cons, List.map_cons, oldSpan, newSpan, oldAt, newAt, spare_span behindOld,
      spare_span behindNew, ih]

section Hunks

variable {utf8Error : List UInt8 → String} {old new : List (List UInt8)}

/-- What previewing hunks gives. -/
structure Previewed (old new : List (List UInt8)) (hunks : List Hunk) (shown : List SuggestionHunk) :
    Prop where
  headers : shown.map SuggestionHunk.header = hunks.map Hunk.header
  faithful : ∀ hunk ∈ shown, ∀ line ∈ hunk.lines, Faithful old new line
  oldMentioned : ∀ index, (∃ hunk ∈ shown, ∃ line ∈ hunk.lines, Names line.kind.old index) ↔
    within (hunks.map oldSpan) index = true
  newMentioned : ∀ index, (∃ hunk ∈ shown, ∃ line ∈ hunk.lines, Names line.kind.new index) ↔
    within (hunks.map newSpan) index = true

/-- Hunks that fit the lines of both sides are previewed. -/
theorem Fits.previewed (smallOld : old.length < 2 ^ 32) (smallNew : new.length < 2 ^ 32) {o n : Nat}
    {hunks : List Hunk} (fits : Fits o n hunks (old.drop o) (new.drop n))
    (texts : ∀ hunk ∈ hunks, ∀ line ∈ hunk.lines, ∃ text, line.bytes = utf8Of text) :
    ∃ shown, previewHunks utf8Error hunks = .ok shown ∧ Previewed old new hunks shown := by
  induction hunks generalizing o n with
  | nil => exact ⟨[], rfl, rfl, by simp, by simp, by simp⟩
  | cons hunk hunks ih =>
    obtain ⟨within_, others⟩ := List.forall_mem_cons.mp texts
    obtain ⟨untouched, oldRest, newRest, oldLines, newLines, oldAt, newAt, after⟩ :=
      fits_cons_iff.mp fits
    have oldHere : old.drop hunk.old.offset = side countsOld hunk.lines ++ oldRest := by
      rw [oldAt, ← List.drop_drop, oldLines, List.drop_left]
    have newHere : new.drop hunk.new.offset = side countsNew hunk.lines ++ newRest := by
      rw [newAt, ← List.drop_drop, newLines, List.drop_left]
    have oldLater : old.drop (hunk.old.offset + (side countsOld hunk.lines).length) = oldRest := by
      rw [← List.drop_drop, oldHere, List.drop_left]
    have newLater : new.drop (hunk.new.offset + (side countsNew hunk.lines).length) = newRest := by
      rw [← List.drop_drop, newHere, List.drop_left]
    rw [← oldLater, ← newLater] at after
    obtain ⟨lines, numbered, shows⟩ := @previewLines_numbered utf8Error old new hunk.header smallOld
      smallNew _ _ _ _ _ oldHere newHere within_
    obtain ⟨shown, previewed, later⟩ := ih after others
    refine ⟨⟨hunk.header, lines⟩ :: shown, ?_, ?_, ?_, fun index => ?_, fun index => ?_⟩
    · rw [previewHunks, numbered, ok_bind, previewed, ok_bind]
    · rw [List.map_cons, List.map_cons, later.headers]
    · exact List.forall_mem_cons.mpr ⟨shows.faithful, later.faithful⟩
    · rw [List.exists_mem_cons_iff, shows.oldMentioned, later.oldMentioned, List.map_cons,
        within_cons, Bool.or_eq_true, Bool.and_eq_true, decide_eq_true_eq, decide_eq_true_eq, oldSpan]
    · rw [List.exists_mem_cons_iff, shows.newMentioned, later.newMentioned, List.map_cons,
        within_cons, Bool.or_eq_true, Bool.and_eq_true, decide_eq_true_eq, decide_eq_true_eq, newSpan]

theorem mentions_eq {number : SuggestionLineKind → Option LineNo} {hunks : List SuggestionHunk}
    {spans : List (Nat × Nat)}
    (mentioned : ∀ index, (∃ hunk ∈ hunks, ∃ line ∈ hunk.lines, Names (number line.kind) index) ↔
      within spans index = true) : mentions number hunks = within spans := by
  funext index
  rw [Bool.eq_iff_iff, ← mentioned]
  simp [mentions, Names, Option.any_eq_true]

end Hunks

/-! ### Previews and applications -/

/-- A preview is the application with its presentation: both succeed, or fail, together and
give the same bytes, every numbered line shows what the original, or the result, has there,
and both have the same lines outside the hunks. Line numbers have 32 bits, so this is about
files of fewer lines. -/
theorem preview_exact (utf8Error : List UInt8 → String) {original : List UInt8} {patch : String}
    (small : (splitInclusive original).length < 2 ^ 32)
    (smallResult : ∀ result, apply original patch = .ok result →
      (splitInclusive result).length < 2 ^ 32) :
    (preview utf8Error original patch).map PatchPreview.result = apply original patch ∧
      ∀ shown, preview utf8Error original patch = .ok shown →
        (∀ hunk ∈ shown.hunks, ∀ line ∈ hunk.lines,
          Faithful (splitInclusive original) (splitInclusive shown.result) line) ∧
        spare (fun _ => 1) (mentions SuggestionLineKind.old shown.hunks) 0
            (splitInclusive original) =
          spare (fun _ => 1) (mentions SuggestionLineKind.new shown.hunks) 0
            (splitInclusive shown.result) := by
  unfold preview
  cases parsed : parse patch with
  | error error =>
    have refused : apply original patch = .error error := by
      rw [apply, parsed]
      rfl
    rw [refused]
    exact ⟨rfl, fun shown same => by cases same⟩
  | ok hunks =>
    have same : apply original patch = applyParsed original hunks := by
      rw [apply, parsed]
      rfl
    cases run : applyParsed original hunks with
    | error error =>
      rw [same, run, ok_bind, run]
      exact ⟨rfl, fun shown same => by cases same⟩
    | ok result =>
      have applied : apply original patch = .ok result := same.trans run
      obtain ⟨_, parsed', fits⟩ := fits_of_apply applied
      obtain rfl := Except.ok.inj (parsed.symm.trans parsed')
      obtain ⟨-, first, body, -, read⟩ := parse_eq_ok.mp parsed
      obtain ⟨shown, previewed, shows⟩ :=
        @Fits.previewed utf8Error _ _ small (smallResult result applied) 0 0 _ fits read.texts
      rw [applied, ok_bind, run, ok_bind, previewed, ok_bind]
      refine ⟨rfl, fun preview same => ?_⟩
      obtain rfl := Except.ok.inj same
      refine ⟨shows.faithful, ?_⟩
      rw [mentions_eq shows.oldMentioned, mentions_eq shows.newMentioned]
      exact fits.spared

/-- The last line, without a newline, is replaced by two. -/
theorem preview_exact_lastLine :
    (preview (fun _ => "") (utf8Bytes "a\nb") lastLineEdit.text).map PatchPreview.result =
        apply (utf8Bytes "a\nb") lastLineEdit.text ∧
      ∀ shown, preview (fun _ => "") (utf8Bytes "a\nb") lastLineEdit.text = .ok shown →
        (∀ hunk ∈ shown.hunks, ∀ line ∈ hunk.lines,
          Faithful (splitInclusive (utf8Bytes "a\nb")) (splitInclusive shown.result) line) ∧
        spare (fun _ => 1) (mentions SuggestionLineKind.old shown.hunks) 0
            (splitInclusive (utf8Bytes "a\nb")) =
          spare (fun _ => 1) (mentions SuggestionLineKind.new shown.hunks) 0
            (splitInclusive shown.result) := by
  have applied : apply (utf8Bytes "a\nb") lastLineEdit.text = .ok (utf8Bytes "a\né\r\nc") :=
    lastLineEdit.apply_text (by decide) (by decide)
  refine preview_exact (fun _ => "") (by decide) fun result same => ?_
  obtain rfl := Except.ok.inj (applied.symm.trans same)
  decide

end Nits.ReviewCore.Patch
