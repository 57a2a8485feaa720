import Nits.ReviewCore.Patch.Text

/-!
# The unified diff of an edit

An edit is cut into hunks with untouched lines before, between and after them. A
hunk is any nonempty run of context, removed and added lines. The diff text states
for each hunk where it begins on both sides, in the style a diff tool writes it.
-/

namespace Nits.ReviewCore.Patch

open Logical ReviewCore

/-- A source line that a patch can carry. -/
structure SourceLine where
  text : List Char
  isPiece : IsPiece newlineChar text

def SourceLine.bytes (source : SourceLine) : List UInt8 := utf8Bytes (String.ofList source.text)

structure EditLine where
  kind : LineKind
  source : SourceLine

def EditLine.body (line : EditLine) : BodyLine := ⟨line.kind, line.source.bytes⟩

/-- A hunk of an edit: the untouched lines before it, its own lines, and how its header
is written. -/
structure EditHunk where
  untouched : List (List UInt8)
  lines : List EditLine
  nonempty : lines ≠ []
  /-- Leave out the count of a range of one line. -/
  shortOld : Bool
  shortNew : Bool
  /-- The section heading after the ranges. -/
  suffix : List Char
  plain : ∀ c ∈ suffix, newlineChar c = false
  spaced : suffix ≠ [] → suffix.head? = some ' '

/-- The optional `---`/`+++` pair. -/
structure FileHeader where
  old : List Char
  new : List Char
  plainOld : ∀ c ∈ old, newlineChar c = false
  plainNew : ∀ c ∈ new, newlineChar c = false

def EditHunk.bodies (hunk : EditHunk) : List BodyLine := hunk.lines.map EditLine.body

def EditHunk.oldLines (hunk : EditHunk) : List (List UInt8) :=
  hunk.untouched ++ side countsOld hunk.bodies

def EditHunk.newLines (hunk : EditHunk) : List (List UInt8) :=
  hunk.untouched ++ side countsNew hunk.bodies

/-- An edit of a byte string into another, cut into hunks. -/
structure Edit (original edited : List UInt8) where
  hunks : List EditHunk
  nonempty : hunks ≠ []
  rest : List (List UInt8)
  old : hunks.flatMap EditHunk.oldLines ++ rest = splitInclusive original
  new : hunks.flatMap EditHunk.newLines ++ rest = splitInclusive edited
  fileHeader : Option FileHeader

/-! ### Printing -/

def LineKind.sign : LineKind → Char
  | .context => ' '
  | .remove => '-'
  | .add => '+'

def noNewlineMarker : List Char := "\\ No newline at end of file\n".toList

/-- A line that has no newline is printed with one and a marker after it. -/
def EditLine.printed (line : EditLine) : List (List Char) :=
  if Closed newlineChar line.source.text then [line.kind.sign :: line.source.text]
  else [line.kind.sign :: (line.source.text ++ ['\n']), noNewlineMarker]

/-- A range is one-based, and one that is empty points after the line it states. -/
def rangeText (short : Bool) (range : HunkRange) : List Char :=
  Nat.toDigits 10 (if range.count = 0 then range.offset else range.offset + 1) ++
    if short ∧ range.count = 1 then [] else ',' :: Nat.toDigits 10 range.count

/-- The ranges of a hunk past `o` old and `n` new lines. -/
def EditHunk.oldRange (o : Nat) (hunk : EditHunk) : HunkRange :=
  ⟨o + hunk.untouched.length, (side countsOld hunk.bodies).length⟩

def EditHunk.newRange (n : Nat) (hunk : EditHunk) : HunkRange :=
  ⟨n + hunk.untouched.length, (side countsNew hunk.bodies).length⟩

def EditHunk.header (o n : Nat) (hunk : EditHunk) : Header where
  old := rangeText hunk.shortOld (hunk.oldRange o)
  new := rangeText hunk.shortNew (hunk.newRange n)
  suffix := hunk.suffix

/-- The lines of the hunks past `o` old and `n` new lines. -/
def printedFrom : Nat → Nat → List EditHunk → List (List Char)
  | _, _, [] => []
  | o, n, hunk :: hunks =>
    ((hunk.header o n).text ++ ['\n']) :: (hunk.lines.flatMap EditLine.printed ++
      printedFrom (o + hunk.oldLines.length) (n + hunk.newLines.length) hunks)

def FileHeader.printed (header : FileHeader) : List (List Char) :=
  ["--- ".toList ++ header.old ++ ['\n'], "+++ ".toList ++ header.new ++ ['\n']]

/-- The unified diff text of an edit. -/
def Edit.text {original edited : List UInt8} (edit : Edit original edited) : String :=
  let heading := (edit.fileHeader.map FileHeader.printed).getD []
  String.ofList (heading ++ printedFrom 0 0 edit.hunks).flatten

/-! ### What the printed text is read as -/

/-- The hunks meant past `o` old and `n` new lines. -/
def hunksFrom : Nat → Nat → List EditHunk → List Hunk
  | _, _, [] => []
  | o, n, hunk :: hunks =>
    ⟨String.ofList (hunk.header o n).text, hunk.oldRange o, hunk.newRange n, hunk.bodies⟩ ::
      hunksFrom (o + hunk.oldLines.length) (n + hunk.newLines.length) hunks

theorem length_oldLines (o : Nat) (hunk : EditHunk) :
    o + hunk.oldLines.length = (hunk.oldRange o).offset + (hunk.oldRange o).count := by
  rw [EditHunk.oldLines, List.length_append, EditHunk.oldRange, Nat.add_assoc]

theorem length_newLines (n : Nat) (hunk : EditHunk) :
    n + hunk.newLines.length = (hunk.newRange n).offset + (hunk.newRange n).count := by
  rw [EditHunk.newLines, List.length_append, EditHunk.newRange, Nat.add_assoc]

/-- The meant hunks turn the old lines of the edit into its new lines. -/
theorem fits_hunksFrom (o n : Nat) (hunks : List EditHunk) (rest : List (List UInt8)) :
    Fits o n (hunksFrom o n hunks) (hunks.flatMap EditHunk.oldLines ++ rest)
      (hunks.flatMap EditHunk.newLines ++ rest) := by
  induction hunks generalizing o n with
  | nil => exact .done rest
  | cons hunk hunks ih =>
    have below := ih (o + hunk.oldLines.length) (n + hunk.newLines.length)
    rw [List.flatMap_cons, List.flatMap_cons, List.append_assoc, List.append_assoc]
    unfold EditHunk.oldLines EditHunk.newLines
    rw [List.append_assoc, List.append_assoc]
    refine .hunk _ hunk.untouched rfl rfl ?_
    change Fits ((hunk.oldRange o).offset + (hunk.oldRange o).count)
      ((hunk.newRange n).offset + (hunk.newRange n).count) _ _ _
    rw [← length_oldLines, ← length_newLines]
    exact below

theorem isDigit_toDigits (value : Nat) : ∀ c ∈ Nat.toDigits 10 value, c.isDigit = true :=
  fun _ mem => Nat.isDigit_of_mem_toDigits (by omega) (by omega) mem

theorem comma_not_mem_toDigits (value : Nat) : ',' ∉ Nat.toDigits 10 value := by
  intro mem
  have digit := isDigit_toDigits value ',' mem
  exact absurd digit (by decide)

theorem rangeChar_rangeText (short : Bool) (range : HunkRange) :
    ∀ c ∈ rangeText short range, rangeChar c = true := by
  intro c mem
  rw [rangeText] at mem
  rcases List.mem_append.mp mem with start | count
  · simp [rangeChar, isDigit_toDigits _ c start]
  · split at count
    · cases count
    · rcases List.mem_cons.mp count with rfl | digit
      · rfl
      · simp [rangeChar, isDigit_toDigits _ c digit]

/-- A printed range is read back. -/
theorem parse_rangeText (short : Bool) {range : HunkRange}
    (fits : range.offset + range.count < WORD) :
    HunkRange.parse (rangeText short range) = some range := by
  obtain ⟨offset, count⟩ := range
  dsimp only at fits
  have start : (if count = 0 then offset else offset + 1) < WORD := by
    split <;> omega
  have checked : HunkRange.checked (if count = 0 then offset else offset + 1) count =
      some ⟨offset, count⟩ := by
    rw [HunkRange.checked]
    by_cases empty : count = 0
    · simp only [if_pos empty]
      exact if_pos fits
    · simp only [if_neg empty, if_neg (Nat.succ_ne_zero offset), Nat.add_sub_cancel]
      exact if_pos fits
  rw [HunkRange.parse_eq, rangeText]
  dsimp only
  generalize first : (if count = 0 then offset else offset + 1) = written at start checked ⊢
  by_cases omitted : short = true ∧ count = 1
  · rw [if_pos omitted, List.append_nil, splitOnce_eq_none (comma_not_mem_toDigits written)]
    dsimp only
    rw [number_toDigits start, Option.bind_some, ← omitted.2]
    exact checked
  · have halves : splitOnce [','] (Nat.toDigits 10 written ++ ',' :: Nat.toDigits 10 count) =
        some (Nat.toDigits 10 written, Nat.toDigits 10 count) :=
      splitOnce_append _ (comma_not_mem_toDigits written)
    rw [if_neg omitted, halves]
    dsimp only
    rw [number_toDigits start, number_toDigits (by omega)]
    exact checked

theorem EditHunk.plain_header (o n : Nat) (hunk : EditHunk) : (hunk.header o n).Plain :=
  ⟨rangeChar_rangeText _ _, rangeChar_rangeText _ _⟩

/-- A hunk reads or writes a line. -/
theorem EditHunk.counted (o n : Nat) (hunk : EditHunk) :
    ¬ ((hunk.oldRange o).count = 0 ∧ (hunk.newRange n).count = 0) := by
  rintro ⟨noOld, noNew⟩
  obtain ⟨line, lines, written⟩ := List.exists_cons_of_ne_nil hunk.nonempty
  have bodies : hunk.bodies = line.body :: lines.map EditLine.body := by
    rw [EditHunk.bodies, written]
    rfl
  simp only [EditHunk.oldRange, EditHunk.newRange, bodies, side_cons] at noOld noNew
  obtain ⟨kind, source⟩ := line
  cases kind <;> simp [EditLine.body, countsOld, countsNew] at noOld noNew

/-- A printed header is read as the meant ranges. -/
theorem parseHeader_printed {o n : Nat} {hunk : EditHunk}
    (fitsOld : o + hunk.oldLines.length < WORD) (fitsNew : n + hunk.newLines.length < WORD) :
    parseHeader (unended ((hunk.header o n).text ++ ['\n'])) =
      .ok ⟨String.ofList (hunk.header o n).text, hunk.oldRange o, hunk.newRange n, []⟩ := by
  rw [length_oldLines] at fitsOld
  rw [length_newLines] at fitsNew
  rw [unended_append_newline]
  exact parseHeader_eq_ok.mpr ⟨hunk.header o n, rfl, hunk.plain_header o n, hunk.spaced,
    parse_rangeText _ fitsOld, parse_rangeText _ fitsNew, hunk.counted o n, rfl, rfl⟩

theorem lineKind_sign (kind : LineKind) (content : List Char) :
    lineKind (kind.sign :: content) = .ok kind ∧ opens (kind.sign :: content) = false := by
  cases kind <;> exact ⟨rfl, rfl⟩

theorem sign_not_marker (kind : LineKind) (content : List Char) :
    isNoNewlineMarker (kind.sign :: content) = false := by
  refine Bool.eq_false_iff.mpr fun marker => ?_
  have head := isNoNewlineMarker_head marker
  cases kind <;> cases head

/-- Printed body lines are read as the meant ones, up to the next header. -/
theorem body_printed (lines : List EditLine) {remaining : List (List Char)}
    (atHeader : ∀ line ∈ remaining.head?, opens line = true) :
    Body (lines.flatMap EditLine.printed ++ remaining) (lines.map EditLine.body) remaining ∧
      ∀ next ∈ (lines.flatMap EditLine.printed ++ remaining).head?,
        isNoNewlineMarker next = false := by
  induction lines with
  | nil =>
    refine ⟨.stop atHeader, fun next first => Bool.eq_false_iff.mpr fun marker => ?_⟩
    have head := isNoNewlineMarker_head marker
    rw [head_of_opens (atHeader next first)] at head
    cases head
  | cons line lines ih =>
    obtain ⟨below, unmarked⟩ := ih
    rw [List.flatMap_cons, List.append_assoc, EditLine.printed]
    split
    next closed =>
      have signed := lineKind_sign line.kind line.source.text
      refine ⟨.plain signed.2 signed.1 unmarked ?_ below, ?_⟩
      · obtain ⟨c, last, stops⟩ := closed
        have newline : c = '\n' := by simpa [newlineChar] using stops
        rw [newline] at last
        exact bodyLine_eq_ok.mpr ⟨last, line.source.isPiece.nonempty, rfl⟩
      · rintro next first
        cases first
        exact sign_not_marker _ _
    next =>
      have signed := lineKind_sign line.kind (line.source.text ++ ['\n'])
      refine ⟨.marked signed.2 signed.1 (by decide) ?_ below, ?_⟩
      · refine bodyLine_eq_ok.mpr ⟨by simp, ?_, ?_⟩
        · simpa [sourceText] using line.source.isPiece.nonempty
        · simp [sourceText, EditLine.body, SourceLine.bytes]
      · rintro next first
        cases first
        exact sign_not_marker _ _

/-- The printed hunks are read as the meant ones. -/
theorem hunks_printed {o n : Nat} {hunks : List EditHunk}
    (fitsOld : o + (hunks.flatMap EditHunk.oldLines).length < WORD)
    (fitsNew : n + (hunks.flatMap EditHunk.newLines).length < WORD) :
    Hunks (printedFrom o n hunks) (hunksFrom o n hunks) := by
  induction hunks generalizing o n with
  | nil => exact .nil
  | cons hunk hunks ih =>
    rw [List.flatMap_cons, List.length_append] at fitsOld fitsNew
    have below := ih
      (show o + hunk.oldLines.length + _ < WORD by rw [Nat.add_assoc]; exact fitsOld)
      (show n + hunk.newLines.length + _ < WORD by rw [Nat.add_assoc]; exact fitsNew)
    have atHeader : ∀ line ∈ (printedFrom (o + hunk.oldLines.length)
        (n + hunk.newLines.length) hunks).head?, opens line = true := by
      cases hunks with
      | nil => simp [printedFrom]
      | cons next others =>
        rintro line first
        cases first
        rfl
    have opening : parseHeader _ = _ := @parseHeader_printed o n hunk (by omega) (by omega)
    have read := (body_printed hunk.lines atHeader).1
    exact .cons opening read (validateCounts_eq_ok.mpr ⟨rfl, rfl⟩) below

/-! ### The lines of the printed text -/

theorem LineKind.sign_quiet (kind : LineKind) : newlineChar kind.sign = false := by
  cases kind <;> rfl

/-- Every printed line is a line with a newline. -/
theorem printed_line (line : EditLine) :
    ∀ text ∈ line.printed, IsPiece newlineChar text ∧ Closed newlineChar text := by
  intro text mem
  rw [EditLine.printed] at mem
  split at mem
  next closed =>
    rw [List.mem_singleton] at mem
    subst mem
    exact ⟨isPiece_cons line.kind.sign_quiet line.source.isPiece, closed_cons closed⟩
  next unclosed =>
    have quiet := line.source.isPiece.quiet unclosed
    simp only [List.mem_cons, List.not_mem_nil, or_false] at mem
    rcases mem with rfl | rfl
    · exact ⟨isPiece_cons line.kind.sign_quiet (isPiece_append_singleton quiet '\n'),
        closed_cons (closed_append_singleton rfl)⟩
    · have inside : (noNewlineMarker.dropLast.all fun c => !newlineChar c) = true := by decide
      exact ⟨⟨by decide, by simpa using List.all_eq_true.mp inside⟩, by decide⟩

theorem ended_line {text : List Char} (quiet : ∀ c ∈ text, newlineChar c = false) :
    IsPiece newlineChar (text ++ ['\n']) ∧ Closed newlineChar (text ++ ['\n']) :=
  ⟨isPiece_append_singleton quiet '\n', closed_append_singleton rfl⟩

theorem rangeChar_quiet {c : Char} (inRange : rangeChar c = true) : newlineChar c = false := by
  refine Bool.eq_false_iff.mpr fun stops => ?_
  have newline : c = '\n' := by simpa [newlineChar] using stops
  rw [newline] at inRange
  cases inRange

theorem Header.quiet {header : Header} (plain : header.Plain)
    (suffix : ∀ c ∈ header.suffix, newlineChar c = false) :
    ∀ c ∈ header.text, newlineChar c = false := by
  have open_ : ∀ c ∈ "@@ -".toList, newlineChar c = false := by simp [newlineChar]
  have middle : ∀ c ∈ " +".toList, newlineChar c = false := by simp [newlineChar]
  have close : ∀ c ∈ " @@".toList, newlineChar c = false := by simp [newlineChar]
  intro c mem
  rw [show header.text = "@@ -".toList ++ (header.old ++ (" +".toList ++ (header.new ++
    (" @@".toList ++ header.suffix)))) from rfl] at mem
  simp only [List.mem_append] at mem
  rcases mem with here | here | here | here | here | here
  · exact open_ c here
  · exact rangeChar_quiet (plain.old c here)
  · exact middle c here
  · exact rangeChar_quiet (plain.new c here)
  · exact close c here
  · exact suffix c here

theorem printedFrom_lines (o n : Nat) (hunks : List EditHunk) :
    ∀ text ∈ printedFrom o n hunks, IsPiece newlineChar text ∧ Closed newlineChar text := by
  induction hunks generalizing o n with
  | nil => simp [printedFrom]
  | cons hunk hunks ih =>
    intro text mem
    rw [printedFrom, List.mem_cons, List.mem_append] at mem
    rcases mem with rfl | within | after
    · exact ended_line (Header.quiet (hunk.plain_header o n) hunk.plain)
    · obtain ⟨line, -, printed⟩ := List.mem_flatMap.mp within
      exact printed_line line text printed
    · exact ih _ _ text after

theorem fileHeader_lines (header : FileHeader) :
    ∀ text ∈ header.printed, IsPiece newlineChar text ∧ Closed newlineChar text := by
  have quiet : ∀ mark name : List Char, (∀ c ∈ mark, newlineChar c = false) →
      (∀ c ∈ name, newlineChar c = false) → ∀ c ∈ mark ++ name, newlineChar c = false := by
    intro mark name plainMark plainName c mem
    rcases List.mem_append.mp mem with here | here
    · exact plainMark c here
    · exact plainName c here
  intro text mem
  simp only [FileHeader.printed, List.mem_cons, List.not_mem_nil, or_false] at mem
  rcases mem with rfl | rfl
  · exact ended_line (quiet _ _ (by simp [newlineChar]) header.plainOld)
  · exact ended_line (quiet _ _ (by simp [newlineChar]) header.plainNew)

section Edit

variable {original edited : List UInt8} (edit : Edit original edited)

/-- The lines of the printed text are the printed lines. -/
theorem Edit.splitLines_text : splitLines edit.text.toList =
      (edit.fileHeader.map FileHeader.printed).getD [] ++ printedFrom 0 0 edit.hunks := by
  have lines : ∀ text ∈ (edit.fileHeader.map FileHeader.printed).getD [] ++
      printedFrom 0 0 edit.hunks, IsPiece newlineChar text ∧ Closed newlineChar text := by
    intro text mem
    rcases List.mem_append.mp mem with heading | body
    · cases named : edit.fileHeader with
      | none =>
        rw [named] at heading
        cases heading
      | some header =>
        rw [named] at heading
        exact fileHeader_lines header text heading
    · exact printedFrom_lines 0 0 edit.hunks text body
  rw [Edit.text, String.toList_ofList, splitLines_eq_pieces]
  exact pieces_flatten (cuts_of_closed (fun text mem => (lines text mem).1)
    fun text mem => (lines text mem).2)

/-- The printed text is read as a file-header pair, if there is one, and hunks. -/
theorem Edit.parts : Parts edit.text ((edit.fileHeader.map FileHeader.printed).getD [])
      (printedFrom 0 0 edit.hunks) := by
  refine ⟨edit.splitLines_text, ?_⟩
  cases edit.fileHeader with
  | none =>
    obtain ⟨hunk, hunks, written⟩ := List.exists_cons_of_ne_nil edit.nonempty
    rw [written]
    exact .inl ⟨rfl, rfl⟩
  | some header => exact .inr ⟨_, _, rfl, rfl, rfl⟩

/-- The printed text of an edit is parsed as the meant hunks. -/
theorem Edit.parse_text (fitsOld : original.length < WORD) (fitsNew : edited.length < WORD) :
    parse edit.text = .ok (hunksFrom 0 0 edit.hunks) := by
  have shorter : ∀ {bytes : List UInt8} {lines rest : List (List UInt8)},
      lines ++ rest = splitInclusive bytes → bytes.length < WORD → 0 + lines.length < WORD := by
    intro bytes lines rest whole fits
    have count := congrArg List.length whole
    rw [List.length_append, splitInclusive_eq_pieces] at count
    have most := @length_pieces_le _ newlineByte bytes
    omega
  refine parse_eq_ok.mpr ⟨?_, _, _, edit.parts,
    hunks_printed (shorter edit.old fitsOld) (shorter edit.new fitsNew)⟩
  obtain ⟨hunk, hunks, written⟩ := List.exists_cons_of_ne_nil edit.nonempty
  rw [written]
  exact List.cons_ne_nil _ _

/-- The printed text of an edit is accepted and gives the edited bytes. -/
theorem Edit.apply_text (fitsOld : original.length < WORD) (fitsNew : edited.length < WORD) :
    apply original edit.text = .ok edited := by
  refine bind_eq_ok.mpr ⟨_, edit.parse_text fitsOld fitsNew,
    applyParsed_eq_ok.mpr ⟨splitInclusive edited, ?_, ?_, ?_⟩⟩
  · rw [← edit.old, ← edit.new]
    exact fits_hunksFrom 0 0 edit.hunks edit.rest
  · rw [splitInclusive_eq_pieces]
    exact (cuts_pieces edited).closed
  · rw [splitInclusive_eq_pieces, flatten_pieces]

end Edit

end Nits.ReviewCore.Patch
