import Nits.ReviewCore.Patch.Fits

/-!
# The text of a patch

What the parser reads: headers with two ranges, bodies up to the next header, and
hunks until the lines end. Each is a relation between lines and what they mean, and
the parser accepts exactly what the relation holds of.
-/

namespace Nits.ReviewCore.Patch

open Logical ReviewCore

/-! ### Separators and numbers -/

theorem stripPrefix_append (start rest : List Char) :
    stripPrefix start (start ++ rest) = some rest := by
  rw [stripPrefix, if_pos (by simp), List.drop_left]

theorem stripPrefix_eq_some {start text rest : List Char} :
    stripPrefix start text = some rest ↔ text = start ++ rest := by
  constructor
  · intro found
    rw [stripPrefix] at found
    split at found
    next leads =>
      cases found
      obtain ⟨after, rfl⟩ := List.isPrefixOf_iff_prefix.mp leads
      rw [List.drop_left]
    next => cases found
  · rintro rfl
    exact stripPrefix_append start rest

/-- A separator is found where its first character comes first. -/
theorem splitOnce_append {first : Char} {separator before : List Char} (rest : List Char)
    (plain : first ∉ before) :
    splitOnce (first :: separator) (before ++ (first :: separator ++ rest)) =
      some (before, rest) := by
  induction before with
  | nil =>
    rw [List.nil_append, List.cons_append, splitOnce, if_pos (by simp)]
    simp
  | cons c before ih =>
    simp only [List.mem_cons, not_or] at plain
    rw [List.cons_append, splitOnce, if_neg, ih plain.2]
    · rfl
    · rw [List.isPrefixOf_iff_prefix, List.cons_prefix_cons]
      exact fun same => plain.1 same.1

theorem splitOnce_eq_some {separator text before after : List Char}
    (found : splitOnce separator text = some (before, after)) :
    text = before ++ (separator ++ after) := by
  induction text generalizing before with
  | nil =>
    rw [splitOnce] at found
    split at found
    next empty =>
      cases found
      simpa using empty
    next => cases found
  | cons c rest ih =>
    rw [splitOnce] at found
    split at found
    next leads =>
      cases found
      obtain ⟨tail, whole⟩ := List.isPrefixOf_iff_prefix.mp leads
      rw [← whole, List.drop_left]
      rfl
    next =>
      obtain ⟨⟨front, tail⟩, below, same⟩ := Option.map_eq_some_iff.mp found
      cases same
      rw [ih below]
      rfl

theorem splitOnce_eq_none {first : Char} {separator text : List Char} (plain : first ∉ text) :
    splitOnce (first :: separator) text = none := by
  cases found : splitOnce (first :: separator) text with
  | none => rfl
  | some halves =>
    refine absurd ?_ plain
    rw [splitOnce_eq_some (show _ = some (halves.1, halves.2) from found)]
    simp

/-- A number is written with digits only. -/
theorem digits_of_number {text : List Char} {value : Nat} (found : number text = some value) :
    ∀ c ∈ text, c.isDigit := by
  rw [number] at found
  split at found
  next => cases found
  next plain =>
    intro c mem
    simp only [Bool.or_eq_true, List.any_eq_true, decide_eq_true_eq, not_or, not_exists,
      not_and, not_not] at plain
    exact plain.2 c mem

/-- A decimal number is read back. -/
theorem number_toDigits {value : Nat} (fits : value < WORD) :
    number (Nat.toDigits 10 value) = some value := by
  have digits : ∀ c ∈ Nat.toDigits 10 value, c.isDigit := fun c mem =>
    Nat.isDigit_of_mem_toDigits (by omega) (by omega) mem
  have read : (Nat.toDigits 10 value).foldl
      (fun total c => total * 10 + (c.toNat - '0'.toNat)) 0 = value := by
    have back : Nat.ofDigitChars 10 (Nat.toDigits 10 value) 0 = value :=
      Nat.ofDigitChars_ten_toDigits
    rw [Nat.ofDigitChars_eq_foldl] at back
    simpa only [Nat.mul_comm] using back
  have plain : ¬ ((Nat.toDigits 10 value).isEmpty ||
      (Nat.toDigits 10 value).any fun c => ¬ c.isDigit) = true := by
    simp only [Bool.or_eq_true, List.isEmpty_iff, List.any_eq_true, decide_eq_true_eq, not_or,
      not_exists, not_and, not_not]
    exact ⟨Nat.toDigits_ne_nil, digits⟩
  rw [number, if_neg plain, read]
  simp [fits]

/-- A character of a range: a digit or the comma. -/
def rangeChar (c : Char) : Bool := c.isDigit || c = ','

/-- A start and a count as a range. -/
def HunkRange.checked (start count : Nat) : Option HunkRange := do
  let offset ← if count = 0 then some start else if start = 0 then none else some (start - 1)
  if offset + count < WORD then some ⟨offset, count⟩ else none

theorem HunkRange.parse_eq (text : List Char) :
    HunkRange.parse text =
      match splitOnce [','] text with
      | some (start, count) =>
        (number start).bind fun start => (number count).bind (HunkRange.checked start)
      | none => (number text).bind fun start => HunkRange.checked start 1 := by
  rw [HunkRange.parse]
  cases splitOnce [','] text with
  | none => cases number text <;> rfl
  | some halves =>
    cases number halves.1 with
    | none => rfl
    | some start => cases number halves.2 <;> rfl

theorem rangeChars_of_parse {text : List Char} {range : HunkRange}
    (found : HunkRange.parse text = some range) : ∀ c ∈ text, rangeChar c = true := by
  rw [HunkRange.parse_eq] at found
  split at found
  next start count halves =>
    obtain ⟨first, readFirst, rest⟩ := Option.bind_eq_some_iff.mp found
    obtain ⟨second, readSecond, -⟩ := Option.bind_eq_some_iff.mp rest
    intro c mem
    rw [splitOnce_eq_some halves] at mem
    simp only [List.cons_append, List.nil_append, List.mem_append, List.mem_cons] at mem
    rcases mem with before | rfl | after
    · simp [rangeChar, digits_of_number readFirst c before]
    · rfl
    · simp [rangeChar, digits_of_number readSecond c after]
  next =>
    obtain ⟨first, read, -⟩ := Option.bind_eq_some_iff.mp found
    intro c mem
    simp [rangeChar, digits_of_number read c mem]

/-- What a header line states: its ranges and the text after them. -/
structure Header where
  old : List Char
  new : List Char
  suffix : List Char

def Header.text (header : Header) : List Char :=
  "@@ -".toList ++ (header.old ++ (" +".toList ++ (header.new ++ (" @@".toList ++ header.suffix))))

/-- The ranges of a header are written with digits and commas. -/
structure Header.Plain (header : Header) : Prop where
  old : ∀ c ∈ header.old, rangeChar c = true
  new : ∀ c ∈ header.new, rangeChar c = true

/-- The ranges of a plain header are found. -/
theorem Header.Plain.split {header : Header} (plain : header.Plain) : splitOnce " +".toList
        (header.old ++ (" +".toList ++ (header.new ++ (" @@".toList ++ header.suffix)))) =
      some (header.old, header.new ++ (" @@".toList ++ header.suffix)) ∧
    splitOnce " @@".toList (header.new ++ (" @@".toList ++ header.suffix)) =
      some (header.new, header.suffix) := by
  constructor
  · exact splitOnce_append _ fun blank => by simpa [rangeChar] using plain.old ' ' blank
  · exact splitOnce_append _ fun blank => by simpa [rangeChar] using plain.new ' ' blank

/-- The hunk a header line opens. -/
theorem parseHeader_eq (line : List Char) :
    parseHeader line =
      match (stripPrefix "@@ -".toList line).bind fun ranges =>
        (splitOnce " +".toList ranges).bind fun (old, rest) =>
        (splitOnce " @@".toList rest).bind fun (new, suffix) =>
        if suffix ≠ [] ∧ suffix.head? ≠ some ' ' then none
        else (HunkRange.parse old).bind fun old => (HunkRange.parse new).bind fun new =>
          if old.count = 0 ∧ new.count = 0 then none
          else some (Hunk.mk (String.ofList line) old new [])
      with
      | some hunk => .ok hunk
      | none => .error (.header (String.ofList line)) := by
  rw [parseHeader]
  rfl

/-- A header is parsed exactly if it is written as one and its ranges are valid and not
both empty. -/
theorem parseHeader_eq_ok {line : List Char} {hunk : Hunk} : parseHeader line = .ok hunk ↔
      ∃ header : Header, line = header.text ∧ header.Plain ∧
        (header.suffix ≠ [] → header.suffix.head? = some ' ') ∧
        HunkRange.parse header.old = some hunk.old ∧ HunkRange.parse header.new = some hunk.new ∧
        ¬ (hunk.old.count = 0 ∧ hunk.new.count = 0) ∧ hunk.lines = [] ∧
        hunk.header = String.ofList line := by
  rw [parseHeader_eq]
  constructor
  · intro parsed
    split at parsed
    next opened found =>
      cases parsed
      obtain ⟨ranges, atStart, found⟩ := Option.bind_eq_some_iff.mp found
      obtain ⟨⟨old, rest⟩, first, found⟩ := Option.bind_eq_some_iff.mp found
      obtain ⟨⟨new, suffix⟩, second, found⟩ := Option.bind_eq_some_iff.mp found
      dsimp only at second found
      split at found
      next => cases found
      next spaced =>
        obtain ⟨oldRange, readOld, found⟩ := Option.bind_eq_some_iff.mp found
        obtain ⟨newRange, readNew, found⟩ := Option.bind_eq_some_iff.mp found
        split at found
        next => cases found
        next counted =>
          cases found
          refine ⟨⟨old, new, suffix⟩, ?_, ⟨rangeChars_of_parse readOld, rangeChars_of_parse readNew⟩,
            ?_, readOld, readNew, counted, rfl, rfl⟩
          · rw [stripPrefix_eq_some.mp atStart, splitOnce_eq_some first, splitOnce_eq_some second]
            rfl
          · intro longer
            exact Classical.not_not.mp fun other => spaced ⟨longer, other⟩
    next => cases parsed
  · rintro ⟨header, rfl, plain, spaced, readOld, readNew, counted, lines, name⟩
    obtain ⟨_, old, new, _⟩ := hunk
    dsimp only at readOld readNew counted lines name
    subst lines name
    have found := stripPrefix_append "@@ -".toList
      (header.old ++ (" +".toList ++ (header.new ++ (" @@".toList ++ header.suffix))))
    rw [show stripPrefix "@@ -".toList header.text = _ from found]
    simp only [Option.bind_some, plain.split.1, plain.split.2, readOld, readNew, if_neg counted]
    rw [if_neg (by rintro ⟨longer, other⟩; exact other (spaced longer))]

/-! ### Bodies -/

/-- A line that is a hunk header, or is taken for one. -/
def opens (line : List Char) : Bool := "@@ ".toList.isPrefixOf line

theorem head_of_opens {line : List Char} (isHeader : opens line = true) :
    line.head? = some '@' := by
  obtain ⟨after, rfl⟩ := List.isPrefixOf_iff_prefix.mp isHeader
  rfl

/-- Only a line that starts with a backslash is a no-newline marker. -/
theorem isNoNewlineMarker_head {line : List Char} (marker : isNoNewlineMarker line = true) :
    line.head? = some '\\' := by
  simp only [isNoNewlineMarker, decide_eq_true_eq] at marker
  have front : trimNewlines line <+: line := by
    rw [trimNewlines, ← List.reverse_suffix, List.reverse_reverse]
    exact List.dropWhile_suffix _
  rw [marker] at front
  obtain ⟨after, rfl⟩ := front
  rfl

/-- The source text a body line stands for. -/
def sourceText (content : List Char) (marked : Bool) : List Char :=
  if marked then content.dropLast else content

variable {content : List Char} {hunks : List Hunk}

theorem bodyLine_eq_ok {kind : LineKind} {marked : Bool} {line : BodyLine} :
    bodyLine kind content marked = .ok line ↔
      content.getLast? = some '\n' ∧ sourceText content marked ≠ [] ∧
        line = ⟨kind, utf8Bytes (String.ofList (sourceText content marked))⟩ := by
  have unfolded : bodyLine kind content marked =
      if content.getLast? ≠ some '\n' then .error .unterminatedPatchLine
      else if sourceText content marked = [] then .error .misplacedEndOfFile
      else .ok ⟨kind, utf8Bytes (String.ofList (sourceText content marked))⟩ := rfl
  rw [unfolded]
  by_cases ended : content.getLast? = some '\n'
  · rw [if_neg (not_not.mpr ended)]
    by_cases empty : sourceText content marked = []
    · simp [empty]
    · rw [if_neg empty]
      simp [ended, empty, eq_comm]
  · rw [if_pos ended]
    simp [ended]

theorem bind_eq_ok {ε α β : Type} {first : Except ε α} {next : α → Except ε β} {value : β} :
    first >>= next = .ok value ↔ ∃ middle, first = .ok middle ∧ next middle = .ok value := by
  cases first with
  | error error => simp [Bind.bind, Except.bind]
  | ok middle => simp [Bind.bind, Except.bind]

/-- A body line, and the marker after it if there is one, taken from the front. -/
theorem parseBody_cons_eq_ok {line : List Char} {rest : List (List Char)}
    {lines : List BodyLine} {remaining : List (List Char)} (body : opens line = false) :
    parseBody (line :: rest) = .ok (lines, remaining) ↔
      ∃ kind first others, lineKind line = .ok kind ∧ lines = first :: others ∧
        ((∃ marker after, rest = marker :: after ∧ isNoNewlineMarker marker = true ∧
            bodyLine kind line.tail true = .ok first ∧ parseBody after = .ok (others, remaining)) ∨
          (rest.head?.any isNoNewlineMarker = false ∧
            bodyLine kind line.tail false = .ok first ∧
            parseBody rest = .ok (others, remaining))) := by
  have unopened : ¬ "@@ ".toList.isPrefixOf line = true := by
    rw [show "@@ ".toList.isPrefixOf line = false from body]
    decide
  rw [parseBody.eq_def]
  dsimp only
  rw [if_neg unopened, bind_eq_ok]
  cases rest with
  | nil =>
    constructor
    · rintro ⟨kind, found, run⟩
      obtain ⟨first, taken, same⟩ := bind_eq_ok.mp run
      cases same
      exact ⟨kind, first, [], found, rfl, .inr ⟨rfl, taken, rfl⟩⟩
    · rintro ⟨kind, first, others, found, rfl, ⟨marker, after, none, -⟩ | ⟨-, taken, nothing⟩⟩
      · cases none
      · cases nothing
        exact ⟨kind, found, bind_eq_ok.mpr ⟨first, taken, rfl⟩⟩
  | cons marker after =>
    constructor
    · rintro ⟨kind, found, run⟩
      dsimp only at run
      split at run
      next marked =>
        obtain ⟨first, taken, run⟩ := bind_eq_ok.mp run
        obtain ⟨⟨others, last⟩, below, same⟩ := bind_eq_ok.mp run
        cases same
        exact ⟨kind, first, others, found, rfl, .inl ⟨marker, after, rfl, marked, taken, below⟩⟩
      next plain =>
        obtain ⟨first, taken, run⟩ := bind_eq_ok.mp run
        obtain ⟨⟨others, last⟩, below, same⟩ := bind_eq_ok.mp run
        cases same
        exact ⟨kind, first, others, found, rfl, .inr ⟨by simpa using plain, taken, below⟩⟩
    · rintro ⟨kind, first, others, found, rfl,
        ⟨_, _, same, marked, taken, below⟩ | ⟨plain, taken, below⟩⟩
      · cases same
        refine ⟨kind, found, ?_⟩
        dsimp only
        rw [if_pos marked]
        exact bind_eq_ok.mpr ⟨first, taken, bind_eq_ok.mpr ⟨(others, remaining), below, rfl⟩⟩
      · refine ⟨kind, found, ?_⟩
        dsimp only
        rw [if_neg (by simpa using plain)]
        exact bind_eq_ok.mpr ⟨first, taken, bind_eq_ok.mpr ⟨(others, remaining), below, rfl⟩⟩

theorem parseBody_opens {line : List Char} (isHeader : opens line = true)
    (rest : List (List Char)) : parseBody (line :: rest) = .ok ([], line :: rest) := by
  rw [parseBody.eq_def]
  dsimp only
  rw [if_pos (show "@@ ".toList.isPrefixOf line = true from isHeader)]
  rfl

/-- A body read from the lines of a patch, and the lines left from the next hunk on. -/
inductive Body : List (List Char) → List BodyLine → List (List Char) → Prop
  | stop {text : List (List Char)} (atHeader : ∀ line ∈ text.head?, opens line = true) :
      Body text [] text
  | marked {line marker : List Char} {after remaining : List (List Char)} {kind : LineKind}
      {first : BodyLine} {others : List BodyLine} (body : opens line = false)
      (signed : lineKind line = .ok kind) (marked : isNoNewlineMarker marker = true)
      (taken : bodyLine kind line.tail true = .ok first) (below : Body after others remaining) :
      Body (line :: marker :: after) (first :: others) remaining
  | plain {line : List Char} {rest remaining : List (List Char)} {kind : LineKind}
      {first : BodyLine} {others : List BodyLine} (body : opens line = false)
      (signed : lineKind line = .ok kind)
      (unmarked : ∀ marker ∈ rest.head?, isNoNewlineMarker marker = false)
      (taken : bodyLine kind line.tail false = .ok first) (below : Body rest others remaining) :
      Body (line :: rest) (first :: others) remaining

theorem body_of_parseBody {text : List (List Char)} {lines : List BodyLine}
    {remaining : List (List Char)} (parsed : parseBody text = .ok (lines, remaining)) :
    Body text lines remaining := by
  induction length : text.length using Nat.strong_induction_on generalizing text lines with
  | h size ih =>
    subst length
    cases text with
    | nil =>
      cases parsed
      exact .stop (by simp)
    | cons line rest =>
      cases isHeader : opens line with
      | true =>
        rw [parseBody_opens isHeader] at parsed
        cases parsed
        exact .stop (by simpa using isHeader)
      | false =>
        obtain ⟨kind, first, others, signed, rfl, marked | plain⟩ :=
          (parseBody_cons_eq_ok isHeader).mp parsed
        · obtain ⟨marker, after, rfl, marked, taken, below⟩ := marked
          exact .marked isHeader signed marked taken
            (ih after.length (by simp only [List.length_cons]; omega) below rfl)
        · obtain ⟨unmarked, taken, below⟩ := plain
          refine .plain isHeader signed ?_ taken (ih rest.length (by simp) below rfl)
          intro marker first
          rw [Option.mem_def.mp first] at unmarked
          exact unmarked

theorem parseBody_of_body {text : List (List Char)} {lines : List BodyLine}
    {remaining : List (List Char)} (read : Body text lines remaining) :
    parseBody text = .ok (lines, remaining) := by
  induction read with
  | @stop text atHeader =>
    cases text with
    | nil => rfl
    | cons line rest => exact parseBody_opens (atHeader line rfl) rest
  | @marked line marker after remaining kind first others body signed marked taken _
      ih =>
    exact (parseBody_cons_eq_ok body).mpr ⟨kind, first, others, signed, rfl,
      .inl ⟨marker, after, rfl, marked, taken, ih⟩⟩
  | @plain line rest remaining kind first others body signed unmarked taken _
      ih =>
    refine (parseBody_cons_eq_ok body).mpr ⟨kind, first, others, signed, rfl,
      .inr ⟨?_, taken, ih⟩⟩
    cases rest with
    | nil => rfl
    | cons marker after => exact unmarked marker rfl

/-- A body is parsed exactly as it is read. -/
theorem parseBody_eq_ok {text : List (List Char)} {lines : List BodyLine}
    {remaining : List (List Char)} :
    parseBody text = .ok (lines, remaining) ↔ Body text lines remaining :=
  ⟨body_of_parseBody, parseBody_of_body⟩

/-- What is left of a body opens the next hunk. -/
theorem Body.remaining_opens {text remaining : List (List Char)} {lines : List BodyLine}
    (read : Body text lines remaining) :
    (∀ line ∈ remaining.head?, opens line = true) ∧ remaining.length ≤ text.length := by
  induction read with
  | stop atHeader => exact ⟨atHeader, Nat.le_refl _⟩
  | marked _ _ _ _ _ ih =>
    exact ⟨ih.1, by have := ih.2; simp only [List.length_cons]; omega⟩
  | plain _ _ _ _ _ ih =>
    exact ⟨ih.1, by have := ih.2; simp only [List.length_cons]; omega⟩

/-! ### Hunks -/

/-- A line without its newline. -/
def unended (line : List Char) : List Char :=
  if line.getLast? = some '\n' then line.dropLast else line

theorem unended_append_newline (line : List Char) : unended (line ++ ['\n']) = line := by
  rw [unended, if_pos (by simp), List.dropLast_concat]

theorem validateCounts_eq_ok {hunk : Hunk} : validateCounts hunk = .ok () ↔
      (side countsOld hunk.lines).length = hunk.old.count ∧
        (side countsNew hunk.lines).length = hunk.new.count := by
  rw [validateCounts, length_side, length_side]
  split
  next wrong =>
    simp only [reduceCtorEq, false_iff]
    omega
  next right =>
    simp only [true_iff]
    omega

theorem parseHunks_cons_eq_ok {fuel : Nat} {header : List Char} {rest : List (List Char)} :
    parseHunks (fuel + 1) (header :: rest) = .ok hunks ↔
      ∃ opened lines remaining others,
        parseHeader (unended header) = .ok opened ∧ parseBody rest = .ok (lines, remaining) ∧
          validateCounts { opened with lines } = .ok () ∧
          parseHunks fuel remaining = .ok others ∧ hunks = { opened with lines } :: others := by
  rw [parseHunks, bind_eq_ok]
  constructor
  · rintro ⟨opened, found, run⟩
    obtain ⟨⟨lines, remaining⟩, body, run⟩ := bind_eq_ok.mp run
    obtain ⟨⟨⟩, counted, run⟩ := bind_eq_ok.mp run
    obtain ⟨others, below, same⟩ := bind_eq_ok.mp run
    cases same
    exact ⟨opened, lines, remaining, others, found, body, counted, below, rfl⟩
  · rintro ⟨opened, lines, remaining, others, found, body, counted, below, rfl⟩
    exact ⟨opened, found, bind_eq_ok.mpr ⟨(lines, remaining), body,
      bind_eq_ok.mpr ⟨(), counted, bind_eq_ok.mpr ⟨others, below, rfl⟩⟩⟩⟩

theorem parseHunks_nil (fuel : Nat) : parseHunks fuel [] = .ok [] := by
  cases fuel <;> rfl

/-- Hunks read from the lines of a patch. -/
inductive Hunks : List (List Char) → List Hunk → Prop
  | nil : Hunks [] []
  | cons {header : List Char} {rest remaining : List (List Char)} {opened : Hunk}
      {lines : List BodyLine} {others : List Hunk}
      (opening : parseHeader (unended header) = .ok opened) (body : Body rest lines remaining)
      (counted : validateCounts { opened with lines } = .ok ()) (below : Hunks remaining others) :
      Hunks (header :: rest) ({ opened with lines } :: others)

/-- Hunks are parsed exactly as they are read. -/
theorem parseHunks_eq_ok {fuel : Nat} {text : List (List Char)} (enough : text.length ≤ fuel) :
    parseHunks fuel text = .ok hunks ↔ Hunks text hunks := by
  constructor
  · intro parsed
    induction fuel generalizing text hunks with
    | zero =>
      obtain rfl : text = [] := List.eq_nil_of_length_eq_zero (Nat.le_zero.mp enough)
      cases parsed
      exact .nil
    | succ fuel ih =>
      cases text with
      | nil =>
        cases parsed
        exact .nil
      | cons header rest =>
        obtain ⟨opened, lines, remaining, others, opening, body, counted, below, rfl⟩ :=
          parseHunks_cons_eq_ok.mp parsed
        have read := parseBody_eq_ok.mp body
        have shorter := read.remaining_opens.2
        rw [List.length_cons] at enough
        exact .cons opening read counted (ih (by omega) below)
  · intro read
    induction read generalizing fuel with
    | nil => exact parseHunks_nil fuel
    | @cons header rest remaining opened lines others opening body counted _ ih =>
      have shorter := body.remaining_opens.2
      rw [List.length_cons] at enough
      obtain ⟨fuel, rfl⟩ : ∃ less, fuel = less + 1 := ⟨fuel - 1, by omega⟩
      exact parseHunks_cons_eq_ok.mpr ⟨opened, lines, remaining, others, opening,
        parseBody_eq_ok.mpr body, counted, ih (by omega), rfl⟩

theorem Header.text_suffix (header : Header) (more : List Char) :
    Header.text { header with suffix := header.suffix ++ more } = header.text ++ more := by
  change "@@ -".toList ++ (header.old ++ (" +".toList ++ (header.new ++
      (" @@".toList ++ (header.suffix ++ more))))) =
    "@@ -".toList ++ (header.old ++ (" +".toList ++ (header.new ++
      (" @@".toList ++ header.suffix)))) ++ more
  simp only [List.append_assoc]

/-- A header up to its closing mark. -/
def Header.front (header : Header) : List Char :=
  "@@ -".toList ++ header.old ++ " +".toList ++ header.new

def Header.back (header : Header) : List Char := " @@".toList ++ header.suffix

theorem Header.back_ne_nil (header : Header) : header.back ≠ [] :=
  List.append_ne_nil_of_left_ne_nil (by decide) _

theorem Header.text_eq (header : Header) : header.text = header.front ++ header.back := by
  change "@@ -".toList ++ (header.old ++ (" +".toList ++ (header.new ++
      (" @@".toList ++ header.suffix)))) =
    "@@ -".toList ++ header.old ++ " +".toList ++ header.new ++ (" @@".toList ++ header.suffix)
  simp only [List.append_assoc]

/-- The last character of a header is in its closing mark or after it. -/
theorem Header.getLast?_text (header : Header) : header.text.getLast? = header.back.getLast? := by
  rw [Header.text_eq, List.getLast?_append_of_ne_nil _ header.back_ne_nil]

theorem Header.opens_text (header : Header) : opens header.text = true := rfl

theorem isPiece_cons_iff {c : Char} (quiet : newlineChar c = false) :
    IsPiece newlineChar (c :: content) ↔ content = [] ∨ IsPiece newlineChar content := by
  by_cases single : content = []
  · subst single
    simp [isPiece_singleton]
  · constructor
    · exact fun isPiece => .inr (isPiece.not_closed_tail single).2
    · rintro (none | isPiece)
      · exact absurd none single
      · exact isPiece_cons quiet isPiece

theorem closed_cons_iff {c : Char} (quiet : newlineChar c = false) :
    Closed newlineChar (c :: content) ↔ Closed newlineChar content := by
  constructor
  · rintro ⟨last, found, stops⟩
    cases content with
    | nil =>
      rw [List.getLast?_singleton, Option.some_inj] at found
      rw [← found, quiet] at stops
      cases stops
    | cons second rest => exact ⟨last, by rwa [List.getLast?_cons_cons] at found, stops⟩
  · exact closed_cons

/-! ### Patches -/

/-- Whether the lines start with a file-header pair, or the first half of one. -/
def named (lines : List (List Char)) : Bool :=
  lines.head?.any fun line => "--- ".toList.isPrefixOf line

/-- The lines of a patch cut after its file-header pair. -/
structure Parts (patch : String) (first body : List (List Char)) : Prop where
  lines : splitLines patch.toList = first ++ body
  heading : (named (first ++ body) = false ∧ first = []) ∨
    ∃ old new, first = [old, new] ∧ "--- ".toList.isPrefixOf old = true ∧
      "+++ ".toList.isPrefixOf new = true

/-- The lines after the file-header pair. -/
def bodyOf (lines : List (List Char)) : Except PatchError (List (List Char)) :=
  if named lines then
    if lines.tail.head?.any fun line => "+++ ".toList.isPrefixOf line then .ok lines.tail.tail
    else .error (.header "expected +++ file header")
  else .ok lines

theorem bodyOf_eq_ok {patch : String} {body : List (List Char)} :
    bodyOf (splitLines patch.toList) = .ok body ↔ ∃ first, Parts patch first body := by
  generalize whole : splitLines patch.toList = lines
  rw [bodyOf]
  constructor
  · intro found
    split at found
    next isNamed =>
      split at found
      next paired =>
        cases found
        match lines, isNamed, paired with
        | old :: new :: rest, isNamed, paired =>
          exact ⟨[old, new], whole, .inr ⟨old, new, rfl, isNamed, paired⟩⟩
      next => cases found
    next unnamed =>
      cases found
      exact ⟨[], whole, .inl ⟨by simpa using unnamed, rfl⟩⟩
  · rintro ⟨first, cut, ⟨unnamed, rfl⟩ | ⟨old, new, rfl, isNamed, paired⟩⟩
    · rw [← whole, cut, if_neg (by rw [unnamed]; decide)]
      rfl
    · rw [← whole, cut]
      rw [if_pos (show named ([old, new] ++ body) = true from isNamed), if_pos (by exact paired)]
      rfl

/-- A patch is parsed from its lines after the file-header pair. -/
theorem parse_eq_ok {patch : String} : parse patch = .ok hunks ↔
      hunks ≠ [] ∧ ∃ first body, Parts patch first body ∧ Hunks body hunks := by
  have unfolded : parse patch = bodyOf (splitLines patch.toList) >>= fun body =>
      parseHunks body.length body >>= fun hunks =>
        if hunks = [] then .error .empty else .ok hunks := by
    rw [parse, bodyOf]
    unfold named
    split
    · split <;> rfl
    · rfl
  rw [unfolded, bind_eq_ok]
  constructor
  · rintro ⟨body, cut, run⟩
    obtain ⟨hunks, parsed, last⟩ := bind_eq_ok.mp run
    split at last
    next => cases last
    next some =>
      cases last
      obtain ⟨first, parts⟩ := bodyOf_eq_ok.mp cut
      exact ⟨some, first, body, parts, (parseHunks_eq_ok (Nat.le_refl _)).mp parsed⟩
  · rintro ⟨some, first, body, parts, parsed⟩
    refine ⟨body, bodyOf_eq_ok.mpr ⟨first, parts⟩,
      bind_eq_ok.mpr ⟨hunks, (parseHunks_eq_ok (Nat.le_refl _)).mpr parsed, ?_⟩⟩
    rw [if_neg some]

end Nits.ReviewCore.Patch
