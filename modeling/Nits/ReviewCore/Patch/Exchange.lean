import Nits.ReviewCore.Patch.Text

/-!
# Patches read backwards

Exchanging added and removed lines, and the two ranges of every header, turns a
patch into the patch back. This is done on its lines; what they are parsed as is
exchanged with them.
-/

namespace Nits.ReviewCore.Patch

open Logical ReviewCore

/-- A header line with its ranges exchanged. -/
def exchangeHeader (line : List Char) : List Char :=
  match stripPrefix "@@ -".toList line with
  | none => line
  | some ranges =>
    match splitOnce " +".toList ranges with
    | none => line
    | some (old, rest) =>
      match splitOnce " @@".toList rest with
      | none => line
      | some (new, suffix) =>
        "@@ -".toList ++ (new ++ (" +".toList ++ (old ++ (" @@".toList ++ suffix))))

/-- A line of a patch with the sides exchanged: added for removed, removed for added,
and the ranges of a header. -/
def exchangeLine (line : List Char) : List Char :=
  if "@@ ".toList.isPrefixOf line then exchangeHeader line
  else
    match line with
    | '-' :: content => '+' :: content
    | '+' :: content => '-' :: content
    | _ => line

/-- A patch with the sides exchanged. A file-header pair stays as it is. -/
def exchangePatch (patch : String) : String :=
  let lines := splitLines patch.toList
  let exchanged :=
    if named lines then lines.take 2 ++ (lines.drop 2).map exchangeLine else lines.map exchangeLine
  String.ofList exchanged.flatten

def Header.exchange (header : Header) : Header := ⟨header.new, header.old, header.suffix⟩

theorem Header.Plain.exchange {header : Header} (plain : header.Plain) : header.exchange.Plain :=
  ⟨plain.new, plain.old⟩

theorem exchangeHeader_text {header : Header} (plain : header.Plain) :
    exchangeHeader header.text = header.exchange.text := by
  rw [exchangeHeader, show stripPrefix "@@ -".toList header.text = _ from stripPrefix_append _ _]
  dsimp only
  rw [plain.split.1]
  dsimp only
  rw [plain.split.2]
  rfl

/-- What exchanging does to a line. -/
inductive Exchange (line : List Char) : List Char → Prop
  | header (isHeader : opens line = true) : Exchange line (exchangeHeader line)
  | remove {content : List Char} (written : line = '-' :: content) : Exchange line ('+' :: content)
  | add {content : List Char} (written : line = '+' :: content) : Exchange line ('-' :: content)
  | other (body : opens line = false) (notRemoved : line.head? ≠ some '-')
      (notAdded : line.head? ≠ some '+') : Exchange line line

theorem exchange_exchangeLine (line : List Char) : Exchange line (exchangeLine line) := by
  by_cases isHeader : opens line = true
  · have same : exchangeLine line = exchangeHeader line := if_pos isHeader
    rw [same]
    exact .header isHeader
  · have body : opens line = false := by simpa using isHeader
    rcases line with _ | ⟨c, content⟩
    · exact .other rfl (by simp) (by simp)
    · by_cases removed : c = '-'
      · subst removed
        exact .remove rfl
      · by_cases added : c = '+'
        · subst added
          exact .add rfl
        · have same : exchangeLine (c :: content) = c :: content := by
            unfold exchangeLine
            rw [if_neg (show ¬ "@@ ".toList.isPrefixOf (c :: content) = true from isHeader)]
            split
            next first => exact absurd (List.cons.inj first).1 removed
            next first => exact absurd (List.cons.inj first).1 added
            next => rfl
          rw [same]
          exact .other body (by simpa using removed) (by simpa using added)

variable {line : List Char}

theorem exchangeLine_header (isHeader : opens line = true) :
    exchangeLine line = exchangeHeader line := if_pos isHeader

theorem opens_exchangeHeader (isHeader : opens line = true) :
    opens (exchangeHeader line) = true := by
  rw [exchangeHeader]
  split
  · exact isHeader
  · split
    · exact isHeader
    · split
      · exact isHeader
      · rfl

theorem opens_exchangeLine (line : List Char) : opens (exchangeLine line) = opens line := by
  have exchange := exchange_exchangeLine line
  generalize exchangeLine line = back at exchange
  cases exchange with
  | header isHeader => rw [isHeader, opens_exchangeHeader isHeader]
  | remove written => rw [written]; rfl
  | add written => rw [written]; rfl
  | other => rfl

theorem isNoNewlineMarker_exchangeLine (line : List Char) :
    isNoNewlineMarker (exchangeLine line) = isNoNewlineMarker line := by
  have other : ∀ {text : List Char}, text.head? ≠ some '\\' → isNoNewlineMarker text = false :=
    fun head => Bool.eq_false_iff.mpr fun marker => head (isNoNewlineMarker_head marker)
  have exchange := exchange_exchangeLine line
  generalize exchangeLine line = back at exchange
  cases exchange with
  | header isHeader =>
    rw [other (by rw [head_of_opens (opens_exchangeHeader isHeader)]; decide),
      other (by rw [head_of_opens isHeader]; decide)]
  | remove written => rw [written, other (by simp), other (by simp)]
  | add written => rw [written, other (by simp), other (by simp)]
  | other => rfl

/-- The kind of an exchanged body line, and its content. -/
theorem lineKind_exchangeLine {kind : LineKind} (found : lineKind line = .ok kind) :
    lineKind (exchangeLine line) = .ok kind.exchange ∧ (exchangeLine line).tail = line.tail := by
  have exchange := exchange_exchangeLine line
  generalize exchangeLine line = back at exchange
  cases exchange with
  | header isHeader =>
    simp only [lineKind, head_of_opens isHeader] at found
    cases found
  | remove written =>
    subst written
    cases found
    exact ⟨rfl, rfl⟩
  | add written =>
    subst written
    cases found
    exact ⟨rfl, rfl⟩
  | other _ notRemoved notAdded =>
    refine ⟨?_, rfl⟩
    rw [found]
    unfold lineKind at found
    split at found
    next =>
      cases found
      rfl
    next head => exact absurd head notRemoved
    next head => exact absurd head notAdded
    next => cases found

theorem bodyLine_exchange {kind : LineKind} {content : List Char} {marked : Bool} {line : BodyLine}
    (found : bodyLine kind content marked = .ok line) :
    bodyLine kind.exchange content marked = .ok line.exchange := by
  obtain ⟨ended, nonempty, rfl⟩ := bodyLine_eq_ok.mp found
  exact bodyLine_eq_ok.mpr ⟨ended, nonempty, rfl⟩

/-- An exchanged body is read as the exchange of the body. -/
theorem Body.exchange {text remaining : List (List Char)} {lines : List BodyLine}
    (read : Body text lines remaining) :
    Body (text.map exchangeLine) (lines.map BodyLine.exchange) (remaining.map exchangeLine) := by
  induction read with
  | @stop text atHeader =>
    refine .stop ?_
    intro line first
    rw [List.head?_map] at first
    obtain ⟨before, found, rfl⟩ := Option.map_eq_some_iff.mp first
    rw [opens_exchangeLine]
    exact atHeader before found
  | @marked line marker _ _ _ _ _ body signed marked taken _ ih =>
    have back := lineKind_exchangeLine signed
    refine .marked (by rw [opens_exchangeLine, body]) back.1 ?_ ?_ ih
    · rw [isNoNewlineMarker_exchangeLine, marked]
    · rw [back.2]
      exact bodyLine_exchange taken
  | @plain line rest _ _ _ _ body signed unmarked taken _ ih =>
    have back := lineKind_exchangeLine signed
    refine .plain (by rw [opens_exchangeLine, body]) back.1 ?_ ?_ ih
    · intro marker first
      rw [List.head?_map] at first
      obtain ⟨before, found, rfl⟩ := Option.map_eq_some_iff.mp first
      rw [isNoNewlineMarker_exchangeLine]
      exact unmarked before found
    · rw [back.2]
      exact bodyLine_exchange taken

theorem Header.mem_front_exchange {header : Header} {c : Char} :
    c ∈ header.exchange.front ↔ c ∈ header.front := by
  change c ∈ "@@ -".toList ++ header.new ++ " +".toList ++ header.old ↔
    c ∈ "@@ -".toList ++ header.old ++ " +".toList ++ header.new
  simp only [List.mem_append]
  tauto

/-- An exchanged header is parsed as the exchange of the header. -/
theorem parseHeader_exchange {hunk : Hunk} (parsed : parseHeader (unended line) = .ok hunk) :
    opens line = true ∧ ∃ name,
      parseHeader (unended (exchangeLine line)) = .ok ⟨name, hunk.new, hunk.old, []⟩ := by
  obtain ⟨header, written, plain, spaced, readOld, readNew, counted, -, -⟩ :=
    parseHeader_eq_ok.mp parsed
  have opened : parseHeader header.exchange.text =
      .ok ⟨String.ofList header.exchange.text, hunk.new, hunk.old, []⟩ :=
    parseHeader_eq_ok.mpr ⟨header.exchange, rfl, plain.exchange, spaced, readNew, readOld,
      fun both => counted ⟨both.2, both.1⟩, rfl, rfl⟩
  by_cases ended : line.getLast? = some '\n'
  · rw [unended, if_pos ended] at written
    have whole : line = Header.text { header with suffix := header.suffix ++ ['\n'] } := by
      rw [Header.text_suffix, ← written]
      exact (List.dropLast_append_getLast? _ ended).symm
    have back : exchangeLine line = header.exchange.text ++ ['\n'] := by
      have longer : Header.Plain { header with suffix := header.suffix ++ ['\n'] } :=
        ⟨plain.old, plain.new⟩
      rw [whole, exchangeLine_header (Header.opens_text _), exchangeHeader_text longer]
      exact Header.text_suffix header.exchange ['\n']
    refine ⟨by rw [whole]; exact Header.opens_text _, String.ofList header.exchange.text, ?_⟩
    rw [back, unended_append_newline]
    exact opened
  · rw [unended, if_neg ended] at written
    have back : exchangeLine line = header.exchange.text := by
      rw [written, exchangeLine_header header.opens_text, exchangeHeader_text plain]
    refine ⟨by rw [written]; exact header.opens_text, String.ofList header.exchange.text, ?_⟩
    rw [back, unended, if_neg]
    · exact opened
    · rw [Header.getLast?_text]
      rwa [written, Header.getLast?_text] at ended

theorem Hunks.exchange {text : List (List Char)} {hunks : List Hunk} (read : Hunks text hunks) :
    ∃ back, Hunks (text.map exchangeLine) back ∧ Exchanged hunks back := by
  induction read with
  | nil => exact ⟨[], .nil, .nil⟩
  | @cons header rest remaining opened lines others opening body counted _ ih =>
    obtain ⟨-, name, openingBack⟩ := parseHeader_exchange opening
    obtain ⟨back, below, exchanged⟩ := ih
    have sides := side_exchange lines
    refine ⟨_, .cons openingBack body.exchange ?_ below, .cons ⟨name, rfl⟩ exchanged⟩
    rw [validateCounts_eq_ok] at counted ⊢
    dsimp only at counted ⊢
    rw [sides.1, sides.2]
    exact ⟨counted.2, counted.1⟩

/-- What is found in a header line that can be exchanged. -/
theorem exchangeHeader_cases (line : List Char) : exchangeHeader line = line ∨
      ∃ header : Header, line = header.text ∧ exchangeHeader line = header.exchange.text := by
  rw [exchangeHeader]
  split
  · exact .inl rfl
  next ranges start =>
    split
    · exact .inl rfl
    next old rest first =>
      split
      · exact .inl rfl
      next new suffix second =>
        refine .inr ⟨⟨old, new, suffix⟩, ?_, rfl⟩
        rw [stripPrefix_eq_some.mp start, splitOnce_eq_some first, splitOnce_eq_some second]
        rfl

/-- An exchanged line is a line, and ended if the line was. -/
theorem isPiece_exchangeLine (isPiece : IsPiece newlineChar line) :
    IsPiece newlineChar (exchangeLine line) ∧
      (Closed newlineChar line → Closed newlineChar (exchangeLine line)) := by
  have exchange := exchange_exchangeLine line
  generalize exchangeLine line = back at exchange
  cases exchange with
  | header =>
    rcases exchangeHeader_cases line with same | ⟨header, rfl, same⟩
    · rw [same]
      exact ⟨isPiece, id⟩
    · have sameEnd : header.exchange.back = header.back := rfl
      rw [Header.text_eq, isPiece_append_iff header.back_ne_nil] at isPiece
      rw [same, Header.text_eq, Header.text_eq, sameEnd, isPiece_append_iff header.back_ne_nil,
        closed_append_iff header.back_ne_nil, closed_append_iff header.back_ne_nil]
      exact ⟨⟨fun x mem => isPiece.1 x (Header.mem_front_exchange.mp mem), isPiece.2⟩, id⟩
  | remove written =>
    rw [written, isPiece_cons_iff (by decide)] at isPiece
    rw [written, isPiece_cons_iff (by decide), closed_cons_iff (by decide),
      closed_cons_iff (by decide)]
    exact ⟨isPiece, id⟩
  | add written =>
    rw [written, isPiece_cons_iff (by decide)] at isPiece
    rw [written, isPiece_cons_iff (by decide), closed_cons_iff (by decide),
      closed_cons_iff (by decide)]
    exact ⟨isPiece, id⟩
  | other => exact ⟨isPiece, id⟩

/-- Exchanging lines of a patch after the first ones gives lines. -/
theorem cuts_exchange {first rest : List (List Char)} (cuts : Cuts newlineChar (first ++ rest)) :
    Cuts newlineChar (first ++ rest.map exchangeLine) := by
  refine cuts.replace (List.rel_append ?_ ?_)
  · exact List.forall₂_same.mpr fun line _ isPiece => ⟨isPiece, id⟩
  · exact List.forall₂_map_right_iff.mpr
      (List.forall₂_same.mpr fun line _ isPiece => isPiece_exchangeLine isPiece)

/-- The lines of an exchanged patch. -/
theorem splitLines_exchangePatch {patch : String} {first body : List (List Char)}
    (parts : Parts patch first body) :
    splitLines (exchangePatch patch).toList = first ++ body.map exchangeLine := by
  have cuts : Cuts newlineChar (first ++ body) := by
    rw [← parts.lines, splitLines_eq_pieces]
    exact cuts_pieces _
  have shape : exchangePatch patch = String.ofList (first ++ body.map exchangeLine).flatten := by
    rw [exchangePatch, parts.lines]
    rcases parts.heading with ⟨unnamed, rfl⟩ | ⟨old, new, rfl, isNamed, -⟩
    · rw [if_neg (show ¬ named ([] ++ body) = true by rw [unnamed]; decide)]
      rfl
    · rw [if_pos (show named ([old, new] ++ body) = true from isNamed)]
      rfl
  rw [shape, String.toList_ofList, splitLines_eq_pieces, pieces_flatten (cuts_exchange cuts)]

/-- An exchanged patch is parsed as the exchange of its hunks. -/
theorem parse_exchange {patch : String} {hunks : List Hunk} (parsed : parse patch = .ok hunks) :
    ∃ back, parse (exchangePatch patch) = .ok back ∧ Exchanged hunks back := by
  obtain ⟨some, first, body, parts, parsed⟩ := parse_eq_ok.mp parsed
  obtain ⟨back, parsedBack, exchanged⟩ := parsed.exchange
  refine ⟨back, parse_eq_ok.mpr ⟨?_, first, body.map exchangeLine, ⟨?_, ?_⟩, ?_⟩, exchanged⟩
  · rintro rfl
    cases exchanged
    exact some rfl
  · exact splitLines_exchangePatch parts
  · rcases parts.heading with ⟨unnamed, rfl⟩ | paired
    · refine .inl ⟨?_, rfl⟩
      cases body with
      | nil => rfl
      | cons header rest =>
        cases parsed with
        | cons found =>
        have isHeader := (parseHeader_exchange found).1
        rw [← opens_exchangeLine] at isHeader
        obtain ⟨after, same⟩ := List.isPrefixOf_iff_prefix.mp isHeader
        rw [List.nil_append, List.map_cons, ← same]
        rfl
    · exact .inr paired
  · exact parsedBack

end Nits.ReviewCore.Patch
