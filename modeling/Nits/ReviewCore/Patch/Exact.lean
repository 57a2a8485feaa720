import Nits.ReviewCore.Patch.Exchange
import Nits.ReviewCore.Patch.Print

/-!
# Patches apply exactly

An edit cut into hunks is a sequence of untouched lines and edited ones. The text
printed for it is accepted and gives the edited bytes; and a patch that is accepted
is accepted backwards and gives the original bytes.
-/

namespace Nits.ReviewCore.Patch

open Logical ReviewCore

/-! ### Lines as bytes -/

theorem utf8Bytes_ofList (text : List Char) :
    utf8Bytes (String.ofList text) = text.flatMap String.utf8EncodeChar := by
  rw [utf8Bytes, String.toByteArray_ofList]
  simp [List.utf8Encode]

/-- Only a newline is encoded with a newline byte. -/
theorem newlineByte_utf8EncodeChar {c : Char} (other : newlineChar c = false) :
    ∀ byte ∈ String.utf8EncodeChar c, newlineByte byte = false := by
  have code : c.val.toNat ≠ 10 := by
    intro same
    have newline : c = '\n' := Char.ext (UInt32.toNat_inj.mp same)
    rw [newline] at other
    cases other
  have small := c.val.toNat_lt
  have plain : ∀ value : Nat, value % 256 ≠ 10 → newlineByte (UInt8.ofNat value) = false := by
    intro value differs
    simp only [newlineByte, decide_eq_false_iff_not]
    intro same
    have values := congrArg UInt8.toNat same
    simp only [UInt8.toNat_ofNat', UInt8.reduceToNat] at values
    omega
  intro byte mem
  simp only [String.utf8EncodeChar] at mem
  split at mem
  · rw [List.mem_singleton.mp mem]
    exact plain _ (by omega)
  · split at mem
    · simp only [List.mem_cons, List.not_mem_nil, or_false] at mem
      rcases mem with rfl | rfl <;> exact plain _ (by omega)
    · split at mem
      · simp only [List.mem_cons, List.not_mem_nil, or_false] at mem
        rcases mem with rfl | rfl | rfl <;> exact plain _ (by omega)
      · simp only [List.mem_cons, List.not_mem_nil, or_false] at mem
        rcases mem with rfl | rfl | rfl | rfl <;> exact plain _ (by omega)

/-- The bytes of a line are a line. -/
theorem isPiece_utf8Bytes {text : List Char} (isPiece : IsPiece newlineChar text) :
    IsPiece newlineByte (utf8Bytes (String.ofList text)) := by
  have quiet : ∀ byte ∈ text.dropLast.flatMap String.utf8EncodeChar, newlineByte byte = false := by
    intro byte mem
    obtain ⟨c, before, encoded⟩ := List.mem_flatMap.mp mem
    exact newlineByte_utf8EncodeChar (isPiece.inside c before) byte encoded
  have whole := List.dropLast_append_getLast isPiece.nonempty
  generalize text.getLast isPiece.nonempty = last at whole
  rw [utf8Bytes_ofList, ← whole, List.flatMap_append, List.flatMap_singleton]
  rw [isPiece_append_iff String.utf8EncodeChar_ne_nil]
  refine ⟨quiet, String.utf8EncodeChar_ne_nil, ?_⟩
  by_cases stops : newlineChar last = true
  · have newline : last = '\n' := by simpa [newlineChar] using stops
    subst newline
    intro byte mem
    cases mem
  · intro byte mem
    exact newlineByte_utf8EncodeChar (by simpa using stops) byte
      ((List.dropLast_sublist _).subset mem)

/-- The source text of a body line is a line. -/
theorem isPiece_sourceText {line : List Char} {marked : Bool} (isPiece : IsPiece newlineChar line)
    (nonempty : sourceText line.tail marked ≠ []) :
    IsPiece newlineChar (sourceText line.tail marked) := by
  cases line with
  | nil => exact absurd rfl isPiece.nonempty
  | cons c content =>
    rw [List.tail_cons] at nonempty ⊢
    have longer : content ≠ [] := by
      rintro rfl
      cases marked <;> exact nonempty rfl
    have inner := (isPiece.not_closed_tail longer).2
    cases marked with
    | false => exact inner
    | true =>
      exact ⟨nonempty, fun x mem => inner.inside x ((List.dropLast_sublist _).subset mem)⟩

/-- The lines of a body are lines of a text. -/
theorem Body.isPiece {text remaining : List (List Char)} {lines : List BodyLine}
    (read : Body text lines remaining) (pieces : ∀ line ∈ text, IsPiece newlineChar line) :
    (∀ line ∈ lines, IsPiece newlineByte line.bytes) ∧
      ∀ line ∈ remaining, IsPiece newlineChar line := by
  induction read with
  | stop => exact ⟨by simp, pieces⟩
  | @marked line marker after _ _ first others _ _ _ taken _ ih =>
    obtain ⟨-, nonempty, rfl⟩ := bodyLine_eq_ok.mp taken
    obtain ⟨below, rest⟩ := ih fun other mem => pieces other (by simp [mem])
    refine ⟨fun other mem => ?_, rest⟩
    rcases List.mem_cons.mp mem with rfl | later
    · exact isPiece_utf8Bytes (isPiece_sourceText (pieces line (by simp)) nonempty)
    · exact below other later
  | @plain line rest _ _ first others _ _ _ taken _ ih =>
    obtain ⟨-, nonempty, rfl⟩ := bodyLine_eq_ok.mp taken
    obtain ⟨below, rest⟩ := ih fun other mem => pieces other (by simp [mem])
    refine ⟨fun other mem => ?_, rest⟩
    rcases List.mem_cons.mp mem with rfl | later
    · exact isPiece_utf8Bytes (isPiece_sourceText (pieces line (by simp)) nonempty)
    · exact below other later

theorem Hunks.isPiece {text : List (List Char)} {hunks : List Hunk} (read : Hunks text hunks)
    (pieces : ∀ line ∈ text, IsPiece newlineChar line) :
    ∀ hunk ∈ hunks, ∀ line ∈ hunk.lines, IsPiece newlineByte line.bytes := by
  induction read with
  | nil => simp
  | @cons header rest _ opened lines others _ body _ _ ih =>
    obtain ⟨within, remaining⟩ := body.isPiece fun line mem => pieces line (by simp [mem])
    intro hunk mem
    rcases List.mem_cons.mp mem with rfl | later
    · exact within
    · exact ih remaining hunk later

/-- The lines of a parsed patch are lines of a text. -/
theorem isPiece_of_parse {patch : String} {hunks : List Hunk} (parsed : parse patch = .ok hunks) :
    ∀ hunk ∈ hunks, ∀ line ∈ hunk.lines, IsPiece newlineByte line.bytes := by
  obtain ⟨-, first, body, parts, read⟩ := parse_eq_ok.mp parsed
  refine read.isPiece fun line mem => ?_
  have cuts : Cuts newlineChar (first ++ body) := by
    rw [← parts.lines, splitLines_eq_pieces]
    exact cuts_pieces _
  exact cuts.isPiece line (List.mem_append_right _ mem)

/-- Fitting hunks with lines turn lines into lines. -/
theorem Fits.isPiece {o n : Nat} {hunks : List Hunk} {old new : List (List UInt8)}
    (fits : Fits o n hunks old new) (oldPieces : ∀ line ∈ old, IsPiece newlineByte line)
    (added : ∀ hunk ∈ hunks, ∀ line ∈ hunk.lines, IsPiece newlineByte line.bytes) :
    ∀ line ∈ new, IsPiece newlineByte line := by
  induction fits with
  | done => exact oldPieces
  | @hunk _ _ hunks old new hunk untouched _ _ _ ih =>
    intro line mem
    rcases List.mem_append.mp mem with before | mem
    · exact oldPieces line (List.mem_append_left _ before)
    · rcases List.mem_append.mp mem with within | after
      · obtain ⟨body, inside, rfl⟩ := List.mem_map.mp within
        exact added hunk (by simp) body (List.mem_filter.mp inside).1
      · refine ih (fun line mem => oldPieces line ?_)
          (fun other mem => added other (by simp [mem])) line after
        exact List.mem_append_right _ (List.mem_append_right _ mem)

section Accepted

variable {original result : List UInt8} {patch : String}

/-- The result of an accepted patch has exactly the untouched lines and the new lines of
the hunks. -/
theorem fits_of_apply (applied : apply original patch = .ok result) :
    ∃ hunks, parse patch = .ok hunks ∧
      Fits 0 0 hunks (splitInclusive original) (splitInclusive result) := by
  obtain ⟨hunks, parsed, run⟩ := bind_eq_ok.mp applied
  obtain ⟨new, fits, closed, rfl⟩ := applyParsed_eq_ok.mp run
  have oldCuts : Cuts newlineByte (splitInclusive original) := by
    rw [splitInclusive_eq_pieces]
    exact cuts_pieces original
  have newCuts : Cuts newlineByte new :=
    ⟨fits.isPiece oldCuts.isPiece (isPiece_of_parse parsed), closed⟩
  refine ⟨hunks, parsed, ?_⟩
  rw [splitInclusive_eq_pieces new.flatten, pieces_flatten newCuts]
  exact fits

/-- An accepted patch is accepted backwards, and gives the original back. -/
theorem apply_exchange (applied : apply original patch = .ok result) :
    apply result (exchangePatch patch) = .ok original := by
  obtain ⟨hunks, parsed, fits⟩ := fits_of_apply applied
  obtain ⟨back, parsedBack, exchanged⟩ := parse_exchange parsed
  refine bind_eq_ok.mpr ⟨back, parsedBack, applyParsed_eq_ok.mpr
    ⟨splitInclusive original, fits.exchange exchanged, ?_, ?_⟩⟩
  · rw [splitInclusive_eq_pieces]
    exact (cuts_pieces original).closed
  · rw [splitInclusive_eq_pieces, flatten_pieces]

end Accepted

/-- Patches apply exactly or not at all. The diff text of every edit, however it is cut
into hunks, is accepted and gives the edited bytes. Whatever patch is accepted has turned
lines into lines, and exchanging its sides gives the original back. A byte string in
memory has fewer bytes than a word counts. -/
theorem apply_exact (original : List UInt8) :
    (∀ (edited : List UInt8) (edit : Edit original edited),
        original.length < WORD → edited.length < WORD →
        apply original edit.text = .ok edited) ∧
      ∀ (patch : String) (result : List UInt8), apply original patch = .ok result →
        apply result (exchangePatch patch) = .ok original ∧
          ∃ hunks, parse patch = .ok hunks ∧
            Fits 0 0 hunks (splitInclusive original) (splitInclusive result) := by
  constructor
  · intro edited edit fitsOld fitsNew
    exact edit.apply_text fitsOld fitsNew
  · intro patch result applied
    exact ⟨apply_exchange applied, fits_of_apply applied⟩

/-- An edit of the unterminated last line, with one line of context. -/
def lastLineEdit : Edit (utf8Bytes "a\nb") (utf8Bytes "a\né\r\nc") where
  hunks := [{
    untouched := []
    lines := [
      ⟨.context, "a\n".toList, by decide, by simp [newlineChar]⟩,
      ⟨.remove, "b".toList, by decide, by simp [newlineChar]⟩,
      ⟨.add, "é\r\n".toList, by decide, by simp [newlineChar]⟩,
      ⟨.add, "c".toList, by decide, by simp [newlineChar]⟩]
    nonempty := by decide
    shortOld := false
    shortNew := true
    suffix := []
    plain := by simp [newlineChar]
    spaced := by decide }]
  nonempty := by decide
  rest := []
  old := by decide
  new := by decide
  fileHeader := none

/-- The last line is edited. -/
theorem apply_exact_lastLine :
    apply (utf8Bytes "a\nb") lastLineEdit.text = .ok (utf8Bytes "a\né\r\nc") ∧
      apply (utf8Bytes "a\né\r\nc") (exchangePatch lastLineEdit.text) =
        .ok (utf8Bytes "a\nb") := by
  have accepted := (apply_exact (utf8Bytes "a\nb")).1 _ lastLineEdit (by decide) (by decide)
  exact ⟨accepted, ((apply_exact (utf8Bytes "a\nb")).2 _ _ accepted).1⟩

end Nits.ReviewCore.Patch
