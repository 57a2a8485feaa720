import Nits.Logical.Pieces
import Nits.ReviewCore.Patch

/-!
# What a patch relates

Hunks relate the lines of two texts: they cut both into the same untouched lines,
and at each hunk the old lines into the new ones. Every range of a hunk states
where its lines begin, counted from the start of its own text. An application is
one reading of this relation, and exchanging the sides of every hunk is the other.
-/

namespace Nits.ReviewCore.Patch

open Logical ReviewCore

def newlineByte (byte : UInt8) : Bool := byte = 10

def newlineChar (c : Char) : Bool := c = '\n'

theorem splitInclusive_eq_pieces (bytes : List UInt8) :
    splitInclusive bytes = pieces newlineByte bytes := by
  induction bytes with
  | nil => rfl
  | cons byte rest ih =>
    rw [splitInclusive, pieces, ih]
    simp only [newlineByte, decide_eq_true_eq]
    split
    · rfl
    · cases pieces newlineByte rest <;> rfl

theorem splitLines_eq_pieces (text : List Char) : splitLines text = pieces newlineChar text := by
  induction text with
  | nil => rfl
  | cons c rest ih =>
    rw [splitLines, pieces, ih]
    simp only [newlineChar, decide_eq_true_eq]
    split
    · rfl
    · cases pieces newlineChar rest <;> rfl

theorem getLast?_eq_newline {line : List UInt8} :
    line.getLast? = some 10 ↔ Closed newlineByte line := by
  constructor
  · intro last
    exact ⟨10, last, rfl⟩
  · rintro ⟨byte, last, stops⟩
    simp only [newlineByte, decide_eq_true_eq] at stops
    rw [last, stops]

/-- The lines of a hunk on the side that counts them. -/
def side (counts : BodyLine → Bool) (lines : List BodyLine) : List (List UInt8) :=
  (lines.filter counts).map BodyLine.bytes

@[simp] theorem side_nil (counts : BodyLine → Bool) : side counts [] = [] := rfl

theorem side_cons (counts : BodyLine → Bool) (line : BodyLine) (lines : List BodyLine) :
    side counts (line :: lines) =
      if counts line then line.bytes :: side counts lines else side counts lines := by
  rw [side, List.filter_cons]
  split <;> rfl

theorem length_side (counts : BodyLine → Bool) (lines : List BodyLine) :
    (side counts lines).length = lines.countP counts := by
  rw [side, List.length_map, List.countP_eq_length_filter]

/-- `Fits o n hunks old new`: past `o` old and `n` new lines, the hunks turn the
remaining lines `old` into `new`. -/
inductive Fits : Nat → Nat → List Hunk → List (List UInt8) → List (List UInt8) → Prop
  | done {o n : Nat} (rest : List (List UInt8)) : Fits o n [] rest rest
  | hunk {o n : Nat} {hunks : List Hunk} {old new : List (List UInt8)} (hunk : Hunk)
      (untouched : List (List UInt8)) (oldAt : hunk.old.offset = o + untouched.length)
      (newAt : hunk.new.offset = n + untouched.length)
      (after : Fits (hunk.old.offset + (side countsOld hunk.lines).length)
        (hunk.new.offset + (side countsNew hunk.lines).length) hunks old new) :
      Fits o n (hunk :: hunks) (untouched ++ (side countsOld hunk.lines ++ old))
        (untouched ++ (side countsNew hunk.lines ++ new))

theorem fits_nil_iff {o n : Nat} {old new : List (List UInt8)} :
    Fits o n [] old new ↔ new = old := by
  constructor
  · rintro ⟨⟩
    rfl
  · rintro rfl
    exact .done new

theorem fits_cons_iff {o n : Nat} {hunk : Hunk} {hunks : List Hunk} {old new : List (List UInt8)} :
    Fits o n (hunk :: hunks) old new ↔
      ∃ untouched oldRest newRest,
        old = untouched ++ (side countsOld hunk.lines ++ oldRest) ∧
          new = untouched ++ (side countsNew hunk.lines ++ newRest) ∧
          hunk.old.offset = o + untouched.length ∧ hunk.new.offset = n + untouched.length ∧
          Fits (hunk.old.offset + (side countsOld hunk.lines).length)
            (hunk.new.offset + (side countsNew hunk.lines).length) hunks oldRest newRest := by
  constructor
  · intro fits
    cases fits with
    | hunk _ untouched oldAt newAt after =>
      exact ⟨untouched, _, _, rfl, rfl, oldAt, newAt, after⟩
  · rintro ⟨untouched, oldRest, newRest, rfl, rfl, oldAt, newAt, after⟩
    exact .hunk hunk untouched oldAt newAt after

/-! ### Applying -/

section Apply

variable (old : List (List UInt8))

/-- One body line reads the next old line unless it adds, and writes its own unless
it removes. -/
theorem applyLine_eq_ok {progress after : Progress} {line : BodyLine} :
    applyLine old progress line = .ok after ↔
      (countsOld line = true → old[progress.cursor]? = some line.bytes) ∧
        after = ⟨progress.out ++ side countsNew [line],
          progress.cursor + (side countsOld [line]).length⟩ := by
  rcases kind : line.kind with _ | _ | _ <;>
    simp only [applyLine, kind, countsOld, countsNew, side_cons, side_nil, decide_true,
      Bool.true_or, Bool.or_true, if_true, forall_const, List.length_singleton]
  · split
    next differs => simp [differs]
    next same =>
      rw [not_not] at same
      simp [same, eq_comm]
  · split
    next differs => simp [differs]
    next same =>
      rw [not_not] at same
      simp [same, eq_comm]
  · simp [eq_comm]

theorem drop_eq_cons_iff {cursor : Nat} {line : List UInt8} {rest : List (List UInt8)} :
    old.drop cursor = line :: rest ↔ old[cursor]? = some line ∧ rest = old.drop (cursor + 1) := by
  constructor
  · intro here
    constructor
    · have first := congrArg List.head? here
      rwa [List.head?_drop] at first
    · have others := congrArg List.tail here
      rw [List.tail_drop] at others
      exact others.symm
  · rintro ⟨found, rfl⟩
    obtain ⟨inside, rfl⟩ := List.getElem?_eq_some_iff.mp found
    exact List.drop_eq_getElem_cons inside

/-- A body is applied where its old lines come next. -/
theorem foldlM_applyLine_eq_ok {lines : List BodyLine} {progress after : Progress} :
    lines.foldlM (applyLine old) progress = .ok after ↔
      (∃ rest, old.drop progress.cursor = side countsOld lines ++ rest) ∧
        after = ⟨progress.out ++ side countsNew lines,
          progress.cursor + (side countsOld lines).length⟩ := by
  induction lines generalizing progress with
  | nil =>
    rw [List.foldlM_nil]
    simp only [side_nil, List.nil_append, List.append_nil, List.length_nil, Nat.add_zero,
      exists_eq', true_and]
    exact ⟨fun same => (Except.ok.inj same).symm, fun same => congrArg _ same.symm⟩
  | cons line lines ih =>
    have step : (line :: lines).foldlM (applyLine old) progress = .ok after ↔
        ∃ middle, applyLine old progress line = .ok middle ∧
          lines.foldlM (applyLine old) middle = .ok after := by
      rw [List.foldlM_cons]
      cases applyLine old progress line with
      | error error => simp [Bind.bind, Except.bind]
      | ok middle => simp [Bind.bind, Except.bind]
    simp only [step, applyLine_eq_ok, ih]
    by_cases reads : countsOld line = true
    · have shape : side countsOld (line :: lines) = line.bytes :: side countsOld lines := by
        rw [side_cons, if_pos reads]
      have single : side countsOld [line] = [line.bytes] := by rw [side_cons, if_pos reads]; rfl
      have written : side countsNew (line :: lines) =
          side countsNew [line] ++ side countsNew lines := by
        rw [side_cons, side_cons]
        split <;> rfl
      simp only [shape, single, written, reads, List.cons_append, drop_eq_cons_iff, forall_const]
      constructor
      · rintro ⟨middle, ⟨found, rfl⟩, ⟨rest, here⟩, rfl⟩
        exact ⟨⟨rest, found, here.symm⟩, by simp [Nat.add_assoc, Nat.add_comm 1]⟩
      · rintro ⟨⟨rest, found, here⟩, rfl⟩
        exact ⟨_, ⟨found, rfl⟩, ⟨rest, here.symm⟩, by simp [Nat.add_assoc, Nat.add_comm 1]⟩
    · have shape : side countsOld (line :: lines) = side countsOld lines := by
        rw [side_cons, if_neg reads]
      have single : side countsOld [line] = [] := by rw [side_cons, if_neg reads]; rfl
      have written : side countsNew (line :: lines) =
          side countsNew [line] ++ side countsNew lines := by
        rw [side_cons, side_cons]
        split <;> rfl
      simp only [shape, single, written, reads, List.length_nil, Nat.add_zero]
      constructor
      · rintro ⟨middle, ⟨-, rfl⟩, here, rfl⟩
        exact ⟨here, by simp⟩
      · rintro ⟨here, rfl⟩
        exact ⟨_, ⟨by simp, rfl⟩, here, by simp⟩

/-- A hunk is applied where its old lines stand at its old offset, once its new lines
come at its new offset. -/
theorem applyHunk_eq_ok {progress after : Progress} {hunk : Hunk}
    (within : progress.cursor ≤ old.length) : applyHunk old progress hunk = .ok after ↔
      ∃ untouched rest,
        old.drop progress.cursor = untouched ++ (side countsOld hunk.lines ++ rest) ∧
          hunk.old.offset = progress.cursor + untouched.length ∧
          hunk.new.offset = progress.out.length + untouched.length ∧
          after = ⟨progress.out ++ untouched ++ side countsNew hunk.lines,
            hunk.old.offset + (side countsOld hunk.lines).length⟩ := by
  rw [applyHunk]
  split
  next outside =>
    simp only [reduceCtorEq, false_iff, not_exists, not_and]
    intro untouched rest here oldAt
    have total := congrArg List.length here
    simp only [List.length_drop, List.length_append] at total
    omega
  next inside =>
    have between : progress.cursor ≤ hunk.old.offset ∧ hunk.old.offset ≤ old.length := by omega
    have cut : old.drop progress.cursor =
        (old.take hunk.old.offset).drop progress.cursor ++ old.drop hunk.old.offset := by
      have halves := List.take_append_drop (hunk.old.offset - progress.cursor)
        (old.drop progress.cursor)
      rw [List.drop_drop, Nat.add_sub_cancel' between.1] at halves
      rw [List.drop_take, halves]
    have width : ((old.take hunk.old.offset).drop progress.cursor).length =
        hunk.old.offset - progress.cursor := by
      rw [List.length_drop, List.length_take, Nat.min_eq_left between.2]
    have only : ∀ {untouched rest : List (List UInt8)},
        old.drop progress.cursor = untouched ++ rest →
          hunk.old.offset = progress.cursor + untouched.length →
          untouched = (old.take hunk.old.offset).drop progress.cursor ∧
            rest = old.drop hunk.old.offset := by
      intro untouched rest here oldAt
      rw [cut] at here
      exact List.append_inj here.symm (by omega)
    dsimp only
    split
    next misplaced =>
      simp only [reduceCtorEq, false_iff, not_exists, not_and]
      intro untouched rest here oldAt newAt
      obtain ⟨rfl, -⟩ := only here oldAt
      rw [List.length_append] at misplaced
      omega
    next placed =>
      rw [not_not, List.length_append] at placed
      rw [foldlM_applyLine_eq_ok]
      constructor
      · rintro ⟨⟨rest, here⟩, rfl⟩
        exact ⟨_, rest, by rw [cut, here], by omega, by omega, rfl⟩
      · rintro ⟨untouched, rest, here, oldAt, newAt, rfl⟩
        obtain ⟨rfl, below⟩ := only here oldAt
        exact ⟨⟨rest, below.symm⟩, rfl⟩

theorem drop_past {cursor : Nat} {untouched part rest : List (List UInt8)}
    (here : old.drop cursor = untouched ++ (part ++ rest)) :
    old.drop (cursor + untouched.length + part.length) = rest := by
  have dropped := congrArg (List.drop (untouched.length + part.length)) here
  rw [List.drop_drop, ← List.append_assoc, List.drop_left' (by simp)] at dropped
  rw [← dropped, Nat.add_assoc]

/-- The hunks are applied to the lines from the cursor on exactly as they fit. -/
theorem foldlM_applyHunk_iff {hunks : List Hunk} {progress : Progress}
    (within : progress.cursor ≤ old.length) {text : List (List UInt8)} :
    (∃ after, hunks.foldlM (applyHunk old) progress = .ok after ∧ after.cursor ≤ old.length ∧
        after.out ++ old.drop after.cursor = text) ↔
      ∃ new, Fits progress.cursor progress.out.length hunks (old.drop progress.cursor) new ∧
        text = progress.out ++ new := by
  induction hunks generalizing progress with
  | nil =>
    simp only [List.foldlM_nil, fits_nil_iff]
    constructor
    · rintro ⟨after, same, -, rfl⟩
      cases same
      exact ⟨_, rfl, rfl⟩
    · rintro ⟨new, rfl, rfl⟩
      exact ⟨progress, rfl, within, rfl⟩
  | cons hunk hunks ih =>
    constructor
    · rintro ⟨after, run, inside, rfl⟩
      rw [List.foldlM_cons] at run
      cases first : applyHunk old progress hunk with
      | error error =>
        rw [first] at run
        cases run
      | ok middle =>
        rw [first] at run
        obtain ⟨untouched, rest, here, oldAt, newAt, rfl⟩ := (applyHunk_eq_ok old within).mp first
        have total := congrArg List.length here
        simp only [List.length_drop, List.length_append] at total
        have below : old.drop (hunk.old.offset + (side countsOld hunk.lines).length) = rest := by
          rw [oldAt]
          exact drop_past old here
        obtain ⟨new, fits, text⟩ := (ih (by dsimp only; omega)).mp ⟨after, run, inside, rfl⟩
        dsimp only at fits text
        refine ⟨untouched ++ (side countsNew hunk.lines ++ new), ?_, text.trans ?_⟩
        · rw [here]
          refine .hunk hunk untouched oldAt newAt ?_
          rw [← below, newAt]
          simpa [Nat.add_assoc] using fits
        · simp
    · rintro ⟨new, fits, rfl⟩
      obtain ⟨untouched, oldRest, newRest, here, rfl, oldAt, newAt, fits⟩ := fits_cons_iff.mp fits
      have total := congrArg List.length here
      simp only [List.length_drop, List.length_append] at total
      have below : old.drop (hunk.old.offset + (side countsOld hunk.lines).length) = oldRest := by
        rw [oldAt]
        exact drop_past old here
      have first := (applyHunk_eq_ok old within).mpr ⟨untouched, oldRest, here, oldAt, newAt, rfl⟩
      rw [List.foldlM_cons, first]
      refine (ih (by dsimp only; omega)).mpr ⟨newRest, ?_, by simp⟩
      dsimp only
      rw [below]
      rw [newAt] at fits
      simpa [Nat.add_assoc] using fits

end Apply

/-- Exactly the texts that fit result, and only if no line is joined to the next. -/
theorem applyParsed_eq_ok {original result : List UInt8} {hunks : List Hunk} :
    applyParsed original hunks = .ok result ↔
      ∃ new, Fits 0 0 hunks (splitInclusive original) new ∧
        (∀ line ∈ new.dropLast, Closed newlineByte line) ∧ result = new.flatten := by
  have whole : ∀ text : List (List UInt8), _ := fun text =>
    @foldlM_applyHunk_iff (splitInclusive original) hunks ⟨[], 0⟩ (Nat.zero_le _) text
  simp only [List.length_nil, List.drop_zero, List.nil_append, exists_eq_right'] at whole
  have closed : ∀ out : List (List UInt8),
      (out.dropLast.any fun line => line.getLast? ≠ some 10) = false ↔
        ∀ line ∈ out.dropLast, Closed newlineByte line := by
    intro out
    simp [List.any_eq_false, getLast?_eq_newline]
  rw [applyParsed]
  constructor
  · intro run
    cases folded : hunks.foldlM (applyHunk (splitInclusive original)) ⟨[], 0⟩ with
    | error error =>
      rw [folded] at run
      cases run
    | ok after =>
      rw [folded] at run
      simp only [Bind.bind, Except.bind] at run
      split at run
      next => cases run
      next inside =>
        split at run
        next => cases run
        next quiet =>
          cases run
          exact ⟨_, (whole _).mp ⟨after, folded, by omega, rfl⟩,
            (closed _).mp (by simpa using quiet), rfl⟩
  · rintro ⟨new, fits, ends, rfl⟩
    obtain ⟨after, folded, inside, rfl⟩ := (whole new).mpr fits
    rw [folded]
    simp only [Bind.bind, Except.bind]
    rw [if_neg (by omega), if_neg (by simpa using (closed _).mpr ends)]
    rfl

/-! ### Exchanging the sides -/

def LineKind.exchange : LineKind → LineKind
  | .context => .context
  | .remove => .add
  | .add => .remove

def BodyLine.exchange (line : BodyLine) : BodyLine := { line with kind := line.kind.exchange }

theorem side_exchange (lines : List BodyLine) :
    side countsOld (lines.map BodyLine.exchange) = side countsNew lines ∧
      side countsNew (lines.map BodyLine.exchange) = side countsOld lines := by
  induction lines with
  | nil => exact ⟨rfl, rfl⟩
  | cons line lines ih =>
    rw [List.map_cons, side_cons, side_cons, side_cons, side_cons, ih.1,
      ih.2]
    obtain ⟨kind, bytes⟩ := line
    cases kind <;> exact ⟨rfl, rfl⟩

/-- The hunk back from the new lines to the old ones, under another header text. -/
def Hunk.exchange (hunk : Hunk) (header : String) : Hunk :=
  ⟨header, hunk.new, hunk.old, hunk.lines.map BodyLine.exchange⟩

/-- Two lists of hunks, each the exchange of the other up to the texts of headers. -/
def Exchanged : List Hunk → List Hunk → Prop :=
  List.Forall₂ fun hunk back => ∃ header, back = hunk.exchange header

/-- Exchanged hunks lead from the new lines back to the old ones. -/
theorem Fits.exchange {o n : Nat} {hunks back : List Hunk} {old new : List (List UInt8)}
    (fits : Fits o n hunks old new) (exchanged : Exchanged hunks back) : Fits n o back new old := by
  induction fits generalizing back with
  | done rest =>
    cases exchanged
    exact .done rest
  | hunk hunk untouched oldAt newAt after ih =>
    cases exchanged with
    | cons first others =>
      obtain ⟨header, rfl⟩ := first
      have sides := side_exchange hunk.lines
      have fits := ih others
      rw [← sides.1, ← sides.2] at fits ⊢
      exact .hunk (hunk.exchange header) untouched newAt oldAt fits

end Nits.ReviewCore.Patch
