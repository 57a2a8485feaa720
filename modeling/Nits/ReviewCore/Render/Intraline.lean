import Nits.Logical.Spared
import Nits.ReviewCore.Render.Rows

/-!
# Changed parts of a line

A line that replaces another is compared word by word. Tokens are runs of characters, so
the offsets of a token are character boundaries, and a script between the two lists of
tokens is one between the two texts.
-/

namespace Nits.ReviewCore

open Logical Protocol

/-! ## Tokens -/

inductive Class
  | word | space | other
  deriving DecidableEq

/-- A token with its byte range in the source line. -/
structure Tok where
  text : String
  start : Nat
  finish : Nat

section Tokens

-- The characters of Unicode's alphabetic and numeric categories.
variable (alphanumeric : Char → Bool)

def classOf (c : Char) : Class :=
  if alphanumeric c || c = '_' then .word else if isWhitespace c then .space else .other

/-- The characters behind `c` in its token. -/
def runOf (c : Char) (rest : List Char) : List Char :=
  if classOf alphanumeric c = .other then []
  else rest.takeWhile fun d => classOf alphanumeric d = classOf alphanumeric c

theorem runOf_append (c : Char) (rest : List Char) :
    runOf alphanumeric c rest ++ rest.drop (runOf alphanumeric c rest).length = rest := by
  unfold runOf
  split
  · rfl
  · exact List.prefix_iff_eq_append.mp (List.takeWhile_prefix _)

def tokensFrom (offset : Nat) : List Char → List Tok
  | [] => []
  | c :: rest =>
    let run := runOf alphanumeric c rest
    let finish := offset + extent Char.utf8Size (c :: run)
    ⟨String.ofList (c :: run), toU32 offset, toU32 finish⟩ ::
      tokensFrom finish (rest.drop run.length)
termination_by chars => chars.length
decreasing_by simp only [List.length_drop, List.length_cons]; omega

/-- Split into runs of word characters, runs of whitespace, and single other characters. -/
def tokens (s : String) : List Tok := tokensFrom alphanumeric 0 s.toList

end Tokens

/-! ## Ranges -/

/-- A script between two lists of tokens, as `imara_diff` computes it. -/
abbrev TokenDiff := List String → List String → List Hunk

/-- What is asked of the diff: a script in order within both lists, and no region where
nothing changed. -/
structure TokenDiff.Sound (diff : TokenDiff) : Prop where
  script : ∀ before after, EditScript before after 0 0 (diff before after)
  inside : ∀ before after, ∀ hunk ∈ diff before after,
    hunk.beforeEnd ≤ before.length ∧ hunk.afterEnd ≤ after.length
  unchanged : ∀ tokens, diff tokens tokens = []

/-- `ColRange::new`. -/
def ColRange.new (start finish : Nat) : Option ColRange :=
  if ordered : start ≤ finish then some ⟨start, finish, ordered⟩ else none

/-- Add the bytes from `start` to `finish`, to the last range when they touch it. -/
def extend (out : List ColRange) (start finish : Nat) : List ColRange :=
  let pushed := match ColRange.new start finish with
    | some range => out ++ [range]
    | none => out
  match out.getLast? with
  | some last =>
    if last.finish = start then
      match ColRange.new last.start finish with
      | some merged => out.dropLast ++ [merged]
      | none => pushed
    else pushed
  | none => pushed

/-- Add the tokens of a half-open range. `none` is an index out of bounds. -/
def pushRange (out : List ColRange) (toks : List Tok) (range : Nat × Nat) :
    Option (List ColRange) :=
  if range.2 ≤ range.1 then some out
  else do
    let first ← toks[range.1]?
    let last ← toks[range.2 - 1]?
    some (extend out first.start last.finish)

def pushHunks (lt rt : List Tok) :
    List Hunk → List ColRange → List ColRange → Option (List ColRange × List ColRange)
  | [], l, r => some (l, r)
  | hunk :: hunks, l, r => do
    let l ← pushRange l lt hunk.before
    let r ← pushRange r rt hunk.after
    pushHunks lt rt hunks l r

/-- Byte ranges that differ, on the left and on the right. -/
def changedRanges (alphanumeric : Char → Bool) (diff : TokenDiff) (left right : String) :
    Option (List ColRange × List ColRange) :=
  let lt := tokens alphanumeric left
  let rt := tokens alphanumeric right
  pushHunks lt rt (diff (lt.map Tok.text) (rt.map Tok.text)) [] []

/-! ## What the ranges say -/

/-- Some range holds the byte. -/
def inRanges (ranges : List ColRange) (offset : Nat) : Bool :=
  ranges.any fun range => range.start ≤ offset && offset < range.finish

/-- A text without the characters in the ranges. -/
def without (ranges : List ColRange) (text : String) : List Char :=
  spare Char.utf8Size (inRanges ranges) 0 text.toList

/-- Ranges a client can slice a text by: on character boundaries in the text, not empty, in
order and apart. -/
structure Slices (text : String) (ranges : List ColRange) : Prop where
  inside : ∀ range ∈ ranges, range.finish ≤ text.utf8ByteSize
  start : ∀ range ∈ ranges, IsBoundary Char.utf8Size text.toList range.start
  finish : ∀ range ∈ ranges, IsBoundary Char.utf8Size text.toList range.finish
  nonempty : ∀ range ∈ ranges, range.start < range.finish
  apart : ranges.Pairwise fun left right => left.finish < right.start

/-! ## Where tokens lie -/

/-- Tokens that make up the characters, each with its bytes counted from an offset. -/
inductive Laid : Nat → List Char → List Tok → Prop
  | done (offset : Nat) : Laid offset [] []
  | tok {offset : Nat} {run rest : List Char} {toks : List Tok} (some_ : run ≠ [])
      (later : Laid (offset + extent Char.utf8Size run) rest toks) :
      Laid offset (run ++ rest)
        (⟨String.ofList run, offset, offset + extent Char.utf8Size run⟩ :: toks)

theorem laid_tokensFrom (alphanumeric : Char → Bool) {offset : Nat} {chars : List Char}
    (bound : offset + extent Char.utf8Size chars < 2 ^ 32) :
    Laid offset chars (tokensFrom alphanumeric offset chars) := by
  induction offset, chars using tokensFrom.induct alphanumeric with
  | case1 offset =>
    rw [tokensFrom]
    exact .done offset
  | case2 offset c rest run finish ih =>
    have split : c :: rest = (c :: run) ++ rest.drop run.length := by
      rw [List.cons_append, runOf_append]
    rw [split, extent_append, ← Nat.add_assoc] at bound
    have here : toU32 offset = offset := if_pos (by omega)
    have there : toU32 finish = finish := if_pos (by omega)
    rw [tokensFrom]
    simp only [here]
    conv in (List.cons c rest) => rw [split]
    exact there ▸ .tok (List.cons_ne_nil _ _) (ih bound)

/-- The characters of each token. -/
def texts (toks : List Tok) : List (List Char) := toks.map fun tok => tok.text.toList

@[simp] theorem texts_cons (tok : Tok) (toks : List Tok) :
    texts (tok :: toks) = tok.text.toList :: texts toks := rfl

namespace Laid

variable {offset index : Nat} {chars : List Char} {toks : List Tok} {tok : Tok}

theorem flatten (laid : Laid offset chars toks) : (texts toks).flatten = chars := by
  induction laid with
  | done => rfl
  | tok some_ later ih =>
    rw [texts_cons, List.flatten_cons, String.toList_ofList, ih]

theorem nonempty (laid : Laid offset chars toks) : ∀ text ∈ texts toks, text ≠ [] := by
  induction laid with
  | done => simp [texts]
  | tok some_ later ih =>
    rw [texts_cons, String.toList_ofList]
    exact List.forall_mem_cons.mpr ⟨some_, ih⟩

theorem start_eq (laid : Laid offset chars toks) (here : toks[index]? = some tok) :
    tok.start = offset + pieceStart Char.utf8Size (texts toks) index := by
  induction laid generalizing index with
  | done => simp at here
  | @tok offset run rest toks some_ later ih =>
    cases index with
    | zero =>
      obtain rfl := Option.some.inj here
      rfl
    | succ index =>
      rw [ih here, texts_cons, String.toList_ofList, pieceStart, pieceStart,
        List.take_succ_cons, List.flatten_cons, extent_append, Nat.add_assoc]

theorem finish_eq (laid : Laid offset chars toks) (here : toks[index]? = some tok) :
    tok.finish = offset + pieceStart Char.utf8Size (texts toks) (index + 1) := by
  have width : tok.finish = tok.start + extent Char.utf8Size tok.text.toList := by
    have mem := List.mem_of_getElem? here
    clear here
    induction laid with
    | done => cases mem
    | tok some_ later ih =>
      rcases List.mem_cons.mp mem with rfl | mem
      · rw [String.toList_ofList]
      · exact ih mem
  have text : (texts toks)[index]? = some tok.text.toList := by
    rw [texts, List.getElem?_map, here, Option.map_some]
  rw [width, laid.start_eq here, pieceStart_succ Char.utf8Size text, Nat.add_assoc]

end Laid

/-! ## The runs of tokens that are pushed -/

/-- Ranges that say which bytes spans of tokens take up, where `place` is the offset of a
token, and the spans end by `reached`. -/
structure Covering (place : Nat → Nat) (count : Nat) (spans : List (Nat × Nat)) (reached : Nat)
    (out : List ColRange) : Prop where
  placed : ∀ range ∈ out, ∃ first last, first < last ∧ last ≤ count ∧
    range.start = place first ∧ range.finish = place last
  apart : out.Pairwise fun left right => left.finish < right.start
  covers : ∀ offset, inRanges out offset = true ↔
    ∃ span ∈ spans, place span.1 ≤ offset ∧ offset < place span.2
  behind : ∀ range ∈ out, range.finish ≤ place reached

theorem covering_nil (place : Nat → Nat) (count reached : Nat) :
    Covering place count [] reached [] where
  placed := by simp
  apart := .nil
  covers := by simp [inRanges]
  behind := by simp

theorem inRanges_append (ranges others : List ColRange) (offset : Nat) :
    inRanges (ranges ++ others) offset = (inRanges ranges offset || inRanges others offset) :=
  List.any_append

theorem inRanges_singleton (range : ColRange) (offset : Nat) :
    inRanges [range] offset = true ↔ range.start ≤ offset ∧ offset < range.finish := by
  simp [inRanges]

theorem ColRange.new_of_le {start finish : Nat} (ordered : start ≤ finish) :
    ColRange.new start finish = some ⟨start, finish, ordered⟩ := dif_pos ordered

section Extend

variable {place : Nat → Nat} {count reached first last : Nat} {spans : List (Nat × Nat)}
  {out : List ColRange}

/-- The ranges, with the bytes of one more span of tokens behind them. -/
theorem Covering.extend (covering : Covering place count spans reached out)
    (increasing : ∀ index later, index < later → later ≤ count → place index < place later)
    (behind : reached ≤ first) (some_ : first < last) (inside : last ≤ count) :
    Covering place count (spans ++ [(first, last)]) last (extend out (place first) (place last)) := by
  have below : place first < place last := increasing first last some_ inside
  have after : place reached ≤ place first := by
    rcases Nat.eq_or_lt_of_le behind with rfl | before
    · exact Nat.le_refl _
    · exact Nat.le_of_lt (increasing reached first before (by omega))
  have covers (offset : Nat) :
      (∃ span ∈ spans ++ [(first, last)], place span.1 ≤ offset ∧ offset < place span.2) ↔
        inRanges out offset = true ∨ place first ≤ offset ∧ offset < place last := by
    rw [covering.covers]
    simp only [List.mem_append, List.mem_singleton, or_and_right, exists_or, exists_eq_left]
  -- Behind every range: it becomes a range of its own.
  have pushed (gap : ∀ range ∈ out, range.finish < place first) :
      Covering place count (spans ++ [(first, last)]) last
        (out ++ [⟨place first, place last, Nat.le_of_lt below⟩]) := by
    constructor
    · intro range mem
      rcases List.mem_append.mp mem with mem | mem
      · exact covering.placed range mem
      · obtain rfl := List.mem_singleton.mp mem
        exact ⟨first, last, some_, inside, rfl, rfl⟩
    · refine List.pairwise_append.mpr ⟨covering.apart, List.pairwise_singleton _ _, ?_⟩
      intro range mem other last_
      obtain rfl := List.mem_singleton.mp last_
      exact gap range mem
    · intro offset
      rw [inRanges_append, Bool.or_eq_true, inRanges_singleton, covers]
    · intro range mem
      rcases List.mem_append.mp mem with mem | mem
      · have := covering.behind range mem
        omega
      · obtain rfl := List.mem_singleton.mp mem
        exact Nat.le_refl _
  rcases List.eq_nil_or_concat' out with rfl | ⟨before, final, rfl⟩
  · rw [ReviewCore.extend, ColRange.new_of_le (Nat.le_of_lt below)]
    exact pushed (by simp)
  · have finalBehind := covering.behind final (by simp)
    obtain ⟨apart, -, earlier⟩ := List.pairwise_append.mp covering.apart
    rw [ReviewCore.extend, ColRange.new_of_le (Nat.le_of_lt below), List.getLast?_concat]
    by_cases touch : final.finish = place first
    · -- The bytes touch the last range, which now ends where they do.
      have ordered : final.start ≤ place last := by
        have := final.ordered
        omega
      simp only [if_pos touch, ColRange.new_of_le ordered, List.dropLast_concat]
      constructor
      · intro range mem
        rcases List.mem_append.mp mem with mem | mem
        · exact covering.placed range (List.mem_append_left _ mem)
        · obtain rfl := List.mem_singleton.mp mem
          obtain ⟨index, later, smaller, bound, start, finish⟩ :=
            covering.placed final (List.mem_append_right _ (List.mem_singleton_self _))
          refine ⟨index, last, ?_, inside, start, rfl⟩
          -- The range starts at a token before its end, which is not behind `last`.
          by_contra beyond
          have reversed : place last ≤ place index := by
            rcases Nat.eq_or_lt_of_le (Nat.not_lt.mp beyond) with same | before
            · rw [same]
            · exact Nat.le_of_lt (increasing last index before (by omega))
          have := final.ordered
          omega
      · refine List.pairwise_append.mpr ⟨apart, List.pairwise_singleton _ _, ?_⟩
        intro range mem other last_
        obtain rfl := List.mem_singleton.mp last_
        exact earlier range mem final (List.mem_singleton_self _)
      · intro offset
        have start := final.ordered
        rw [inRanges_append, Bool.or_eq_true, inRanges_singleton, covers, inRanges_append,
          Bool.or_eq_true, inRanges_singleton, or_assoc]
        refine or_congr_right ?_
        dsimp only
        omega
      · intro range mem
        rcases List.mem_append.mp mem with mem | mem
        · have := covering.behind range (List.mem_append_left _ mem)
          omega
        · obtain rfl := List.mem_singleton.mp mem
          exact Nat.le_refl _
    · simp only [if_neg touch]
      refine pushed fun range mem => ?_
      rcases List.mem_append.mp mem with mem | mem
      · have ahead := earlier range mem final (List.mem_singleton_self _)
        have := final.ordered
        omega
      · obtain rfl := List.mem_singleton.mp mem
        omega

end Extend

variable {spans : List (Nat × Nat)} {out : List ColRange}

/-- Pushing a span of tokens finds them, and adds their bytes. -/
theorem pushRange_covering {toks : List Tok} {chars : List Char} (laid : Laid 0 chars toks)
    {reached : Nat} {range : Nat × Nat}
    (covering : Covering (pieceStart Char.utf8Size (texts toks)) toks.length spans reached out)
    (behind : reached ≤ range.1) (ordered : range.1 ≤ range.2) (inside : range.2 ≤ toks.length) :
    ∃ out', pushRange out toks range = some out' ∧
      Covering (pieceStart Char.utf8Size (texts toks)) toks.length (spans ++ [range]) range.2 out' := by
  have count : (texts toks).length = toks.length := List.length_map _
  rw [pushRange]
  by_cases empty : range.2 ≤ range.1
  · rw [if_pos empty]
    have same : range.1 = range.2 := by omega
    refine ⟨out, rfl, covering.placed, covering.apart, fun offset => ?_, fun other mem => ?_⟩
    · rw [covering.covers]
      simp only [List.mem_append, List.mem_singleton, or_and_right, exists_or, exists_eq_left, same]
      constructor
      · exact .inl
      · rintro (covered | ⟨above, below⟩)
        · exact covered
        · omega
    · have earlier := covering.behind other mem
      have later := pieceStart_le Char.utf8Size (texts toks) (show reached ≤ range.2 by omega)
      omega
  · rw [if_neg empty]
    have first := List.getElem?_eq_getElem (show range.1 < toks.length by omega)
    have last := List.getElem?_eq_getElem (show range.2 - 1 < toks.length by omega)
    rw [first, last]
    refine ⟨_, rfl, ?_⟩
    have finish := laid.finish_eq last
    rw [Nat.zero_add, Nat.sub_add_cancel (by omega)] at finish
    rw [laid.start_eq first, Nat.zero_add, finish]
    refine covering.extend (fun index later before bound => ?_) behind (by omega) inside
    exact pieceStart_lt Char.utf8Size_pos laid.nonempty before (by omega)

/-- Every hunk of a script is pushed. -/
theorem pushHunks_covering {lt rt : List Tok} {left right : List Char} (laidLeft : Laid 0 left lt)
    (laidRight : Laid 0 right rt) {i j : Nat} {hunks : List Hunk}
    {before after : List (Nat × Nat)} {l r : List ColRange}
    (script : EditScript (lt.map Tok.text) (rt.map Tok.text) i j hunks)
    (inside : ∀ hunk ∈ hunks, hunk.beforeEnd ≤ lt.length ∧ hunk.afterEnd ≤ rt.length)
    (onLeft : Covering (pieceStart Char.utf8Size (texts lt)) lt.length before i l)
    (onRight : Covering (pieceStart Char.utf8Size (texts rt)) rt.length after j r) :
    ∃ l' r' reached reached', pushHunks lt rt hunks l r = some (l', r') ∧
      Covering (pieceStart Char.utf8Size (texts lt)) lt.length (before ++ hunks.map Hunk.before)
        reached l' ∧
      Covering (pieceStart Char.utf8Size (texts rt)) rt.length (after ++ hunks.map Hunk.after)
        reached' r' := by
  induction hunks generalizing i j before after l r with
  | nil =>
    rw [List.map_nil, List.map_nil, List.append_nil, List.append_nil]
    exact ⟨l, r, i, j, rfl, onLeft, onRight⟩
  | cons hunk hunks ih =>
    have here := inside hunk List.mem_cons_self
    obtain ⟨behindLeft, orderedLeft, -⟩ := script.ordered_before
    obtain ⟨behindRight, orderedRight, -⟩ := script.ordered_after
    obtain ⟨l', pushed, onLeft⟩ := pushRange_covering laidLeft onLeft behindLeft orderedLeft here.1
    obtain ⟨r', pushed', onRight⟩ :=
      pushRange_covering laidRight onRight behindRight orderedRight here.2
    rw [pushHunks, pushed, Option.bind_eq_bind, Option.bind_some, pushed', Option.bind_some,
      List.map_cons, List.map_cons, List.append_cons before, List.append_cons after]
    cases script with
    | hunk _ _ _ _ _ script =>
      exact ih script (fun other mem => inside other (List.mem_cons_of_mem _ mem)) onLeft onRight

/-- The ranges of spans of tokens are ranges of the text. -/
theorem Covering.slices {text : String} {toks : List Tok} (laid : Laid 0 text.toList toks)
    {reached : Nat}
    (covering : Covering (pieceStart Char.utf8Size (texts toks)) toks.length spans reached out) :
    Slices text out := by
  have count : (texts toks).length = toks.length := List.length_map _
  have boundary (index : Nat) :
      IsBoundary Char.utf8Size text.toList (pieceStart Char.utf8Size (texts toks) index) := by
    have bound : IsBoundary Char.utf8Size (texts toks).flatten
        (pieceStart Char.utf8Size (texts toks) index) := isBoundary_pieceStart
    rwa [laid.flatten] at bound
  constructor
  · intro range mem
    obtain ⟨first, last, -, -, -, finish⟩ := covering.placed range mem
    rw [utf8ByteSize_eq, finish]
    exact (boundary last).le
  · intro range mem
    obtain ⟨first, last, -, -, start, -⟩ := covering.placed range mem
    exact start ▸ boundary first
  · intro range mem
    obtain ⟨first, last, -, -, -, finish⟩ := covering.placed range mem
    exact finish ▸ boundary last
  · intro range mem
    obtain ⟨first, last, before, bound, start, finish⟩ := covering.placed range mem
    rw [start, finish]
    exact pieceStart_lt Char.utf8Size_pos laid.nonempty before (by omega)
  · exact covering.apart

/-- What the ranges leave of the text is what the spans leave of its tokens. -/
theorem Covering.without_eq {text : String} {toks : List Tok} (laid : Laid 0 text.toList toks)
    {reached : Nat}
    (covering : Covering (pieceStart Char.utf8Size (texts toks)) toks.length spans reached out) :
    without out text =
      ((spare (fun _ => 1) (within spans) 0 (toks.map Tok.text)).map String.toList).flatten := by
  have pieces : texts toks = (toks.map Tok.text).map String.toList := by
    rw [List.map_map]
    rfl
  rw [without, ← laid.flatten, spare_pieces Char.utf8Size_pos covering.covers, pieces, spare_map]
  rfl

theorem laid_tokens (alphanumeric : Char → Bool) {text : String}
    (short : text.utf8ByteSize < 2 ^ 32) : Laid 0 text.toList (tokens alphanumeric text) :=
  laid_tokensFrom alphanumeric (by rwa [Nat.zero_add, ← utf8ByteSize_eq])

/-- The changed ranges of two lines are the difference between them: each side can be sliced
by its ranges, what is left of both without them is the same, and there are none exactly
when the lines are equal. -/
theorem changedRanges_exact (alphanumeric : Char → Bool) {diff : TokenDiff} (sound : diff.Sound)
    {left right : String} (leftShort : left.utf8ByteSize < 2 ^ 32)
    (rightShort : right.utf8ByteSize < 2 ^ 32) :
    ∃ l r, changedRanges alphanumeric diff left right = some (l, r) ∧ Slices left l ∧
      Slices right r ∧ without l left = without r right ∧ (l = [] ∧ r = [] ↔ left = right) := by
  have laidLeft := laid_tokens alphanumeric leftShort
  have laidRight := laid_tokens alphanumeric rightShort
  have script := sound.script ((tokens alphanumeric left).map Tok.text)
    ((tokens alphanumeric right).map Tok.text)
  have inside := sound.inside ((tokens alphanumeric left).map Tok.text)
    ((tokens alphanumeric right).map Tok.text)
  have inside' := inside
  simp only [List.length_map] at inside'
  obtain ⟨l, r, _, _, computed, onLeft, onRight⟩ := pushHunks_covering laidLeft laidRight script
    inside' (covering_nil _ _ 0) (covering_nil _ _ 0)
  rw [List.nil_append] at onLeft onRight
  have same : without l left = without r right := by
    rw [onLeft.without_eq laidLeft, onRight.without_eq laidRight]
    exact congrArg (fun spared => (spared.map String.toList).flatten) (script.spared inside)
  refine ⟨l, r, computed, onLeft.slices laidLeft, onRight.slices laidRight, same, ?_, ?_⟩
  · rintro ⟨rfl, rfl⟩
    have nothing (text : String) : without [] text = text.toList := spare_nothing 0 text.toList
    rw [nothing, nothing] at same
    exact String.toList_injective same
  · rintro rfl
    rw [sound.unchanged] at computed
    obtain ⟨rfl, rfl⟩ := Prod.mk.inj (Option.some.inj computed)
    exact ⟨rfl, rfl⟩

/-- A diff that replaces all tokens by all others. -/
def replacingAll : TokenDiff := fun before after =>
  if before = after then [] else [⟨0, before.length, 0, after.length⟩]

theorem replacingAll_sound : replacingAll.Sound where
  script before after := by
    unfold replacingAll
    split
    next same => exact same ▸ .refl
    next => exact .replaceAll
  inside before after hunk mem := by
    unfold replacingAll at mem
    split at mem
    · cases mem
    · obtain rfl := List.mem_singleton.mp mem
      exact ⟨Nat.le_refl _, Nat.le_refl _⟩
  unchanged tokens := if_pos rfl

/-- A word with a letter of two bytes is replaced, and another follows. -/
theorem changedRanges_exact_letters : ∃ l r,
    changedRanges Char.isAlphanum replacingAll "let é = 1" "let e = 1 + a" = some (l, r) ∧
      Slices "let é = 1" l ∧ Slices "let e = 1 + a" r ∧
      without l "let é = 1" = without r "let e = 1 + a" ∧
      (l = [] ∧ r = [] ↔ "let é = 1" = "let e = 1 + a") :=
  changedRanges_exact Char.isAlphanum replacingAll_sound (by decide) (by decide)

end Nits.ReviewCore
