import Nits.ReviewCore.LiveAnchors
import Nits.ReviewCore.Render.Rows

/-!
# Mapped ranges

A range is mapped exactly when the diff leaves it alone: no hunk deletes or replaces
one of its lines, none inserts between two of them. What is inserted right before its
first line or right after its last one only moves it, or not even that. Every sum and
difference on the way stays inside its machine type.
-/

namespace Nits.ReviewCore

open Logical Protocol

/-! ## Hunks and ranges -/

/-- What a diff answers: a script whose hunks lie in the two lists and change
something, over lists that 32 bits can number. -/
structure Edits (old new : List String) (hunks : List Hunk) : Prop where
  script : EditScript old new 0 0 hunks
  inside : ∀ hunk ∈ hunks, hunk.beforeEnd ≤ old.length ∧ hunk.afterEnd ≤ new.length
  changes : ∀ hunk ∈ hunks, hunk.beforeStart < hunk.beforeEnd ∨ hunk.afterStart < hunk.afterEnd
  numbered : old.length < 2 ^ 32 ∧ new.length < 2 ^ 32

/-- The hunk deletes or replaces a line of the range. -/
def Removes (range : LineRange) (hunk : Hunk) : Prop :=
  ∃ line, range.start.index ≤ line ∧ line ≤ range.finish.index ∧
    hunk.beforeStart ≤ line ∧ line < hunk.beforeEnd

/-- The hunk only adds lines, between two neighbours of the range. -/
def Splits (range : LineRange) (hunk : Hunk) : Prop :=
  hunk.beforeStart = hunk.beforeEnd ∧ hunk.afterStart < hunk.afterEnd ∧
    ∃ line, range.start.index ≤ line ∧ line + 1 ≤ range.finish.index ∧
      hunk.beforeStart = line + 1

theorem index_le (range : LineRange) : range.start.index ≤ range.finish.index := by
  have ordered := range.ordered
  unfold LineNo.index
  omega

/-- A hunk that changes something leaves a range alone exactly where it ends before
the range or starts behind it. -/
theorem apart_iff {range : LineRange} {hunk : Hunk} (removed : hunk.beforeStart ≤ hunk.beforeEnd)
    (changes : hunk.beforeStart < hunk.beforeEnd ∨ hunk.afterStart < hunk.afterEnd) :
    hunk.beforeEnd ≤ range.start.index ∨ range.finish.index < hunk.beforeStart ↔
      ¬ Removes range hunk ∧ ¬ Splits range hunk := by
  have ordered := index_le range
  constructor
  · intro apart
    constructor
    · rintro ⟨line, above, below, after, before⟩
      omega
    · rintro ⟨empty, adds, line, above, below, position⟩
      omega
  · rintro ⟨kept, whole⟩
    by_contra touching
    rcases Nat.lt_or_eq_of_le removed with removes | empty
    · exact kept ⟨max range.start.index hunk.beforeStart, by omega, by omega, by omega, by omega⟩
    · exact whole ⟨empty, by omega, hunk.beforeStart - 1, by omega, by omega, by omega⟩

/-! ## Walking the hunks -/

section Walking

variable {old new : List String} {hunks : List Hunk} {i j start finish : Nat} {offset : Int}

theorem hunkEffect_ended {hunk : Hunk} (removed : hunk.beforeStart ≤ hunk.beforeEnd)
    (ordered : start ≤ finish) (ended : hunk.beforeEnd ≤ start) :
    hunkEffect start finish hunk = .shift hunk.growth := by
  simp only [hunkEffect]
  rw [if_neg (by omega), if_neg (by omega), if_neg (by omega), if_pos (by omega)]
  rfl

theorem hunkEffect_beyond {hunk : Hunk} (beyond : finish < hunk.beforeStart) :
    hunkEffect start finish hunk = .stop := by
  simp only [hunkEffect]
  rw [if_pos beyond]

/-- Hunks that leave the range alone are walked to the end or to the first one behind
it. -/
theorem accumulateOffset_of_apart (script : EditScript old new i j hunks) (ordered : start ≤ finish)
    (apart : ∀ hunk ∈ hunks, hunk.beforeEnd ≤ start ∨ finish < hunk.beforeStart) :
    ∃ result, accumulateOffset start finish offset hunks = some result := by
  induction script generalizing offset with
  | rest => exact ⟨offset, rfl⟩
  | @hunk i j hunk hunks before aligned same removed added script ih =>
    unfold accumulateOffset
    rcases apart hunk List.mem_cons_self with ended | beyond
    · rw [hunkEffect_ended removed ordered ended]
      exact ih fun other later => apart other (List.mem_cons_of_mem _ later)
    · rw [hunkEffect_beyond beyond]
      exact ⟨offset, rfl⟩

end Walking

/-! ## The range that is mapped to -/

section Mapping

variable {old new : List String} {hunks : List Hunk} {range mapped : LineRange}

theorem tryFromIndex_ofNat {index : Nat} (small : index < 2 ^ 32) :
    tryFromIndex (index : Int) = some (UInt32.ofNat index) := by
  rw [tryFromIndex, if_pos ⟨by omega, by omega⟩, Int.toNat_natCast]

/-- A line of a range left alone is found among the new lines. -/
theorem Edits.kept (edits : Edits old new hunks) (apart : ∀ hunk ∈ hunks,
      hunk.beforeEnd ≤ range.start.index ∨ range.finish.index < hunk.beforeStart)
    (inside : range.finish.index < old.length) {line : Nat} (above : range.start.index ≤ line)
    (below : line ≤ range.finish.index) :
    ∃ target : Nat, (target : Int) = line + growthBefore range.start.index hunks ∧
      target < new.length := by
  obtain ⟨target, position, same⟩ := edits.script.kept apart (Nat.zero_le _) above below
  have found : new[target]? = some old[line] := by
    rw [← same]
    exact List.getElem?_eq_getElem (by omega)
  refine ⟨target, by omega, ?_⟩
  exact (List.getElem?_eq_some_iff.mp found).1

/-- A range inside the old lines that every hunk leaves alone is mapped. -/
theorem mapThrough_of_apart (edits : Edits old new hunks) (inside : range.finish.index < old.length)
    (apart : ∀ hunk ∈ hunks,
      hunk.beforeEnd ≤ range.start.index ∨ range.finish.index < hunk.beforeStart) :
    ∃ mapped, mapThrough hunks old new range = some mapped := by
  have ordered := index_le range
  have numbered := edits.numbered
  obtain ⟨offset, walked⟩ : ∃ offset,
      accumulateOffset range.start.index range.finish.index 0 hunks = some offset :=
    accumulateOffset_of_apart edits.script ordered apart
  have sum := (accumulateOffset_eq_some edits.script ordered walked).2
  obtain ⟨first, starts, below⟩ := edits.kept apart inside (Nat.le_refl _) ordered
  obtain ⟨last, ends, within⟩ := edits.kept apart inside ordered (Nat.le_refl _)
  have small {index : Nat} (bounded : index < new.length) :
      (LineNo.fromIndex (UInt32.ofNat index)).get = index + 1 := by
    have exact_ := UInt32.toNat_ofNat_of_lt' (n := index) (by simp only [UInt32.size]; omega)
    rw [LineNo.get_fromIndex (by omega), exact_]
  have newStart : (range.start.index : Int) + offset = first := by omega
  have newEnd : (range.finish.index : Int) + offset = last := by omega
  have exact_ : (UInt32.ofNat last).toNat = last :=
    UInt32.toNat_ofNat_of_lt' (by simp only [UInt32.size]; omega)
  have built : ∃ mapped, (LineRange.new (LineNo.fromIndex (UInt32.ofNat first))
      (LineNo.fromIndex (UInt32.ofNat last))).toOption = some mapped := by
    unfold LineRange.new
    rw [dif_pos (by rw [small below, small within]; omega)]
    exact ⟨_, rfl⟩
  simpa [mapThrough, show ¬ old.length ≤ range.finish.index by omega, walked, newStart, newEnd,
    tryFromIndex_ofNat (show first < 2 ^ 32 by omega),
    tryFromIndex_ofNat (show last < 2 ^ 32 by omega), exact_,
    show ¬ new.length ≤ last by omega] using built

/-- A mapped range lay inside the old lines, apart from every hunk. -/
theorem apart_of_mapThrough (edits : Edits old new hunks)
    (through : mapThrough hunks old new range = some mapped) :
    range.finish.index < old.length ∧ ∀ hunk ∈ hunks,
      hunk.beforeEnd ≤ range.start.index ∨ range.finish.index < hunk.beforeStart := by
  unfold mapThrough at through
  dsimp only at through
  split at through
  · cases through
  next inside =>
  obtain ⟨offset, walked, _⟩ := Option.bind_eq_some_iff.mp through
  exact ⟨by omega, (accumulateOffset_eq_some edits.script (index_le range) walked).1⟩

end Mapping

/-! ## Machine arithmetic -/

section Checking

variable {old new : List String} {hunks : List Hunk} {range : LineRange} {i j start finish : Nat}
  {offset : Int}

/-- A value of a signed 64-bit number, unless it leaves the type. -/
def checkedI64 (value : Int) : Option Int :=
  if -2 ^ 63 ≤ value ∧ value < 2 ^ 63 then some value else none

/-- The line number after a 0-based index, unless it leaves 32 bits. -/
def checkedFromIndex (i : UInt32) : Option LineNo :=
  if i.toNat + 1 < 2 ^ 32 then some (LineNo.fromIndex i) else none

/-- What a hunk adds, computed as the code does. -/
def checkedGrowth (hunk : Hunk) : Option Int := do
  let added ← checkedSub hunk.afterEnd hunk.afterStart
  let removed ← checkedSub hunk.beforeEnd hunk.beforeStart
  checkedI64 ((added : Int) - removed)

/-- `accumulateOffset` with every operation checked; `none` is an overflow. -/
def accumulateChecked (start finish : Nat) : Int → List Hunk → Option (Option Int)
  | offset, [] => some (some offset)
  | offset, hunk :: rest =>
    match hunkEffect start finish hunk with
    | .stop => some (some offset)
    | .refuse => some none
    | .shift _ =>
      if hunk.beforeEnd ≤ start ∨ (hunk.beforeEnd ≤ hunk.beforeStart ∧ hunk.beforeStart ≤ start) then
        (checkedGrowth hunk).bind fun lines =>
          (checkedI64 (offset + lines)).bind fun offset => accumulateChecked start finish offset rest
      else accumulateChecked start finish offset rest

/-- `mapThrough` with every operation checked; `none` is an overflow. -/
def mapChecked (hunks : List Hunk) (old new : List String) (range : LineRange) :
    Option (Option LineRange) :=
  let start := range.start.index
  let finish := range.finish.index
  if finish ≥ old.length then some none
  else
    (accumulateChecked start finish 0 hunks).bind fun
      | none => some none
      | some offset =>
        (checkedI64 (start + offset)).bind fun newStart =>
          (checkedI64 (finish + offset)).bind fun newEnd =>
            match tryFromIndex newStart, tryFromIndex newEnd with
            | some newStart, some newEnd =>
              if newEnd.toNat ≥ new.length then some none
              else
                (checkedFromIndex newStart).bind fun first =>
                  (checkedFromIndex newEnd).map fun last => (LineRange.new first last).toOption
            | _, _ => some none

theorem checkedI64_eq {value : Int} (above : -2 ^ 33 ≤ value) (below : value < 2 ^ 33) :
    checkedI64 value = some value := by
  rw [checkedI64, if_pos ⟨by omega, by omega⟩]

theorem checkedGrowth_eq {hunk : Hunk} (removed : hunk.beforeStart ≤ hunk.beforeEnd)
    (added : hunk.afterStart ≤ hunk.afterEnd) (before : hunk.beforeEnd < 2 ^ 32)
    (after : hunk.afterEnd < 2 ^ 32) : checkedGrowth hunk = some hunk.growth := by
  have growth : ((hunk.afterEnd - hunk.afterStart : Nat) : Int) -
      ((hunk.beforeEnd - hunk.beforeStart : Nat) : Int) = hunk.growth := by
    rw [Hunk.growth]
    omega
  have sums : checkedI64 hunk.growth = some hunk.growth :=
    checkedI64_eq (by rw [← growth]; omega) (by rw [← growth]; omega)
  unfold checkedGrowth checkedSub
  rw [if_pos added, if_pos removed]
  exact growth ▸ sums

/-- Behind each hunk the offset is the distance of its two ends, so it stays small. -/
theorem accumulateChecked_eq (script : EditScript old new i j hunks)
    (inside : ∀ hunk ∈ hunks, hunk.beforeEnd < 2 ^ 32 ∧ hunk.afterEnd < 2 ^ 32)
    (distance : offset = (j : Int) - i) : accumulateChecked start finish offset hunks =
      some (accumulateOffset start finish offset hunks) := by
  induction script generalizing offset with
  | rest => rfl
  | @hunk i j hunk hunks before aligned same removed added script ih =>
    obtain ⟨fitsBefore, fitsAfter⟩ := inside hunk List.mem_cons_self
    unfold accumulateChecked accumulateOffset
    cases effect : hunkEffect start finish hunk with
    | stop => rfl
    | refuse => rfl
    | shift lines =>
      obtain ⟨ended, rfl⟩ := hunkEffect_shift removed effect
      have next : offset + hunk.growth = (hunk.afterEnd : Int) - hunk.beforeEnd := by
        rw [distance, Hunk.growth]
        omega
      have small : checkedI64 (offset + hunk.growth) = some (offset + hunk.growth) :=
        checkedI64_eq (by omega) (by omega)
      have rest := ih (fun other later => inside other (List.mem_cons_of_mem _ later)) next
      dsimp only
      rw [if_pos (.inl ended), checkedGrowth_eq removed added fitsBefore fitsAfter,
        Option.bind_some, small, Option.bind_some, rest]

/-- What walking the hunks adds up is the distance of two positions in the lists. -/
theorem accumulateOffset_bounded (script : EditScript old new i j hunks)
    (inside : ∀ hunk ∈ hunks, hunk.beforeEnd < 2 ^ 32 ∧ hunk.afterEnd < 2 ^ 32)
    (first : i < 2 ^ 32 ∧ j < 2 ^ 32) (distance : offset = (j : Int) - i) {result : Int}
    (walked : accumulateOffset start finish offset hunks = some result) :
    -2 ^ 32 < result ∧ result < 2 ^ 32 := by
  induction script generalizing offset with
  | rest =>
    cases walked
    omega
  | @hunk i j hunk hunks before aligned same removed added script ih =>
    unfold accumulateOffset at walked
    split at walked
    · cases walked
      omega
    · cases walked
    · next lines effect =>
      obtain ⟨ended, rfl⟩ := hunkEffect_shift removed effect
      refine ih (fun other later => inside other (List.mem_cons_of_mem _ later))
        (inside hunk List.mem_cons_self) ?_ walked
      rw [distance, Hunk.growth]
      omega

theorem Edits.fits (edits : Edits old new hunks) :
    ∀ hunk ∈ hunks, hunk.beforeEnd < 2 ^ 32 ∧ hunk.afterEnd < 2 ^ 32 := by
  intro hunk mem
  have inside := edits.inside hunk mem
  have numbered := edits.numbered
  omega

/-- Nothing overflows. -/
theorem mapChecked_eq (edits : Edits old new hunks) :
    mapChecked hunks old new range = some (mapThrough hunks old new range) := by
  have numbered := edits.numbered
  have ordered := index_le range
  unfold mapChecked mapThrough
  dsimp only
  by_cases outside : range.finish.index ≥ old.length
  · simp [outside]
  rw [if_neg outside, accumulateChecked_eq edits.script edits.fits (by simp)]
  cases walked : accumulateOffset range.start.index range.finish.index 0 hunks with
  | none => simp [outside]
  | some offset =>
    have bounds := accumulateOffset_bounded edits.script edits.fits (by omega) (by simp) walked
    have starts : checkedI64 (range.start.index + offset) = some (range.start.index + offset) :=
      checkedI64_eq (by omega) (by omega)
    have ends : checkedI64 (range.finish.index + offset) = some (range.finish.index + offset) :=
      checkedI64_eq (by omega) (by omega)
    simp only [Option.bind_some, starts, ends]
    cases first : tryFromIndex (range.start.index + offset) with
    | none => simp [outside, first]
    | some newStart =>
      cases last : tryFromIndex (range.finish.index + offset) with
      | none => simp [outside, first, last]
      | some newEnd =>
        have newStartIs := toNat_of_tryFromIndex first
        have newEndIs := toNat_of_tryFromIndex last
        by_cases beyond : newEnd.toNat ≥ new.length
        · simp [outside, first, last, beyond]
        · have fitsStart : checkedFromIndex newStart = some (LineNo.fromIndex newStart) := by
            rw [checkedFromIndex, if_pos (by omega)]
          have fitsEnd : checkedFromIndex newEnd = some (LineNo.fromIndex newEnd) := by
            rw [checkedFromIndex, if_pos (by omega)]
          simp [outside, first, last, beyond, fitsStart, fitsEnd]

end Checking

/-! ## Following unchanged lines -/

section Following

variable [Platform] {old new : List String} {hunks : List Hunk}

/-- For the edits that the diff answers, nothing overflows; a range is mapped exactly
when it lies inside the old lines and no hunk removes or splits it, and then to as many
lines with the same texts. -/
theorem mapRange_follows (range : LineRange)
    (answered : Platform.histogramDiff old new = some hunks) (edits : Edits old new hunks) :
    ∃ result, mapRange old new range = .ok result ∧ mapChecked hunks old new range = some result ∧
      ((∃ mapped, result = some mapped) ↔
        range.finish.index < old.length ∧
          ∀ hunk ∈ hunks, ¬ Removes range hunk ∧ ¬ Splits range hunk) ∧
      ∀ mapped, result = some mapped →
        mapped.len = range.len ∧ mapped.finish.index < new.length ∧
          textOf new mapped = textOf old range := by
  have apart : (∀ hunk ∈ hunks, ¬ Removes range hunk ∧ ¬ Splits range hunk) ↔ ∀ hunk ∈ hunks,
      hunk.beforeEnd ≤ range.start.index ∨ range.finish.index < hunk.beforeStart :=
    forall_congr' fun hunk => forall_congr' fun mem =>
      (apart_iff (edits.script.ordered hunk mem).2 (edits.changes hunk mem)).symm
  refine ⟨mapThrough hunks old new range, by rw [mapRange, answered], mapChecked_eq edits, ?_, ?_⟩
  · rw [apart]
    constructor
    · rintro ⟨mapped, through⟩
      exact apart_of_mapThrough edits through
    · rintro ⟨inside, alone⟩
      exact mapThrough_of_apart edits inside alone
  · intro mapped through
    obtain ⟨within, same⟩ := mapThrough_eq_some edits.script edits.numbered.2 through
    obtain ⟨inside, _⟩ := apart_of_mapThrough edits through
    refine ⟨?_, within, same⟩
    -- Equal texts that both lie inside their lists are equally long.
    have lengths := congrArg List.length same
    simp only [textOf, List.length_drop, List.length_take] at lengths
    have ordered := index_le range
    have ordered' := index_le mapped
    have positive := range.start.positive
    have positive' := mapped.start.positive
    have wide := range.ordered
    have wide' := mapped.ordered
    unfold LineNo.index at lengths within inside
    unfold LineRange.len
    omega

end Following

/-- A diff that sees a line put before all others as that one insertion. -/
@[reducible] def Platform.prepending : Platform :=
  { Platform.plain with
    histogramDiff := fun old new =>
      if new ≠ [] ∧ new.drop 1 = old then some [⟨0, 0, 0, 1⟩]
      else Platform.plain.histogramDiff old new }

theorem prepended_edits : Edits ["a", "b"] ["x", "a", "b"] [⟨0, 0, 0, 1⟩] where
  script := .hunk (Nat.le_refl 0) rfl (fun k below => absurd below (Nat.not_lt_zero _))
    (Nat.le_refl 0) (Nat.zero_le 1) (.rest rfl)
  inside := by decide
  changes := by decide
  numbered := by decide

/-- A line is put in front. -/
theorem mapRange_follows_prepended :
    ∃ result, @mapRange .prepending ["a", "b"] ["x", "a", "b"] (.single .FIRST) = .ok result ∧
      mapChecked [⟨0, 0, 0, 1⟩] ["a", "b"] ["x", "a", "b"] (.single .FIRST) = some result ∧
      ((∃ mapped, result = some mapped) ↔
        (LineRange.single .FIRST).finish.index < ["a", "b"].length ∧
          ∀ hunk ∈ ([⟨0, 0, 0, 1⟩] : List Hunk),
            ¬ Removes (.single .FIRST) hunk ∧ ¬ Splits (.single .FIRST) hunk) ∧
      ∀ mapped, result = some mapped →
        mapped.len = (LineRange.single .FIRST).len ∧
          mapped.finish.index < ["x", "a", "b"].length ∧
          textOf ["x", "a", "b"] mapped = textOf ["a", "b"] (.single .FIRST) :=
  @mapRange_follows .prepending _ _ _ (.single .FIRST) (by decide) prepended_edits

end Nits.ReviewCore
