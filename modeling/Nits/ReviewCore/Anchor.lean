import Nits.Logical.EditScript
import Nits.Logical.Program
import Nits.ReviewCore.Render.Lines

/-!
# Re-anchoring

Follow a comment's anchor from one blob to another:

1. same blob: unchanged;
2. path gone: outdated, keeping the last good anchor;
3. blob changed: map the line range through the equal regions of the diff; live
   at the new blob if every anchored line maps and the context hash over the
   mapped range still matches, otherwise outdated.

File anchors follow the path and only go outdated when the file disappears. An
outdated comment is re-tried from its last good anchor on every resolution.
-/

namespace Nits.ReviewCore

open Logical Protocol

/-- The library functions the daemon rests on: the standard hasher over the bytes
written to it, the histogram diff, which refuses inputs with more lines than its
tokens can number, and the quoted form of a text in messages. -/
class Platform where
  defaultHasher : List UInt8 → UInt64
  histogramDiff : List String → List String → Option (List Hunk)
  debugStr : String → String

variable [Platform]

/-- Lines above and below the anchored range that the context hash covers. -/
def CONTEXT_LINES : Nat := 3

/-- What hashing the lines writes: each text ends with the string terminator and
one separator byte. -/
def hashedBytes (lines : List String) : List UInt8 :=
  lines.flatMap fun line => utf8Bytes line ++ [0xff, 0xff]

/-- Hash of the anchored lines plus `CONTEXT_LINES` on each side. The sum below
the range wraps in 32 bits. -/
def contextHash (lines : List String) (range : LineRange) : ContextHash :=
  let start := range.start.index - CONTEXT_LINES
  let finish := min ((range.finish.index + CONTEXT_LINES) % 2 ^ 32 + 1) lines.length
  ⟨Platform.defaultHasher (hashedBytes ((lines.take finish).drop (min start finish)))⟩

/-- Where a path ended up on the new side. -/
inductive PathFate
  | present (path : RepoPath) (blob : BlobOid)
  | gone
  deriving DecidableEq

/-- Outcome of re-anchoring one comment. -/
inductive Reanchor
  | unchanged
  | moved (anchor : Anchor) (state : CommentState)
  deriving DecidableEq

/-- A computation inside a library was aborted. -/
inductive Panic
  | tooManyTokens
  deriving DecidableEq

/-- The anchor to attempt from: a live comment's anchor, or an outdated comment's
last good one. -/
def effectiveAnchor (anchor : Anchor) : CommentState → Anchor
  | .outdated lastGoodAnchor => lastGoodAnchor
  | .live | .deleted => anchor

/-- What one hunk does to a range starting at `start` and ending at `finish`:
`stop` once the hunk lies beyond it, `refuse` when it touches it, otherwise the
shift it adds. -/
inductive HunkEffect
  | stop
  | refuse
  | shift (lines : Int)

def hunkEffect (start finish : Nat) (hunk : Hunk) : HunkEffect :=
  let beforeEmpty := hunk.beforeEnd ≤ hunk.beforeStart
  if hunk.beforeStart > finish then .stop
  -- The range intersects a changed region.
  else if hunk.beforeStart ≤ finish ∧ hunk.beforeEnd > start ∧ ¬ beforeEmpty then .refuse
  -- An insertion inside the range splits it.
  else if beforeEmpty ∧ hunk.beforeStart > start ∧ hunk.beforeStart ≤ finish then .refuse
  else if hunk.beforeEnd ≤ start ∨ (beforeEmpty ∧ hunk.beforeStart ≤ start) then
    .shift (((hunk.afterEnd : Int) - hunk.afterStart) - ((hunk.beforeEnd : Int) - hunk.beforeStart))
  else .shift 0

/-- Walk the hunks, accumulating the offset for equal regions. -/
def accumulateOffset (start finish : Nat) : Int → List Hunk → Option Int
  | offset, [] => some offset
  | offset, hunk :: rest =>
    match hunkEffect start finish hunk with
    | .stop => some offset
    | .refuse => none
    | .shift lines => accumulateOffset start finish (offset + lines) rest

/-- A signed line index as an unsigned 32-bit one. -/
def tryFromIndex (index : Int) : Option UInt32 :=
  if 0 ≤ index ∧ index < 2 ^ 32 then some (UInt32.ofNat index.toNat) else none

/-- Map a range through the hunks of a diff. -/
def mapThrough (hunks : List Hunk) (old new : List String) (range : LineRange) :
    Option LineRange := do
  let start := range.start.index
  let finish := range.finish.index
  if finish ≥ old.length then none
  let offset ← accumulateOffset start finish 0 hunks
  let newStart ← tryFromIndex (start + offset)
  let newEnd ← tryFromIndex (finish + offset)
  if newEnd.toNat ≥ new.length then none
  (LineRange.new (LineNo.fromIndex newStart) (LineNo.fromIndex newEnd)).toOption

/-- Map a 1-based line range through the diff of `old` to `new`. Succeeds only if
every line in the range lies in an unchanged region. -/
def mapRange (old new : List String) (range : LineRange) : Except Panic (Option LineRange) :=
  match Platform.histogramDiff old new with
  | none => .error .tooManyTokens
  | some hunks => .ok (mapThrough hunks old new range)

/-- Review anchors never reach path comparisons; the sentinel keeps `anchorPath`
total. -/
def SENTINEL : RepoPath := ⟨"<review>", by decide⟩

def anchorPath : Anchor → RepoPath
  | .file _ path _ | .lines _ path .. => path
  | .review => SENTINEL

/-- Re-anchor. `fate` is where the anchored path is on the new side; `oldBlob`
and `newBlob` provide content for line mapping. -/
def reanchor (anchor : Anchor) (state : CommentState) (fate : PathFate)
    (oldBlob newBlob : BlobOid → Option (List UInt8)) : Except Panic Reanchor :=
  if state = .deleted then .ok .unchanged
  else
    let base := effectiveAnchor anchor state
    let outdated : Reanchor := .moved anchor (.outdated base)
    let gone : Reanchor := if state = .live then outdated else .unchanged
    match base, fate with
    | .review, _ => .ok .unchanged
    | .file .., .gone => .ok gone
    | .file repoId _ _, .present path blob =>
      let moved : Anchor := .file repoId path blob
      .ok (if moved = anchor ∧ state = .live then .unchanged else .moved moved .live)
    | .lines .., .gone => .ok gone
    | .lines repoId _ side blobOid lines hash, .present path blob =>
      if blob = blobOid then
        .ok (if state = .live ∧ path = anchorPath anchor then .unchanged
          else .moved (.lines repoId path side blob lines hash) .live)
      else
        match oldBlob blobOid, newBlob blob with
        | some old, some new =>
          let oldLines := linesOf old
          let newLines := linesOf new
          (mapRange oldLines newLines lines).map fun
            | none => outdated
            | some mapped =>
              if contextHash newLines mapped ≠ hash then outdated
              else .moved (.lines repoId path side blob mapped hash) .live
        | _, _ => .ok outdated

/-- Everything a move can be: outdated in place, or live at the path's new blob. -/
inductive Moved (anchor : Anchor) (state : CommentState) (oldBlob newBlob : BlobOid → Option (List UInt8)) :
    PathFate → Anchor → CommentState → Prop
  | outdated {fate} (kept : state ≠ .deleted) (anchored : effectiveAnchor anchor state ≠ .review) :
      Moved anchor state oldBlob newBlob fate anchor (.outdated (effectiveAnchor anchor state))
  | file {repoId oldPath blobOid path blob} (kept : state ≠ .deleted)
      (base : effectiveAnchor anchor state = .file repoId oldPath blobOid) :
      Moved anchor state oldBlob newBlob (.present path blob) (.file repoId path blob) .live
  | sameBlob {repoId oldPath side path blob lines hash} (kept : state ≠ .deleted)
      (base : effectiveAnchor anchor state = .lines repoId oldPath side blob lines hash) :
      Moved anchor state oldBlob newBlob (.present path blob)
        (.lines repoId path side blob lines hash) .live
  | mapped {repoId oldPath side blobOid path blob lines mapped hash old new}
      (kept : state ≠ .deleted)
      (base : effectiveAnchor anchor state = .lines repoId oldPath side blobOid lines hash)
      (oldContent : oldBlob blobOid = some old) (newContent : newBlob blob = some new)
      (range : mapRange (linesOf old) (linesOf new) lines = .ok (some mapped))
      (hashed : contextHash (linesOf new) mapped = hash) :
      Moved anchor state oldBlob newBlob (.present path blob)
        (.lines repoId path side blob mapped hash) .live

theorem moved_of_reanchor {anchor : Anchor} {state : CommentState} {fate : PathFate}
    {oldBlob newBlob : BlobOid → Option (List UInt8)} {anchor' : Anchor} {state' : CommentState}
    (outcome : reanchor anchor state fate oldBlob newBlob = .ok (.moved anchor' state')) :
    Moved anchor state oldBlob newBlob fate anchor' state' := by
  unfold reanchor at outcome
  split at outcome
  · cases outcome
  next kept =>
  dsimp only at outcome
  have gone (anchored : effectiveAnchor anchor state ≠ .review)
      (outcome : (if state = .live then
        Reanchor.moved anchor (.outdated (effectiveAnchor anchor state)) else .unchanged) =
          .moved anchor' state') : Moved anchor state oldBlob newBlob .gone anchor' state' := by
    split at outcome
    · cases outcome
      exact .outdated kept anchored
    · cases outcome
  split at outcome
  · cases outcome
  · next base => exact gone (by simp [base]) (Except.ok.inj outcome)
  · next base =>
    replace outcome := Except.ok.inj outcome
    split at outcome
    · cases outcome
    · cases outcome
      exact .file kept base
  · next base => exact gone (by simp [base]) (Except.ok.inj outcome)
  · next base =>
    split at outcome
    · next same =>
      subst same
      replace outcome := Except.ok.inj outcome
      split at outcome
      · cases outcome
      · cases outcome
        exact .sameBlob kept base
    · split at outcome
      · next oldContent newContent =>
        obtain ⟨mapped, range, result⟩ := map_eq_ok.mp outcome
        split at result
        · cases result
          exact .outdated kept (by simp [base])
        · split at result
          · cases result
            exact .outdated kept (by simp [base])
          · next hashed =>
            cases result
            exact .mapped kept base oldContent newContent range (not_not.mp hashed)
      · cases outcome
        exact .outdated kept (by simp [base])

/-- Only a comment that is outdated can be moved to where it is. -/
theorem outdated_of_reanchor_same {anchor : Anchor} {state : CommentState} {fate : PathFate}
    {oldBlob newBlob : BlobOid → Option (List UInt8)}
    (same : reanchor anchor state fate oldBlob newBlob = .ok (.moved anchor state)) :
    ∃ good, state = .outdated good := by
  cases state with
  | outdated good => exact ⟨good, rfl⟩
  | deleted => simp [reanchor] at same
  | live =>
    cases anchor with
    | review => simp [reanchor, effectiveAnchor] at same
    | file repoId path blob =>
      cases fate with
      | gone => simp [reanchor, effectiveAnchor] at same
      | present newPath newOid =>
        simp only [reanchor, effectiveAnchor] at same
        grind
    | lines repoId path side blob range hash =>
      by_cases moved : ∃ newPath, fate = .present newPath blob
      · obtain ⟨newPath, rfl⟩ := moved
        simp only [reanchor, effectiveAnchor, anchorPath] at same
        grind
      · -- Any other live outcome names the blob that the path is at now.
        cases moved_of_reanchor same with
        | sameBlob => exact absurd ⟨_, rfl⟩ moved
        | mapped => exact absurd ⟨_, rfl⟩ moved

section Moving

variable {anchor anchor' : Anchor} {state state' : CommentState} {fate : PathFate}
  {oldBlob newBlob : BlobOid → Option (List UInt8)}

/-- A moved comment had not been deleted, and is not by moving. -/
theorem Moved.kept (moved : Moved anchor state oldBlob newBlob fate anchor' state') :
    state ≠ .deleted ∧ state' ≠ .deleted := by
  cases moved with
  | outdated kept => exact ⟨kept, by simp⟩
  | file kept => exact ⟨kept, by simp⟩
  | sameBlob kept => exact ⟨kept, by simp⟩
  | mapped kept => exact ⟨kept, by simp⟩

/-- Review anchors never move. -/
theorem Moved.anchored (moved : Moved anchor state oldBlob newBlob fate anchor' state') :
    effectiveAnchor anchor state ≠ .review := by
  cases moved with
  | outdated _ anchored => exact anchored
  | file _ base => simp [base]
  | sameBlob _ base => simp [base]
  | mapped _ base => simp [base]

/-- Moving outdates a comment at the anchor it was moved from. -/
theorem Moved.lastGood {lastGoodAnchor : Anchor}
    (moved : Moved anchor state oldBlob newBlob fate anchor' state')
    (outdated : state' = .outdated lastGoodAnchor) :
    lastGoodAnchor = effectiveAnchor anchor state ∧ anchor' = anchor := by
  cases moved with
  | outdated =>
    cases outdated
    exact ⟨rfl, rfl⟩
  | file => cases outdated
  | sameBlob => cases outdated
  | mapped => cases outdated

end Moving

/-- Which side's tree an anchor lives in. File anchors follow the head side. -/
def sideOf : Anchor → Option Side
  | .lines _ _ side .. => some side
  | .file .. => some .head
  | .review => none

end Nits.ReviewCore
