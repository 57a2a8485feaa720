import Nits.ReviewCore.Invariants

/-!
# Line anchors

A line anchor keeps naming the text it was made on. The hunks of the diff carry its
range to lines with the same text, and a stored anchor always lies in its blob and
has the hash of its context, however often its comment was moved, outdated or
revived.
-/

namespace Nits.ReviewCore

open Logical Protocol

/-! ## Mapping a range -/

section Mapping

variable {old new : List String} {hunks : List Hunk} {i j start finish : Nat} {offset result : Int}

/-- A hunk shifts the range only from before it. -/
theorem hunkEffect_shift {hunk : Hunk} {lines : Int} (removed : hunk.beforeStart ≤ hunk.beforeEnd)
    (effect : hunkEffect start finish hunk = .shift lines) :
    hunk.beforeEnd ≤ start ∧ lines = hunk.growth := by
  unfold hunkEffect at effect
  dsimp only at effect
  split at effect
  · cases effect
  split at effect
  · cases effect
  split at effect
  · cases effect
  split at effect
  · cases effect
    exact ⟨by omega, rfl⟩
  · omega

theorem hunkEffect_stop {hunk : Hunk} (effect : hunkEffect start finish hunk = .stop) :
    finish < hunk.beforeStart := by
  unfold hunkEffect at effect
  dsimp only at effect
  split at effect
  · assumption
  split at effect
  · cases effect
  split at effect
  · cases effect
  split at effect
  · cases effect
  · cases effect

/-- Walking the hunks succeeds only if none touches the range, and adds up what was
added before it. -/
theorem accumulateOffset_eq_some (script : EditScript old new i j hunks) (ordered : start ≤ finish)
    (walked : accumulateOffset start finish offset hunks = some result) :
    (∀ hunk ∈ hunks, hunk.beforeEnd ≤ start ∨ finish < hunk.beforeStart) ∧
      result = offset + growthBefore start hunks := by
  induction script generalizing offset with
  | rest =>
    cases walked
    simp [growthBefore]
  | @hunk i j hunk hunks before aligned same removed added script ih =>
    unfold accumulateOffset at walked
    split at walked
    · next effect =>
      cases walked
      have beyond := hunkEffect_stop effect
      have after : ∀ other ∈ hunk :: hunks, finish < other.beforeStart ∧
          other.beforeStart ≤ other.beforeEnd := by
        intro other mem
        rcases List.mem_cons.mp mem with rfl | later
        · exact ⟨beyond, removed⟩
        · have later := script.ordered other later
          omega
      refine ⟨fun other mem => .inr (after other mem).1, ?_⟩
      rw [growthBefore_eq_zero fun other mem => by have := after other mem; omega, add_zero]
    · cases walked
    · next lines effect =>
      obtain ⟨ended, rfl⟩ := hunkEffect_shift removed effect
      obtain ⟨apart, sum⟩ := ih walked
      refine ⟨?_, ?_⟩
      · intro other mem
        rcases List.mem_cons.mp mem with rfl | later
        · exact .inl ended
        · exact apart other later
      · rw [sum, growthBefore_cons ended, add_assoc]

/-- The texts of the lines in a range. -/
def textOf (lines : List String) (range : LineRange) : List String :=
  (lines.take (range.finish.index + 1)).drop range.start.index

theorem textOf_getElem? {lines : List String} {range : LineRange} {k : Nat} :
    (textOf lines range)[k]? =
      if range.start.index + k ≤ range.finish.index then lines[range.start.index + k]? else none := by
  rw [textOf, List.getElem?_drop, List.getElem?_take]
  simp only [Nat.lt_succ_iff]

theorem toNat_of_tryFromIndex {index : Int} {i : UInt32} (converted : tryFromIndex index = some i) :
    (i.toNat : Int) = index := by
  unfold tryFromIndex at converted
  split at converted
  · next small =>
    cases converted
    rw [UInt32.toNat_ofNat_of_lt' (by simp only [UInt32.size]; omega)]
    omega
  · cases converted

theorem new_toOption {first last : LineNo} {range : LineRange}
    (built : (LineRange.new first last).toOption = some range) :
    range.start = first ∧ range.finish = last := by
  unfold LineRange.new at built
  split at built
  · cases built
    exact ⟨rfl, rfl⟩
  · cases built

/-- A mapped range lies in the new lines and has the text of the old range. -/
theorem mapThrough_eq_some {range mapped : LineRange} (script : EditScript old new 0 0 hunks)
    (bounded : new.length < 2 ^ 32) (through : mapThrough hunks old new range = some mapped) :
    mapped.finish.index < new.length ∧ textOf new mapped = textOf old range := by
  unfold mapThrough at through
  dsimp only at through
  split at through
  · cases through
  obtain ⟨offset, walked, through⟩ := Option.bind_eq_some_iff.mp through
  obtain ⟨newStart, converted, through⟩ := Option.bind_eq_some_iff.mp through
  obtain ⟨newEnd, converted', through⟩ := Option.bind_eq_some_iff.mp through
  have starts := toNat_of_tryFromIndex converted
  have ends := toNat_of_tryFromIndex converted'
  split at through
  · cases through
  next inside =>
  have ordered : range.start.index ≤ range.finish.index := by
    have ordered := range.ordered
    unfold LineNo.index
    omega
  have exact_ {i : UInt32} (small : i.toNat ≤ newEnd.toNat) :
      (LineNo.fromIndex i).index = i.toNat := by
    rw [LineNo.index, LineNo.get_fromIndex (by omega)]
    rfl
  obtain ⟨same, same'⟩ := new_toOption through
  have start : mapped.start.index = newStart.toNat := by
    rw [same, exact_ (by omega)]
  have finish : mapped.finish.index = newEnd.toNat := by
    rw [same', exact_ (Nat.le_refl _)]
  obtain ⟨apart, sum⟩ := accumulateOffset_eq_some script ordered walked
  refine ⟨by omega, List.ext_getElem? fun k => ?_⟩
  rw [textOf_getElem?, textOf_getElem?, start, finish]
  by_cases within : range.start.index + k ≤ range.finish.index
  · obtain ⟨target, position, kept⟩ := script.kept apart (Nat.zero_le _)
      (Nat.le_add_right _ k) within
    rw [if_pos within, if_pos (by omega), kept]
    congr 1
    omega
  · rw [if_neg within, if_neg (by omega)]

end Mapping

/-! ## Anchors and contents -/

/-- The hunks of the diff are a correct script, and it refuses lists that are too long
to number. -/
structure Platform.DiffsCorrectly [Platform] : Prop where
  script : ∀ old new hunks, Platform.histogramDiff old new = some hunks →
    EditScript old new 0 0 hunks
  bounded : ∀ old new hunks, Platform.histogramDiff old new = some hunks → new.length < 2 ^ 32

/-- Whatever content git gives for a blob is the one its id fixes. -/
def Environment.FixesContents (env : Environment) (contents : BlobOid → List UInt8) :
    Prop :=
  ∀ number repo oid bytes, env.content number repo oid = some bytes → bytes = contents oid

section Anchoring

variable {contents : BlobOid → List UInt8}

/-- The texts of the lines an anchor names. -/
def anchoredText (contents : BlobOid → List UInt8) : Anchor → Option (List String)
  | .lines _ _ _ blobOid range _ => some (textOf (linesOf (contents blobOid)) range)
  | .review | .file .. => none

variable [Platform]

/-- The anchor's range lies inside its blob, and its hash is that of its context. -/
def Stands (contents : BlobOid → List UInt8) : Anchor → Prop
  | .lines _ _ _ blobOid range hash =>
    range.finish.index < (linesOf (contents blobOid)).length ∧
      hash = contextHash (linesOf (contents blobOid)) range
  | .review | .file .. => True

/-- A comment stands where it names the text that it was created on. -/
structure WrittenOn (contents : BlobOid → List UInt8) (events : List Event) (review : ReviewId)
    (id : CommentId) (comment : Comment) : Prop where
  lastGood : ∀ good, comment.state = .outdated good → good = comment.anchor
  stands : Stands contents comment.anchor
  created : ∃ event ∈ events, ∃ created : Comment, event.body = .commentCreated created ∧
    created.reviewId = review ∧ created.id = id ∧
      anchoredText contents comment.anchor = anchoredText contents created.anchor

variable {env : Environment} {anchor anchor' : Anchor} {state state' : CommentState}
  {fate : PathFate} {oldBlob newBlob : BlobOid → Option (List UInt8)} {events : List Event}
  {review : ReviewId} {id : CommentId} {comment : Comment}

theorem Stamped.stands (fixed : env.FixesContents contents)
    (stamped : Stamped env anchor) : Stands contents anchor := by
  cases stamped with
  | review => trivial
  | file => trivial
  | lines answered inside =>
    rw [fixed _ _ _ _ answered] at inside ⊢
    exact ⟨inside, rfl⟩

theorem mapRange_eq_ok {old new : List String} {range mapped : LineRange}
    (diffs : Platform.DiffsCorrectly) (result : mapRange old new range = .ok (some mapped)) :
    mapped.finish.index < new.length ∧ textOf new mapped = textOf old range := by
  unfold mapRange at result
  cases diff : Platform.histogramDiff old new with
  | none =>
    rw [diff] at result
    cases result
  | some hunks =>
    rw [diff] at result
    exact mapThrough_eq_some (diffs.script old new hunks diff) (diffs.bounded old new hunks diff)
      (Except.ok.inj result)

/-- Moving an anchor that stands keeps its text and leaves it standing. -/
theorem Moved.stands (moved : Moved anchor state oldBlob newBlob fate anchor' state')
    (diffs : Platform.DiffsCorrectly)
    (oldFixed : ∀ oid bytes, oldBlob oid = some bytes → bytes = contents oid)
    (newFixed : ∀ oid bytes, newBlob oid = some bytes → bytes = contents oid)
    (base : effectiveAnchor anchor state = anchor) (stands : Stands contents anchor) :
    Stands contents anchor' ∧ anchoredText contents anchor' = anchoredText contents anchor := by
  cases moved with
  | outdated => exact ⟨stands, rfl⟩
  | file _ held =>
    rw [base] at held
    rw [held]
    exact ⟨trivial, rfl⟩
  | sameBlob _ held =>
    rw [base] at held
    rw [held] at stands ⊢
    exact ⟨stands, rfl⟩
  | mapped _ held oldContent newContent range hashed =>
    rw [base] at held
    rw [held] at stands ⊢
    rw [oldFixed _ _ oldContent, newFixed _ _ newContent] at range
    rw [newFixed _ _ newContent] at hashed
    obtain ⟨inside, same⟩ := mapRange_eq_ok diffs range
    exact ⟨⟨inside, hashed.symm⟩, congrArg some same⟩

theorem WrittenOn.base (written : WrittenOn contents events review id comment) :
    effectiveAnchor comment.anchor comment.state = comment.anchor := by
  cases state : comment.state with
  | live => rfl
  | deleted => rfl
  | outdated good => exact written.lastGood good state

theorem WrittenOn.later {more : List Event} (written : WrittenOn contents events review id comment) :
    WrittenOn contents (events ++ more) review id comment where
  lastGood := written.lastGood
  stands := written.stands
  created := by
    obtain ⟨event, mem, created⟩ := written.created
    exact ⟨event, List.mem_append_left _ mem, created⟩

/-- A comment that changes in nothing but text or state stays where it stands. -/
theorem WrittenOn.same {other : Comment} (written : WrittenOn contents events review id comment)
    (anchor : other.anchor = comment.anchor)
    (state : ∀ good, other.state = .outdated good → comment.state = .outdated good) :
    WrittenOn contents events review id other where
  lastGood := fun good outdated => (written.lastGood good (state good outdated)).trans anchor.symm
  stands := anchor ▸ written.stands
  created := by
    rw [anchor]
    exact written.created

/-- Re-anchoring keeps a comment on what it was written on. -/
theorem WrittenOn.moved (written : WrittenOn contents events review id comment)
    (diffs : Platform.DiffsCorrectly)
    (oldFixed : ∀ oid bytes, oldBlob oid = some bytes → bytes = contents oid)
    (newFixed : ∀ oid bytes, newBlob oid = some bytes → bytes = contents oid)
    (moved : Moved comment.anchor comment.state oldBlob newBlob fate anchor state) :
    WrittenOn contents events review id (Rows.reanchored anchor state comment) := by
  obtain ⟨stands, text⟩ := moved.stands diffs oldFixed newFixed written.base written.stands
  refine ⟨fun good outdated => ?_, stands, ?_⟩
  · obtain ⟨lastGood, same⟩ := moved.lastGood outdated
    rw [lastGood, written.base]
    exact same.symm
  · obtain ⟨event, mem, created, body, own, own', first⟩ := written.created
    exact ⟨event, mem, created, body, own, own', text.trans first⟩

end Anchoring

/-! ## Runs -/

section Running

variable [Platform] {env : Environment} {contents : BlobOid → List UInt8}

/-- Every stored comment stands on what it was written on. -/
def Store.StandsOn (contents : BlobOid → List UInt8) (store : Store) : Prop :=
  ∀ (review : ReviewId) (id : CommentId) (comment : Comment),
    store.views.comments[(review, id)]? = some comment →
      WrittenOn contents store.events review id comment

/-- Every validated event keeps the comments on what they were written on. -/
theorem Store.StandsOn.step {before after : Store} {event : Event}
    (standing : before.StandsOn contents) (diffs : Platform.DiffsCorrectly)
    (fixed : env.FixesContents contents) (consistent : Consistent before.views)
    (gains : before.Gains (Admissible env) event after) : after.StandsOn contents := by
  intro review id comment found
  have follows := Views.follows_of_apply consistent.toKeyed gains.applied
  rw [follows.comment, Rows.comment] at found
  rw [gains.events]
  have admissible := gains.allowed
  -- What an event does to one row, where it changes a comment.
  have changed {key : ReviewId × CommentId} {change : Comment → Comment}
      (found : Rows.changeAt key (review, id) change before.views.comments[(review, id)]? =
        some comment)
      (kept : ∀ stored, key = (review, id) →
        before.views.comments[(review, id)]? = some stored →
          WrittenOn contents before.events review id stored →
            WrittenOn contents before.events review id (change stored)) :
      WrittenOn contents (before.events ++ [event]) review id comment := by
    unfold Rows.changeAt at found
    split at found
    · next same =>
      obtain ⟨stored, present, rfl⟩ := Option.map_eq_some_iff.mp found
      exact (kept stored same present (standing review id stored present)).later
    · exact (standing review id comment found).later
  cases body : event.body with
  | commentCreated created =>
    rw [body] at found admissible
    dsimp only [Rows.storeAt] at found
    split at found
    · next same =>
      obtain ⟨rfl, rfl⟩ := Prod.mk.inj same
      obtain rfl := Option.some.inj found
      have first : ∃ event' ∈ before.events ++ [event], ∃ first : Comment,
          event'.body = .commentCreated first ∧ first.reviewId = created.reviewId ∧
            first.id = created.id ∧
              anchoredText contents created.anchor = anchoredText contents first.anchor :=
        ⟨event, by simp, created, body, rfl, rfl, rfl⟩
      rcases admissible.2 with starts | joins
      · refine ⟨fun good outdated => ?_, starts.stamped.stands fixed, first⟩
        rw [starts.state] at outdated
        cases outdated
      · obtain ⟨thread, root, _, live, anchor, state, _⟩ := joins.inherits
        have written := standing _ _ root live.found
        refine ⟨fun good outdated => ?_, anchor ▸ written.stands, first⟩
        rw [anchor]
        exact written.lastGood good (state ▸ outdated)
    · exact (standing review id comment found).later
  | commentEdited owner edited text =>
    rw [body] at found
    exact changed found fun stored _ _ written => written.same rfl fun _ outdated => outdated
  | commentDeleted owner deleted =>
    rw [body] at found
    exact changed found fun stored _ _ written => written.same rfl fun _ outdated => by cases outdated
  | commentReanchored owner moved anchor state =>
    rw [body] at found admissible
    refine changed found fun stored same present written => ?_
    obtain ⟨rfl, rfl⟩ := Prod.mk.inj same
    obtain ⟨held, fate, number, repo, again, _, computed⟩ := admissible.computed
    obtain rfl := Option.some.inj (present.symm.trans again)
    exact written.moved diffs (fun oid bytes => fixed number repo oid bytes)
      (fun oid bytes => fixed (number + 1) repo oid bytes) (moved_of_reanchor computed)
  | _ =>
    rw [body] at found
    exact (standing review id comment found).later

theorem Store.StandsOn.empty : Store.empty.StandsOn contents := by
  intro review id comment found
  simp [Store.empty, Views.empty] at found

/-- In every state of a run, a comment on lines, whatever its state and context, has a
range inside its blob, the hash of the context there, and the texts of the lines it was
created on. -/
theorem run_standsOn (diffs : Platform.DiffsCorrectly) (fixed : env.FixesContents contents)
    (steps : List Step) {review : ReviewId} {id : CommentId} {comment : Comment} {repoId : RepoId}
    {path : RepoPath} {side : Side} {blobOid : BlobOid} {range : LineRange} {hash : ContextHash}
    (found : (Core.run env .initial steps).store.views.comments[(review, id)]? =
      some comment) (anchor : comment.anchor = .lines repoId path side blobOid range hash) :
    range.finish.index < (linesOf (contents blobOid)).length ∧
      hash = contextHash (linesOf (contents blobOid)) range ∧
      ∃ event ∈ (Core.run env .initial steps).store.events, ∃ created : Comment,
        event.body = .commentCreated created ∧ created.reviewId = review ∧ created.id = id ∧
          anchoredText contents created.anchor =
            some (textOf (linesOf (contents blobOid)) range) := by
  have grows := (reachable_run env steps).extends.grows
  have standing := grows.keeps_consistent (Store.StandsOn contents)
    (fun consistent standing gains => standing.step diffs fixed consistent gains) .empty .empty
  have written := standing review id comment found
  have stands := written.stands
  obtain ⟨event, mem, created, body, own, own', text⟩ := written.created
  rw [anchor] at stands text
  exact ⟨stands.1, stands.2, event, mem, created, body, own, own', text.symm⟩

end Running

theorem plain_diffsCorrectly : @Platform.DiffsCorrectly .plain := by
  let _ : Platform := .plain
  have accepted {old new : List String} {hunks : List Hunk}
      (diff : Platform.histogramDiff old new = some hunks) :
      max old.length new.length < 2147483647 ∧
        hunks = if old = new then [] else [⟨0, old.length, 0, new.length⟩] := by
    change (if 2147483647 ≤ max old.length new.length then none
      else some (if old = new then [] else [⟨0, old.length, 0, new.length⟩])) = some hunks at diff
    split at diff
    · cases diff
    · cases diff
      exact ⟨by omega, rfl⟩
  refine ⟨fun old new hunks diff => ?_, fun old new hunks diff => ?_⟩
  · obtain ⟨_, rfl⟩ := accepted diff
    split
    · next same =>
      subst same
      exact .refl
    · exact .replaceAll
  · have small := (accepted diff).1
    omega

/-- What the blobs hold: the first line was edited. -/
def editedLine (oid : BlobOid) : List UInt8 :=
  if oid = ⟨0⟩ then [120, 10, 121, 10] else [122, 10, 121, 10]

/-- The head moves to the edited file before one resolution and back before the next. -/
def headMoves : Environment where
  answer number call :=
    let path : RepoPath := ⟨"a", RepoPath.valid_a⟩
    match call with
    | .resolve .. =>
      let stage := if 18 ≤ number ∧ number < 31 then 1 else 0
      .ok ⟨⟨stage⟩, .commit ⟨stage⟩⟩
    | .blob _ oid => .ok (editedLine oid)
    | .treeSnapshot _ tree => .ok [⟨path, .file (if tree = ⟨0⟩ then ⟨0⟩ else ⟨1⟩) 4 false⟩]
    | .changedFiles _ base head => .ok [⟨path, .modified
        ⟨if base = ⟨0⟩ then ⟨0⟩ else ⟨1⟩, .regular⟩ ⟨if head = ⟨0⟩ then ⟨0⟩ else ⟨1⟩, .regular⟩⟩]
    | other => Environment.calm.answer number other

theorem headMoves_fixesContents : headMoves.FixesContents editedLine := by
  intro number repo oid bytes answered
  exact (Option.some.inj answered).symm

/-- A session with one comment on lines, which is outdated and then revived. -/
def onLine : List Step :=
  Session.opening ++ [
    Session.mutate (.addComment Session.reviewId ⟨5⟩ .note
      (.lines Session.repoId ⟨"a", RepoPath.valid_a⟩ .head ⟨0⟩ (.single .FIRST) ⟨0⟩) "first" none),
    .perform (Session.by_ Session.user) (.resolveTargets Session.reviewId),
    .perform (Session.by_ Session.user) (.resolveTargets Session.reviewId)]

/-- The comment was moved twice and is on its first line again. -/
theorem onLine_standsOn : (@Core.run .plain headMoves .initial onLine).store.events.length = 9 ∧
      (LineRange.single .FIRST).finish.index < (linesOf (editedLine ⟨0⟩)).length ∧
      ⟨9891242888⟩ = @contextHash .plain (linesOf (editedLine ⟨0⟩)) (.single .FIRST) ∧
      ∃ event ∈ (@Core.run .plain headMoves .initial onLine).store.events, ∃ created : Comment,
        event.body = .commentCreated created ∧ created.reviewId = Session.reviewId ∧
          created.id = ⟨5⟩ ∧ anchoredText editedLine created.anchor =
            some (textOf (linesOf (editedLine ⟨0⟩)) (.single .FIRST)) := by
  have stored : ((@Core.run .plain headMoves .initial onLine).store.views.comments[
      (Session.reviewId, (⟨5⟩ : CommentId))]?).map Comment.anchor =
        some (.lines Session.repoId ⟨"a", RepoPath.valid_a⟩ .head ⟨0⟩ (.single .FIRST) ⟨9891242888⟩) := by
    decide +kernel
  obtain ⟨comment, found, anchor⟩ := Option.map_eq_some_iff.mp stored
  let _ : Platform := .plain
  exact ⟨by decide +kernel,
    run_standsOn plain_diffsCorrectly headMoves_fixesContents onLine found anchor⟩

end Nits.ReviewCore
