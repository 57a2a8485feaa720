import Nits.ReviewCore.Reanchoring

/-!
# Moves that are none

A comment that is outdated already is outdated again whenever its file is present with
other content that its lines do not map to, and the move says nothing new. Every other
move changes the comment, and the same resolution again moves nothing.
-/

namespace Nits.ReviewCore

open Logical Protocol

section Platform

variable [Platform]

/-! ## One comment -/

section Comment

/-- Two contents through which the lines with this context do not map. -/
def Unmapped (old new : List UInt8) (lines : LineRange) (hash : ContextHash) : Prop :=
  mapRange (linesOf old) (linesOf new) lines = .ok none ∨
    ∃ mapped, mapRange (linesOf old) (linesOf new) lines = .ok (some mapped) ∧
      contextHash (linesOf new) mapped ≠ hash

/-- The path is present with other content that the anchored lines cannot be followed
to: a blob is unreadable, or the lines do not map. -/
inductive Unfollowed (oldBlob newBlob : BlobOid → Option (List UInt8)) : Anchor → PathFate → Prop
  | unreadable {repoId oldPath side blobOid lines hash path blob} (other : blob ≠ blobOid)
      (missing : oldBlob blobOid = none ∨ newBlob blob = none) :
      Unfollowed oldBlob newBlob (.lines repoId oldPath side blobOid lines hash)
        (.present path blob)
  | unmapped {repoId oldPath side blobOid lines hash path blob old new} (other : blob ≠ blobOid)
      (oldContent : oldBlob blobOid = some old) (newContent : newBlob blob = some new)
      (unmapped : Unmapped old new lines hash) :
      Unfollowed oldBlob newBlob (.lines repoId oldPath side blobOid lines hash)
        (.present path blob)

/-- What can become of an anchor whose path has some fate. -/
inductive Pursuit (oldBlob newBlob : BlobOid → Option (List UInt8)) : Anchor → PathFate → Prop
  | review {fate} : Pursuit oldBlob newBlob .review fate
  | gone {base} (anchored : base ≠ .review) : Pursuit oldBlob newBlob base .gone
  | file {repoId oldPath blobOid path blob} :
      Pursuit oldBlob newBlob (.file repoId oldPath blobOid) (.present path blob)
  | sameBlob {repoId oldPath side path blob lines hash} :
      Pursuit oldBlob newBlob (.lines repoId oldPath side blob lines hash) (.present path blob)
  | unfollowed {base fate} (unfollowed : Unfollowed oldBlob newBlob base fate) :
      Pursuit oldBlob newBlob base fate
  | mapped {repoId oldPath side blobOid lines hash path blob old new mapped}
      (other : blob ≠ blobOid) (oldContent : oldBlob blobOid = some old)
      (newContent : newBlob blob = some new)
      (range : mapRange (linesOf old) (linesOf new) lines = .ok (some mapped))
      (hashed : contextHash (linesOf new) mapped = hash) :
      Pursuit oldBlob newBlob (.lines repoId oldPath side blobOid lines hash) (.present path blob)
  | aborted {repoId oldPath side blobOid lines hash path blob old new panic}
      (other : blob ≠ blobOid) (oldContent : oldBlob blobOid = some old)
      (newContent : newBlob blob = some new)
      (range : mapRange (linesOf old) (linesOf new) lines = .error panic) :
      Pursuit oldBlob newBlob (.lines repoId oldPath side blobOid lines hash) (.present path blob)

theorem pursuit (oldBlob newBlob : BlobOid → Option (List UInt8)) (base : Anchor)
    (fate : PathFate) : Pursuit oldBlob newBlob base fate := by
  cases base with
  | review => exact .review
  | file repoId oldPath blobOid =>
    cases fate with
    | gone => exact .gone (by simp)
    | present path blob => exact .file
  | lines repoId oldPath side blobOid lines hash =>
    cases fate with
    | gone => exact .gone (by simp)
    | present path blob =>
      by_cases same : blob = blobOid
      · rw [same]
        exact .sameBlob
      cases oldContent : oldBlob blobOid with
      | none => exact .unfollowed (.unreadable same (.inl oldContent))
      | some old =>
        cases newContent : newBlob blob with
        | none => exact .unfollowed (.unreadable same (.inr newContent))
        | some new =>
          cases range : mapRange (linesOf old) (linesOf new) lines with
          | error panic => exact .aborted same oldContent newContent range
          | ok mapped =>
            cases mapped with
            | none => exact .unfollowed (.unmapped same oldContent newContent (.inl range))
            | some mapped =>
              by_cases hashed : contextHash (linesOf new) mapped = hash
              · exact .mapped same oldContent newContent range hashed
              · exact .unfollowed (.unmapped same oldContent newContent
                  (.inr ⟨mapped, range, hashed⟩))

variable {anchor anchor' : Anchor} {state state' : CommentState} {fate : PathFate}
  {oldBlob newBlob : BlobOid → Option (List UInt8)}

section Outcomes

theorem reanchor_review (based : effectiveAnchor anchor state = .review) :
    reanchor anchor state fate oldBlob newBlob = .ok .unchanged := by
  unfold reanchor
  dsimp only
  rw [based]
  exact ite_self _

theorem reanchor_gone (kept : state ≠ .deleted)
    (anchored : effectiveAnchor anchor state ≠ .review) :
    reanchor anchor state .gone oldBlob newBlob =
      .ok (if state = .live then .moved anchor (.outdated (effectiveAnchor anchor state))
        else .unchanged) := by
  unfold reanchor
  rw [if_neg kept]
  dsimp only
  cases based : effectiveAnchor anchor state with
  | review => exact absurd based anchored
  | file => rfl
  | lines => rfl

variable {repoId : RepoId} {hash : ContextHash}

theorem reanchor_file {oldPath path : RepoPath} {blobOid blob : BlobOid} (kept : state ≠ .deleted)
    (based : effectiveAnchor anchor state = .file repoId oldPath blobOid) :
    reanchor anchor state (.present path blob) oldBlob newBlob =
      .ok (if Anchor.file repoId path blob = anchor ∧ state = .live then .unchanged
        else .moved (.file repoId path blob) .live) := by
  unfold reanchor
  rw [if_neg kept]
  dsimp only
  rw [based]

theorem reanchor_sameBlob {oldPath path : RepoPath} {side : Side} {blob : BlobOid}
    {lines : LineRange} (kept : state ≠ .deleted)
    (based : effectiveAnchor anchor state = .lines repoId oldPath side blob lines hash) :
    reanchor anchor state (.present path blob) oldBlob newBlob =
      .ok (if state = .live ∧ path = anchorPath anchor then .unchanged
        else .moved (.lines repoId path side blob lines hash) .live) := by
  unfold reanchor
  rw [if_neg kept]
  dsimp only
  rw [based]
  exact if_pos rfl

/-- A comment whose lines cannot be followed is outdated, also if it is outdated already. -/
theorem reanchor_unfollowed (kept : state ≠ .deleted)
    (unfollowed : Unfollowed oldBlob newBlob (effectiveAnchor anchor state) fate) :
    reanchor anchor state fate oldBlob newBlob =
      .ok (.moved anchor (.outdated (effectiveAnchor anchor state))) := by
  generalize based : effectiveAnchor anchor state = base at unfollowed
  unfold reanchor
  rw [if_neg kept]
  dsimp only
  rw [based]
  cases unfollowed with
  | unreadable other missing =>
    dsimp only
    rw [if_neg other]
    rcases missing with missing | missing
    · rw [missing]
    · rw [missing]
      split
      · next readable => cases readable
      · rfl
  | unmapped other oldContent newContent unmapped =>
    dsimp only
    rw [if_neg other, oldContent, newContent]
    dsimp only
    rcases unmapped with missing | ⟨mapped, range, differs⟩
    · rw [missing]
      rfl
    · rw [range]
      exact congrArg Except.ok (if_pos differs)

theorem reanchor_mapped {oldPath path : RepoPath} {side : Side} {blobOid blob : BlobOid}
    {lines mapped : LineRange} {old new : List UInt8} (kept : state ≠ .deleted)
    (based : effectiveAnchor anchor state = .lines repoId oldPath side blobOid lines hash)
    (other : blob ≠ blobOid) (oldContent : oldBlob blobOid = some old)
    (newContent : newBlob blob = some new)
    (range : mapRange (linesOf old) (linesOf new) lines = .ok (some mapped))
    (hashed : contextHash (linesOf new) mapped = hash) :
    reanchor anchor state (.present path blob) oldBlob newBlob =
      .ok (.moved (.lines repoId path side blob mapped hash) .live) := by
  unfold reanchor
  rw [if_neg kept]
  dsimp only
  rw [based]
  dsimp only
  rw [if_neg other, oldContent, newContent]
  dsimp only
  rw [range]
  exact congrArg Except.ok (if_neg (not_not.mpr hashed))

theorem reanchor_aborted {oldPath path : RepoPath} {side : Side} {blobOid blob : BlobOid}
    {lines : LineRange} {old new : List UInt8} {panic : Panic} (kept : state ≠ .deleted)
    (based : effectiveAnchor anchor state = .lines repoId oldPath side blobOid lines hash)
    (other : blob ≠ blobOid) (oldContent : oldBlob blobOid = some old)
    (newContent : newBlob blob = some new)
    (range : mapRange (linesOf old) (linesOf new) lines = .error panic) :
    reanchor anchor state (.present path blob) oldBlob newBlob = .error panic := by
  unfold reanchor
  rw [if_neg kept]
  dsimp only
  rw [based]
  dsimp only
  rw [if_neg other, oldContent, newContent]
  dsimp only
  rw [range]
  rfl

theorem reanchor_deleted : reanchor anchor .deleted fate oldBlob newBlob = .ok .unchanged :=
  if_pos rfl

end Outcomes

/-- A comment that is outdated already and whose lines still cannot be followed. -/
def StaysUnfollowed (oldBlob newBlob : BlobOid → Option (List UInt8)) (anchor : Anchor)
    (state : CommentState) (fate : PathFate) : Prop :=
  (∃ good, state = .outdated good) ∧
    Unfollowed oldBlob newBlob (effectiveAnchor anchor state) fate

/-- A move that changes neither the anchor nor the state outdates a comment that is
outdated already. -/
theorem reanchor_same_iff : reanchor anchor state fate oldBlob newBlob = .ok (.moved anchor state) ↔
      StaysUnfollowed oldBlob newBlob anchor state fate := by
  constructor
  · intro same
    obtain ⟨good, rfl⟩ := outdated_of_reanchor_same same
    refine ⟨⟨good, rfl⟩, ?_⟩
    have kept : CommentState.outdated good ≠ .deleted := by simp
    generalize based : effectiveAnchor anchor (.outdated good) = base
    cases pursuit oldBlob newBlob base fate with
    | unfollowed unfollowed => exact unfollowed
    | review =>
      rw [reanchor_review based] at same
      cases same
    | gone anchored =>
      rw [reanchor_gone kept (based ▸ anchored)] at same
      cases same
    | file =>
      rw [reanchor_file kept based] at same
      simp at same
    | sameBlob =>
      rw [reanchor_sameBlob kept based] at same
      simp at same
    | mapped other oldContent newContent range hashed =>
      rw [reanchor_mapped kept based other oldContent newContent range hashed] at same
      cases same
    | aborted other oldContent newContent range =>
      rw [reanchor_aborted kept based other oldContent newContent range] at same
      cases same
  · rintro ⟨⟨good, rfl⟩, unfollowed⟩
    exact reanchor_unfollowed (by simp) unfollowed

/-- Re-anchoring again to where the comment was just moved leaves it there, unless its
lines could not be followed. -/
theorem reanchor_settles_iff :
    (∀ anchor' state', reanchor anchor state fate oldBlob newBlob = .ok (.moved anchor' state') →
      reanchor anchor' state' fate oldBlob newBlob = .ok .unchanged) ↔
      ¬ (state ≠ .deleted ∧ Unfollowed oldBlob newBlob (effectiveAnchor anchor state) fate) := by
  constructor
  · rintro settles ⟨kept, unfollowed⟩
    have once := reanchor_unfollowed kept unfollowed
    have again := settles _ _ once
    have still : Unfollowed oldBlob newBlob
        (effectiveAnchor anchor (.outdated (effectiveAnchor anchor state))) fate := unfollowed
    rw [reanchor_unfollowed (by simp) still] at again
    cases again
  · intro followed anchor' state' moved
    by_cases kept : state = .deleted
    · rw [kept, reanchor_deleted] at moved
      cases moved
    generalize based : effectiveAnchor anchor state = base at followed
    cases pursuit oldBlob newBlob base fate with
    | unfollowed unfollowed => exact absurd ⟨kept, unfollowed⟩ followed
    | review =>
      rw [reanchor_review based] at moved
      cases moved
    | gone anchored =>
      rw [reanchor_gone kept (based ▸ anchored)] at moved
      split at moved
      · cases moved
        rw [reanchor_gone (by simp) (by rw [effectiveAnchor, based]; exact anchored)]
        rfl
      · cases moved
    | file =>
      rw [reanchor_file kept based] at moved
      split at moved
      · cases moved
      · cases moved
        rw [reanchor_file (by simp) rfl]
        exact congrArg Except.ok (if_pos ⟨rfl, rfl⟩)
    | sameBlob =>
      rw [reanchor_sameBlob kept based] at moved
      split at moved
      · cases moved
      · cases moved
        rw [reanchor_sameBlob (by simp) rfl]
        exact congrArg Except.ok (if_pos ⟨rfl, rfl⟩)
    | mapped other oldContent newContent range hashed =>
      rw [reanchor_mapped kept based other oldContent newContent range hashed] at moved
      cases moved
      rw [reanchor_sameBlob (by simp) rfl]
      exact congrArg Except.ok (if_pos ⟨rfl, rfl⟩)
    | aborted other oldContent newContent range =>
      rw [reanchor_aborted kept based other oldContent newContent range] at moved
      cases moved

end Comment

/-! ## A resolution -/

section Resolution

variable {env : Environment} {core : Core} {ctx : Ctx} {review : ReviewId}
  {rest : List Event} {event : Event} {id : CommentId} {anchor : Anchor} {state : CommentState}

/-- A resolution moves a comment of the review as re-anchoring the stored comment says. -/
theorem Core.resolution_moves (consistent : Consistent core.store.views)
    (log : (resolveTargets ctx review env core).2.store.events = core.store.events ++ rest)
    (mem : event ∈ rest) (body : event.body = .commentReanchored review id anchor state) :
    ∃ comment fate oldBlob newBlob, core.store.views.comments[(review, id)]? = some comment ∧
      reanchor comment.anchor comment.state fate oldBlob newBlob = .ok (.moved anchor state) := by
  have resolution : Resolution review core (resolveTargets ctx review env core).2 :=
    resolution_of_run consistent
  have extends_ : Extends (Admissible env) core
      (resolveTargets ctx review env core).2 := resolveTargets_extends consistent
  cases resolution with
  | rests rests =>
    rw [rests.store] at log
    rw [List.self_eq_append_right.mp log] at mem
    cases mem
  | records new grown first moves recorded =>
    next recording events targets =>
    rw [grown] at log
    obtain rfl := List.append_cancel_left log
    have later : event ∈ events := by
      refine (List.mem_cons.mp mem).resolve_left ?_
      rintro rfl
      rw [first] at body
      cases body
    obtain ⟨middle, reaches, cut, continues⟩ : ∃ middle,
        Store.Grows (Admissible env) core.store middle ∧
          middle.events = core.store.events ++ [recording] ∧
            Store.Grows (Admissible env) middle
              (resolveTargets ctx review env core).2.store :=
      extends_.grows.cut grown
    have split : (resolveTargets ctx review env core).2.store.events =
        middle.events ++ events := by
      rw [grown, cut, List.append_assoc]
      rfl
    obtain ⟨comment, fate, oldBlob, newBlob, found, _, computed, _⟩ :=
      continues.comment_moved (reaches.consistent consistent) split moves later body
    refine ⟨comment, fate, oldBlob, newBlob, ?_, computed⟩
    rw [← found]
    refine (reaches.comment_kept consistent cut fun other only row => ?_).symm
    rw [List.mem_singleton.mp only, Rows.comment, first]

/-- A resolution that comes to the recorded targets again appends nothing. -/
theorem Core.resolution_again {targets : NonEmpty ResolvedTarget} {changed : Bool} {last : Core}
    (consistent : Consistent core.store.views) (recorded : core.store.Recorded review targets)
    (run : resolveTargets ctx review env core = (.ok (targets, changed), last)) :
    last.store.events = core.store.events := by
  obtain ⟨resolution, returned⟩ := (ends_resolveTargets consistent).of_returned run
  cases resolution with
  | rests rests => rw [rests.store]
  | records new _ _ _ stored =>
    rw [stored.unique returned] at new
    exact absurd recorded new

end Resolution

/-- Re-anchoring moves a comment to where it is, or does not settle, exactly where lines
cannot be followed. So does every resolution, and one that comes to the recorded targets
again appends nothing. -/
theorem reanchor_moves_iff :
    (∀ (anchor : Anchor) (state : CommentState) (fate : PathFate)
        (oldBlob newBlob : BlobOid → Option (List UInt8)),
      ((∀ anchor' state', reanchor anchor state fate oldBlob newBlob = .ok (.moved anchor' state') →
          anchor' ≠ anchor ∨ state' ≠ state) ↔
        ¬ StaysUnfollowed oldBlob newBlob anchor state fate) ∧
      ((∀ anchor' state', reanchor anchor state fate oldBlob newBlob = .ok (.moved anchor' state') →
          reanchor anchor' state' fate oldBlob newBlob = .ok .unchanged) ↔
        ¬ (state ≠ .deleted ∧
          Unfollowed oldBlob newBlob (effectiveAnchor anchor state) fate))) ∧
    ∀ (env : Environment) (steps : List Step) (ctx : Ctx) (review : ReviewId),
      let core := Core.run env .initial steps
      (∀ rest event id anchor state,
        (Core.resolveTargets ctx review env core).2.store.events =
            core.store.events ++ rest →
        event ∈ rest → event.body = .commentReanchored review id anchor state →
          ∃ comment fate oldBlob newBlob,
            core.store.views.comments[(review, id)]? = some comment ∧
            reanchor comment.anchor comment.state fate oldBlob newBlob =
              .ok (.moved anchor state) ∧
            (anchor ≠ comment.anchor ∨ state ≠ comment.state ↔
              ¬ StaysUnfollowed oldBlob newBlob comment.anchor comment.state fate)) ∧
      ∀ targets changed last, core.store.Recorded review targets →
        Core.resolveTargets ctx review env core = (.ok (targets, changed), last) →
          last.store.events = core.store.events := by
  refine ⟨fun anchor state fate oldBlob newBlob => ⟨?_, reanchor_settles_iff⟩, ?_⟩
  · rw [← reanchor_same_iff]
    constructor
    · intro real same
      exact (real anchor state same).elim (· rfl) (· rfl)
    · intro real anchor' state' moved
      by_contra same
      rw [not_or, not_ne_iff, not_ne_iff] at same
      obtain ⟨rfl, rfl⟩ := same
      exact real moved
  · intro env steps ctx review core
    have consistent : Consistent core.store.views := (reachable_run env steps).consistent
    refine ⟨fun rest event id anchor state log mem body => ?_, fun targets changed last =>
      Core.resolution_again consistent⟩
    obtain ⟨comment, fate, oldBlob, newBlob, found, computed⟩ :=
      Core.resolution_moves consistent log mem body
    refine ⟨comment, fate, oldBlob, newBlob, found, computed, ?_⟩
    rw [← reanchor_same_iff]
    constructor
    · intro real same
      rw [same] at computed
      cases computed
      exact real.elim (· rfl) (· rfl)
    · intro real
      by_contra same
      rw [not_or, not_ne_iff, not_ne_iff] at same
      obtain ⟨rfl, rfl⟩ := same
      exact real computed

end Platform

/-! ### A move that changes nothing -/

/-- A comment on the only line of a file. -/
def onlyLine : Anchor :=
  let _ : Platform := .plain
  .lines ⟨1⟩ ⟨"a", RepoPath.valid_a⟩ .head ⟨0⟩ (.single .FIRST) (contextHash ["x"] (.single .FIRST))

/-- The file's content, before and after the line was edited. -/
def editedContent (oid : BlobOid) : Option (List UInt8) :=
  if oid = ⟨0⟩ then some [120, 10] else some [121, 10]

/-- The line was edited and is edited again: the comment is outdated once more, at the
anchor and in the state it has. -/
theorem outdated_again :
    ∃ anchor' state', @reanchor .plain onlyLine (.outdated onlyLine) (.present ⟨"a", RepoPath.valid_a⟩ ⟨2⟩)
        editedContent editedContent = .ok (.moved anchor' state') ∧
      ¬ (anchor' ≠ onlyLine ∨ state' ≠ .outdated onlyLine) :=
  ⟨onlyLine, .outdated onlyLine, by decide +kernel, by simp⟩

end Nits.ReviewCore
