import Nits.ClientCore.Overlay
import Nits.ClientCore.Explorer
import Nits.ReviewCore.Soundness

/-!
# Viewed state

A mark records the person who made it, and the file's content at the time. The daemon
keeps one row per file, so the last mark or unmark by anyone is all it knows; a client
looks for the mark of its own user, and folds the events of a review it has open person
by person. Both states are compared with the one that follows from the viewer's own
marks.
-/

namespace Nits.ReviewCore

open Logical Protocol

/-- The viewed state of a file, as the daemon reports it. -/
inductive ViewedState
  | unviewed
  | viewed
  | changedSinceViewed (marked : ViewedContent)
  deriving DecidableEq

/-- The marks of a review, by file. -/
def Store.viewed (store : Store) (review : ReviewId) : List ViewedMark :=
  store.views.viewed.under review

def Core.viewedState (id : ReviewId) (repoId : RepoId) (path : RepoPath) : CoreM ViewedState := do
  let store ← Program.read Core.store
  match (store.viewed id).find? fun mark => mark.repoId = repoId ∧ mark.path = path with
  | none => pure .unviewed
  | some mark =>
    let current ← headContent id repoId path
    pure (if current = mark.content then .viewed else .changedSinceViewed mark.content)

/-! ## The marks of one file -/

/-- A file of a review. -/
abbrev FileKey : Type := ReviewId × RepoId × RepoPath

/-- A mark or an unmark of a file: who made it, and the content it marked. -/
structure Sighting where
  viewer : Human
  content : Option ViewedContent
  deriving DecidableEq

def sightingOf (file : FileKey) (event : Event) : Option Sighting :=
  match event.body with
  | .fileViewed reviewId repoId path viewer content =>
    if (reviewId, repoId, path) = file then some ⟨viewer, some content⟩ else none
  | .fileUnviewed reviewId repoId path viewer =>
    if (reviewId, repoId, path) = file then some ⟨viewer, none⟩ else none
  | _ => none

/-- The marks and unmarks of a file, in the order they were made. -/
def sightings (file : FileKey) (events : List Event) : List Sighting :=
  events.filterMap (sightingOf file)

/-- The content that a viewer's own last mark stands for, if their last word is a mark. -/
def ownMark (file : FileKey) (viewer : Human) (events : List Event) : Option ViewedContent :=
  ((sightings file events).filter fun sighting => sighting.viewer = viewer).getLast?.bind
    Sighting.content

/-- The last mark or unmark of the file is the viewer's, or leaves it unmarked as the
viewer's own last one does. -/
def Undisturbed (file : FileKey) (viewer : Human) (events : List Event) : Prop :=
  (∃ last ∈ (sightings file events).getLast?, last.viewer = viewer) ∨
    (ownMark file viewer events = none ∧ ∀ last ∈ (sightings file events).getLast?,
      last.content = none)

/-- What a mark makes of a file whose head content is known. -/
def standing (mark : Option ViewedContent) (head : ViewedContent) : ViewedState :=
  match mark with
  | none => .unviewed
  | some content => if head = content then .viewed else .changedSinceViewed content

/-- The state as a client shows it. -/
def ViewedState.shown : ViewedState → ClientCore.ViewedState
  | .unviewed => .unviewed
  | .viewed => .viewed
  | .changedSinceViewed _ => .changedSinceViewed

/-! ## What the daemon keeps -/

/-- The row that a mark or an unmark leaves behind. -/
def Sighting.row (file : FileKey) (sighting : Sighting) : Option ViewedMark :=
  sighting.content.map fun content => ⟨file.1, file.2.1, file.2.2, sighting.viewer, content⟩

/-- One event replaces the row of a file exactly if it marks or unmarks the file. -/
theorem Rows.viewed_eq (event : Event) (file : FileKey) (row : Option ViewedMark) :
    Rows.viewed event file row = (sightingOf file event).elim row (Sighting.row file) := by
  obtain ⟨seq, ts, author, clientId, clientSeq, body⟩ := event
  unfold Rows.viewed sightingOf
  cases body with
  | fileViewed reviewId repoId path viewer content =>
    by_cases same : (reviewId, repoId, path) = file
    · subst same
      simp [storeAt, Sighting.row]
    · simp [storeAt, same]
  | fileUnviewed reviewId repoId path viewer =>
    by_cases same : (reviewId, repoId, path) = file
    · subst same
      simp [Sighting.row]
    · simp [same]
  | _ => rfl

theorem sightings_concat (file : FileKey) (events : List Event) (event : Event) :
    sightings file (events ++ [event]) =
      sightings file events ++ (sightingOf file event).toList := by
  unfold sightings
  rw [List.filterMap_append]
  cases read : sightingOf file event <;> simp [read]

/-- The row of a file is what the last mark or unmark left behind, whoever made it. -/
def LastRow (file : FileKey) (store : Store) : Prop :=
  store.views.viewed[file]? = (sightings file store.events).getLast?.bind (Sighting.row file)

theorem LastRow.gains {file : FileKey} {allowed : Allowed} {before after : Store} {event : Event}
    (keyed : Keyed before.views) (gains : Store.Gains allowed before event after)
    (row : LastRow file before) : LastRow file after := by
  have follows := Views.follows_of_apply keyed gains.applied
  unfold LastRow at row ⊢
  rw [follows.viewed, Rows.viewed_eq, gains.events, sightings_concat]
  cases sightingOf file event with
  | none =>
    rw [Option.toList_none, List.append_nil]
    exact row
  | some sighting =>
    rw [Option.toList_some, List.getLast?_concat]
    rfl

section Stored

variable {env : Environment} {core : Core} [Platform]

/-- The daemon's row of a file, in every state it reaches. -/
theorem Reachable.lastRow (reachable : Reachable env core) (file : FileKey) :
    LastRow file core.store := by
  refine Store.Grows.keeps_consistent (LastRow file) reachable.extends.grows ?_ .empty ?_
  · intro before after event consistent row gains
    exact row.gains consistent.toKeyed gains
  · simp [LastRow, Core.initial, Core.opened, Store.empty, Views.empty, sightings]

end Stored

/-! ## What is found -/

/-- Among rows held once each, a search that asks for more than the key finds the row of
the key or nothing. -/
theorem find?_of_holds {K V : Type} [DecidableEq K] {key : V → K} {rows : List V}
    {lookup : K → Option V} (holds : Holds key rows lookup) (k : K) (wanted : V → Bool) :
    rows.find? (fun row => key row = k ∧ wanted row) = (lookup k).filter wanted := by
  cases found : rows.find? (fun row => key row = k ∧ wanted row) with
  | some row =>
    have mem := List.mem_of_find?_eq_some found
    have same : key row = k ∧ wanted row = true := by simpa using List.find?_some found
    have stored : lookup k = some row := by
      rw [← same.1]
      exact (holds.mem_iff row).mp mem
    rw [stored, Option.filter_some, if_pos same.2]
  | none =>
    cases stored : lookup k with
    | none => rfl
    | some row =>
      have own : key row = k := holds.own stored
      have mem : row ∈ rows := (holds.mem_iff row).mpr (by rw [own, stored])
      have passed : ¬ (key row = k ∧ wanted row = true) := by
        simpa using List.find?_eq_none.mp found row mem
      rw [Option.filter_some, if_neg fun wants => passed ⟨own, wants⟩]

section Found

variable {store : Store} {id : ReviewId} {repoId : RepoId} {path : RepoPath}

theorem find?_viewed (keyed : Keyed store.views) :
    (store.viewed id).find? (fun mark => mark.repoId = repoId ∧ mark.path = path) =
      store.views.viewed[(id, repoId, path)]? := by
  rw [← (keyed.viewed_held id).find? (repoId, path)]
  simp only [Store.viewed, Prod.mk.injEq]

theorem find?_viewedBy (keyed : Keyed store.views) (viewer : Human) :
    (store.viewed id).find? (fun mark =>
        mark.repoId = repoId ∧ mark.path = path ∧ mark.viewer = viewer) =
      store.views.viewed[(id, repoId, path)]?.filter (fun mark => mark.viewer = viewer) := by
  rw [← find?_of_holds (keyed.viewed_held id) (repoId, path)]
  simp only [Store.viewed, Prod.mk.injEq, decide_eq_true_eq, and_assoc]

end Found

/-! ## The two states -/

theorem standing_injective (head : ViewedContent) :
    Function.Injective fun mark => standing mark head := by
  rintro (_ | left) (_ | right) same
  · rfl
  · simp only [standing] at same
    split at same <;> cases same
  · simp only [standing] at same
    split at same <;> cases same
  · simp only [standing] at same
    split at same
    · next first =>
      split at same
      · next second => rw [← first, ← second]
      · cases same
    · split at same
      · cases same
      · rw [ViewedState.changedSinceViewed.inj same]

/-- A client shows a file as unviewed exactly if nothing stands for it. -/
theorem shown_standing_eq_unviewed {mark : Option ViewedContent} {head : ViewedContent} :
    (standing mark head).shown = .unviewed ↔ mark = none := by
  cases mark with
  | none => simp [standing, ViewedState.shown]
  | some content =>
    unfold standing
    dsimp only
    split <;> simp [ViewedState.shown]

/-- What a client shows for the mark of its user is what that mark makes of the file. -/
theorem clientState_eq {snapshot : ReviewSnapshot} {viewer : Human} {repoId : RepoId}
    {path : RepoPath} {head : ViewedContent} :
    ClientCore.viewedState snapshot (.human viewer.name viewer.machine) repoId path head =
      (standing ((snapshot.viewed.find? fun mark =>
        mark.repoId = repoId ∧ mark.path = path ∧ mark.viewer = viewer).map
          ViewedMark.content) head).shown := by
  unfold ClientCore.viewedState
  dsimp only [Author.asHuman]
  cases snapshot.viewed.find? fun mark =>
      mark.repoId = repoId ∧ mark.path = path ∧ mark.viewer = viewer with
  | none => rfl
  | some mark =>
    by_cases current : mark.content = head
    · simp [standing, ViewedState.shown, current]
    · simp [standing, ViewedState.shown, current, Ne.symm current]

/-- The row that is left behind is the viewer's if the mark is. -/
theorem Sighting.rows_by (file : FileKey) (viewer : Human) (last : Option Sighting) :
    ((last.bind (Sighting.row file)).filter fun mark => mark.viewer = viewer).map
        ViewedMark.content =
      (last.filter fun last => last.viewer = viewer).bind Sighting.content := by
  cases last with
  | none => rfl
  | some sighting =>
    obtain ⟨marker, content⟩ := sighting
    rw [Option.bind_some, Option.filter_some]
    by_cases same : marker = viewer
    · cases content <;> simp [Sighting.row, same]
    · cases content <;> simp [Sighting.row, same]

section States

variable {env : Environment} {core : Core} [Platform] {id : ReviewId} {repoId : RepoId}
  {path : RepoPath} {head : ViewedContent}

/-- The daemon answers with what the last mark by anyone makes of the file. -/
theorem viewedState_daemon (reachable : Reachable env core)
    (read : (Core.headContent id repoId path env core).1 = .ok head) :
    (Core.viewedState id repoId path env core).1 =
      .ok (standing ((sightings (id, repoId, path) core.store.events).getLast?.bind
        Sighting.content) head) := by
  have row := reachable.lastRow (id, repoId, path)
  unfold Core.viewedState
  rw [Program.bind_eq Program.read_eq, find?_viewed reachable.consistent.toKeyed, row]
  cases (sightings (id, repoId, path) core.store.events).getLast? with
  | none => rfl
  | some last =>
    obtain ⟨viewer, content⟩ := last
    cases content with
    | none => rfl
    | some content =>
      obtain ⟨_, ran⟩ := Program.exists_last read
      simp only [Option.bind_some, Sighting.row, Option.map_some]
      rw [Program.bind_eq ran]
      rfl

/-- A client of a fresh snapshot shows what the last mark by anyone makes of the file, if
that mark is its own user's. -/
theorem viewedState_client (reachable : Reachable env core) {snapshot : ReviewSnapshot}
    (found : core.store.reviewSnapshot id = some snapshot) (viewer : Human) :
    ClientCore.viewedState snapshot (.human viewer.name viewer.machine) repoId path head =
      (standing (((sightings (id, repoId, path) core.store.events).getLast?.filter
        fun last => last.viewer = viewer).bind Sighting.content) head).shown := by
  obtain ⟨record, _, _, rfl⟩ := Store.reviewSnapshot_eq_some.mp found
  have row := reachable.lastRow (id, repoId, path)
  have searched := @find?_viewedBy _ id repoId path reachable.consistent.toKeyed viewer
  rw [row] at searched
  rw [clientState_eq, ← Sighting.rows_by]
  exact congrArg (fun mark => (standing (mark.map ViewedMark.content) head).shown) searched

end States

/-- The states follow from the last mark or unmark by anyone as they should from the
viewer's own, exactly in an undisturbed history. -/
theorem undisturbed_iff {file : FileKey} {viewer : Human} {events : List Event}
    {head : ViewedContent} :
    standing ((sightings file events).getLast?.bind Sighting.content) head =
          standing (ownMark file viewer events) head ∧
        (standing (((sightings file events).getLast?.filter fun last => last.viewer = viewer).bind
          Sighting.content) head).shown = (standing (ownMark file viewer events) head).shown ↔
      Undisturbed file viewer events := by
  rw [(standing_injective head).eq_iff]
  unfold Undisturbed
  constructor
  · rintro ⟨same, shown⟩
    cases last : (sightings file events).getLast? with
    | none =>
      rw [last] at same
      exact .inr ⟨same.symm, by simp⟩
    | some sighting =>
      rw [last] at same shown
      by_cases own : sighting.viewer = viewer
      · exact .inl ⟨sighting, rfl, own⟩
      · rw [Option.filter_some, if_neg (by simpa using own)] at shown
        have unmarked : ownMark file viewer events = none :=
          shown_standing_eq_unviewed.mp shown.symm
        refine .inr ⟨unmarked, ?_⟩
        rintro _ ⟨⟩
        rw [← unmarked, ← same]
        rfl
  · rintro (⟨sighting, last, own⟩ | ⟨unmarked, left⟩)
    · have last : (sightings file events).getLast? = some sighting := last
      obtain ⟨early, all⟩ := List.getLast?_eq_some_iff.mp last
      have mark : ownMark file viewer events = sighting.content := by
        unfold ownMark
        rw [all, List.filter_append, List.filter_cons_of_pos (by simpa using own),
          List.filter_nil, List.getLast?_concat]
        rfl
      rw [last, mark, Option.filter_some, if_pos (by simpa using own)]
      exact ⟨rfl, rfl⟩
    · rw [unmarked]
      cases last : (sightings file events).getLast? with
      | none => exact ⟨rfl, rfl⟩
      | some sighting =>
        have bare : sighting.content = none := left sighting last
        rw [Option.filter_some]
        refine ⟨bare, ?_⟩
        split
        · rw [Option.bind_some, bare]
        · rfl

/-- In every state that a daemon reaches, the state it computes for a file and the one
that the viewer's client computes from its snapshot are both the one that the viewer's own
last mark or unmark gives the file, exactly if the history is undisturbed for the viewer. -/
theorem viewed_iff_undisturbed [Platform] {env : Environment} {core : Core}
    (reachable : Reachable env core) {id : ReviewId} {snapshot : ReviewSnapshot}
    (found : core.store.reviewSnapshot id = some snapshot) (viewer : Human) (repoId : RepoId)
    (path : RepoPath) {head : ViewedContent}
    (read : (Core.headContent id repoId path env core).1 = .ok head) :
    ((Core.viewedState id repoId path env core).1 =
          .ok (standing (ownMark (id, repoId, path) viewer core.store.events) head) ∧
        ClientCore.viewedState snapshot (.human viewer.name viewer.machine) repoId path head =
          (standing (ownMark (id, repoId, path) viewer core.store.events) head).shown) ↔
      Undisturbed (id, repoId, path) viewer core.store.events := by
  rw [viewedState_daemon reachable read, viewedState_client reachable found viewer,
    Except.ok.injEq]
  exact undisturbed_iff

/-! ## Two people on one file -/

namespace Session

def other : Author := .human "grace" "desk"

def seen : RepoPath := ⟨"a", RepoPath.valid_a⟩

def markedBy (author : Author) : Step :=
  .perform (by_ author) (.mutate (.markViewed reviewId repoId seen))

/-- The session's user marks a file of the review. -/
def userMarks : List Step := opening ++ [markedBy user]

/-- The session's user marks a file of the review, and then somebody else does. -/
def bothMark : List Step := userMarks ++ [markedBy other]

end Session

open Session in
/-- A single viewer's mark is what both sides report. -/
theorem userMarks_viewed : (Core.viewedState reviewId repoId seen .calm
          (@Core.run .plain .calm .initial userMarks)).1 = .ok .viewed ∧
      ∃ snapshot, (@Core.run .plain .calm .initial userMarks).store.reviewSnapshot reviewId =
          some snapshot ∧
        ClientCore.viewedState snapshot user repoId seen .missing = .viewed := by
  let _ : Platform := .plain
  have live : ((Core.run .calm .initial userMarks).store.reviewSnapshot reviewId).isSome := by
    decide +kernel
  obtain ⟨snapshot, found⟩ := Option.isSome_iff_exists.mp live
  have own : ownMark (reviewId, repoId, seen) ⟨"ada", "laptop"⟩
      (Core.run .calm .initial userMarks).store.events = some .missing := by decide +kernel
  have states := (viewed_iff_undisturbed ⟨userMarks, rfl⟩ found ⟨"ada", "laptop"⟩ repoId seen
    (by decide +kernel : (Core.headContent reviewId repoId seen .calm
      (Core.run .calm .initial userMarks)).1 = .ok .missing)).mpr
        (.inl ⟨⟨⟨"ada", "laptop"⟩, some .missing⟩, by decide +kernel, rfl⟩)
  rw [own] at states
  exact ⟨states.1, snapshot, found, states.2⟩

open Session in
/-- After another person's mark the daemon and the user's client disagree, though the
user's own mark and the file are what they were. -/
theorem bothMark_disagree :
    ∃ snapshot, (@Core.run .plain .calm .initial bothMark).store.reviewSnapshot reviewId =
        some snapshot ∧
      (Core.headContent reviewId repoId seen .calm
        (@Core.run .plain .calm .initial bothMark)).1 = .ok .missing ∧
      ownMark (reviewId, repoId, seen) ⟨"ada", "laptop"⟩
        (@Core.run .plain .calm .initial bothMark).store.events = some .missing ∧
      (Core.viewedState reviewId repoId seen .calm
        (@Core.run .plain .calm .initial bothMark)).1 = .ok .viewed ∧
      ClientCore.viewedState snapshot user repoId seen .missing = .unviewed := by
  let _ : Platform := .plain
  have shown : ((Core.run .calm .initial bothMark).store.reviewSnapshot reviewId).map
      (fun snapshot => ClientCore.viewedState snapshot user repoId seen .missing) =
        some .unviewed := by decide +kernel
  obtain ⟨snapshot, found, unviewed⟩ := Option.map_eq_some_iff.mp shown
  exact ⟨snapshot, found, by decide +kernel, by decide +kernel, by decide +kernel, unviewed⟩

end Nits.ReviewCore
