import Nits.ClientCore.Diff
import Nits.ReviewCore.Render.File

/-!
# Threads and drafts on rows

A range that is anchored to a render's blob marks the rows whose line on the anchored side
is inside it. The card hangs under the row of the range's last line, if that line has a
row of its own.
-/

namespace Nits.ClientCore

open Logical Protocol ReviewCore

/-- The rows of a render, each with the threads and the draft placed on it. -/
def overlay (snapshot : ReviewSnapshot) (render : RenderKey) (draft : Option Draft)
    (rows : List Row) : List DiffRow :=
  rows.mapIdx (placeRow (placements snapshot render) (draftRange draft render))

/-! ## Ranges -/

/-- The row's line on the side is inside the range. -/
def Inside (side : Side) (start finish : Nat) (row : Row) : Prop :=
  ∃ line, lineOn row side = some line ∧ start ≤ line ∧ line ≤ finish

/-- The last row inside the range carries what is anchored to it as its anchor, the other
rows inside carry it as inside, and no other row carries it. -/
def ShownOnce (side : Side) (start finish : Nat) (carries : DiffRow → RowPlace → Prop)
    (rows : List DiffRow) : Prop :=
  ∃ above row below, rows = above ++ row :: below ∧ Inside side start finish row.row ∧
    (∀ other ∈ below, ¬ Inside side start finish other.row) ∧
    (∀ place, carries row place ↔ place = .anchor) ∧
    ∀ other ∈ above ++ below, ∀ place,
      carries other place ↔ Inside side start finish other.row ∧ place = .inside

/-- The range's last line is on one row, and no row of the range comes after it. -/
def EndsOnce (side : Side) (start finish : Nat) (rows : List Row) : Prop :=
  ∃ above row below, rows = above ++ row :: below ∧ lineOn row side = some finish ∧
    (∀ other ∈ above ++ below, lineOn other side ≠ some finish) ∧
    ∀ other ∈ below, ¬ Inside side start finish other

section Ranges

variable {side : Side} {start finish : Nat}

theorem placeIn_eq_anchor_iff {row : Row} :
    placeIn row side start finish = some .anchor ↔ lineOn row side = some finish := by
  unfold placeIn
  cases lineOn row side with
  | none => simp
  | some line =>
    simp only [Option.bind_eq_bind, Option.bind_some, Option.some.injEq]
    split_ifs <;> simp_all

theorem placeIn_eq_inside_iff {row : Row} : placeIn row side start finish = some .inside ↔
    Inside side start finish row ∧ lineOn row side ≠ some finish := by
  unfold placeIn Inside
  cases lineOn row side with
  | none => simp
  | some line =>
    simp only [Option.bind_eq_bind, Option.bind_some, Option.some.injEq]
    split_ifs with last within
    · simp [last]
    · simp only [true_iff]
      exact ⟨⟨line, rfl, within.1, by omega⟩, by simpa using last⟩
    · simp only [false_iff, not_and, not_not, forall_exists_index, and_imp]
      rintro line' rfl above below
      have := last
      omega

theorem inside_of_end {row : Row} (ordered : start ≤ finish) (last : lineOn row side = some finish) :
    Inside side start finish row := ⟨finish, last, ordered, Nat.le_refl _⟩

theorem mem_around {α : Type} {above below : List α} {item other : α}
    (mem : other ∈ above ++ below) : other ∈ above ++ item :: below :=
  List.mem_append.mpr ((List.mem_append.mp mem).imp_right (List.mem_cons_of_mem item))

/-- What is carried by the place of the row in the range is shown once exactly when the
range's last line is on one row and no row of the range comes after it. -/
theorem shownOnce_iff (ordered : start ≤ finish) {carries : DiffRow → RowPlace → Prop}
    {rows : List DiffRow} (placed : ∀ row ∈ rows, ∀ place,
      carries row place ↔ placeIn row.row side start finish = some place) :
    ShownOnce side start finish carries rows ↔
      EndsOnce side start finish (rows.map DiffRow.row) := by
  constructor
  · rintro ⟨above, row, below, rfl, inside, after, card, others⟩
    refine ⟨above.map DiffRow.row, row.row, below.map DiffRow.row, by simp, ?_, ?_, ?_⟩
    · have carried := (card .anchor).mpr rfl
      exact placeIn_eq_anchor_iff.mp ((placed row (by simp) .anchor).mp carried)
    · intro other mem last
      rw [← List.map_append] at mem
      obtain ⟨shown, mem', rfl⟩ := List.mem_map.mp mem
      have carried := (placed shown (mem_around mem') .anchor).mpr (placeIn_eq_anchor_iff.mpr last)
      cases ((others shown mem' .anchor).mp carried).2
    · intro other mem
      obtain ⟨shown, mem', rfl⟩ := List.mem_map.mp mem
      exact after shown mem'
  · rintro ⟨above, row, below, split, last, others, after⟩
    obtain ⟨above', rest, rfl, rfl, split'⟩ := List.map_eq_append_iff.mp split
    obtain ⟨row', below', rfl, rfl, rfl⟩ := List.map_eq_cons_iff.mp split'
    refine ⟨above', row', below', rfl, inside_of_end ordered last, ?_, ?_, ?_⟩
    · exact fun other mem => after _ (List.mem_map_of_mem mem)
    · intro place
      have here := (@placeIn_eq_anchor_iff side start finish _).mpr last
      rw [placed row' (by simp), here, Option.some.injEq, eq_comm]
    · intro other mem place
      rw [placed other (mem_around mem)]
      have apart := others other.row (by
        rw [← List.map_append]
        exact List.mem_map_of_mem mem)
      cases place with
      | anchor => simp [placeIn_eq_anchor_iff, apart]
      | inside => simp [placeIn_eq_inside_iff, apart]

end Ranges

/-! ## Threads and drafts -/

section Placed

variable {snapshot : ReviewSnapshot} {render : RenderKey} {draft : Option Draft} {rows : List Row}

/-- A thread is shown at a range of the render's own blob. -/
def AnchoredAt (snapshot : ReviewSnapshot) (render : RenderKey) (thread : Thread) (side : Side)
    (lines : LineRange) : Prop :=
  ∃ blobOid hash, threadAnchor snapshot thread =
      some (.lines render.repoId render.path side blobOid lines hash) ∧
    blobOn render.target side = some blobOid

/-- The row carries the thread. -/
def CarriesThread (thread : ThreadId) (row : DiffRow) (place : RowPlace) : Prop :=
  ∃ side, ⟨thread, side, place⟩ ∈ row.threads

/-- The row carries the draft. -/
def CarriesDraft (row : DiffRow) (place : RowPlace) : Prop := ∃ side, row.drafted = some (place, side)

/-- Every range of the render's blob that has a row, of a thread or of the draft, is shown
once. -/
def CommentsShown (snapshot : ReviewSnapshot) (render : RenderKey) (draft : Option Draft)
    (rows : List Row) : Prop :=
  (∀ thread ∈ snapshot.threads, ∀ side lines, AnchoredAt snapshot render thread side lines →
    (∃ row ∈ rows, Inside side lines.start.get lines.finish.get row) →
      ShownOnce side lines.start.get lines.finish.get (CarriesThread thread.id)
        (overlay snapshot render draft rows)) ∧
  ∀ side start finish, draftRange draft render = some (side, start, finish) →
    (∃ row ∈ rows, Inside side start finish row) →
      ShownOnce side start finish CarriesDraft (overlay snapshot render draft rows)

/-- Every such range ends on one row, its last one. -/
def RangesEnd (snapshot : ReviewSnapshot) (render : RenderKey) (draft : Option Draft)
    (rows : List Row) : Prop :=
  (∀ thread ∈ snapshot.threads, ∀ side lines, AnchoredAt snapshot render thread side lines →
    (∃ row ∈ rows, Inside side lines.start.get lines.finish.get row) →
      EndsOnce side lines.start.get lines.finish.get rows) ∧
  ∀ side start finish, draftRange draft render = some (side, start, finish) →
    (∃ row ∈ rows, Inside side start finish row) → EndsOnce side start finish rows

theorem rows_overlay : (overlay snapshot render draft rows).map DiffRow.row = rows := by
  refine List.ext_getElem (by simp [overlay]) fun index below below' => ?_
  simp [overlay, placeRow]

theorem mem_overlay {shown : DiffRow} (mem : shown ∈ overlay snapshot render draft rows) :
    ∃ index row, shown = placeRow (placements snapshot render) (draftRange draft render) index row := by
  obtain ⟨index, below, rfl⟩ := List.mem_mapIdx.mp mem
  exact ⟨index, _, rfl⟩

variable {side : Side}

theorem placement_of_anchoredAt {thread : Thread} {lines : LineRange}
    (mem : thread ∈ snapshot.threads) (anchored : AnchoredAt snapshot render thread side lines) :
    ⟨thread.id, .lines side lines.start.get lines.finish.get⟩ ∈ placements snapshot render := by
  obtain ⟨blobOid, hash, anchor, blob⟩ := anchored
  refine List.mem_filterMap.mpr ⟨thread, mem, ?_⟩
  simp [anchor, placementKind, blob]

/-- With one thread of each id, a thread has one placement. -/
theorem placement_unique (unique : (snapshot.threads.map Thread.id).Nodup)
    {placement other : Placement} (mem : placement ∈ placements snapshot render)
    (mem' : other ∈ placements snapshot render) (same : placement.thread = other.thread) :
    placement = other := by
  obtain ⟨thread, listed, placed⟩ := List.mem_filterMap.mp mem
  obtain ⟨thread', listed', placed'⟩ := List.mem_filterMap.mp mem'
  have id_ (thread : Thread) (placement : Placement)
      (placed : (do
        let kind ← placementKind render (← threadAnchor snapshot thread)
        pure (⟨thread.id, kind⟩ : Placement)) = some placement) : placement.thread = thread.id := by
    simp only [Option.bind_eq_bind, Option.bind_eq_some_iff, Option.pure_def,
      Option.some.injEq] at placed
    obtain ⟨_, -, _, -, rfl⟩ := placed
    rfl
  rw [id_ _ _ placed, id_ _ _ placed'] at same
  have threads : thread = thread' := List.inj_on_of_nodup_map unique listed listed' same
  rw [threads, placed'] at placed
  exact (Option.some.inj placed).symm

theorem carriesThread_iff (unique : (snapshot.threads.map Thread.id).Nodup) {thread : Thread}
    {lines : LineRange} (mem : thread ∈ snapshot.threads)
    (anchored : AnchoredAt snapshot render thread side lines) {shown : DiffRow}
    (inside : shown ∈ overlay snapshot render draft rows) (place : RowPlace) :
    CarriesThread thread.id shown place ↔
      placeIn shown.row side lines.start.get lines.finish.get = some place := by
  obtain ⟨index, row, rfl⟩ := mem_overlay inside
  have here := placement_of_anchoredAt mem anchored
  unfold CarriesThread
  constructor
  · rintro ⟨side', carried⟩
    obtain ⟨placement, listed, placed⟩ := List.mem_filterMap.mp carried
    obtain ⟨id, kind⟩ := placement
    cases kind with
    | file => cases placed
    | lines other start finish =>
      obtain ⟨place', found, same⟩ := Option.map_eq_some_iff.mp placed
      obtain ⟨rfl, rfl, rfl⟩ := RowThread.mk.inj same
      cases placement_unique unique listed here rfl
      exact found
  · intro found
    refine ⟨side, List.mem_filterMap.mpr ⟨_, here, ?_⟩⟩
    exact Option.map_eq_some_iff.mpr ⟨place, found, rfl⟩

theorem carriesDraft_iff {start finish : Nat}
    (range : draftRange draft render = some (side, start, finish)) {shown : DiffRow}
    (inside : shown ∈ overlay snapshot render draft rows) (place : RowPlace) :
    CarriesDraft shown place ↔ placeIn shown.row side start finish = some place := by
  obtain ⟨index, row, rfl⟩ := mem_overlay inside
  simp [CarriesDraft, placeRow, rowDraft, range, Option.bind_eq_some_iff]

theorem draftRange_ordered {start finish : Nat}
    (range : draftRange draft render = some (side, start, finish)) : start ≤ finish := by
  unfold draftRange at range
  split at range
  · split at range
    · cases range
    · rename_i lines _ _ _
      cases range
      exact lines.ordered
  all_goals cases range

/-- Comments and drafts on visible lines are all shown exactly when each of their ranges
ends on one row, the last one inside it. -/
theorem commentsShown_iff (unique : (snapshot.threads.map Thread.id).Nodup) :
    CommentsShown snapshot render draft rows ↔ RangesEnd snapshot render draft rows := by
  have threads {thread : Thread} {side : Side} {lines : LineRange}
      (mem : thread ∈ snapshot.threads)
      (anchored : AnchoredAt snapshot render thread side lines) :
      ShownOnce side lines.start.get lines.finish.get (CarriesThread thread.id)
        (overlay snapshot render draft rows) ↔
        EndsOnce side lines.start.get lines.finish.get rows := by
    have shown := shownOnce_iff lines.ordered fun shown (inside : shown ∈ overlay snapshot render
      draft rows) => carriesThread_iff unique mem anchored inside
    rwa [rows_overlay] at shown
  have drafts {side : Side} {start finish : Nat}
      (range : draftRange draft render = some (side, start, finish)) :
      ShownOnce side start finish CarriesDraft (overlay snapshot render draft rows) ↔
        EndsOnce side start finish rows := by
    have shown := shownOnce_iff (draftRange_ordered range) fun shown (inside : shown ∈ overlay
      snapshot render draft rows) => carriesDraft_iff range inside
    rwa [rows_overlay] at shown
  constructor
  · rintro ⟨shown, shown'⟩
    exact ⟨fun thread mem side lines anchored touched =>
        (threads mem anchored).mp (shown thread mem side lines anchored touched),
      fun side start finish range touched =>
        (drafts range).mp (shown' side start finish range touched)⟩
  · rintro ⟨ends, ends'⟩
    exact ⟨fun thread mem side lines anchored touched =>
        (threads mem anchored).mpr (ends thread mem side lines anchored touched),
      fun side start finish range touched =>
        (drafts range).mpr (ends' side start finish range touched)⟩

end Placed

/-! ## A hidden last line -/

namespace HiddenEnd

def path : RepoPath := ⟨"a", RepoPath.valid_a⟩

/-- Head lines 1 to 3. -/
def firstLines : LineRange := ⟨.FIRST, .ofNat 3, by decide⟩

def root : Comment where
  id := ⟨5⟩
  reviewId := ⟨1⟩
  threadId := ⟨5⟩
  author := .human "alice" "laptop"
  kind := .note
  anchor := .lines ⟨2⟩ path .head ⟨8⟩ firstLines ⟨0⟩
  body := "why"
  created := 0
  edited := none
  state := .live
  context := none

def thread : Thread := ⟨⟨5⟩, ⟨1⟩, ⟨5⟩, [], .opened⟩

def snapshot : ReviewSnapshot where
  review := ⟨⟨1⟩, ⟨1⟩, "review", .singleton ⟨⟨2⟩, .upstream, .head⟩, 0, .opened⟩
  resolved := none
  threads := [thread]
  comments := [root]
  suggestions := []
  viewed := []
  requests := []
  checkpoints := []
  seq := 0

def render : RenderKey :=
  ⟨⟨2⟩, path, .diff (.modified ⟨⟨7⟩, .regular⟩ ⟨⟨8⟩, .regular⟩), { contextLines := 0 }⟩

/-- Three lines, the first one as given. -/
def lines (first : UInt8) : List UInt8 := [first, 10, 98, 10, 99, 10]

def hunk : Hunk := ⟨0, 1, 0, 1⟩

/-- The rows without context: a header, the first line, and two hidden lines. -/
def rows : List Row :=
  (((renderFile (fun _ _ => [hunk]) (fun _ _ => []) (fun _ _ => ([], [])) (some (lines 97))
    (some (lines 120)) none render.opts).map Rendered.rows).getD [])

theorem anchored : AnchoredAt snapshot render thread .head firstLines :=
  ⟨⟨8⟩, ⟨0⟩, by decide, by decide⟩

theorem diffed :
    Diffed (ReviewCore.key false) (splitLines (lines 97)) (splitLines (lines 120)) [hunk] where
  script := .hunk (by decide) (by decide) (by simp [hunk]) (by decide) (by decide)
    (.rest (by decide))
  inOld := by decide
  inNew := by decide
  oldSmall := by decide
  newSmall := by decide

/-- The thread is marked on line 1, and its card is nowhere. -/
theorem card_lost :
    Diffed (ReviewCore.key false) (splitLines (lines 97)) (splitLines (lines 120)) [hunk] ∧
      rows.length = 3 ∧ ¬ CommentsShown snapshot render none rows := by
  refine ⟨diffed, by decide, fun shown => ?_⟩
  have touched : ∃ row ∈ rows, Inside .head 1 3 row := by
    refine ⟨rows.getD 1 .whitespaceOnly, by decide, 1, by decide, by decide, by decide⟩
  obtain ⟨above, row, below, split, -, -, card, -⟩ :=
    shown.1 thread (by decide) .head firstLines anchored touched
  obtain ⟨side, carried⟩ := (card .anchor).mpr rfl
  have none : ∀ row ∈ overlay snapshot render Option.none rows,
      ∀ carried ∈ row.threads, carried.place ≠ .anchor := by
    decide
  exact none row (by rw [split]; simp) _ carried rfl

/-- The last line of the range is hidden. -/
theorem commentsShown_hidden :
    CommentsShown snapshot render none rows ↔ RangesEnd snapshot render none rows :=
  commentsShown_iff (by decide)

end HiddenEnd

end Nits.ClientCore
