import Nits.ClientCore.Frames.Handle
import Nits.ClientCore.Threads

/-!
# Where jumps land

Opening a thread focuses a row by the number of its last line, and opening a search hit
shows the rows around the number of its line. Rows are counted with everything that has no
line on that side, so the two agree only where nothing of the kind comes before.
-/

set_option linter.dupNamespace false

namespace Nits.ClientCore

open Logical Logical.Handler Protocol

/-! ## What stays as it is -/

/-- The same is shown, and no content came in. -/
structure Settled (before : ClientCore) (_ : List Effect) (after : ClientCore) : Prop where
  view : after.view = before.view
  panels : after.panels = before.panels
  config : after.config = before.config
  content {key : CacheKey} {value : CacheValue} : after.content.cache.peek key = some value →
    before.content.cache.peek key = some value

instance : Course Settled where
  stay _ := ⟨rfl, rfl, rfl, id⟩
  join early late := ⟨late.view.trans early.view, late.panels.trans early.panels,
    late.config.trans early.config, fun found => early.content (late.content found)⟩

theorem settled_from {ε α : Type} {handler : Handler ClientCore Effect ε α}
    (within : Within Settled handler) (core : ClientCore) (orders : List Effect) :
    Settled core orders (handler core).state :=
  have step := within.moves core
  ⟨step.view, step.panels, step.config, step.content⟩

/-- Only what is compared matters. -/
theorem Settled.like {before mid after : ClientCore} {orders : List Effect}
    (settled : Settled mid orders after) (view : mid.view = before.view)
    (panels : mid.panels = before.panels) (config : mid.config = before.config)
    (content : mid.content = before.content) : Settled before orders after where
  view := settled.view.trans view
  panels := settled.panels.trans panels
  config := settled.config.trans config
  content found := by
    rw [← content]
    exact settled.content found

/-- The same change of where the user is keeps two states alike. -/
theorem Settled.changed {before after : ClientCore} {orders : List Effect}
    (settled : Settled before orders after) (change : Panels → Panels) :
    Settled { before with panels := change before.panels } orders
      { after with panels := change after.panels } where
  view := settled.view
  panels := congrArg change settled.panels
  config := settled.config
  content := settled.content

section Settled

variable [Presentation] {ε : Type}

omit [Presentation] in
theorem settled_write (change : ClientCore → ClientCore)
    (same : ∀ core, Settled core [] (change core)) :
    Within Settled (write change : Handler ClientCore Effect ε Unit) :=
  within_write _ same

omit [Presentation] in
instance settled_order (effect : Effect) :
    Within Settled (order effect : Handler ClientCore Effect ε Unit) where
  moves _ := ⟨rfl, rfl, rfl, id⟩

omit [Presentation] in
instance (sections : List ViewSection) : Within Settled (render sections) :=
  settled_order _

instance (touched : DiskIndex × List CacheKey) : Within Settled (putDisk touched) :=
  within_then _ _ (settled_write _ fun _ => ⟨rfl, rfl, rfl, id⟩) fun _ => inferInstance

instance (key : CacheKey) (value : CacheValue) : Within Settled (persist key value) := by
  unfold persist
  refine within_next fun core => ?_
  split <;> infer_instance

instance settled_writeThrough (evicted : List Evicted) : Within Settled (writeThrough evicted) := by
  unfold writeThrough
  refine @within_each _ _ _ _ Settled _ _ _ fun gone => within_next fun core => ?_
  split <;> infer_instance

instance : Within Settled retainReviewPins where
  moves core := by
    refine moves_read (moves_then ⟨rfl, rfl, rfl, ContentCache.peek_retainPins⟩ fun _ _ => ?_)
    exact (settled_writeThrough _).moves _

instance (key : RenderKey) : Within Settled (pinChunks key) :=
  settled_write _ fun core => ⟨rfl, rfl, rfl, fun found => by
    rwa [ContentCache.peek_foldl] at found
    intro cache found
    cases found with
    | chunk of =>
      dsimp only
      split <;> rfl
    | _ => rfl⟩

instance (key : CacheKey) : Within Settled (pin key) :=
  settled_write _ fun _ => ⟨rfl, rfl, rfl, id⟩

instance (keep : Fetch → Bool) : Within Settled (pruneQueue keep) :=
  settled_write _ fun _ => ⟨rfl, rfl, rfl, id⟩

instance (count : Nat) : Within Settled (drainUpTo count) := by
  induction count with
  | zero =>
    unfold drainUpTo
    infer_instance
  | succ count rest =>
    have issues (fetch : Fetch) (later : List Fetch) : Within Settled (issue fetch later) :=
      ⟨fun _ => ⟨rfl, rfl, rfl, id⟩⟩
    unfold drainUpTo
    refine within_next fun _ => ?_
    split
    · split <;> infer_instance
    · infer_instance

instance (fetch : Fetch) : Within Settled (enqueue fetch) := by
  unfold enqueue drain
  exact within_then _ _ (settled_write _ fun _ => ⟨rfl, rfl, rfl, id⟩) fun _ => inferInstance

instance (fetch : Fetch) : Within Settled (load fetch) :=
  within_then _ _ (settled_write _ fun _ => ⟨rfl, rfl, rfl, id⟩) fun _ => inferInstance

instance : Wants Settled where
  wants fetch := by
    unfold want
    infer_instance

end Settled

/-! ## Jumps -/

/-- How many rows a render has, as far as its header is on hand. -/
def ContentCache.extent (cache : ContentCache) (render : RenderKey) : Nat :=
  match cache.header render with
  | some header => match header.content with
    | .text totalRows .. => totalRows
    | .binary | .submodule => 0
  | none => 0

/-- The row carries the card of a thread on a side. -/
def CarriesCard (thread : ThreadId) (side : Side) (shown : DiffRow) : Prop :=
  ⟨thread, side, .anchor⟩ ∈ shown.threads

namespace ClientCore

/-- The render is on screen, and the focus on its row with that number. -/
def FocusedOn (core : ClientCore) (key : RenderKey) (index : Nat) : Prop :=
  ∃ shown settled, core.openFile = some shown ∧ shown.render = key ∧
    core.panels.focus = .diff index settled

/-- Where opening a thread on lines leads: the render, and the row that the number of the
last line stands for. -/
def landing (core : ClientCore) (thread : ThreadView) (file : FileRef) (finish : Nat) :
    Option (RenderKey × Nat) :=
  if thread.browsed then do
    let review ← core.view.review
    match core.originalOf review thread.id with
    | .ok (key, row, _, _) => some (key, row)
    | .error _ => none
  else if core.shownDiff.any fun diff => diff.file = file then
    core.openFile.map fun shown => (shown.render, finish - 1)
  else (core.renderOfFile file).map fun key => (key, finish - 1)

/-- No line is waited for to put the cursor on in the render. -/
def Aligned (core : ClientCore) (render : RenderKey) : Prop :=
  ∀ want, core.panels.realign = some want → want.render ≠ render

/-- A thread on lines is opened on its card: the card's row has the index that the number of
its line stands for, in the render that opening leads to, and that render is shown as it
is. -/
structure Straight (core : ClientCore) (thread : ThreadView) (file : FileRef) (side : Side)
    (finish : Nat) : Prop where
  indexed (key : RenderKey) (row : Nat) : core.landing thread file finish = some (key, row) →
    ∀ review, core.view.review = some review →
    ∀ card ∈ allRows core.content.cache review.snapshot key, CarriesCard thread.id side card →
      card.index = row ∧ row < core.content.cache.extent key
  aligned (key : RenderKey) (row : Nat) : core.landing thread file finish = some (key, row) →
    core.Aligned key
  /-- The ref that the thread was made on can be asked for. -/
  online : thread.browsed → core.connection.isSubscribed ∧
    (core.landing thread file finish).isSome
  /-- Scrolling to the row does not change the render. -/
  kept : ¬ thread.browsed → core.shownDiff.any (fun diff => diff.file = file) →
    ∀ shown, core.openFile = some shown → ∀ row settled,
      core.clampDiff (finish - 1) side = .diff row settled →
      (shown.firstRow ≤ row ∧ row ≤ shown.lastRow) ∨ core.renderOfFile file = some shown.render

/-- The render is on screen with the focus on a row that it has, and stays so. -/
def Landed (core : ClientCore) (key : RenderKey) (row : Nat) : Prop :=
  ∃ review shown settled, core.view.review = some review ∧ review.openFile = some shown ∧
    shown.render = key ∧ core.panels.focus = .diff row settled ∧ core.Aligned key ∧
    ((core.content.cache.header key).isSome → row < core.content.cache.extent key)

end ClientCore

/-! ## The diff on screen -/

section Shown

variable {cache before after : ContentCache} {snapshot : ReviewSnapshot} {viewer : Author}
  {render : RenderKey} {firstRow lastRow : Nat} {draft : Option Draft} {diff : DiffView}

theorem diffView_names
    (viewed : diffView cache snapshot viewer render firstRow lastRow draft = some diff) :
    diff.file = ⟨render.repoId, render.path⟩ ∧ diff.extent = cache.extent render := by
  unfold diffView at viewed
  cases found : cache.header render with
  | none =>
    rw [found] at viewed
    cases viewed
  | some header =>
    rw [found] at viewed
    simp only [Option.bind_eq_bind, Option.bind_some] at viewed
    unfold ContentCache.extent DiffView.extent
    simp only [found]
    cases content : header.content with
    | text =>
      simp only [content] at viewed
      split at viewed
      all_goals
        cases viewed
        exact ⟨rfl, rfl⟩
    | _ =>
      simp only [content] at viewed
      cases viewed
      exact ⟨rfl, rfl⟩

theorem header_of_diffView
    (viewed : diffView cache snapshot viewer render firstRow lastRow draft = some diff) :
    (cache.header render).isSome := by
  unfold diffView at viewed
  cases found : cache.header render with
  | none =>
    rw [found] at viewed
    cases viewed
  | some header => rfl

/-- Where content only left, a render that is on hand has its rows still. -/
theorem extent_of_settled
    (left : ∀ {key : CacheKey} {value : CacheValue}, after.peek key = some value →
      before.peek key = some value) (found : (after.header render).isSome) :
    after.extent render = before.extent render := by
  have same : after.header render = before.header render := by
    unfold ContentCache.header at found ⊢
    cases peeked : after.peek (.header render) with
    | none => simp [peeked] at found
    | some value => rw [left peeked]
  rw [ContentCache.extent, ContentCache.extent, same]

end Shown

namespace ClientCore

variable {core : ClientCore} {shown : OpenFile} {diff : DiffView}

theorem openFile_eq {review : OpenReview} (reviewed : core.view.review = some review) :
    core.openFile = review.openFile := by
  rw [openFile, reviewed]
  rfl

theorem shownDiff_names (opened : core.openFile = some shown) (viewed : core.shownDiff = some diff) :
    diff.file = shown.file ∧ diff.extent = core.content.cache.extent shown.render ∧
      (core.content.cache.header shown.render).isSome := by
  rw [openFile] at opened
  obtain ⟨review, reviewed, opened⟩ := Option.bind_eq_some_iff.mp opened
  rw [shownDiff, reviewed] at viewed
  simp only [Option.bind_eq_bind, Option.bind_some, opened] at viewed
  obtain ⟨file, extent⟩ := diffView_names viewed
  exact ⟨file, extent, header_of_diffView viewed⟩

/-- A row that the render has, as far as that is known, is not clamped. -/
theorem clampDiff_of_lt {row : Nat} {side : Side} (opened : core.openFile = some shown)
    (below : (core.content.cache.header shown.render).isSome →
      row < core.content.cache.extent shown.render) :
    ∃ settled, core.clampDiff row side = .diff row settled := by
  rw [clampDiff]
  cases viewed : core.shownDiff with
  | none => exact ⟨side, by simp [opened]⟩
  | some diff =>
    obtain ⟨-, count, known⟩ := shownDiff_names opened viewed
    have below := below known
    rw [← count] at below
    have kept : min row (diff.extent - 1) = row := by omega
    have some_ : diff.extent ≠ 0 := by omega
    refine ⟨core.settledSide diff row side, ?_⟩
    simp only [some_, if_false, kept]

/-- Side after side, the one that a row settled on is kept. -/
theorem settledSide_idem (diff : DiffView) (row : Nat) (side : Side) :
    core.settledSide diff row (core.settledSide diff row side) = core.settledSide diff row side := by
  unfold settledSide
  cases core.blobRender with
  | true => rfl
  | false =>
    simp only [Bool.false_eq_true, if_false]
    cases diff.rows.find? fun shown => decide (shown.index = row) with
    | none => rfl
    | some shown =>
      dsimp only
      by_cases here : (lineOn shown.row side).isSome
      · simp only [here, if_true]
      · by_cases there : (lineOn shown.row (Side.other side)).isSome
        · simp only [here, there, if_true, Bool.false_eq_true, if_false]
        · simp only [here, there, Bool.false_eq_true, if_false]

theorem clampDiff_idem {row : Nat} {side : Side} (opened : core.openFile = some shown) :
    ∃ row' settled, core.clampDiff row side = .diff row' settled ∧
      core.clampDiff row' settled = .diff row' settled := by
  cases viewed : core.shownDiff with
  | none =>
    refine ⟨row, side, ?_, ?_⟩ <;>
      simp only [clampDiff, viewed, opened, Option.isSome_some, if_true]
  | some diff =>
    refine ⟨_, _, by rw [clampDiff, viewed], ?_⟩
    have again : (if diff.extent = 0 then 0
        else min (if diff.extent = 0 then 0 else min row (diff.extent - 1)) (diff.extent - 1)) =
        if diff.extent = 0 then 0 else min row (diff.extent - 1) := by
      split <;> omega
    rw [clampDiff, viewed]
    dsimp only
    rw [again, settledSide_idem]

end ClientCore

/-! ## What is derived of a landing -/

section Derived

variable [Presentation] {core : ClientCore} {row : Nat} {side : Side} {shown : OpenFile}

omit [Presentation] in
theorem followRow_keeps (core : ClientCore) : core.followRow.view = core.view ∧
    core.followRow.content = core.content ∧ core.followRow.config = core.config ∧
    core.followRow.panels.realign = core.panels.realign := by
  unfold ClientCore.followRow
  dsimp only
  split <;> exact ⟨rfl, rfl, rfl, rfl⟩

omit [Presentation] in
theorem followRow_focus (core : ClientCore) (unfocused : core.focusedRow = none) :
    core.followRow.panels.focus = core.panels.focus := by
  unfold ClientCore.followRow
  dsimp only
  split
  · rfl
  · rw [unfocused]

omit [Presentation] in
theorem selectWorkspace_keeps (core : ClientCore) :
    core.selectWorkspace.content = core.content ∧ core.selectWorkspace.config = core.config :=
  ⟨rfl, rfl⟩

theorem presented_keeps (core : ClientCore) :
    core.presented.content = core.content ∧ core.presented.config = core.config :=
  ⟨rfl, rfl⟩

/-- Where no line is waited for, the viewport stays. -/
theorem realigned_settled (opened : core.openFile = some shown)
    (aligned : core.Aligned shown.render) : core.listUncertain.followRow.selectWorkspace.realigned =
      core.listUncertain.followRow.selectWorkspace := by
  obtain ⟨view, -, -, realign⟩ := followRow_keeps core.listUncertain
  have reviewed : core.listUncertain.followRow.selectWorkspace.view.review = core.view.review :=
    (congrArg View.review view : core.listUncertain.followRow.view.review = _)
  have waiting : core.listUncertain.followRow.selectWorkspace.panels.realign =
      core.panels.realign := realign
  have opened' : core.listUncertain.followRow.selectWorkspace.openFile = some shown := by
    rw [ClientCore.openFile, reviewed]
    exact opened
  rw [ClientCore.realigned, waiting, opened']
  split
  next want _ _ waited _ opened_ =>
    cases opened_
    rw [if_pos fun same => aligned want waited same.symm]
  · rfl

theorem presented_openFile (core : ClientCore) : core.presented.openFile = core.openFile := by
  rw [ClientCore.presented]
  rfl

theorem clamped_openFile (core : ClientCore) : core.clamped.openFile = core.openFile := by
  rw [ClientCore.clamped]
  rfl

theorem derive_openFile (opened : core.openFile = some shown)
    (aligned : core.Aligned shown.render) : core.derive.openFile = some shown := by
  have view := (followRow_keeps core.listUncertain).1
  have reviewed : core.listUncertain.followRow.selectWorkspace.view.review = core.view.review :=
    (congrArg View.review view : core.listUncertain.followRow.view.review = _)
  rw [ClientCore.derive, clamped_openFile, presented_openFile, realigned_settled opened aligned, ClientCore.openFile, reviewed]
  exact opened

/-- What a state with the focus on a row is just before its focus is clamped. -/
theorem derive_of_diff (focused : core.panels.focus = .diff row side)
    (opened : core.openFile = some shown) (aligned : core.Aligned shown.render) :
    ∃ last : ClientCore, core.derive = last.clamped ∧ last.view.review = core.view.review ∧
      last.content = core.content ∧ last.config = core.config ∧
      last.panels.focus = .diff row side := by
  obtain ⟨view, content, config, -⟩ := followRow_keeps core.listUncertain
  have reviewed : core.listUncertain.followRow.selectWorkspace.view.review = core.view.review :=
    (congrArg View.review view : core.listUncertain.followRow.view.review = _)
  have unfocused : core.listUncertain.focusedRow = none := by
    simp only [ClientCore.focusedRow, ClientCore.listUncertain, focused]
  have still : core.listUncertain.followRow.selectWorkspace.panels.focus = .diff row side :=
    (followRow_focus _ unfocused).trans focused
  have kept : core.listUncertain.followRow.selectWorkspace.realigned =
      core.listUncertain.followRow.selectWorkspace :=
    realigned_settled opened aligned
  have selected := selectWorkspace_keeps core.listUncertain.followRow
  have shown := presented_keeps core.listUncertain.followRow.selectWorkspace
  refine ⟨core.listUncertain.followRow.selectWorkspace.presented, ?_, reviewed,
    shown.1.trans (selected.1.trans content), shown.2.trans (selected.2.trans config), still⟩
  rw [ClientCore.derive, kept]

theorem ClientCore.Landed.derive [Reading] {key : RenderKey} (landed : core.Landed key row) :
    core.derive.FocusedOn key row := by
  obtain ⟨review, shown, settled, reviewed, opened, rfl, focused, aligned, below⟩ := landed
  have opened' : core.openFile = some shown := (ClientCore.openFile_eq reviewed).trans opened
  obtain ⟨last, derived, lastReview, content, -, still⟩ := derive_of_diff focused opened' aligned
  have lastOpened : last.openFile = some shown := by
    rw [ClientCore.openFile, lastReview]
    exact opened'
  rw [← content] at below
  obtain ⟨side, unclamped⟩ := ClientCore.clampDiff_of_lt lastOpened below
  refine ⟨shown, side, derive_openFile opened' aligned, rfl, ?_⟩
  rw [derived, ClientCore.clamped, still]
  exact (Reading.clamp_diff last row settled).trans unclamped

end Derived

/-! ## What the routes leave -/

/-- The focus of a newly opened file: its first row, unless a modal panel has the keys. -/
def Focus.opened (firstRow : Nat) : Focus → Focus
  | .composer => .composer
  | .help => .help
  | _ => .diff firstRow .head

/-- The state with a render shown over some rows, before what it needs is fetched. -/
def ClientCore.showing (core : ClientCore) (key : RenderKey) (firstRow lastRow : Nat) :
    ClientCore :=
  { core with
    view.review := core.view.review.map fun review => { review with
      openFile := some ⟨key, min firstRow lastRow, max firstRow lastRow⟩
      original := core.view.review.bind OpenReview.original }
    panels :=
      if core.openFile.any fun file => file.render = key then core.panels
      else { core.panels with
        browseRepo := some key.repoId
        focus := core.panels.focus.opened (min firstRow lastRow) } }

/-- A review with a render shown over some rows. -/
def OpenReview.showing (review : OpenReview) (key : RenderKey) (firstRow lastRow : Nat) :
    OpenReview :=
  { review with openFile := some ⟨key, min firstRow lastRow, max firstRow lastRow⟩ }

theorem showing_review {core : ClientCore} {review : OpenReview}
    (reviewed : core.view.review = some review) (key : RenderKey) (firstRow lastRow : Nat) :
    (core.showing key firstRow lastRow).view.review =
      some (review.showing key firstRow lastRow) := by
  simp only [ClientCore.showing, reviewed, Option.map_some, Option.bind_some, OpenReview.showing]

theorem showing_realign (core : ClientCore) (key : RenderKey) (firstRow lastRow : Nat) :
    (core.showing key firstRow lastRow).panels.realign = core.panels.realign := by
  rw [ClientCore.showing]
  dsimp only
  split <;> rfl

section Routes

variable [Presentation] {core : ClientCore} {key : RenderKey} {firstRow lastRow : Nat}

theorem showRender_settled (reviewId : ReviewId) : Settled (core.showing key firstRow lastRow) []
      (showRender reviewId key firstRow lastRow core).state := by
  unfold showRender
  rw [read_bind]
  cases same : core.openFile.any fun file => decide (file.render = key) with
  | true =>
    simp only [not_true_eq_false, if_false]
    rw [showFile, write_bind]
    refine (settled_from ?_ _ []).like rfl ?_ rfl rfl
    · infer_instance
    · rw [ClientCore.showing, same, if_pos rfl]
  | false =>
    simp only [Bool.false_eq_true, not_false_eq_true, if_true]
    rw [panels, write_bind, showFile, write_bind, focusOpened, panels, write_bind]
    refine (settled_from ?_ _ []).like rfl ?_ rfl rfl
    · refine within_next fun _ => ?_
      infer_instance
    · rw [ClientCore.showing, same, if_neg (by simp)]
      dsimp only
      cases core.panels.focus <;> rfl

omit [Presentation] in
theorem exists_review_of_renderOfFile {file : FileRef}
    (rendered : core.renderOfFile file = some key) : ∃ review, core.view.review = some review := by
  rw [ClientCore.renderOfFile] at rendered
  cases reviewed : core.view.review with
  | none =>
    rw [reviewed] at rendered
    cases rendered
  | some review => exact ⟨review, rfl⟩

theorem viewport_settled {file : FileRef} (rendered : core.renderOfFile file = some key) :
    (viewport file firstRow lastRow core).result = .ok () ∧
      Settled (core.showing key firstRow lastRow) [] (viewport file firstRow lastRow core).state := by
  obtain ⟨review, reviewed⟩ := exists_review_of_renderOfFile rendered
  have ran : viewport file firstRow lastRow core =
      always (showRender review.snapshot.review.id key firstRow lastRow) core := by
    rw [viewport, read_bind, reviewed]
    simp only [rendered]
  rw [ran]
  refine ⟨?_, ?_⟩
  · have sure : Sure (always (showRender review.snapshot.review.id key firstRow lastRow) :
        Risky Unit) := inferInstance
    cases ended : ((always (showRender review.snapshot.review.id key firstRow lastRow) :
        Risky Unit) core).result with
    | ok => rfl
    | error error => exact absurd ended (sure.sure core error)
  · rw [always_state]
    exact showRender_settled _

omit [Presentation] in
/-- What settles after a landing is a landing. -/
theorem landed_of_settled {core mid left : ClientCore} {orders : List Effect} {side : Side}
    {review : OpenReview} {shown : OpenFile} {row : Nat} (settled : Settled mid orders left)
    (reviewed : mid.view.review = some review) (opened : review.openFile = some shown)
    (same : shown.render = key) (focused : mid.panels.focus = .diff row side)
    (aligned : mid.Aligned key) (content : mid.content = core.content)
    (below : row < core.content.cache.extent key) : left.Landed key row := by
  refine ⟨review, shown, side, ?_, opened, same, ?_, ?_, fun found => ?_⟩
  · rw [settled.view, reviewed]
  · rw [settled.panels, focused]
  · intro want waited
    rw [settled.panels] at waited
    exact aligned want waited
  · have left_ {key : CacheKey} {value : CacheValue}
        (found : left.content.cache.peek key = some value) :
        core.content.cache.peek key = some value := by
      rw [← content]
      exact settled.content found
    rwa [extent_of_settled left_ found]

/-! ### The three ways to a thread -/

variable [Reading] {thread : ThreadView} {file : FileRef} {side : Side} {finish : Nat}

omit [Presentation] [Reading] in
/-- The file of the diff on screen is the open file. -/
theorem exists_openFile_of_shownDiff (viewed : core.shownDiff.any fun diff => diff.file = file) :
    ∃ review shown, core.view.review = some review ∧ review.openFile = some shown ∧
      shown.file = file := by
  obtain ⟨diff, shownDiff, same⟩ := (Option.any_eq_true _ _).mp viewed
  cases reviewed : core.view.review with
  | none =>
    rw [ClientCore.shownDiff, reviewed] at shownDiff
    cases shownDiff
  | some review =>
    cases opened : review.openFile with
    | none =>
      rw [ClientCore.shownDiff, reviewed] at shownDiff
      simp only [Option.bind_eq_bind, Option.bind_some, opened] at shownDiff
      cases shownDiff
    | some shown =>
      have names := ClientCore.shownDiff_names ((ClientCore.openFile_eq reviewed).trans opened)
        shownDiff
      exact ⟨review, shown, rfl, opened, names.1.symm.trans (of_decide_eq_true same)⟩

omit [Reading] in
/-- Another file is opened around the row. -/
theorem landed_openFileAt (rendered : core.renderOfFile file = some key) {row : Nat}
    (aligned : core.Aligned key) (below : row < core.content.cache.extent key) :
    (openFileAt file row side .follow core).result = .ok () ∧
      (openFileAt file row side .follow core).state.Landed key row := by
  obtain ⟨review, reviewed⟩ := exists_review_of_renderOfFile rendered
  obtain ⟨ended, settled⟩ := @viewport_settled _ core key (row - PAGE_ROWS / 2)
    (row - PAGE_ROWS / 2 + PAGE_ROWS - 1) file rendered
  unfold openFileAt
  rw [bind_ok core ended]
  refine ⟨rfl, ?_⟩
  refine landed_of_settled (settled.changed fun panels => { panels with focus := .diff row side })
    (showing_review reviewed key _ _) rfl rfl rfl ?_ rfl below
  intro want waited
  exact aligned want ((showing_realign core key _ _).symm.trans waited)

omit [Presentation] [Reading] in
theorem panels_bind {α : Type} (core : ClientCore) (change : Panels → Panels)
    (next : Unit → Risky α) : ((liftM (panels change) : Risky Unit) >>= next) core =
      next () { core with panels := change core.panels } :=
  rfl

/-- The state with the focus on a row, before the viewport follows. -/
def ClientCore.onRow (core : ClientCore) (row : Nat) (side : Side) : ClientCore :=
  { core with
    panels := { core.panels with
      focus := .diff row side
      browseRepo := Presentation.targetRepoOf
        { core with panels := { core.panels with focus := .diff row side } } (.diff row side)
      focusedComment := none } }

omit [Reading] in
theorem setFocus_diff {shown : OpenFile} {row : Nat} {settled : Side}
    (accepted : Presentation.clamp core (.diff row settled) = .diff row settled)
    (opened : core.openFile = some shown) :
    setFocus (.diff row settled) core =
      (if row < shown.firstRow ∨ shown.lastRow < row then do
        viewport shown.file (row - PAGE_ROWS / 2) (row - PAGE_ROWS / 2 + PAGE_ROWS - 1)
        always (render [.focus])
      else always (render [.focus]) : Risky Unit) (core.onRow row settled) := by
  have opened' : ({ core with panels := { core.panels with focus := .diff row settled } } :
      ClientCore).openFile = some shown := opened
  unfold setFocus
  rw [read_bind, if_neg (not_not.mpr accepted), panels_bind, read_bind, panels_bind, opened']
  rfl

/-- The open file only moves. -/
theorem landed_setFocus (straight : core.Straight thread file side finish)
    (elsewhere : thread.browsed = false)
    (viewed : core.shownDiff.any fun diff => diff.file = file) (opened : core.openFile = some shown)
    (aligned : core.Aligned shown.render)
    (below : finish - 1 < core.content.cache.extent shown.render) :
    (setFocus (core.clampDiff (finish - 1) side) core).result = .ok () ∧
      (setFocus (core.clampDiff (finish - 1) side) core).state.Landed shown.render (finish - 1) := by
  obtain ⟨review, shown', reviewed, opened', same⟩ := exists_openFile_of_shownDiff viewed
  obtain rfl : shown' = shown :=
    Option.some.inj (opened'.symm.trans ((ClientCore.openFile_eq reviewed).symm.trans opened))
  obtain ⟨settled, clamped⟩ := @ClientCore.clampDiff_of_lt core shown' (finish - 1) side opened
    fun _ => below
  obtain ⟨row, side', clamped', again⟩ := @ClientCore.clampDiff_idem core shown' (finish - 1) side opened
  rw [clamped, Focus.diff.injEq] at clamped'
  obtain ⟨rfl, rfl⟩ := clamped'
  have kept := straight.kept (by simp [elsewhere]) viewed shown' opened (finish - 1) settled clamped
  have accepted : Presentation.clamp core (.diff (finish - 1) settled) = .diff (finish - 1) settled :=
    (Reading.clamp_diff core (finish - 1) settled).trans again
  rw [clamped, setFocus_diff accepted opened]
  have still : (core.onRow (finish - 1) settled).Aligned shown'.render := aligned
  generalize finish - 1 = row at *
  by_cases inside : row < shown'.firstRow ∨ shown'.lastRow < row
  · have rendered : (core.onRow row settled).renderOfFile shown'.file = some shown'.render := by
      rw [same]
      exact kept.resolve_left (by omega)
    obtain ⟨ended, after⟩ := @viewport_settled _ (core.onRow row settled) shown'.render
      (row - PAGE_ROWS / 2) (row - PAGE_ROWS / 2 + PAGE_ROWS - 1) shown'.file rendered
    have unmoved : ((core.onRow row settled).showing shown'.render (row - PAGE_ROWS / 2)
        (row - PAGE_ROWS / 2 + PAGE_ROWS - 1)).panels = (core.onRow row settled).panels := by
      have opened_ : (core.onRow row settled).openFile = some shown' := opened
      rw [ClientCore.showing, opened_]
      simp
    have waiting := showing_realign (core.onRow row settled) shown'.render (row - PAGE_ROWS / 2)
      (row - PAGE_ROWS / 2 + PAGE_ROWS - 1)
    have focused : ((core.onRow row settled).showing shown'.render (row - PAGE_ROWS / 2)
        (row - PAGE_ROWS / 2 + PAGE_ROWS - 1)).panels.focus = .diff row settled := by
      rw [unmoved]
      rfl
    rw [if_pos inside, bind_ok _ ended]
    refine ⟨rfl, landed_of_settled after (showing_review reviewed shown'.render _ _) rfl rfl focused
      ?_ rfl below⟩
    intro want waited
    exact still want (waiting.symm.trans waited)
  · rw [if_neg inside]
    have after : Settled (core.onRow row settled) [] (core.onRow row settled) := Course.stay _
    exact ⟨rfl, landed_of_settled after reviewed opened' rfl rfl still rfl below⟩

omit [Reading] in
/-- The ref that the thread was made on is opened. -/
theorem landed_openOriginal (straight : core.Straight thread file side finish)
    (browsed : thread.browsed = true) {row : Nat}
    (landing : core.landing thread file finish = some (key, row))
    (below : row < core.content.cache.extent key) : (openOriginal thread.id core).result = .ok () ∧
      (openOriginal thread.id core).state.Landed key row := by
  obtain ⟨online, -⟩ := straight.online browsed
  have landing' := landing
  rw [ClientCore.landing, browsed, if_pos rfl] at landing'
  obtain ⟨review, reviewed, original⟩ := Option.bind_eq_some_iff.mp landing'
  cases made : core.originalOf review thread.id with
  | error =>
    rw [made] at original
    cases original
  | ok found =>
    obtain ⟨key', row', settled, tab⟩ := found
    rw [made] at original
    cases original
    have allowed : (requireSubscribed core).result = .ok () := by
      rw [requireSubscribed, read_bind, if_pos online]
      rfl
    have left : (requireSubscribed core).state = core := by
      rw [requireSubscribed, read_bind, if_pos online]
      rfl
    unfold openOriginal
    rw [bind_ok core allowed, left, read_bind, reviewed]
    simp only [made]
    have after : Settled { core with
          view.review := core.view.review.map fun review => { review with
            openFile := some ⟨key, row - PAGE_ROWS / 2, row + PAGE_ROWS / 2⟩
            original := some key }
          panels := { core.panels with tab, focus := .diff row settled } } []
        (openOriginal.show_ review.snapshot.review.id key row settled tab core).state := by
      unfold openOriginal.show_
      rw [panels, write_bind, showFile, write_bind]
      refine (settled_from ?_ _ []).like rfl rfl rfl rfl
      refine within_then _ _ ?_ fun _ => ?_
      · refine within_next fun _ => ?_
        infer_instance
      · infer_instance
    have sure : Sure (always (openOriginal.show_ review.snapshot.review.id key row settled tab) :
        Risky Unit) := inferInstance
    refine ⟨?_, ?_⟩
    · cases ended : ((always (openOriginal.show_ review.snapshot.review.id key row settled tab) :
          Risky Unit) core).result with
      | ok => rfl
      | error error => exact absurd ended (sure.sure core error)
    · rw [always_state]
      exact @landed_of_settled key core _ _ [] settled
        { review with
          openFile := some ⟨key, row - PAGE_ROWS / 2, row + PAGE_ROWS / 2⟩
          original := some key }
        ⟨key, row - PAGE_ROWS / 2, row + PAGE_ROWS / 2⟩ row after
        (by rw [reviewed]; rfl) rfl rfl rfl (straight.aligned key row landing) rfl below

/-- Opening a thread on lines lands where it leads, on a row that the render has. -/
theorem landed_runCommand {index start row : Nat} (focused : core.panels.focus = .thread index)
    (listed : core.threads[index]? = some thread)
    (placed : thread.place = .lines file side start finish) (current : thread.outdated = false)
    (straight : core.Straight thread file side finish)
    (landing : core.landing thread file finish = some (key, row))
    (below : row < core.content.cache.extent key) : (runCommand .openTarget core).result = .ok () ∧
      (runCommand .openTarget core).state.Landed key row := by
  have resolved : Presentation.resolve core .openTarget =
      if thread.browsed then .ok ⟨.openOriginalDiff thread.id, fun _ => by simp⟩
      else .ok (core.jumpTo file (finish - 1) side) := by
    rw [Reading.resolve_thread core index focused, ClientCore.openThread, listed]
    simp only [current, placed, Bool.false_eq_true, false_and, false_or]
  have ran : runCommand .openTarget core =
      (if thread.browsed then openOriginal thread.id
        else act (core.jumpTo file (finish - 1) side).action : Risky Unit) core := by
    rw [runCommand, read_bind, resolved]
    cases thread.browsed <;> rfl
  have aligned := straight.aligned key row landing
  rw [ran]
  cases browsed : thread.browsed with
  | true => exact landed_openOriginal straight browsed landing below
  | false =>
    simp only [Bool.false_eq_true, if_false]
    rw [ClientCore.landing, browsed] at landing
    simp only [Bool.false_eq_true, if_false] at landing
    rw [ClientCore.jumpTo]
    cases viewed : core.shownDiff.any fun diff => decide (diff.file = file) with
    | true =>
      simp only [viewed, if_true] at landing
      obtain ⟨shown, opened, same⟩ := Option.map_eq_some_iff.mp landing
      cases same
      exact landed_setFocus straight browsed viewed opened aligned below
    | false =>
      simp only [viewed, Bool.false_eq_true, if_false] at landing ⊢
      obtain ⟨key', rendered, same⟩ := Option.map_eq_some_iff.mp landing
      cases same
      exact landed_openFileAt rendered aligned below

omit [Reading] in
/-- An accepted input leaves the derived state of its route, a rejected one its route's. -/
theorem handle_cases (input : Input) (core : ClientCore) : ((route input core).result = .ok () ∧
        (handle input core).state = (route input core).state.derive) ∨
      (∃ error, (route input core).result = .error error) ∧
        (handle input core).state = (route input core).state := by
  unfold handle
  split
  next error _ _ ran =>
    rw [ran]
    exact .inr ⟨⟨error, rfl⟩, rfl⟩
  next ran =>
    rw [ran]
    exact .inl ⟨rfl, rfl⟩

/-- Opening a thread on lines shows the render that it leads to and focuses the row of its card,
where the card's row has the index that its line number stands for. -/
theorem focusedOn_openTarget {index start row : Nat} (focused : core.panels.focus = .thread index)
    (listed : core.threads[index]? = some thread)
    (placed : thread.place = .lines file side start finish) (current : thread.outdated = false)
    (straight : core.Straight thread file side finish)
    (landing : core.landing thread file finish = some (key, row)) {review : OpenReview}
    (reviewed : core.view.review = some review) {card : DiffRow}
    (mem : card ∈ allRows core.content.cache review.snapshot key)
    (carries : CarriesCard thread.id side card) :
    (handle (.user (.runCommand .openTarget)) core).state.FocusedOn key card.index := by
  have routed : route (.user (.runCommand .openTarget)) core = runCommand .openTarget core := rfl
  obtain ⟨rfl, below⟩ := straight.indexed key row landing review reviewed card mem carries
  obtain ⟨ended, landed⟩ := landed_runCommand focused listed placed current straight landing below
  rcases handle_cases (.user (.runCommand .openTarget)) core with
    ⟨-, after⟩ | ⟨⟨error, stopped⟩, -⟩
  · rw [after, routed]
    exact landed.derive
  · rw [routed, ended] at stopped
    cases stopped

/-! ### The way to a search hit -/

/-- The hit that opening the result of a content search leads to. -/
def ClientCore.selectedHit (core : ClientCore) (query : String) : Option ContentHit := do
  let found ← core.panels.contentSearch
  if found.query = query ∧ ¬ found.pending then found.hits[found.selected]? else none

/-- A render is on screen, and of its rows the one of a line of the head is in the
viewport. -/
def ClientCore.Covers (core : ClientCore) (key : RenderKey) (rows : List Row) (line : Nat) :
    Prop :=
  ∃ shown, core.openFile = some shown ∧ shown.render = key ∧
    ∀ index row, rows[index]? = some row → lineOn row .head = some line →
      shown.firstRow ≤ index ∧ index ≤ shown.lastRow

omit [Presentation] [Reading] in
theorem searchTarget_content {query : String} {hit : ContentHit}
    (found : core.selectedHit query = some hit) : core.searchTarget query .content =
      some (⟨hit.repoId, hit.path⟩, hit.line.get - 30, hit.line.get + 30) := by
  rw [ClientCore.selectedHit] at found
  obtain ⟨search, searched, found⟩ := Option.bind_eq_some_iff.mp found
  obtain ⟨matches_, found⟩ := Option.ite_none_right_eq_some.mp found
  rw [ClientCore.searchTarget, searched]
  simp only [Option.bind_eq_bind, Option.bind_some]
  rw [if_pos matches_, found, Option.map_some]

omit [Reading] in
/-- The viewport shows as many rows around the number of the hit's line. -/
theorem openFile_openSearchResult {query : String} {hit : ContentHit}
    (found : core.selectedHit query = some hit)
    (rendered : core.renderOfFile ⟨hit.repoId, hit.path⟩ = some key) (aligned : core.Aligned key) :
    (handle (.user (.openSearchResult .content query)) core).state.openFile =
      some ⟨key, hit.line.get - 30, hit.line.get + 30⟩ := by
  obtain ⟨review, reviewed⟩ := exists_review_of_renderOfFile rendered
  obtain ⟨ended, settled⟩ := @viewport_settled _ core key (hit.line.get - 30) (hit.line.get + 30)
    _ rendered
  have low : min (hit.line.get - 30) (hit.line.get + 30) = hit.line.get - 30 := by omega
  have high : max (hit.line.get - 30) (hit.line.get + 30) = hit.line.get + 30 := by omega
  have routed : route (.user (.openSearchResult .content query)) core =
      openSearchResult .content query core := rfl
  have ran : (openSearchResult .content query core).result = .ok () := by
    rw [openSearchResult, read_bind, searchTarget_content found]
    simp only
    rw [bind_ok core ended]
    rfl
  have left : Settled { core.showing key (hit.line.get - 30) (hit.line.get + 30) with
      panels := { (core.showing key (hit.line.get - 30) (hit.line.get + 30)).panels with
        contentSearch := none } } [] (openSearchResult .content query core).state := by
    rw [openSearchResult, read_bind, searchTarget_content found]
    simp only
    rw [bind_ok core ended]
    have changed := settled.changed fun panels => { panels with contentSearch := none }
    exact ⟨changed.view, changed.panels, changed.config, changed.content⟩
  have opened : (openSearchResult .content query core).state.openFile =
      some ⟨key, hit.line.get - 30, hit.line.get + 30⟩ := by
    have shown := showing_review reviewed key (hit.line.get - 30) (hit.line.get + 30)
    rw [ClientCore.openFile, left.view]
    refine (congrArg (Option.bind · OpenReview.openFile) shown).trans ?_
    rw [Option.bind_some, OpenReview.showing, low, high]
  have still : (openSearchResult .content query core).state.Aligned key := by
    intro want waited
    rw [left.panels] at waited
    exact aligned want ((showing_realign core key _ _).symm.trans waited)
  rcases handle_cases (.user (.openSearchResult .content query)) core with
    ⟨-, after⟩ | ⟨⟨error, stopped⟩, -⟩
  · rw [after, routed]
    exact derive_openFile opened still
  · rw [routed, ran] at stopped
    cases stopped

omit [Reading] in
/-- Opening a hit shows the row of its line exactly when the row's index is as near to the
number of the line as the viewport reaches. -/
theorem covers_openSearchResult {query : String} {hit : ContentHit}
    (found : core.selectedHit query = some hit)
    (rendered : core.renderOfFile ⟨hit.repoId, hit.path⟩ = some key) (aligned : core.Aligned key)
    (rows : List Row) :
    (handle (.user (.openSearchResult .content query)) core).state.Covers key rows hit.line.get ↔
      ∀ index row, rows[index]? = some row → lineOn row .head = some hit.line.get →
        hit.line.get ≤ index + 30 ∧ index ≤ hit.line.get + 30 := by
  have opened := openFile_openSearchResult found rendered aligned
  constructor
  · rintro ⟨shown, opened', -, covers⟩ index row listed line
    rw [opened, Option.some.injEq] at opened'
    subst opened'
    have inside := covers index row listed line
    dsimp only at inside
    omega
  · intro near
    refine ⟨_, opened, rfl, fun index row listed line => ?_⟩
    have inside := near index row listed line
    dsimp only
    omega

end Routes

/-- Whatever else the interface does: opening a thread on lines shows the render that it leads
to, with the focus on the row of its card, where that row has the index that its line number
stands for; and opening a hit shows its row exactly where the row's index is near to the number
of its line. -/
theorem jumps_land (rest : Presentation) (core : ClientCore) :
    (∀ index thread file side start finish, core.panels.focus = .thread index →
      core.threads[index]? = some thread → thread.place = .lines file side start finish →
      thread.outdated = false → core.Straight thread file side finish →
      ∀ key row, core.landing thread file finish = some (key, row) →
      ∀ review, core.view.review = some review →
      ∀ card ∈ allRows core.content.cache review.snapshot key, CarriesCard thread.id side card →
        (@handle rest.reading (.user (.runCommand .openTarget)) core).state.FocusedOn key
          card.index) ∧
    ∀ query hit key rows, core.selectedHit query = some hit →
      core.renderOfFile ⟨hit.repoId, hit.path⟩ = some key → core.Aligned key →
      ((@handle rest.reading (.user (.openSearchResult .content query)) core).state.Covers key rows
          hit.line.get ↔
        ∀ index row, rows[index]? = some row → lineOn row .head = some hit.line.get →
          hit.line.get ≤ index + 30 ∧ index ≤ hit.line.get + 30) :=
  ⟨fun _ _ _ _ _ _ focused listed placed current straight _ _ landing _ reviewed _ mem carries =>
    @focusedOn_openTarget rest.reading core _ (reading rest) _ _ _ _ _ _ _ focused listed placed
      current straight landing _ reviewed _ mem carries,
    fun _ _ _ rows found rendered aligned =>
      @covers_openSearchResult rest.reading core _ _ _ found rendered aligned rows⟩

/-! ## A line far down a short diff -/

namespace FarDown

def path : RepoPath := ⟨"a", RepoPath.valid_a⟩

def file : FileRef := ⟨⟨3⟩, path⟩

def change : ChangeKind := .modified ⟨⟨11⟩, .regular⟩ ⟨⟨12⟩, .regular⟩

def cell (number : LineNo) : Cell := ⟨number, "", .lf, [], []⟩

/-- A thread on one line of the head. -/
def comment (id : BitVec 128) (number : LineNo) : Comment where
  id := ⟨id⟩
  reviewId := ⟨7⟩
  threadId := ⟨id⟩
  author := .human "ann" "desk"
  kind := .note
  anchor := .lines ⟨3⟩ path .head ⟨12⟩ (.single number) ⟨0⟩
  body := ""
  created := id.toNat
  edited := none
  state := .live
  context := some (.diff change)

def thread (id : BitVec 128) : Thread := ⟨⟨id⟩, ⟨7⟩, ⟨id⟩, [], .opened⟩

def snapshot : ReviewSnapshot :=
  { plainReview 0 with
    threads := [thread 1, thread 2]
    comments := [comment 1 (.ofNat 1), comment 2 (.ofNat 100)] }

/-- A line that is the same in both files, some lines further down in the head. -/
def shared (number : LineNo) (moved : LineNo) : Row := .context (cell number) (cell moved)

/-- The lines 1 and 100 changed, and 92 lines between them are hidden. -/
def rows : List Row :=
  [.modified (cell (.ofNat 1)) (cell (.ofNat 1)), shared (.ofNat 2) (.ofNat 2), shared (.ofNat 3) (.ofNat 3),
    shared (.ofNat 4) (.ofNat 4), .expander 92 .both 1, shared (.ofNat 97) (.ofNat 97),
    shared (.ofNat 98) (.ofNat 98), shared (.ofNat 99) (.ofNat 99), .added (cell (.ofNat 100)),
    shared (.ofNat 100) (.ofNat 101), shared (.ofNat 101) (.ofNat 102), shared (.ofNat 102) (.ofNat 103)]

def key : RenderKey := ⟨⟨3⟩, path, .diff change, {}⟩

def header : FileRenderHeader :=
  ⟨⟨3⟩, path, .diff change, {}, .text 12 500 1 false 2 1 ⟨[⟨1, 4⟩], rfl⟩⟩

/-- The review is opened and its diff shown; then the thread is focused. -/
def inputs (focused : Nat) : List Input :=
  ClientCore.visit snapshot ++
    [.server (.streamItem 3 (.header header)), .server (.streamItem 3 (.chunk ⟨3⟩ path ⟨0, rows⟩)),
      .server (.streamEnd 3), .user (.setFocus (.thread focused))]

def core (focused : Nat) : ClientCore :=
  @ClientCore.run Presentation.plain.reading ClientCore.fresh (inputs focused)

def hit : ContentHit := ⟨⟨3⟩, path, .ofNat 100, ""⟩

/-- A content search that found the line. -/
def searching : ClientCore :=
  @ClientCore.run Presentation.plain.reading (core 1)
    [.user (.contentSearch (some "x") false), .server (.response 5 (.search [hit] false))]

/-- Of the rows of a render on hand one carries the card of a thread, and the focus is on a row
of another index. -/
def missed (core : ClientCore) (key : RenderKey) (thread : ThreadId) (focus : Nat) : Bool :=
  core.view.review.any fun review => (allRows core.content.cache review.snapshot key).any fun card =>
    card.threads.contains ⟨thread, .head, .anchor⟩ && decide (card.index ≠ focus)

theorem exists_of_missed {core : ClientCore} {key : RenderKey} {thread : ThreadId} {focus : Nat}
    (found : missed core key thread focus) : ∃ review, core.view.review = some review ∧
      ∃ card ∈ allRows core.content.cache review.snapshot key,
        CarriesCard thread .head card ∧ card.index ≠ focus := by
  obtain ⟨review, reviewed, found⟩ := (Option.any_eq_true _ _).mp found
  obtain ⟨card, mem, found⟩ := List.any_eq_true.mp found
  obtain ⟨carries, apart⟩ := Bool.and_eq_true_iff.mp found
  exact ⟨review, reviewed, card, mem, List.contains_iff_mem.mp carries, of_decide_eq_true apart⟩

theorem not_covers {core : ClientCore} {index : Nat} {row : Row} {number : Nat} {shown : OpenFile}
    (listed : rows[index]? = some row) (numbered : lineOn row .head = some number)
    (opened : core.openFile = some shown) (outside : index < shown.firstRow ∨ shown.lastRow < index) :
    ¬ core.Covers key rows number := by
  rintro ⟨shown', opened', -, covers⟩
  rw [opened, Option.some.injEq] at opened'
  subst opened'
  have inside := covers index row listed numbered
  omega

/-- The thread on line 100 is focused three rows below its card, and a hit on that line is
out of the viewport that is opened for it. -/
theorem jumps_miss : (∃ thread row review card, (core 1).panels.focus = .thread 1 ∧
      (core 1).threads[1]? = some thread ∧ thread.place = .lines file .head 100 100 ∧
      thread.outdated = false ∧ (core 1).landing thread file 100 = some (key, row) ∧
      (core 1).view.review = some review ∧
      card ∈ allRows (core 1).content.cache review.snapshot key ∧
      CarriesCard thread.id .head card ∧
      ¬ (@handle Presentation.plain.reading (.user (.runCommand .openTarget))
        (core 1)).state.FocusedOn key card.index) ∧
    searching.selectedHit "x" = some hit ∧
      ¬ (@handle Presentation.plain.reading (.user (.openSearchResult .content "x"))
        searching).state.Covers key rows hit.line.get := by
  have listed : (core 1).threads[1]? = some ⟨⟨2⟩, ⟨2⟩, 2, .lines file .head 100 100, false, [⟨2⟩],
      some (.diff change)⟩ := by
    decide +kernel
  have focused : (core 1).panels.focus = .thread 1 := by
    decide +kernel
  have landing : (core 1).landing ⟨⟨2⟩, ⟨2⟩, 2, .lines file .head 100 100, false, [⟨2⟩],
      some (.diff change)⟩ file 100 = some (key, 99) := by
    decide +kernel
  have missed_ : missed (core 1) key ⟨2⟩ 11 := by
    decide +kernel
  have landed : (@handle Presentation.plain.reading (.user (.runCommand .openTarget))
      (core 1)).state.panels.focus = .diff 11 .head := by
    decide +kernel
  have found : searching.selectedHit "x" = some hit := by
    decide +kernel
  have opened : (@handle Presentation.plain.reading (.user (.openSearchResult .content "x"))
      searching).state.openFile = some ⟨key, 70, 130⟩ := by
    decide +kernel
  have listed_ : rows[8]? = some (.added (cell (.ofNat 100))) := rfl
  obtain ⟨review, reviewed, card, mem, carries, apart⟩ := exists_of_missed missed_
  refine ⟨⟨_, 99, review, card, focused, listed, rfl, rfl, landing, reviewed, mem, carries, ?_⟩,
    found, not_covers listed_ rfl opened (.inl (by decide))⟩
  rintro ⟨shown, settled, -, -, on⟩
  rw [landed, Focus.diff.injEq] at on
  exact apart on.1.symm

/-- The thread on line 1 is opened on its card. -/
theorem first_straight : (core 0).Straight ⟨⟨1⟩, ⟨1⟩, 1, .lines file .head 1 1, false, [⟨1⟩],
    some (.diff change)⟩ file .head 1 := by
  have landing : (core 0).landing ⟨⟨1⟩, ⟨1⟩, 1, .lines file .head 1 1, false, [⟨1⟩],
      some (.diff change)⟩ file 1 = some (key, 0) := by
    decide +kernel
  have rows_ : ((core 0).view.review.map fun review =>
      allRows (core 0).content.cache review.snapshot key).all fun rows => rows.all fun card =>
        !card.threads.contains ⟨⟨1⟩, .head, .anchor⟩ || decide (card.index = 0) := by
    decide +kernel
  have extent : 0 < (core 0).content.cache.extent key := by
    decide +kernel
  have realign : (core 0).panels.realign = none := by
    decide +kernel
  have opened : (core 0).openFile = some ⟨key, 0, 59⟩ := by
    decide +kernel
  refine ⟨?_, ?_, fun browsed => ?_, ?_⟩
  · intro key' row landed review reviewed card mem carries
    rw [landing, Option.some.injEq, Prod.mk.injEq] at landed
    obtain ⟨rfl, rfl⟩ := landed
    rw [reviewed, Option.map_some, Option.all_some] at rows_
    have index := List.all_eq_true.mp rows_ card mem
    have carried : card.threads.contains ⟨⟨1⟩, .head, .anchor⟩ = true :=
      List.contains_iff_mem.mpr carries
    rw [carried] at index
    exact ⟨of_decide_eq_true index, extent⟩
  · intro key' row landed want waited
    rw [realign] at waited
    cases waited
  · cases browsed
  · intro _ _ shown shown_ row settled clamped
    rw [opened, Option.some.injEq] at shown_
    subst shown_
    have clamped' : (core 0).clampDiff 0 .head = .diff 0 .head := by
      decide +kernel
    rw [clamped', Focus.diff.injEq] at clamped
    obtain ⟨rfl, -⟩ := clamped
    exact .inl ⟨Nat.zero_le _, Nat.zero_le _⟩

/-- A jump to another file. -/
theorem jumps_land_first : (@handle Presentation.plain.reading (.user (.runCommand .openTarget))
      (core 0)).state.FocusedOn key 0 := by
  have focused : (core 0).panels.focus = .thread 0 := by
    decide +kernel
  have listed : (core 0).threads[0]? = some ⟨⟨1⟩, ⟨1⟩, 1, .lines file .head 1 1, false, [⟨1⟩],
      some (.diff change)⟩ := by
    decide +kernel
  have landing : (core 0).landing ⟨⟨1⟩, ⟨1⟩, 1, .lines file .head 1 1, false, [⟨1⟩],
      some (.diff change)⟩ file 1 = some (key, 0) := by
    decide +kernel
  have carried : ((core 0).view.review.any fun review =>
      (allRows (core 0).content.cache review.snapshot key).any fun card =>
        card.threads.contains ⟨⟨1⟩, .head, .anchor⟩ && decide (card.index = 0)) := by
    decide +kernel
  obtain ⟨review, reviewed, found⟩ := (Option.any_eq_true _ _).mp carried
  obtain ⟨card, mem, found⟩ := List.any_eq_true.mp found
  obtain ⟨carries, first⟩ := Bool.and_eq_true_iff.mp found
  have landed := (jumps_land Presentation.plain (core 0)).1 0 _ file .head 1 1 focused listed rfl rfl
    first_straight key 0 landing review reviewed card mem (List.contains_iff_mem.mp carries)
  rw [of_decide_eq_true first] at landed
  exact landed

end FarDown

end Nits.ClientCore
