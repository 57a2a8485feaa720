import Nits.ClientCore.Fetches

/-!
# What a value that comes does to the marks

A value that comes for no queued fetch leaves the marks in order, whatever the message that
brings it does after it. Each message is read off the routine that takes it: the answers,
the items of the streams, the deltas, the loads, and the ends of requests.
-/

namespace Nits.ClientCore

open Logical Logical.Handler Protocol

section Arrivals

variable [Presentation] {lasting : RequestId × InFlight → Prop} {held : CacheKey → Prop}

/-! ## Arrivals -/

/-- The marks are in order, those of values on hand being gone. -/
def Steady (core : ClientCore) : Prop :=
  Tidy (fun _ => True) (fun key => core.content.cache.contains key) core

/-- What leads to `after` kept the marks from some state on that had no other requests. -/
def Reaches (lasting : RequestId × InFlight → Prop) (held : CacheKey → Prop)
    (core after : ClientCore) : Prop :=
  ∃ mid, Tidy lasting held mid ∧ mid.keyed ⊆ core.keyed ∧ Fetches lasting held mid [] after

/-- The values on hand, and the one that comes, are the held ones as far as requests for
them are looked at. -/
structure Grasps (lasting : RequestId × InFlight → Prop) (held : CacheKey → Prop)
    (core : ClientCore) (brought : Option CacheKey) : Prop where
  covers : ∀ entry ∈ core.keyed, lasting entry → ∀ key ∈ entry.2.key,
    core.content.cache.contains key ∨ brought = some key → held key
  only : ∀ key, held key → core.content.cache.contains key ∨ brought = some key

section Reaches

variable {core before after : ClientCore} {key : CacheKey} {value : CacheValue}
  {brought : Option CacheKey}

theorem Reaches.further {orders : List Effect} (reaches : Reaches lasting held core before)
    (moves : Fetches lasting held before orders after) : Reaches lasting held core after := by
  obtain ⟨mid, tidy, keyed, fetches⟩ := reaches
  exact ⟨mid, tidy, keyed, Blind.blind (Course.join fetches moves)⟩

/-- Values on hand have no marks, so a part of them can be held. -/
theorem Tidy.narrow {all : CacheKey → Prop} (tidy : Tidy (fun _ => True) all core)
    (covers : ∀ entry ∈ core.keyed, lasting entry → ∀ key ∈ entry.2.key, all key → held key)
    (only : ∀ key, held key → core.content.pending.lookup key = none) : Tidy lasting held core where
  marked := tidy.marked
  named := tidy.named
  queued := tidy.queued
  waits := tidy.waits
  sent := tidy.sent.imp fun apart _ _ => apart trivial trivial
  out entry mem lasts key names := by
    rcases tidy.out entry mem trivial key names with requested | isHeld
    · exact .inl requested
    · exact .inr (covers entry mem lasts key names isHeld)
  still := only
  absent := tidy.absent
  loads := tidy.loads
  diskless := tidy.diskless

/-- Nothing came: the marks of a steady state are in order. -/
theorem Steady.tidy (steady : Steady core) (grasps : Grasps lasting held core none) :
    Tidy lasting held core := by
  refine Tidy.narrow steady (fun entry mem lasts key names contained =>
    grasps.covers entry mem lasts key names (.inl contained)) fun key isHeld => ?_
  rcases grasps.only key isHeld with contained | came
  · exact steady.still key contained
  · cases came

theorem Steady.reaches (steady : Steady core) (grasps : Grasps lasting held core none)
    {orders : List Effect} (moves : Fetches lasting held core orders after) :
    Reaches lasting held core after :=
  ⟨core, steady.tidy grasps, fun _ => id, Blind.blind moves⟩

theorem Steady.sheds (steady : Steady core) (grasps : Grasps lasting held core none)
    (sheds : Sheds core after) : Reaches lasting held core after :=
  ⟨core, steady.tidy grasps, fun _ => id, fetches_of_sheds sheds⟩

omit [Presentation] in
theorem lookup_contentFailed (core : ClientCore) (gone key : CacheKey) :
    (contentFailed gone core).state.content.pending.lookup key =
      if key = gone then none else core.content.pending.lookup key := by
  have kept : (contentFailed gone core).state.content.pending.lookup key =
      if (decide (key ≠ gone)) = true then core.content.pending.lookup key else none :=
    Association.lookup_filter fun other => decide (other ≠ gone)
  rw [kept]
  by_cases same : key = gone
  · rw [if_pos same, if_neg (by simpa using same)]
  · rw [if_neg same, if_pos (decide_eq_true same)]

/-- A mark can be removed when no queued fetch and no request that is looked at needs it. -/
theorem Tidy.unmark {all : CacheKey → Prop} (tidy : Tidy (fun _ => True) all core)
    (unqueued : key ∉ core.queuedKeys)
    (covers : ∀ entry ∈ core.keyed, lasting entry → ∀ other ∈ entry.2.key,
      all other ∨ other = key → held other) (only : ∀ other, held other → all other ∨ other = key) :
    Tidy lasting held (contentFailed key core).state := by
  have fewer (other : CacheKey) (wanted : Wanted)
      (names : (contentFailed key core).state.content.pending.lookup other = some wanted) :
      core.content.pending.lookup other = some wanted := by
    rw [lookup_contentFailed] at names
    split at names
    · cases names
    · exact names
  refine {
    marked := Association.once_filter _ tidy.marked
    named := fun other loading names => tidy.named other loading (fewer other _ names)
    queued := tidy.queued
    waits := ?_
    sent := tidy.sent.imp fun apart _ _ => apart trivial trivial
    out := ?_
    still := ?_
    absent := ?_
    loads := fun entry mem => ⟨(tidy.loads entry mem).1, fun wanted names =>
      (tidy.loads entry mem).2 wanted (fewer _ _ names)⟩
    diskless := tidy.diskless }
  · intro other waits
    have different : other ≠ key := fun same => unqueued (same ▸ waits)
    rw [lookup_contentFailed, if_neg different]
    exact tidy.waits other waits
  · intro entry mem lasts other names
    rw [lookup_contentFailed]
    split
    next same => exact .inr (covers entry mem lasts other names (.inr same))
    · rcases tidy.out entry mem trivial other names with requested | isHeld
      · exact .inl requested
      · exact .inr (covers entry mem lasts other names (.inl isHeld))
  · intro other isHeld
    rw [lookup_contentFailed]
    split
    · rfl
    next different =>
      rcases only other isHeld with before | same
      · exact tidy.still other before
      · exact absurd same different
  · intro other marked
    refine tidy.absent other fun none_ => marked ?_
    rw [lookup_contentFailed, none_, ite_self]

/-- A value without a mark can come in. -/
theorem Tidy.insert (tidy : Tidy lasting held core)
    (unmarked : core.content.pending.lookup key = none) (size : Nat) : Tidy lasting held
      { core with content.cache := (core.content.cache.insert key value size).1 } where
  marked := tidy.marked
  named := tidy.named
  queued := tidy.queued
  waits := tidy.waits
  sent := tidy.sent
  out := tidy.out
  still := tidy.still
  absent other marked contained := by
    obtain ⟨found, peeked⟩ := ContentCache.contains_iff_peek.mp contained
    rcases ContentCache.peek_insert peeked with same | before
    · exact marked (same ▸ unmarked)
    · exact tidy.absent other marked (ContentCache.contains_iff_peek.mpr ⟨found, before⟩)
  loads := tidy.loads
  diskless := tidy.diskless

/-- A value that comes for no queued fetch leaves the marks in order, whatever it is
followed by. -/
theorem leads_arrived (steady : Steady core) (unqueued : key ∉ core.queuedKeys)
    (grasps : Grasps lasting held core (some key)) (via : Arrival) :
    Leads (Sheds core) (arrived key value via) (Reaches lasting held core) := by
  let ready (now : ClientCore) : Prop := Tidy lasting held now ∧
    now.content.pending.lookup key = none ∧ now.keyed ⊆ core.keyed
  have readied {handler : Client Unit} (within : Within Shedding handler) :
      Leads ready handler ready := by
    refine leads_within Shedding within fun before _ after sheds held => ⟨?_, ?_, ?_⟩
    · exact held.1.shed sheds
    · rw [sheds.pending]
      exact held.2.1
    · exact List.Subset.trans sheds.keyed.subset held.2.2
  have fails : Leads (Sheds core) (contentFailed key) ready := by
    intro now sheds
    refine ⟨Tidy.unmark (steady.shed sheds) ?_ ?_ ?_, ?_, sheds.keyed.subset⟩
    · unfold ClientCore.queuedKeys
      rw [sheds.queue]
      exact unqueued
    · intro entry mem lasts other names back
      exact grasps.covers entry (sheds.keyed.subset mem) lasts other names
        (back.imp_right fun same => by rw [same])
    · exact fun other isHeld => (grasps.only other isHeld).imp_right fun same =>
        (Option.some.inj same).symm
    · rw [lookup_contentFailed, if_pos rfl]
  have inserts : Leads ready (insertArrived key value) (Reaches lasting held core) := by
    unfold insertArrived putCache
    refine leads_read fun now isReady => ?_
    refine leads_then (fun after => after = { now with content.cache :=
      (now.content.cache.insert key value (Presentation.encode value).length).1 })
      (leads_write _ fun _ same => by rw [same]) fun _ => ?_
    intro after same
    have through := (within_shedding_writeThrough
      (now.content.cache.insert key value (Presentation.encode value).length).2).moves after
    rw [same] at through ⊢
    exact ⟨_, Tidy.insert isReady.1 isReady.2.1 _, isReady.2.2, fetches_of_sheds through⟩
  unfold arrived
  have comes {rest : Client Unit} (further : Within (Fetches lasting held) rest) :
      Leads ready (insertArrived key value >>= fun _ => rest) (Reaches lasting held core) :=
    leads_then _ inserts fun _ => leads_within (Fetches lasting held) further
      fun _ _ _ fetches reached => reached.further fetches
  refine leads_then ready fails fun _ => leads_read fun now isReady => ?_
  refine leads_when ready (fun _ => ?_) (fun _ state same => same ▸ isReady) ?_
  · exact fun state same => readied inferInstance state (same ▸ isReady)
  · refine leads_ite (fun _ => comes ?_) fun _ =>
      leads_then ready (readied inferInstance) fun _ => comes ?_
    all_goals split <;> infer_instance

/-- The relation to whatever was reached from `core`. -/
def Reaching (lasting : RequestId × InFlight → Prop) (held : CacheKey → Prop) (core : ClientCore)
    (_ : ClientCore) (_ : List Effect) (after : ClientCore) : Prop :=
  Reaches lasting held core after

theorem reaching_then {ε α β : Type} {now : ClientCore} {first : Handler ClientCore Effect ε α}
    {next : α → Handler ClientCore Effect ε β} (early : Moves (Reaching lasting held core) now first)
    (late : ∀ value, Within (Fetches lasting held) (next value)) :
    Moves (Reaching lasting held core) now (first >>= next) := by
  unfold Moves
  cases ended : (first now).result with
  | error error =>
    rw [bind_error now ended]
    exact early
  | ok value =>
    rw [bind_ok now ended]
    exact early.further ((late value).moves _)

theorem Steady.reaching {ε α : Type} (steady : Steady core)
    (grasps : Grasps lasting held core none) {handler : Handler ClientCore Effect ε α}
    (moves : Moves (Fetches lasting held) core handler) :
    Moves (Reaching lasting held core) core handler :=
  steady.reaches grasps moves

/-- What may come: nothing, or the value of a key that is not queued. -/
structure Awaits (lasting : RequestId × InFlight → Prop) (held : CacheKey → Prop)
    (core : ClientCore) (brought : Option CacheKey) : Prop where
  steady : Steady core
  unqueued : ∀ key ∈ brought, key ∉ core.queuedKeys
  grasps : Grasps lasting held core brought

theorem Awaits.arrived (awaits : Awaits lasting held core (some key)) (via : Arrival) :
    Moves (Reaching lasting held core) core (arrived key value via) :=
  leads_arrived awaits.steady (awaits.unqueued key rfl) awaits.grasps via core (sheds_same rfl rfl)

theorem Awaits.nothing {ε α : Type} (awaits : Awaits lasting held core none)
    {handler : Handler ClientCore Effect ε α} [within : Within (Fetches lasting held) handler] :
    Moves (Reaching lasting held core) core handler :=
  awaits.steady.reaching awaits.grasps (within.moves core)

theorem Awaits.fails {α : Type} (awaits : Awaits lasting held core none) (error : CoreError) :
    Moves (Reaching lasting held core) core (fail error : Handler ClientCore Effect CoreError α) :=
  awaits.nothing

/-! ## Answers and streams -/

theorem liveTree_reaches {delta : TreeDelta}
    (awaits : Awaits lasting held core (core.derives delta)) :
    Moves (Reaching lasting held core) core (liveTree delta) := by
  unfold ClientCore.derives at awaits
  unfold liveTree
  refine moves_read ?_
  cases connected : core.connection with
  | subscribed seq =>
    rw [connected] at awaits
    dsimp only at awaits ⊢
    refine moves_always ?_
    unfold treeDelta
    refine moves_read ?_
    split at awaits
    next found =>
      rw [found]
      exact awaits.arrived .response
    next missing =>
      split
      next snapshot found => exact (missing seq snapshot rfl found).elim
      · exact awaits.nothing
  | _ =>
    rw [connected] at awaits
    exact awaits.nothing

theorem contentAnswered_reaches (awaits : Awaits lasting held core (some key)) :
    Moves (Reaching lasting held core) core (contentAnswered key value) := by
  unfold contentAnswered
  exact reaching_then (awaits.arrived .response) fun _ => inferInstance

omit [Presentation] in
theorem leads_sheds {handler : Client Unit} (within : Within Shedding handler) :
    Leads (Sheds core) handler (Sheds core) := by
  refine leads_within Shedding within fun before orders after late early => ?_
  have whole : Shedding core ([] ++ orders) after := Course.join early late
  exact whole

/-- The tree of a picked ref comes in, and the review's trees are wanted then. -/
theorem takeBrowse_reaches {attempt : BrowseAttempt} {snapshot : TreeSnapshot}
    (awaits : Awaits lasting held core (some (.tree (.ofSnapshot snapshot)))) :
    Moves (Reaching lasting held core) core (takeBrowse attempt snapshot) := by
  have arrives : Leads (Sheds core) (do
      arrived (.tree (.ofSnapshot snapshot)) (.tree snapshot) .response
      wantReviewTrees) (Reaches lasting held core) :=
    leads_then _ (leads_arrived awaits.steady (awaits.unqueued _ rfl) awaits.grasps .response)
      fun _ => leads_within (Fetches lasting held) inferInstance
        fun _ _ _ fetches reached => reached.further fetches
  unfold takeBrowse
  exact leads_then _ (leads_sheds inferInstance) (fun _ => leads_then _ (leads_sheds inferInstance)
    fun _ => leads_then _ (leads_sheds inferInstance) fun _ => leads_then _
    (leads_sheds inferInstance) fun _ => arrives) core (sheds_same rfl rfl)

variable {id : RequestId} {item : StreamItem}

theorem browseAnswer_reaches {repoId : RepoId} {snapshot : TreeSnapshot}
    (looked : core.inFlight.lookup id = some (.browseTree repoId))
    (awaits : Awaits lasting held core (core.answers id (.treeSnapshot snapshot))) :
    Moves (Reaching lasting held core) core (browseAnswer id repoId snapshot) := by
  unfold ClientCore.answers at awaits
  rw [looked] at awaits
  dsimp only at awaits
  unfold browseAnswer
  refine moves_read ?_
  cases attempted : core.panels.browseAttempt with
  | none =>
    rw [attempted] at awaits
    exact awaits.nothing
  | some attempt =>
    rw [attempted] at awaits
    dsimp only at awaits ⊢
    split at awaits
    next taken =>
      obtain ⟨loading, named, same, draftless⟩ := taken
      rw [if_neg (by simp [loading, named]), if_neg (not_not.mpr same),
        if_neg (by simpa using draftless)]
      exact moves_always (takeBrowse_reaches awaits)
    next refused =>
      split
      · exact awaits.nothing
      next asked =>
        split
        · exact awaits.nothing
        next same =>
          split
          · exact awaits.nothing
          next draftless =>
            refine absurd ⟨?_, ?_, not_not.mp same, by simpa using draftless⟩ refused
            · exact not_not.mp fun other => asked (.inl other)
            · exact not_not.mp fun other => asked (.inr other)

/-- An answer that brings no value runs no more than what leaves the marks in order. -/
theorem routed_fetches (id : RequestId) (waiting : InFlight) (answer : Response)
    (noTree : ∀ snapshot, answer ≠ .treeSnapshot snapshot)
    (noChunk : ∀ chunk, answer ≠ .renderChunk chunk) :
    Within (Fetches lasting held) (routed id waiting answer) := by
  cases answer with
  | treeSnapshot snapshot => exact absurd rfl (noTree snapshot)
  | renderChunk chunk => exact absurd rfl (noChunk chunk)
  | _ =>
    unfold routed
    dsimp only
    split
    all_goals first
      | contradiction
      | infer_instance
      | exact within_next fun _ => by split <;> infer_instance

theorem routed_reaches {waiting : InFlight} {answer : Response}
    (looked : core.inFlight.lookup id = some waiting)
    (awaits : Awaits lasting held core (core.answers id answer)) :
    Moves (Reaching lasting held core) core (routed id waiting answer) := by
  have quiet (noTree : ∀ snapshot, answer ≠ .treeSnapshot snapshot)
      (noChunk : ∀ chunk, answer ≠ .renderChunk chunk) (still : Awaits lasting held core none) :
      Moves (Reaching lasting held core) core (routed id waiting answer) :=
    still.steady.reaching still.grasps ((routed_fetches id waiting answer noTree noChunk).from core)
  cases answer with
  | treeSnapshot snapshot =>
    cases waiting with
    | treeSnapshot tree =>
      simp only [ClientCore.answers, looked] at awaits
      simp only [routed]
      by_cases same : TreeKey.ofSnapshot snapshot = tree
      · rw [if_pos same] at awaits
        rw [if_neg (not_not.mpr same)]
        exact moves_always (contentAnswered_reaches awaits)
      · rw [if_neg same] at awaits
        rw [if_pos same]
        exact awaits.nothing
    | browseTree repoId => exact browseAnswer_reaches looked awaits
    | renderChunk filled =>
      simp only [ClientCore.answers, looked] at awaits
      cases filled <;> exact awaits.fails _
    | _ =>
      simp only [ClientCore.answers, looked] at awaits
      exact awaits.fails _
  | renderChunk chunk =>
    cases waiting with
    | renderChunk filled =>
      cases filled with
      | chunk render index =>
        simp only [ClientCore.answers, looked] at awaits
        simp only [routed]
        by_cases same : chunk.index = index
        · rw [if_pos same] at awaits
          rw [if_neg (not_not.mpr same)]
          exact moves_always (contentAnswered_reaches awaits)
        · rw [if_neg same] at awaits
          rw [if_pos same]
          exact awaits.nothing
      | _ =>
        simp only [ClientCore.answers, looked] at awaits
        exact awaits.fails _
    | _ =>
      simp only [ClientCore.answers, looked] at awaits
      exact awaits.fails _
  | _ =>
    exact quiet (by rintro _ ⟨⟩) (by rintro _ ⟨⟩) awaits

theorem response_reaches {answer : Response}
    (awaits : Awaits lasting held core (core.answers id answer)) :
    Moves (Reaching lasting held core) core (response id answer) := by
  unfold response
  refine moves_read ?_
  cases looked : core.inFlight.lookup id with
  | none =>
    have nothing : core.answers id answer = none := by
      unfold ClientCore.answers
      split <;> simp only [looked]
    rw [nothing] at awaits
    exact awaits.nothing
  | some waiting =>
    dsimp only
    split
    next late =>
      have nothing : core.answers id answer = none := by
        cases waiting <;> cases answer <;>
          first | contradiction | simp only [ClientCore.answers, looked]
      rw [nothing] at awaits
      exact awaits.nothing
    next late =>
      have nothing : core.answers id answer = none := by
        cases waiting <;> cases answer <;>
          first | contradiction | simp only [ClientCore.answers, looked]
      rw [nothing] at awaits
      exact awaits.nothing
    · exact reaching_then (routed_reaches looked awaits) fun _ => inferInstance

theorem openingHeader_reaches {reviewId : ReviewId} {header : FileRenderHeader}
    (awaits : Awaits lasting held core (some (.header (.ofHeader header)))) :
    Moves (Reaching lasting held core) core (openingHeader reviewId header) := by
  unfold openingHeader
  refine leads_then (Sheds core) ?_ (fun _ => ?_) core (sheds_same rfl rfl)
  · exact leads_sheds (within_write _ fun _ => sheds_same rfl rfl)
  · exact leads_arrived awaits.steady (awaits.unqueued _ rfl) awaits.grasps .stream

theorem streamChunk_reaches {render : RenderKey} {stopAfter : ChunkIndex} {chunk : RenderChunk}
    (awaits : Awaits lasting held core (some (.chunk render chunk.index))) :
    Moves (Reaching lasting held core) core (streamChunk id render stopAfter chunk) := by
  unfold streamChunk
  exact reaching_then (awaits.arrived .stream) fun _ => inferInstance

/-- What an opening stream brings. -/
theorem openReview_streamed {reviewId : ReviewId} {content : OpeningContent}
    (looked : core.inFlight.lookup id = some (.openReview reviewId content))
    (current : core.supersedes id (.openReview reviewId content) = false)
    (awaits : Awaits lasting held core (core.streams id item)) :
    Moves (Reaching lasting held core) core (streamed id (.openReview reviewId content) item) := by
  unfold ClientCore.streams at awaits
  simp only [looked, current, Bool.false_eq_true, if_false] at awaits
  cases item with
  | reviewSnapshot snapshot =>
    simp only [streamed]
    split <;> exact awaits.nothing
  | treeSnapshot snapshot =>
    simp only [streamed]
    exact moves_always (awaits.arrived .stream)
  | header header =>
    simp only [streamed]
    exact moves_always (openingHeader_reaches awaits)
  | chunk repoId path chunk =>
    simp only [streamed]
    refine moves_read ?_
    cases listed : core.view.review.bind fun review => review.fileAt ⟨repoId, path⟩ with
    | none =>
      simp only [listed, Option.map_none] at awaits
      exact awaits.nothing
    | some render =>
      simp only [listed, Option.map_some] at awaits
      exact moves_always (awaits.arrived .stream)

/-- What a render stream brings. -/
theorem fileRender_streamed {render : RenderKey} {stopAfter : ChunkIndex}
    (looked : core.inFlight.lookup id = some (.fileRender render stopAfter))
    (awaits : Awaits lasting held core (core.streams id item)) :
    Moves (Reaching lasting held core) core (streamed id (.fileRender render stopAfter) item) := by
  unfold ClientCore.streams at awaits
  simp only [looked, ClientCore.supersedes, Bool.false_eq_true, if_false] at awaits
  cases item with
  | header header =>
    simp only [streamed]
    by_cases same : RenderKey.ofHeader header = render
    · simp only [same, if_true] at awaits
      rw [if_neg (not_not.mpr same)]
      exact moves_always (awaits.arrived .stream)
    · simp only [same, if_false] at awaits
      rw [if_pos same]
      exact awaits.nothing
  | chunk repoId path chunk =>
    simp only [streamed]
    by_cases same : repoId = render.repoId ∧ path = render.path
    · simp only [same, and_self, if_true] at awaits
      rw [if_neg (by simp [same])]
      exact moves_always (streamChunk_reaches awaits)
    · simp only [same, if_false] at awaits
      rw [if_pos (by rwa [not_and_or] at same)]
      exact awaits.nothing
  | _ => exact awaits.fails _

theorem streamItem_reaches (awaits : Awaits lasting held core (core.streams id item)) :
    Moves (Reaching lasting held core) core (streamItem id item) := by
  unfold streamItem
  refine moves_read ?_
  cases looked : core.inFlight.lookup id with
  | none =>
    simp only [ClientCore.streams, looked] at awaits
    exact awaits.nothing
  | some waiting =>
    dsimp only
    split
    next superseded =>
      simp only [ClientCore.streams, looked, superseded, if_true] at awaits
      exact awaits.nothing
    next current =>
      rw [Bool.not_eq_true] at current
      cases waiting with
      | openReview reviewId content => exact openReview_streamed looked current awaits
      | fileRender render stopAfter => exact fileRender_streamed looked awaits
      | _ =>
        simp only [ClientCore.streams, looked, ClientCore.supersedes, Bool.false_eq_true,
          if_false] at awaits
        exact awaits.fails _

/-! ## Requests that end -/

/-- The fetches were left alone, and no request of the id that fills a key is under way. -/
structure Ended (core : ClientCore) (id : RequestId) (now : ClientCore) : Prop where
  sheds : Sheds core now
  concluded : ∀ entry ∈ now.keyed, entry.1 ≠ id

omit [Presentation] in
theorem leads_ended {handler : Client Unit} (within : Within Shedding handler) :
    Leads (Ended core id) handler (Ended core id) := by
  intro now ended
  have sheds : Sheds now (handler now).state := within.moves now
  exact ⟨leads_sheds within now ended.sheds, fun entry mem =>
    ended.concluded entry (sheds.keyed.subset mem)⟩

omit [Presentation] in
theorem leads_dropRequest : Leads (Sheds core) (dropRequest id) (Ended core id) := by
  intro now sheds
  refine ⟨{ sheds with keyed := (List.filter_sublist.filter _).trans sheds.keyed }, ?_⟩
  intro entry mem
  have kept := (List.mem_filter.mp (List.mem_of_mem_filter mem)).2
  exact of_decide_eq_true kept

/-- The mark of a request that is over can go: it stood for that request. -/
theorem leads_over {waiting : InFlight} (steady : Steady core)
    (grasps : Grasps lasting held core none) (looked : core.inFlight.lookup id = some waiting)
    (fills : waiting.key = some key) :
    Leads (Ended core id) (contentFailed key) (Reaches lasting held core) := by
  have mine : (id, waiting) ∈ core.keyed :=
    List.mem_filter.mpr ⟨Association.mem_of_lookup looked, by simp [fills]⟩
  intro now ended
  have tidy := steady.shed ended.sheds
  have others (entry : RequestId × InFlight) (mem : entry ∈ now.keyed) :
      entry.2.key ≠ some key := by
    intro same
    have different : entry ≠ (id, waiting) := fun equal =>
      ended.concluded entry mem (congrArg Prod.fst equal)
    have apart : Std.Symm fun one other : RequestId × InFlight =>
        True → True → one.2.key ≠ other.2.key :=
      ⟨fun _ _ apart _ _ => (apart trivial trivial).symm⟩
    exact steady.sent.forall (ended.sheds.keyed.subset mem) mine different trivial trivial
      (same.trans fills.symm)
  refine ⟨_, Tidy.unmark tidy ?_ ?_ ?_, ended.sheds.keyed.subset, Course.stay _⟩
  · unfold ClientCore.queuedKeys
    rw [ended.sheds.queue]
    exact fun waits => (steady.unsent waits).2 _ mine trivial fills
  · intro entry mem lasts other names back
    rcases back with contained | same
    · exact grasps.covers entry (ended.sheds.keyed.subset mem) lasts other names (.inl contained)
    · exact absurd (same ▸ names) (others entry mem)
  · intro other isHeld
    rcases grasps.only other isHeld with contained | came
    · exact .inl contained
    · cases came

theorem streamEnd_reaches (awaits : Awaits lasting held core none) :
    Moves (Reaching lasting held core) core (streamEnd id) := by
  unfold streamEnd
  refine moves_read ?_
  cases looked : core.inFlight.lookup id with
  | none => exact awaits.nothing
  | some waiting =>
    cases waiting with
    | openReview reviewId content => exact moves_always awaits.nothing
    | fileRender render stopAfter =>
      refine moves_always ?_
      unfold renderEnded
      refine leads_then _ leads_dropRequest (fun _ =>
        leads_then (Reaches lasting held core) ?_ fun _ => ?_) core (sheds_same rfl rfl)
      · exact leads_over awaits.steady awaits.grasps looked rfl
      · exact leads_within (Fetches lasting held) inferInstance
          fun _ _ _ fetches reached => reached.further fetches
    | _ => exact awaits.fails _

theorem requestFailed_fetches {waiting : InFlight} (unkeyed : waiting.key = none)
    (failure : RpcError) : Within (Fetches lasting held) (requestFailed waiting failure) := by
  unfold requestFailed
  simp only [unkeyed]
  refine within_then _ _ (within_interface _ fun _ => rfl) fun _ => ?_
  refine within_next fun _ => ?_
  split <;> infer_instance

theorem failed_fetches {waiting : InFlight} (unkeyed : waiting.key = none) (failure : RpcError) :
    Within (Fetches lasting held) (failed id waiting failure) := by
  unfold failed
  refine within_next fun _ => ?_
  split
  · split
    · refine within_then _ _ (within_write _ Forgets.reference) fun _ => ?_
      exact requestFailed_fetches unkeyed failure
    · infer_instance
  · split
    · refine within_then _ _ (within_write _ Forgets.reference) fun _ => ?_
      exact requestFailed_fetches unkeyed failure
    · infer_instance
  · infer_instance
  · infer_instance
  · infer_instance
  · infer_instance
  · infer_instance
  · infer_instance
  · infer_instance
  · split
    · exact requestFailed_fetches unkeyed failure
    · infer_instance
  · exact requestFailed_fetches unkeyed failure

omit [Presentation] in
theorem failed_keyed {waiting : InFlight} (fills : waiting.key = some key) (failure : RpcError) :
    failed id waiting failure = requestFailed waiting failure := by
  cases waiting with
  | treeSnapshot | fileRender | renderChunk => rfl
  | _ => cases fills

theorem leads_requestFailed {waiting : InFlight} (steady : Steady core)
    (grasps : Grasps lasting held core none) (looked : core.inFlight.lookup id = some waiting)
    (fills : waiting.key = some key) (failure : RpcError) :
    Leads (Ended core id) (requestFailed waiting failure) (Reaches lasting held core) := by
  have frees : Leads (Reaches lasting held core) contentDone (Reaches lasting held core) :=
    leads_within (Fetches lasting held) inferInstance
      fun _ _ _ fetches reached => reached.further fetches
  have isContent : waiting.isContent = true := by
    cases waiting with
    | treeSnapshot | fileRender | renderChunk => rfl
    | _ => cases fills
  have rest : Leads (Ended core id) (contentFailed key >>= fun _ => contentDone)
      (Reaches lasting held core) :=
    leads_then _ (leads_over steady grasps looked fills) fun _ => frees
  unfold requestFailed
  refine leads_then _ (leads_ended (within_interface _ fun _ => rfl)) fun _ =>
    leads_then _ (leads_ended inferInstance) fun _ => ?_
  simp only [fills, isContent, if_true]
  cases waiting with
  | treeSnapshot | fileRender | renderChunk => exact rest
  | _ => cases fills

omit [Presentation] in
theorem error_state (core : ClientCore) (id : RequestId) (failure : RpcError) :
    (error id failure core).state = match core.inFlight.lookup id with
      | none => (forgetBuffer id core).state
      | some waiting =>
        (failed id waiting failure (dropRequest id (forgetBuffer id core).state).state).state := by
  have began : (error id failure core).state = (((do
      let core ← read
      match core.inFlight.lookup id with
      | none => fail (.unknownRequest id)
      | some waiting => do
        dropRequest id
        always (failed id waiting failure)) : Risky Unit) (forgetBuffer id core).state).state :=
    rfl
  have same : (forgetBuffer id core).state.inFlight = core.inFlight := rfl
  rw [began, read_bind, same]
  cases core.inFlight.lookup id with
  | none => rfl
  | some waiting => exact always_state _ (failed id waiting failure)

theorem error_reaches {failure : RpcError} (awaits : Awaits lasting held core none) :
    Moves (Reaching lasting held core) core (error id failure) := by
  have forgets : Sheds core (forgetBuffer id core).state :=
    (inferInstance : Within Shedding (forgetBuffer id)).moves core
  have ended : Ended core id (dropRequest id (forgetBuffer id core).state).state :=
    leads_dropRequest _ forgets
  unfold Moves Reaching
  rw [error_state]
  cases looked : core.inFlight.lookup id with
  | none => exact awaits.steady.sheds awaits.grasps forgets
  | some waiting =>
    dsimp only
    cases fills : waiting.key with
    | none =>
      have failing : Within (Fetches lasting held) (failed id waiting failure) :=
        failed_fetches fills failure
      exact (awaits.steady.sheds awaits.grasps ended.sheds).further (failing.moves _)
    | some key =>
      rw [failed_keyed fills]
      exact leads_requestFailed awaits.steady awaits.grasps looked fills failure _ ended

/-! ## Loads -/

section Loads

variable {storage : Key} {fetch : Fetch} {value : Option Bytes}

/-- A load stands for a mark that says so, or for none. -/
theorem Steady.loading (steady : Steady core) (loads : core.content.loads.lookup storage = some key) :
    storage = Presentation.storageKey key ∧ ∀ wanted,
      core.content.pending.lookup key = some wanted → ∃ fetch, wanted = .loading fetch :=
  Tidy.loads steady _ (Association.mem_of_lookup loads)

theorem Steady.unloaded (steady : Steady core)
    (loads : core.content.loads.lookup storage = some key) : Steady (core.unloaded storage key) ∧
      (core.unloaded storage key).content.pending.lookup key = none ∧
      ∀ entry ∈ (core.unloaded storage key).content.loads, entry.2 ≠ key := by
  obtain ⟨stored, loading⟩ := steady.loading loads
  have unqueued : key ∉ core.queuedKeys := by
    intro waits
    obtain ⟨_, queued⟩ := loading _ (Tidy.waits steady key waits)
    cases queued
  have failed : Steady (contentFailed key core).state := by
    refine Tidy.unmark steady unqueued ?_ fun _ => .inl
    intro entry mem lasts other names back
    rcases back with contained | same
    · exact contained
    · rcases Tidy.out steady entry mem lasts other names with requested | contained
      · obtain ⟨_, never⟩ := loading _ (same ▸ requested)
        cases never
      · exact contained
  refine ⟨{ failed with
      loads := fun entry mem => Tidy.loads failed entry (List.mem_of_mem_filter mem)
      diskless := ?_ }, ?_, ?_⟩
  · intro none_
    have empty : core.content.loads = [] := Tidy.diskless steady none_
    exact (congrArg (List.filter _) empty).trans List.filter_nil
  · exact (lookup_contentFailed core key key).trans (if_pos rfl)
  · intro entry mem same
    have before := List.mem_of_mem_filter mem
    have other := of_decide_eq_true (List.mem_filter.mp mem).2
    exact other (((Tidy.loads steady entry before).1.trans (by rw [same])).trans stored.symm)

/-- The daemon is asked when the host has nothing. -/
theorem leads_enqueue (steady : Steady core) (grasps : Grasps lasting held core none)
    (unmarked : core.content.pending.lookup fetch.key = none)
    (away : ¬ core.content.cache.contains fetch.key)
    (unloaded : ∀ entry ∈ core.content.loads, entry.2 ≠ fetch.key) :
    Leads (Sheds core) (enqueue fetch) (Reaches lasting held core) := by
  intro now sheds
  refine ⟨now, (steady.tidy grasps).shed sheds, sheds.keyed.subset, ?_⟩
  refine Blind.blind (enqueue_fetches fun kept _ => ⟨?_, fun isHeld => ?_, fun contained => ?_, ?_⟩)
  · rw [sheds.pending]
    exact unmarked
  · exact away (sheds.content _ (kept _ isHeld))
  · exact away (sheds.content _ contained)
  · rw [sheds.loads]
    exact unloaded

theorem loaded_reaches (steady : Steady core)
    (unmarked : core.content.pending.lookup fetch.key = none)
    (away : ¬ core.content.cache.contains fetch.key)
    (unloaded : ∀ entry ∈ core.content.loads, entry.2 ≠ fetch.key)
    (unqueued : fetch.key ∉ core.queuedKeys) (grasps : Grasps lasting held core
      (if (value.bind Presentation.decode).any fun found => found.matches fetch.key then
        some fetch.key else none)) :
    Moves (Reaching lasting held core) core (stored.loaded storage fetch.key fetch value) := by
  cases value with
  | none => exact leads_enqueue steady grasps unmarked away unloaded core (sheds_same rfl rfl)
  | some bytes =>
    unfold stored.loaded
    refine moves_read ?_
    split
    next found good =>
      obtain ⟨read_, matched⟩ := Option.filter_eq_some_iff.mp good
      rw [Option.bind_some, read_, Option.any_some, if_pos matched] at grasps
      have arrives : Leads (Sheds core) (arrived fetch.key found .disk)
          (Reaches lasting held core) := leads_arrived steady unqueued grasps .disk
      split
      · exact arrives core (sheds_same rfl rfl)
      · exact leads_then _ (leads_sheds inferInstance) (fun _ => arrives) core (sheds_same rfl rfl)
    next bad =>
      have nothing : ¬ (Option.bind (some bytes) Presentation.decode).any fun found =>
          found.matches fetch.key := by
        rw [Option.bind_some]
        intro some_
        obtain ⟨found, read_, matched⟩ := (Option.any_eq_true _ _).mp some_
        exact Option.filter_eq_none_iff.mp bad found read_ matched
      rw [if_neg nothing] at grasps
      have asks : Leads (Sheds core) (do
          order (.remove storage)
          enqueue fetch : Client Unit) (Reaches lasting held core) :=
        leads_then _ (leads_sheds inferInstance) fun _ =>
          leads_enqueue steady grasps unmarked away unloaded
      split
      · exact asks core (sheds_same rfl rfl)
      · exact leads_then _ (leads_sheds inferInstance) (fun _ => asks) core (sheds_same rfl rfl)

theorem stored_reaches (foreign : ¬ (storage = ViewPrefs.KEY ∨ storage = Presentation.keysKey))
    (awaits : Awaits lasting held core (core.recalls storage value)) :
    Moves (Reaching lasting held core) core (stored storage value) := by
  unfold ClientCore.recalls at awaits
  rw [if_neg foreign] at awaits
  unfold stored
  refine moves_read ?_
  cases loads : core.content.loads.lookup storage with
  | none =>
    rw [loads] at awaits
    exact awaits.nothing
  | some key =>
    rw [loads] at awaits
    dsimp only at awaits ⊢
    obtain ⟨steady, unmarked, unloaded⟩ := awaits.steady.unloaded loads
    have unqueued : key ∉ (core.unloaded storage key).queuedKeys := by
      intro waits
      have queued := Tidy.waits steady key waits
      rw [unmarked] at queued
      cases queued
    have ran (rest : Risky Unit) :
        ((always (stored.forgetLoad storage key) >>= fun _ => rest : Risky Unit) core).state =
          (rest (core.unloaded storage key)).state := rfl
    unfold Moves Reaching
    rw [ran]
    cases mark : core.content.pending.lookup key with
    | none =>
      rw [mark] at awaits
      exact steady.sheds ⟨awaits.grasps.covers, awaits.grasps.only⟩ (sheds_same rfl rfl)
    | some wanted =>
      rw [mark] at awaits
      obtain ⟨fetch, rfl⟩ := (awaits.steady.loading loads).2 wanted mark
      obtain rfl := Tidy.named awaits.steady _ _ mark
      have away : ¬ core.content.cache.contains fetch.key := by
        refine Tidy.absent awaits.steady _ ?_
        rw [mark]
        exact Option.some_ne_none _
      exact moves_always (loaded_reaches steady unmarked away unloaded unqueued
        ⟨awaits.grasps.covers, awaits.grasps.only⟩)

theorem loadAnswered_reaches (awaits : Awaits lasting held core (core.recalls storage value)) :
    Moves (Reaching lasting held core) core (loadAnswered storage value) := by
  have nothing (mine : storage = ViewPrefs.KEY ∨ storage = Presentation.keysKey) :
      Awaits lasting held core none := by
    unfold ClientCore.recalls at awaits
    rwa [if_pos mine] at awaits
  unfold loadAnswered
  split
  next prefs => exact (nothing (.inl prefs)).nothing
  next notPrefs =>
    split
    next keys => exact (nothing (.inr keys)).nothing
    next notKeys => exact stored_reaches (not_or.mpr ⟨notPrefs, notKeys⟩) awaits

end Loads

end Reaches

end Arrivals

end Nits.ClientCore
