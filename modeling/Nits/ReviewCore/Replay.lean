import Nits.ReviewCore.Soundness
import Nits.ReviewCore.Store.Replay

/-!
# Replaying the log

Scope filtering over bounded store pages, and a reader that follows the pages of one
captured window while the log grows. Scanned progress is independent of matching output,
including workspace history after a review's deletion.
-/

namespace Nits.ReviewCore

open Logical Protocol

/-- The workspace retained in a stored review, including its tombstone. -/
def Store.storedReviewWorkspace (store : Store) (id : ReviewId) : Option WorkspaceId :=
  (store.review id).map fun record => record.review.workspaceId

/-- One page, read from one store; each of its events is matched against what the store
holds by then. -/
def Core.replayEvents (encoding : Encoding) (store : Store) (lookup : Event → Store)
    (scope : SubscribeScope) (position : ReplayPosition) : Except CoreError ReplayPage :=
  match store.replayPage encoding position with
  | .error (.replay reason) => .error (.invalid reason)
  | .error error => .error (.store error)
  | .ok page =>
    .ok { page with
      events := page.events.filter fun event =>
        scope.matches event (lookup event).storedReviewWorkspace }

/-! ## Reads of a growing log -/

/-- A later store has a longer log, and keeps the workspace of every review in it. -/
structure Store.Retains (older newer : Store) : Prop where
  ordered : Ordered Event.seq newer.events
  log : ∃ more, newer.events = older.events ++ more ∧
    ∀ event ∈ more, older.lastSeq.getD 0 < event.seq
  members : ∀ event ∈ older.events, ∀ review, event.body.reviewId = some review →
    newer.storedReviewWorkspace review = older.storedReviewWorkspace review

/-- The stores that the calls of one reader see: the one each page is read from, and the
later ones in which the page's events are matched. -/
structure ReplayReads where
  page : Nat → Store
  lookup : Nat → Event → Store
  ordered : Ordered Event.seq (page 0).events
  grows : ∀ call, (page call).Retains (page (call + 1))
  later : ∀ call event, (page call).Retains (lookup call event)

/-- How following pages ends. -/
inductive ReplayEnding
  | complete
  | failed (error : CoreError)
  /-- The page's progress is no cursor into its window. -/
  | refused
  deriving DecidableEq

/-- What a reader is sent. -/
structure ReplayTranscript where
  pages : List ReplayPage
  ending : ReplayEnding

namespace ReplayTranscript

def events (transcript : ReplayTranscript) : List Event :=
  transcript.pages.flatMap ReplayPage.events

/-- The positions that the pages asked to be continued from. -/
def cursors (transcript : ReplayTranscript) : List Seq :=
  transcript.pages.filterMap fun page =>
    match page.progress with
    | .more after => some after
    | .complete => none

def after (page : ReplayPage) (transcript : ReplayTranscript) : ReplayTranscript where
  pages := page :: transcript.pages
  ending := transcript.ending

end ReplayTranscript

/-- Ask for a page and continue it while it is not complete, for a number of calls. -/
def followPages (encoding : Encoding) (reads : ReplayReads) (scope : SubscribeScope) :
    Nat → Nat → ReplayPosition → Option ReplayTranscript
  | 0, _, _ => none
  | fuel + 1, call, position =>
    match Core.replayEvents encoding (reads.page call) (reads.lookup call) scope position with
    | .error error => some ⟨[], .failed error⟩
    | .ok page =>
      match page.progress with
      | .complete => some ⟨[page], .complete⟩
      | .more after =>
        match ReplayCursor.new after page.through with
        | none => some ⟨[page], .refused⟩
        | some cursor =>
          (followPages encoding reads scope fuel (call + 1) (.continue cursor)).map (.after page)

namespace Store.Retains

variable {older middle newer : Store} {after through : Seq}

theorem le_last (ordered : Ordered Event.seq older.events) {event : Event}
    (mem : event ∈ older.events) : event.seq ≤ older.lastSeq.getD 0 :=
  ordered.le_last mem

/-- The head of the log never moves backwards. -/
theorem head_le (retains : older.Retains newer) : older.lastSeq.getD 0 ≤ newer.lastSeq.getD 0 := by
  obtain ⟨more, log, above⟩ := retains.log
  rcases more.eq_nil_or_concat' with rfl | ⟨early, last, rfl⟩
  · rw [List.append_nil] at log
    exact Nat.le_of_eq (by unfold Store.lastSeq; rw [log])
  · have below : older.lastSeq.getD 0 < last.seq := above last (by simp)
    have last_ : newer.lastSeq.getD 0 = last.seq := by
      unfold Store.lastSeq
      rw [log, ← List.append_assoc, List.getLast?_concat]
      rfl
    rw [last_]
    exact Nat.le_of_lt below

/-- What is appended changes no window of the older log. -/
theorem window_kept (retains : older.Retains newer) (held : through ≤ older.lastSeq.getD 0) :
    window Event.seq after through newer.events = window Event.seq after through older.events := by
  obtain ⟨more, log, above⟩ := retains.log
  rw [log]
  exact window_grown fun event mem => Nat.lt_of_le_of_lt held (above event mem)

theorem subset (retains : older.Retains newer) {event : Event} (mem : event ∈ older.events) :
    event ∈ newer.events := by
  obtain ⟨more, log, _⟩ := retains.log
  rw [log]
  exact List.mem_append_left _ mem

theorem trans (first : older.Retains middle) (second : middle.Retains newer) :
    older.Retains newer where
  ordered := second.ordered
  log := by
    obtain ⟨more, log, above⟩ := first.log
    obtain ⟨rest, log', above'⟩ := second.log
    refine ⟨more ++ rest, by rw [log', log, List.append_assoc], fun event mem => ?_⟩
    rcases List.mem_append.mp mem with early | late
    · exact above event early
    · exact Nat.lt_of_le_of_lt first.head_le (above' event late)
  members event mem review named :=
    (second.members event (first.subset mem) review named).trans
      (first.members event mem review named)

theorem refl (ordered : Ordered Event.seq older.events) : older.Retains older where
  ordered := ordered
  log := ⟨[], (List.append_nil _).symm, by simp⟩
  members _ _ _ _ := rfl

/-- Whether an event matches a scope is settled once the event is in the log. -/
theorem matches_eq (retains : older.Retains newer) (scope : SubscribeScope) {event : Event}
    (mem : event ∈ older.events) : scope.matches event newer.storedReviewWorkspace =
      scope.matches event older.storedReviewWorkspace :=
  scope.matches_congr (retains.members event mem)

end Store.Retains

namespace ReplayReads

variable (reads : ReplayReads)

theorem ordered_page (call : Nat) : Ordered Event.seq (reads.page call).events := by
  cases call with
  | zero => exact reads.ordered
  | succ call => exact (reads.grows call).ordered

theorem retains {first call : Nat} (later : first ≤ call) :
    (reads.page first).Retains (reads.page call) := by
  induction later with
  | refl => exact .refl (reads.ordered_page first)
  | step _ ih => exact ih.trans (reads.grows _)

end ReplayReads

/-! ## Reads of a running core -/

theorem Store.Logged.ordered {store : Store} (logged : store.Logged) :
    Ordered Event.seq store.events := by
  have numbers : (store.events.map Event.seq).Pairwise (· < ·) := by
    rw [logged.numbered]
    exact List.pairwise_lt_range'
  exact List.pairwise_map.mp numbers

/-- What holds of the log and the views of a core in every state. -/
structure Store.Traced (store : Store) : Prop where
  consistent : Consistent store.views
  logged : store.Logged
  recorded : ∀ event ∈ store.events, ∀ review, event.body.reviewId = some review →
    ∃ record, store.views.reviews[review]? = some record

theorem Store.Traced.empty : Store.empty.Traced where
  consistent := .empty
  logged := .empty
  recorded _ mem := absurd mem List.not_mem_nil

section Running

variable [Platform] {env : Environment} {before after : Store} {event : Event}

/-- The review that an admissible event names is stored once the event is. -/
theorem Store.Gains.recorded (gains : Store.Gains (Admissible env) before event after)
    (consistent : Consistent before.views) {review : ReviewId}
    (named : event.body.reviewId = some review) :
    ∃ record, after.views.reviews[review]? = some record := by
  have follows := Views.follows_of_apply consistent.toKeyed gains.applied
  have kept {record : ReviewRecord} (found : before.views.reviews[review]? = some record) :
      ∃ record, after.views.reviews[review]? = some record := follows.review_kept found
  have commented {id : CommentId} {comment : Comment}
      (found : before.views.comments[(review, id)]? = some comment) :
      ∃ record, after.views.reviews[review]? = some record := by
    obtain ⟨_, stored⟩ := consistent.reviewed found
    exact kept stored
  have threaded {id : ThreadId} {thread : Thread}
      (found : before.views.threads[(review, id)]? = some thread) :
      ∃ record, after.views.reviews[review]? = some record := by
    obtain ⟨_, stored, _⟩ := consistent.mem found List.mem_cons_self
    exact commented stored
  have admissible := gains.allowed
  cases body : event.body <;> simp only [body, Admissible, EventBody.reviewId, Option.some.injEq,
    reduceCtorEq] at admissible named
  case reviewCreated review =>
    subst named
    exact ⟨⟨review, none, .live⟩, by rw [follows.review, Rows.review, body]; simp [Rows.storeAt]⟩
  case commentCreated comment =>
    subst named
    rcases admissible.2 with starts | joins
    · obtain ⟨_, live⟩ := starts.review
      exact kept live.found
    · obtain ⟨_, _, found, _⟩ := joins.inherits
      exact threaded found
  case commentEdited | commentDeleted =>
    subst named
    obtain ⟨_, live⟩ := admissible
    exact commented live.found
  case commentReanchored =>
    subst named
    obtain ⟨_, live⟩ := admissible.live
    exact kept live.found
  case threadDeferred | threadResolved | threadUnresolved =>
    subst named
    obtain ⟨_, found, _⟩ := admissible
    exact threaded found
  case suggestionApplied =>
    subst named
    obtain ⟨⟨_, live⟩, _⟩ := admissible
    exact kept live.found
  case reviewTargetUpdated =>
    subst named
    obtain ⟨_, live, _⟩ := admissible
    exact kept live.found
  all_goals
    subst named
    obtain ⟨_, live⟩ := admissible
    exact kept live.found

/-- A stored review never changes its workspace. -/
theorem Store.Gains.workspace_kept (gains : Store.Gains (Admissible env) before event after)
    (consistent : Consistent before.views) {review : ReviewId} {record : ReviewRecord}
    (found : before.views.reviews[review]? = some record) :
    after.storedReviewWorkspace review = before.storedReviewWorkspace review := by
  have follows := Views.follows_of_apply consistent.toKeyed gains.applied
  have admissible := gains.allowed
  unfold Store.storedReviewWorkspace Store.review
  rw [follows.review, found]
  cases body : event.body <;> simp only [Rows.review, body, Rows.changeAt, Rows.storeAt]
  case reviewCreated created =>
    split
    next same =>
      simp only [body, Admissible, same, found] at admissible
      cases admissible
    · rfl
  all_goals
    split
    · rfl
    · rfl

theorem Store.Traced.gains (traced : before.Traced)
    (gains : Store.Gains (Admissible env) before event after) : after.Traced where
  consistent := traced.consistent.step gains.allowed gains.applied
  logged := traced.logged.gains gains
  recorded := by
    intro other mem review named
    rw [gains.events] at mem
    rcases List.mem_append.mp mem with earlier | last
    · obtain ⟨record, found⟩ := traced.recorded other earlier review named
      exact (Views.follows_of_apply traced.consistent.toKeyed gains.applied).review_kept found
    · rw [List.mem_singleton.mp last] at named
      exact gains.recorded traced.consistent named

theorem Store.Traced.retains (traced : before.Traced)
    (gains : Store.Gains (Admissible env) before event after) : before.Retains after where
  ordered := (traced.gains gains).logged.ordered
  log := by
    refine ⟨[event], gains.events, fun other mem => ?_⟩
    rw [List.mem_singleton.mp mem, gains.numbered, Store.nextSeq]
    cases before.lastSeq with
    | none => exact Nat.zero_lt_one
    | some last => exact Nat.lt_succ_self last
  members other mem review named := by
    obtain ⟨record, found⟩ := traced.recorded other mem review named
    exact gains.workspace_kept traced.consistent found

theorem Store.Traced.grows (traced : before.Traced)
    (grows : Store.Grows (Admissible env) before after) : after.Traced ∧ before.Retains after := by
  refine grows.keeps (fun store => store.Traced ∧ before.Retains store) ?_
    ⟨traced, .refl traced.logged.ordered⟩
  rintro store next event ⟨held, retains⟩ gains
  exact ⟨held.gains gains, retains.trans (held.retains gains)⟩

variable (env)

/-- What a reachable core's store has recorded, and what any further run of it retains. -/
theorem Reachable.traced {core : Core} (reachable : Reachable env core)
    (steps : List Step) : core.store.Traced ∧
      core.store.Retains (Core.run env core steps).store := by
  have traced := (Store.Traced.empty.grows reachable.extends.grows).1
  exact ⟨traced, (traced.grows (Core.run_extends reachable.consistent steps).grows).2⟩

/-- The core after each of a sequence of runs. -/
def Core.moments (steps : Nat → List Step) : Nat → Core
  | 0 => Core.run env .initial (steps 0)
  | call + 1 => Core.run env (moments steps call) (steps (call + 1))

theorem Core.moments_reachable (steps : Nat → List Step) (call : Nat) :
    Reachable env (Core.moments env steps call) := by
  induction call with
  | zero => exact ⟨steps 0, rfl⟩
  | succ call ih =>
    obtain ⟨early, same⟩ := ih
    refine ⟨early ++ steps (call + 1), ?_⟩
    rw [Core.run, List.foldl_append]
    exact congrArg (Core.run env · (steps (call + 1))) same

/-- A reader of a running core: `steps` happen between its calls, and `lookups` between a
page and the lookup for one of its events. -/
def ReplayReads.ofRun (steps : Nat → List Step) (lookups : Nat → Event → List Step) :
    ReplayReads where
  page call := (Core.moments env steps call).store
  lookup call event :=
    (Core.run env (Core.moments env steps call) (lookups call event)).store
  ordered := ((Core.moments_reachable env steps 0).traced env []).1.logged.ordered
  grows call := ((Core.moments_reachable env steps call).traced env _).2
  later call _ := ((Core.moments_reachable env steps call).traced env _).2

end Running

/-! ## Following a window -/

/-- A transcript hands over the records of a window that a reader selects: all of them, or
those of the pages before the call that met a record which no page can hold. -/
structure Delivers (encoding : Encoding) (records : List Event) (selects : Event → Bool)
    (after through : Seq) (transcript : ReplayTranscript) : Prop where
  fixed : ∀ page ∈ transcript.pages, page.through = through
  /-- Every cursor is past the one before it, and before the window's end. -/
  ascending : (after :: transcript.cursors).Pairwise (· < ·)
  valid : ∀ cursor ∈ transcript.cursors, cursor < through
  bounded : ∀ page ∈ transcript.pages, ∃ read, read <:+: records ∧ Store.Bounded encoding read ∧
    page.events = read.filter selects
  ending : (transcript.ending = .complete ∧ transcript.events = records.filter selects ∧
      ∀ event ∈ records, ¬ encoding.Oversized event) ∨
    ∃ read scanned event rest, records = read ++ scanned ++ event :: rest ∧
      (∀ earlier ∈ read, ¬ encoding.Oversized earlier) ∧ Store.Fails encoding scanned event ∧
      transcript.events = read.filter selects ∧
      transcript.ending = .failed (.invalid (Store.exceeds event))

section Following

variable {encoding : Encoding} {records read rest : List Event} {selects : Event → Bool}
  {after through : Seq} {page : ReplayPage}

theorem Delivers.last (bounded : Store.Bounded encoding records)
    (same : page.through = through) (complete : page.progress = .complete)
    (selected : page.events = records.filter selects) :
    Delivers encoding records selects after through ⟨[page], .complete⟩ where
  fixed := by simpa using same
  ascending := by simp [ReplayTranscript.cursors, complete]
  valid := by simp [ReplayTranscript.cursors, complete]
  bounded := by
    intro other mem
    rw [List.mem_singleton.mp mem]
    exact ⟨records, List.infix_refl _, bounded, selected⟩
  ending := .inl ⟨rfl, by simpa [ReplayTranscript.events] using selected, bounded.fits⟩

theorem Delivers.fails {event : Event} (parts : records = read ++ event :: rest)
    (fails : Store.Fails encoding read event) :
    Delivers encoding records selects after through
      ⟨[], .failed (.invalid (Store.exceeds event))⟩ where
  fixed := by simp
  ascending := by simp [ReplayTranscript.cursors]
  valid := by simp [ReplayTranscript.cursors]
  bounded := by simp
  ending := .inr ⟨[], read, event, rest, parts, by simp, fails, rfl, rfl⟩

theorem Delivers.next {last : Event} {transcript : ReplayTranscript}
    (parts : records = read ++ rest) (above : after < last.seq)
    (below : last.seq < through) (bounded : Store.Bounded encoding read)
    (same : page.through = through) (more : page.progress = .more last.seq)
    (selected : page.events = read.filter selects)
    (delivers : Delivers encoding rest selects last.seq through transcript) :
    Delivers encoding records selects after through (transcript.after page) := by
  have cursors : (transcript.after page).cursors = last.seq :: transcript.cursors := by
    simp [ReplayTranscript.cursors, ReplayTranscript.after, more]
  have events : (transcript.after page).events = read.filter selects ++ transcript.events := by
    simp [ReplayTranscript.events, ReplayTranscript.after, selected]
  obtain ⟨later, _⟩ := List.pairwise_cons.mp delivers.ascending
  refine ⟨?_, ?_, ?_, ?_, ?_⟩
  · intro other mem
    rcases List.mem_cons.mp mem with rfl | behind
    · exact same
    · exact delivers.fixed other behind
  · rw [cursors, List.pairwise_cons]
    refine ⟨fun cursor mem => ?_, delivers.ascending⟩
    rcases List.mem_cons.mp mem with rfl | behind
    · exact above
    · exact Nat.lt_trans above (later cursor behind)
  · rw [cursors]
    intro cursor mem
    rcases List.mem_cons.mp mem with rfl | behind
    · exact below
    · exact delivers.valid cursor behind
  · intro other mem
    rcases List.mem_cons.mp mem with rfl | behind
    · exact ⟨read, parts ▸ (List.prefix_append read rest).isInfix, bounded, selected⟩
    · obtain ⟨part, within, keeps, same⟩ := delivers.bounded other behind
      exact ⟨part, within.trans (parts ▸ (List.suffix_append read rest).isInfix), keeps, same⟩
  · rw [events]
    rcases delivers.ending with ⟨complete, all, fits⟩ | ⟨first, scanned, event, left, split, fits,
      fails, some, failed⟩
    · refine .inl ⟨complete, by rw [parts, all, List.filter_append], fun event mem => ?_⟩
      rw [parts] at mem
      exact (List.mem_append.mp mem).elim (bounded.fits event) (fits event)
    · refine .inr ⟨read ++ first, scanned, event, left, ?_, ?_, fails, ?_, failed⟩
      · rw [parts, split]
        simp only [List.append_assoc]
      · intro earlier mem
        exact (List.mem_append.mp mem).elim (bounded.fits earlier) (fits earlier)
      · rw [some, List.filter_append]

variable {reads : ReplayReads} {scope : SubscribeScope} {position : ReplayPosition} {call : Nat}

/-- What a call makes of the page it reads. -/
theorem replayEvents_cases (encoding : Encoding) (reads : ReplayReads) (scope : SubscribeScope)
    (bounds : (reads.page call).replayBounds position = .ok (after, through))
    (ends : (reads.page call).Ends after through) :
    (∃ read event rest, window Event.seq after through (reads.page call).events =
        read ++ event :: rest ∧ Store.Fails encoding read event ∧
      Core.replayEvents encoding (reads.page call) (reads.lookup call) scope position =
        .error (.invalid (Store.exceeds event))) ∨
    ∃ page read rest, Store.Paged encoding (window Event.seq after through (reads.page call).events)
        through page read rest ∧
      Core.replayEvents encoding (reads.page call) (reads.lookup call) scope position =
        .ok { page with
          events := read.filter fun event =>
            scope.matches event (reads.lookup call event).storedReviewWorkspace } := by
  unfold Core.replayEvents
  rcases scanned : (reads.page call).replayPage encoding position with error | page
  · obtain ⟨read, event, rest, parts, fails, rfl⟩ := Store.replayPage_error bounds scanned
    exact .inl ⟨read, event, rest, parts, fails, rfl⟩
  · obtain ⟨read, rest, paged⟩ :=
      Store.replayPage_ok (reads.ordered_page call) bounds ends scanned
    refine .inr ⟨page, read, rest, paged, ?_⟩
    rw [← paged.events]

/-- Following a window from any call on delivers it, in no more calls than it has records
and one more. -/
theorem follow_from (bounds : (reads.page call).replayBounds position = .ok (after, through))
    (ends : (reads.page call).Ends after through)
    (parts : window Event.seq after through (reads.page call).events = records)
    (selected : ∀ later, call ≤ later → ∀ event ∈ records,
      scope.matches event (reads.lookup later event).storedReviewWorkspace = selects event) :
    ∃ transcript, Delivers encoding records selects after through transcript ∧
      ∀ fuel, records.length < fuel →
        followPages encoding reads scope fuel call position = some transcript := by
  induction size : records.length using Nat.strong_induction_on
    generalizing records call position after with
  | _ size ih =>
  subst size
  rcases replayEvents_cases encoding reads scope bounds ends with
    ⟨read, event, rest, split, fails, answer⟩ | ⟨page, read, rest, paged, answer⟩
  · refine ⟨_, .fails (parts ▸ split) fails, ?_⟩
    intro fuel enough
    obtain ⟨fuel, rfl⟩ := Nat.exists_eq_add_one_of_ne_zero (Nat.ne_zero_of_lt enough)
    rw [followPages, answer]
  rw [parts] at paged
  have kept : (read.filter fun event =>
      scope.matches event (reads.lookup call event).storedReviewWorkspace) =
        read.filter selects := by
    refine List.filter_congr fun event mem => selected call (Nat.le_refl _) event ?_
    rw [paged.split]
    exact List.mem_append_left _ mem
  rw [kept] at answer
  generalize made : ({ page with events := read.filter selects } : ReplayPage) = sent at answer
  have fixed : sent.through = through := made ▸ paged.through
  have progress : sent.progress = page.progress := made ▸ rfl
  have chosen : sent.events = read.filter selects := made ▸ rfl
  by_cases whole : rest = []
  · have complete : sent.progress = .complete := progress.trans (paged.complete whole)
    have all : records = read := by rw [paged.split, whole, List.append_nil]
    refine ⟨_, .last (all ▸ paged.bounded) fixed complete (all ▸ chosen), ?_⟩
    intro fuel enough
    obtain ⟨fuel, rfl⟩ := Nat.exists_eq_add_one_of_ne_zero (Nat.ne_zero_of_lt enough)
    rw [followPages, answer]
    simp only [complete]
  obtain ⟨early, last, ended, more⟩ := paged.more whole
  have window_ : window Event.seq after through (reads.page call).events =
      early ++ last :: rest := by
    rw [parts, paged.split, ended, List.append_assoc, List.singleton_append]
  have inside : last ∈ window Event.seq after through (reads.page call).events := by
    rw [window_]
    simp
  obtain ⟨_, above, upTo⟩ := mem_window.mp inside
  have opened : after < through := Nat.lt_of_lt_of_le above upTo
  obtain ⟨final, mem, same⟩ := ends.resolve_left (Nat.not_le.mpr opened)
  have held : through ≤ (reads.page call).lastSeq.getD 0 :=
    same ▸ Store.Retains.le_last (reads.ordered_page call) mem
  have below : last.seq < through := Nat.not_le.mp fun reached =>
    whole ((ends.reached (reads.ordered_page call) opened (parts.trans paged.split) ended).mp reached)
  have grows : (reads.page call).Retains (reads.page (call + 1)) := reads.grows call
  have bounds' : (reads.page (call + 1)).replayBounds (.continue ⟨last.seq, through, below⟩) =
      .ok (last.seq, through) :=
    if_neg (Nat.not_lt.mpr (Nat.le_trans held grows.head_le))
  have ends' : (reads.page (call + 1)).Ends last.seq through :=
    .inr ⟨final, grows.subset mem, same⟩
  have parts' : window Event.seq last.seq through (reads.page (call + 1)).events = rest := by
    rw [grows.window_kept held]
    exact (reads.ordered_page call).window_past window_
  have shorter : rest.length < records.length := by
    rw [paged.split, ended]
    simp only [List.length_append, List.length_singleton]
    omega
  obtain ⟨transcript, delivers, follows⟩ := ih rest.length shorter bounds' ends' parts'
    (fun later after event mem => selected later (Nat.le_of_succ_le after) event
      (paged.split ▸ List.mem_append_right _ mem)) rfl
  have continued : sent.progress = .more last.seq := progress.trans more
  refine ⟨_, .next paged.split above below paged.bounded fixed continued chosen delivers, ?_⟩
  intro fuel enough
  obtain ⟨fuel, rfl⟩ := Nat.exists_eq_add_one_of_ne_zero (Nat.ne_zero_of_lt enough)
  rw [followPages, answer]
  simp only [continued, fixed, ReplayCursor.new_of_lt below]
  rw [follows fuel (by omega)]
  rfl

/-- A window captured from a log is empty or ends at the log's head. -/
theorem replayBounds_fresh {store : Store} (fresh : ∀ cursor, position ≠ .continue cursor) :
    ∃ after through, store.replayBounds position = .ok (after, through) ∧ after ≤ through ∧
      store.Ends after through ∧ (through = after ∨ through = store.lastSeq.getD 0) := by
  have head {after : Seq} : store.Ends after (max (store.lastSeq.getD 0) after) ∧
      (max (store.lastSeq.getD 0) after = after ∨
        max (store.lastSeq.getD 0) after = store.lastSeq.getD 0) := by
    rcases Nat.le_total (store.lastSeq.getD 0) after with beyond | history
    · rw [Nat.max_eq_right beyond]
      exact ⟨.inl (Nat.le_refl _), .inl rfl⟩
    · rw [Nat.max_eq_left history]
      refine ⟨?_, .inr rfl⟩
      rcases store.events.eq_nil_or_concat' with none | ⟨early, last, same⟩
      · exact .inl (by simp [Store.lastSeq, none])
      · exact .inr ⟨last, by simp [same], by simp [Store.lastSeq, same]⟩
  cases position with
  | «continue» cursor => exact absurd rfl (fresh cursor)
  | follow seq => exact ⟨seq, _, rfl, Nat.le_max_right _ _, head⟩
  | start since =>
    cases since with
    | now => exact ⟨_, _, rfl, Nat.le_refl _, .inl (Nat.le_refl _), .inl rfl⟩
    | after seq => exact ⟨seq, _, rfl, Nat.le_max_right _ _, head⟩

/-- A reader that goes on from a window's end reads on without a gap or an overlap. -/
def Store.Continues (store : Store) (after through : Seq) : Prop :=
  ∀ later, store.Retains later → ∃ head,
    later.replayBounds (.follow through) = .ok (through, head) ∧
    window Event.seq after head later.events =
      window Event.seq after through store.events ++ window Event.seq through head later.events

theorem Store.continues {store : Store} (forward : after ≤ through)
    (captured : through = after ∨ through = store.lastSeq.getD 0) :
    store.Continues after through := by
  intro later retains
  refine ⟨_, rfl, ?_⟩
  rw [retains.ordered.window_join forward (Nat.le_max_right _ _)]
  rcases captured with rfl | head
  · rw [window_eq_nil (Nat.le_refl _), window_eq_nil (Nat.le_refl _)]
  · rw [retains.window_kept (Nat.le_of_eq head)]

/-- Following the pages of a window captured at the start always ends, however the log grows
in between. -/
theorem follow_delivers (encoding : Encoding) (reads : ReplayReads) (scope : SubscribeScope)
    (position : ReplayPosition) (fresh : ∀ cursor, position ≠ .continue cursor) :
    ∃ after through transcript,
      (reads.page 0).replayBounds position = .ok (after, through) ∧
      Delivers encoding (window Event.seq after through (reads.page 0).events)
        (fun event => scope.matches event (reads.page 0).storedReviewWorkspace) after through
        transcript ∧
      (∀ fuel, (window Event.seq after through (reads.page 0).events).length < fuel →
        followPages encoding reads scope fuel 0 position = some transcript) ∧
      (reads.page 0).Continues after through := by
  obtain ⟨after, through, bounds, forward, ends, captured⟩ := replayBounds_fresh fresh
  obtain ⟨transcript, delivers, follows⟩ := follow_from bounds ends rfl fun call _ event mem => by
    have held : event ∈ (reads.page 0).events := (mem_window.mp mem).1
    have seen := (reads.retains (Nat.zero_le call)).trans (reads.later call event)
    exact seen.matches_eq scope held
  exact ⟨after, through, transcript, bounds, delivers, follows, Store.continues forward captured⟩

end Following

namespace Replayed

/-- Every event takes more than half of a page, as stored and as sent. -/
def large : Encoding := ⟨fun _ => 600000, fun _ => 600000⟩

/-- Make a workspace that the reader does not select. -/
def aside (number : Nat) : Step := Session.mutate (.createWorkspace ⟨.ofNat 128 number⟩ "aside")

/-- The session opens before the first call, and workspaces are made before each other one. -/
def steps : Nat → List Step
  | 0 => Session.opening ++ [aside 9]
  | call + 1 => [aside (call + 10), aside (call + 20)]

/-- A reader of the session; its workspace is renamed before an event of a page is matched. -/
def reads : ReplayReads :=
  @ReplayReads.ofRun .plain .calm steps fun _ _ =>
    [Session.mutate (.renameWorkspace Session.workspaceId "renamed")]

/-- The first window is read in five pages of one record each, the last of them not selected,
while two events are appended before each call. -/
theorem follow_delivers_growing :
    (followPages large reads (.workspace Session.workspaceId) 6 0 (.start (.after 0))).map
      (fun transcript => (transcript.pages.map fun page => page.events.map Event.seq,
        transcript.cursors, transcript.ending)) =
      some ([[1], [2], [3], [4], []], [1, 2, 3, 4], .complete) ∧
    (reads.page 4).events.map Event.seq = [1, 2, 3, 4, 5, 6, 7, 8, 9, 10, 11, 12, 13] ∧
    ∃ after through transcript,
      (reads.page 0).replayBounds (.start (.after 0)) = .ok (after, through) ∧
      Delivers large (window Event.seq after through (reads.page 0).events)
        (fun event => (SubscribeScope.workspace Session.workspaceId).matches event
          (reads.page 0).storedReviewWorkspace) after through transcript ∧
      (∀ fuel, (window Event.seq after through (reads.page 0).events).length < fuel →
        followPages large reads (.workspace Session.workspaceId) fuel 0 (.start (.after 0)) =
          some transcript) ∧
      (reads.page 0).Continues after through :=
  ⟨by decide +kernel, by decide +kernel, follow_delivers large reads _ (.start (.after 0)) (by simp)⟩

/-- A record that is too large as stored fails the second call; the first one has handed over
all before it. -/
example : (followPages ⟨fun event => if event.seq = 3 then 70000000 else 100, fun _ => 100⟩ reads .all
      6 0 (.start (.after 0))).map
    (fun transcript => (transcript.pages.map fun page => page.events.map Event.seq,
      decide (transcript.ending = .complete))) = some ([[1, 2]], false) := by
  decide +kernel

end Replayed

end Nits.ReviewCore
