import Nits.Logical.Refreshed
import Nits.ReviewCore.DeletedReview
import Nits.ReviewCore.Replay

/-!
# Complete and incremental comment listings

A listing holds exactly the conversations that its query selects and counts exactly
those. A reader who listed everything at one position of the log and asks again for the
conversations with later activity has, after replacing what came back, the listing of the
later position: an event without activity in a conversation leaves its rows alone.
-/

namespace Nits.ReviewCore

open Logical Protocol

/-! ## What a listing is to hold -/

/-- The repository that an anchor names. -/
def namedRepo : Anchor → Option RepoId
  | .review => none
  | .file repoId _ _ | .lines repoId .. => some repoId

/-- The path that an anchor names. -/
def namedPath : Anchor → Option RepoPath
  | .review => none
  | .file _ path _ | .lines _ path .. => some path

/-- A thread as a listing shows it: the stored thread under its status, and its stored
comments, root first and then the replies in order. -/
structure Conversation (comments : List Comment) (thread : Thread) (shown : CommentThread) :
    Prop where
  thread : thread = ⟨shown.id, shown.reviewId, shown.root, shown.replies, shown.resolution⟩
  comments : shown.comments.items.map some = (shown.root :: shown.replies).map fun id =>
    comments.find? fun comment => comment.id = id
  status : ∀ root, shown.comments.items.head? = some root →
    shown.status = statusOf root shown.resolution

/-- Whether an event is activity in a conversation: it adds a comment to it, changes or
moves one of its comments or applies its suggestion, or settles its thread. -/
def Active (shown : CommentThread) : EventBody → Prop
  | .commentCreated comment => comment.reviewId = shown.reviewId ∧ comment.threadId = shown.id
  | .commentEdited reviewId id _ | .commentDeleted reviewId id
  | .commentReanchored reviewId id _ _ | .suggestionApplied reviewId id .. =>
    reviewId = shown.reviewId ∧ id ∈ shown.root :: shown.replies
  | .threadDeferred reviewId id .. | .threadResolved reviewId id | .threadUnresolved reviewId id =>
    reviewId = shown.reviewId ∧ id = shown.id
  | _ => False

/-- A conversation that every given filter of a query selects. -/
structure Selected (events : List Event) (query : CommentQuery) (shown : CommentThread) : Prop where
  status : ∀ wanted, query.status = some wanted → wanted = shown.status
  thread : ∀ wanted, query.threadId = some wanted → wanted = shown.id
  /-- One comment is anchored in the wanted repository and under the wanted path. -/
  anchor : ∃ comment ∈ shown.comments.items,
    (∀ path, query.path = some path → namedPath comment.anchor = some path) ∧
      ∀ repo, query.repoId = some repo → namedRepo comment.anchor = some repo
  author : ∀ name, query.author = some name →
    ∃ comment ∈ shown.comments.items, namedAs name comment.author = true
  since : ∀ since, query.since = some since →
    ∃ event ∈ events, since < event.seq ∧ Active shown event.body

/-- The counts of some conversations. -/
def summaryOf (threads : List CommentThread) : CommentSummary :=
  let comments := threads.flatMap fun thread => thread.comments.items
  { threads := threads.length
    opened := threads.countP fun thread => thread.status = .opened
    resolved := threads.countP fun thread => thread.status = .resolved
    deferred := threads.countP fun thread => thread.status = .deferred
    informational := threads.countP fun thread => thread.status = .informational
    deleted := threads.countP fun thread => thread.status = .deleted
    comments := comments.length
    deletedComments := comments.countP fun comment => comment.state = .deleted }

/-- A listing answers a query: its conversations are those of the review's threads that the
query selects, in the order of the threads, and its summary counts them. -/
structure Answers (store : Store) (reviewId : ReviewId) (query : CommentQuery)
    (listing : CommentListing) : Prop where
  threads : ∀ shown, shown ∈ listing.threads ↔ (∃ thread ∈ store.threads reviewId,
    Conversation (store.comments reviewId) thread shown) ∧ Selected store.events query shown
  order : (listing.threads.map CommentThread.id).Sublist ((store.threads reviewId).map Thread.id)
  distinct : (listing.threads.map CommentThread.id).Nodup
  summary : listing.summary = summaryOf listing.threads

/-! ## Counting -/

/-- The counts of two lots of conversations together. -/
def summed (left right : CommentSummary) : CommentSummary where
  threads := left.threads + right.threads
  opened := left.opened + right.opened
  resolved := left.resolved + right.resolved
  deferred := left.deferred + right.deferred
  informational := left.informational + right.informational
  deleted := left.deleted + right.deleted
  comments := left.comments + right.comments
  deletedComments := left.deletedComments + right.deletedComments

/-- Every count is below 2 ^ 32. -/
structure Fits (summary : CommentSummary) : Prop where
  threads : summary.threads < 2 ^ 32
  opened : summary.opened < 2 ^ 32
  resolved : summary.resolved < 2 ^ 32
  deferred : summary.deferred < 2 ^ 32
  informational : summary.informational < 2 ^ 32
  deleted : summary.deleted < 2 ^ 32
  comments : summary.comments < 2 ^ 32
  deletedComments : summary.deletedComments < 2 ^ 32

section Counting

variable {seq : Seq} {left right summary result : CommentSummary}

theorem summed_assoc (left middle right : CommentSummary) :
    summed (summed left middle) right = summed left (summed middle right) := by
  simp [summed, Nat.add_assoc]

@[simp] theorem summed_zero (summary : CommentSummary) : summed summary .zero = summary := rfl

theorem summaryOf_append (left right : List CommentThread) :
    summaryOf (left ++ right) = summed (summaryOf left) (summaryOf right) := by
  simp [summaryOf, summed]

theorem Fits.of_summed (fits : Fits (summed left right)) : Fits left where
  threads := Nat.lt_of_le_of_lt (Nat.le_add_right ..) fits.threads
  opened := Nat.lt_of_le_of_lt (Nat.le_add_right ..) fits.opened
  resolved := Nat.lt_of_le_of_lt (Nat.le_add_right ..) fits.resolved
  deferred := Nat.lt_of_le_of_lt (Nat.le_add_right ..) fits.deferred
  informational := Nat.lt_of_le_of_lt (Nat.le_add_right ..) fits.informational
  deleted := Nat.lt_of_le_of_lt (Nat.le_add_right ..) fits.deleted
  comments := Nat.lt_of_le_of_lt (Nat.le_add_right ..) fits.comments
  deletedComments := Nat.lt_of_le_of_lt (Nat.le_add_right ..) fits.deletedComments

/-- The status counts are disjoint, and deleted comments are comments. -/
theorem fits_summaryOf {threads : List CommentThread} : Fits (summaryOf threads) ↔
    threads.length < 2 ^ 32 ∧ (threads.flatMap fun thread => thread.comments.items).length < 2 ^ 32 := by
  constructor
  · intro fits
    exact ⟨fits.threads, fits.comments⟩
  · rintro ⟨few, short⟩
    exact {
      threads := few
      opened := Nat.lt_of_le_of_lt List.countP_le_length few
      resolved := Nat.lt_of_le_of_lt List.countP_le_length few
      deferred := Nat.lt_of_le_of_lt List.countP_le_length few
      informational := Nat.lt_of_le_of_lt List.countP_le_length few
      deleted := Nat.lt_of_le_of_lt List.countP_le_length few
      comments := short
      deletedComments := Nat.lt_of_le_of_lt List.countP_le_length short }

/-- A count that adds to a summary and fails only when a result does not fit. -/
structure Adds (count : CommentSummary → Except StoreError CommentSummary)
    (added : CommentSummary) : Prop where
  ok : ∀ {summary result}, Fits summary → (count summary = .ok result ↔
    result = summed summary added ∧ Fits (summed summary added))

namespace Adds

variable {count next : CommentSummary → Except StoreError CommentSummary}
  {added more : CommentSummary}

theorem zero : Adds .ok .zero where
  ok fits := by simp [fits, eq_comm]

/-- Counting on adds both amounts: what does not fit once does not fit later. -/
theorem bind (first : Adds count added) (second : Adds next more) :
    Adds (fun summary => (count summary).bind next) (summed added more) where
  ok {summary result} fits := by
    rw [bind_eq_ok, ← summed_assoc]
    constructor
    · rintro ⟨middle, counted, continued⟩
      obtain ⟨rfl, room⟩ := (first.ok fits).mp counted
      exact (second.ok room).mp continued
    · rintro ⟨rfl, room⟩
      have half := room.of_summed
      exact ⟨_, (first.ok fits).mpr ⟨rfl, half⟩, (second.ok half).mpr ⟨rfl, room⟩⟩

theorem foldlM {α : Type} {each : CommentSummary → α → Except StoreError CommentSummary}
    {amount : α → CommentSummary} (adds : ∀ item, Adds (each · item) (amount item))
    (items : List α) : Adds (fun summary => items.foldlM each summary)
      ((items.map amount).foldr summed .zero) := by
  induction items with
  | nil => exact zero
  | cons item rest ih => exact (adds item).bind ih

/-- Raising one count that starts below 2 ^ 32. -/
theorem of_increment {field : CommentSummary → Nat}
    {update : CommentSummary → Nat → CommentSummary}
    (adding : ∀ summary, update summary (field summary + 1) = summed summary added)
    (room : ∀ {summary}, Fits summary →
      (Fits (summed summary added) ↔ field summary + 1 < 2 ^ 32)) :
    Adds (fun summary => (increment seq (field summary)).map (update summary)) added where
  ok {summary result} fits := by
    rw [room fits, increment]
    split
    · next fitting =>
      rw [and_iff_left fitting, ← adding]
      exact ⟨fun counted => (Except.ok.inj counted).symm, fun same => congrArg Except.ok same.symm⟩
    · next full => exact iff_of_false (fun counted => nomatch counted) fun both => full both.2

end Adds

/-- What a conversation's status adds. -/
def statusCount : CommentThreadStatus → CommentSummary
  | .opened => { CommentSummary.zero with opened := 1 }
  | .resolved => { CommentSummary.zero with resolved := 1 }
  | .deferred => { CommentSummary.zero with deferred := 1 }
  | .informational => { CommentSummary.zero with informational := 1 }
  | .deleted => { CommentSummary.zero with deleted := 1 }

/-- What a comment adds. -/
def commentCount (comment : Comment) : CommentSummary :=
  { CommentSummary.zero with
    comments := 1
    deletedComments := if comment.state = .deleted then 1 else 0 }

theorem adds_threads : Adds (fun summary => (increment seq summary.threads).map fun threads =>
    { summary with threads }) { CommentSummary.zero with threads := 1 } :=
  .of_increment (fun _ => rfl) fun fits =>
    ⟨Fits.threads, fun room => { fits with threads := room }⟩

theorem adds_status (status : CommentThreadStatus) :
    Adds (countStatus seq · status) (statusCount status) := by
  cases status with
  | opened =>
    exact .of_increment (fun _ => rfl) fun fits =>
      ⟨Fits.opened, fun room => { fits with opened := room }⟩
  | resolved =>
    exact .of_increment (fun _ => rfl) fun fits =>
      ⟨Fits.resolved, fun room => { fits with resolved := room }⟩
  | deferred =>
    exact .of_increment (fun _ => rfl) fun fits =>
      ⟨Fits.deferred, fun room => { fits with deferred := room }⟩
  | informational =>
    exact .of_increment (fun _ => rfl) fun fits =>
      ⟨Fits.informational, fun room => { fits with informational := room }⟩
  | deleted =>
    exact .of_increment (fun _ => rfl) fun fits =>
      ⟨Fits.deleted, fun room => { fits with deleted := room }⟩

theorem adds_comment (comment : Comment) :
    Adds (countComment seq · comment) (commentCount comment) := by
  have listed : Adds (fun summary => (increment seq summary.comments).map fun comments =>
      { summary with comments }) { CommentSummary.zero with comments := 1 } :=
    .of_increment (fun _ => rfl) fun fits =>
      ⟨Fits.comments, fun room => { fits with comments := room }⟩
  have withdrawn : Adds (fun summary => (increment seq summary.deletedComments).map
      fun deletedComments => { summary with deletedComments })
      { CommentSummary.zero with deletedComments := 1 } :=
    .of_increment (fun _ => rfl) fun fits =>
      ⟨Fits.deletedComments, fun room => { fits with deletedComments := room }⟩
  constructor
  intro summary result fits
  unfold countComment commentCount
  split
  · refine .trans (iff_of_eq (congrArg (· = Except.ok result) ?_)) ((listed.bind withdrawn).ok fits)
    cases increment seq summary.comments with
    | error => rfl
    | ok comments =>
      simp only [Except.map, Except.bind]
      cases increment seq summary.deletedComments <;> rfl
  · refine .trans (iff_of_eq (congrArg (· = Except.ok result) ?_)) (listed.ok fits)
    cases increment seq summary.comments <;> rfl

/-- What a conversation adds. -/
def threadCount (thread : CommentThread) : CommentSummary :=
  summed (summed { CommentSummary.zero with threads := 1 } (statusCount thread.status))
    ((thread.comments.items.map commentCount).foldr summed .zero)

theorem adds_thread (thread : CommentThread) :
    Adds (countThread seq · thread) (threadCount thread) := by
  constructor
  intro summary result fits
  rw [threadCount, ← ((adds_threads.bind (adds_status thread.status)).bind
    (Adds.foldlM adds_comment thread.comments.items)).ok fits]
  unfold countThread
  cases increment seq summary.threads <;> rfl

theorem foldr_commentCount (comments : List Comment) :
    (comments.map commentCount).foldr summed .zero = { CommentSummary.zero with
      comments := comments.length
      deletedComments := comments.countP fun comment => comment.state = .deleted } := by
  induction comments with
  | nil => rfl
  | cons comment rest ih =>
    rw [List.map_cons, List.foldr_cons, ih, List.countP_cons]
    simp [commentCount, summed, CommentSummary.zero, Nat.add_comm]

/-- Counting conversations one by one counts them. -/
theorem foldr_threadCount (threads : List CommentThread) :
    (threads.map threadCount).foldr summed .zero = summaryOf threads := by
  induction threads with
  | nil => rfl
  | cons thread rest ih =>
    have one : threadCount thread = summaryOf [thread] := by
      rw [threadCount, foldr_commentCount]
      cases status : thread.status <;>
        simp [summaryOf, summed, statusCount, CommentSummary.zero, status]
    rw [List.map_cons, List.foldr_cons, ih, one, ← summaryOf_append, List.singleton_append]

end Counting

/-! ## Joining -/

section Joining

variable {comments : List Comment} {table : Table CommentId Comment} {thread : Thread}
  {shown : CommentThread} {query : CommentQuery} {seq : Seq}

/-- A thread whose comments are all stored has one conversation. -/
theorem exists_conversation {joined : List Comment}
    (stored : joined.map some = (threadMembers thread).map fun id =>
      comments.find? fun comment => comment.id = id) :
    ∃ shown, Conversation comments thread shown ∧ shown.comments.items = joined := by
  cases joined with
  | nil => simp [threadMembers] at stored
  | cons root replies =>
    refine ⟨⟨thread.id, thread.reviewId, thread.root, thread.replies, thread.resolution,
      statusOf root thread.resolution, ⟨root :: replies, by simp⟩⟩, ⟨rfl, stored, ?_⟩, rfl⟩
    intro first same
    obtain rfl := Option.some.inj same
    rfl

theorem Conversation.unique {other : CommentThread} (first : Conversation comments thread shown)
    (second : Conversation comments thread other) : shown = other := by
  obtain ⟨id, reviewId, root, replies, resolution, status, items, nonempty⟩ := shown
  obtain ⟨id', reviewId', root', replies', resolution', status', items', nonempty'⟩ := other
  obtain ⟨rfl, stored, named⟩ := first
  obtain ⟨same, stored', named'⟩ := second
  cases same
  obtain rfl : items = items' :=
    List.map_injective_iff.mpr (Option.some_injective _) (stored.trans stored'.symm)
  obtain ⟨first, rest, rfl⟩ := List.exists_cons_of_ne_nil nonempty
  rw [show status = status' from (named first rfl).trans (named' first rfl).symm]

/-- The filters that a conversation is tested against once it is joined. -/
def passes (query : CommentQuery) (shown : CommentThread) : Bool :=
  query.status.all (fun wanted => wanted = shown.status) &&
    shown.comments.items.any (fun comment => matchesAnchor query comment.anchor) &&
    query.author.all fun name => shown.comments.items.any fun comment => namedAs name comment.author

theorem mapM_memberOf {ids : List CommentId} {joined : List Comment} {reason : CommentId → String}
    (stored : joined.map some = ids.map fun id => table[id]?) :
    ids.mapM (memberOf table seq reason) = .ok joined := by
  induction ids generalizing joined with
  | nil =>
    obtain rfl : joined = [] := by simpa using stored
    rfl
  | cons id rest ih =>
    cases joined with
    | nil => simp at stored
    | cons comment others =>
      obtain ⟨found, stored⟩ := List.cons.inj stored
      have found : table[id]? = some comment := found.symm
      rw [List.mapM_cons, ih stored, memberOf, found]
      rfl

/-- Joining a conversation's thread yields the conversation if it passes. -/
theorem joinThread_eq (conversation : Conversation comments thread shown)
    (table_ : ∀ id, table[id]? = comments.find? fun comment => comment.id = id) :
    joinThread thread table query seq =
      .ok (if passes query shown then some shown else none) := by
  obtain ⟨id, reviewId, root, replies, resolution, status, items, nonempty⟩ := shown
  obtain ⟨rfl, stored, named⟩ := conversation
  obtain ⟨first, rest, rfl⟩ := List.exists_cons_of_ne_nil nonempty
  simp only [← table_] at stored
  have joined {reason : CommentId → String} :
      (root :: replies).mapM (memberOf table seq reason) = .ok (first :: rest) :=
    mapM_memberOf stored
  have found : table[root]? = some first := (List.cons.inj stored).1.symm
  have rooted {reason : CommentId → String} : memberOf table seq reason root = .ok first := by
    rw [memberOf, found]
  have disposition : status = statusOf first resolution := named first rfl
  simp only [joinThread, rooted, joined, ok_bind, NonEmpty.new, passes, disposition]
  have unwanted : (query.status.any fun wanted => wanted ≠ statusOf first resolution) =
      !query.status.all fun wanted => wanted = statusOf first resolution := by
    cases query.status <;> simp
  have unnamed : (query.author.any fun name =>
      (first :: rest).any (fun comment => namedAs name comment.author) = false) =
      !query.author.all fun name =>
        (first :: rest).any fun comment => namedAs name comment.author := by
    cases query.author with
    | none => rfl
    | some name =>
      simp only [Option.any_some, Option.all_some]
      cases (first :: rest).any fun comment => namedAs name comment.author <;> rfl
  rw [unwanted, unnamed]
  cases query.status.all fun wanted => wanted = statusOf first resolution with
  | false => rfl
  | true =>
    cases (first :: rest).any fun comment => matchesAnchor query comment.anchor with
    | false => rfl
    | true =>
      cases query.author.all fun name =>
        (first :: rest).any fun comment => namedAs name comment.author <;> rfl

/-- What a listing shows of a thread, if anything. -/
def picked (query : CommentQuery) (seq : Seq) (table : Table CommentId Comment)
    (changed : Option (List ThreadId)) (thread : Thread) : Option CommentThread :=
  if wantsThread query changed thread then
    (joinThread thread table query seq).toOption.join
  else none

/-- A thread that joins is listed and counted if it is picked. -/
theorem listThread_eq {changed : Option (List ThreadId)} {joined : Option CommentThread}
    (join : joinThread thread table query seq = .ok joined)
    (listed : List CommentThread × CommentSummary) :
    listThread query seq table changed listed thread =
      match picked query seq table changed thread with
      | none => .ok listed
      | some shown => (countThread seq listed.2 shown).map fun summary =>
        (listed.1 ++ [shown], summary) := by
  unfold listThread picked
  rw [join]
  cases wantsThread query changed thread with
  | false => rfl
  | true => cases joined <;> rfl

/-- Listing threads shows those that are picked and counts them, or fails because a count
does not fit. -/
theorem foldlM_listThread {changed : Option (List ThreadId)} {threads : List Thread}
    (joins : ∀ thread ∈ threads, ∃ joined, joinThread thread table query seq = .ok joined)
    {listed result : List CommentThread × CommentSummary} (fits : Fits listed.2) :
    threads.foldlM (listThread query seq table changed) listed = .ok result ↔
      result = (listed.1 ++ threads.filterMap (picked query seq table changed),
        summed listed.2 (summaryOf (threads.filterMap (picked query seq table changed)))) ∧
      Fits result.2 := by
  induction threads generalizing listed with
  | nil =>
    rw [List.filterMap_nil, List.append_nil]
    constructor
    · intro same
      obtain rfl := Except.ok.inj same
      exact ⟨rfl, fits⟩
    · rintro ⟨same, _⟩
      rw [same]
      rfl
  | cons thread rest ih =>
    have ih {listed : List CommentThread × CommentSummary} (fits : Fits listed.2) :=
      ih (fun other mem => joins other (List.mem_cons_of_mem _ mem)) fits
    obtain ⟨joined, join⟩ := joins thread List.mem_cons_self
    rw [List.foldlM_cons, listThread_eq join]
    cases shows_ : picked query seq table changed thread with
    | none =>
      rw [List.filterMap_cons_none shows_]
      exact ih fits
    | some shown =>
      rw [List.filterMap_cons_some shows_, ← List.singleton_append, ← List.append_assoc,
        summaryOf_append, ← summed_assoc]
      have one : threadCount shown = summaryOf [shown] := by
        simpa [summed, CommentSummary.zero] using foldr_threadCount [shown]
      have counts {summary : CommentSummary} : countThread seq listed.2 shown = .ok summary ↔
          summary = summed listed.2 (summaryOf [shown]) ∧
            Fits (summed listed.2 (summaryOf [shown])) := by
        rw [← one]
        exact (adds_thread shown).ok fits
      change Except.bind _ _ = _ ↔ _
      rw [bind_eq_ok]
      constructor
      · rintro ⟨middle, step, rest⟩
        obtain ⟨summary, counted, rfl⟩ := map_eq_ok.mp step
        obtain ⟨rfl, room⟩ := counts.mp counted
        exact (ih room).mp rest
      · rintro ⟨rfl, room⟩
        have half := room.of_summed
        exact ⟨_, map_eq_ok.mpr ⟨_, counts.mpr ⟨rfl, half⟩, rfl⟩, (ih half).mpr ⟨rfl, room⟩⟩

end Joining

/-! ## The listing of a review -/

theorem exists_map_some {A B : Type} {lookup : A → Option B} {keys : List A}
    (found : ∀ key ∈ keys, ∃ row, lookup key = some row) :
    ∃ rows : List B, rows.map some = keys.map lookup := by
  induction keys with
  | nil => exact ⟨[], rfl⟩
  | cons key rest ih =>
    obtain ⟨row, present⟩ := found key List.mem_cons_self
    obtain ⟨rows, others⟩ := ih fun other mem => found other (List.mem_cons_of_mem _ mem)
    exact ⟨row :: rows, by rw [List.map_cons, List.map_cons, present, others]⟩

/-- Rows that keep their keys keep the order of the keys. -/
theorem map_filterMap_sublist {A B K : Type} {key : A → K} {shownKey : B → K} {shows_ : A → Option B}
    {rows : List A}
    (kept : ∀ row ∈ rows, ∀ shown, shows_ row = some shown → shownKey shown = key row) :
    ((rows.filterMap shows_).map shownKey).Sublist (rows.map key) := by
  induction rows with
  | nil => exact .slnil
  | cons row rest ih =>
    have ih := ih fun other mem => kept other (List.mem_cons_of_mem _ mem)
    cases shown : shows_ row with
    | none =>
      rw [List.filterMap_cons_none shown]
      exact ih.cons _
    | some other =>
      rw [List.filterMap_cons_some shown, List.map_cons, List.map_cons,
        kept row List.mem_cons_self other shown]
      exact ih.cons_cons _

section Sizes

variable {A B C D : Type} {shows_ : A → Option B} {parts : A → List C} {shownParts : B → List D}
  {rows : List A}

theorem flatMap_filterMap_le (same : ∀ row ∈ rows, ∀ shown, shows_ row = some shown →
      (shownParts shown).length = (parts row).length) :
    ((rows.filterMap shows_).flatMap shownParts).length ≤ (rows.flatMap parts).length := by
  induction rows with
  | nil => exact Nat.le_refl _
  | cons row rest ih =>
    have ih := ih fun other mem => same other (List.mem_cons_of_mem _ mem)
    cases shown : shows_ row with
    | none =>
      rw [List.filterMap_cons_none shown, List.flatMap_cons, List.length_append]
      exact Nat.le_add_left_of_le ih
    | some other =>
      rw [List.filterMap_cons_some shown, List.flatMap_cons, List.flatMap_cons, List.length_append,
        List.length_append, same row List.mem_cons_self other shown]
      exact Nat.add_le_add_left ih _

theorem flatMap_filterMap_eq (all : ∀ row ∈ rows, ∃ shown, shows_ row = some shown ∧
      (shownParts shown).length = (parts row).length) :
    (rows.filterMap shows_).length = rows.length ∧
      ((rows.filterMap shows_).flatMap shownParts).length = (rows.flatMap parts).length := by
  induction rows with
  | nil => exact ⟨rfl, rfl⟩
  | cons row rest ih =>
    obtain ⟨lengths, sizes⟩ := ih fun other mem => all other (List.mem_cons_of_mem _ mem)
    obtain ⟨other, shown, same⟩ := all row List.mem_cons_self
    rw [List.filterMap_cons_some shown, List.flatMap_cons, List.flatMap_cons, List.length_append,
      List.length_append, List.length_cons, List.length_cons, lengths, sizes, same]
    exact ⟨rfl, rfl⟩

end Sizes

section Listing

variable {store : Store} {reviewId : ReviewId} {thread : Thread} {shown : CommentThread}
  {query : CommentQuery}

theorem Consistent.thread_stored (consistent : Consistent store.views)
    (mem : thread ∈ store.threads reviewId) :
    store.views.threads[(reviewId, thread.id)]? = some thread ∧ thread.reviewId = reviewId := by
  have found := ((consistent.threads_held reviewId).mem_iff thread).mp mem
  exact ⟨found, (Prod.mk.inj (consistent.thread found)).1⟩

/-- Every thread of a review has a conversation. -/
theorem Consistent.exists_conversation (consistent : Consistent store.views)
    (mem : thread ∈ store.threads reviewId) :
    ∃ shown, Conversation (store.comments reviewId) thread shown := by
  have held := consistent.comments_held reviewId
  obtain ⟨joined, stored⟩ : ∃ joined : List Comment, joined.map some =
      (threadMembers thread).map fun id =>
        (store.comments reviewId).find? fun comment => comment.id = id := by
    refine exists_map_some fun id listed => ?_
    obtain ⟨comment, found, _⟩ := consistent.mem (consistent.thread_stored mem).1 listed
    exact ⟨comment, (held.find? id).trans found⟩
  obtain ⟨shown, conversation, _⟩ := ReviewCore.exists_conversation stored
  exact ⟨shown, conversation⟩

theorem Consistent.commentsById (consistent : Consistent store.views) (id : CommentId) :
    (commentsById (store.comments reviewId))[id]? = store.views.comments[(reviewId, id)]? :=
  (consistent.comments_held reviewId).getElem?_collect id

/-- A stored comment names a thread of its review exactly if the thread lists it. -/
theorem Consistent.names_iff (consistent : Consistent store.views)
    (mem : thread ∈ store.threads reviewId) (id : CommentId) :
    store.views.comments[(reviewId, id)]?.map Comment.threadId = some thread.id ↔
      id ∈ threadMembers thread := by
  have stored := (consistent.thread_stored mem).1
  constructor
  · intro names
    obtain ⟨comment, found, names⟩ := Option.map_eq_some_iff.mp names
    obtain ⟨other, present, listed⟩ := consistent.listed found
    rw [names, stored] at present
    rw [Option.some.inj present]
    exact listed
  · intro listed
    obtain ⟨comment, found, names⟩ := consistent.mem stored listed
    rw [found, Option.map_some, names]

/-- The event kinds that count as activity in a thread are those that are. -/
theorem Consistent.activeThread_iff (consistent : Consistent store.views)
    (mem : thread ∈ store.threads reviewId)
    (conversation : Conversation (store.comments reviewId) thread shown) (body : EventBody) :
    body.reviewId = some reviewId ∧
        activeThread (ReviewCore.commentsById (store.comments reviewId)) body = some thread.id ↔
      Active shown body := by
  have names := consistent.names_iff mem
  have own := (consistent.thread_stored mem).2
  have same := conversation.thread
  subst own
  subst same
  simp only [threadMembers] at names
  cases body <;>
    simp [EventBody.reviewId, activeThread, Active, consistent.commentsById, names]

theorem Consistent.mem_changedThreads (consistent : Consistent store.views) {seq : Seq}
    (through : ∀ event ∈ store.events, event.seq ≤ seq) (mem : thread ∈ store.threads reviewId)
    (conversation : Conversation (store.comments reviewId) thread shown) (since : Seq) :
    thread.id ∈ changedThreads store.events reviewId since seq
        (ReviewCore.commentsById (store.comments reviewId)) ↔
      ∃ event ∈ store.events, since < event.seq ∧ Active shown event.body := by
  have active := consistent.activeThread_iff mem conversation
  unfold changedThreads
  split
  · next beyond =>
    refine iff_of_false List.not_mem_nil ?_
    rintro ⟨event, logged, later, _⟩
    exact absurd (Nat.lt_of_lt_of_le later (through event logged)) (Nat.not_lt.mpr beyond)
  · rw [List.mem_filterMap]
    refine exists_congr fun event => ?_
    rw [List.mem_filter, ← active, and_assoc]
    refine and_congr_right fun logged => ?_
    have bounded := through event logged
    by_cases named : event.body.reviewId = some reviewId <;> simp [named, bounded]

theorem matchesAnchor_iff {anchor : Anchor} : matchesAnchor query anchor = true ↔
    (∀ path, query.path = some path → namedPath anchor = some path) ∧
      ∀ repo, query.repoId = some repo → namedRepo anchor = some repo := by
  have all_iff {A : Type} [DecidableEq A] (filter : Option A) (value : A) :
      filter.all (fun wanted => wanted = value) = true ↔
        ∀ wanted, filter = some wanted → some value = some wanted := by
    cases filter with
    | none => simp
    | some wanted => simp [eq_comm (a := value)]
  have none_iff {A : Type} (filter : Option A) : filter.isNone = true ↔
      ∀ wanted, filter = some wanted → none = some wanted := by
    cases filter <;> simp
  cases anchor <;>
    simp only [matchesAnchor, namedPath, namedRepo, Bool.and_eq_true, all_iff, none_iff]

theorem passes_iff : passes query shown = true ↔
    (∀ wanted, query.status = some wanted → wanted = shown.status) ∧
      (∃ comment ∈ shown.comments.items, matchesAnchor query comment.anchor = true) ∧
      ∀ name, query.author = some name →
        ∃ comment ∈ shown.comments.items, namedAs name comment.author = true := by
  simp [passes, Option.all_eq_true, and_assoc]

/-- A thread is listed by its conversation, if the query selects that. -/
theorem Consistent.picked_eq_some (consistent : Consistent store.views) {seq : Seq}
    (through : ∀ event ∈ store.events, event.seq ≤ seq) (mem : thread ∈ store.threads reviewId) :
    picked query seq (ReviewCore.commentsById (store.comments reviewId))
        (query.since.map fun since => changedThreads store.events reviewId since seq
          (ReviewCore.commentsById (store.comments reviewId))) thread = some shown ↔
      Conversation (store.comments reviewId) thread shown ∧
        Selected store.events query shown := by
  obtain ⟨whole, conversation⟩ := consistent.exists_conversation mem
  have joined := @joinThread_eq _ _ _ _ query seq conversation fun id =>
    (consistent.commentsById id).trans ((consistent.comments_held reviewId).find? id).symm
  have changed := consistent.mem_changedThreads through mem conversation
  have id_eq : thread.id = whole.id := by rw [conversation.thread]
  have wants : wantsThread query (query.since.map fun since => changedThreads store.events reviewId
      since seq (ReviewCore.commentsById (store.comments reviewId))) thread = true ↔
      (∀ wanted, query.threadId = some wanted → wanted = whole.id) ∧
        ∀ since, query.since = some since →
          ∃ event ∈ store.events, since < event.seq ∧ Active whole event.body := by
    simp only [← changed, ← id_eq, wantsThread, Bool.and_eq_true, Option.all_map,
      Option.all_eq_true, decide_eq_true_eq, List.contains_iff_mem]
  have selected : Selected store.events query whole ↔
      wantsThread query (query.since.map fun since => changedThreads store.events reviewId since seq
        (ReviewCore.commentsById (store.comments reviewId))) thread = true ∧
      passes query whole = true := by
    rw [wants, passes_iff]
    simp only [matchesAnchor_iff]
    exact ⟨fun all => ⟨⟨all.thread, all.since⟩, all.status, all.anchor, all.author⟩,
      fun all => ⟨all.2.1, all.1.1, all.2.2.1, all.2.2.2, all.1.2⟩⟩
  have result : picked query seq (ReviewCore.commentsById (store.comments reviewId))
      (query.since.map fun since => changedThreads store.events reviewId since seq
        (ReviewCore.commentsById (store.comments reviewId))) thread = some shown ↔
      whole = shown ∧ Selected store.events query whole := by
    rw [picked, joined, selected]
    split
    · next wanted =>
      rw [wanted]
      cases passes query whole <;> simp [Except.toOption]
    · next unwanted => simp [unwanted]
  rw [result]
  constructor
  · rintro ⟨rfl, selected⟩
    exact ⟨conversation, selected⟩
  · rintro ⟨other, selected⟩
    obtain rfl := conversation.unique other
    exact ⟨rfl, selected⟩

/-- The threads that a listing of the whole store picks. -/
def shownIn (store : Store) (reviewId : ReviewId) (query : CommentQuery) : List CommentThread :=
  let seq := store.viewSeq.getD 0
  let table := ReviewCore.commentsById (store.comments reviewId)
  let changed := query.since.map fun since =>
    changedThreads store.events reviewId since seq table
  (store.threads reviewId).filterMap (picked query seq table changed)

theorem Store.Logged.through (logged : store.Logged) :
    ∀ event ∈ store.events, event.seq ≤ store.viewSeq.getD 0 := by
  intro event mem
  rw [logged.cursor]
  exact logged.ordered.le_last mem

section Read

variable (consistent : Consistent store.views) (logged : store.Logged)
include consistent logged

theorem mem_shownIn : shown ∈ shownIn store reviewId query ↔
    (∃ thread ∈ store.threads reviewId, Conversation (store.comments reviewId) thread shown) ∧
      Selected store.events query shown := by
  rw [shownIn, List.mem_filterMap]
  constructor
  · rintro ⟨thread, mem, shows_⟩
    obtain ⟨conversation, selected⟩ :=
      (consistent.picked_eq_some logged.through mem).mp shows_
    exact ⟨⟨thread, mem, conversation⟩, selected⟩
  · rintro ⟨⟨thread, mem, conversation⟩, selected⟩
    exact ⟨thread, mem,
      (consistent.picked_eq_some logged.through mem).mpr ⟨conversation, selected⟩⟩

theorem shownIn_order : ((shownIn store reviewId query).map CommentThread.id).Sublist
      ((store.threads reviewId).map Thread.id) := by
  refine map_filterMap_sublist fun thread mem shown shows_ => ?_
  obtain ⟨conversation, _⟩ := (consistent.picked_eq_some logged.through mem).mp shows_
  rw [conversation.thread]

theorem shownIn_nodup : ((shownIn store reviewId query).map CommentThread.id).Nodup :=
  (consistent.threads_held reviewId).nodup.sublist (shownIn_order consistent logged)

omit logged in
/-- Listing joins and counts the threads of the snapshot. -/
theorem foldlM_shownIn {result : List CommentThread × CommentSummary} :
    (store.threads reviewId).foldlM (listThread query (store.viewSeq.getD 0)
        (ReviewCore.commentsById (store.comments reviewId))
        (query.since.map fun since => changedThreads store.events reviewId since
          (store.viewSeq.getD 0) (ReviewCore.commentsById (store.comments reviewId))))
        ([], .zero) = .ok result ↔
      result = (shownIn store reviewId query, summaryOf (shownIn store reviewId query)) ∧
        Fits (summaryOf (shownIn store reviewId query)) := by
  have nothing : Fits (summaryOf []) := fits_summaryOf.mpr ⟨by decide, by decide⟩
  have nothing : Fits CommentSummary.zero := nothing
  have zero_add (summary : CommentSummary) : summed .zero summary = summary := by
    simp [summed, CommentSummary.zero]
  rw [foldlM_listThread ?joins nothing, zero_add, List.nil_append]
  case joins =>
    intro thread mem
    obtain ⟨whole, conversation⟩ := consistent.exists_conversation mem
    exact ⟨_, joinThread_eq conversation fun id => (consistent.commentsById id).trans
      ((consistent.comments_held reviewId).find? id).symm⟩
  constructor
  · rintro ⟨rfl, fits⟩
    exact ⟨rfl, fits⟩
  · rintro ⟨rfl, fits⟩
    exact ⟨rfl, fits⟩

omit logged in
/-- What is listed is what is to be shown, counted. -/
theorem of_listComments {listing : CommentListing}
    (listed : store.listComments reviewId query = .ok (some listing)) :
    (∃ snapshot, store.reviewSnapshot reviewId = some snapshot) ∧
      Fits (summaryOf (shownIn store reviewId query)) ∧
      listing.threads = shownIn store reviewId query ∧
      listing.summary = summaryOf (shownIn store reviewId query) := by
  unfold Store.listComments at listed
  cases read : store.reviewSnapshot reviewId with
  | none =>
    rw [read] at listed
    cases listed
  | some snapshot =>
    obtain ⟨record, found, live, rfl⟩ := Store.reviewSnapshot_eq_some.mp read
    rw [read] at listed
    obtain ⟨result, folded, same⟩ := bind_eq_ok.mp listed
    obtain ⟨rfl, fits⟩ := (foldlM_shownIn consistent).mp folded
    cases same
    exact ⟨⟨_, rfl⟩, fits, rfl, rfl⟩

omit logged in
/-- A review that is read is listed if the counts of its conversations fit. -/
theorem listComments_ok {snapshot : ReviewSnapshot}
    (read : store.reviewSnapshot reviewId = some snapshot)
    (fits : Fits (summaryOf (shownIn store reviewId query))) :
    ∃ listing, store.listComments reviewId query = .ok (some listing) := by
  obtain ⟨record, found, live, rfl⟩ := Store.reviewSnapshot_eq_some.mp read
  unfold Store.listComments
  rw [read]
  exact ⟨_, bind_eq_ok.mpr ⟨_, (foldlM_shownIn consistent).mpr ⟨rfl, fits⟩, rfl⟩⟩

theorem answers_of_listComments {listing : CommentListing}
    (listed : store.listComments reviewId query = .ok (some listing)) :
    Answers store reviewId query listing := by
  obtain ⟨_, _, threads, summary⟩ := of_listComments consistent listed
  constructor
  · intro shown
    rw [threads]
    exact mem_shownIn consistent logged
  · rw [threads]
    exact shownIn_order consistent logged
  · rw [threads]
    exact shownIn_nodup consistent logged
  · rw [threads, summary]

omit logged in
theorem members_length (reviewId : ReviewId) :
    ((store.threads reviewId).flatMap threadMembers).length = (store.comments reviewId).length := by
  rw [(consistent.threadPartition reviewId).covers.length_eq, List.length_map]

omit consistent logged in
theorem Conversation.length_eq {comments : List Comment}
    (conversation : Conversation comments thread shown) :
    shown.comments.items.length = (threadMembers thread).length := by
  have same := congrArg List.length conversation.comments
  rw [List.length_map, List.length_map] at same
  rw [same, conversation.thread]
  rfl

/-- A store small enough for one listing is small enough for all. -/
theorem fits_shownIn (few : (store.threads reviewId).length < 2 ^ 32)
    (short : (store.comments reviewId).length < 2 ^ 32) :
    Fits (summaryOf (shownIn store reviewId query)) := by
  rw [fits_summaryOf]
  refine ⟨Nat.lt_of_le_of_lt (List.length_filterMap_le ..) few, Nat.lt_of_le_of_lt ?_ short⟩
  rw [← members_length consistent reviewId]
  refine flatMap_filterMap_le fun thread mem shown shows_ => ?_
  exact ((consistent.picked_eq_some logged.through mem).mp shows_).1.length_eq

/-- The query without filters. -/
def everything : CommentQuery := ⟨none, none, none, none, none, none⟩

omit consistent logged in
theorem selected_everything (events : List Event) (shown : CommentThread) :
    Selected events everything shown where
  status _ given := nomatch given
  thread _ given := nomatch given
  anchor := by
    obtain ⟨first, rest, items⟩ := List.exists_cons_of_ne_nil shown.comments.nonempty
    refine ⟨first, ?_, fun _ given => (nomatch given), fun _ given => (nomatch given)⟩
    rw [items]
    exact List.mem_cons_self
  author _ given := nomatch given
  since _ given := nomatch given

/-- The unfiltered listing of a store shows that it is small. -/
theorem small_of_everything (fits : Fits (summaryOf (shownIn store reviewId everything))) :
    (store.threads reviewId).length < 2 ^ 32 ∧ (store.comments reviewId).length < 2 ^ 32 := by
  obtain ⟨lengths, sizes⟩ := flatMap_filterMap_eq fun thread mem => by
    obtain ⟨whole, conversation⟩ := consistent.exists_conversation mem
    exact ⟨whole, (consistent.picked_eq_some logged.through mem).mpr
      ⟨conversation, selected_everything store.events whole⟩, conversation.length_eq⟩
  rw [fits_summaryOf, shownIn, lengths, sizes, members_length consistent] at fits
  exact fits

end Read

end Listing

/-! ## What activity leaves alone -/

section Growing

variable [Platform] {env : Environment} {before after : Store} {events : List Event}
  {thread : Thread} {shown : CommentThread}

omit [Platform] in
/-- An event without activity in a conversation leaves its thread's row alone. -/
theorem Rows.thread_quiet {event : Event} (quiet : ¬ Active shown event.body) (row : Option Thread) :
    Rows.thread event (shown.reviewId, shown.id) row = row := by
  unfold Rows.thread
  cases body : event.body with
  | commentCreated comment =>
    rw [body] at quiet
    exact if_neg fun same => quiet (Prod.mk.inj same)
  | threadDeferred reviewId threadId | threadResolved reviewId threadId
  | threadUnresolved reviewId threadId =>
    rw [body] at quiet
    exact if_neg fun same => quiet (Prod.mk.inj same)
  | _ => rfl

omit [Platform] in
/-- An event without activity in a conversation that does not create one of its comments
leaves the rows of its comments alone. -/
theorem Rows.comment_quiet {event : Event} (quiet : ¬ Active shown event.body) {id : CommentId}
    (listed : id ∈ shown.root :: shown.replies)
    (other : ∀ comment, event.body = .commentCreated comment →
      (comment.reviewId, comment.id) ≠ (shown.reviewId, id)) (row : Option Comment) :
    Rows.comment event (shown.reviewId, id) row = row := by
  unfold Rows.comment
  cases body : event.body with
  | commentCreated comment => exact if_neg (other comment body)
  | commentEdited reviewId commentId | commentDeleted reviewId commentId
  | commentReanchored reviewId commentId =>
    rw [body] at quiet
    refine if_neg fun same => quiet ?_
    obtain ⟨rfl, rfl⟩ := Prod.mk.inj same
    exact ⟨rfl, listed⟩
  | _ => rfl

/-- A conversation without activity in a growth was the same before it. -/
theorem Store.Grows.conversation_kept (grows : Store.Grows (Admissible env) before after)
    (consistent : Consistent before.views) (log : after.events = before.events ++ events)
    (quiet : ∀ event ∈ events, ¬ Active shown event.body) {reviewId : ReviewId}
    (mem : thread ∈ after.threads reviewId)
    (conversation : Conversation (after.comments reviewId) thread shown) :
    thread ∈ before.threads reviewId ∧ Conversation (before.comments reviewId) thread shown := by
  have later := grows.consistent consistent
  obtain ⟨stored, own⟩ := later.thread_stored mem
  have same := conversation.thread
  have key : (reviewId, thread.id) = (shown.reviewId, shown.id) := by rw [← own, same]
  have members : threadMembers thread = shown.root :: shown.replies := by rw [same]; rfl
  have kept : before.views.threads[(shown.reviewId, shown.id)]? = some thread ∧
      ∀ id ∈ shown.root :: shown.replies, before.views.comments[(shown.reviewId, id)]? =
        after.views.comments[(shown.reviewId, id)]? := by
    refine grows.undo (fun store => store.views.threads[(shown.reviewId, shown.id)]? = some thread ∧
      ∀ id ∈ shown.root :: shown.replies, store.views.comments[(shown.reviewId, id)]? =
        after.views.comments[(shown.reviewId, id)]?) consistent log ?_ ⟨key ▸ stored, fun _ _ => rfl⟩
    rintro store next event among consistent gains ⟨row, comments⟩
    have follows := Views.follows_of_apply consistent.toKeyed gains.applied
    have now := consistent.step gains.allowed gains.applied
    refine ⟨by rwa [follows.thread, Rows.thread_quiet (quiet event among)] at row, ?_⟩
    intro id listed
    rw [← comments id listed, follows.comment,
      Rows.comment_quiet (quiet event among) listed fun comment created clash => ?_]
    -- The created comment would be one that the thread lists.
    obtain ⟨stored, found, names⟩ := now.mem row (members ▸ listed)
    have created_ (row : Option Comment) :
        Rows.comment event (shown.reviewId, id) row = some comment := by
      unfold Rows.comment
      rw [created]
      exact if_pos clash
    rw [follows.comment, created_] at found
    obtain rfl := Option.some.inj found
    refine quiet event among ?_
    rw [created]
    exact ⟨(Prod.mk.inj clash).1, names⟩
  obtain rfl : reviewId = shown.reviewId := (Prod.mk.inj key).1
  have held := consistent.comments_held shown.reviewId
  have held_ := later.comments_held shown.reviewId
  refine ⟨?_, same, ?_, conversation.status⟩
  · refine ((consistent.threads_held shown.reviewId).mem_iff thread).mpr ?_
    rw [(Prod.mk.inj key).2]
    exact kept.1
  · rw [conversation.comments]
    refine List.map_congr_left fun id listed => ?_
    exact (held_.find? id).trans ((kept.2 id listed).symm.trans (held.find? id).symm)

/-- A growing store keeps its threads and its comments. -/
theorem Store.Grows.rows_kept (grows : Store.Grows (Admissible env) before after)
    (consistent : Consistent before.views) :
    (∀ (key : ReviewId × ThreadId) row, before.views.threads[key]? = some row →
      ∃ kept, after.views.threads[key]? = some kept) ∧
    ∀ (key : ReviewId × CommentId) row, before.views.comments[key]? = some row →
      ∃ kept, after.views.comments[key]? = some kept := by
  refine grows.keeps_consistent (fun store =>
    (∀ (key : ReviewId × ThreadId) row, before.views.threads[key]? = some row →
      ∃ kept, store.views.threads[key]? = some kept) ∧
    ∀ (key : ReviewId × CommentId) row, before.views.comments[key]? = some row →
      ∃ kept, store.views.comments[key]? = some kept) ?_ consistent
    ⟨fun _ row found => ⟨row, found⟩, fun _ row found => ⟨row, found⟩⟩
  rintro store next event consistent ⟨threads, comments⟩ gains
  have follows := Views.follows_of_apply consistent.toKeyed gains.applied
  constructor
  · intro key row found
    obtain ⟨kept, found⟩ := threads key row found
    rw [follows.thread, Rows.thread, found]
    unfold Rows.storeAt Rows.changeAt
    repeat' split
    all_goals exact ⟨_, rfl⟩
  · intro key row found
    obtain ⟨kept, found⟩ := comments key row found
    rw [follows.comment, Rows.comment, found]
    unfold Rows.storeAt Rows.changeAt
    repeat' split
    all_goals exact ⟨_, rfl⟩

omit [Platform] in
/-- Lists of rows under keys that all stay grow. -/
theorem length_le_of_kept {K V : Type} [DecidableEq K] {key : V → K} {rows others : List V}
    {lookup lookup_ : K → Option V} (held : Holds key rows lookup) (held_ : Holds key others lookup_)
    (kept : ∀ k row, lookup k = some row → ∃ other, lookup_ k = some other) :
    (∀ row ∈ rows, ∃ other ∈ others, key other = key row) ∧ rows.length ≤ others.length := by
  have stays : ∀ row ∈ rows, ∃ other ∈ others, key other = key row := by
    intro row mem
    obtain ⟨other, found⟩ := kept _ row ((held.mem_iff row).mp mem)
    have own := held_.own found
    exact ⟨other, (held_.mem_iff other).mpr (own ▸ found), own⟩
  refine ⟨stays, ?_⟩
  have subset : rows.map key ⊆ others.map key := by
    intro k mem
    obtain ⟨row, among, rfl⟩ := List.mem_map.mp mem
    obtain ⟨other, among, same⟩ := stays row among
    exact List.mem_map.mpr ⟨other, among, same⟩
  simpa using (List.subperm_of_subset held.nodup subset).length_le

end Growing

/-! ## Listings along a log -/

/-- The store as it stood when its log ended at `head`. -/
def Store.atHead (store : Store) (head : Seq) : Except StoreError Store :=
  Store.replay (store.events.filter fun event => event.seq ≤ head)

/-- The query for the conversations with activity above a position. -/
def activeSince (since : Seq) : CommentQuery := { everything with since := some since }

/-- What the listings of a review are at every position of a log. -/
structure Listings (log : Store) (reviewId : ReviewId) : Prop where
  /-- The store stood at every position. -/
  stood : ∀ head, ∃ store, log.atHead head = .ok store
  /-- A live review is listed, if its rows can be counted in 32 bits. -/
  listed : ∀ head store query, log.atHead head = .ok store →
    (store.reviewSnapshot reviewId).isSome → (store.threads reviewId).length < 2 ^ 32 →
    (store.comments reviewId).length < 2 ^ 32 →
    ∃ listing, store.listComments reviewId query = .ok (some listing)
  /-- Each listing holds what its query selects. -/
  answers : ∀ head store query listing, log.atHead head = .ok store →
    store.listComments reviewId query = .ok (some listing) →
    Answers store reviewId query listing
  /-- The conversations listed at one position, refreshed by those with later activity, are
  those listed at a later position. -/
  composes : ∀ since through before after now, since ≤ through →
    log.atHead since = .ok before → log.atHead through = .ok after →
    after.listComments reviewId everything = .ok (some now) →
    ∃ old changed, before.listComments reviewId everything = .ok old ∧
      after.listComments reviewId (activeSince since) = .ok (some changed) ∧
      (refreshed CommentThread.id (old.elim [] CommentListing.threads) changed.threads).Perm
        now.threads

section Along

variable [Platform] {env : Environment} {store before after : Store} {reviewId : ReviewId}

/-- A grown store stood at every position, and grew from there. -/
theorem Store.Grows.atHead (grows : Store.Grows (Admissible env) .empty store)
    (head : Seq) : ∃ past, store.atHead head = .ok past ∧
      Store.Grows (Admissible env) .empty past ∧
      Store.Grows (Admissible env) past store ∧
      past.events = store.events.filter (fun event => event.seq ≤ head) := by
  have logged := Store.Logged.empty.grows grows
  obtain ⟨past, reaches, cut, continues⟩ := grows.cut (logged.ordered.split head)
  rw [show Store.empty.events = [] from rfl, List.nil_append] at cut
  refine ⟨past, ?_, reaches, continues, cut⟩
  rw [Store.atHead, ← cut]
  exact (Store.Logged.empty.grows reaches).replay

omit [Platform] in
/-- What stood at a position stood there already at a later one. -/
theorem Store.atHead_atHead {since through : Seq} (forward : since ≤ through)
    (log : after.events = store.events.filter fun event => event.seq ≤ through) :
    after.atHead since = store.atHead since := by
  unfold Store.atHead
  rw [log, List.filter_filter]
  congr 1
  refine List.filter_congr fun event _ => ?_
  simp only [Bool.and_eq_decide, decide_eq_decide, decide_eq_true_eq]
  exact ⟨And.left, fun early => ⟨early, Nat.le_trans early forward⟩⟩

omit [Platform] in
theorem Consistent.exists_shown (consistent : Consistent store.views) (logged : store.Logged)
    {thread : Thread} (mem : thread ∈ store.threads reviewId) :
    ∃ shown ∈ shownIn store reviewId everything, shown.id = thread.id := by
  obtain ⟨shown, conversation⟩ := consistent.exists_conversation mem
  refine ⟨shown, (mem_shownIn consistent logged).mpr
    ⟨⟨thread, mem, conversation⟩, selected_everything _ _⟩, ?_⟩
  rw [conversation.thread]

/-- A review that is live later is listed earlier too, with nothing before its creation. -/
theorem Store.Grows.listed_before (reaches : Store.Grows (Admissible env) .empty before)
    (grows : Store.Grows (Admissible env) before after)
    (live : (after.reviewSnapshot reviewId).isSome)
    (few : (before.threads reviewId).length < 2 ^ 32)
    (short : (before.comments reviewId).length < 2 ^ 32) :
    ∃ old, before.listComments reviewId everything = .ok old ∧
      old.elim [] CommentListing.threads = shownIn before reviewId everything := by
  have consistent := reaches.consistent .empty
  have logged := Store.Logged.empty.grows reaches
  cases read : before.reviewSnapshot reviewId with
  | some snapshot =>
    obtain ⟨listing, listed⟩ := listComments_ok consistent read
      (fits_shownIn consistent logged few short)
    exact ⟨some listing, listed, (of_listComments consistent listed).2.2.1⟩
  | none =>
    refine ⟨none, by rw [Store.listComments, read], ?_⟩
    have absent : before.views.reviews[reviewId]? = none := by
      cases found : before.views.reviews[reviewId]? with
      | none => rfl
      | some record =>
        cases lifecycle : record.lifecycle with
        | live =>
          have taken : before.reviewSnapshot reviewId = some (before.snapshotOf reviewId record) :=
            Store.reviewSnapshot_eq_some.mpr ⟨record, found, lifecycle, rfl⟩
          rw [read] at taken
          cases taken
        | deleted at_ =>
          -- The deletion stays in the log.
          obtain ⟨event, logged, deletes⟩ :=
            reaches.deleted_iff.mpr ⟨record, found, by simp [lifecycle]⟩
          obtain ⟨suffix, log⟩ := grows.events
          have later : Store.Grows (Admissible env) .empty after := reaches.trans grows
          have deleted : after.views.Deleted reviewId := later.deleted_iff.mp
            ⟨event, by rw [log]; exact List.mem_append_left _ logged, deletes⟩
          obtain ⟨snapshot, taken⟩ := Option.isSome_iff_exists.mp live
          obtain ⟨other, found, live, _⟩ := Store.reviewSnapshot_eq_some.mp taken
          exact absurd ⟨found, live⟩ (deleted.not_live other)
    have none_ : shownIn before reviewId everything = [] := by
      refine List.eq_nil_iff_forall_not_mem.mpr fun shown mem => ?_
      obtain ⟨⟨thread, stored, _⟩, _⟩ := (mem_shownIn consistent logged).mp mem
      obtain ⟨root, found, _⟩ :=
        consistent.mem (consistent.thread_stored stored).1 List.mem_cons_self
      obtain ⟨record, recorded⟩ := consistent.reviewed found
      rw [absent] at recorded
      cases recorded
    exact none_.symm

/-- The listing of an earlier position, refreshed by the later activity, is the listing of
the later position. -/
theorem Store.Grows.shownIn_refreshed (reaches : Store.Grows (Admissible env) .empty before)
    (grows : Store.Grows (Admissible env) before after) {since : Seq}
    (log : before.events = after.events.filter fun event => event.seq ≤ since) :
    (refreshed CommentThread.id (shownIn before reviewId everything)
      (shownIn after reviewId (activeSince since))).Perm (shownIn after reviewId everything) := by
  have was := reaches.consistent .empty
  have wasLogged := Store.Logged.empty.grows reaches
  have later : Store.Grows (Admissible env) .empty after := reaches.trans grows
  have is_ := later.consistent .empty
  have isLogged := Store.Logged.empty.grows later
  have suffix : after.events = before.events ++
      after.events.filter fun event => since < event.seq := by
    rw [log]
    exact isLogged.ordered.split since
  refine refreshed_perm (shownIn_nodup was wasLogged) (shownIn_nodup is_ isLogged)
    (shownIn_nodup is_ isLogged) ?_ ?_ ?_
  · intro shown mem
    obtain ⟨conversation, _⟩ := (mem_shownIn is_ isLogged).mp mem
    exact (mem_shownIn is_ isLogged).mpr ⟨conversation, selected_everything _ _⟩
  · intro shown mem
    obtain ⟨⟨thread, stored, conversation⟩, _⟩ := (mem_shownIn is_ isLogged).mp mem
    by_cases active : ∃ event ∈ after.events, since < event.seq ∧ Active shown event.body
    · refine .inl ((mem_shownIn is_ isLogged).mpr ⟨⟨thread, stored, conversation⟩, ?_⟩)
      refine { selected_everything after.events shown with since := fun position given => ?_ }
      obtain rfl := Option.some.inj given
      exact active
    · obtain ⟨earlier, conversation⟩ := grows.conversation_kept was suffix
        (fun event among activity => active ⟨event, (List.mem_filter.mp among).1,
          by simpa using (List.mem_filter.mp among).2, activity⟩) stored conversation
      exact .inr ((mem_shownIn was wasLogged).mpr
        ⟨⟨thread, earlier, conversation⟩, selected_everything _ _⟩)
  · intro shown mem
    obtain ⟨⟨thread, stored, conversation⟩, _⟩ := (mem_shownIn was wasLogged).mp mem
    obtain ⟨other, later, same⟩ := (length_le_of_kept (was.threads_held reviewId)
      (is_.threads_held reviewId)
      fun id row found => (grows.rows_kept was).1 (reviewId, id) row found).1 thread stored
    obtain ⟨still, listed, names⟩ := is_.exists_shown isLogged later
    refine ⟨still, listed, ?_⟩
    rw [names, same, conversation.thread]

/-- In every run each listing of a review's comments answers its query, and the listings
at two positions of the log differ by the activity between them. -/
theorem run_listings (env : Environment) (steps : List Step) (reviewId : ReviewId) :
    Listings (Core.run env .initial steps).store reviewId := by
  have run := (reachable_run env steps).extends.grows
  have stood {head : Seq} {store : Store}
      (at_ : (Core.run env .initial steps).store.atHead head = .ok store) :
      Store.Grows (Admissible env) .empty store ∧ store.events =
        (Core.run env .initial steps).store.events.filter
          fun event => event.seq ≤ head := by
    obtain ⟨past, same, reaches, _, log⟩ := run.atHead head
    obtain rfl := Except.ok.inj (same.symm.trans at_)
    exact ⟨reaches, log⟩
  constructor
  · intro head
    obtain ⟨past, same, _⟩ := run.atHead head
    exact ⟨past, same⟩
  · intro head store query at_ live few short
    obtain ⟨reaches, _⟩ := stood at_
    obtain ⟨snapshot, read⟩ := Option.isSome_iff_exists.mp live
    have consistent := reaches.consistent .empty
    exact listComments_ok consistent read
      (fits_shownIn consistent (Store.Logged.empty.grows reaches) few short)
  · intro head store query listing at_ listed
    obtain ⟨reaches, _⟩ := stood at_
    exact answers_of_listComments (reaches.consistent .empty)
      (Store.Logged.empty.grows reaches) listed
  · intro since through before after now forward wasAt isAt listed
    obtain ⟨reaches, log⟩ := stood isAt
    obtain ⟨past, same, earlier, grows, cut⟩ := reaches.atHead since
    rw [Store.atHead_atHead forward log, wasAt] at same
    obtain rfl := Except.ok.inj same
    have consistent := reaches.consistent .empty
    have logged := Store.Logged.empty.grows reaches
    have was := earlier.consistent .empty
    obtain ⟨⟨snapshot, read⟩, fits, threads, _⟩ := of_listComments consistent listed
    obtain ⟨few, short⟩ := small_of_everything consistent logged fits
    obtain ⟨changed, delta⟩ : ∃ changed,
        after.listComments reviewId (activeSince since) = .ok (some changed) :=
      listComments_ok consistent read (fits_shownIn consistent logged few short)
    have kept := grows.rows_kept was
    have fewer := (length_le_of_kept (was.threads_held reviewId)
      (consistent.threads_held reviewId) fun id row found => kept.1 (reviewId, id) row found).2
    have shorter := (length_le_of_kept (was.comments_held reviewId)
      (consistent.comments_held reviewId) fun id row found => kept.2 (reviewId, id) row found).2
    obtain ⟨old, listedBefore, oldThreads⟩ := earlier.listed_before grows
      (by rw [read]; rfl) (Nat.lt_of_le_of_lt fewer few) (Nat.lt_of_le_of_lt shorter short)
    refine ⟨old, changed, listedBefore, delta, ?_⟩
    rw [oldThreads, threads, (of_listComments consistent delta).2.2.1]
    exact earlier.shownIn_refreshed grows cut

end Along

end Nits.ReviewCore
