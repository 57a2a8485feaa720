import Nits.Logical.Program
import Nits.ReviewCore.Store

/-!
# Rows

What an event means for one row of each table, whatever the tables around it
hold. Every view table is a family of rows that evolve independently: under its
key, each row is folded from the events alone. `apply` refines this reading, and
so can any other structure that keeps the same rows.
-/

namespace Nits.ReviewCore

open Logical Protocol

/-! ## What events change in a row -/

namespace Rows

def renamed (name : String) (workspace : Workspace) : Workspace := { workspace with name }

def attached (repo : Repo) (workspace : Workspace) : Workspace :=
  { workspace with repos := (workspace.repos.filter fun mem => mem.id ≠ repo.id) ++ [repo] }

def detached (repoId : RepoId) (workspace : Workspace) : Workspace :=
  { workspace with repos := workspace.repos.filter fun mem => mem.id ≠ repoId }

def updated (title : String) (status : ReviewStatus) (record : ReviewRecord) : ReviewRecord :=
  { record with review := { record.review with title, status } }

/-- The targets of a review after one of them was replaced. -/
def replaceTarget (targets : NonEmpty ReviewTarget) (target : ReviewTarget) :
    NonEmpty ReviewTarget :=
  targets.mapItems (modifyFirst (fun stored => stored.repoId = target.repoId) fun _ => target)
    target.length_replace

def retargeted (target : ReviewTarget) (record : ReviewRecord) : ReviewRecord :=
  { record with
    review := { record.review with targets := replaceTarget record.review.targets target } }

def tombstoned (seq : Seq) (record : ReviewRecord) : ReviewRecord :=
  { record with lifecycle := .deleted seq }

def resolvedTo (targets : NonEmpty ResolvedTarget) (record : ReviewRecord) : ReviewRecord :=
  { record with resolved := some targets }

def rewritten (body : String) (ts : Timestamp) (comment : Comment) : Comment :=
  { comment with body, edited := some ts }

def withdrawn (comment : Comment) : Comment := { comment with state := .deleted }

def reanchored (anchor : Anchor) (state : CommentState) (comment : Comment) : Comment :=
  { comment with anchor, state }

def appliedWith (receipt : SuggestionReceipt) (suggestion : SuggestionRecord) : SuggestionRecord :=
  { suggestion with outcome := .applied receipt }

/-- The thread that a comment without an existing thread starts. -/
def startThread (comment : Comment) : Thread where
  id := comment.threadId
  reviewId := comment.reviewId
  root := comment.id
  replies := []
  resolution := .forRoot comment.kind

def repliedBy (id : CommentId) (thread : Thread) : Thread :=
  { thread with replies := thread.replies ++ [id] }

def settled (resolution : ThreadResolution) (thread : Thread) : Thread := { thread with resolution }

/-! ## Rows after an event -/

/-- Change the row under one key. -/
def changeAt {K V : Type} [DecidableEq K] (at_ key : K) (change : V → V) (row : Option V) :
    Option V :=
  if at_ = key then row.map change else row

/-- Store a row under one key. -/
def storeAt {K V : Type} [DecidableEq K] (at_ key : K) (stored : V) (row : Option V) : Option V :=
  if at_ = key then some stored else row

def workspace (event : Event) (key : WorkspaceId) (row : Option Workspace) : Option Workspace :=
  match event.body with
  | .workspaceCreated workspace => storeAt workspace.id key workspace row
  | .workspaceUpdated workspaceId name => changeAt workspaceId key (renamed name) row
  | .repoAttached workspaceId repo => changeAt workspaceId key (attached repo) row
  | .repoDetached workspaceId repoId => changeAt workspaceId key (detached repoId) row
  | _ => row

def review (event : Event) (key : ReviewId) (row : Option ReviewRecord) : Option ReviewRecord :=
  match event.body with
  | .reviewCreated review => storeAt review.id key ⟨review, none, .live⟩ row
  | .reviewUpdated reviewId title status => changeAt reviewId key (updated title status) row
  | .reviewTargetUpdated reviewId target => changeAt reviewId key (retargeted target) row
  | .reviewDeleted reviewId => changeAt reviewId key (tombstoned event.seq) row
  | .reviewTargetsResolved reviewId targets => changeAt reviewId key (resolvedTo targets) row
  | _ => row

def comment (event : Event) (key : ReviewId × CommentId) (row : Option Comment) :
    Option Comment :=
  match event.body with
  | .commentCreated comment => storeAt (comment.reviewId, comment.id) key comment row
  | .commentEdited reviewId commentId body =>
    changeAt (reviewId, commentId) key (rewritten body event.ts) row
  | .commentDeleted reviewId commentId => changeAt (reviewId, commentId) key withdrawn row
  | .commentReanchored reviewId commentId anchor state =>
    changeAt (reviewId, commentId) key (reanchored anchor state) row
  | _ => row

def suggestion (event : Event) (key : ReviewId × CommentId) (row : Option SuggestionRecord) :
    Option SuggestionRecord :=
  match event.body with
  | .commentCreated comment =>
    match SuggestionRecord.fromCreated comment with
    | some suggestion => storeAt (comment.reviewId, comment.id) key suggestion row
    | none => row
  | .suggestionApplied reviewId commentId repoId path resultBlob =>
    changeAt (reviewId, commentId) key
      (appliedWith ⟨event.seq, event.ts, event.author, repoId, path, resultBlob⟩) row
  | _ => row

/-- The thread after a comment joined it or started it. -/
def joined (comment : Comment) (row : Option Thread) : Thread :=
  row.elim (startThread comment) (repliedBy comment.id)

def thread (event : Event) (key : ReviewId × ThreadId) (row : Option Thread) : Option Thread :=
  match event.body with
  | .commentCreated comment =>
    storeAt (comment.reviewId, comment.threadId) key (joined comment row) row
  | .threadDeferred reviewId threadId reason trackingUrl =>
    changeAt (reviewId, threadId) key
      (settled (.deferred reason trackingUrl event.author event.ts)) row
  | .threadResolved reviewId threadId =>
    changeAt (reviewId, threadId) key (settled (.resolved event.author event.ts)) row
  | .threadUnresolved reviewId threadId => changeAt (reviewId, threadId) key (settled .opened) row
  | _ => row

def viewed (event : Event) (key : ReviewId × RepoId × RepoPath) (row : Option ViewedMark) :
    Option ViewedMark :=
  match event.body with
  | .fileViewed reviewId repoId path viewer content =>
    storeAt (reviewId, repoId, path) key ⟨reviewId, repoId, path, viewer, content⟩ row
  | .fileUnviewed reviewId repoId path _ => if (reviewId, repoId, path) = key then none else row
  | _ => row

def request (event : Event) (key : ReviewId × Seq) (row : Option ReviewRequest) :
    Option ReviewRequest :=
  match ReviewRequest.fromEvent event with
  | some request => storeAt (request.reviewId, request.id.eventSeq) key request row
  | none => row

def checkpoint (event : Event) (key : ReviewId × Seq) (row : Option ReviewCheckpoint) :
    Option ReviewCheckpoint :=
  match ReviewCheckpoint.fromEvent event with
  | some checkpoint => storeAt (checkpoint.reviewId, checkpoint.id.eventSeq) key checkpoint row
  | none => row

end Rows

/-- Every row stands under its own key. -/
structure Keyed (views : Views) : Prop where
  workspace : ∀ {key} {row : Workspace}, views.workspaces[key]? = some row → row.id = key
  review : ∀ {key} {row : ReviewRecord}, views.reviews[key]? = some row → row.review.id = key
  comment : ∀ {key} {row : Comment},
    views.comments[key]? = some row → (row.reviewId, row.id) = key
  suggestion : ∀ {key} {row : SuggestionRecord},
    views.suggestions[key]? = some row → (row.reviewId, row.commentId) = key
  thread : ∀ {key} {row : Thread}, views.threads[key]? = some row → (row.reviewId, row.id) = key
  viewed : ∀ {key} {row : ViewedMark},
    views.viewed[key]? = some row → (row.reviewId, row.repoId, row.path) = key
  request : ∀ {key} {row : ReviewRequest},
    views.requests[key]? = some row → (row.reviewId, row.id.eventSeq) = key
  checkpoint : ∀ {key} {row : ReviewCheckpoint},
    views.checkpoints[key]? = some row → (row.reviewId, row.id.eventSeq) = key

/-- The rows after an event are those the event makes of the rows before it. A
table that the event does not touch keeps its rows by computation. -/
structure Follows (event : Event) (before after : Views) : Prop where
  workspace : ∀ key, after.workspaces[key]? = Rows.workspace event key before.workspaces[key]? := by
    exact fun _ => rfl
  review : ∀ key, after.reviews[key]? = Rows.review event key before.reviews[key]? := by
    exact fun _ => rfl
  comment : ∀ key, after.comments[key]? = Rows.comment event key before.comments[key]? := by
    exact fun _ => rfl
  suggestion : ∀ key,
      after.suggestions[key]? = Rows.suggestion event key before.suggestions[key]? := by
    exact fun _ => rfl
  thread : ∀ key, after.threads[key]? = Rows.thread event key before.threads[key]? := by
    exact fun _ => rfl
  viewed : ∀ key, after.viewed[key]? = Rows.viewed event key before.viewed[key]? := by
    exact fun _ => rfl
  request : ∀ key, after.requests[key]? = Rows.request event key before.requests[key]? := by
    exact fun _ => rfl
  checkpoint : ∀ key,
      after.checkpoints[key]? = Rows.checkpoint event key before.checkpoints[key]? := by
    exact fun _ => rfl

namespace Rows

variable {K V : Type} [DecidableEq K] (own : V → K) {at_ key : K} {stored result : V}
  {row : Option V}

theorem own_storeAt (found : storeAt at_ key stored row = some result)
    (storedOwn : own stored = at_)
    (rowOwn : ∀ {r}, row = some r → own r = key) : own result = key := by
  unfold storeAt at found
  split at found
  · next same =>
    cases found
    exact storedOwn.trans same
  · exact rowOwn found

theorem own_changeAt {change : V → V} (found : changeAt at_ key change row = some result)
    (kept : ∀ r, own (change r) = own r) (rowOwn : ∀ {r}, row = some r → own r = key) :
    own result = key := by
  unfold changeAt at found
  split at found
  · obtain ⟨r, present, rfl⟩ := Option.map_eq_some_iff.mp found
    exact (kept r).trans (rowOwn present)
  · exact rowOwn found

end Rows

theorem Keyed.empty : Keyed .empty := by
  constructor <;> intro key row found <;> simp [Views.empty] at found

/-- Events keep every row under its own key. -/
theorem Keyed.follows {event : Event} {before after : Views} (keyed : Keyed before)
    (follows : Follows event before after) : Keyed after where
  workspace := by
    intro key row found
    rw [follows.workspace, Rows.workspace] at found
    split at found
    · exact Rows.own_storeAt Workspace.id found rfl keyed.workspace
    · exact Rows.own_changeAt Workspace.id found (fun _ => rfl) keyed.workspace
    · exact Rows.own_changeAt Workspace.id found (fun _ => rfl) keyed.workspace
    · exact Rows.own_changeAt Workspace.id found (fun _ => rfl) keyed.workspace
    · exact keyed.workspace found
  review := by
    intro key row found
    rw [follows.review, Rows.review] at found
    let own (record : ReviewRecord) := record.review.id
    split at found
    · exact Rows.own_storeAt own found rfl keyed.review
    · exact Rows.own_changeAt own found (fun _ => rfl) keyed.review
    · exact Rows.own_changeAt own found (fun _ => rfl) keyed.review
    · exact Rows.own_changeAt own found (fun _ => rfl) keyed.review
    · exact Rows.own_changeAt own found (fun _ => rfl) keyed.review
    · exact keyed.review found
  comment := by
    intro key row found
    rw [follows.comment, Rows.comment] at found
    let own (comment : Comment) := (comment.reviewId, comment.id)
    split at found
    · exact Rows.own_storeAt own found rfl keyed.comment
    · exact Rows.own_changeAt own found (fun _ => rfl) keyed.comment
    · exact Rows.own_changeAt own found (fun _ => rfl) keyed.comment
    · exact Rows.own_changeAt own found (fun _ => rfl) keyed.comment
    · exact keyed.comment found
  suggestion := by
    intro key row found
    rw [follows.suggestion, Rows.suggestion] at found
    let own (suggestion : SuggestionRecord) := (suggestion.reviewId, suggestion.commentId)
    split at found
    · next comment _ =>
      split at found
      · next suggestion captured =>
        refine Rows.own_storeAt own found ?_ keyed.suggestion
        exact SuggestionRecord.key_fromCreated captured
      · exact keyed.suggestion found
    · exact Rows.own_changeAt own found (fun _ => rfl) keyed.suggestion
    · exact keyed.suggestion found
  thread := by
    intro key row found
    rw [follows.thread, Rows.thread] at found
    let own (thread : Thread) := (thread.reviewId, thread.id)
    split at found
    · next comment _ =>
      unfold Rows.storeAt at found
      split at found
      · next same =>
        cases found
        cases present : before.threads[key]? with
        | none => exact same
        | some thread =>
          have kept : (thread.reviewId, thread.id) = key := keyed.thread present
          exact kept
      · exact keyed.thread found
    · exact Rows.own_changeAt own found (fun _ => rfl) keyed.thread
    · exact Rows.own_changeAt own found (fun _ => rfl) keyed.thread
    · exact Rows.own_changeAt own found (fun _ => rfl) keyed.thread
    · exact keyed.thread found
  viewed := by
    intro key row found
    rw [follows.viewed, Rows.viewed] at found
    let own (mark : ViewedMark) := (mark.reviewId, mark.repoId, mark.path)
    split at found
    · exact Rows.own_storeAt own found rfl keyed.viewed
    · split at found
      · cases found
      · exact keyed.viewed found
    · exact keyed.viewed found
  request := by
    intro key row found
    rw [follows.request, Rows.request] at found
    split at found
    · exact Rows.own_storeAt (fun request : ReviewRequest =>
        (request.reviewId, request.id.eventSeq)) found rfl keyed.request
    · exact keyed.request found
  checkpoint := by
    intro key row found
    rw [follows.checkpoint, Rows.checkpoint] at found
    split at found
    · exact Rows.own_storeAt (fun checkpoint : ReviewCheckpoint =>
        (checkpoint.reviewId, checkpoint.id.eventSeq)) found rfl keyed.checkpoint
    · exact keyed.checkpoint found

/-! ## The rows of one review -/

namespace Keyed

variable {views : Views} (keyed : Keyed views) (review : ReviewId)
include keyed

theorem comments_held : Holds Comment.id (views.comments.under review)
    fun id => views.comments[(review, id)]? :=
  Holds.ofUnder fun _ _ found => (Prod.mk.inj (keyed.comment found)).2

theorem threads_held : Holds Thread.id (views.threads.under review)
    fun id => views.threads[(review, id)]? :=
  Holds.ofUnder fun _ _ found => (Prod.mk.inj (keyed.thread found)).2

theorem viewed_held : Holds (fun mark : ViewedMark => (mark.repoId, mark.path))
    (views.viewed.under review) fun file => views.viewed[(review, file)]? :=
  Holds.ofUnder fun _ _ found => (Prod.mk.inj (keyed.viewed found)).2

theorem checkpoints_held : Holds (fun checkpoint : ReviewCheckpoint => checkpoint.id.eventSeq)
    (views.checkpoints.under review) fun seq => views.checkpoints[(review, seq)]? :=
  Holds.ofUnder fun _ _ found => (Prod.mk.inj (keyed.checkpoint found)).2

end Keyed

namespace Views

variable {views after : Views}

/-- Indexing touches no table but the index. -/
theorem indexAnchor_eq (views : Views) (review : ReviewId) (comment : Comment) :
    ∃ anchors, views.indexAnchor review comment = { views with anchorsByBlob := anchors } := by
  unfold indexAnchor
  cases comment.anchor <;> exact ⟨_, rfl⟩

theorem unindexAnchor_eq (views : Views) (comment : Comment) :
    ∃ anchors, views.unindexAnchor comment = { views with anchorsByBlob := anchors } := by
  unfold unindexAnchor
  cases comment.anchor <;> exact ⟨_, rfl⟩

theorem joinThread_eq_ok {seq : Seq} {comment : Comment} {thread : Thread}
    (joined : views.joinThread seq comment = .ok thread) :
    thread = Rows.joined comment views.threads[(comment.reviewId, comment.threadId)]? := by
  unfold joinThread at joined
  split at joined
  · next existing found =>
    cases joined
    rw [found]
    rfl
  · next absent =>
    rw [absent]
    split at joined <;> cases joined
    rfl

/-- Creating a comment follows its event. -/
private theorem follows_insertComment {event : Event} {comment : Comment}
    (created : event.body = .commentCreated comment) : Follows event views (views.insertComment
      (Rows.joined comment views.threads[(comment.reviewId, comment.threadId)]?) comment) := by
  obtain ⟨seq, ts, author, clientId, clientSeq, body⟩ := event
  obtain rfl : body = .commentCreated comment := created
  unfold insertComment
  dsimp only
  obtain ⟨anchors, indexed⟩ := indexAnchor_eq _ comment.reviewId comment
  rw [indexed]
  refine { comment := ?_, suggestion := ?_, thread := ?_ }
  · exact fun key => Table.getElem?_insert _ _ _ _
  · intro key
    simp only [Rows.suggestion]
    cases SuggestionRecord.fromCreated comment with
    | none => rfl
    | some suggestion => exact Table.getElem?_insert _ _ _ _
  · intro key
    simp only [Rows.thread, Table.getElem?_insert]
    split
    · next same => subst same; simp [Rows.storeAt]
    · next other => simp [Rows.storeAt, other]

/-- `apply` refines the reading of events as row transitions. -/
theorem follows_of_apply {event : Event} (keyed : Keyed views)
    (applied : views.apply event = .ok after) : Follows event views after := by
  obtain ⟨seq, ts, author, clientId, clientSeq, body⟩ := event
  cases body with
  | workspaceCreated workspace =>
    cases applied
    exact { workspace := fun key => Table.getElem?_insert _ _ _ _ }
  | workspaceUpdated workspaceId name =>
    obtain ⟨workspace, found, rfl⟩ := map_eq_ok.mp applied
    exact { workspace := Table.getElem?_insert_change (require_eq_ok.mp found) (Rows.renamed name) }
  | repoAttached workspaceId repo =>
    obtain ⟨workspace, found, rfl⟩ := map_eq_ok.mp applied
    exact { workspace := Table.getElem?_insert_change (require_eq_ok.mp found) (Rows.attached repo) }
  | repoDetached workspaceId repoId =>
    obtain ⟨workspace, found, rfl⟩ := map_eq_ok.mp applied
    exact { workspace := Table.getElem?_insert_change (require_eq_ok.mp found) (Rows.detached repoId) }
  | reviewCreated review =>
    cases applied
    exact { review := fun key => Table.getElem?_insert _ _ _ _ }
  | reviewUpdated reviewId title status =>
    obtain ⟨record, found, rfl⟩ := map_eq_ok.mp applied
    replace found := require_eq_ok.mp found
    obtain rfl := keyed.review found
    exact { review := Table.getElem?_insert_change found (Rows.updated title status) }
  | reviewTargetUpdated reviewId target =>
    obtain ⟨record, found, applied⟩ := bind_eq_ok.mp applied
    replace found := require_eq_ok.mp found
    obtain rfl := keyed.review found
    split at applied
    · cases applied
      exact { review := Table.getElem?_insert_change found (Rows.retargeted target) }
    · cases applied
  | reviewDeleted reviewId =>
    obtain ⟨record, found, rfl⟩ := map_eq_ok.mp applied
    replace found := require_eq_ok.mp found
    obtain rfl := keyed.review found
    exact { review := Table.getElem?_insert_change found (Rows.tombstoned seq) }
  | reviewTargetsResolved reviewId targets =>
    obtain ⟨record, found, rfl⟩ := map_eq_ok.mp applied
    replace found := require_eq_ok.mp found
    obtain rfl := keyed.review found
    exact { review := Table.getElem?_insert_change found (Rows.resolvedTo targets) }
  | commentCreated comment =>
    obtain ⟨_, _, applied⟩ := bind_eq_ok.mp applied
    obtain ⟨thread, joined, rfl⟩ := map_eq_ok.mp applied
    rw [joinThread_eq_ok joined]
    exact follows_insertComment rfl
  | commentEdited reviewId commentId text =>
    obtain ⟨comment, found, rfl⟩ := map_eq_ok.mp applied
    replace found := require_eq_ok.mp found
    obtain ⟨rfl, rfl⟩ := Prod.mk.inj (keyed.comment found)
    exact { comment := Table.getElem?_insert_change found (Rows.rewritten text ts) }
  | commentDeleted reviewId commentId =>
    obtain ⟨comment, found, rfl⟩ := map_eq_ok.mp applied
    replace found := require_eq_ok.mp found
    obtain ⟨rfl, rfl⟩ := Prod.mk.inj (keyed.comment found)
    obtain ⟨anchors, unindexed⟩ := unindexAnchor_eq views comment
    rw [unindexed]
    exact { comment := Table.getElem?_insert_change found Rows.withdrawn }
  | commentReanchored reviewId commentId anchor state =>
    obtain ⟨comment, found, rfl⟩ := map_eq_ok.mp applied
    replace found := require_eq_ok.mp found
    obtain ⟨rfl, rfl⟩ := Prod.mk.inj (keyed.comment found)
    obtain ⟨anchors, unindexed⟩ := unindexAnchor_eq views comment
    rw [unindexed]
    split
    · exact { comment := Table.getElem?_insert_change found (Rows.reanchored anchor state) }
    · obtain ⟨anchors', indexed⟩ := indexAnchor_eq
        (saveComment { views with anchorsByBlob := anchors } { comment with anchor, state })
        comment.reviewId { comment with anchor, state }
      rw [indexed]
      exact { comment := Table.getElem?_insert_change found (Rows.reanchored anchor state) }
  | threadDeferred reviewId threadId reason trackingUrl =>
    obtain ⟨thread, found, rfl⟩ := map_eq_ok.mp applied
    replace found := require_eq_ok.mp found
    obtain ⟨rfl, rfl⟩ := Prod.mk.inj (keyed.thread found)
    exact { thread := Table.getElem?_insert_change found (Rows.settled (.deferred reason trackingUrl author ts)) }
  | threadResolved reviewId threadId =>
    obtain ⟨thread, found, rfl⟩ := map_eq_ok.mp applied
    replace found := require_eq_ok.mp found
    obtain ⟨rfl, rfl⟩ := Prod.mk.inj (keyed.thread found)
    exact { thread := Table.getElem?_insert_change found (Rows.settled (.resolved author ts)) }
  | threadUnresolved reviewId threadId =>
    obtain ⟨thread, found, rfl⟩ := map_eq_ok.mp applied
    replace found := require_eq_ok.mp found
    obtain ⟨rfl, rfl⟩ := Prod.mk.inj (keyed.thread found)
    exact { thread := Table.getElem?_insert_change found (Rows.settled .opened) }
  | fileViewed reviewId repoId path viewer content =>
    obtain ⟨_, _, rfl⟩ := map_eq_ok.mp applied
    exact { viewed := fun key => Table.getElem?_insert _ _ _ _ }
  | fileUnviewed reviewId repoId path viewer =>
    cases applied
    exact { viewed := fun key => Table.getElem?_erase _ _ _ }
  | reviewRequested reviewId agent note targets comparison =>
    cases applied
    exact { request := fun key => Table.getElem?_insert _ _ _ _ }
  | reviewChecked reviewId reviewer targets inReplyTo =>
    cases applied
    exact { checkpoint := fun key => Table.getElem?_insert _ _ _ _ }
  | suggestionApplied reviewId commentId repoId path resultBlob =>
    obtain ⟨suggestion, found, rfl⟩ := map_eq_ok.mp applied
    exact { suggestion := Table.getElem?_insert_change (require_eq_ok.mp found) (Rows.appliedWith ⟨seq, ts, author, repoId, path, resultBlob⟩) }

end Views

end Nits.ReviewCore
