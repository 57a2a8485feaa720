import Nits.ReviewCore.Store.Views

/-!
# The event store

An append-only log and the views folded from it. A write transaction changes
both or neither; `redb` is taken as an atomic ordered map, so the log is the list
of its events in key order.
-/

namespace Nits.ReviewCore

open Logical Protocol

/-- An event before the store assigns its sequence number. -/
structure NewEvent where
  ts : Timestamp
  author : Author
  clientId : ClientId
  clientSeq : ClientSeq
  body : EventBody

def NewEvent.at_ (new : NewEvent) (seq : Seq) : Event :=
  { seq, ts := new.ts, author := new.author, clientId := new.clientId,
    clientSeq := new.clientSeq, body := new.body }

/-- The log and the tables folded from it. -/
structure Store where
  events : List Event
  views : Views
  viewSeq : Option Seq

namespace Store

def empty : Store := ⟨[], .empty, none⟩

/-- The highest sequence number in the log. -/
def lastSeq (store : Store) : Option Seq := store.events.getLast?.map Event.seq

def nextSeq (store : Store) : Seq := store.lastSeq.elim Seq.FIRST Seq.next

/-- The store after one event has been committed. -/
def commit (store : Store) (event : Event) (views : Views) : Store where
  events := store.events ++ [event]
  views := views
  viewSeq := some event.seq

/-- Append one event, assigning the next sequence number and updating every view
in the same transaction. -/
def append (store : Store) (new : NewEvent) : Except StoreError (Event × Store) :=
  let event := new.at_ store.nextSeq
  (store.views.apply event).map fun views => (event, store.commit event views)

/-- Every event above `after`, in order. -/
def eventsAfter (store : Store) (after : Option Seq) : List Event :=
  store.events.filter fun event => after.elim true fun bound => bound < event.seq

/-- Fold a log into views, starting from some views. -/
def fold (views : Views) (events : List Event) : Except StoreError Views :=
  events.foldlM Views.apply views

/-- Drop every view table and fold the whole log again. -/
def rebuildViews (store : Store) : Except StoreError Store :=
  (fold .empty store.events).map fun views =>
    { store with views, viewSeq := store.lastSeq }

/-! ## Queries over views -/

def workspaces (store : Store) : List Workspace :=
  store.views.workspaces.toList.map Prod.snd

def workspace (store : Store) (id : WorkspaceId) : Option Workspace := store.views.workspaces[id]?

/-- Live reviews in a workspace. -/
def reviews (store : Store) (workspace : WorkspaceId) : List ReviewRecord :=
  (store.views.reviews.toList.map Prod.snd).filter fun record =>
    record.review.workspaceId = workspace && record.lifecycle = .live

/-- A review by id, including tombstoned ones. -/
def review (store : Store) (id : ReviewId) : Option ReviewRecord := store.views.reviews[id]?

def comments (store : Store) (review : ReviewId) : List Comment :=
  store.views.comments.under review

def suggestion (store : Store) (review : ReviewId) (comment : CommentId) :
    Option SuggestionRecord :=
  store.views.suggestions[(review, comment)]?

def comment (store : Store) (review : ReviewId) (id : CommentId) : Option Comment :=
  store.views.comments[(review, id)]?

def threads (store : Store) (review : ReviewId) : List Thread :=
  store.views.threads.under review

/-- Comments anchored to a specific blob, as review and comment. -/
def commentsOnBlob (store : Store) (repo : RepoId) (blob : BlobOid) : List (ReviewId × CommentId) :=
  store.views.anchorsByBlob.toList.filterMap fun row =>
    if row.1.1 = repo ∧ row.1.2.1 = blob then some (row.2, row.1.2.2) else none

/-- Everything the views hold about a stored review. -/
def snapshotOf (store : Store) (id : ReviewId) (record : ReviewRecord) : ReviewSnapshot where
  review := record.review
  resolved := record.resolved
  threads := store.views.threads.under id
  comments := store.views.comments.under id
  suggestions := store.views.suggestions.under id
  viewed := store.views.viewed.under id
  requests := store.views.requests.under id
  checkpoints := store.views.checkpoints.under id
  seq := store.viewSeq.getD 0

/-- One coherent read of every materialised field and its subscription cursor. -/
def reviewSnapshot (store : Store) (id : ReviewId) : Option ReviewSnapshot :=
  store.views.reviews[id]?.bind fun record =>
    match record.lifecycle with
    | .deleted _ => none
    | .live => some (store.snapshotOf id record)

theorem reviewSnapshot_eq_some {store : Store} {id : ReviewId} {snapshot : ReviewSnapshot} :
    store.reviewSnapshot id = some snapshot ↔ ∃ record, store.views.reviews[id]? = some record ∧
      record.lifecycle = .live ∧ store.snapshotOf id record = snapshot := by
  unfold reviewSnapshot
  rw [Option.bind_eq_some_iff]
  refine exists_congr fun record => and_congr_right fun _ => ?_
  cases record.lifecycle <;> simp

end Store

end Nits.ReviewCore
