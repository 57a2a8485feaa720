import Nits.ReviewCore.Soundness
import Nits.ReviewCore.Store.CommentQuery

/-!
# Invariants of every run

What holds in each state a daemon reaches from an empty store: no event is ever
refused by the fold, rebuilding the views changes nothing, and the threads of a
review partition its comments.
-/

namespace Nits.ReviewCore

open Logical Protocol

section Rebuilding

variable [Platform]

theorem reachable_run (env : Environment) (steps : List Step) :
    Reachable env (Core.run env .initial steps) :=
  ⟨steps, rfl⟩

/-! ## Rebuilding -/

/-- The fold refuses no event that an operation appends, and folding the whole log again,
over whatever views are stored, yields the views as they are. -/
theorem run_rebuilds (env : Environment) (steps : List Step) :
    (Core.run env .initial steps).reported = [] ∧
      ∀ views viewSeq, { (Core.run env .initial steps).store with views, viewSeq }.rebuildViews =
        .ok (Core.run env .initial steps).store := by
  have reachable := reachable_run env steps
  exact ⟨reachable.extends.reported, fun _ _ => reachable.logged.rebuildViews⟩

end Rebuilding

/-! ## Threads -/

/-- The threads of a review partition its comments, and exactly the threads with
an informational root, which stands at review level, are informational. -/
structure ThreadPartition (store : Store) (review : ReviewId) : Prop where
  /-- The threads list every comment once and nothing else. -/
  covers : ((store.threads review).flatMap threadMembers).Perm
    ((store.comments review).map Comment.id)
  distinct : ((store.threads review).flatMap threadMembers).Nodup
  /-- A thread's root exists, and its id is the thread's. -/
  rooted : ∀ thread ∈ store.threads review, ∃ root ∈ store.comments review,
    root.id = thread.root ∧ thread.id = Core.threadIdOf root.id
  /-- A comment names the thread that lists it. -/
  named : ∀ thread ∈ store.threads review, ∀ comment ∈ store.comments review,
    comment.id ∈ threadMembers thread ↔ comment.threadId = thread.id
  informational : ∀ thread ∈ store.threads review, ∀ root ∈ store.comments review,
    root.id = thread.root → (thread.resolution = .informational ↔ root.kind = .informational) ∧
      (root.kind = .informational → root.anchor = .review)

theorem Consistent.threadPartition {store : Store} (consistent : Consistent store.views)
    (review : ReviewId) : ThreadPartition store review := by
  have comments := consistent.comments_held review
  have threads := consistent.threads_held review
  have stored {thread : Thread} (mem : thread ∈ store.threads review) :
      store.views.threads[(review, thread.id)]? = some thread :=
    (threads.mem_iff thread).mp mem
  have present {comment : Comment} (mem : comment ∈ store.comments review) :
      store.views.comments[(review, comment.id)]? = some comment :=
    (comments.mem_iff comment).mp mem
  have named : ∀ thread ∈ store.threads review, ∀ comment ∈ store.comments review,
      comment.id ∈ threadMembers thread ↔ comment.threadId = thread.id := by
    intro thread threadMember comment commentMember
    constructor
    · intro listed
      obtain ⟨other, found, names⟩ := consistent.mem (stored threadMember) listed
      rw [present commentMember] at found
      rw [Option.some.inj found, names]
    · intro names
      obtain ⟨other, found, listed⟩ := consistent.listed (present commentMember)
      rw [names, stored threadMember] at found
      rw [Option.some.inj found]
      exact listed
  have distinct : ((store.threads review).flatMap threadMembers).Nodup := by
    rw [List.nodup_flatMap]
    refine ⟨fun thread mem => consistent.nodup (stored mem), ?_⟩
    refine (List.pairwise_map.mp threads.nodup).imp_of_mem ?_
    intro left right leftMember rightMember different id inLeft inRight
    obtain ⟨comment, found, namesLeft⟩ := consistent.mem (stored leftMember) inLeft
    obtain ⟨other, again, namesRight⟩ := consistent.mem (stored rightMember) inRight
    rw [found] at again
    rw [← Option.some.inj again, namesLeft] at namesRight
    exact different namesRight
  refine { covers := ?_, distinct, rooted := ?_, named, informational := ?_ }
  · refine (List.perm_ext_iff_of_nodup distinct comments.nodup).mpr fun id => ?_
    rw [List.mem_flatMap, List.mem_map]
    constructor
    · rintro ⟨thread, mem, listed⟩
      obtain ⟨comment, found, _⟩ := consistent.mem (stored mem) listed
      have own : comment.id = id := comments.own found
      exact ⟨comment, (comments.mem_iff comment).mpr (by rw [own, found]), own⟩
    · rintro ⟨comment, mem, rfl⟩
      obtain ⟨thread, found, listed⟩ := consistent.listed (present mem)
      have own : thread.id = comment.threadId := threads.own found
      exact ⟨thread, (threads.mem_iff thread).mpr (by rw [own, found]), listed⟩
  · intro thread mem
    obtain ⟨root, found, names⟩ := consistent.mem (stored mem) List.mem_cons_self
    have own : root.id = thread.root := comments.own found
    refine ⟨root, (comments.mem_iff root).mpr (by rw [own, found]), own, ?_⟩
    apply Id.ulid_injective
    rw [Core.threadIdOf, Id.ulid_fromParts, own]
    exact (consistent.rooted (stored mem)).symm
  · rintro thread mem root rootMember own
    have found := present rootMember
    rw [own] at found
    exact ⟨consistent.informational (stored mem) found,
      consistent.reviewLevel (stored mem) found⟩

private theorem mapM_memberOf_ok {comments : Table CommentId Comment} {ids : List CommentId}
    (complete : ∀ id ∈ ids, ∃ comment, comments[id]? = some comment) (seq : Seq)
    (reason : CommentId → String) :
    ∃ joined, ids.mapM (memberOf comments seq reason) = .ok joined ∧ joined.length = ids.length := by
  induction ids with
  | nil => exact ⟨[], rfl, rfl⟩
  | cons id rest ih =>
    obtain ⟨comment, found⟩ := complete id List.mem_cons_self
    obtain ⟨joined, rest, length⟩ := ih fun id mem => complete id (List.mem_cons_of_mem _ mem)
    refine ⟨comment :: joined, ?_, by rw [List.length_cons, List.length_cons, length]⟩
    rw [List.mapM_cons, rest, memberOf, found]
    rfl

/-- Joining a thread whose comments are all there never finds the store corrupt. -/
theorem joinThread_ok {thread : Thread} {comments : Table CommentId Comment}
    (complete : ∀ id ∈ threadMembers thread, ∃ comment, comments[id]? = some comment)
    (query : CommentQuery) (seq : Seq) :
    ∃ joined, joinThread thread comments query seq = .ok joined := by
  obtain ⟨root, found⟩ := complete thread.root List.mem_cons_self
  obtain ⟨joined, listed, length⟩ := mapM_memberOf_ok complete seq
    fun id => s!"thread {thread.id} has no comment {id}"
  rw [threadMembers] at listed
  obtain ⟨first, rest, rfl⟩ : ∃ first rest, joined = first :: rest :=
    List.exists_cons_of_length_eq_add_one (length.trans rfl)
  have rootOf (reason : CommentId → String) :
      memberOf comments seq reason thread.root = .ok root := by
    rw [memberOf, found]
  simp only [joinThread, rootOf, listed, ok_bind, NonEmpty.new]
  repeat' split
  all_goals exact ⟨_, rfl⟩

variable [Platform]

/-- In every state the threads of a review partition its comments, so listing
comments never finds a thread without its root or without one of its replies. -/
theorem run_threads_partition (env : Environment) (steps : List Step) (review : ReviewId) :
    ThreadPartition (Core.run env .initial steps).store review ∧
      ∀ snapshot, (Core.run env .initial steps).store.reviewSnapshot review =
        some snapshot → ∀ thread ∈ snapshot.threads, ∀ query seq, ∃ joined,
          joinThread thread (commentsById snapshot.comments) query seq = .ok joined := by
  have consistent := (reachable_run env steps).consistent
  refine ⟨consistent.threadPartition review, ?_⟩
  intro snapshot taken thread mem query seq
  obtain ⟨record, _, _, rfl⟩ := Store.reviewSnapshot_eq_some.mp taken
  refine joinThread_ok (fun id listed => ?_) query seq
  have stored := ((consistent.threads_held review).mem_iff thread).mp mem
  obtain ⟨comment, found, _⟩ := consistent.mem stored listed
  exact ⟨comment, ((consistent.comments_held review).getElem?_collect id).trans found⟩

end Nits.ReviewCore
