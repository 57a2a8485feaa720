import Nits.ReviewCore.Consistency

/-!
# The journal

How a store grows: one validated event at a time. `Gains` is a single append of an
allowed event and `Grows` any number of them. What every append keeps, a grown
store has: consistent views, views that are the fold of the log, and consecutive
sequence numbers.
-/

namespace Nits.ReviewCore

open Logical Protocol Relation

/-- What may be appended to a store with given views. -/
abbrev Allowed : Type := Views → EventBody → Prop

namespace Store

theorem append_eq_ok {store after : Store} {new : NewEvent} {event : Event} :
    store.append new = .ok (event, after) ↔ event = new.at_ store.nextSeq ∧
      ∃ views, store.views.apply event = .ok views ∧ after = store.commit event views := by
  unfold append
  rw [map_eq_ok]
  constructor
  · rintro ⟨views, applied, same⟩
    cases same
    exact ⟨rfl, views, applied, rfl⟩
  · rintro ⟨rfl, views, applied, rfl⟩
    exact ⟨views, applied, rfl⟩

/-- The store after one append of an allowed event. -/
structure Gains (allowed : Allowed) (before : Store) (event : Event) (after : Store) : Prop where
  allowed : allowed before.views event.body
  numbered : event.seq = before.nextSeq
  applied : before.views.apply event = .ok after.views
  committed : after = before.commit event after.views

/-- The store after any number of appends of allowed events. -/
def Grows (allowed : Allowed) : Store → Store → Prop :=
  ReflTransGen fun before after => ∃ event, Gains allowed before event after

section Growing

variable {allowed wider : Allowed} {before after : Store} {event : Event}

theorem Gains.grows (gains : Gains allowed before event after) : Grows allowed before after :=
  .single ⟨event, gains⟩

theorem Gains.events (gains : Gains allowed before event after) :
    after.events = before.events ++ [event] := by
  rw [gains.committed]
  rfl

theorem Grows.mono (wide : ∀ views body, allowed views body → wider views body)
    (grows : Grows allowed before after) : Grows wider before after := by
  refine ReflTransGen.mono ?_ _ _ grows
  rintro _ _ ⟨event, gains⟩
  exact ⟨event, { gains with allowed := wide _ _ gains.allowed }⟩

/-- A property of stores that every gain keeps is kept by growth. -/
theorem Grows.keeps (property : Store → Prop) (grows : Grows allowed before after)
    (kept : ∀ {before after : Store} {event}, property before → Gains allowed before event after →
      property after) (first : property before) : property after := by
  induction grows with
  | refl => exact first
  | tail _ step ih =>
    obtain ⟨event, gains⟩ := step
    exact kept ih gains

/-- A growing store keeps its log. -/
theorem Grows.events (grows : Grows allowed before after) :
    ∃ suffix, after.events = before.events ++ suffix := by
  refine grows.keeps (fun store => ∃ suffix, store.events = before.events ++ suffix)
    ?_ ⟨[], by simp⟩
  rintro store next event ⟨suffix, same⟩ gains
  exact ⟨suffix ++ [event], by rw [gains.events, same, List.append_assoc]⟩

/-- Growth can be cut wherever its log can. -/
theorem Grows.cut (grows : Grows allowed before after) {first rest : List Event}
    (log : after.events = before.events ++ (first ++ rest)) :
    ∃ middle, Grows allowed before middle ∧ middle.events = before.events ++ first ∧
      Grows allowed middle after := by
  induction grows generalizing rest with
  | refl =>
    have none : first ++ rest = [] := List.self_eq_append_right.mp log
    obtain ⟨rfl, rfl⟩ := List.append_eq_nil_iff.mp none
    exact ⟨before, .refl, by simp, .refl⟩
  | tail earlier step ih =>
    obtain ⟨event, gains⟩ := step
    rw [gains.events] at log
    rcases rest.eq_nil_or_concat with rfl | ⟨rest, last, rfl⟩
    · refine ⟨_, earlier.tail ⟨event, gains⟩, ?_, .refl⟩
      rw [gains.events, log, List.append_nil]
    · rw [List.concat_eq_append, ← List.append_assoc, ← List.append_assoc] at log
      obtain ⟨log, _⟩ := List.append_inj' log rfl
      obtain ⟨middle, reaches, cut, continues⟩ := ih (by rw [log, List.append_assoc])
      exact ⟨middle, reaches, cut, continues.tail ⟨event, gains⟩⟩

/-- Every event of a growth was gained by a store that holds the log before it. -/
theorem Grows.at_event (grows : Grows allowed before after) {first rest : List Event}
    {event : Event} (log : after.events = before.events ++ (first ++ event :: rest)) :
    ∃ middle next, Grows allowed before middle ∧ middle.events = before.events ++ first ∧
      Gains allowed middle event next ∧ Grows allowed next after := by
  have log' : after.events = before.events ++ ((first ++ [event]) ++ rest) := by
    rw [log, List.append_assoc first]
    rfl
  obtain ⟨next, reaches, cut, continues⟩ := grows.cut log'
  rcases reaches.cases_tail with start | ⟨middle, earlier, gained, gains⟩
  · rw [start] at cut
    exact absurd (List.self_eq_append_right.mp cut) (by simp)
  · rw [gains.events, ← List.append_assoc] at cut
    obtain ⟨same, last⟩ := List.append_inj' cut rfl
    cases last
    exact ⟨middle, next, earlier, same, gains, continues⟩

/-- A property that a growth's events keep, one by one, is kept by the growth. -/
theorem Grows.along (property : Store → Prop) (grows : Grows allowed before after)
    {events : List Event} (log : after.events = before.events ++ events)
    (kept : ∀ {store next event}, event ∈ events → Gains allowed store event next →
      property store → property next) (first : property before) : property after := by
  induction grows generalizing events with
  | refl => exact first
  | tail earlier gained ih =>
    obtain ⟨event, gains⟩ := gained
    obtain ⟨suffix, grown⟩ := Grows.events earlier
    rw [gains.events, grown, List.append_assoc] at log
    obtain rfl := List.append_cancel_left log
    refine kept (List.mem_append_right _ List.mem_cons_self) gains (ih grown ?_)
    intro store next event mem
    exact kept (List.mem_append_left _ mem)

end Growing

/-! ## The log and the views -/

/-- The views are the fold of the log, whose events are numbered from one on. -/
structure Logged (store : Store) : Prop where
  folded : fold .empty store.events = .ok store.views
  numbered : store.events.map Event.seq = List.range' Seq.FIRST store.events.length
  cursor : store.viewSeq = store.lastSeq

theorem Logged.empty : Logged .empty := ⟨rfl, rfl, rfl⟩

theorem fold_append {views : Views} {events : List Event} {event : Event} {result : Views} :
    fold views (events ++ [event]) = .ok result ↔
      ∃ middle, fold views events = .ok middle ∧ middle.apply event = .ok result := by
  unfold fold
  rw [List.foldlM_append]
  simp only [List.foldlM_cons, List.foldlM_nil]
  change Except.bind _ _ = _ ↔ _
  rw [bind_eq_ok]
  simp only [bind_pure]

theorem Logged.nextSeq_eq {store : Store} (logged : Logged store) :
    store.nextSeq = Seq.FIRST + store.events.length := by
  unfold nextSeq Store.lastSeq
  rw [← List.getLast?_map, logged.numbered, List.getLast?_range']
  cases store.events.length with
  | zero => rfl
  | succ count =>
    simp only [Seq.FIRST]
    simp [Seq.next, Nat.add_comm 1]

variable {allowed : Allowed} {before after : Store}

theorem Logged.gains {event : Event} (logged : Logged before)
    (gains : Gains allowed before event after) : Logged after where
  folded := by
    rw [gains.events, fold_append]
    exact ⟨before.views, logged.folded, gains.applied⟩
  numbered := by
    rw [gains.events, List.map_append, logged.numbered, List.length_append, List.length_singleton,
      List.range'_concat, List.map_singleton, gains.numbered, logged.nextSeq_eq]
    simp
  cursor := by
    unfold Store.lastSeq
    rw [gains.events, List.getLast?_concat, gains.committed]
    rfl

theorem Logged.grows (logged : Logged before) (grows : Grows allowed before after) : Logged after :=
  grows.keeps Logged (fun logged gains => logged.gains gains) logged

/-- The store that a log leads to. -/
def replay (events : List Event) : Except StoreError Store :=
  Store.rebuildViews ⟨events, .empty, none⟩

theorem Logged.replay {store : Store} (logged : Logged store) : replay store.events = .ok store := by
  unfold Store.replay Store.rebuildViews
  rw [logged.folded]
  change Except.ok (Store.mk store.events store.views store.lastSeq) = .ok store
  rw [← logged.cursor]

/-- A logged store is determined by its log. -/
theorem Logged.unique {left right : Store} (first : Logged left) (second : Logged right)
    (same : left.events = right.events) : left = right := by
  have replayed := first.replay
  rw [same, second.replay] at replayed
  exact (Except.ok.inj replayed).symm

/-- Rebuilding a logged store changes nothing. -/
theorem Logged.rebuildViews (logged : Logged before) : before.rebuildViews = .ok before := by
  unfold Store.rebuildViews
  rw [logged.folded, ← logged.cursor]
  rfl

/-! ## Validated growth -/

variable [Platform] {env : Environment}

/-- A property of stores with consistent views that every validated gain keeps is
kept by growth. -/
theorem Grows.keeps_consistent (property : Store → Prop)
    (grows : Grows (Admissible env) before after)
    (kept : ∀ {before after : Store} {event}, Consistent before.views → property before →
      Gains (Admissible env) before event after → property after)
    (consistent : Consistent before.views) (first : property before) : property after :=
  (grows.keeps (fun store => Consistent store.views ∧ property store)
    (fun holds gains => ⟨holds.1.step gains.allowed gains.applied, kept holds.1 holds.2 gains⟩)
    ⟨consistent, first⟩).2

theorem Grows.consistent (grows : Grows (Admissible env) before after)
    (consistent : Consistent before.views) : Consistent after.views :=
  grows.keeps (fun store => Consistent store.views)
    (fun consistent gains => consistent.step gains.allowed gains.applied) consistent

/-- A property of the last store that a growth's events undo, one by one, holds of the first. -/
theorem Grows.undo (property : Store → Prop) (grows : Grows (Admissible env) before after)
    (consistent : Consistent before.views) {events : List Event}
    (log : after.events = before.events ++ events)
    (undone : ∀ {store next event}, event ∈ events → Consistent store.views →
      Gains (Admissible env) store event next → property next → property store)
    (last : property after) : property before := by
  induction grows generalizing events with
  | refl => exact last
  | tail earlier gained ih =>
    obtain ⟨event, gains⟩ := gained
    obtain ⟨suffix, grown⟩ := Grows.events earlier
    rw [gains.events, grown, List.append_assoc] at log
    obtain rfl := List.append_cancel_left log
    refine ih grown (fun mem => undone (List.mem_append_left _ mem)) ?_
    exact undone (List.mem_append_right _ List.mem_cons_self) (Grows.consistent earlier consistent)
      gains last

end Store

end Nits.ReviewCore
