import Mathlib.Algebra.BigOperators.Group.List.Basic
import Mathlib.Algebra.GroupWithZero.Nat
import Mathlib.Data.List.Pairwise
import Nits.Logical.Association

/-!
# Recency ledgers

A ledger knows how much room each of its keys takes and when it was last used. Its uses
are listed in their order, so what was not used for longest is found first, and the room
taken is kept as a sum. A balanced ledger stays balanced when a key is used or let go.
-/

namespace Nits.Logical

/-- The room a key takes, and its last use. -/
structure Slot where
  size : Nat
  tick : Nat

/-- `order` lists the last uses of all keys, oldest first. -/
structure Ledger (κ : Type) where
  used : Nat
  slots : List (κ × Slot)
  order : List (Nat × κ)
  next : Nat

namespace Ledger

variable {κ : Type} [DecidableEq κ]

def empty : Ledger κ := ⟨0, [], [], 0⟩

/-- Let a key go. -/
def without (ledger : Ledger κ) (key : κ) : Ledger κ :=
  match ledger.slots.lookup key with
  | none => ledger
  | some old => { ledger with
      used := ledger.used - old.size
      slots := ledger.slots.filter fun slot => slot.1 ≠ key
      order := ledger.order.filter fun use => use.1 ≠ old.tick }

/-- A new key is used now. -/
def put (ledger : Ledger κ) (key : κ) (size : Nat) : Ledger κ where
  used := ledger.used + size
  slots := (key, ⟨size, ledger.next⟩) :: ledger.slots
  order := ledger.order ++ [(ledger.next, key)]
  next := ledger.next + 1

def holds (ledger : Ledger κ) (key : κ) : Prop := (ledger.slots.lookup key).isSome

omit [DecidableEq κ] in
/-- The sum is that of the sizes, and each key comes once, in order of its last use. -/
structure Balanced (ledger : Ledger κ) : Prop where
  sum : ledger.used = (ledger.slots.map fun slot => slot.2.size).sum
  once : (ledger.slots.map Prod.fst).Nodup
  listed : ledger.order.Perm (ledger.slots.map fun slot => (slot.2.tick, slot.1))
  sorted : ledger.order.Pairwise fun early late => early.1 < late.1
  fresh : ∀ use ∈ ledger.order, use.1 < ledger.next

variable {ledger after : Ledger κ} {key other : κ} {slot : Slot}

omit [DecidableEq κ] in
theorem Balanced.empty : (Ledger.empty : Ledger κ).Balanced :=
  ⟨rfl, .nil, .nil, .nil, nofun⟩

theorem holds_iff : ledger.holds key ↔ key ∈ ledger.slots.map Prod.fst := by
  unfold holds
  induction ledger.slots with
  | nil => simp
  | cons first later ih =>
    rw [List.lookup_cons, List.map_cons, List.mem_cons, ← ih]
    by_cases same : key = first.1
    · simp [same]
    · simp [same, beq_eq_false_iff_ne.mpr same]

theorem lookup_without : (ledger.without key).slots.lookup other =
    if other = key then none else ledger.slots.lookup other := by
  unfold without
  split
  next absent =>
    split
    next same => rw [same, absent]
    · rfl
  next found =>
    dsimp only
    rw [Association.lookup_filter fun held => held ≠ key]
    by_cases same : other = key <;> simp [same]

theorem lookup_put {size : Nat} : (ledger.put key size).slots.lookup other =
    if other = key then some ⟨size, ledger.next⟩ else ledger.slots.lookup other := by
  unfold put
  dsimp only
  rw [List.lookup_cons]
  by_cases same : other = key
  · simp [same]
  · simp [same, beq_eq_false_iff_ne.mpr same]

namespace Balanced

/-- A key's own use is listed under its tick, and no other use is. -/
theorem mem_order (balanced : ledger.Balanced) {tick : Nat} : (tick, key) ∈ ledger.order ↔
    ∃ slot, ledger.slots.lookup key = some slot ∧ slot.tick = tick := by
  rw [balanced.listed.mem_iff, List.mem_map]
  constructor
  · rintro ⟨⟨held, slot⟩, mem, same⟩
    cases same
    exact ⟨slot, Association.lookup_of_mem balanced.once mem, rfl⟩
  · rintro ⟨slot, found, rfl⟩
    exact ⟨(key, slot), Association.mem_of_lookup found, rfl⟩

theorem tick_inj (balanced : ledger.Balanced) {left right : Nat × κ} (first : left ∈ ledger.order)
    (second : right ∈ ledger.order) (same : left.1 = right.1) : left = right := by
  have apart : ledger.order.Pairwise fun one two => one.1 ≠ two.1 :=
    balanced.sorted.imp Nat.ne_of_lt
  have : Std.Symm fun one two : Nat × κ => one.1 ≠ two.1 := ⟨fun _ _ => Ne.symm⟩
  by_contra different
  exact apart.forall first second different same

omit [DecidableEq κ] in
theorem keys_nodup (balanced : ledger.Balanced) : (ledger.order.map Prod.snd).Nodup := by
  have keys := (balanced.listed.map Prod.snd).nodup_iff
  rw [keys, List.map_map]
  exact balanced.once

/-- Letting a key go takes its one use out of the order. -/
theorem order_without (balanced : ledger.Balanced) :
    (ledger.without key).order = ledger.order.filter fun use => use.2 ≠ key := by
  unfold without
  split
  next absent =>
    refine (List.filter_eq_self.mpr fun use mem => ?_).symm
    obtain ⟨slot, found, _⟩ := balanced.mem_order.mp (show (use.1, use.2) ∈ _ from mem)
    refine decide_eq_true fun same => ?_
    rw [same, absent] at found
    cases found
  next old found =>
    refine List.filter_congr fun use mem => ?_
    have own : (old.tick, key) ∈ ledger.order := balanced.mem_order.mpr ⟨old, found, rfl⟩
    refine decide_eq_decide.mpr (not_congr ⟨fun same => ?_, fun same => ?_⟩)
    · rw [balanced.tick_inj mem own same]
    · obtain ⟨slot, again, tick⟩ := balanced.mem_order.mp (show (use.1, use.2) ∈ _ from mem)
      rw [same, found] at again
      cases again
      exact tick.symm

omit [DecidableEq κ] in
private theorem sum_filter [DecidableEq κ] {slots : List (κ × Slot)}
    (once : (slots.map Prod.fst).Nodup) (mem : (key, slot) ∈ slots) :
    (slots.map fun slot => slot.2.size).sum =
      slot.size + ((slots.filter fun slot => slot.1 ≠ key).map fun slot => slot.2.size).sum := by
  induction slots with
  | nil => cases mem
  | cons first later ih =>
    obtain ⟨fresh, once⟩ := List.nodup_cons.mp once
    rcases List.mem_cons.mp mem with rfl | mem
    · have others : later.filter (fun slot => slot.1 ≠ key) = later :=
        List.filter_eq_self.mpr fun held isHeld => decide_eq_true fun same =>
          fresh (List.mem_map.mpr ⟨held, isHeld, same⟩)
      rw [List.filter_cons_of_neg (by simp), others, List.map_cons, List.sum_cons]
    · have different : first.1 ≠ key := fun same =>
        fresh (same ▸ List.mem_map_of_mem (f := Prod.fst) mem)
      rw [List.filter_cons_of_pos (by simpa using different), List.map_cons, List.sum_cons,
        List.map_cons, List.sum_cons, ih once mem]
      omega

/-- What goes was counted. -/
theorem used_without (balanced : ledger.Balanced) (found : ledger.slots.lookup key = some slot) :
    (ledger.without key).used + slot.size = ledger.used := by
  have counted := sum_filter balanced.once (Association.mem_of_lookup found)
  have sum := balanced.sum
  unfold without
  rw [found]
  dsimp only
  omega

theorem without (balanced : ledger.Balanced) (key : κ) : (ledger.without key).Balanced := by
  have order : (ledger.without key).order = ledger.order.filter fun use => use.2 ≠ key :=
    balanced.order_without
  have filtered : (ledger.without key).slots = ledger.slots.filter fun slot => slot.1 ≠ key := by
    unfold Ledger.without
    split
    next absent =>
      refine (List.filter_eq_self.mpr fun held isHeld => ?_).symm
      refine decide_eq_true fun same => ?_
      rw [← same, Association.lookup_of_mem balanced.once (show (held.1, held.2) ∈ _ from isHeld)]
        at absent
      cases absent
    · rfl
  have next : (ledger.without key).next = ledger.next := by
    unfold Ledger.without
    split <;> rfl
  refine ⟨?_, ?_, ?_, ?_, ?_⟩
  · cases found : ledger.slots.lookup key with
    | none =>
      unfold Ledger.without
      rw [found]
      exact balanced.sum
    | some slot =>
      have counted := sum_filter balanced.once (Association.mem_of_lookup found)
      have taken := balanced.used_without found
      have sum := balanced.sum
      rw [filtered]
      omega
  · rw [filtered]
    exact Association.once_filter _ balanced.once
  · rw [order, filtered]
    have listed := balanced.listed.filter fun use => decide (use.2 ≠ key)
    rwa [List.filter_map] at listed
  · rw [order]
    exact balanced.sorted.sublist List.filter_sublist
  · rw [order, next]
    exact fun use mem => balanced.fresh use (List.mem_of_mem_filter mem)

theorem put (balanced : ledger.Balanced) (absent : ¬ ledger.holds key) (size : Nat) :
    (ledger.put key size).Balanced := by
  refine ⟨?_, ?_, ?_, ?_, ?_⟩
  · have sum := balanced.sum
    simp only [Ledger.put, List.map_cons, List.sum_cons]
    omega
  · rw [holds_iff] at absent
    exact List.nodup_cons.mpr ⟨absent, balanced.once⟩
  · exact (List.perm_append_singleton _ _).trans (balanced.listed.cons _)
  · refine List.pairwise_append.mpr ⟨balanced.sorted, List.pairwise_singleton _ _, ?_⟩
    intro use mem last isLast
    rw [List.mem_singleton.mp isLast]
    exact balanced.fresh use mem
  · intro use mem
    change use.1 < ledger.next + 1
    rcases List.mem_append.mp mem with earlier | isLast
    · exact Nat.lt_succ_of_lt (balanced.fresh use earlier)
    · rw [List.mem_singleton.mp isLast]
      exact Nat.lt_succ_self _

theorem not_holds_without : ¬ (ledger.without key).holds key := by
  simp [holds, lookup_without]

omit [DecidableEq κ] in
/-- A moment may pass in which nothing is used. -/
theorem bump (balanced : ledger.Balanced) : { ledger with next := ledger.next + 1 }.Balanced :=
  ⟨balanced.sum, balanced.once, balanced.listed, balanced.sorted,
    fun use mem => Nat.lt_succ_of_lt (balanced.fresh use mem)⟩

end Balanced

/-! ## Making room -/

/-- Along some uses, oldest first, keys go until the room taken is within budget or only
spared ones are left. -/
inductive Sheds (budget : Nat) (spared : κ → Prop) :
    Ledger κ → List (Nat × κ) → List κ → Ledger κ → Prop
  | roomy {ledger uses} (fits : ledger.used ≤ budget) : Sheds budget spared ledger uses [] ledger
  | stop {ledger uses} (all : ∀ use ∈ uses, spared use.2) : Sheds budget spared ledger uses [] ledger
  | skip {ledger after use uses gone} (keeps : spared use.2)
      (rest : Sheds budget spared ledger uses gone after) :
      Sheds budget spared ledger (use :: uses) gone after
  | drop {ledger after use uses gone} (full : budget < ledger.used) (goes : ¬ spared use.2)
      (rest : Sheds budget spared (ledger.without use.2) uses gone after) :
      Sheds budget spared ledger (use :: uses) (use.2 :: gone) after

namespace Sheds

variable {budget : Nat} {spared : κ → Prop} {uses : List (Nat × κ)} {gone : List κ}

theorem balanced (sheds : Sheds budget spared ledger uses gone after) (before : ledger.Balanced) :
    after.Balanced := by
  induction sheds with
  | roomy => exact before
  | stop => exact before
  | skip _ _ rest => exact rest before
  | drop _ _ _ rest => exact rest (before.without _)

/-- Exactly the dropped keys are not held any more. -/
theorem lookup (sheds : Sheds budget spared ledger uses gone after) (key : κ) :
    after.slots.lookup key = if key ∈ gone then none else ledger.slots.lookup key := by
  induction sheds with
  | roomy => rfl
  | stop => rfl
  | skip _ _ rest => exact rest
  | drop _ _ _ rest =>
    rw [rest, lookup_without]
    grind

theorem unspared (sheds : Sheds budget spared ledger uses gone after) :
    ∀ key ∈ gone, ¬ spared key := by
  induction sheds with
  | roomy => exact nofun
  | stop => exact nofun
  | skip _ _ rest => exact rest
  | drop _ goes _ rest => exact List.forall_mem_cons.mpr ⟨goes, rest⟩

/-- The dropped keys are the oldest of those that are not spared. -/
theorem oldest [DecidablePred spared] (sheds : Sheds budget spared ledger uses gone after) :
    ∃ rest, (uses.map Prod.snd).filter (fun key => ¬ spared key) = gone ++ rest := by
  induction sheds with
  | roomy => exact ⟨_, rfl⟩
  | stop => exact ⟨_, rfl⟩
  | skip keeps _ inner =>
    obtain ⟨rest, same⟩ := inner
    exact ⟨rest, by rw [List.map_cons, List.filter_cons_of_neg (by simpa using keeps), same]⟩
  | drop _ goes _ inner =>
    obtain ⟨rest, same⟩ := inner
    exact ⟨rest, by
      rw [List.map_cons, List.filter_cons_of_pos (by simpa using goes), same, List.cons_append]⟩

/-- What is left is listed as it was. -/
theorem order (sheds : Sheds budget spared ledger uses gone after) (before : ledger.Balanced) :
    after.order = ledger.order.filter fun use => use.2 ∉ gone := by
  induction sheds with
  | roomy => simp
  | stop => simp
  | skip _ _ rest => exact rest before
  | drop _ _ _ rest =>
    rw [rest (before.without _), before.order_without, List.filter_filter]
    refine List.filter_congr fun use _ => ?_
    rw [Bool.eq_iff_iff]
    simp [not_or, and_comm]

/-- Afterwards the budget holds, or only spared keys are held. -/
theorem settled (sheds : Sheds budget spared ledger uses gone after)
    (all : ∀ key, ledger.holds key → spared key ∨ key ∈ uses.map Prod.snd) :
    after.used ≤ budget ∨ ∀ key, after.holds key → spared key := by
  induction sheds with
  | roomy fits => exact .inl fits
  | stop keeps =>
    refine .inr fun key held => (all key held).elim id fun listed => ?_
    obtain ⟨use, mem, rfl⟩ := List.mem_map.mp listed
    exact keeps use mem
  | skip keeps _ rest =>
    refine rest fun key held => (all key held).elim .inl fun listed => ?_
    rcases List.mem_cons.mp listed with rfl | later
    · exact .inl keeps
    · exact .inr later
  | @drop ledger after use uses gone _ _ _ rest =>
    refine rest fun key held => ?_
    unfold holds at held
    rw [lookup_without] at held
    split at held
    · cases held
    next other =>
      refine (all key held).imp id fun listed => ?_
      exact (List.mem_cons.mp listed).resolve_left other

/-- What is dropped was counted, each key with its own size. -/
theorem used (sheds : Sheds budget spared ledger uses gone after) (before : ledger.Balanced)
    (once : uses.Sublist ledger.order) :
    after.used + (gone.map fun key => (ledger.slots.lookup key).elim 0 Slot.size).sum =
      ledger.used := by
  classical
  induction sheds with
  | roomy => simp
  | stop => simp
  | skip _ _ rest => exact rest before ((List.sublist_cons_self _ _).trans once)
  | @drop ledger after use uses gone _ _ sheds rest =>
    obtain ⟨slot, found, _⟩ := before.mem_order.mp
      (show (use.1, use.2) ∈ _ from once.subset List.mem_cons_self)
    have counted := before.used_without found
    -- The later uses are of other keys.
    obtain ⟨fresh, _⟩ := List.nodup_cons.mp (before.keys_nodup.sublist (once.map Prod.snd))
    have tail : uses.Sublist (ledger.without use.2).order := by
      rw [before.order_without]
      have others : uses.filter (fun held => held.2 ≠ use.2) = uses :=
        List.filter_eq_self.mpr fun held isHeld => decide_eq_true fun same =>
          fresh (List.mem_map.mpr ⟨held, isHeld, same⟩)
      have kept := ((List.sublist_cons_self use uses).trans once).filter fun held => held.2 ≠ use.2
      rwa [others] at kept
    have later := rest (before.without _) tail
    have same : gone.map (fun key => ((ledger.without use.2).slots.lookup key).elim 0 Slot.size) =
        gone.map fun key => (ledger.slots.lookup key).elim 0 Slot.size := by
      refine List.map_congr_left fun key isGone => ?_
      rw [lookup_without, if_neg]
      rintro rfl
      obtain ⟨others, named⟩ := sheds.oldest
      refine fresh (List.mem_of_mem_filter (p := fun key => ¬ spared key) ?_)
      rw [named]
      exact List.mem_append_left _ isGone
    rw [same] at later
    simp only [List.map_cons, List.sum_cons, found, Option.elim_some]
    omega

end Sheds

end Ledger

end Nits.Logical
