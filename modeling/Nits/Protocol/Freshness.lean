import Mathlib.Data.List.Perm.Subperm
import Nits.Protocol.Domain

/-!
# Comparing target lists

When two lists of resolved targets name the same content. The comparison looks for a
partner of each target of the first list only; between lists of equal length of which the
first names no repository twice, the partners are all of the second list.
-/

namespace Nits.Protocol

open Logical

/-! ## Targets -/

/-- What the comparison reads of a ref: its tree, and its commit unless it is a working
tree. -/
def ResolvedRef.identity (ref : ResolvedRef) : TreeOid × Option CommitOid :=
  match ref.source with
  | .commit oid => (ref.tree, some oid)
  | .workingTree .. => (ref.tree, none)

theorem sameRef_iff {left right : ResolvedRef} :
    sameRef left right = true ↔ left.identity = right.identity := by
  unfold sameRef ResolvedRef.identity
  cases left.source <;> cases right.source <;> simp

/-- Two targets of one repository with equal identities on both sides. -/
structure SameTarget (left right : ResolvedTarget) : Prop where
  repo : left.repoId = right.repoId
  base : left.base.identity = right.base.identity
  head : left.head.identity = right.head.identity

/-- No repository has two targets. -/
def Distinct (targets : NonEmpty ResolvedTarget) : Prop :=
  (targets.items.map ResolvedTarget.repoId).Nodup

theorem identity_tree (ref : ResolvedRef) : ref.identity.1 = ref.tree := by
  unfold ResolvedRef.identity
  cases ref.source <;> rfl

theorem SameTarget.refl (target : ResolvedTarget) : SameTarget target target := ⟨rfl, rfl, rfl⟩

theorem SameTarget.symm {left right : ResolvedTarget} (same : SameTarget left right) :
    SameTarget right left :=
  ⟨same.repo.symm, same.base.symm, same.head.symm⟩

theorem SameTarget.trans {left middle right : ResolvedTarget} (first : SameTarget left middle)
    (second : SameTarget middle right) : SameTarget left right :=
  ⟨first.repo.trans second.repo, first.base.trans second.base, first.head.trans second.head⟩

/-- Partners have the same head tree. -/
theorem SameTarget.head_tree {left right : ResolvedTarget} (same : SameTarget left right) :
    left.head.tree = right.head.tree := by
  rw [← identity_tree, ← identity_tree, same.head]

variable {targets : NonEmpty ResolvedTarget} {outcome : TargetComparison}
  {checkpoints : List ReviewCheckpoint}

/-- Of a list without repetition, a target is determined by its repository. -/
theorem Distinct.eq (distinct : Distinct targets) {left right : ResolvedTarget}
    (first : left ∈ targets.items) (second : right ∈ targets.items)
    (same : left.repoId = right.repoId) : left = right :=
  List.inj_on_of_nodup_map distinct first second same

/-- The first target of a repository is the only one. -/
theorem Distinct.find? (distinct : Distinct targets) {target : ResolvedTarget}
    (mem : target ∈ targets.items) {repoId : RepoId} (named : target.repoId = repoId) :
    targets.items.find? (fun known => known.repoId = repoId) = some target := by
  cases found : targets.items.find? (fun known => known.repoId = repoId) with
  | none =>
    have missed := List.find?_eq_none.mp found target mem
    exact absurd named (by simpa using missed)
  | some first =>
    have same : first.repoId = repoId := by simpa using List.find?_some found
    rw [distinct.eq (List.mem_of_find?_eq_some found) mem (same.trans named.symm)]

/-! ## Lists of targets -/

section Lists

variable {a b c : NonEmpty ResolvedTarget}

theorem sameTargets_iff : sameTargets a b = true ↔ a.items.length = b.items.length ∧
    ∀ left ∈ a.items, ∃ right ∈ b.items, SameTarget left right := by
  unfold sameTargets
  simp only [Bool.and_eq_true, decide_eq_true_eq, List.all_eq_true, List.any_eq_true, sameRef_iff]
  refine and_congr_right fun _ => forall_congr' fun left => forall_congr' fun _ => ?_
  refine exists_congr fun right => and_congr_right fun _ => ?_
  exact ⟨fun ⟨⟨repo, base⟩, head⟩ => ⟨repo, base, head⟩,
    fun ⟨repo, base, head⟩ => ⟨⟨repo, base⟩, head⟩⟩

/-- Lists that compare equal name the same repositories, if the first names none twice. -/
theorem repos_perm (distinct : Distinct a) (same : sameTargets a b = true) :
    (a.items.map ResolvedTarget.repoId).Perm (b.items.map ResolvedTarget.repoId) := by
  obtain ⟨lengths, partners⟩ := sameTargets_iff.mp same
  refine (distinct.subperm ?_).perm_of_length_le ?_
  · intro repoId mem
    obtain ⟨left, held, rfl⟩ := List.mem_map.mp mem
    obtain ⟨right, found, partner⟩ := partners left held
    exact List.mem_map.mpr ⟨right, found, partner.repo.symm⟩
  · rw [List.length_map, List.length_map, lengths]

theorem Distinct.of_same (distinct : Distinct a) (same : sameTargets a b = true) : Distinct b :=
  (repos_perm distinct same).nodup_iff.mp distinct

/-- Every target of the second list has a partner in the first. -/
theorem exists_partner (distinct : Distinct a) (same : sameTargets a b = true)
    {right : ResolvedTarget} (mem : right ∈ b.items) : ∃ left ∈ a.items, SameTarget left right := by
  have named : right.repoId ∈ a.items.map ResolvedTarget.repoId :=
    (repos_perm distinct same).mem_iff.mpr (List.mem_map_of_mem mem)
  obtain ⟨left, found, repo⟩ := List.mem_map.mp named
  obtain ⟨other, held, partner⟩ := (sameTargets_iff.mp same).2 left found
  obtain rfl := (distinct.of_same same).eq held mem (partner.repo.symm.trans repo)
  exact ⟨left, found, partner⟩

theorem sameTargets_refl (a : NonEmpty ResolvedTarget) : sameTargets a a = true :=
  sameTargets_iff.mpr ⟨rfl, fun left mem => ⟨left, mem, .refl left⟩⟩

theorem sameTargets_symm (distinct : Distinct a) (same : sameTargets a b = true) :
    sameTargets b a = true := by
  refine sameTargets_iff.mpr ⟨(sameTargets_iff.mp same).1.symm, fun right mem => ?_⟩
  obtain ⟨left, found, partner⟩ := exists_partner distinct same mem
  exact ⟨left, found, partner.symm⟩

theorem sameTargets_trans (first : sameTargets a b = true) (second : sameTargets b c = true) :
    sameTargets a c = true := by
  obtain ⟨lengths, partners⟩ := sameTargets_iff.mp first
  obtain ⟨lengths', partners'⟩ := sameTargets_iff.mp second
  refine sameTargets_iff.mpr ⟨lengths.trans lengths', fun left mem => ?_⟩
  obtain ⟨middle, found, partner⟩ := partners left mem
  obtain ⟨right, found', partner'⟩ := partners' middle found
  exact ⟨right, found', partner.trans partner'⟩

/-- The order of a list does not matter. -/
theorem sameTargets_perm (reordered : a.items.Perm b.items) : sameTargets a b = true :=
  sameTargets_iff.mpr ⟨reordered.length_eq,
    fun left mem => ⟨left, reordered.mem_iff.mp mem, .refl left⟩⟩

end Lists

/-! ## A request against a check -/

/-- Where both refs are working trees, both captured a head commit, and the same one. -/
def SameCapture (old new : ResolvedRef) : Prop :=
  ∀ dirty branch head dirty' branch' head', old.source = .workingTree dirty branch head →
    new.source = .workingTree dirty' branch' head' → ∃ oid, head = some oid ∧ head' = some oid

/-- A comparison ends with equal targets only if it had not met an unknown head before, and
meets none here. -/
theorem compareHeads_same {old new : ResolvedRef}
    (same : compareHeads outcome old new = some .sameTargets) :
    outcome = .sameTargets ∧ SameCapture old new := by
  unfold compareHeads at same
  unfold SameCapture
  cases first : old.source with
  | commit oid =>
    rw [first] at same
    exact ⟨Option.some.inj same, by simp⟩
  | workingTree dirty branch head =>
    cases second : new.source with
    | commit oid =>
      rw [first, second] at same
      cases head <;> exact ⟨Option.some.inj same, by simp⟩
    | workingTree dirty' branch' head' =>
      rw [first, second] at same
      cases head with
      | none => cases same
      | some known =>
        cases head' with
        | none => cases same
        | some known' =>
          dsimp only at same
          split at same
          · cases same
          · next equal =>
            refine ⟨Option.some.inj same, ?_⟩
            rintro _ _ _ _ _ _ ⟨⟩ ⟨⟩
            exact ⟨known, rfl, by rw [Decidable.not_not.mp equal]⟩

/-- What is compared of one target of the check. -/
def compareTarget (targets : NonEmpty ResolvedTarget) (outcome : TargetComparison)
    (old : ResolvedTarget) : Option TargetComparison :=
  match targets.items.find? fun new => new.repoId = old.repoId with
  | none => some outcome
  | some new =>
    (compareHeads outcome old.base new.base).bind fun outcome =>
      compareHeads outcome old.head new.head

theorem compareTarget_same {old : ResolvedTarget}
    (same : compareTarget targets outcome old = some .sameTargets) :
    outcome = .sameTargets ∧ ∀ new, targets.items.find? (fun new => new.repoId = old.repoId) =
      some new → SameCapture old.base new.base ∧ SameCapture old.head new.head := by
  unfold compareTarget at same
  cases found : targets.items.find? fun new => new.repoId = old.repoId with
  | none =>
    rw [found] at same
    exact ⟨Option.some.inj same, by simp⟩
  | some new =>
    rw [found] at same
    obtain ⟨middle, base, head⟩ := Option.bind_eq_some_iff.mp same
    obtain ⟨rfl, heads⟩ := compareHeads_same head
    obtain ⟨start, bases⟩ := compareHeads_same base
    refine ⟨start, ?_⟩
    rintro _ ⟨⟩
    exact ⟨bases, heads⟩

/-- A run of the comparison that ends with equal targets met no difference on its way. -/
theorem compareTargets_same {olds : List ResolvedTarget}
    (same : olds.foldlM (compareTarget targets) outcome = some .sameTargets) :
    outcome = .sameTargets ∧ ∀ old ∈ olds, ∀ new,
      targets.items.find? (fun new => new.repoId = old.repoId) = some new →
        SameCapture old.base new.base ∧ SameCapture old.head new.head := by
  induction olds generalizing outcome with
  | nil => exact ⟨Option.some.inj same, by simp⟩
  | cons old olds ih =>
    rw [List.foldlM_cons] at same
    obtain ⟨middle, first, rest⟩ := Option.bind_eq_some_iff.mp same
    obtain ⟨rfl, others⟩ := ih rest
    obtain ⟨start, here⟩ := compareTarget_same first
    refine ⟨start, fun old' mem new found => ?_⟩
    obtain rfl | later := List.mem_cons.mp mem
    · exact here new found
    · exact others old' later new found

/-- A request is said to repeat a check only if their targets compare equal and every
working tree's head is known on both sides, and the same. -/
theorem against_same {checkpoint : ReviewCheckpoint} {id : ReviewCheckpointId}
    (distinct : Distinct checkpoint.targets)
    (said : RequestCheckpointComparison.against (some checkpoint) targets =
      .compared id .sameTargets) :
    sameTargets checkpoint.targets targets = true ∧ ∀ old ∈ checkpoint.targets.items,
      ∀ new ∈ targets.items, new.repoId = old.repoId →
        SameCapture old.base new.base ∧ SameCapture old.head new.head := by
  unfold RequestCheckpointComparison.against at said
  dsimp only at said
  split at said
  · cases said
  · next equal =>
    have equal : sameTargets checkpoint.targets targets = true := by simpa using equal
    have ended : checkpoint.targets.items.foldlM (compareTarget targets) .sameTargets =
        some .sameTargets := by
      have outcome := (RequestCheckpointComparison.compared.inj said).2
      change (checkpoint.targets.items.foldlM (compareTarget targets) .sameTargets).getD
        .changedTargets = .sameTargets at outcome
      cases ran : checkpoint.targets.items.foldlM (compareTarget targets) .sameTargets with
      | none =>
        rw [ran] at outcome
        cases outcome
      | some result =>
        rw [ran, Option.getD_some] at outcome
        rw [outcome]
    refine ⟨equal, fun old held new mem named => ?_⟩
    have found := (distinct.of_same equal).find? mem named
    exact (compareTargets_same ended).2 old held new found

/-! ## The latest check of each reviewer -/

/-- A check of its reviewer that no other one in the list is later than. -/
structure LatestOf (checkpoints : List ReviewCheckpoint) (checkpoint : ReviewCheckpoint) : Prop where
  listed : checkpoint ∈ checkpoints
  latest : ∀ other ∈ checkpoints, other.reviewer = checkpoint.reviewer →
    other.id.eventSeq ≤ checkpoint.id.eventSeq

/-- The checks kept so far, by reviewer. -/
def keepLatest (latest : Table ReviewerIdentity ReviewCheckpoint) (checkpoint : ReviewCheckpoint) :
    Table ReviewerIdentity ReviewCheckpoint :=
  latest.insert checkpoint.reviewer (laterCheckpoint latest[checkpoint.reviewer]? checkpoint)

/-- The table holds a latest check of every reviewer of the list, and nothing else. -/
structure KeepsLatest (checkpoints : List ReviewCheckpoint)
    (table : Table ReviewerIdentity ReviewCheckpoint) : Prop where
  sound : ∀ {reviewer : ReviewerIdentity} {checkpoint}, table[reviewer]? = some checkpoint →
    checkpoint.reviewer = reviewer ∧ LatestOf checkpoints checkpoint
  complete : ∀ {checkpoint}, checkpoint ∈ checkpoints →
    ∃ kept, table[checkpoint.reviewer]? = some kept

theorem KeepsLatest.empty : KeepsLatest [] ∅ where
  sound found := by simp at found
  complete mem := by cases mem

theorem KeepsLatest.concat {table : Table ReviewerIdentity ReviewCheckpoint}
    (keeps : KeepsLatest checkpoints table) (checkpoint : ReviewCheckpoint) :
    KeepsLatest (checkpoints ++ [checkpoint]) (keepLatest table checkpoint) where
  sound := by
    intro reviewer kept found
    rw [keepLatest, Table.getElem?_insert] at found
    split at found
    · next same =>
      subst same
      have kept_ := Option.some.inj found
      unfold laterCheckpoint at kept_
      cases held : table[checkpoint.reviewer]? with
      | none =>
        rw [held] at kept_
        subst kept_
        refine ⟨rfl, by simp, fun other mem same => ?_⟩
        obtain earlier | last := List.mem_append.mp mem
        · obtain ⟨kept, present⟩ := keeps.complete earlier
          rw [same, held] at present
          cases present
        · rw [List.mem_singleton.mp last]
      | some known =>
        obtain ⟨own, latest⟩ := keeps.sound held
        rw [held] at kept_
        dsimp only at kept_
        split at kept_
        · next later =>
          subst kept_
          refine ⟨rfl, by simp, fun other mem same => ?_⟩
          obtain earlier | last := List.mem_append.mp mem
          · exact Nat.le_trans (latest.latest other earlier (same.trans own.symm))
              (Nat.le_of_lt later)
          · rw [List.mem_singleton.mp last]
        · next earlier_ =>
          subst kept_
          refine ⟨own, List.mem_append_left _ latest.listed, fun other mem same => ?_⟩
          obtain earlier | last := List.mem_append.mp mem
          · exact latest.latest other earlier same
          · rw [List.mem_singleton.mp last]
            exact Nat.le_of_not_lt earlier_
    · next apart =>
      obtain ⟨own, latest⟩ := keeps.sound found
      refine ⟨own, List.mem_append_left _ latest.listed, fun other mem same => ?_⟩
      obtain earlier | last := List.mem_append.mp mem
      · exact latest.latest other earlier same
      · obtain rfl := List.mem_singleton.mp last
        exact absurd (same.trans own) apart
  complete := by
    intro other mem
    rw [keepLatest, Table.getElem?_insert]
    split
    · exact ⟨_, rfl⟩
    · next apart =>
      obtain earlier | last := List.mem_append.mp mem
      · exact keeps.complete earlier
      · obtain rfl := List.mem_singleton.mp last
        exact absurd rfl apart

theorem KeepsLatest.foldl {early : List ReviewCheckpoint}
    {table : Table ReviewerIdentity ReviewCheckpoint} (keeps : KeepsLatest early table)
    (late : List ReviewCheckpoint) : KeepsLatest (early ++ late) (late.foldl keepLatest table) := by
  induction late generalizing early table with
  | nil =>
    rw [List.append_nil]
    exact keeps
  | cons checkpoint late ih =>
    rw [List.foldl_cons, List.append_cons]
    exact ih (keeps.concat checkpoint)

theorem KeepsLatest.folded (checkpoints : List ReviewCheckpoint) :
    KeepsLatest checkpoints (checkpoints.foldl keepLatest ∅) :=
  KeepsLatest.empty.foldl checkpoints

theorem mem_latestCheckpoints {current : Option (NonEmpty ResolvedTarget)}
    {entry : ReviewerCheckpoint} : entry ∈ latestCheckpoints checkpoints current ↔
      (checkpoints.foldl keepLatest ∅)[entry.checkpoint.reviewer]? = some entry.checkpoint ∧
        entry.freshness = current.elim .unknown fun current =>
          if sameTargets entry.checkpoint.targets current then .current else .changed := by
  unfold latestCheckpoints
  simp only [List.mem_map]
  constructor
  · rintro ⟨⟨reviewer, checkpoint⟩, mem, rfl⟩
    have found := Std.ExtTreeMap.mem_toList_iff_getElem?_eq_some.mp mem
    obtain rfl := ((KeepsLatest.folded checkpoints).sound found).1
    exact ⟨found, rfl⟩
  · rintro ⟨found, freshness⟩
    refine ⟨(entry.checkpoint.reviewer, entry.checkpoint),
      Std.ExtTreeMap.mem_toList_iff_getElem?_eq_some.mpr found, ?_⟩
    rw [← freshness]

/-- The latest checks are exactly those that no later one of the same reviewer follows, if no
two checks have the same identity. -/
theorem latestCheckpoints_iff {current : Option (NonEmpty ResolvedTarget)}
    {checkpoint : ReviewCheckpoint}
    (distinct : (checkpoints.map fun checkpoint => checkpoint.id.eventSeq).Nodup) :
    (∃ entry ∈ latestCheckpoints checkpoints current, entry.checkpoint = checkpoint) ↔
      LatestOf checkpoints checkpoint := by
  have keeps := KeepsLatest.folded checkpoints
  constructor
  · rintro ⟨entry, mem, rfl⟩
    exact (keeps.sound (mem_latestCheckpoints.mp mem).1).2
  · intro latest
    obtain ⟨kept, found⟩ := keeps.complete latest.listed
    obtain ⟨own, latest'⟩ := keeps.sound found
    have same : kept.id.eventSeq = checkpoint.id.eventSeq :=
      Nat.le_antisymm (latest.latest kept latest'.listed own)
        (latest'.latest checkpoint latest.listed own.symm)
    obtain rfl := List.inj_on_of_nodup_map distinct latest'.listed latest.listed same
    let freshness : CheckpointFreshness := current.elim .unknown fun current =>
      if sameTargets kept.targets current then .current else .changed
    exact ⟨⟨kept, freshness⟩, mem_latestCheckpoints.mpr ⟨found, rfl⟩, rfl⟩

/-- No reviewer has two latest checks. -/
theorem latestCheckpoints_nodup (checkpoints : List ReviewCheckpoint)
    (current : Option (NonEmpty ResolvedTarget)) :
    ((latestCheckpoints checkpoints current).map fun entry => entry.checkpoint.reviewer).Nodup := by
  have keeps := KeepsLatest.folded checkpoints
  unfold latestCheckpoints
  change (List.map _ (List.map _ (checkpoints.foldl keepLatest ∅).toList)).Nodup
  rw [List.map_map, List.nodup_map_iff_inj_on]
  · rintro ⟨reviewer, checkpoint⟩ mem ⟨reviewer', checkpoint'⟩ mem' same
    have found := Std.ExtTreeMap.mem_toList_iff_getElem?_eq_some.mp mem
    have found' := Std.ExtTreeMap.mem_toList_iff_getElem?_eq_some.mp mem'
    obtain rfl := (keeps.sound found).1
    obtain rfl := (keeps.sound found').1
    have same : checkpoint.reviewer = checkpoint'.reviewer := same
    rw [same] at found
    rw [same, Option.some.inj (found.symm.trans found')]
  · exact (Std.ExtTreeMap.distinct_keys_toList (t := checkpoints.foldl keepLatest ∅)).imp
      fun apart same => apart (by rw [same]; exact Std.ReflCmp.compare_self)

end Nits.Protocol
