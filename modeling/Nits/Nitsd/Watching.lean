import Mathlib.Data.List.Dedup
import Nits.Nitsd.Watcher

/-!
# What the watcher has registered

Registrations are reconciled with the memberships in a pass that starts after an attach
or detach event was received. As long as no such event is lost, the task either still
has one to receive, or is reconciling what is current, or has registered exactly what
is wanted. A notification is answered by a pass whatever the channel drops.
-/

namespace Nits.Nitsd.Watcher

open Logical Protocol ReviewCore

/-! ### Checkouts -/

section Checkouts

variable {outside : Outside} {files : FileSystem}

/-- The member opens at the checkout. -/
def OpensAt (files : FileSystem) (checkout : String) (mem : Repo) : Prop :=
  ∃ opened, files.opened mem.path = .ok opened ∧ opened.checkout = checkout

theorem bindMember_eq_some {bound after : Option String} {mem : Repo} :
    bindMember files bound mem = some after ↔
      ∃ checkout, after = some checkout ∧ OpensAt files checkout mem ∧
        (bound = none ∨ bound = some checkout) := by
  unfold bindMember OpensAt
  cases opens : files.opened mem.path with
  | error error => simp
  | ok opened =>
    cases bound with
    | none => simp [eq_comm]
    | some checkout =>
      by_cases same : checkout = opened.checkout
      · simp [same, eq_comm]
      · simp [same]

variable {checkout : String}

theorem foldlM_bindMember_eq_some {members : List Repo} {bound : Option String} :
    members.foldlM (bindMember files) bound = some (some checkout) ↔
      (∀ mem ∈ members, OpensAt files checkout mem) ∧
        (bound = some checkout ∨ bound = none ∧ members ≠ []) := by
  induction members generalizing bound with
  | nil => simp
  | cons mem members ih =>
    rw [List.foldlM_cons]
    constructor
    · intro found
      obtain ⟨after, first, rest⟩ := Option.bind_eq_some_iff.mp found
      obtain ⟨opened, rfl, opens, before⟩ := bindMember_eq_some.mp first
      obtain ⟨others, reached⟩ := ih.mp rest
      have same : opened = checkout := by simpa using reached
      subst same
      refine ⟨?_, before.symm.imp id fun none => ⟨none, by simp⟩⟩
      intro other mem
      rcases List.mem_cons.mp mem with rfl | later
      · exact opens
      · exact others other later
    · rintro ⟨all, start⟩
      refine Option.bind_eq_some_iff.mpr ⟨some checkout, ?_, ?_⟩
      · exact bindMember_eq_some.mpr ⟨checkout, rfl, all mem (by simp),
          start.symm.imp And.left id⟩
      · exact ih.mpr ⟨fun other later => all other (List.mem_cons_of_mem _ later), .inl rfl⟩

/-- The store has a membership of the id. -/
def Has (store : Store) (repo : Repo) : Prop := ∃ workspaceId, store.Member workspaceId repo

/-- An id has a canonical checkout where it has memberships and all open there. -/
theorem repoCheckoutPath_eq_some {store : Store} {id : RepoId} :
    repoCheckoutPath files store id = some checkout ↔
      (∃ repo, Has store repo ∧ repo.id = id) ∧
        ∀ repo, Has store repo → repo.id = id → OpensAt files checkout repo := by
  have members : ∀ repo, repo ∈ (Core.memberships store id).map Prod.snd ↔
      Has store repo ∧ repo.id = id := by
    intro repo
    rw [Has, ← Core.mem_memberships]
    constructor
    · intro mem
      obtain ⟨⟨owner, _⟩, listed, rfl⟩ := List.mem_map.mp mem
      exact ⟨owner, listed⟩
    · rintro ⟨owner, listed⟩
      exact List.mem_map.mpr ⟨_, listed, rfl⟩
  rw [repoCheckoutPath, Option.join_eq_some_iff, foldlM_bindMember_eq_some]
  constructor
  · rintro ⟨all, none | ⟨-, some⟩⟩
    · cases none
    · obtain ⟨repo, others, shape⟩ := List.exists_cons_of_ne_nil some
      refine ⟨⟨repo, (members repo).mp (by rw [shape]; simp)⟩, fun repo held same => ?_⟩
      exact all repo ((members repo).mpr ⟨held, same⟩)
  · rintro ⟨⟨repo, held, same⟩, all⟩
    refine ⟨fun mem listed => ?_, .inr ⟨rfl, ?_⟩⟩
    · obtain ⟨held, same⟩ := (members mem).mp listed
      exact all mem held same
    · exact List.ne_nil_of_mem ((members repo).mpr ⟨held, same⟩)

/-- Checkouts depend on nothing but the memberships. -/
theorem repoCheckoutPath_congr {before after : Store}
    (same : ∀ repo, Has after repo ↔ Has before repo) (id : RepoId) :
    repoCheckoutPath files after id = repoCheckoutPath files before id := by
  refine Option.ext fun checkout => ?_
  simp only [repoCheckoutPath_eq_some, same]

theorem mem_repoIds {store : Store} {id : RepoId}
    (found : repoCheckoutPath files store id = some checkout) : id ∈ repoIds store := by
  obtain ⟨⟨repo, ⟨workspaceId, workspace, stored, listed⟩, rfl⟩, -⟩ :=
    repoCheckoutPath_eq_some.mp found
  rw [repoIds, List.mem_dedup]
  refine List.mem_map.mpr ⟨repo, List.mem_flatMap.mpr ⟨workspace, ?_, listed⟩, rfl⟩
  exact List.mem_map.mpr ⟨(workspaceId, workspace),
    Std.ExtTreeMap.mem_toList_iff_getElem?_eq_some.mpr stored, rfl⟩

/-- A checkout is its own checkout. -/
theorem resolveCheckout_checkout {store : Store} {id : RepoId}
    (settled : ∀ path, files.Settled path)
    (found : repoCheckoutPath files store id = some checkout) :
    files.resolveCheckout checkout = .ok checkout := by
  obtain ⟨⟨repo, held, same⟩, all⟩ := repoCheckoutPath_eq_some.mp found
  obtain ⟨opened, opens, rfl⟩ := all repo held same
  exact settled repo.path opened.checkout (FileSystem.opened_eq_ok.mp opens).1

end Checkouts

/-! ### Commits -/

/-- What the core has made sure of before it commits: a created workspace is new and has
no memberships. -/
def Validated (store : Store) (new : NewEvent) : Prop :=
  match new.body with
  | .workspaceCreated workspace =>
    store.views.workspaces[workspace.id]? = none ∧ workspace.repos = []
  | _ => True

/-- An event that is no attach or detach keeps the memberships. -/
theorem has_of_append {store after : Store} {new : NewEvent} {event : Event}
    (validated : Validated store new) (appended : store.append new = .ok (event, after))
    (other : changesMemberships event = false) (repo : Repo) : Has after repo ↔ Has store repo := by
  obtain ⟨rfl, views, applied, rfl⟩ := Store.append_eq_ok.mp appended
  have rewritten : ∀ {workspaceId : WorkspaceId} {workspace : Workspace},
      views.workspaces = store.views.workspaces.insert workspaceId workspace →
      (∀ repo, repo ∈ workspace.repos ↔ ∃ old,
        store.views.workspaces[workspaceId]? = some old ∧ repo ∈ old.repos) →
      (Has (store.commit (new.at_ store.nextSeq) views) repo ↔ Has store repo) := by
    intro workspaceId workspace changed kept
    have rows : ∀ key, (store.commit (new.at_ store.nextSeq) views).views.workspaces[key]? =
        if workspaceId = key then some workspace else store.views.workspaces[key]? := by
      intro key
      change views.workspaces[key]? = _
      rw [changed]
      exact Table.getElem?_insert _ _ _ _
    unfold Has Store.Member
    simp only [rows]
    constructor
    · rintro ⟨key, row, stored, listed⟩
      split at stored
      next same =>
        cases stored
        obtain ⟨old, found, held⟩ := (kept repo).mp listed
        exact ⟨key, old, same ▸ found, held⟩
      next => exact ⟨key, row, stored, listed⟩
    · rintro ⟨key, row, stored, listed⟩
      by_cases same : workspaceId = key
      · exact ⟨key, workspace, if_pos same, (kept repo).mpr ⟨row, same ▸ stored, listed⟩⟩
      · exact ⟨key, row, by rw [if_neg same]; exact stored, listed⟩
  by_cases shapes : shapesWorkspaces new.body = true
  · obtain ⟨ts, author, clientId, clientSeq, body⟩ := new
    cases body with
    | workspaceCreated workspace =>
      cases applied
      refine rewritten rfl fun repo => ?_
      rw [validated.2]
      constructor
      · rintro ⟨⟩
      · rintro ⟨old, found, -⟩
        rw [validated.1] at found
        cases found
    | workspaceUpdated workspaceId name =>
      obtain ⟨workspace, loaded, rfl⟩ := map_eq_ok.mp applied
      have found := Views.require_eq_ok.mp loaded
      refine rewritten rfl fun repo => ?_
      constructor
      · exact fun listed => ⟨workspace, found, listed⟩
      · rintro ⟨old, again, listed⟩
        rw [found] at again
        cases again
        exact listed
    | repoAttached | repoDetached => cases other
    | _ => cases shapes
  · have kept := Views.apply_workspaces (show shapesWorkspaces (new.at_ store.nextSeq).body = false
      from by simpa [NewEvent.at_] using shapes) applied
    unfold Has
    simp only [Store.Member.congr
      (show (store.commit (new.at_ store.nextSeq) views).views.workspaces = _ from kept)]

/-! ### Registrations -/

section Registrations

variable {outside : Outside}

/-- A root that can be watched, and is its own checkout. -/
structure Stands (outside : Outside) (root : String) : Prop where
  watchable : outside.watchable root = true
  checkout : outside.files.resolveCheckout root = .ok root

/-- A checkout is registered at itself, if it can be watched at all. -/
theorem discover_checkout {path : String}
    (checkout : outside.files.resolveCheckout path = .ok path) :
    outside.discover path = if outside.watchable path then some path else none := by
  rw [Outside.discover, checkout]
  rfl

theorem Stands.discover {root : String} (stands : Stands outside root) :
    outside.discover root = some root := by
  rw [discover_checkout stands.checkout, if_pos stands.watchable]

/-- What the state keeps in any case: registrations stand, and checkouts that are being
reconciled are checkouts. -/
structure Standing (outside : Outside) (state : State) : Prop where
  watched : ∀ id watch, state.watched id = some watch → Stands outside watch.root
  phase : match state.phase with
    | .resolving _ found => ∀ entry ∈ found, outside.files.resolveCheckout entry.2 = .ok entry.2
    | .reconciling todo => ∀ entry ∈ todo, outside.files.resolveCheckout entry.2 = .ok entry.2
    | .seeding _ watch todo => Stands outside watch.root ∧
        ∀ entry ∈ todo, outside.files.resolveCheckout entry.2 = .ok entry.2
    | _ => True

/-- The registrations are those wanted, up to the checkouts still to be looked at. -/
structure Partly (outside : Outside) (store : Store) (watched : RepoId → Option Watched)
    (todo : List (RepoId × String)) : Prop where
  right : ∀ id watch, watched id = some watch → wanted outside store id = some watch.root
  missing : ∀ id, watched id = none → wanted outside store id = none ∨ id ∈ todo.map Prod.fst
  current : ∀ entry ∈ todo, repoCheckoutPath outside.files store entry.1 = some entry.2

/-- Where the task stands if it has been told everything. -/
def Current (outside : Outside) (state : State) : Prop :=
  match state.phase with
  | .waiting | .due _ | .passing .. => state.Registered outside
  | .listing | .stopped => True
  | .resolving todo found =>
    (∀ id, repoCheckoutPath outside.files state.store id = none ∨ id ∈ todo ∨
        id ∈ found.map Prod.fst) ∧
      ∀ entry ∈ found, repoCheckoutPath outside.files state.store entry.1 = some entry.2
  | .reconciling todo => Partly outside state.store state.watched todo
  | .seeding id watch todo =>
    Partly outside state.store (Function.update state.watched id (some watch)) todo

variable {store : Store} {watched : RepoId → Option Watched}

theorem Partly.done (partly : Partly outside store watched []) (id : RepoId) :
    (watched id).map Watched.root = wanted outside store id := by
  cases found : watched id with
  | none =>
    rcases partly.missing id found with unwanted | listed
    · exact unwanted.symm
    · cases listed
  | some watch => exact (partly.right id watch found).symm

theorem Partly.perm {todo other : List (RepoId × String)}
    (partly : Partly outside store watched todo) (same : other.Perm todo) :
    Partly outside store watched other where
  right := partly.right
  missing id unwatched := (partly.missing id unwatched).imp_right (same.map Prod.fst).mem_iff.mpr
  current entry listed := partly.current entry (same.mem_iff.mp listed)

theorem wanted_of_checkout {id : RepoId} {path : String}
    (found : repoCheckoutPath outside.files store id = some path) :
    wanted outside store id = if outside.watchable path then some path else none := by
  rw [wanted, found]
  rfl

/-- What was looked up is registered up to what is looked up. -/
theorem partly_retain {state : State} (standing : Standing outside state)
    {found : List (RepoId × String)}
    (complete : ∀ id, repoCheckoutPath outside.files state.store id = none ∨
      id ∈ found.map Prod.fst) (current : ∀ entry ∈ found,
      repoCheckoutPath outside.files state.store entry.1 = some entry.2) :
    Partly outside state.store (retain state.watched found) found := by
  refine ⟨?_, ?_, current⟩
  · intro id watch kept
    obtain ⟨held, listed⟩ := Option.filter_eq_some_iff.mp kept
    have mem : (id, watch.root) ∈ found := by
      obtain ⟨before, after, rfl, -⟩ :=
        List.lookup_eq_some_iff.mp (of_decide_eq_true listed)
      simp
    rw [wanted_of_checkout (current _ mem), if_pos (standing.watched id watch held).watchable]
  · intro id _
    rcases complete id with none | listed
    · exact .inl (by rw [wanted, none]; rfl)
    · exact .inr listed

/-- The next checkout is already registered, or cannot be. -/
theorem Partly.skip {entry : RepoId × String} {todo : List (RepoId × String)}
    (partly : Partly outside store watched (entry :: todo))
    (settled : watched entry.1 = none → wanted outside store entry.1 = none) :
    Partly outside store watched todo := by
  refine ⟨partly.right, ?_, fun other listed => partly.current other (by simp [listed])⟩
  intro id missing
  rcases partly.missing id missing with unwanted | listed
  · exact .inl unwanted
  · rw [List.map_cons, List.mem_cons] at listed
    rcases listed with rfl | later
    · exact .inl (settled missing)
    · exact .inr later

/-- The next checkout is registered. -/
theorem Partly.register {id : RepoId} {watch : Watched} {todo : List (RepoId × String)}
    (partly : Partly outside store watched ((id, watch.root) :: todo))
    (stands : Stands outside watch.root) :
    Partly outside store (Function.update watched id (some watch)) todo := by
  refine ⟨?_, ?_, fun other listed => partly.current other (by simp [listed])⟩
  · intro other kept found
    rw [Function.update_apply] at found
    split at found
    next same =>
      cases found
      rw [same, wanted_of_checkout (partly.current (id, watch.root) (by simp)),
        if_pos stands.watchable]
    next => exact partly.right other kept found
  · intro other missing
    rw [Function.update_apply] at missing
    split at missing
    · cases missing
    next different =>
      rcases partly.missing other missing with unwanted | listed
      · exact .inl unwanted
      · rw [List.map_cons, List.mem_cons] at listed
        exact .inr (listed.resolve_left different)

theorem Watched.snapshot_root (watch : Watched) (id : RepoId) (tree : Option TreeOid) :
    (watch.snapshot id tree).1.root = watch.root := by
  cases tree <;> rfl

/-- Replacing a registration by one of the same root registers the same. -/
theorem map_root_update {id : RepoId} {watch other : Watched} (found : watched id = some watch)
    (same : other.root = watch.root) (key : RepoId) :
    (Function.update watched id (some other) key).map Watched.root =
      (watched key).map Watched.root := by
  rw [Function.update_apply]
  split
  next here => rw [here, found, Option.map_some, Option.map_some, same]
  next => rfl

variable {state : State}

/-- A registration replaced at its own root stands as before. -/
theorem Standing.replace (standing : Standing outside state) {id : RepoId} {watch other : Watched}
    (found : state.watched id = some watch) (same : other.root = watch.root) :
    ∀ key kept, Function.update state.watched id (some other) key = some kept →
      Stands outside kept.root := by
  intro key kept stored
  rw [Function.update_apply] at stored
  split at stored
  · cases stored
    rw [same]
    exact standing.watched id watch found
  · exact standing.watched key kept stored

/-- The next step of the task keeps what stands, and what is current. -/
theorem State.proceed_keeps (settled : ∀ path, outside.files.Settled path)
    (standing : Standing outside state) : Standing outside (state.proceed outside).1 ∧
      (Current outside state → Current outside (state.proceed outside).1) := by
  obtain ⟨store, unsent, channel, lagged, notifications, now, pending, watched, phase⟩ := state
  obtain ⟨stands, entries⟩ := standing
  unfold State.proceed
  match phase, entries with
  | .listing, _ =>
    refine ⟨⟨stands, by simp⟩, fun _ => ⟨fun id => ?_, by simp⟩⟩
    cases found : repoCheckoutPath outside.files store id with
    | none => exact .inl rfl
    | some path => exact .inr (.inl ((outside.permutes _).mem_iff.mpr (mem_repoIds found)))
  | .resolving [] found, entries =>
    refine ⟨⟨fun id watch kept => ?_, fun entry listed => ?_⟩, fun current => ?_⟩
    · exact stands id watch (Option.filter_eq_some_iff.mp kept).1
    · exact entries entry ((outside.permutes found).mem_iff.mp listed)
    · refine (partly_retain ⟨stands, entries⟩ (fun id => ?_) current.2).perm (outside.permutes found)
      rcases current.1 id with none | listed | looked
      · exact .inl none
      · cases listed
      · exact .inr looked
  | .resolving (id :: todo) found, entries =>
    dsimp only
    split
    next path checkout =>
      refine ⟨⟨stands, fun entry listed => ?_⟩, fun current => ⟨fun other => ?_, ?_⟩⟩
      · rcases List.mem_append.mp listed with before | new
        · exact entries entry before
        · rw [List.mem_singleton.mp new]
          exact resolveCheckout_checkout settled checkout
      · rcases current.1 other with none | listed | looked
        · exact .inl none
        · rcases List.mem_cons.mp listed with rfl | later
          · exact .inr (.inr (by simp))
          · exact .inr (.inl later)
        · exact .inr (.inr (by rw [List.map_append]; exact List.mem_append_left _ looked))
      · intro entry listed
        rcases List.mem_append.mp listed with before | new
        · exact current.2 entry before
        · rw [List.mem_singleton.mp new]
          exact checkout
    next none =>
      refine ⟨⟨stands, entries⟩, fun current => ⟨fun other => ?_, current.2⟩⟩
      rcases current.1 other with none | listed | looked
      · exact .inl none
      · rcases List.mem_cons.mp listed with rfl | later
        · exact .inl none
        · exact .inr (.inl later)
      · exact .inr (.inr looked)
  | .reconciling [], _ => exact ⟨⟨stands, trivial⟩, fun current => Partly.done current⟩
  | .reconciling ((id, path) :: todo), entries =>
    have checkout := entries (id, path) (by simp)
    have later : ∀ entry ∈ todo, outside.files.resolveCheckout entry.2 = .ok entry.2 :=
      fun entry listed => entries entry (by simp [listed])
    dsimp only
    split
    next registered =>
      refine ⟨⟨stands, later⟩, fun current => Partly.skip current fun missing => ?_⟩
      rw [show watched id = none from missing] at registered
      cases registered
    next =>
      rw [discover_checkout checkout]
      by_cases watchable : outside.watchable path = true
      · rw [if_pos watchable]
        have here : Stands outside path := ⟨watchable, checkout⟩
        exact ⟨⟨stands, here, later⟩, fun current => Partly.register current here⟩
      · rw [if_neg watchable]
        refine ⟨⟨stands, later⟩, fun current => Partly.skip current fun _ => ?_⟩
        rw [wanted_of_checkout (current.current (id, path) (by simp)), if_neg watchable]
  | .due [], _ => exact ⟨⟨stands, trivial⟩, id⟩
  | .due (id :: todo), _ =>
    dsimp only
    split
    next => exact ⟨⟨stands, trivial⟩, fun current => current⟩
    next watch found =>
      rw [(stands id watch found).discover]
      have same : Watched.root { watch with root := (some watch.root).getD watch.root } =
          watch.root := rfl
      refine ⟨⟨Standing.replace ⟨stands, trivial⟩ found same, trivial⟩, fun current key => ?_⟩
      exact (map_root_update found same key).trans (current key)
  | .waiting, _ => exact ⟨⟨stands, trivial⟩, fun current => current⟩
  | .seeding .., entries => exact ⟨⟨stands, entries⟩, fun current => current⟩
  | .passing .., _ => exact ⟨⟨stands, trivial⟩, fun current => current⟩
  | .stopped, _ => exact ⟨⟨stands, trivial⟩, fun current => current⟩

/-- The end of a pass keeps what stands, and what is current. -/
theorem State.finished_keeps (tree : Option TreeOid) (standing : Standing outside state) :
    Standing outside (state.finished tree).1 ∧
      (Current outside state → Current outside (state.finished tree).1) := by
  obtain ⟨store, unsent, channel, lagged, notifications, now, pending, watched, phase⟩ := state
  obtain ⟨stands, entries⟩ := standing
  unfold State.finished
  match phase, entries with
  | .seeding id watch todo, entries =>
    have same := watch.snapshot_root id tree
    have kept : ∀ key, (Function.update watched id (some (watch.snapshot id tree).1) key).map
        Watched.root = (Function.update watched id (some watch) key).map Watched.root := by
      intro key
      rw [Function.update_apply, Function.update_apply]
      split
      · rw [Option.map_some, Option.map_some, same]
      · rfl
    refine ⟨⟨fun key kept found => ?_, entries.2⟩, fun current => ⟨?_, ?_, current.current⟩⟩
    · change Function.update watched id _ key = some kept at found
      rw [Function.update_apply] at found
      split at found
      · cases found
        rw [same]
        exact entries.1
      · exact stands key kept found
    · intro key stored found
      have roots := kept key
      change Function.update watched id _ key = some stored at found
      rw [found] at roots
      obtain ⟨before, held, root⟩ := Option.map_eq_some_iff.mp roots.symm
      rw [current.right key before held, root]
    · intro key missing
      have roots := kept key
      change Function.update watched id _ key = none at missing
      rw [missing] at roots
      exact current.missing key (Option.map_eq_none_iff.mp roots.symm)
  | .passing id todo, _ =>
    dsimp only
    split
    next => exact ⟨⟨stands, trivial⟩, fun current => current⟩
    next watch found =>
      have same := watch.snapshot_root id tree
      refine ⟨⟨Standing.replace ⟨stands, trivial⟩ found same, trivial⟩, fun current key => ?_⟩
      exact (map_root_update found same key).trans (current key)
  | .listing, _ => exact ⟨⟨stands, trivial⟩, fun current => current⟩
  | .resolving .., entries => exact ⟨⟨stands, entries⟩, fun current => current⟩
  | .reconciling _, entries => exact ⟨⟨stands, entries⟩, fun current => current⟩
  | .due _, _ => exact ⟨⟨stands, trivial⟩, fun current => current⟩
  | .waiting, _ => exact ⟨⟨stands, trivial⟩, fun current => current⟩
  | .stopped, _ => exact ⟨⟨stands, trivial⟩, fun current => current⟩

/-- Where the task stands depends on the store through its memberships only. -/
theorem Current.congr {unsent : List Event} (same : ∀ repo, Has store repo ↔ Has state.store repo)
    (current : Current outside state) : Current outside { state with store, unsent } := by
  have checkouts : ∀ id, repoCheckoutPath outside.files store id =
      repoCheckoutPath outside.files state.store id := repoCheckoutPath_congr same
  have wants : ∀ id, wanted outside store id = wanted outside state.store id := by
    intro id
    rw [wanted, checkouts, wanted]
  have partly : ∀ {watched todo}, Partly outside state.store watched todo →
      Partly outside store watched todo := by
    intro watched todo held
    refine ⟨fun id watch found => ?_, fun id missing => ?_, fun entry listed => ?_⟩
    · rw [wants]
      exact held.right id watch found
    · rw [wants]
      exact held.missing id missing
    · rw [checkouts]
      exact held.current entry listed
  obtain ⟨before, _, channel, lagged, notifications, now, pending, watched, phase⟩ := state
  cases phase with
  | waiting => exact fun id => (current id).trans (wants id).symm
  | listing => trivial
  | resolving todo found =>
    refine ⟨fun id => ?_, fun entry listed => ?_⟩
    · change repoCheckoutPath outside.files store id = none ∨ _
      rw [checkouts]
      exact current.1 id
    · exact (checkouts entry.1).trans (current.2 entry listed)
  | reconciling todo => exact partly current
  | seeding id watch todo => exact partly current
  | due todo => exact fun id => (current id).trans (wants id).symm
  | passing id todo => exact fun id => (current id).trans (wants id).symm
  | stopped => trivial

/-- The task stands, and it is still to be told of a change or stands where it should. -/
structure Tracks (outside : Outside) (state : State) : Prop where
  standing : Standing outside state
  told : state.Informed ∨ Current outside state

/-- The core validates what it commits. -/
def Commits (state : State) (input : Input) : Prop :=
  match input with
  | .commit new => Validated state.store new
  | _ => True

theorem State.Informed.of_subset {state after : State} (informed : state.Informed)
    (kept : ∀ event ∈ state.channel ++ state.unsent, changesMemberships event = true →
      event ∈ after.channel ++ after.unsent) : after.Informed := by
  obtain ⟨event, listed, changes⟩ := informed
  exact ⟨event, kept event listed changes, changes⟩

/-- The busy task leaves the event channel alone. -/
theorem State.proceed_channel (outside : Outside) (state : State) :
    (state.proceed outside).1.channel = state.channel ∧
      (state.proceed outside).1.unsent = state.unsent := by
  unfold State.proceed
  split
  case h_3 => split <;> exact ⟨rfl, rfl⟩
  case h_5 =>
    split
    · exact ⟨rfl, rfl⟩
    · split <;> exact ⟨rfl, rfl⟩
  case h_7 =>
    dsimp only
    split <;> exact ⟨rfl, rfl⟩
  all_goals exact ⟨rfl, rfl⟩

theorem State.finished_channel (state : State) (tree : Option TreeOid) :
    (state.finished tree).1.channel = state.channel ∧
      (state.finished tree).1.unsent = state.unsent := by
  unfold State.finished
  split
  case h_2 => split <;> exact ⟨rfl, rfl⟩
  all_goals exact ⟨rfl, rfl⟩

/-- Every step keeps track, unless the last word on memberships is lost. -/
theorem Tracks.step (settled : ∀ path, outside.files.Settled path)
    (tracks : Tracks outside state) {input : Input} (commits : Commits state input)
    (followed : Followed state input) : Tracks outside (state.step outside input).1 := by
  obtain ⟨standing, told⟩ := tracks
  cases input with
  | commit new =>
    unfold State.step
    dsimp only
    split
    next event store appended =>
      refine ⟨⟨standing.watched, standing.phase⟩, ?_⟩
      by_cases changes : changesMemberships event = true
      · exact .inl ⟨event, by simp, changes⟩
      · refine told.imp (fun informed => informed.of_subset fun other listed _ => ?_)
          (Current.congr (has_of_append commits appended (by simpa using changes)))
        simp only [List.mem_append] at listed ⊢
        tauto
    next => exact ⟨standing, told⟩
  | publish =>
    unfold State.step
    dsimp only
    split
    next => exact ⟨standing, told⟩
    next event unsent waiting =>
      split
      next =>
        refine ⟨⟨standing.watched, standing.phase⟩,
          told.imp (fun informed => informed.of_subset fun other listed _ => ?_) id⟩
        rw [waiting] at listed
        simpa using listed
      next full =>
        refine ⟨⟨standing.watched, standing.phase⟩, ?_⟩
        rcases told with ⟨word, listed, changes⟩ | current
        · by_cases dropped : ∃ event ∈ state.channel.head?, changesMemberships event = true
          · rcases followed (by rw [waiting]; simp) (by omega) dropped with lists | another
            · right
              unfold Current
              rw [lists]
              trivial
            · obtain ⟨word, behind, changes⟩ := another
              rw [waiting] at behind
              exact .inl ⟨word, by simpa using behind, changes⟩
          · refine .inl ⟨word, ?_, changes⟩
            rw [waiting] at listed
            rcases List.mem_append.mp listed with sent | unsent
            · cases shape : state.channel with
              | nil =>
                rw [shape] at sent
                cases sent
              | cons first rest =>
                rw [shape] at sent
                rcases List.mem_cons.mp sent with rfl | kept
                · exact absurd ⟨word, by rw [shape]; rfl, changes⟩ dropped
                · simp [kept]
            · rcases List.mem_cons.mp unsent with rfl | later
              · simp
              · simp [later]
        · exact .inr current
  | notify id => exact ⟨⟨standing.watched, standing.phase⟩, told⟩
  | tick => exact ⟨⟨standing.watched, standing.phase⟩, told⟩
  | takeNotification =>
    unfold State.step
    dsimp only
    split
    next waits _ =>
      refine ⟨⟨standing.watched, ?_⟩, told⟩
      rw [waits]
      trivial
    next => exact ⟨standing, told⟩
  | takeEvent =>
    unfold State.step
    dsimp only
    split
    next waits =>
      split
      next => exact ⟨⟨standing.watched, standing.phase⟩, told⟩
      next =>
        split
        next => exact ⟨standing, told⟩
        next event channel first =>
          split
          next changes => exact ⟨⟨standing.watched, trivial⟩, .inr trivial⟩
          next quiet =>
            refine ⟨⟨standing.watched, standing.phase⟩,
              told.imp (fun informed => informed.of_subset fun other listed changes => ?_) id⟩
            rw [first] at listed
            rcases List.mem_cons.mp listed with rfl | later
            · exact absurd changes quiet
            · exact later
    next => exact ⟨standing, told⟩
  | wake =>
    unfold State.step
    dsimp only
    split
    next waits =>
      split
      next => exact ⟨standing, told⟩
      next =>
        refine ⟨⟨standing.watched, trivial⟩, told.imp id fun current => ?_⟩
        unfold Current at current
        rw [waits] at current
        exact current
    next => exact ⟨standing, told⟩
  | proceed =>
    have keeps := State.proceed_keeps settled standing
    have same := state.proceed_channel outside
    refine ⟨keeps.1, told.imp (fun informed => informed.of_subset fun event listed _ => ?_) keeps.2⟩
    change event ∈ (state.proceed outside).1.channel ++ (state.proceed outside).1.unsent
    rwa [same.1, same.2]
  | finished tree =>
    have keeps := State.finished_keeps tree standing
    have same := state.finished_channel tree
    refine ⟨keeps.1, told.imp (fun informed => informed.of_subset fun event listed _ => ?_) keeps.2⟩
    change event ∈ (state.finished tree).1.channel ++ (state.finished tree).1.unsent
    rwa [same.1, same.2]
  | shutdown =>
    unfold State.step
    dsimp only
    split
    next => exact ⟨⟨standing.watched, trivial⟩, told.imp id fun _ => trivial⟩
    next => exact ⟨standing, told⟩

/-! ### Notifications -/

/-- The repositories that the current round still has to look at. -/
def Phase.left : Phase → List RepoId
  | .due todo | .passing _ todo => todo
  | _ => []

/-- Whether a first pass over the repository is under way. -/
def Phase.seeds (id : RepoId) : Phase → Prop
  | .seeding other .. => other = id
  | _ => False

/-- A notification for the repository is still to be answered, unless the repository is
not registered. -/
def Awaited (state : State) (id : RepoId) : Prop :=
  id ∈ state.notifications ∨ id ∈ state.pending.map Prod.fst ∨ id ∈ state.phase.left ∨
    (state.watched id = none ∧ ¬ state.phase.seeds id)

theorem mem_remove {pending : List (RepoId × Nat)} {id other : RepoId} (different : id ≠ other)
    (listed : id ∈ pending.map Prod.fst) :
    id ∈ (pending.filter fun entry => entry.1 ≠ other).map Prod.fst := by
  obtain ⟨entry, held, rfl⟩ := List.mem_map.mp listed
  exact List.mem_map.mpr ⟨entry, List.mem_filter.mpr ⟨held, by simpa using different⟩, rfl⟩

/-- What a step does not touch stays to be answered. -/
theorem Awaited.mono {id : RepoId} {after : State} (awaited : Awaited state id)
    (notifications : after.notifications = state.notifications)
    (pending : after.pending = state.pending) (left : id ∈ state.phase.left → id ∈ after.phase.left)
    (gone : state.watched id = none → ¬ state.phase.seeds id →
      after.watched id = none ∧ ¬ after.phase.seeds id) : Awaited after id := by
  rcases awaited with notified | due | here | ⟨missing, unseeded⟩
  · exact .inl (notifications ▸ notified)
  · exact .inr (.inl (pending ▸ due))
  · exact .inr (.inr (.inl (left here)))
  · exact .inr (.inr (.inr (gone missing unseeded)))

/-- The next step of the task leaves a notification, or starts a pass. -/
theorem Awaited.proceed {id : RepoId} (awaited : Awaited state id) :
    Awaited (state.proceed outside).1 id ∨ (state.proceed outside).2 = some (.pass id) := by
  obtain ⟨store, unsent, channel, lagged, notifications, now, pending, watched, phase⟩ := state
  have untouched : ∀ {next : Phase}, (id ∈ phase.left → id ∈ next.left) →
      (¬ phase.seeds id → ¬ next.seeds id) →
      Awaited ⟨store, unsent, channel, lagged, notifications, now, pending, watched, next⟩ id :=
    fun left seeds => awaited.mono rfl rfl left fun missing unseeded => ⟨missing, seeds unseeded⟩
  unfold State.proceed
  match phase, awaited with
  | .listing, _ => exact .inl (untouched (fun here => here) fun unseeded => unseeded)
  | .resolving [] found, awaited =>
    refine .inl (awaited.mono rfl rfl (fun here => here) fun missing unseeded => ⟨?_, unseeded⟩)
    change (watched id).filter _ = none
    rw [show watched id = none from missing]
    rfl
  | .resolving (other :: todo) found, _ =>
    dsimp only
    split <;> exact .inl (untouched (fun here => here) fun unseeded => unseeded)
  | .reconciling [], _ => exact .inl (untouched (fun here => here) fun unseeded => unseeded)
  | .reconciling ((other, path) :: todo), _ =>
    dsimp only
    split
    · exact .inl (untouched (fun here => here) fun unseeded => unseeded)
    · split
      next root _ =>
        by_cases same : other = id
        · exact .inr (by rw [same])
        · exact .inl (untouched (fun here => here) fun _ => same)
      next => exact .inl (untouched (fun here => here) fun unseeded => unseeded)
  | .due [], _ => exact .inl (untouched (fun here => here) fun unseeded => unseeded)
  | .due (other :: todo), awaited =>
    dsimp only
    by_cases same : id = other
    · subst same
      split
      next missing => exact .inl (.inr (.inr (.inr ⟨missing, fun seeds => seeds⟩)))
      next => exact .inr rfl
    · left
      have later : id ∈ other :: todo → id ∈ todo := fun here =>
        (List.mem_cons.mp here).resolve_left same
      rcases awaited with notified | due | here | ⟨missing, -⟩
      · split <;> exact .inl notified
      · split <;> exact .inr (.inl (mem_remove same due))
      · split <;> exact .inr (.inr (.inl (later here)))
      · split
        · exact .inr (.inr (.inr ⟨missing, fun seeds => seeds⟩))
        · refine .inr (.inr (.inr ⟨?_, fun seeds => seeds⟩))
          exact (Function.update_of_ne same _ _).trans missing
  | .waiting, awaited => exact .inl awaited
  | .seeding .., awaited => exact .inl awaited
  | .passing .., awaited => exact .inl awaited
  | .stopped, awaited => exact .inl awaited

/-- The end of a pass leaves a notification to be answered. -/
theorem Awaited.finished {id : RepoId} (awaited : Awaited state id) (tree : Option TreeOid) :
    Awaited (state.finished tree).1 id := by
  obtain ⟨store, unsent, channel, lagged, notifications, now, pending, watched, phase⟩ := state
  unfold State.finished
  match phase, awaited with
  | .seeding other watch todo, awaited =>
    refine awaited.mono rfl rfl (fun here => here) fun missing unseeded => ⟨?_, fun seeds => seeds⟩
    have different : id ≠ other := fun same => unseeded same.symm
    exact (Function.update_of_ne different _ _).trans missing
  | .passing other todo, awaited =>
    dsimp only
    split
    next => exact awaited.mono rfl rfl (fun here => here) fun missing _ => ⟨missing, fun seeds => seeds⟩
    next watch found =>
      refine awaited.mono rfl rfl (fun here => here) fun missing _ => ⟨?_, fun seeds => seeds⟩
      have different : id ≠ other := by
        rintro rfl
        rw [show watched id = none from missing] at found
        cases found
      exact (Function.update_of_ne different _ _).trans missing
  | .listing, awaited => exact awaited
  | .resolving .., awaited => exact awaited
  | .reconciling _, awaited => exact awaited
  | .due _, awaited => exact awaited
  | .waiting, awaited => exact awaited
  | .stopped, awaited => exact awaited

/-- Every step leaves a notification to be answered, or starts a pass that answers it. -/
theorem Awaited.step {id : RepoId} (awaited : Awaited state id) (input : Input) :
    Awaited (state.step outside input).1 id ∨
      (state.step outside input).2 = some (.pass id) := by
  have quiet : ∀ {next : Phase}, state.phase = .waiting → (∀ other, ¬ next.seeds other) →
      Awaited { state with phase := next } id := by
    intro next waits unseeded
    refine awaited.mono rfl rfl (fun here => ?_) fun missing _ => ⟨missing, unseeded id⟩
    rw [waits] at here
    cases here
  cases input with
  | commit new =>
    unfold State.step
    dsimp only
    split <;> exact .inl awaited
  | publish =>
    unfold State.step
    dsimp only
    split
    · exact .inl awaited
    · split <;> exact .inl awaited
  | notify other =>
    rcases awaited with notified | rest
    · exact .inl (.inl (List.mem_append_left _ notified))
    · exact .inl (.inr rest)
  | tick => exact .inl awaited
  | takeNotification =>
    unfold State.step
    dsimp only
    split
    next other rest waits queued =>
      left
      rcases awaited with notified | due | left | gone
      · rw [queued] at notified
        rcases List.mem_cons.mp notified with rfl | later
        · exact .inr (.inl (by simp))
        · exact .inl later
      · right
        left
        rw [List.map_append]
        by_cases same : id = other
        · exact List.mem_append_right _ (by simp [same])
        · exact List.mem_append_left _ (mem_remove same due)
      · exact .inr (.inr (.inl left))
      · exact .inr (.inr (.inr gone))
    next => exact .inl awaited
  | takeEvent =>
    unfold State.step
    dsimp only
    split
    next waits =>
      split
      · exact .inl awaited
      · split
        · exact .inl awaited
        · split
          · exact .inl (quiet waits fun _ seeds => seeds)
          · exact .inl awaited
    next => exact .inl awaited
  | wake =>
    unfold State.step
    dsimp only
    split
    next waits =>
      split
      · exact .inl awaited
      · exact .inl (quiet waits fun _ seeds => seeds)
    next => exact .inl awaited
  | proceed => exact awaited.proceed
  | finished tree => exact .inl (awaited.finished tree)
  | shutdown =>
    unfold State.step
    dsimp only
    split
    next waits => exact .inl (quiet waits fun _ seeds => seeds)
    next => exact .inl awaited

/-- A run leaves a notification to be answered, or has answered it. -/
theorem Awaited.run {id : RepoId} (awaited : Awaited state id) (inputs : List Input) :
    Awaited (state.run outside inputs) id ∨
      ∃ before input, before ++ [input] <+: inputs ∧
        ((state.run outside before).step outside input).2 = some (.pass id) := by
  induction inputs generalizing state with
  | nil => exact .inl awaited
  | cons input inputs ih =>
    rcases awaited.step input with still | answered
    · rcases ih still with later | ⟨before, next, part, answered⟩
      · exact .inl later
      · exact .inr ⟨input :: before, next, List.cons_prefix_cons.mpr ⟨rfl, part⟩, answered⟩
    · exact .inr ⟨[], input, List.cons_prefix_cons.mpr ⟨rfl, List.nil_prefix⟩, answered⟩

end Registrations

/-- The task of a new watcher is on track. -/
theorem tracks_started (outside : Outside) (store : Store) : Tracks outside (.started store) :=
  ⟨⟨fun _ _ found => (nomatch found), trivial⟩, .inr trivial⟩

/-- A task on track that idles has registered exactly what is wanted. -/
theorem Tracks.registered {outside : Outside} {state : State} (tracks : Tracks outside state)
    (idle : state.Idle) : state.Registered outside := by
  rcases tracks.told with ⟨word, listed, -⟩ | current
  · rw [idle.received.1, idle.sent] at listed
    cases listed
  · unfold Current at current
    rw [idle.waits] at current
    exact current

/-- A notification that an idle task has not answered is for a repository that is not
registered. -/
theorem Awaited.unregistered {state : State} {id : RepoId} (awaited : Awaited state id)
    (idle : state.Idle) : state.watched id = none := by
  rcases awaited with notified | due | left | ⟨missing, -⟩
  · rw [idle.notified] at notified
    cases notified
  · rw [idle.done] at due
    cases due
  · rw [idle.waits] at left
    cases left
  · exact missing

theorem State.run_append (outside : Outside) (state : State) (first second : List Input) :
    state.run outside (first ++ second) = (state.run outside first).run outside second :=
  List.foldl_append

/-- A task that idles has registered exactly what is wanted, in every run in which no last
word on memberships is lost. And whatever is lost, every notification for a repository
that is still registered was followed by a pass that started after it. The core validates
what it commits, and a repository opened at its working directory has that directory. -/
theorem watches_follow_memberships {outside : Outside}
    (settled : ∀ path, outside.files.Settled path) (store : Store) (inputs : List Input)
    (commits : Run.Steps (fun state input => (State.step outside state input).1) Commits
      (.started store) inputs) :
    (Run.Steps (fun state input => (State.step outside state input).1) Followed
        (.started store) inputs →
      ∀ early, early <+: inputs → ((State.started store).run outside early).Idle →
        ((State.started store).run outside early).Registered outside) ∧
      ∀ early id late, early ++ [.notify id] ++ late <+: inputs →
        ((State.started store).run outside (early ++ [.notify id] ++ late)).Idle →
        (((State.started store).run outside (early ++ [.notify id] ++ late)).watched id).isSome →
        ∃ before input, before ++ [input] <+: late ∧
          (((State.started store).run outside (early ++ [.notify id] ++ before)).step
            outside input).2 = some (.pass id) := by
  constructor
  · intro followed early part idle
    have both : Run.Steps (fun state input => (State.step outside state input).1)
        (fun state input => Commits state input ∧ Followed state input) (.started store) early :=
      fun before input shorter =>
        ⟨commits before input (shorter.trans part), followed before input (shorter.trans part)⟩
    have tracks : Tracks outside ((State.started store).run outside early) :=
      Run.steps_keep _ (fun _ _ tracks met => tracks.step settled met.1 met.2)
        (tracks_started outside store) both
    exact tracks.registered idle
  · intro early id late _ idle registered
    have notified : Awaited ((State.started store).run outside (early ++ [.notify id])) id := by
      rw [State.run_append]
      exact .inl (List.mem_append_right _ (List.mem_singleton_self id))
    rw [State.run_append] at idle registered
    rcases @Awaited.run outside _ id notified late with still | ⟨before, input, part, answered⟩
    · rw [still.unregistered idle] at registered
      cases registered
    · refine ⟨before, input, part, ?_⟩
      rw [State.run_append]
      exact answered

/-! ### An attach event dropped during a pass -/

section Lag

/-- Every path is a checkout, and every directory can be watched. -/
def plainly : Outside where
  files := {
    canonicalize := fun path => .ok path
    gitRoot := fun path => .ok (some path)
    openRepo := fun checkout => .ok ⟨checkout⟩
    canonical := canonical_of_ok }
  watchable _ := true
  order := List.reverse
  permutes := List.reverse_perm

theorem plainly_settled (path : String) : plainly.files.Settled path := by
  rintro checkout ⟨⟩
  rfl

def committing (body : EventBody) : NewEvent := ⟨0, .human "ada" "laptop", ⟨0⟩, 0, body⟩

/-- A repository is attached and registered. -/
def registering : List Input :=
  [.proceed, .proceed, .proceed,
    .commit (committing (.workspaceCreated ⟨⟨1⟩, "notes", []⟩)), .publish,
    .commit (committing (.repoAttached ⟨1⟩ ⟨⟨2⟩, "/repo", "repo"⟩)), .publish,
    .takeEvent, .takeEvent, .proceed, .proceed, .proceed, .proceed, .finished none, .proceed]

/-- A change in it is answered once it is quiet. -/
def answering : List Input :=
  .takeNotification :: List.replicate DEBOUNCE .tick ++ [.wake, .proceed, .finished none, .proceed]

/-- A repository is registered. -/
theorem watches_follow_registering :
    (State.run plainly (.started .empty) (registering ++ [.notify ⟨2⟩] ++ answering)).Registered
        plainly ∧
      ∃ before input, before ++ [input] <+: answering ∧
        ((State.run plainly (.started .empty) (registering ++ [.notify ⟨2⟩] ++ before)).step plainly
          input).2 = some (.pass ⟨2⟩) := by
  have harmless : ∀ input ∈ Input.notify ⟨2⟩ :: answering, ∀ state,
      Commits state input ∧ Followed state input := by
    intro input listed state
    simp only [answering, List.mem_append, List.mem_cons, List.mem_replicate, List.not_mem_nil,
      or_false] at listed
    rcases listed with rfl | (rfl | ⟨_, rfl⟩) | rfl | rfl | rfl | rfl <;> exact ⟨trivial, trivial⟩
  have steps : Run.Steps (fun state input => (State.step plainly state input).1)
      (fun state input => Commits state input ∧ Followed state input) (.started .empty)
      (registering ++ [.notify ⟨2⟩] ++ answering) := by
    rw [List.append_assoc]
    refine (Run.steps_append _).mpr ⟨?_, Run.steps_of_forall _ harmless⟩
    unfold registering
    iterate 15 (refine (Run.steps_cons _).mpr (And.intro ?_ ?_); swap)
    all_goals first
      | exact Run.steps_nil _
      | exact ⟨trivial, trivial⟩
      | exact ⟨⟨rfl, rfl⟩, trivial⟩
      | exact ⟨trivial, fun _ full => absurd full (by decide)⟩
  have idle : (State.run plainly (.started .empty)
      (registering ++ [.notify ⟨2⟩] ++ answering)).Idle := by
    constructor <;> decide +kernel
  have follows := watches_follow_memberships plainly_settled .empty
    (registering ++ [.notify ⟨2⟩] ++ answering)
    (fun early input part => (steps early input part).1)
  refine ⟨follows.1 (fun early input part => (steps early input part).2) _ List.prefix_rfl idle, ?_⟩
  exact follows.2 registering ⟨2⟩ answering List.prefix_rfl idle (by decide +kernel)

/-- An event that is no attach or detach, and always applies. -/
def unviewed : NewEvent :=
  committing (.fileUnviewed ⟨3⟩ ⟨2⟩ ⟨"a", RepoPath.valid_a⟩ ⟨"ada", "laptop"⟩)

/-- Nothing but the log and the channel changes, and everything committed is sent. -/
structure Flooded (before after : State) : Prop where
  phase : after.phase = before.phase
  watched : after.watched = before.watched
  pending : after.pending = before.pending
  notifications : after.notifications = before.notifications
  sent : after.unsent = []
  short : before.channel.length ≤ EVENT_BACKLOG → after.channel.length ≤ EVENT_BACKLOG
  checkouts : ∀ files id, repoCheckoutPath files after.store id =
    repoCheckoutPath files before.store id

theorem Flooded.trans {first second third : State} (left : Flooded first second)
    (right : Flooded second third) : Flooded first third where
  phase := right.phase.trans left.phase
  watched := right.watched.trans left.watched
  pending := right.pending.trans left.pending
  notifications := right.notifications.trans left.notifications
  sent := right.sent
  short few := right.short (left.short few)
  checkouts files id := (right.checkouts files id).trans (left.checkouts files id)

/-- The channel's older part is gone after that many more events. -/
def Outlived (rounds : Nat) (state : State) : Prop :=
  ∃ older newer, state.channel = older ++ newer ∧
    (∀ event ∈ newer, changesMemberships event = false) ∧
    older.length + (EVENT_BACKLOG - state.channel.length) ≤ rounds

variable {outside : Outside}

theorem step_commit {state : State} {new : NewEvent} {event : Event} {store : Store}
    (appended : state.store.append new = .ok (event, store)) :
    (state.step outside (.commit new)).1 =
      { state with store, unsent := state.unsent ++ [event] } := by
  unfold State.step
  dsimp only
  rw [appended]

theorem step_publish {state : State} {event : Event} {unsent : List Event}
    (waiting : state.unsent = event :: unsent) : (state.step outside .publish).1 =
      if state.channel.length < EVENT_BACKLOG then
        { state with unsent, channel := state.channel ++ [event] }
      else { state with unsent, channel := state.channel.tail ++ [event], lagged := true } := by
  unfold State.step
  dsimp only
  rw [waiting]
  dsimp only
  split <;> rfl

theorem append_unviewed (store : Store) : ∃ event after, store.append unviewed = .ok (event, after) ∧
    changesMemberships event = false :=
  ⟨_, _, rfl, rfl⟩

/-- Committing and sending one more event pushes the older part out. -/
theorem flood_round {state : State} (sent : state.unsent = []) {rounds : Nat}
    (outlived : Outlived (rounds + 1) state) :
    Flooded state (state.run plainly [.commit unviewed, .publish]) ∧
      Outlived rounds (state.run plainly [.commit unviewed, .publish]) := by
  obtain ⟨event, store, appended, quiet⟩ := append_unviewed state.store
  obtain ⟨older, newer, shape, quietNewer, few⟩ := outlived
  have same := has_of_append (show Validated state.store unviewed from trivial) appended quiet
  have checkouts : ∀ files id, repoCheckoutPath files store id =
      repoCheckoutPath files state.store id := fun files id => repoCheckoutPath_congr same id
  have later : ∀ other ∈ newer ++ [event], changesMemberships other = false := by
    intro other listed
    rcases List.mem_append.mp listed with before | last
    · exact quietNewer other before
    · rw [List.mem_singleton.mp last]
      exact quiet
  unfold State.run
  rw [List.foldl_cons, List.foldl_cons, List.foldl_nil, step_commit appended,
    step_publish (by rw [sent]; rfl)]
  dsimp only
  rw [shape] at few ⊢
  split
  next room =>
    refine ⟨⟨rfl, rfl, rfl, rfl, rfl, fun _ => ?_, checkouts⟩, older, newer ++ [event], by simp,
      later, ?_⟩
    · rw [List.length_append, List.length_singleton]
      exact room
    simp only [List.length_append, List.length_singleton] at few room ⊢
    omega
  next full =>
    refine ⟨⟨rfl, rfl, rfl, rfl, rfl, fun few => ?_, checkouts⟩, ?_⟩
    · simp only [shape, List.length_append, List.length_tail, List.length_singleton] at few full ⊢
      have positive : 0 < EVENT_BACKLOG := by decide
      omega
    cases older with
    | nil =>
      refine ⟨[], newer.tail ++ [event], rfl, ?_, ?_⟩
      · intro other listed
        refine later other (List.mem_append.mpr ?_)
        exact (List.mem_append.mp listed).imp List.mem_of_mem_tail id
      · simp only [List.nil_append, List.length_append, List.length_tail, List.length_singleton,
          List.length_nil] at few full ⊢
        have positive : 0 < EVENT_BACKLOG := by decide
        omega
    | cons first rest =>
      refine ⟨rest, newer ++ [event], by simp, later, ?_⟩
      simp only [List.cons_append, List.tail_cons, List.length_append, List.length_cons]
        at few full ⊢
      omega

/-- Enough rounds push the older part out. -/
theorem flood {rounds : Nat} {state : State} (sent : state.unsent = [])
    (outlived : Outlived rounds state) :
    let flooded := state.run plainly (List.replicate rounds [.commit unviewed, .publish]).flatten
    Flooded state flooded ∧ ∀ event ∈ flooded.channel, changesMemberships event = false := by
  induction rounds generalizing state with
  | zero =>
    obtain ⟨older, newer, shape, quiet, few⟩ := outlived
    obtain rfl : older = [] := List.eq_nil_of_length_eq_zero (by omega)
    refine ⟨⟨rfl, rfl, rfl, rfl, sent, id, fun _ _ => rfl⟩, ?_⟩
    change ∀ event ∈ state.channel, _
    rw [shape]
    exact quiet
  | succ rounds ih =>
    obtain ⟨first, still⟩ := flood_round sent outlived
    rw [List.replicate_succ, List.flatten_cons, State.run_append]
    have rest := ih first.sent still
    exact ⟨first.trans rest.1, rest.2⟩

/-- Where a waiting task takes something that is no attach or detach event, it goes on
waiting, with what is left in the channel. -/
theorem step_takeEvent {state : State} (waits : state.phase = .waiting)
    (quiet : ∀ event ∈ state.channel, changesMemberships event = false) :
    (state.step outside .takeEvent).1 =
      if state.lagged then { state with lagged := false }
      else { state with channel := state.channel.tail } := by
  unfold State.step
  dsimp only
  rw [waits]
  dsimp only
  split
  · rfl
  · cases shape : state.channel with
    | nil =>
      change state = { state with channel := [], phase := .waiting }
      rw [← waits, ← shape]
    | cons event channel =>
      have untouched : changesMemberships event = false :=
        quiet event (by rw [shape]; exact List.mem_cons_self)
      dsimp only
      rw [untouched, List.tail_cons]
      rfl

/-- A waiting task takes what is no attach or detach event without doing anything. -/
theorem drain {count : Nat} {state : State} (waits : state.phase = .waiting)
    (quiet : ∀ event ∈ state.channel, changesMemberships event = false)
    (few : state.channel.length + (if state.lagged then 1 else 0) ≤ count) :
    state.run outside (List.replicate count .takeEvent) =
      { state with channel := [], lagged := false } := by
  induction count generalizing state with
  | zero =>
    have empty : state.channel = [] := List.eq_nil_of_length_eq_zero (by omega)
    have current : state.lagged = false := by
      by_contra lagged
      rw [if_pos (by simpa using lagged)] at few
      omega
    change state = _
    rw [← empty, ← current]
  | succ count ih =>
    rw [List.replicate_succ]
    change State.run outside (state.step outside .takeEvent).1 _ = _
    rw [step_takeEvent waits quiet]
    split
    next lagged =>
      rw [if_pos lagged] at few
      exact @ih { state with lagged := false } waits quiet (by simpa using few)
    next current =>
      rw [if_neg current] at few
      refine @ih { state with channel := state.channel.tail } waits
        (fun event listed => quiet event (List.mem_of_mem_tail listed)) ?_
      rw [if_neg current]
      change state.channel.tail.length + 0 ≤ count
      rw [List.length_tail]
      omega

/-- A workspace is created and a repository attached to it. -/
def attaching : List Input :=
  [.proceed,
    .commit (committing (.workspaceCreated ⟨⟨1⟩, "notes", []⟩)), .publish,
    .commit (committing (.repoAttached ⟨1⟩ ⟨⟨2⟩, "/repo", "repo"⟩)), .publish]

/-- The task is looking up checkouts, and both events wait in its channel. -/
theorem attaching_reaches :
    let attached := State.run plainly (.started .empty) attaching
    attached.phase = .resolving [] [] ∧ attached.unsent = [] ∧ attached.channel.length = 2 ∧
      attached.notifications = [] ∧ attached.pending = [] ∧
      repoCheckoutPath plainly.files attached.store ⟨2⟩ = some "/repo" := by
  decide +kernel

theorem attaching_watches : (State.run plainly (.started .empty) attaching).watched = fun _ => none :=
  rfl

/-- While the task looks up checkouts a repository is attached, and so much follows that
the channel drops the event. -/
def burst : List Input :=
  attaching ++ ((List.replicate EVENT_BACKLOG [Input.commit unviewed, .publish]).flatten ++
    [.proceed, .proceed] ++ List.replicate (EVENT_BACKLOG + 1) .takeEvent)

theorem burst_commits :
    Run.Steps (fun state input => (State.step plainly state input).1) Commits (.started .empty)
      burst := by
  have creating : Run.Steps (fun state input => (State.step plainly state input).1) Commits
      (.started .empty) attaching :=
    (Run.steps_cons _).mpr ⟨trivial, (Run.steps_cons _).mpr ⟨⟨rfl, rfl⟩,
      Run.steps_of_forall _ (by
        intro input listed state
        simp only [List.mem_cons, List.not_mem_nil, or_false] at listed
        rcases listed with rfl | rfl | rfl <;> trivial)⟩⟩
  refine (Run.steps_append _).mpr ⟨creating, Run.steps_of_forall _ ?_⟩
  intro input listed state
  rcases List.mem_append.mp listed with filling | taking
  · rcases List.mem_append.mp filling with round | proceeding
    · obtain ⟨_, repeated, mem⟩ := List.mem_flatten.mp round
      rw [List.eq_of_mem_replicate repeated] at mem
      simp only [List.mem_cons, List.not_mem_nil, or_false] at mem
      rcases mem with rfl | rfl <;> trivial
    · simp only [List.mem_cons, List.not_mem_nil, or_false, or_self] at proceeding
      rw [proceeding]
      trivial
  · rw [List.eq_of_mem_replicate taking]
    trivial

/-- A task that watches nothing, and was about to find nothing to watch, has nothing to do
once it took everything that followed. -/
theorem flood_idles {early : State} {rounds count : Nat} (resolving : early.phase = .resolving [] [])
    (unwatched : early.watched = fun _ => none) (sent : early.unsent = [])
    (notified : early.notifications = []) (done : early.pending = [])
    (few : early.channel.length ≤ EVENT_BACKLOG) (outlived : Outlived rounds early)
    (enough : EVENT_BACKLOG + 1 ≤ count) :
    let late := early.run plainly
      ((List.replicate rounds [Input.commit unviewed, .publish]).flatten ++
        [.proceed, .proceed] ++ List.replicate count .takeEvent)
    late.Idle ∧ late.watched = (fun _ => none) ∧
      repoCheckoutPath plainly.files late.store ⟨2⟩ =
        repoCheckoutPath plainly.files early.store ⟨2⟩ := by
  intro late
  obtain ⟨flooded, quiet⟩ := flood sent outlived
  generalize full : early.run plainly
    (List.replicate rounds [Input.commit unviewed, .publish]).flatten = filled at *
  have short : filled.channel.length ≤ EVENT_BACKLOG := flooded.short few
  have phase : filled.phase = .resolving [] [] := flooded.phase.trans resolving
  have still : filled.watched = fun _ => none := flooded.watched.trans unwatched
  -- Nothing is found, so nothing is left to register, and the task waits again.
  have waits : filled.run plainly [.proceed, .proceed] = { filled with phase := .waiting } := by
    have kept : retain filled.watched [] = filled.watched := by
      rw [still]
      rfl
    have nothing : plainly.order ([] : List (RepoId × String)) = [] := rfl
    unfold State.run
    simp only [List.foldl_cons, List.foldl_nil, State.step, State.proceed, phase, kept, nothing]
  have reaches : late = { filled with phase := .waiting, channel := [], lagged := false } := by
    unfold late
    rw [State.run_append, State.run_append, full, waits]
    refine drain rfl quiet ?_
    change filled.channel.length + (if filled.lagged then 1 else 0) ≤ count
    split <;> omega
  rw [reaches]
  refine ⟨⟨rfl, flooded.sent, ⟨rfl, rfl⟩, ?_, ?_⟩, still, ?_⟩
  · exact flooded.notifications.trans notified
  · exact flooded.pending.trans done
  · exact flooded.checkouts plainly.files ⟨2⟩

/-- After the burst the task idles, and nothing watches the repository that is attached. -/
theorem attachment_lost :
    ∃ inputs, Run.Steps (fun state input => (State.step plainly state input).1) Commits
        (.started .empty) inputs ∧
      (State.run plainly (.started .empty) inputs).Idle ∧
      ¬ (State.run plainly (.started .empty) inputs).Registered plainly := by
  obtain ⟨resolving, sent, two, notified, done, bound⟩ := attaching_reaches
  have outlived : Outlived EVENT_BACKLOG (State.run plainly (.started .empty) attaching) :=
    ⟨_, [], (List.append_nil _).symm, by simp, by rw [two]; decide⟩
  obtain ⟨idle, unwatched, kept⟩ := flood_idles resolving attaching_watches sent notified done
    (by rw [two]; decide) outlived (Nat.le_refl _)
  rw [← State.run_append] at idle unwatched kept
  refine ⟨burst, burst_commits, idle, fun registered => ?_⟩
  have watching := registered ⟨2⟩
  unfold burst at watching
  rw [unwatched, wanted, kept, bound] at watching
  cases watching

end Lag

end Nits.Nitsd.Watcher
