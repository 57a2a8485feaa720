import Nits.ReviewCore.Registry

/-!
# Memberships over a fixed file system

While paths lead where they led, a repository id identifies one checkout. Its
memberships name that checkout, no workspace names a checkout or an id twice, and a
cached repository is the one its memberships name.
-/

namespace Nits.ReviewCore

open Logical Protocol

/-! ## File systems -/

/-- Where every path is canonical, a path leads to itself. -/
theorem canonical_of_ok {path target : String}
    (_ : (.ok path : Except ExternalError String) = .ok target) :
    (.ok target : Except ExternalError String) = .ok target :=
  rfl

/-- A fixed file system: where paths lead, where a directory's git root is, and which
repositories open. -/
structure FileSystem where
  canonicalize : String → Except ExternalError String
  gitRoot : String → Except ExternalError (Option String)
  openRepo : String → Except ExternalError GitRepo
  /-- A canonical path leads to itself. -/
  canonical : ∀ {path target}, canonicalize path = .ok target →
    canonicalize target = .ok target

namespace FileSystem

variable {files : FileSystem} {path checkout : String}

/-- The canonical working directory of the repository at a path. -/
def resolveCheckout (files : FileSystem) (path : String) : Except ExternalError String := do
  let path ← files.canonicalize path
  let git ← files.openRepo path
  files.canonicalize git.workdir

/-- The repository at a path, opened at its checkout. -/
def opened (files : FileSystem) (path : String) : Except ExternalError OpenedRepo := do
  let checkout ← files.resolveCheckout path
  let git ← files.openRepo checkout
  pure ⟨checkout, git⟩

/-- The checkout at the path is its own checkout. -/
def Settled (files : FileSystem) (path : String) : Prop :=
  ∀ checkout, files.resolveCheckout path = .ok checkout →
    files.resolveCheckout checkout = .ok checkout

/-- Whatever is asked of paths in this course of events is answered from the files. -/
structure Answers (files : FileSystem) (env : Environment) : Prop where
  canonicalize : ∀ number path,
    env.answer number (.canonicalize path) = files.canonicalize path
  gitRoot : ∀ number path, env.answer number (.gitRoot path) = files.gitRoot path
  resolveCheckout : ∀ number path,
    env.answer number (.resolveCheckout path) = files.resolveCheckout path
  openRepo : ∀ number checkout,
    env.answer number (.openRepo checkout) = files.openRepo checkout

theorem resolveCheckout_eq_ok : files.resolveCheckout path = .ok checkout ↔
    ∃ canonical git, files.canonicalize path = .ok canonical ∧
      files.openRepo canonical = .ok git ∧ files.canonicalize git.workdir = .ok checkout := by
  unfold resolveCheckout
  constructor
  · intro resolved
    obtain ⟨canonical, at_, rest⟩ := bind_eq_ok.mp resolved
    obtain ⟨git, opens, last⟩ := bind_eq_ok.mp rest
    exact ⟨canonical, git, at_, opens, last⟩
  · rintro ⟨canonical, git, at_, opens, last⟩
    rw [at_, ok_bind, opens, ok_bind, last]

theorem opened_eq_ok {repo : OpenedRepo} : files.opened path = .ok repo ↔
    files.resolveCheckout path = .ok repo.checkout ∧
      files.openRepo repo.checkout = .ok repo.git := by
  unfold opened
  constructor
  · intro run
    obtain ⟨checkout, resolved, rest⟩ := bind_eq_ok.mp run
    obtain ⟨git, opens, made⟩ := bind_eq_ok.mp rest
    cases made
    exact ⟨resolved, opens⟩
  · rintro ⟨resolved, opens⟩
    rw [resolved, ok_bind, opens]
    rfl

/-- A checkout leads to itself. -/
theorem canonicalize_checkout (resolved : files.resolveCheckout path = .ok checkout) :
    files.canonicalize checkout = .ok checkout := by
  obtain ⟨_, _, _, _, last⟩ := resolveCheckout_eq_ok.mp resolved
  exact files.canonical last

/-- What opens at a settled path opens the same way at its checkout. -/
theorem Settled.opened {repo : OpenedRepo} (settled : files.Settled path)
    (opens : files.opened path = .ok repo) : files.opened repo.checkout = .ok repo := by
  obtain ⟨resolved, git⟩ := opened_eq_ok.mp opens
  exact opened_eq_ok.mpr ⟨settled repo.checkout resolved, git⟩

end FileSystem

/-! ## Memberships -/

/-- A workspace of the store has the repository. -/
def Store.Member (store : Store) (workspaceId : WorkspaceId) (repo : Repo) : Prop :=
  ∃ workspace, store.views.workspaces[workspaceId]? = some workspace ∧ repo ∈ workspace.repos

/-- A membership of the id names a checkout that opens as this repository. -/
def FileSystem.Identifies (files : FileSystem) (store : Store) (id : RepoId)
    (opened : OpenedRepo) : Prop :=
  ∃ workspaceId repo, store.Member workspaceId repo ∧ repo.id = id ∧
    files.opened repo.path = .ok opened

/-- Repository ids are stable: they identify the checkouts their memberships name. -/
structure FileSystem.Placed (files : FileSystem) (core : Core) : Prop where
  /-- A membership names a checkout, which opens. -/
  opens : ∀ {workspaceId repo}, core.store.Member workspaceId repo →
    ∃ opened, files.opened repo.path = .ok opened ∧ opened.checkout = repo.path
  /-- All memberships of an id name one checkout. -/
  agree : ∀ {workspaceId repo workspaceId' repo'}, core.store.Member workspaceId repo →
    core.store.Member workspaceId' repo' → repo.id = repo'.id → repo.path = repo'.path
  /-- No workspace names an id or a checkout twice. -/
  apart : ∀ {workspaceId : WorkspaceId} {workspace : Workspace},
    core.store.views.workspaces[workspaceId]? = some workspace →
    (workspace.repos.map Repo.id).Nodup ∧ (workspace.repos.map Repo.path).Nodup
  /-- A cached repository is the one that the memberships of its id name. -/
  cached : ∀ {id opened}, core.repositories[id]? = some opened →
    files.Identifies core.store id opened

section Placing

variable {files : FileSystem} {core last : Core}

theorem Store.Member.congr {before after : Store} {workspaceId : WorkspaceId} {repo : Repo}
    (kept : after.views.workspaces = before.views.workspaces) :
    after.Member workspaceId repo ↔ before.Member workspaceId repo := by
  unfold Store.Member
  rw [kept]

theorem FileSystem.Identifies.congr {before after : Store} {id : RepoId} {opened : OpenedRepo}
    (kept : after.views.workspaces = before.views.workspaces) :
    files.Identifies after id opened ↔ files.Identifies before id opened := by
  unfold FileSystem.Identifies
  simp only [Store.Member.congr kept]

/-- What is identified is the checkout of every membership. -/
theorem FileSystem.Placed.checkout (placed : files.Placed core) {id : RepoId} {opened : OpenedRepo}
    (identifies : files.Identifies core.store id opened) {workspaceId : WorkspaceId} {repo : Repo}
    (mem : core.store.Member workspaceId repo) (same : repo.id = id) :
    opened.checkout = repo.path := by
  obtain ⟨_, other, stored, identified, opens⟩ := identifies
  obtain ⟨found, again, path⟩ := placed.opens stored
  rw [opens] at again
  rw [Except.ok.inj again, path]
  exact placed.agree stored mem (identified.trans same.symm)

theorem FileSystem.Placed.identifies_eq (placed : files.Placed core) {id : RepoId}
    {first second : OpenedRepo} (left : files.Identifies core.store id first)
    (right : files.Identifies core.store id second) : first.checkout = second.checkout := by
  obtain ⟨workspaceId, repo, mem, same, opens⟩ := right
  rw [placed.checkout left mem same]
  exact (placed.checkout ⟨workspaceId, repo, mem, same, opens⟩ mem same).symm

/-- Stable ids do not depend on anything but the workspaces and the registry. -/
theorem FileSystem.Placed.congr (placed : files.Placed core)
    (kept : last.store.views.workspaces = core.store.views.workspaces)
    (cached : ∀ {id opened}, last.repositories[id]? = some opened →
      files.Identifies core.store id opened) : files.Placed last where
  opens mem := placed.opens ((Store.Member.congr kept).mp mem)
  agree left right :=
    placed.agree ((Store.Member.congr kept).mp left) ((Store.Member.congr kept).mp right)
  apart stored := placed.apart (by rwa [kept] at stored)
  cached found := (FileSystem.Identifies.congr kept).mpr (cached found)

/-- Ids stay stable when memberships are only dropped. -/
theorem FileSystem.Placed.shrink (placed : files.Placed core)
    (dropped : ∀ {workspaceId : WorkspaceId} {workspace : Workspace},
      last.store.views.workspaces[workspaceId]? = some workspace → workspace.repos = [] ∨
        ∃ before, core.store.views.workspaces[workspaceId]? = some before ∧
          workspace.repos.Sublist before.repos)
    (cached : ∀ {id opened}, last.repositories[id]? = some opened →
      files.Identifies last.store id opened) : files.Placed last := by
  have mem {workspaceId : WorkspaceId} {repo : Repo}
      (held : last.store.Member workspaceId repo) : core.store.Member workspaceId repo := by
    obtain ⟨workspace, stored, listed⟩ := held
    rcases dropped stored with none | ⟨before, found, fewer⟩
    · rw [none] at listed
      cases listed
    · exact ⟨before, found, fewer.subset listed⟩
  refine ⟨fun held => placed.opens (mem held), ?_, fun stored => ?_, cached⟩
  · exact fun left right => placed.agree (mem left) (mem right)
  · rcases dropped stored with none | ⟨before, found, fewer⟩
    · simp [none]
    · exact ⟨(fewer.map Repo.id).nodup (placed.apart found).1,
        (fewer.map Repo.path).nodup (placed.apart found).2⟩

/-- What was checked before a repository joins a workspace. -/
structure FileSystem.Attaches (files : FileSystem) (core : Core) (workspace : Workspace)
    (repo : Repo) (opened : OpenedRepo) : Prop where
  opens : files.opened repo.path = .ok opened
  path : opened.checkout = repo.path
  /-- Every other membership of the id names the same checkout. -/
  owned : ∀ {workspaceId mem}, core.store.Member workspaceId mem → mem.id = repo.id →
    mem.path = repo.path
  unattached : ∀ mem ∈ workspace.repos, mem.id ≠ repo.id
  unshared : ∀ mem ∈ workspace.repos, mem.path ≠ repo.path

/-- Ids stay stable when a repository joins a workspace whose checks passed. -/
theorem FileSystem.Placed.attach (placed : files.Placed core) {workspaceId : WorkspaceId}
    {workspace : Workspace} {repo : Repo} {opened : OpenedRepo}
    (stored : core.store.views.workspaces[workspaceId]? = some workspace)
    (attaches : files.Attaches core workspace repo opened)
    (joined : ∀ id, last.store.views.workspaces[id]? =
      if workspaceId = id then some { workspace with repos := workspace.repos ++ [repo] }
      else core.store.views.workspaces[id]?)
    (cached : ∀ {id found}, last.repositories[id]? = some found →
      files.Identifies core.store id found ∨ id = repo.id ∧ found = opened) :
    files.Placed last := by
  have mem {id : WorkspaceId} {other : Repo} : last.store.Member id other ↔
      core.store.Member id other ∨ workspaceId = id ∧ other = repo := by
    unfold Store.Member
    rw [joined id]
    by_cases same : workspaceId = id
    · subst same
      simp [stored]
    · simp [same]
  constructor
  · intro id other held
    rcases mem.mp held with before | ⟨_, rfl⟩
    · exact placed.opens before
    · exact ⟨opened, attaches.opens, attaches.path⟩
  · intro id left id' right held held' same
    rcases mem.mp held with before | ⟨_, rfl⟩
    · rcases mem.mp held' with before' | ⟨_, rfl⟩
      · exact placed.agree before before' same
      · exact attaches.owned before same
    · rcases mem.mp held' with before' | ⟨_, rfl⟩
      · exact (attaches.owned before' same.symm).symm
      · rfl
  · intro id found present
    rw [joined id] at present
    split at present
    · obtain ⟨ids, paths⟩ := placed.apart stored
      rw [← Option.some.inj present, List.map_append, List.map_append]
      constructor
      · refine ids.append (List.nodup_singleton _) (List.disjoint_singleton.mpr ?_)
        simpa using attaches.unattached
      · refine paths.append (List.nodup_singleton _) (List.disjoint_singleton.mpr ?_)
        simpa using attaches.unshared
    · exact placed.apart present
  · intro id found present
    rcases cached present with ⟨other, before, held, same, opens⟩ | ⟨rfl, rfl⟩
    · exact ⟨other, before, mem.mpr (.inl held), same, opens⟩
    · exact ⟨workspaceId, repo, mem.mpr (.inr ⟨rfl, rfl⟩), rfl, attaches.opens⟩

end Placing

namespace Core

variable {env : Environment} {files : FileSystem} {core last : Core}

theorem mem_memberships {store : Store} {id : RepoId} {repo : Repo} :
    (∃ owner, (owner, repo) ∈ memberships store id) ↔
      (∃ workspaceId, store.Member workspaceId repo) ∧ repo.id = id := by
  unfold memberships Store.workspaces Store.Member
  simp only [List.mem_flatMap, List.mem_map, List.mem_filter, decide_eq_true_eq, Prod.mk.injEq]
  constructor
  · rintro ⟨owner, workspace, ⟨⟨key, _⟩, stored, rfl⟩, mem, ⟨held, same⟩, rfl, rfl⟩
    exact ⟨⟨key, _, Std.ExtTreeMap.mem_toList_iff_getElem?_eq_some.mp stored, held⟩, same⟩
  · rintro ⟨⟨key, workspace, stored, held⟩, same⟩
    exact ⟨workspace.id, workspace,
      ⟨(key, workspace), Std.ExtTreeMap.mem_toList_iff_getElem?_eq_some.mpr stored, rfl⟩, repo,
      ⟨held, same⟩, rfl, rfl⟩

/-- The store and the registry are untouched. -/
structure Idles (before after : Core) : Prop where
  store : after.store = before.store
  repositories : after.repositories = before.repositories

theorem Idles.trans {middle : Core} (first : Idles core middle) (second : Idles middle last) :
    Idles core last :=
  ⟨second.store.trans first.store, second.repositories.trans first.repositories⟩

theorem Idles.placed (idles : Idles core last) (placed : files.Placed core) : files.Placed last :=
  placed.congr (by rw [idles.store]) fun found => placed.cached (by rwa [idles.repositories] at found)

theorem ends_ask {call : Call} {returned : Except ExternalError call.Answer → Core → Prop}
    {stopped : CoreError → Core → Prop} : (ask call).Ends env core returned stopped ↔
      returned (env.answer core.calls call) { core with calls := core.calls + 1 } :=
  Iff.rfl

theorem ends_openRepo (answers : files.Answers env) {path : String} : (openRepo path).Ends env core
      (fun opened last => Idles core last ∧ files.opened path = .ok opened)
      (fun _ last => Idles core last ∧ ∃ error, files.opened path = .error error) := by
  unfold openRepo
  rw [Program.ends_bind, ends_outside]
  constructor
  · intro checkout resolved
    rw [answers.resolveCheckout] at resolved
    rw [Program.ends_bind, ends_outside]
    constructor
    · intro git opens
      rw [answers.openRepo] at opens
      exact ⟨⟨rfl, rfl⟩, FileSystem.opened_eq_ok.mpr ⟨resolved, opens⟩⟩
    · intro error fails
      rw [answers.openRepo] at fails
      refine ⟨⟨rfl, rfl⟩, error, ?_⟩
      rw [FileSystem.opened, resolved, ok_bind, fails]
      rfl
  · intro error fails
    rw [answers.resolveCheckout] at fails
    refine ⟨⟨rfl, rfl⟩, error, ?_⟩
    rw [FileSystem.opened, fails]
    rfl

/-- Under stable ids the repository of a membership always opens. -/
theorem ends_openMember (answers : files.Answers env) (placed : files.Placed core)
    {id : RepoId} {owner workspaceId : WorkspaceId} {mem : Repo}
    (held : core.store.Member workspaceId mem) (same : mem.id = id) :
    (openMember id owner mem).Ends env core
      (fun opened last => Idles core last ∧ files.opened mem.path = .ok opened)
      (fun _ _ => False) := by
  obtain ⟨repo, opens, path⟩ := placed.opens held
  have canonical : files.canonicalize mem.path = .ok mem.path := by
    have resolved := (FileSystem.opened_eq_ok.mp opens).1
    rw [path] at resolved
    exact files.canonicalize_checkout resolved
  have asked {number : Nat} :
      env.answer number (.canonicalize mem.path) = .ok mem.path :=
    (answers.canonicalize number mem.path).trans canonical
  unfold openMember memberPath
  rw [Program.ends_bind, Program.ends_bind]
  refine ends_ask.mpr ?_
  rw [asked]
  dsimp only
  rw [Program.ends_pure, Program.ends_bind, Program.ends_read]
  dsimp only
  split
  · next cached found =>
    obtain ⟨stored, _⟩ := Option.filter_eq_some_iff.mp found
    obtain ⟨_, other, again, identified, opens⟩ := placed.cached stored
    refine ⟨⟨rfl, rfl⟩, ?_⟩
    rw [placed.agree held again (same.trans identified.symm)]
    exact opens
  · rw [Program.ends_bind, Program.ends_attempt]
    refine (ends_openRepo answers).imp (fun opened last opens => ?_) ?_
    · exact ⟨⟨opens.1.store, opens.1.repositories⟩, opens.2⟩
    · rintro error _ ⟨_, fails, failed⟩
      rw [opens] at failed
      cases failed

/-- Under stable ids a lookup never fails: it finds what a membership of the id names. -/
theorem ends_boundRepo (answers : files.Answers env) (placed : files.Placed core)
    {id : RepoId} :
    (boundRepo id).Ends env core
      (fun bound last => Idles core last ∧ match bound with
        | none => ∀ workspaceId repo, core.store.Member workspaceId repo → repo.id ≠ id
        | some opened => files.Identifies core.store id opened)
      (fun _ _ => False) := by
  have mem {owner : WorkspaceId} {repo : Repo}
      (listed : (owner, repo) ∈ memberships core.store id) :
      (∃ workspaceId, core.store.Member workspaceId repo) ∧ repo.id = id :=
    mem_memberships.mp ⟨owner, listed⟩
  unfold boundRepo
  rw [Program.ends_bind, Program.ends_read, Program.ends_bind]
  -- Either nothing was looked at, or the first membership's repository was opened.
  refine (Program.ends_foldEach (fun bound rest state => Idles core state ∧
    (∀ membership ∈ rest, membership ∈ memberships core.store id) ∧
      bound.elim (rest = memberships core.store id) fun found =>
        files.Identifies core.store id found.2)
    ⟨⟨rfl, rfl⟩, fun _ listed => listed, rfl⟩ ?_).imp ?_ fun _ _ never => never
  · rintro bound ⟨owner, repo⟩ rest state ⟨idles, remain, held⟩
    obtain ⟨⟨workspaceId, held'⟩, same⟩ := mem (remain _ List.mem_cons_self)
    have remains : ∀ membership ∈ rest, membership ∈ memberships core.store id :=
      fun membership listed => remain membership (List.mem_cons_of_mem _ listed)
    have here : state.store.Member workspaceId repo := by
      rw [idles.store]
      exact held'
    unfold bindMember
    rw [Program.ends_bind]
    refine (ends_openMember answers (idles.placed placed) here same).imp ?_ fun _ _ never => never
    rintro opened last ⟨further, opens⟩
    have identifies : files.Identifies core.store id opened :=
      ⟨workspaceId, repo, held', same, opens⟩
    cases bound with
    | none => exact ⟨idles.trans further, remains, identifies⟩
    | some previous =>
      obtain ⟨first, found⟩ := previous
      rw [Program.ends_bind, Program.ends_require]
      refine ⟨fun _ => ⟨idles.trans further, remains, held⟩, fun differ => differ ?_⟩
      exact placed.identifies_eq held identifies
  · rintro (_ | ⟨owner, opened⟩) last ⟨idles, _, held⟩
    · refine ⟨idles, fun workspaceId repo stored same => ?_⟩
      obtain ⟨owner, listed⟩ := mem_memberships.mpr ⟨⟨workspaceId, stored⟩, same⟩
      have emptied : [] = memberships core.store id := held
      rw [← emptied] at listed
      cases listed
    · exact ⟨idles, held⟩

/-- Ids stay stable while no workspace changes. -/
theorem Looks.placed (answers : files.Answers env) (placed : files.Placed core)
    (looks : Looks env core last) : files.Placed last := by
  induction looks with
  | start => exact placed
  | asked _ _ ih => exact ih.congr rfl ih.cached
  | reported _ ih => exact ih.congr rfl ih.cached
  | committed _ _ _ kept ih => exact ih.congr kept ih.cached
  | @found core looked id opened _ bound _ ih ih' =>
    obtain ⟨idles, identifies⟩ := (ends_boundRepo answers ih).of_returned bound
    refine ih'.congr rfl fun {other repo} found => ?_
    rw [Table.getElem?_insert] at found
    split at found
    · next same =>
      subst same
      rw [← Option.some.inj found]
      exact (FileSystem.Identifies.congr (by rw [idles.store])).mpr identifies
    · exact ih'.cached found

end Core

end Nits.ReviewCore
