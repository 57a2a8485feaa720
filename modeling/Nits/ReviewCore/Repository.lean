import Nits.ReviewCore.Core

/-!
# Workspaces and repositories

Repository ids identify canonical checkouts across workspace memberships. The
registry caches opened repositories; every lookup resolves all current
memberships before it trusts the cache.
-/

namespace Nits.ReviewCore.Core

open Logical Protocol

/-! ## Workspaces -/

def createWorkspace (ctx : Ctx) (id : WorkspaceId) (name : String) : CoreM Workspace := do
  let store ← Program.read Core.store
  Program.require (store.workspace id = none) (.invalid s!"workspace {id} already exists")
  Program.require (isBlank name = false) (.invalid "workspace name must not be empty")
  let workspace : Workspace := { id, name, repos := [] }
  let _ ← append ctx (.workspaceCreated workspace)
  pure workspace

def renameWorkspace (ctx : Ctx) (id : WorkspaceId) (name : String) : CoreM Unit := do
  let _ ← workspace id
  let _ ← append ctx (.workspaceUpdated id name)

/-! ## The registry -/

/-- Open the repository that holds a path. -/
def openRepo (path : String) : CoreM OpenedRepo := do
  let checkout ← outside (.resolveCheckout path)
  let git ← outside (.openRepo checkout)
  pure { checkout, git }

/-- Where the checkout of one membership is. -/
def memberPath (id : RepoId) (workspaceId : WorkspaceId) (mem : Repo) : CoreM String := do
  match ← ask (.canonicalize mem.path) with
  | .ok path => pure path
  | .error error => invalid (s!"repo {id} in workspace {workspaceId} is unavailable at " ++
      s!"{mem.path}: {error.toCore}; detach this membership to repair it")

/-- The repository of one membership, from the cache if its checkout is still
where the membership says. -/
def openMember (id : RepoId) (workspaceId : WorkspaceId) (mem : Repo) : CoreM OpenedRepo := do
  let path ← memberPath id workspaceId mem
  let repositories ← Program.read Core.repositories
  let cached := repositories[id]?.filter fun opened => opened.checkout = path
  match cached with
  | some opened => pure opened
  | none =>
    match ← (openRepo path).attempt with
    | .ok opened => pure opened
    | .error error => invalid (s!"repo {id} in workspace {workspaceId} cannot open " ++
        s!"{mem.path}: {error}; detach this membership to repair it")

/-- One step through the memberships of a repository: they must agree on its
checkout. -/
def bindMember (id : RepoId) (bound : Option (WorkspaceId × OpenedRepo))
    (membership : WorkspaceId × Repo) : CoreM (Option (WorkspaceId × OpenedRepo)) := do
  let (workspaceId, mem) := membership
  let opened ← openMember id workspaceId mem
  match bound with
  | none => pure (some (workspaceId, opened))
  | some (owner, previous) =>
    Program.require (previous.checkout = opened.checkout)
      (.invalid (s!"repo {id} has conflicting checkout memberships: workspace {owner} " ++
        s!"({previous.checkout}) and workspace {workspaceId} ({opened.checkout}); detach the " ++
        "incorrect membership before accessing this repo"))
    pure (some (owner, previous))

/-- Every workspace that has the repository, with its membership. -/
def memberships (store : Store) (id : RepoId) : List (WorkspaceId × Repo) :=
  store.workspaces.flatMap fun workspace =>
    (workspace.repos.filter fun mem => mem.id = id).map fun mem => (workspace.id, mem)

/-- Resolve every current membership before trusting a cached repository. -/
def boundRepo (id : RepoId) : CoreM (Option OpenedRepo) := do
  let store ← Program.read Core.store
  let bound ← Program.foldEach (bindMember id) none (memberships store id)
  pure (bound.map Prod.snd)

def checkRepoOwner (id : RepoId) (candidate : OpenedRepo) : CoreM Unit := do
  match ← boundRepo id with
  | none => pure ()
  | some bound =>
    Program.require (bound.checkout = candidate.checkout)
      (.invalid (s!"repo {id} already identifies {bound.checkout}; cannot attach it to " ++
        s!"{candidate.checkout}"))

def register (id : RepoId) (opened : OpenedRepo) : CoreM Unit :=
  Program.write fun core => { core with repositories := core.repositories.insert id opened }

def publishAttachment (ctx : Ctx) (workspaceId : WorkspaceId) (repoId : RepoId)
    (opened : OpenedRepo) (displayName : String) : CoreM Repo := do
  let repo : Repo := { id := repoId, path := opened.checkout, displayName }
  let _ ← append ctx (.repoAttached workspaceId repo)
  register repoId opened
  pure repo

/-- Refuse a checkout that another membership of the workspace already opens. An
unavailable unrelated attachment does not block. -/
def refuseSharedCheckout (workspaceId : WorkspaceId) (opened : OpenedRepo) (mem : Repo) :
    CoreM Unit := do
  match ← (openRepo mem.path).attempt with
  | .error _ => pure ()
  | .ok existing =>
    Program.require (existing.checkout ≠ opened.checkout)
      (.invalid (s!"checkout {opened.checkout} is already attached to workspace {workspaceId} " ++
        s!"as repo {mem.id}; reuse this repository ID or detach that membership before " ++
        "attaching again. Attaching it to another workspace is allowed"))

/-- A repository id may join multiple workspaces only for the same checkout. -/
def attachRepo (ctx : Ctx) (workspaceId : WorkspaceId) (repoId : RepoId)
    (path displayName : String) : CoreM Repo := do
  let workspace ← workspace workspaceId
  Program.require (workspace.repos.any (fun repo => repo.id = repoId) = false)
    (.invalid (s!"repo {repoId} already attached to workspace {workspaceId}; reuse this " ++
      "repository ID or detach this membership before attaching again"))
  let opened ← openRepo path
  checkRepoOwner repoId opened
  let _ ← Program.forEach (refuseSharedCheckout workspaceId opened) workspace.repos
  publishAttachment ctx workspaceId repoId opened displayName

/-- Bootstrap checks ownership before creating its workspace. -/
def createWorkspaceWithRepo (ctx : Ctx) (workspaceId : WorkspaceId) (repoId : RepoId)
    (path name : String) : CoreM Unit := do
  let opened ← openRepo path
  checkRepoOwner repoId opened
  let _ ← createWorkspace ctx workspaceId name
  let _ ← publishAttachment ctx workspaceId repoId opened name

def detachRepo (ctx : Ctx) (workspaceId : WorkspaceId) (repoId : RepoId) : CoreM Unit := do
  let workspace ← workspace workspaceId
  Program.require (workspace.repos.any (fun repo => repo.id = repoId))
    (.notFound .repo (toString repoId))
  let _ ← append ctx (.repoDetached workspaceId repoId)
  Program.write fun core => { core with repositories := core.repositories.erase repoId }

def lookupRepo (id : RepoId) : CoreM GitRepo := do
  let opened ← Program.orStop (.notFound .repo (toString id)) (← boundRepo id)
  register id opened
  pure opened.git

def workspaceRepo (workspaceId : WorkspaceId) (id : RepoId) : CoreM GitRepo := do
  let workspace ← workspace workspaceId
  Program.require (workspace.repos.any fun repo => repo.id = id)
    (.invalid s!"repo {id} is not attached to workspace {workspaceId}")
  lookupRepo id

def reviewRepo (reviewId : ReviewId) (id : RepoId) : CoreM GitRepo := do
  let record ← review reviewId
  Program.require (record.review.targets.items.any fun target => target.repoId = id)
    (.invalid s!"repo {id} is not in review {reviewId}")
  workspaceRepo record.review.workspaceId id

end Nits.ReviewCore.Core
