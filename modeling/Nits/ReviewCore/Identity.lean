import Nits.ReviewCore.Appends
import Nits.ReviewCore.Membership

/-!
# Repository identity over whole runs

Attaching checks the id against every membership and the checkout against its
workspace, and nothing else names a checkout. So ids stay stable over whole runs on a
fixed file system, and whatever is attached can be opened by its id.
-/

namespace Nits.ReviewCore.Core

open Logical Protocol

/-! ## Programs that keep ids stable -/

/-- Ids that were stable still are. -/
def StaysPlaced (files : FileSystem) (before after : Core) : Prop :=
  files.Placed before → files.Placed after

instance {files : FileSystem} : IsPreorder Core (StaysPlaced files) where
  refl _ placed := placed
  trans _ _ _ first second placed := second (first placed)

/-- A program that keeps ids stable, however it ends. -/
def Places {α : Type} (files : FileSystem) (program : CoreM α) : Prop :=
  ∀ env, files.Answers env →
    Program.Keeps env (StaysPlaced files) program

section Rules

variable {α β : Type} {files : FileSystem} {program : CoreM α} {next : α → CoreM β}

theorem Sees.places (sees : Sees program) : Places files program :=
  fun env answers start placed => (sees env start).placed answers placed

theorem Places.bind (first : Places files program) (then_ : ∀ value, Places files (next value)) :
    Places files (program >>= next) :=
  fun env answers =>
    (first env answers).bind fun value => then_ value env answers

theorem Places.discard (places : Places files program) :
    Places files (do let _ ← program : CoreM Unit) :=
  places.bind fun _ => quiet_pure.sees.places

/-- What happens where the ids are not stable is of no interest. -/
theorem places_of_ends (ends : ∀ {env start}, files.Answers env →
    files.Placed start → program.Ends env start (fun _ last => files.Placed last)
      (fun _ last => files.Placed last)) : Places files program := by
  refine fun env answers => Program.keeps_iff_ends.mpr fun start => ?_
  by_cases placed : files.Placed start
  · exact (ends answers placed).imp (fun _ _ kept _ => kept) fun _ _ kept _ => kept
  · exact Program.ends_iff.mpr ⟨fun _ _ _ kept => absurd kept placed,
      fun _ _ _ kept => absurd kept placed⟩

/-- An operation that ends by committing an event of a review. -/
theorem sees_commit {ctx : Ctx} {body : EventBody} (other : shapesWorkspaces body = false)
    {value : Event → α} : Sees (append ctx body >>= fun event => pure (value event)) :=
  (sees_append other).bind fun _ => quiet_pure.sees

end Rules

/-! ## Changes of workspaces -/

section Workspaces

variable {env : Environment} {files : FileSystem} {start : Core} {ctx : Ctx}
  {workspaceId : WorkspaceId} {repoId : RepoId} {name : String}

/-- What an append leaves: the applied event, or nothing. -/
theorem ends_append_views {body : EventBody} : (append ctx body).Ends env start
      (fun event last => event.body = body ∧
        start.store.views.apply event = .ok last.store.views ∧
          last.repositories = start.repositories) (fun _ last => Idles start last) := by
  unfold append
  rw [Program.ends_bind, Program.ends_read]
  cases appended : start.store.append ⟨ctx.now, ctx.author, ctx.clientId, ctx.clientSeq, body⟩ with
  | error error => exact ⟨rfl, rfl⟩
  | ok committed =>
    obtain ⟨event, store⟩ := committed
    obtain ⟨rfl, views, applied, rfl⟩ := Store.append_eq_ok.mp appended
    rw [Program.ends_bind]
    refine ends_ask.mpr ?_
    cases env.answer start.calls .commit with
    | error error => exact ⟨rfl, rfl⟩
    | ok granted => exact ⟨rfl, applied, rfl⟩

/-- A workspace's new row is the changed one. -/
theorem workspaces_of_change {views last : Views} {seq : Seq} (change : Workspace → Workspace)
    (applied : (views.loadWorkspace seq workspaceId).map (fun workspace =>
      { views with workspaces := views.workspaces.insert workspaceId (change workspace) }) =
        .ok last) : ∃ workspace, views.workspaces[workspaceId]? = some workspace ∧
      last.workspaces = views.workspaces.insert workspaceId (change workspace) := by
  obtain ⟨workspace, found, rfl⟩ := map_eq_ok.mp applied
  exact ⟨workspace, Views.require_eq_ok.mp found, rfl⟩

theorem ends_createWorkspace_views : (createWorkspace ctx workspaceId name).Ends env start
      (fun _ last => start.store.views.workspaces[workspaceId]? = none ∧
        last.store.views.workspaces =
          start.store.views.workspaces.insert workspaceId ⟨workspaceId, name, []⟩ ∧
        last.repositories = start.repositories) (fun _ last => Idles start last) := by
  unfold createWorkspace
  simp only [Program.ends_bind, Program.ends_read, Program.ends_require, Program.ends_pure]
  refine ⟨fun free => ⟨fun _ => ?_, fun _ => ⟨rfl, rfl⟩⟩, fun _ => ⟨rfl, rfl⟩⟩
  refine ends_append_views.imp ?_ fun _ _ idles => idles
  rintro event last ⟨body, applied, same⟩
  refine ⟨free, ?_, same⟩
  obtain ⟨seq, ts, author, clientId, clientSeq, _⟩ := event
  subst body
  rw [← Except.ok.inj applied]
  rfl

/-- A workspace without repositories adds no membership. -/
theorem member_created {last : Core} (free : start.store.views.workspaces[workspaceId]? = none)
    (created : last.store.views.workspaces =
      start.store.views.workspaces.insert workspaceId ⟨workspaceId, name, []⟩) {id : WorkspaceId}
    {repo : Repo} : last.store.Member id repo ↔ start.store.Member id repo := by
  unfold Store.Member
  rw [created, Table.getElem?_insert]
  split
  · next same =>
    subst same
    simp [free]
  · exact Iff.rfl

theorem placed_created {last : Core} (placed : files.Placed start)
    (free : start.store.views.workspaces[workspaceId]? = none)
    (created : last.store.views.workspaces =
      start.store.views.workspaces.insert workspaceId ⟨workspaceId, name, []⟩)
    (same : last.repositories = start.repositories) : files.Placed last := by
  refine placed.shrink (fun {id workspace} stored => ?_) fun {id opened} found => ?_
  · rw [created, Table.getElem?_insert] at stored
    split at stored
    · exact .inl (by rw [← Option.some.inj stored])
    · exact .inr ⟨workspace, stored, List.Sublist.refl _⟩
  · rw [same] at found
    obtain ⟨owner, repo, mem, identified⟩ := placed.cached found
    exact ⟨owner, repo, (member_created free created).mpr mem, identified⟩

theorem places_createWorkspace : Places files (createWorkspace ctx workspaceId name) := by
  refine fun env answers => Program.keeps_iff_ends.mpr fun start => ?_
  refine ends_createWorkspace_views.imp ?_ fun _ _ idles => idles.placed
  exact fun _ _ ⟨free, created, same⟩ placed => placed_created placed free created same

theorem places_renameWorkspace : Places files (renameWorkspace ctx workspaceId name) := by
  refine quiet_workspace.sees.places.bind fun _ env _ => Program.keeps_iff_ends.mpr fun start => ?_
  rw [Program.ends_bind]
  refine ends_append_views.imp ?_ fun _ _ idles => idles.placed
  rintro event last ⟨body, applied, same⟩ placed
  obtain ⟨seq, ts, author, clientId, clientSeq, _⟩ := event
  subst body
  obtain ⟨workspace, stored, renamed⟩ :=
    workspaces_of_change (fun workspace => { workspace with name }) applied
  have mem {id : WorkspaceId} {repo : Repo} :
      last.store.Member id repo ↔ start.store.Member id repo := by
    unfold Store.Member
    rw [renamed, Table.getElem?_insert]
    split
    · next same =>
      subst same
      simp [stored]
    · exact Iff.rfl
  refine placed.shrink (fun {id other} found => ?_) fun {id opened} found => ?_
  · rw [renamed, Table.getElem?_insert] at found
    split at found
    · next same =>
      subst same
      exact .inr ⟨workspace, stored, by rw [← Option.some.inj found]⟩
    · exact .inr ⟨other, found, List.Sublist.refl _⟩
  · rw [same] at found
    obtain ⟨owner, repo, held, identified⟩ := placed.cached found
    exact ⟨owner, repo, mem.mpr held, identified⟩

/-- A detached id is dropped from its workspace and forgotten. -/
theorem places_detachRepo : Places files (detachRepo ctx workspaceId repoId) := by
  refine quiet_workspace.sees.places.bind fun _ => quiet_require.sees.places.bind fun _ env _ =>
    Program.keeps_iff_ends.mpr fun start => ?_
  rw [Program.ends_bind]
  refine ends_append_views.imp ?_ fun _ _ idles => idles.placed
  rintro event last ⟨body, applied, same⟩
  rw [Program.ends_write]
  intro placed
  obtain ⟨seq, ts, author, clientId, clientSeq, _⟩ := event
  subst body
  obtain ⟨workspace, stored, detached⟩ := workspaces_of_change (fun workspace =>
    { workspace with repos := workspace.repos.filter fun mem => mem.id ≠ repoId }) applied
  refine placed.shrink (fun {id other} found => ?_) fun {id opened} found => ?_
  · rw [detached, Table.getElem?_insert] at found
    split at found
    · next same =>
      subst same
      exact .inr ⟨workspace, stored, by rw [← Option.some.inj found]; exact List.filter_sublist⟩
    · exact .inr ⟨other, found, List.Sublist.refl _⟩
  · rw [Table.getElem?_erase] at found
    split at found
    · cases found
    · next other =>
      rw [same] at found
      obtain ⟨owner, repo, ⟨before, at_, held⟩, rfl, opens⟩ := placed.cached found
      refine ⟨owner, repo, ?_, rfl, opens⟩
      unfold Store.Member
      rw [detached, Table.getElem?_insert]
      split
      · next here =>
        subst here
        rw [stored] at at_
        cases at_
        exact ⟨_, rfl, List.mem_filter.mpr ⟨held, by simpa using Ne.symm other⟩⟩
      · exact ⟨before, at_, held⟩

/-! ## Attaching -/

/-- An id's owner is checked against every membership of it. -/
theorem ends_checkRepoOwner (answers : files.Answers env) (placed : files.Placed start)
    {candidate : OpenedRepo} : (checkRepoOwner repoId candidate).Ends env start
      (fun _ last => Idles start last ∧ ∀ owner repo, start.store.Member owner repo →
        repo.id = repoId → repo.path = candidate.checkout) (fun _ last => Idles start last) := by
  unfold checkRepoOwner
  rw [Program.ends_bind]
  refine (ends_boundRepo answers placed).imp ?_ fun _ _ never => never.elim
  rintro (_ | bound) last ⟨idles, found⟩
  · exact ⟨idles, fun owner repo mem same => absurd same (found owner repo mem)⟩
  · rw [Program.ends_require]
    refine ⟨fun agrees => ⟨idles, fun owner repo mem same => ?_⟩, fun _ => idles⟩
    exact (placed.checkout found mem same).symm.trans agrees

variable {opened : OpenedRepo}

/-- A membership of the workspace that names the checkout is refused. -/
theorem ends_refuseSharedCheckout (answers : files.Answers env) (placed : files.Placed start)
    {mem : Repo} (held : start.store.Member workspaceId mem) :
    (refuseSharedCheckout workspaceId opened mem).Ends env start
      (fun _ last => Idles start last ∧ mem.path ≠ opened.checkout)
      (fun _ last => Idles start last) := by
  obtain ⟨repo, opens, path⟩ := placed.opens held
  unfold refuseSharedCheckout
  rw [Program.ends_bind, Program.ends_attempt]
  refine (ends_openRepo answers).imp ?_ ?_
  · rintro existing last ⟨idles, again⟩
    rw [opens] at again
    cases again
    rw [Program.ends_require, path]
    exact ⟨fun apart => ⟨idles, apart⟩, fun _ => idles⟩
  · rintro error last ⟨_, _, fails⟩
    rw [opens] at fails
    cases fails

/-- A checkout that joins a workspace is apart from those already there. -/
theorem ends_refuseSharedCheckouts (answers : files.Answers env) (placed : files.Placed start)
    {workspace : Workspace} (stored : start.store.views.workspaces[workspaceId]? = some workspace) :
    (Program.forEach (refuseSharedCheckout workspaceId opened) workspace.repos).Ends env
      start (fun _ last => Idles start last ∧
        ∀ mem ∈ workspace.repos, mem.path ≠ opened.checkout) (fun _ last => Idles start last) := by
  refine (Program.ends_forEach (fun _ rest state => Idles start state ∧
    ∃ done, workspace.repos = done ++ rest ∧ ∀ mem ∈ done, mem.path ≠ opened.checkout)
    ⟨⟨rfl, rfl⟩, [], rfl, by simp⟩ ?_).imp ?_ fun _ _ idles => idles
  · rintro _ mem rest state ⟨idles, done, listed, apart⟩
    have held : state.store.Member workspaceId mem := by
      rw [idles.store]
      exact ⟨workspace, stored, by simp [listed]⟩
    refine (ends_refuseSharedCheckout answers (idles.placed placed) held).imp ?_
      fun _ _ further => idles.trans further
    rintro _ last ⟨further, elsewhere⟩
    refine ⟨idles.trans further, done ++ [mem], by simp [listed], fun other inside => ?_⟩
    rcases List.mem_append.mp inside with earlier | final
    · exact apart other earlier
    · rw [List.mem_singleton.mp final]
      exact elsewhere
  · rintro _ last ⟨idles, done, listed, apart⟩
    rw [List.append_nil] at listed
    exact ⟨idles, listed ▸ apart⟩

theorem ends_publishAttachment {workspace : Workspace} (placed : files.Placed start)
    (stored : start.store.views.workspaces[workspaceId]? = some workspace)
    (attaches : files.Attaches start workspace ⟨repoId, opened.checkout, name⟩ opened) :
    (publishAttachment ctx workspaceId repoId opened name).Ends env start
      (fun _ last => files.Placed last) (fun _ last => files.Placed last) := by
  unfold publishAttachment register
  dsimp only
  rw [Program.ends_bind]
  refine ends_append_views.imp ?_ fun _ _ idles => idles.placed placed
  rintro event last ⟨body, applied, same⟩
  rw [Program.ends_bind, Program.ends_write, Program.ends_pure]
  obtain ⟨seq, ts, author, clientId, clientSeq, _⟩ := event
  subst body
  obtain ⟨workspace', stored', joined⟩ := workspaces_of_change (fun workspace =>
    { workspace with repos := (workspace.repos.filter fun mem => mem.id ≠ repoId) ++
        [⟨repoId, opened.checkout, name⟩] }) applied
  rw [stored] at stored'
  cases stored'
  have fresh : workspace.repos.filter (fun mem => mem.id ≠ repoId) = workspace.repos :=
    List.filter_eq_self.mpr fun mem listed => by simpa using attaches.unattached mem listed
  refine placed.attach stored attaches (fun id => ?_) fun {id found} cached => ?_
  · rw [joined, Table.getElem?_insert, fresh]
  · rw [Table.getElem?_insert] at cached
    split at cached
    · next here =>
      subst here
      exact .inr ⟨rfl, (Option.some.inj cached).symm⟩
    · rw [same] at cached
      exact .inl (placed.cached cached)

theorem places_attachRepo (settled : ∀ path, files.Settled path) {path : String} :
    Places files (attachRepo ctx workspaceId repoId path name) := by
  refine places_of_ends fun {_ start} answers placed => ?_
  unfold attachRepo
  rw [Program.ends_bind, ends_workspace]
  refine ⟨fun workspace stored => ?_, fun _ => placed⟩
  rw [Program.ends_bind, Program.ends_require]
  refine ⟨fun unattached => ?_, fun _ => placed⟩
  rw [Program.ends_bind]
  refine (ends_openRepo answers).imp ?_ fun _ _ fails => fails.1.placed placed
  rintro opened looked ⟨idles, opens⟩
  rw [Program.ends_bind]
  refine (ends_checkRepoOwner answers (idles.placed placed)).imp ?_
    fun _ _ further => (idles.trans further).placed placed
  rintro _ owned ⟨further, owner⟩
  have before : Idles start owned := idles.trans further
  rw [Program.ends_bind]
  refine (ends_refuseSharedCheckouts answers (before.placed placed)
    (by rwa [before.store])).imp ?_ fun _ _ idles => (before.trans idles).placed placed
  rintro _ last ⟨idles', apart⟩
  have all : Idles start last := before.trans idles'
  refine ends_publishAttachment (all.placed placed) (by rwa [all.store]) ?_
  refine ⟨(settled path).opened opens, rfl, fun {id mem} held same => ?_, ?_, apart⟩
  · rw [all.store, ← idles.store] at held
    exact owner id mem held same
  · simpa [List.any_eq_false] using unattached

theorem places_createWorkspaceWithRepo (settled : ∀ path, files.Settled path) {path : String} :
    Places files (createWorkspaceWithRepo ctx workspaceId repoId path name) := by
  refine places_of_ends fun {_ start} answers placed => ?_
  unfold createWorkspaceWithRepo
  rw [Program.ends_bind]
  refine (ends_openRepo answers).imp ?_ fun _ _ fails => fails.1.placed placed
  rintro opened looked ⟨idles, opens⟩
  rw [Program.ends_bind]
  refine (ends_checkRepoOwner answers (idles.placed placed)).imp ?_
    fun _ _ further => (idles.trans further).placed placed
  rintro _ owned ⟨further, owner⟩
  have before : files.Placed owned := (idles.trans further).placed placed
  rw [Program.ends_bind]
  refine ends_createWorkspace_views.imp ?_ fun _ _ idles => idles.placed before
  rintro _ begun ⟨free, created, same⟩
  rw [Program.ends_bind]
  have stored : begun.store.views.workspaces[workspaceId]? = some ⟨workspaceId, name, []⟩ := by
    rw [created, Table.getElem?_insert, if_pos rfl]
  refine (ends_publishAttachment (placed_created before free created same) stored ?_).imp
    (fun _ _ kept => kept) fun _ _ kept => kept
  refine ⟨(settled path).opened opens, rfl, fun {id mem} held same => ?_, by simp, by simp⟩
  rw [member_created free created, further.store] at held
  exact owner id mem held same

end Workspaces

/-- Recording a check changes no workspace. -/
theorem sees_recordCheckpoint {ctx : Ctx} {id : ReviewId} {targets : NonEmpty ResolvedTarget}
    {round : Option ReviewRound} : Sees (recordCheckpoint ctx id targets round) := by
  refine quiet_reviewSnapshot.sees.bind fun snapshot => quiet_orStop.sees.bind fun _ => ?_
  refine quiet_require.sees.bind fun _ => quiet_require.sees.bind fun _ => ?_
  refine (Quiet.forEach fun _ _ => quiet_validateTarget).sees.bind fun _ => ?_
  exact quiet_retainTargets.sees.bind fun _ => sees_commit rfl

/-! ## Runs -/

/-- The workspace has the repository. -/
def Attached (store : Store) (workspaceId : WorkspaceId) (id : RepoId) : Prop :=
  ∃ workspace, store.views.workspaces[workspaceId]? = some workspace ∧
    workspace.repos.any fun repo => repo.id = id

section Runs

variable [Platform] {env : Environment} {files : FileSystem} {core : Core} {ctx : Ctx}

/-- A directory's review may bring a workspace and its only membership. -/
theorem places_ensureDirectoryReview (settled : ∀ path, files.Settled path)
    {options : EnsureDirectoryReview} : Places files (ensureDirectoryReview ctx options) := by
  rw [ensureDirectoryReview_eq]
  refine quiet_directoryPlan.sees.places.bind fun plan => ?_
  cases plan with
  | reuse review =>
    exact (plain_resolveTargets.bind fun _ => quiet_logPosition.before fun _ => plain_pure).sees.places
  | create root located base headSpec =>
    refine quiet_read.sees.places.bind fun store => quiet_require.sees.places.bind fun _ => ?_
    refine Places.bind ?_ fun ids => (plain_createReview.bind fun _ => quiet_read.before fun _ =>
      quiet_orStop.before fun _ => plain_pure).sees.places
    cases located with
    | some ids => exact quiet_pure.sees.places
    | none => exact (places_createWorkspaceWithRepo settled).bind fun _ => quiet_pure.sees.places

/-- No operation makes an id ambiguous. -/
theorem places_perform (settled : ∀ path, files.Settled path) {operation : Operation} :
    Places files (operation.perform ctx) := by
  cases operation with
  | resolveTargets => exact plain_resolveTargets.sees.places.discard
  | fetchReview => exact plain_fetchReview.sees.places.discard
  | refreshWorkingTreeReview => exact plain_refreshWorkingTreeReview.sees.places
  | ensureDirectoryReview => exact (places_ensureDirectoryReview settled).discard
  | mutate mutation =>
    have plain := @plain_applyMutation ctx _ mutation
    cases mutation with
    | createWorkspace => exact places_createWorkspace.discard
    | renameWorkspace => exact places_renameWorkspace
    | attachRepo => exact (places_attachRepo settled).discard
    | detachRepo => exact places_detachRepo
    | recordCheckpoint => exact sees_recordCheckpoint.places.discard
    | _ => exact (plain rfl fun _ _ _ same => by cases same).sees.places

/-- A restart forgets the cache alone. -/
theorem placed_step (answers : files.Answers env) (settled : ∀ path, files.Settled path)
    (placed : files.Placed core) (step : Step) : files.Placed (core.step env step) := by
  cases step with
  | perform ctx operation => exact places_perform settled env answers core placed
  | restart => exact placed.congr rfl fun found => by simp [step, restarted] at found

theorem placed_run (answers : files.Answers env) (settled : ∀ path, files.Settled path)
    (reachable : Reachable env core) : files.Placed core := by
  obtain ⟨steps, rfl⟩ := reachable
  have empty : files.Placed .initial := by
    constructor <;> simp [initial, opened, Store.empty, Views.empty, Store.Member]
  suffices all : ∀ start, files.Placed start → files.Placed (run env start steps) from
    all _ empty
  induction steps with
  | nil => exact fun _ placed => placed
  | cons step steps ih => exact fun start placed => ih _ (placed_step answers settled placed step)

/-- Over a fixed file system a repository id stays the name of one checkout, and every
attached repository opens by its id, as what its memberships name. -/
theorem identity_stable (answers : files.Answers env)
    (settled : ∀ path, files.Settled path) (reachable : Reachable env core) :
    files.Placed core ∧ ∀ workspaceId id, Attached core.store workspaceId id →
      ∃ opened last, workspaceRepo workspaceId id env core = (.ok opened.git, last) ∧
        files.Identifies core.store id opened := by
  have placed := placed_run answers settled reachable
  refine ⟨placed, fun workspaceId id ⟨workspace, stored, attached⟩ => ?_⟩
  obtain ⟨repo, listed, same⟩ : ∃ repo ∈ workspace.repos, repo.id = id := by
    simpa using attached
  have bound := @ends_boundRepo _ _ _ answers placed id
  rcases run : boundRepo id env core with ⟨outcome, looked⟩
  unfold workspaceRepo lookupRepo
  rw [Program.bind_eq (workspace_eq stored), Program.bind_eq (Program.require_eq attached)]
  rcases outcome with error | _ | opened
  · exact (bound.of_stopped run).elim
  · have found := (bound.of_returned run).2
    exact absurd same (found workspaceId repo ⟨workspace, stored, listed⟩)
  · refine ⟨opened, { looked with repositories := looked.repositories.insert id opened }, ?_,
      (bound.of_returned run).2⟩
    rw [Program.bind_eq run]
    rfl

end Runs

/-- The file system of the calm world: every path is a checkout of its own. -/
def calmFiles : FileSystem where
  canonicalize path := .ok path
  gitRoot path := .ok (some path)
  openRepo checkout := .ok ⟨checkout⟩
  canonical := canonical_of_ok

theorem calmFiles_answers : calmFiles.Answers .calm :=
  ⟨fun _ _ => rfl, fun _ _ => rfl, fun _ _ => rfl, fun _ _ => rfl⟩

/-- A second workspace attaches the first session's repository, and no other by its id. -/
def sharing : List Step := Session.opening ++ [
  Session.mutate (.createWorkspace ⟨4⟩ "second"),
  Session.mutate (.attachRepo ⟨4⟩ Session.repoId "/lib" "lib"),
  Session.mutate (.attachRepo ⟨4⟩ Session.repoId "/repo" "again")]

/-- The repository opens by its id in both workspaces. -/
theorem identity_opening : (∃ opened last, workspaceRepo Session.workspaceId Session.repoId .calm
        (@run .plain .calm .initial sharing) = (.ok opened.git, last) ∧
      calmFiles.Identifies (@run .plain .calm .initial sharing).store Session.repoId opened) ∧
    ∃ opened last, workspaceRepo ⟨4⟩ Session.repoId .calm
        (@run .plain .calm .initial sharing) = (.ok opened.git, last) ∧
      calmFiles.Identifies (@run .plain .calm .initial sharing).store Session.repoId opened := by
  let _ : Platform := .plain
  have stable := (identity_stable calmFiles_answers (fun _ _ _ => rfl) ⟨sharing, rfl⟩).2
  have attached : ∀ workspaceId ∈ [Session.workspaceId, ⟨4⟩],
      Attached (run .calm .initial sharing).store workspaceId Session.repoId := by
    intro workspaceId mem
    have held : ∀ id ∈ [Session.workspaceId, ⟨4⟩],
        ((run .calm .initial sharing).store.views.workspaces[id]?.any
          fun workspace => workspace.repos.any fun repo => repo.id = Session.repoId) := by
      decide +kernel
    exact Option.any_eq_true _ _ |>.mp (held workspaceId mem)
  exact ⟨stable _ _ (attached _ (by simp)), stable _ _ (attached _ (by simp))⟩

end Nits.ReviewCore.Core
