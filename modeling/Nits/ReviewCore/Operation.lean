import Nits.ReviewCore.Directory

/-!
# Operations and runs

Everything that can change the log: the mutations that clients send, the target
resolutions that clients and the file watcher ask for, and the directory
bootstrap. A run performs operations one after the other, as the daemon's writer
thread does, and may restart the daemon between any two; an operation cut short
by a crash is one whose next commit fails.
-/

namespace Nits.ReviewCore

open Logical Protocol

variable [Platform]

/-- Perform a client's mutation. -/
def Core.applyMutation (ctx : Ctx) : Mutation → CoreM Unit
  | .createWorkspace workspaceId name => do let _ ← createWorkspace ctx workspaceId name
  | .renameWorkspace workspaceId name => renameWorkspace ctx workspaceId name
  | .attachRepo workspaceId repoId path displayName => do
    let _ ← attachRepo ctx workspaceId repoId path displayName
  | .detachRepo workspaceId repoId => detachRepo ctx workspaceId repoId
  | .createReview reviewId workspaceId title targets => do
    let _ ← createReview ctx reviewId workspaceId title targets
  | .updateReview reviewId title status => updateReview ctx reviewId title status
  | .updateReviewTarget reviewId update => updateReviewTarget ctx reviewId update
  | .deleteReview reviewId => deleteReview ctx reviewId
  | .addComment reviewId commentId kind anchor body context => do
    let _ ← addComment ctx reviewId commentId kind anchor body context
  | .reply reviewId threadId commentId kind body => do
    let _ ← reply ctx reviewId threadId commentId kind body
  | .editComment reviewId commentId body => editComment ctx reviewId commentId body
  | .deleteComment reviewId commentId => deleteComment ctx reviewId commentId
  | .deferThread reviewId threadId reason trackingUrl =>
    deferThread ctx reviewId threadId reason trackingUrl
  | .resolveThread reviewId threadId => resolveThread ctx reviewId threadId
  | .unresolveThread reviewId threadId => unresolveThread ctx reviewId threadId
  | .markViewed reviewId repoId path => do let _ ← markViewed ctx reviewId repoId path
  | .unmarkViewed reviewId repoId path => unmarkViewed ctx reviewId repoId path
  | .requestReview reviewId agent note => do let _ ← requestReview ctx reviewId agent note
  | .recordCheckpoint reviewId targets inReplyTo => do
    let _ ← recordCheckpoint ctx reviewId targets inReplyTo
  | .applySuggestion reviewId commentId => do let _ ← applySuggestion ctx reviewId commentId

/-- One request to the daemon's writer thread. -/
inductive Operation
  | mutate (mutation : Mutation)
  | resolveTargets (reviewId : ReviewId)
  | fetchReview (reviewId : ReviewId) (repoId : Option RepoId) (remote : String)
  | refreshWorkingTreeReview (reviewId : ReviewId) (repoId : RepoId)
  | ensureDirectoryReview (options : Core.EnsureDirectoryReview)

def Operation.perform (ctx : Ctx) : Operation → CoreM Unit
  | .mutate mutation => Core.applyMutation ctx mutation
  | .resolveTargets reviewId => do let _ ← Core.resolveTargets ctx reviewId
  | .fetchReview reviewId repoId remote => do
    let _ ← Core.fetchReview ctx reviewId repoId remote
  | .refreshWorkingTreeReview reviewId repoId =>
    Core.refreshWorkingTreeReview ctx reviewId repoId
  | .ensureDirectoryReview options => do
    let _ ← Core.ensureDirectoryReview ctx options

/-- What happens to a daemon. -/
inductive Step
  | perform (ctx : Ctx) (operation : Operation)
  | restart

/-- A restart keeps the store and forgets the opened repositories. -/
def Core.restarted (core : Core) : Core := { core with repositories := ∅ }

def Core.step (env : Environment) (core : Core) : Step → Core
  | .perform ctx operation => (operation.perform ctx env core).2
  | .restart => core.restarted

/-- The state after a run. -/
def Core.run (env : Environment) (core : Core) (steps : List Step) : Core :=
  steps.foldl (Core.step env) core

/-- A daemon over an empty store. -/
def Core.initial : Core := .opened .empty

/-- The states a daemon can reach from an empty store. -/
def Reachable (env : Environment) (core : Core) : Prop :=
  ∃ steps, core = Core.run env .initial steps

/-! ## A first session

The smallest world and session that reach a review, on which single behaviours
are shown. -/

/-- A simple hash, and the coarsest diff of lists it can number: all lines replaced
unless none changed. -/
@[reducible] def Platform.plain : Platform where
  defaultHasher bytes := bytes.foldl (fun hash byte => hash * 31 + byte.toUInt64) 7
  histogramDiff old new :=
    if 2147483647 ≤ max old.length new.length then none
    else some (if old = new then [] else [⟨0, old.length, 0, new.length⟩])
  debugStr text := "\"" ++ text ++ "\""

/-- A world that grants every request. Every path is a checkout, every ref is the
same commit, trees are empty, and every blob holds one line. -/
def Environment.calm : Environment where
  answer _ call :=
    match call with
    | .commit | .retainRevision .. | .openFile .. | .replaceFile .. => .ok ()
    | .canonicalize path | .resolveCheckout path => .ok path
    | .metadataPaths repo => .ok repo.workdir
    | .gitRoot path => .ok (some path)
    | .openRepo checkout => .ok ⟨checkout⟩
    | .resolve .. => .ok ⟨⟨0⟩, .commit ⟨0⟩⟩
    | .blob .. | .readFile .. => .ok [10]
    | .hashBlob .. => .ok ⟨0⟩
    | .treeSnapshot .. | .changedFiles .. | .fetch .. => .ok []
    | .defaultBase _ => .ok .head

/-- The calm world, except that git refuses some of the questions. -/
def Environment.failing (refuses : Nat → Call → Bool) : Environment where
  answer number call :=
    if refuses number call then .error (.git "unavailable") else Environment.calm.answer number call

namespace Session

def user : Author := .human "ada" "laptop"

/-- A context of the session's only client. -/
def by_ (author : Author) : Ctx := ⟨author, ⟨0⟩, 0, 0⟩

def workspaceId : WorkspaceId := ⟨1⟩
def repoId : RepoId := ⟨2⟩
def reviewId : ReviewId := ⟨3⟩

def mutate (mutation : Mutation) : Step := .perform (by_ user) (.mutate mutation)

/-- Create a review of the session's repository against its upstream. -/
def review (id : ReviewId) : Step :=
  mutate (.createReview id workspaceId "review" (.singleton ⟨repoId, .upstream, .head⟩))

/-- Attach a repository to a new workspace and review it. -/
def opening : List Step :=
  [mutate (.createWorkspace workspaceId "work"),
    mutate (.attachRepo workspaceId repoId "/repo" "repo"), review reviewId]

end Session

end Nits.ReviewCore
