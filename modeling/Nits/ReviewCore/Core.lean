import Nits.ReviewCore.Patch
import Nits.ReviewCore.Store

/-!
# The core façade

One state composing the store and the opened repositories, and the outside world
it asks: git, the filesystem and the database's commits. Questions are numbered
in the order they are asked, and an `Environment` answers every question it could
be asked, so one environment is one course of outside events and every operation
is a function of it. Nothing relates the answers to each other.

The core performs no clock or id generation of its own: callers pass a `Ctx`.
-/

namespace Nits.ReviewCore

open Logical Protocol

/-- Who is acting, from where, and when. -/
structure Ctx where
  author : Author
  clientId : ClientId
  clientSeq : ClientSeq
  now : Timestamp

inductive EntityKind
  | workspace | repo | review | comment | thread | ref | path | blob | chunk
  deriving DecidableEq

def EntityKind.toString : EntityKind → String
  | .workspace => "Workspace"
  | .repo => "Repo"
  | .review => "Review"
  | .comment => "Comment"
  | .thread => "Thread"
  | .ref => "Ref"
  | .path => "Path"
  | .blob => "Blob"
  | .chunk => "Chunk"

/-- Why an operation failed. A panic is not returned to the caller: it aborts the
operation where it occurs. -/
inductive CoreError
  | notFound (kind : EntityKind) (id : String)
  | invalid (reason : String)
  | forbidden (reason : String)
  | store (error : StoreError)
  | git (message : String)
  | io (message : String)
  | panicked (panic : Panic)
  deriving DecidableEq

def StoreError.toString : StoreError → String
  | .inconsistent seq reason =>
    s!"event at seq {seq} does not apply to current views: {reason}"
  | .corrupt seq reason => s!"corrupt store at seq {seq}: {reason}"
  | .replay reason => s!"invalid replay: {reason}"
  | .redb message => message

def CoreError.toString : CoreError → String
  | .notFound kind id => s!"{kind.toString} {id} not found"
  | .invalid reason => s!"invalid request: {reason}"
  | .forbidden reason => s!"forbidden: {reason}"
  | .store error => error.toString
  | .git message => message
  | .io message => s!"io: {message}"
  | .panicked .tooManyTokens => "imara-diff only supports up to 2147483647 tokens"

instance : ToString CoreError := ⟨CoreError.toString⟩

/-! ## The outside world -/

/-- An opened git repository. -/
structure GitRepo where
  workdir : String

/-- A repository opened at its canonical checkout. -/
structure OpenedRepo where
  checkout : String
  git : GitRepo

/-- A changed entry between two trees of one repository. -/
structure FileChangeRaw where
  path : RepoPath
  kind : ChangeKind

/-- A symbolic remote-tracking ref and its destination. -/
structure SymbolicTrackingRef where
  name : String
  target : String

/-- Everything the core asks outside itself. -/
inductive Call
  | commit
  | canonicalize (path : String)
  | gitRoot (path : String)
  | resolveCheckout (path : String)
  | openRepo (checkout : String)
  | resolve (repo : GitRepo) (spec : RefSpec)
  | blob (repo : GitRepo) (oid : BlobOid)
  | hashBlob (repo : GitRepo) (bytes : List UInt8)
  | treeSnapshot (repo : GitRepo) (tree : TreeOid)
  | changedFiles (repo : GitRepo) (base head : TreeOid)
  | retainRevision (repo : GitRepo) (review : ReviewId) (revision : ResolvedRef)
  | fetch (repo : GitRepo) (remote : String)
  | defaultBase (repo : GitRepo)
  | metadataPaths (repo : GitRepo)
  | openFile (workdir : String) (path : RepoPath)
  | readFile (workdir : String) (path : RepoPath)
  | replaceFile (workdir : String) (path : RepoPath) (metadata : String)
      (current patched : List UInt8)

/-- What a successful answer carries. -/
@[reducible] def Call.Answer : Call → Type
  | .commit | .retainRevision .. | .openFile .. | .replaceFile .. => Unit
  | .canonicalize _ | .resolveCheckout _ | .metadataPaths _ => String
  | .gitRoot _ => Option String
  | .openRepo _ => GitRepo
  | .resolve .. => ResolvedRef
  | .blob .. | .readFile .. => List UInt8
  | .hashBlob .. => BlobOid
  | .treeSnapshot .. => List TreeEntry
  | .changedFiles .. => List FileChangeRaw
  | .fetch .. => List SymbolicTrackingRef
  | .defaultBase _ => RefSpec

/-- How the outside world fails. -/
inductive ExternalError
  | git (message : String)
  | io (message : String)
  | refused (reason : String)
  deriving DecidableEq

def ExternalError.toCore : ExternalError → CoreError
  | .git message => .git message
  | .io message => .io message
  | .refused reason => .invalid reason

/-- One course of outside events: the answer to the question numbered `number`,
whatever is asked. -/
structure Environment where
  answer : (number : Nat) → (call : Call) → Except ExternalError call.Answer

/-- The content that answer `number` gives for a blob, if it gives one. -/
def Environment.content (env : Environment) (number : Nat) (repo : GitRepo)
    (oid : BlobOid) : Option (List UInt8) :=
  (env.answer number (.blob repo oid)).toOption

/-- The state the operations change. `reported` is a record kept for the proofs
alone: every inconsistency the store has reported, also those that an operation
turned into a value. -/
structure Core where
  store : Store
  repositories : Table RepoId OpenedRepo
  calls : Nat
  reported : List StoreError

/-- A freshly opened core over a store. -/
def Core.opened (store : Store) : Core := ⟨store, ∅, 0, []⟩

/-- The core's operations, as programs. -/
abbrev CoreM (α : Type) : Type := Program Environment Core CoreError α

namespace Core

/-- Put the next question. -/
def ask (call : Call) : CoreM (Except ExternalError call.Answer) := fun env core =>
  (.ok (env.answer core.calls call), { core with calls := core.calls + 1 })

/-- Put the next question and stop if it is refused. -/
def outside (call : Call) : CoreM call.Answer := do
  match ← ask call with
  | .ok answer => pure answer
  | .error error => Program.stop error.toCore

/-- Stop with an error about the request. -/
def invalid {α : Type} (reason : String) : CoreM α := Program.stop (.invalid reason)

def report (error : StoreError) : CoreM Unit :=
  Program.write fun core => { core with reported := core.reported ++ [error] }

/-- Append one event in one write transaction. -/
def append (ctx : Ctx) (body : EventBody) : CoreM Event := do
  let store ← Program.read Core.store
  match store.append ⟨ctx.now, ctx.author, ctx.clientId, ctx.clientSeq, body⟩ with
  | .error error =>
    report error
    Program.stop (.store error)
  | .ok (event, committed) =>
    match ← ask .commit with
    | .error error => Program.stop (.store (.redb error.toCore.toString))
    | .ok () =>
      Program.write fun core => { core with store := committed }
      pure event

/-- A live review's record. -/
def review (id : ReviewId) : CoreM ReviewRecord := do
  let store ← Program.read Core.store
  let record ← Program.orStop (.notFound .review (toString id)) (store.review id)
  match record.lifecycle with
  | .live => pure record
  | .deleted _ => Program.stop (.notFound .review (toString id))

def workspace (id : WorkspaceId) : CoreM Workspace := do
  let store ← Program.read Core.store
  Program.orStop (.notFound .workspace (toString id)) (store.workspace id)

/-- One coherent read of a live review. -/
def reviewSnapshot (id : ReviewId) : CoreM ReviewSnapshot := do
  let store ← Program.read Core.store
  Program.orStop (.notFound .review (toString id)) (store.reviewSnapshot id)

end Core

end Nits.ReviewCore
