import Nits.Protocol.Events
import Nits.Protocol.Render

/-!
# Client and daemon messages

One request gets a single response, or a sequence of stream items with an end, or an
error. Events arrive unsolicited on subscribed connections.
-/

namespace Nits.Protocol

/-- A client's own number of one request on one connection. -/
abbrev RequestId := Nat

abbrev UpgradeId := String

structure ProtocolVersion where
  major : Nat
  minor : Nat
  patch : Nat
  deriving DecidableEq

namespace ProtocolVersion

/-- The version these messages are of. -/
def CURRENT : ProtocolVersion := ⟨0, 21, 0⟩

def text (version : ProtocolVersion) : String :=
  toString version.major ++ "." ++ toString version.minor ++ "." ++ toString version.patch

end ProtocolVersion

/-- The replacement of one daemon build by another, as far as clients follow it. -/
structure UpgradeOperation where
  id : UpgradeId
  target : ProtocolVersion
  deriving DecidableEq

inductive EntityKind
  | workspace | repo | review | comment | thread | ref | path | blob | chunk
  deriving DecidableEq

/-- Why the daemon did not answer a request. -/
inductive RpcError
  /-- The daemon is being replaced; nothing of the request was executed. -/
  | restarting (operationId : UpgradeId)
  /-- The daemon was replaced while the request ran; its outcome is unknown. -/
  | restartInterrupted (operationId : UpgradeId)
  | notFound (kind : EntityKind) (id : String)
  | invalid (reason : String)
  | forbidden (reason : String)
  | seqTooOld (oldest : Seq)
  | cancelled
  | unsupportedProtocol (requested : ProtocolVersion) (supported : List ProtocolVersion)
  | versionMismatch (negotiated received : ProtocolVersion)
  | internal (message : String)
  deriving DecidableEq

/-- Where a subscription starts. -/
inductive Since
  | now
  | after (seq : Seq)
  deriving DecidableEq

structure CommitInfo where
  oid : CommitOid
  subject : String
  deriving DecidableEq

structure ContentHit where
  repoId : RepoId
  path : RepoPath
  line : LineNo
  text : String
  deriving DecidableEq

structure RefCandidate where
  refSpec : RefSpec
  subject : Option String
  deriving DecidableEq

/-- What the checkout holds at a suggestion's place. -/
inductive SuggestionWorktree
  | original
  | proposed
  | changed
  | unavailable (reason : String)
  deriving DecidableEq

inductive SuggestionInspection
  | checked (worktree : SuggestionWorktree)
  | rejected (reason : String)
  deriving DecidableEq

structure SuggestionPreview where
  suggestion : SuggestionRecord
  inspection : SuggestionInspection
  deriving DecidableEq

/-- The requests that the client core makes. -/
inductive Request
  | listWorkspaces
  | listReviews (workspaceId : WorkspaceId)
  | defaultBase (repoId : RepoId)
  | listRefs (repoId : RepoId)
  | getReview (reviewId : ReviewId)
  | reviewSnapshot (reviewId : ReviewId)
  | previewSuggestion (reviewId : ReviewId) (commentId : CommentId)
  | listFiles (reviewId : ReviewId) (scope : DiffScope)
  | openReview (reviewId : ReviewId) (opts : RenderOpts)
  | listCommits (reviewId : ReviewId) (repoId : RepoId)
  | treeSnapshot (repoId : RepoId) (refSpec : RefSpec)
  | fileRender (reviewId : ReviewId) (repoId : RepoId) (path : RepoPath) (opts : RenderOpts)
      (firstChunk : ChunkIndex) (scope : DiffScope)
  | search (reviewId : ReviewId) (query : String) (allFiles : Bool) (scope : DiffScope)
  | changeRender (repoId : RepoId) (path : RepoPath) (change : ChangeKind) (opts : RenderOpts)
      (firstChunk : ChunkIndex)
  | blobRender (repoId : RepoId) (path : RepoPath) (entry : BlobEntry) (firstChunk : ChunkIndex)
  | renderChunk (repoId : RepoId) (path : RepoPath) (target : RenderTarget) (opts : RenderOpts)
      (index : ChunkIndex)
  /-- Every event, from `since` on. -/
  | subscribe (since : Since)
  | mutate (clientSeq : ClientSeq) (mutation : Mutation)

/-- What a client sends. -/
inductive ClientMsg
  | hello (clientId : ClientId) (author : Author)
  | request (id : RequestId) (request : Request)
  | cancel (id : RequestId)

/-- What a request is answered. -/
inductive Response
  | workspaces (workspaces : List Workspace)
  | reviews (reviews : List Review)
  | defaultBase (base : RefSpec)
  | refs (repoId : RepoId) (refs : List RefCandidate)
  | review (review : Review)
  | reviewSnapshot (snapshot : ReviewSnapshot)
  | suggestionPreview (preview : SuggestionPreview)
  | files (files : List FileChange) (resolved : List ResolvedTarget)
  | search (hits : List ContentHit) (truncated : Bool)
  | commits (commits : List CommitInfo)
  | treeSnapshot (snapshot : TreeSnapshot)
  | renderChunk (chunk : RenderChunk)
  | subscribed (seq : Seq)
  | committed (event : Event)
  /-- An answer to a request that the client core never makes. -/
  | unasked (name : String)
  deriving DecidableEq

def Response.name : Response → String
  | .workspaces _ => "Workspaces"
  | .reviews _ => "Reviews"
  | .defaultBase _ => "DefaultBase"
  | .refs .. => "Refs"
  | .review _ => "Review"
  | .reviewSnapshot _ => "ReviewSnapshot"
  | .suggestionPreview _ => "SuggestionPreview"
  | .files .. => "Files"
  | .search .. => "Search"
  | .commits _ => "Commits"
  | .treeSnapshot _ => "TreeSnapshot"
  | .renderChunk _ => "RenderChunk"
  | .subscribed _ => "Subscribed"
  | .committed _ => "Committed"
  | .unasked name => name

/-- A piece of a streamed answer. -/
inductive StreamItem
  | reviewSnapshot (snapshot : ReviewSnapshot)
  | treeSnapshot (snapshot : TreeSnapshot)
  | header (header : FileRenderHeader)
  | chunk (repoId : RepoId) (path : RepoPath) (chunk : RenderChunk)
  deriving DecidableEq

def StreamItem.name : StreamItem → String
  | .reviewSnapshot _ => "ReviewSnapshot"
  | .treeSnapshot _ => "TreeSnapshot"
  | .header _ => "Header"
  | .chunk .. => "Chunk"

/-- What the daemon sends. -/
inductive ServerMsg
  | restarting (operation : UpgradeOperation)
  | welcome
  | rejected (error : RpcError)
  | response (id : RequestId) (response : Response)
  | streamItem (id : RequestId) (item : StreamItem)
  | streamEnd (id : RequestId)
  | error (id : RequestId) (error : RpcError)
  | event (event : Event)
  | treeDelta (delta : TreeDelta)

end Nits.Protocol
