import Nits.Protocol.Rpc

/-!
# Installed builds and their activation

Exact executable identity, release order, application protocol and store schema are
independent of each other: a digest never says which of two releases is newer.
-/

namespace Nits.Protocol.Lifecycle

open Protocol

/-- SHA-256 of an executable's bytes. -/
abbrev BuildDigest := BitVec 256

/-- One dot-separated part of a pre-release tag. -/
inductive Identifier
  | numeric (value : Nat)
  | alphanumeric (text : String)
  deriving DecidableEq

/-- Numbers precede texts; numbers compare by value and texts by their characters. -/
def Identifier.cmp : Identifier → Identifier → Ordering
  | .numeric left, .numeric right => compare left right
  | .numeric _, .alphanumeric _ => .lt
  | .alphanumeric _, .numeric _ => .gt
  | .alphanumeric left, .alphanumeric right => compare left right

/-- Tags compare part by part, and a tag precedes its extensions. -/
def cmpParts : List Identifier → List Identifier → Ordering
  | [], [] => .eq
  | [], _ :: _ => .lt
  | _ :: _, [] => .gt
  | left :: lefts, right :: rights => (left.cmp right).then (cmpParts lefts rights)

/-- A semantic version. Build metadata is kept and never orders releases. -/
structure ReleaseVersion where
  major : Nat
  minor : Nat
  patch : Nat
  pre : List Identifier
  build : String
  deriving DecidableEq

/-- A pre-release precedes the release it leads to. -/
def cmpPre : List Identifier → List Identifier → Ordering
  | [], [] => .eq
  | [], _ :: _ => .gt
  | _ :: _, [] => .lt
  | left, right => cmpParts left right

def ReleaseVersion.cmpPrecedence (left right : ReleaseVersion) : Ordering :=
  (compare left.major right.major).then <|
    (compare left.minor right.minor).then <|
      (compare left.patch right.patch).then (cmpPre left.pre right.pre)

/-- 1 to 64 ASCII letters, digits, `.`, `_` or `-`. -/
def channelAdmits (name : String) : Bool :=
  !name.isEmpty && decide (name.utf8ByteSize ≤ 64) &&
    name.toList.all fun char =>
      char.isAlphanum || char == '.' || char == '_' || char == '-'

/-- An independently installed release line. Different channels are not ordered. -/
structure ReleaseChannel where
  name : String
  wellFormed : channelAdmits name = true
  deriving DecidableEq

/-- Order evidence, kept apart from executable equality. -/
inductive ReleaseRelation
  | older | equal | newer | differentChannel
  deriving DecidableEq

structure ReleaseIdentity where
  channel : ReleaseChannel
  version : ReleaseVersion
  deriving DecidableEq

def ReleaseIdentity.relativeTo (candidate running : ReleaseIdentity) : ReleaseRelation :=
  if candidate.channel ≠ running.channel then .differentChannel
  else
    match candidate.version.cmpPrecedence running.version with
    | .lt => .older
    | .eq => .equal
    | .gt => .newer

/-- What an installed executable says of itself. -/
structure BuildDescriptor where
  digest : BuildDigest
  release : ReleaseIdentity
  protocol : ProtocolVersion
  schema : Nat
  control : Nat
  worker : Nat
  deriving DecidableEq

inductive UpgradeStage
  | preparingRestart | draining | startingReplacement | confirmingReady

inductive UpgradeFailureKind
  | notManaged | candidateUnavailable | incompatibleControl | olderRelease | differentChannel
  | unorderedRelease | contextMismatch | drainTimeout | startFailed | migrationFailed
  | readinessTimeout | ownerInterrupted | io

structure UpgradeFailure where
  stage : UpgradeStage
  kind : UpgradeFailureKind
  message : String

/-- A phase is active, durably successful, or failed with its last phase. -/
inductive UpgradeProgress
  | active (stage : UpgradeStage)
  | ready
  | failed (failure : UpgradeFailure)

/-- One activation, as the coordinator's journal records it. -/
structure UpgradeOperation where
  id : UpgradeId
  source : BuildDescriptor
  target : BuildDescriptor
  progress : UpgradeProgress

inductive UpgradeResult
  | alreadyCurrent (build : BuildDescriptor)
  | accepted (operation : UpgradeOperation)
  | restarted (operation : UpgradeOperation)
  | failed (failure : UpgradeFailure)

/-- An explicit activation may replace a build of the same release; an automatic one
needs a newer release. -/
inductive UpgradeIntent
  | automatic | explicit

inductive InstalledCandidate
  | available (build : BuildDescriptor)
  | unavailable (reason : String)

inductive ManagedDaemonState
  | running (build : BuildDescriptor)
  | stopped
  | legacy (reason : String)
  | unavailable (reason : String)
  | notManaged

structure ManagedDaemonStatus where
  running : ManagedDaemonState
  installed : InstalledCandidate
  operation : Option UpgradeOperation

end Nits.Protocol.Lifecycle
