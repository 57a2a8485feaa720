import Nits.Logical.Table
import Mathlib.Data.Nat.Digits.Defs

/-!
# Identifiers

Entity identifiers are ULIDs: 48 bits of millisecond timestamp above 80 bits of
entropy, written as 26 Crockford base-32 digits. The written form sorts as the
number does, so tables keyed by the text are keyed here by the identifier. Each
entity kind has its own identifier type. Git object identifiers are 160-bit
words, and `Seq` counts committed events from one.
-/

namespace Nits.Protocol

open Logical

/-- The entities that ULID identifiers name. -/
inductive IdKind
  | workspace | repo | review | comment | thread | client

/-- A ULID naming one entity of the given kind. -/
structure Id (kind : IdKind) where
  ulid : BitVec 128
  deriving DecidableEq

abbrev WorkspaceId := Id .workspace
abbrev RepoId := Id .repo
abbrev ReviewId := Id .review
abbrev CommentId := Id .comment
/-- A comment thread. Equal to the root comment's id. -/
abbrev ThreadId := Id .thread
abbrev ClientId := Id .client

namespace Id

variable {kind other : IdKind}

/-- Build an id from a millisecond timestamp and 80 bits of entropy. -/
def fromParts (timestampMs : BitVec 64) (random : BitVec 128) : Id kind :=
  ⟨timestampMs.setWidth 48 ++ random.setWidth 80⟩

/-- Millisecond timestamp component. -/
def timestampMs (id : Id kind) : BitVec 64 :=
  (id.ulid >>> 80).setWidth 64

/-- Random component. -/
def random (id : Id kind) : BitVec 128 :=
  id.ulid &&& (BitVec.allOnes 80).setWidth 128

/-- An id is determined by its two components, under any kind. -/
theorem ulid_fromParts (id : Id kind) :
    (fromParts id.timestampMs id.random : Id other).ulid = id.ulid := by
  apply BitVec.eq_of_getLsbD_eq
  intro i bound
  simp only [fromParts, timestampMs, random, BitVec.getLsbD_append, BitVec.getLsbD_setWidth,
    BitVec.getLsbD_and, BitVec.getLsbD_ushiftRight, BitVec.getLsbD_allOnes]
  by_cases low : i < 80
  · simp [low, bound]
  · have high : i - 80 < 48 := by omega
    have wide : i - 80 < 64 := by omega
    have back : 80 + (i - 80) = i := by omega
    simp [low, high, wide, back]

/-- The Crockford base-32 alphabet, in digit order. -/
def alphabet : List Char := "0123456789ABCDEFGHJKMNPQRSTVWXYZ".toList

/-- The base-32 digits of a ULID, most significant first. -/
def toString (id : Id kind) : String :=
  String.ofList ((List.range 26).reverse.map fun place =>
    alphabet.getD (id.ulid.toNat / 32 ^ place % 32) '0')

instance : ToString (Id kind) := ⟨toString⟩

theorem ulid_injective : Function.Injective (ulid : Id kind → BitVec 128) := by
  rintro ⟨left⟩ ⟨right⟩ same
  exact congrArg Id.mk same

instance : TableKey (Id kind) := TableKey.ofImage ulid ulid_injective

instance : Std.TransCmp (TableKey.order (K := Id kind)) := inferInstance

instance {other : IdKind} : Std.TransCmp (TableKey.order (K := Id kind × Id other)) :=
  inferInstance

end Id

/-- The objects that git object identifiers name. -/
inductive ObjectKind
  | blob | commit | tree

/-- A git object identifier of the given kind. -/
structure Oid (kind : ObjectKind) where
  bytes : BitVec 160
  deriving DecidableEq

abbrev BlobOid := Oid .blob
abbrev CommitOid := Oid .commit
abbrev TreeOid := Oid .tree

namespace Oid

variable {kind : ObjectKind}

/-- Forty lower-case hexadecimal digits. -/
def toString (oid : Oid kind) : String :=
  String.ofList ((List.range 40).reverse.map fun place =>
    Nat.digitChar (oid.bytes.toNat / 16 ^ place % 16))

instance : ToString (Oid kind) := ⟨toString⟩

theorem bytes_injective : Function.Injective (bytes : Oid kind → BitVec 160) := by
  rintro ⟨left⟩ ⟨right⟩ same
  exact congrArg Oid.mk same

instance : TableKey (Oid kind) := TableKey.ofImage bytes bytes_injective

end Oid

/-- Daemon-assigned global event sequence number. Strictly increasing from 1. -/
abbrev Seq := Nat

namespace Seq

/-- The first sequence number a committed event can have. -/
def FIRST : Seq := 1

def next (seq : Seq) : Seq := seq + 1

end Seq

/-- Client-assigned per-connection counter. -/
abbrev ClientSeq := Nat

/-- Milliseconds since the Unix epoch, UTC. -/
abbrev Timestamp := Int

/-- Stable identity of a review request, assigned by its committed log event. -/
structure ReviewRequestId where
  fromEventSeq ::
  eventSeq : Seq
  deriving DecidableEq

/-- Stable identity of a review checkpoint, assigned by its committed log event. -/
structure ReviewCheckpointId where
  fromEventSeq ::
  eventSeq : Seq
  deriving DecidableEq

end Nits.Protocol
