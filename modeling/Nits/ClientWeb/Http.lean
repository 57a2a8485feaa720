import Mathlib.Data.List.Infix
import Nits.Logical.Program

/-!
# Request heads

Bounded HTTP parsing. A head ends at the first blank line; what was read behind it is kept
for the protocol that the request opens. Repeated headers are kept for the access policy to
reject.
-/

namespace Nits.ClientWeb

open Logical

abbrev Bytes := List UInt8

def MAX_HEAD : Nat := 16 * 1024

/-- Why no head could be read. -/
inductive ReadError
  | invalid
  | unexpectedEof
  deriving DecidableEq

/-- A parsed head, before its parts are checked. -/
structure RawHead where
  method : Option String
  path : Option String
  version : Option Nat
  headers : List (Bytes × Bytes)

/-- What the HTTP libraries make of bytes and texts. A URI in origin form is its text. -/
class Http where
  parse : Bytes → Option RawHead
  isMethod : String → Bool
  isUri : String → Bool
  /-- A header name, normalized. -/
  headerName : Bytes → Option String
  isHeaderValue : Bytes → Bool
  path : String → String
  /-- Whether a URI equals a text. -/
  uriIs : String → String → Bool

inductive Version
  | http10 | http11
  deriving DecidableEq

/-- A request's line and headers. -/
structure RequestHead where
  method : String
  uri : String
  version : Version
  headers : List (String × Bytes)
  deriving DecidableEq

/-! ## Reading -/

/-- Where the first blank line starts. -/
def headEnd : Bytes → Option Nat
  | [] => none
  | byte :: later =>
    if [13, 10, 13, 10] <+: byte :: later then some 0 else (headEnd later).map (· + 1)

/-- A head as it was read: where it ends in what was read, and what was not read yet. -/
structure Received where
  finish : Nat
  buf : Bytes
  rest : List Bytes

/-- Read until a blank line. An empty read is the end of the stream. -/
def receive (buf : Bytes) : List Bytes → Except ReadError Received
  | [] =>
    match headEnd buf with
    | some start =>
      if MAX_HEAD < start + 4 then .error .invalid else .ok ⟨start + 4, buf, []⟩
    | none => if MAX_HEAD ≤ buf.length then .error .invalid else .error .unexpectedEof
  | read :: later =>
    match headEnd buf with
    | some start =>
      if MAX_HEAD < start + 4 then .error .invalid else .ok ⟨start + 4, buf, read :: later⟩
    | none =>
      if MAX_HEAD ≤ buf.length then .error .invalid
      else if read = [] then .error .unexpectedEof
      else receive (buf ++ read) later

section Parsing

variable [Http]

def toHeaders (headers : List (Bytes × Bytes)) : Except ReadError (List (String × Bytes)) :=
  headers.mapM fun (name, value) =>
    match Http.headerName name with
    | none => .error .invalid
    | some name => if Http.isHeaderValue value then .ok (name, value) else .error .invalid

/-- Check the parts of a head. A fragment is rejected before the URI is parsed, so that a
lookalike never becomes the privileged route. -/
def RawHead.check (raw : RawHead) : Except ReadError RequestHead :=
  match raw.path with
  | none => .error .invalid
  | some target =>
    if ¬ ("/".toList <+: target.toList) ∨ '#' ∈ target.toList then .error .invalid
    else match raw.method, raw.version with
      | some method, some version =>
        if version ≠ 1 ∧ version ≠ 0 then .error .invalid
        else if ¬ Http.isMethod method ∨ ¬ Http.isUri target then .error .invalid
        else (toHeaders raw.headers).map fun headers =>
          ⟨method, target, if version = 1 then .http11 else .http10, headers⟩
      | _, _ => .error .invalid

/-- The head of a request, what was read behind it, and what was not read yet. -/
def readHead (reads : List Bytes) : Except ReadError (RequestHead × Bytes × List Bytes) := do
  let received ← receive [] reads
  match Http.parse (received.buf.take received.finish) with
  | none => .error .invalid
  | some raw => do
    let head ← raw.check
    pure (head, received.buf.drop received.finish, received.rest)

end Parsing

/-! ## What is read is kept -/

/-- Nothing that is read gets lost. -/
theorem receive_flatten {buf : Bytes} {reads : List Bytes} {received : Received}
    (ok : receive buf reads = .ok received) :
    received.buf ++ received.rest.flatten = buf ++ reads.flatten := by
  induction reads generalizing buf with
  | nil =>
    unfold receive at ok
    split at ok <;> split at ok <;> cases ok
    rfl
  | cons read later ih =>
    unfold receive at ok
    split at ok
    · split at ok <;> cases ok
      rfl
    · split at ok
      · cases ok
      split at ok
      · cases ok
      rw [ih ok, List.flatten_cons, List.append_assoc]

theorem readHead_flatten [Http] {reads : List Bytes} {head : RequestHead} {pending : Bytes}
    {rest : List Bytes} (ok : readHead reads = .ok (head, pending, rest)) :
    ∃ bytes raw, Http.parse bytes = some raw ∧ raw.check = .ok head ∧
      reads.flatten = bytes ++ pending ++ rest.flatten := by
  unfold readHead at ok
  cases received : receive [] reads with
  | error error =>
    rw [received] at ok
    cases ok
  | ok found =>
    rw [received] at ok
    simp only [bind, Except.bind] at ok
    split at ok
    · cases ok
    next raw parsed =>
      split at ok
      · cases ok
      next checked =>
        cases ok
        refine ⟨_, raw, parsed, checked, ?_⟩
        rw [List.take_append_drop]
        exact (receive_flatten received).symm

end Nits.ClientWeb
