import Mathlib.Algebra.Group.Nat.Defs
import Nits.Logical.Table

/-!
# Values that carry their invariants

Non-empty lists, 1-based line numbers, ordered line ranges, repository-relative
paths and validated text. Each type holds the proof of its own invariant, so a
decoded value is well formed by construction.
-/

namespace Nits.Protocol

open Logical

/-- Error constructing an invariant type. -/
inductive InvariantError
  | empty
  | inverted (start finish : Nat)
  | path (path why : String)

/-- A list with at least one element. -/
structure NonEmpty (α : Type) where
  items : List α
  nonempty : items ≠ []
  deriving DecidableEq

namespace NonEmpty

variable {α : Type}

def new : List α → Except InvariantError (NonEmpty α)
  | [] => .error .empty
  | head :: tail => .ok ⟨head :: tail, List.cons_ne_nil head tail⟩

def singleton (item : α) : NonEmpty α := ⟨[item], List.cons_ne_nil item []⟩

def first (list : NonEmpty α) : α := list.items.head list.nonempty

/-- Update elements in place; the length does not change. -/
def mapItems (list : NonEmpty α) (change : List α → List α)
    (kept : ∀ items, (change items).length = items.length) : NonEmpty α where
  items := change list.items
  nonempty := by
    intro emptied
    apply list.nonempty
    rw [← List.length_eq_zero_iff, ← kept, emptied]
    rfl

end NonEmpty

/-- A 1-based line number within a blob. -/
structure LineNo where
  get : Nat
  positive : 0 < get
  bounded : get < 2 ^ 32
  deriving DecidableEq

namespace LineNo

/-- Refuses zero. -/
def new (n : UInt32) : Option LineNo :=
  if positive : 0 < n.toNat then some ⟨n.toNat, positive, n.toNat_lt⟩ else none

/-- Line 1. -/
def FIRST : LineNo := ⟨1, by decide, by decide⟩

/-- A line number that is written out. -/
def ofNat (number : Nat)
    (within : decide (0 < number ∧ number < 2 ^ 32) = true := by exact Eq.refl true) : LineNo :=
  ⟨number, (of_decide_eq_true within).1, (of_decide_eq_true within).2⟩

/-- Convert a 0-based index to a line number. The successor wraps in 32 bits,
and a wrapped zero reads as line 1. -/
def fromIndex (i : UInt32) : LineNo :=
  (new (i + 1)).getD FIRST

/-- Convert to a 0-based index. -/
def index (line : LineNo) : Nat := line.get - 1

/-- Below the last 32-bit number, converting to a line number loses nothing. -/
theorem get_fromIndex {i : UInt32} (bounded : i.toNat < 2 ^ 32 - 1) :
    (fromIndex i).get = i.toNat + 1 := by
  have exact : (i + 1).toNat = i.toNat + 1 := by
    rw [UInt32.toNat_add, UInt32.toNat_one]
    omega
  simp [fromIndex, new, exact]

instance : ToString LineNo := ⟨fun line => toString line.get⟩

end LineNo

/-- An inclusive range of lines, from `start` to its end, `finish`. -/
structure LineRange where
  start : LineNo
  finish : LineNo
  ordered : start.get ≤ finish.get
  deriving DecidableEq

namespace LineRange

def new (start finish : LineNo) : Except InvariantError LineRange :=
  if ordered : start.get ≤ finish.get then .ok ⟨start, finish, ordered⟩
  else .error (.inverted start.get finish.get)

def single (line : LineNo) : LineRange := ⟨line, line, Nat.le_refl _⟩

/-- Number of lines covered. -/
def len (range : LineRange) : Nat := range.finish.get - range.start.get + 1

end LineRange

/-! ## Text -/

/-- The characters with the Unicode `White_Space` property. -/
def isWhitespace (c : Char) : Bool :=
  let code := c.toNat
  (9 ≤ code && code ≤ 13) || code = 32 || code = 0x85 || code = 0xA0 || code = 0x1680 ||
    (0x2000 ≤ code && code ≤ 0x200A) || code = 0x2028 || code = 0x2029 || code = 0x202F ||
    code = 0x205F || code = 0x3000

/-- The characters in the Unicode `Cc` category. -/
def isControl (c : Char) : Bool :=
  let code := c.toNat
  code ≤ 0x1F || (0x7F ≤ code && code ≤ 0x9F)

/-- The text without leading and trailing whitespace. -/
def trim (text : String) : String :=
  String.ofList (((text.toList.dropWhile isWhitespace).reverse.dropWhile isWhitespace).reverse)

/-- Text that trims to nothing. -/
def isBlank (text : String) : Bool := (trim text).isEmpty

/-! ## Validated text -/

/-- Why a path is not repository-relative, if it is not. -/
def RepoPath.invalidity (path : String) : Option String :=
  let chars := path.toList
  if chars.isEmpty then some "empty"
  else if chars.contains '\x00' then some "contains NUL"
  else if chars.head? = some '/' then some "absolute"
  else if chars.getLast? = some '/' then some "trailing slash"
  else (chars.splitOn '/').findSome? fun component =>
    if component.isEmpty then some "empty component"
    else if component = ['.'] ∨ component = ['.', '.'] then some "relative component"
    else none

/-- A repository-relative, `/`-separated, normalised path: non-empty, no leading
or trailing `/`, no `.`, `..` or empty components, no NUL. -/
structure RepoPath where
  asStr : String
  valid : RepoPath.invalidity asStr = none
  deriving DecidableEq

namespace RepoPath

def new (path : String) : Except InvariantError RepoPath :=
  match invalid : invalidity path with
  | some why => .error (.path path why)
  | none => .ok ⟨path, invalid⟩

theorem valid_a : invalidity "a" = none := by decide

theorem asStr_injective : Function.Injective asStr := by
  rintro ⟨left, _⟩ ⟨right, _⟩ same
  cases same
  rfl

instance : TableKey RepoPath := TableKey.ofImage asStr asStr_injective

instance : ToString RepoPath := ⟨asStr⟩

end RepoPath

/-- One Git revision expression. Git resolves it to exactly one commit beside
the checkout. -/
structure RevisionExpr where
  text : String
  valid : isBlank text = false ∧ text.toList.any isControl = false
  deriving DecidableEq

/-- A nonempty explanation, without surrounding whitespace. -/
structure DeferralReason where
  text : String
  trimmed : trim text = text
  valid : isBlank text = false ∧
    text.toList.any (fun c => isControl c && c != '\n' && c != '\t') = false
  deriving DecidableEq

/-- An absolute HTTP(S) URL, kept as supplied. -/
structure TrackingUrl where
  text : String
  deriving DecidableEq

end Nits.Protocol
