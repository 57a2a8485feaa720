import Nits.Logical.Shell
import Nits.Mcp.Session

/-!
# Commands for a remote daemon

OpenSSH joins the remote arguments with spaces into a line for the remote shell. Each
configured word is written so that it stays one word of that line. Quoting keeps all words
literal; a word that needs no quotes does too, except in the first place: there `ssh` takes an
option for its own, and to the shell an assignment or a reserved word is not the program.
-/

namespace Nits.Nitsd

open Logical Protocol Protocol.Lifecycle

/-- The remote `nits` that a context names. -/
inductive RemoteBin
  | default
  | nits (bin : String)
  /-- Written before the daemon became `nits daemon serve`; refused. -/
  | legacy (bin : String)

structure SshTarget where
  host : String
  nits : String
  args : List String
  ssh : Option String

/-- Resolve an SSH context for repeated connection attempts. -/
def SshTarget.resolve (host : String) (bin : RemoteBin) (args : List String)
    (ssh : Option String) : Option SshTarget :=
  match bin with
  | .legacy _ => none
  | .default => some ⟨host, "nits", args, ssh⟩
  | .nits bin => some ⟨host, bin, args, ssh⟩

/-- The characters that a bare word may have. All their bytes are ASCII. -/
def isBareChar (char : Char) : Bool :=
  char.isAlphanum ∨ char ∈ ['_', '@', '%', '+', '=', ':', ',', '.', '/', '-']

def isBare (word : String) : Bool := word ≠ "" ∧ word.toList.all isBareChar

/-- Sixty-four lower-case hexadecimal digits. -/
def digestText (digest : BuildDigest) : String :=
  String.ofList ((List.range 64).reverse.map fun place =>
    Nat.digitChar (digest.toNat / 16 ^ place % 16))

inductive ManagementCommand
  | status
  | upgrade (intent : UpgradeIntent) (expected : Option BuildDigest)

def intentText : UpgradeIntent → String
  | .automatic => "automatic"
  | .explicit => "explicit"

def ManagementCommand.words : ManagementCommand → List String
  | .status => ["control-status"]
  | .upgrade intent expected =>
    ["control-upgrade", "--intent", intentText intent] ++
      match expected with
      | none => []
      | some digest => ["--expected-build", digestText digest]

namespace SshTarget

end SshTarget

/-! ## What `ssh` sends -/

/-- A word with a dash in front; a dash alone is no option. -/
def isOption (word : String) : Bool := word.toList.head? = some '-' ∧ word ≠ "-"

def joined (words : List String) : List Char := [' '].intercalate (words.map String.toList)

/-- The remote binary is not a bare word that is an option, is reserved or assigns. -/
def SshTarget.Plain (target : SshTarget) : Prop :=
  ¬ (isBare target.nits ∧ (isOption target.nits ∨ Shell.isReserved (Shell.unquoted target.nits) ∨
    Shell.isAssignment (Shell.unquoted target.nits)))

/-! ## How the remote shell reads the words -/

variable {word : String}

namespace SshTarget

variable {target : SshTarget}

end SshTarget

end Nits.Nitsd
