import Nits.ClientCore.State
import Nits.Protocol.TreeOrder
import Mathlib.Algebra.Order.BigOperators.Group.List

/-!
# The explorer

The merged file tree: a pure function of the open review, the cached head trees and the
folders that are folded. In the diffing tabs it lists the changed files only.
-/

namespace Nits.ClientCore

open Logical Protocol

/-- Whether the current viewer has seen a file at its current head blob. -/
inductive ViewedState
  | viewed
  /-- Marked viewed at an earlier blob; the file changed since. -/
  | changedSinceViewed
  | unviewed
  deriving DecidableEq

inductive ChangeKindKind
  | submodule | added | deleted | modified | renamed

def ChangeKindKind.ofChange : ChangeKind → ChangeKindKind
  | .submodule _ => .submodule
  | .added _ => .added
  | .deleted _ => .deleted
  | .modified .. => .modified
  | .renamed .. => .renamed

/-- A node of the merged tree. A repository's root has no path. -/
inductive TreeNode
  | dir (name : String) (repoId : RepoId) (path : Option RepoPath) (expanded : Bool)
      (changedBelow : Nat) (children : List TreeNode)
  | file (name : String) (repoId : RepoId) (path : RepoPath) (change : Option ChangeKindKind)
      (seen : ViewedState) (opened : Bool) (additions deletions : Option Nat) (threads : Nat)

/-- A file the tree shows: from the head tree, or from the file list when it only
exists in base (deleted). -/
structure Leaf where
  path : RepoPath
  headContent : ViewedContent

/-- Inputs the tree is derived from. -/
structure ExplorerInputs where
  snapshot : ReviewSnapshot
  /-- Repo display names by id; roots fall back to the id. -/
  repoNames : List (RepoId × String)
  /-- Head tree per repo, when cached. -/
  trees : List TreeSnapshot
  files : List RenderKey
  openFile : Option FileRef
  viewer : Author
  /-- Browse-mode folders the user opened. -/
  expanded : List Folder
  /-- Diffing-mode folders the user closed. -/
  collapsed : List Folder
  /-- Lines added and removed, from the cached render headers. -/
  stats : Table (RepoId × String) (Nat × Nat)
  /-- Threads anchored to the file. -/
  threadCounts : Table (RepoId × String) Nat
  /-- Diffing mode: only the changed files. -/
  changedOnly : Bool

/-- The change for a file, if it is in the review's file list. -/
def changeOf (files : List RenderKey) (repoId : RepoId) (path : RepoPath) : Option ChangeKind :=
  (files.find? fun key => key.repoId = repoId ∧ key.path = path).bind fun key =>
    match key.target with
    | .diff change => some change
    | .blob _ => none

/-- Agents never mark files, so for an agent everything is unviewed. -/
def viewedState (snapshot : ReviewSnapshot) (viewer : Author) (repoId : RepoId) (path : RepoPath)
    (headContent : ViewedContent) : ViewedState :=
  match viewer.asHuman with
  | none => .unviewed
  | some human =>
    match snapshot.viewed.find? fun mark =>
      mark.repoId = repoId ∧ mark.path = path ∧ mark.viewer = human with
    | none => .unviewed
    | some mark => if mark.content = headContent then .viewed else .changedSinceViewed

namespace ExplorerInputs

/-- Diffing folders are open unless closed; Browse folders are closed unless opened. -/
def isExpanded (inputs : ExplorerInputs) (folder : Folder) : Bool :=
  if inputs.changedOnly then !inputs.collapsed.contains folder
  else inputs.expanded.contains folder

def rootName (inputs : ExplorerInputs) (repoId : RepoId) : String :=
  match inputs.repoNames.find? fun named => named.1 = repoId with
  | some (_, name) => name
  | none => toString repoId

def fileNode (inputs : ExplorerInputs) (repoId : RepoId) (name : String) (leaf : Leaf) : TreeNode :=
  let stats := inputs.stats[(repoId, leaf.path.asStr)]?
  .file name repoId leaf.path
    ((changeOf inputs.files repoId leaf.path).map ChangeKindKind.ofChange)
    (viewedState inputs.snapshot inputs.viewer repoId leaf.path leaf.headContent)
    (inputs.openFile.any fun file => file.repoId = repoId ∧ file.path = leaf.path)
    (stats.map Prod.fst) (stats.map Prod.snd)
    (inputs.threadCounts[(repoId, leaf.path.asStr)]?.getD 0)

end ExplorerInputs

def countChanged (nodes : List TreeNode) : Nat :=
  (nodes.map fun node => match node with
    | .dir _ _ _ _ changedBelow _ => changedBelow
    | .file _ _ _ change _ _ _ _ _ => if change.isSome then 1 else 0).sum

/-- Directories first, then files, each alphabetical. -/
def TreeNode.rank : TreeNode → Bool × String
  | .dir name .. => (false, name)
  | .file name .. => (true, name)

/-! ## Nesting -/

/-- What every path below a folder starts with. -/
def dirPrefix : Option RepoPath → List Char
  | none => []
  | some dir => dir.asStr.toList ++ ['/']

def stripPrefix (lead text : List Char) : Option (List Char) :=
  if lead.isPrefixOf text then some (text.drop lead.length) else none

/-- The text before and after the first slash. -/
def splitOnce : List Char → Option (List Char × List Char)
  | [] => none
  | c :: rest =>
    if c = '/' then some ([], rest)
    else (splitOnce rest).map fun (name, after) => (c :: name, after)

/-- A folder or a file directly in a folder. -/
inductive Sibling
  | folder (name : String) (path : RepoPath)
  | leaf (name : String) (leaf : Leaf)

/-- The entries of a folder in the order of the leaves, each folder at its first leaf. -/
def siblings (lead : List Char) : List String → List Leaf → List Sibling
  | _, [] => []
  | seen, leaf :: leaves =>
    match stripPrefix lead leaf.path.asStr.toList with
    | none => siblings lead seen leaves
    | some rest =>
      match splitOnce rest with
      | none => .leaf (String.ofList rest) leaf :: siblings lead seen leaves
      | some (name, _) =>
        let childDir := String.ofList name
        if seen.contains childDir then siblings lead seen leaves
        else match RepoPath.new (String.ofList (lead ++ name)) with
          | .error _ => siblings lead (childDir :: seen) leaves
          | .ok path => .folder childDir path :: siblings lead (childDir :: seen) leaves

variable {lead : List Char}

theorem stripPrefix_eq_some {text rest : List Char} :
    stripPrefix lead text = some rest ↔ text = lead ++ rest := by
  unfold stripPrefix
  split
  · rename_i leads
    obtain ⟨more, rfl⟩ := List.isPrefixOf_iff_prefix.mp leads
    simp
  · rename_i stray
    refine iff_of_false (by simp) ?_
    rintro rfl
    exact stray (List.isPrefixOf_iff_prefix.mpr (List.prefix_append lead rest))

theorem splitOnce_cons {c : Char} {rest : List Char} : splitOnce (c :: rest) =
    if c = '/' then some ([], rest)
    else (splitOnce rest).map fun split => (c :: split.1, split.2) := rfl

theorem splitOnce_append {name rest : List Char} (plain : '/' ∉ name) :
    splitOnce (name ++ '/' :: rest) = some (name, rest) := by
  induction name with
  | nil => rfl
  | cons c name ih =>
    obtain ⟨different, plain⟩ := List.ne_and_not_mem_of_not_mem_cons plain
    rw [List.cons_append, splitOnce_cons, if_neg (Ne.symm different), ih plain]
    rfl

theorem splitOnce_eq_some {text name rest : List Char} :
    splitOnce text = some (name, rest) ↔ text = name ++ '/' :: rest ∧ '/' ∉ name := by
  constructor
  · intro found
    induction text generalizing name with
    | nil => cases found
    | cons c more ih =>
      rw [splitOnce_cons] at found
      by_cases slash : c = '/'
      · rw [if_pos slash] at found
        cases found
        exact ⟨by rw [slash, List.nil_append], List.not_mem_nil⟩
      · rw [if_neg slash] at found
        obtain ⟨⟨before, after⟩, split, same⟩ := Option.map_eq_some_iff.mp found
        cases same
        obtain ⟨rfl, plain⟩ := ih split
        refine ⟨rfl, ?_⟩
        rw [List.mem_cons, not_or]
        exact ⟨Ne.symm slash, plain⟩
  · rintro ⟨rfl, plain⟩
    exact splitOnce_append plain

theorem splitOnce_eq_none {text : List Char} : splitOnce text = none ↔ '/' ∉ text := by
  constructor
  · intro whole mem
    obtain ⟨name, rest, rfl, plain⟩ := List.eq_append_cons_of_mem mem
    rw [splitOnce_eq_some.mpr ⟨rfl, plain⟩] at whole
    cases whole
  · intro plain
    cases found : splitOnce text with
    | none => rfl
    | some parts =>
      obtain ⟨name, rest⟩ := parts
      obtain ⟨rfl, -⟩ := splitOnce_eq_some.mp found
      exact absurd (by simp) plain

/-- What the first leaf adds to the siblings: nothing when it is elsewhere or in a folder
that was listed, else itself or its folder. -/
inductive Sibling.First (lead : List Char) (seen : List String) (leaf : Leaf)
    (leaves : List Leaf) : List Sibling → Prop
  | elsewhere (stray : ∀ rest, leaf.path.asStr.toList ≠ lead ++ rest) :
      First lead seen leaf leaves (siblings lead seen leaves)
  | leaf (name : List Char) (below : leaf.path.asStr.toList = lead ++ name)
      (plain : '/' ∉ name) :
      First lead seen leaf leaves
        (.leaf (String.ofList name) leaf :: siblings lead seen leaves)
  | known (name rest : List Char)
      (below : leaf.path.asStr.toList = lead ++ (name ++ '/' :: rest)) (plain : '/' ∉ name)
      (known : String.ofList name ∈ seen) :
      First lead seen leaf leaves (siblings lead seen leaves)
  | folder (name rest : List Char) (path : RepoPath)
      (below : leaf.path.asStr.toList = lead ++ (name ++ '/' :: rest)) (plain : '/' ∉ name)
      (fresh : String.ofList name ∉ seen) (named : path.asStr = String.ofList (lead ++ name)) :
      First lead seen leaf leaves
        (.folder (String.ofList name) path :: siblings lead (String.ofList name :: seen) leaves)

theorem siblings_cons (lead : List Char) (seen : List String) (leaf : Leaf) (leaves : List Leaf) :
    Sibling.First lead seen leaf leaves (siblings lead seen (leaf :: leaves)) := by
  unfold siblings
  cases stripped : stripPrefix lead leaf.path.asStr.toList with
  | none =>
    refine .elsewhere fun rest below => ?_
    rw [stripPrefix_eq_some.mpr below] at stripped
    cases stripped
  | some rest =>
    have below := stripPrefix_eq_some.mp stripped
    cases parts : splitOnce rest with
    | none =>
      simp only [parts]
      exact .leaf rest below (splitOnce_eq_none.mp parts)
    | some split =>
      obtain ⟨name, after⟩ := split
      obtain ⟨rfl, plain⟩ := splitOnce_eq_some.mp parts
      simp only [parts]
      by_cases known : String.ofList name ∈ seen
      · rw [if_pos (by simpa using known)]
        exact .known name after below plain known
      · rw [if_neg (by simpa using known)]
        have valid : RepoPath.invalidity (String.ofList (lead ++ name)) = none :=
          RepoPath.invalidity_before leaf.path.valid (below.trans (List.append_assoc ..).symm)
        rw [RepoPath.new_of_valid valid]
        exact .folder name after _ below plain known rfl

/-- Where a sibling is, its folder starting with `lead`, and which leaf put it there. -/
inductive Sibling.Of (lead : List Char) (leaves : List Leaf) : Sibling → Prop
  | folder {name : List Char} {path : RepoPath} {leaf : Leaf} {rest : List Char}
      (mem : leaf ∈ leaves) (plain : '/' ∉ name)
      (below : leaf.path.asStr.toList = lead ++ (name ++ '/' :: rest))
      (named : path.asStr = String.ofList (lead ++ name)) :
      Sibling.Of lead leaves (.folder (String.ofList name) path)
  | leaf {name : List Char} {leaf : Leaf} (mem : leaf ∈ leaves) (plain : '/' ∉ name)
      (below : leaf.path.asStr.toList = lead ++ name) :
      Sibling.Of lead leaves (.leaf (String.ofList name) leaf)

theorem Sibling.Of.mono {leaves more : List Leaf} {sibling : Sibling}
    (of : Sibling.Of lead leaves sibling) (within : ∀ leaf ∈ leaves, leaf ∈ more) :
    Sibling.Of lead more sibling := by
  cases of with
  | folder mem plain below named => exact .folder (within _ mem) plain below named
  | leaf mem plain below => exact .leaf (within _ mem) plain below

theorem Sibling.Of.path {leaves : List Leaf} {name : String} {path : RepoPath}
    (of : (Sibling.folder name path).Of lead leaves) :
    path.asStr = String.ofList (lead ++ name.toList) := by
  generalize folder : Sibling.folder name path = sibling at of
  cases of with
  | folder mem plain below named =>
    obtain ⟨rfl, rfl⟩ := Sibling.folder.inj folder
    rw [named, String.toList_ofList]
  | leaf => cases folder

theorem of_mem_siblings {seen : List String} {leaves : List Leaf} {sibling : Sibling}
    (mem : sibling ∈ siblings lead seen leaves) : sibling.Of lead leaves := by
  induction leaves generalizing seen with
  | nil => cases mem
  | cons leaf leaves ih =>
    have further {seen : List String} (mem : sibling ∈ siblings lead seen leaves) :
        sibling.Of lead (leaf :: leaves) :=
      (ih mem).mono fun _ => List.mem_cons_of_mem _
    have first := siblings_cons lead seen leaf leaves
    generalize siblings lead seen (leaf :: leaves) = listed at first mem
    cases first with
    | elsewhere => exact further mem
    | leaf name below plain =>
      obtain rfl | later := List.mem_cons.mp mem
      · exact .leaf List.mem_cons_self plain below
      · exact further later
    | known => exact further mem
    | folder name rest path below plain fresh named =>
      obtain rfl | later := List.mem_cons.mp mem
      · exact .folder List.mem_cons_self plain below named
      · exact further later

/-- How many characters the leaves can still reach below a folder. -/
def depthLeft (leaves : List Leaf) (dir : Option RepoPath) : Nat :=
  (leaves.map fun leaf => leaf.path.asStr.toList.length).sum - (dirPrefix dir).length

theorem depthLeft_lt {leaves : List Leaf} {dir : Option RepoPath} {name : String} {path : RepoPath}
    (listed : .folder name path ∈ siblings (dirPrefix dir) [] leaves) :
    depthLeft leaves (some path) < depthLeft leaves dir := by
  cases of_mem_siblings listed with
  | @folder name _ leaf rest mem plain below named =>
    have long : leaf.path.asStr.toList.length ≤
        (leaves.map fun leaf => leaf.path.asStr.toList.length).sum :=
      List.single_le_sum (fun _ _ => Nat.zero_le _) _ (List.mem_map.mpr ⟨leaf, mem, rfl⟩)
    have deeper : (dirPrefix (some path)).length = (dirPrefix dir).length + name.length + 1 := by
      rw [dirPrefix, named, String.toList_ofList, List.length_append, List.length_append]
      rfl
    rw [below, List.length_append, List.length_append, List.length_cons] at long
    unfold depthLeft
    omega

/-- Children of a folder, from the sorted leaves below it. -/
def nest (inputs : ExplorerInputs) (repoId : RepoId) (leaves : List Leaf) (dir : Option RepoPath) :
    List TreeNode :=
  sortWith (fun left right => TableKey.order left.rank right.rank)
    ((siblings (dirPrefix dir) [] leaves).attach.map fun
      | ⟨.folder name path, _⟩ =>
        let children := nest inputs repoId leaves (some path)
        .dir name repoId (some path) (inputs.isExpanded (repoId, some path))
          (countChanged children) children
      | ⟨.leaf name leaf, _⟩ => inputs.fileNode repoId name leaf)
termination_by depthLeft leaves dir
decreasing_by exact depthLeft_lt ‹_›

/-! ## The whole tree -/

/-- The leaves of each repository. -/
abbrev RepoLeaves := Table RepoId (List Leaf)

namespace RepoLeaves

/-- The leaves of a repository, none yet if it is new. -/
def of (repos : RepoLeaves) (repoId : RepoId) : List Leaf := repos[repoId]?.getD []

/-- Seed the repo roots so a review with files still shows its repos. -/
def withRoot (repos : RepoLeaves) (file : RenderKey) : RepoLeaves :=
  repos.insert file.repoId (repos.of file.repoId)

def withTree (repos : RepoLeaves) (tree : TreeSnapshot) : RepoLeaves :=
  repos.insert tree.repoId (repos.of tree.repoId ++ tree.entries.filterMap fun entry =>
    entry.kind.blobEntry.map fun blob => ⟨entry.path, .blob blob⟩)

/-- A changed file adds a leaf unless the head tree has one at its path. -/
def withFile (repos : RepoLeaves) (file : RenderKey) : RepoLeaves :=
  let leaves := repos.of file.repoId
  let headContent := match file.target with
    | .diff change => change.viewedContent
    | .blob entry => .blob entry
  repos.insert file.repoId
    (if leaves.all fun leaf => leaf.path ≠ file.path then leaves ++ [⟨file.path, headContent⟩]
    else leaves)

end RepoLeaves

namespace ExplorerInputs

def leaves (inputs : ExplorerInputs) : RepoLeaves :=
  let seeded :=
    if inputs.changedOnly then inputs.files.foldl RepoLeaves.withRoot ∅
    else inputs.trees.foldl RepoLeaves.withTree ∅
  inputs.files.foldl RepoLeaves.withFile seeded

/-- The tree of one repository. -/
def root (inputs : ExplorerInputs) (repoId : RepoId) (leaves : List Leaf) : TreeNode :=
  let leaves := sortWith (fun left right => TableKey.order left.path right.path) leaves
  let children := nest inputs repoId leaves none
  .dir (inputs.rootName repoId) repoId none (inputs.isExpanded (repoId, none))
    (countChanged children) children

/-- One root per repo. -/
def roots (inputs : ExplorerInputs) : List TreeNode :=
  inputs.leaves.toList.map fun repo => inputs.root repo.1 repo.2

end ExplorerInputs

mutual

/-- The files of a node, depth first. -/
def TreeNode.files : TreeNode → List FileRef
  | .dir _ _ _ _ _ children => filesOf children
  | .file _ repoId path .. => [⟨repoId, path⟩]

def filesOf : List TreeNode → List FileRef
  | [] => []
  | node :: rest => node.files ++ filesOf rest

end

/-! ## Stepping -/

/-- The file that the next or the previous file key opens. The daemon serves files in
tree display order already. -/
def stepFile (command : Command) (forward : Bool) (files : List RenderKey)
    (openFile : Option RenderKey) : Except NoTarget FileRef :=
  if files = [] then .error (.nothing command)
  else
    let current := openFile.bind fun render => files.idxOf? render
    let next : Except NoTarget Nat := match forward, current with
      | true, none => .ok 0
      | true, some i => if i + 1 ≥ files.length then .error .atEdge else .ok (i + 1)
      | false, none => .ok (files.length - 1)
      | false, some i => if i = 0 then .error .atEdge else .ok (i - 1)
    next.bind fun index => match files[index]? with
      | none => .error (.nothing command)
      | some key => .ok ⟨key.repoId, key.path⟩

end Nits.ClientCore
