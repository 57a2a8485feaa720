import Nits.ClientCore.Explorer
import Nits.ReviewCore.Files

/-!
# One order of files

Depth first, the explorer lists the leaves of each repository in tree order, and the
repositories by id. The daemon lists them by name.
-/

namespace Nits.ClientCore

open Logical Protocol

/-! ## Siblings -/

section Siblings

variable {lead name rest : List Char} {seen : List String} {leaves : List Leaf} {leaf : Leaf}

def Sibling.rank : Sibling → Bool × String
  | .folder name _ => (false, name)
  | .leaf name _ => (true, name)

theorem leaf_mem_siblings (mem : leaf ∈ leaves)
    (below : leaf.path.asStr.toList = lead ++ name) (plain : '/' ∉ name) :
    .leaf (String.ofList name) leaf ∈ siblings lead seen leaves := by
  induction leaves generalizing seen with
  | nil => cases mem
  | cons first leaves ih =>
    have listing := siblings_cons lead seen first leaves
    generalize siblings lead seen (first :: leaves) = listed at listing
    obtain rfl | later := List.mem_cons.mp mem
    · cases listing with
      | elsewhere stray => exact absurd below (stray name)
      | leaf name' below' plain' =>
        rw [List.append_cancel_left (below.symm.trans below')]
        exact List.mem_cons_self
      | known name' rest below' =>
        rw [List.append_cancel_left (below.symm.trans below')] at plain
        simp at plain
      | folder name' rest path below' =>
        rw [List.append_cancel_left (below.symm.trans below')] at plain
        simp at plain
    · cases listing with
      | elsewhere => exact ih later
      | leaf => exact List.mem_cons_of_mem _ (ih later)
      | known => exact ih later
      | folder => exact List.mem_cons_of_mem _ (ih later)

/-- The text before the first slash is determined. -/
theorem name_eq_of_append {name' rest' : List Char} (plain : '/' ∉ name) (plain' : '/' ∉ name')
    (same : name ++ '/' :: rest = name' ++ '/' :: rest') : name = name' := by
  have split : splitOnce (name ++ '/' :: rest) = some (name, rest) := splitOnce_append plain
  rw [same, splitOnce_append plain'] at split
  cases split
  rfl

/-- The folder of a leaf is listed unless it was before. -/
theorem folder_mem_siblings (mem : leaf ∈ leaves) (plain : '/' ∉ name)
    (below : leaf.path.asStr.toList = lead ++ (name ++ '/' :: rest))
    (fresh : String.ofList name ∉ seen) :
    ∃ path, .folder (String.ofList name) path ∈ siblings lead seen leaves := by
  induction leaves generalizing seen with
  | nil => cases mem
  | cons first leaves ih =>
    have listing := siblings_cons lead seen first leaves
    generalize siblings lead seen (first :: leaves) = listed at listing
    cases listing with
    | elsewhere stray =>
      obtain rfl | later := List.mem_cons.mp mem
      · exact absurd below (stray _)
      · exact ih later fresh
    | leaf name' below' plain' =>
      obtain rfl | later := List.mem_cons.mp mem
      · rw [← List.append_cancel_left (below.symm.trans below')] at plain'
        simp at plain'
      · obtain ⟨path, listed⟩ := ih later fresh
        exact ⟨path, List.mem_cons_of_mem _ listed⟩
    | known name' rest' below' plain' known =>
      obtain rfl | later := List.mem_cons.mp mem
      · have same := name_eq_of_append plain plain'
          (List.append_cancel_left (below.symm.trans below'))
        exact absurd (same ▸ known) fresh
      · exact ih later fresh
    | folder name' rest' path below' plain' fresh' =>
      by_cases same : name = name'
      · subst same
        exact ⟨path, List.mem_cons_self⟩
      · obtain rfl | later := List.mem_cons.mp mem
        · exact absurd (name_eq_of_append plain plain'
            (List.append_cancel_left (below.symm.trans below'))) same
        · have unseen : String.ofList name ∉ String.ofList name' :: seen := by
            rw [List.mem_cons, not_or]
            exact ⟨fun alike => same (String.ofList_injective alike), fresh⟩
          obtain ⟨path, listed⟩ := ih later unseen
          exact ⟨path, List.mem_cons_of_mem _ listed⟩

/-- Siblings have different ranks, and a folder that was listed is not listed again. -/
theorem nodup_rank_siblings (distinct : (leaves.map Leaf.path).Nodup) :
    ((siblings lead seen leaves).map Sibling.rank).Nodup ∧
      ∀ name ∈ seen, (false, name) ∉ (siblings lead seen leaves).map Sibling.rank := by
  induction leaves generalizing seen with
  | nil => exact ⟨List.nodup_nil, fun _ _ => List.not_mem_nil⟩
  | cons first leaves ih =>
    obtain ⟨only, distinct⟩ := List.nodup_cons.mp distinct
    have listing := siblings_cons lead seen first leaves
    generalize siblings lead seen (first :: leaves) = listed at listing
    cases listing with
    | elsewhere => exact ih distinct
    | known => exact ih distinct
    | leaf name below plain =>
      obtain ⟨unique, old⟩ := @ih seen distinct
      refine ⟨List.nodup_cons.mpr ⟨?_, unique⟩, ?_⟩
      · -- Another leaf of this name would be the same path.
        intro again
        obtain ⟨sibling, listed, ranked⟩ := List.mem_map.mp again
        cases of_mem_siblings listed with
        | folder => cases ranked
        | @leaf name' leaf mem plain' below' =>
          have same : name' = name := String.ofList_injective (Prod.mk.inj ranked).2
          have path : leaf.path = first.path := RepoPath.asStr_injective
            (String.toList_injective (by rw [below', below, same]))
          exact only (path ▸ List.mem_map_of_mem mem)
      · intro name known
        rw [List.map_cons, List.mem_cons, not_or]
        exact ⟨nofun, old name known⟩
    | folder name rest path below plain fresh =>
      obtain ⟨unique, old⟩ := @ih (String.ofList name :: seen) distinct
      refine ⟨List.nodup_cons.mpr ⟨old _ List.mem_cons_self, unique⟩, ?_⟩
      intro other known
      rw [List.map_cons, List.mem_cons, not_or]
      refine ⟨?_, old other (List.mem_cons_of_mem _ known)⟩
      intro same
      exact fresh ((Prod.mk.inj same).2 ▸ known)

end Siblings

/-! ## One repository -/

section Nesting

variable {inputs : ExplorerInputs} {repoId : RepoId} {leaves : List Leaf} {dir : Option RepoPath}
  {file : FileRef}

/-- The node that shows a sibling. -/
def ExplorerInputs.node (inputs : ExplorerInputs) (repoId : RepoId) (leaves : List Leaf) :
    Sibling → TreeNode
  | .folder name path =>
    let children := nest inputs repoId leaves (some path)
    .dir name repoId (some path) (inputs.isExpanded (repoId, some path)) (countChanged children)
      children
  | .leaf name leaf => inputs.fileNode repoId name leaf

@[simp] theorem rank_node (sibling : Sibling) :
    (inputs.node repoId leaves sibling).rank = sibling.rank := by
  cases sibling <;> rfl

theorem nest_eq : nest inputs repoId leaves dir =
    sortWith (fun left right => TableKey.order left.rank right.rank)
      ((siblings (dirPrefix dir) [] leaves).map (inputs.node repoId leaves)) := by
  conv_rhs => rw [← List.attach_map_subtype_val (siblings (dirPrefix dir) [] leaves), List.map_map]
  rw [nest]
  congr 1
  refine List.map_congr_left ?_
  rintro ⟨sibling, listed⟩ _
  cases sibling <;> rfl

theorem filesOf_eq_flatMap (nodes : List TreeNode) : filesOf nodes = nodes.flatMap TreeNode.files := by
  induction nodes with
  | nil => rw [filesOf, List.flatMap_nil]
  | cons node rest ih =>
    rw [filesOf, List.flatMap_cons, ih]

/-- Folders are shown after the folders in them. -/
theorem folder_induction {motive : Option RepoPath → Prop}
    (step : ∀ dir, (∀ name path, .folder name path ∈ siblings (dirPrefix dir) [] leaves →
      motive (some path)) → motive dir) (dir : Option RepoPath) : motive dir := by
  induction deep : depthLeft leaves dir using Nat.strong_induction_on generalizing dir with
  | _ depth ih =>
    refine step dir fun name path listed => ?_
    exact ih _ (deep ▸ depthLeft_lt listed) (some path) rfl

theorem mem_filesOf_nest_iff : file ∈ filesOf (nest inputs repoId leaves dir) ↔
    ∃ sibling ∈ siblings (dirPrefix dir) [] leaves,
      file ∈ (inputs.node repoId leaves sibling).files := by
  rw [filesOf_eq_flatMap, List.mem_flatMap, nest_eq]
  simp only [mem_sortWith, List.mem_map, exists_exists_and_eq_and]

/-- Below a folder, exactly the leaves below it are shown. -/
theorem mem_filesOf_nest : file ∈ filesOf (nest inputs repoId leaves dir) ↔
    file.repoId = repoId ∧ ∃ leaf ∈ leaves, leaf.path = file.path ∧
      ∃ rest, leaf.path.asStr.toList = dirPrefix dir ++ rest := by
  induction dir using @folder_induction leaves with
  | step dir ih =>
    rw [mem_filesOf_nest_iff]
    constructor
    · rintro ⟨sibling, listed, shown⟩
      cases of_mem_siblings listed with
      | @folder name path leaf rest mem plain below named =>
        obtain ⟨same, leaf, mem, path_, rest, below⟩ :=
          (ih _ _ listed).mp (by simpa [ExplorerInputs.node, TreeNode.files] using shown)
        refine ⟨same, leaf, mem, path_, name ++ '/' :: rest, ?_⟩
        rw [below, dirPrefix, named, String.toList_ofList]
        simp
      | @leaf name leaf mem plain below =>
        simp only [ExplorerInputs.node, ExplorerInputs.fileNode, TreeNode.files,
          List.mem_singleton] at shown
        subst shown
        exact ⟨rfl, leaf, mem, rfl, name, below⟩
    · rintro ⟨rfl, leaf, mem, path, rest, below⟩
      cases parts : splitOnce rest with
      | none =>
        refine ⟨_, leaf_mem_siblings mem below (splitOnce_eq_none.mp parts), ?_⟩
        simp [ExplorerInputs.node, ExplorerInputs.fileNode, TreeNode.files, path]
      | some split =>
        obtain ⟨name, after⟩ := split
        obtain ⟨rfl, plain⟩ := splitOnce_eq_some.mp parts
        obtain ⟨folder, listed⟩ := folder_mem_siblings mem plain below List.not_mem_nil
        refine ⟨_, listed, ?_⟩
        have deeper : leaf.path.asStr.toList = dirPrefix (some folder) ++ after := by
          rw [below, dirPrefix, (of_mem_siblings listed).path, String.toList_ofList,
            String.toList_ofList]
          simp
        have shown := (ih _ _ listed).mpr ⟨rfl, leaf, mem, path, after, deeper⟩
        simpa [ExplorerInputs.node, TreeNode.files] using shown

/-! ### The order of one repository -/

/-- The components of a folder. -/
def dirComponents : Option RepoPath → List String
  | none => []
  | some dir => dir.components

theorem componentsOf_dirPrefix (rest : List Char) :
    componentsOf (dirPrefix dir ++ rest) = dirComponents dir ++ componentsOf rest := by
  cases dir with
  | none => rfl
  | some dir =>
    rw [dirPrefix, List.append_assoc, List.singleton_append, componentsOf_append]
    rfl

/-- What a sibling shows is named by it, below its folder. -/
theorem components_of_mem_node {sibling : Sibling}
    (listed : sibling ∈ siblings (dirPrefix dir) [] leaves)
    (shown : file ∈ (inputs.node repoId leaves sibling).files) :
    ∃ rest, file.path.components = dirComponents dir ++ sibling.rank.2 :: rest ∧
      rest.isEmpty = sibling.rank.1 := by
  cases of_mem_siblings listed with
  | @folder name path leaf rest mem plain below named =>
    have shown : file ∈ filesOf (nest inputs repoId leaves (some path)) := by
      simpa [ExplorerInputs.node, TreeNode.files] using shown
    obtain ⟨-, other, -, same, deeper, below⟩ := mem_filesOf_nest.mp shown
    refine ⟨componentsOf deeper, ?_, ?_⟩
    · rw [← same, RepoPath.components, below, dirPrefix, named, String.toList_ofList,
        List.append_assoc, List.append_assoc, componentsOf_dirPrefix, List.singleton_append,
        componentsOf_append, componentsOf_eq_singleton plain]
      rfl
    · simp [componentsOf_ne_nil, Sibling.rank]
  | @leaf name leaf mem plain below =>
    simp only [ExplorerInputs.node, ExplorerInputs.fileNode, TreeNode.files,
      List.mem_singleton] at shown
    subst shown
    refine ⟨[], ?_, rfl⟩
    rw [RepoPath.components, below, componentsOf_dirPrefix, componentsOf_eq_singleton plain]
    rfl

/-- Siblings are shown in tree order: folders first, then by name. -/
theorem treeBefore_of_ranks {left right : RepoPath} {leftRank rightRank : Bool × String}
    {folders lefts rights : List String} (ranks : TableKey.Before leftRank rightRank)
    (left_ : left.components = folders ++ leftRank.2 :: lefts) (leftLeaf : lefts.isEmpty = leftRank.1)
    (right_ : right.components = folders ++ rightRank.2 :: rights)
    (rightLeaf : rights.isEmpty = rightRank.1) : left.TreeBefore right := by
  have level : ((compare leftRank.1 rightRank.1).then (TableKey.order leftRank.2 rightRank.2)) = .lt :=
    ranks
  rw [RepoPath.TreeBefore, RepoPath.treeOrder, RepoPath.treeOrderFrom_eq, left_, right_,
    Hierarchy.order_append _ (List.cons_ne_nil _ _) (List.cons_ne_nil _ _), Hierarchy.order_cons,
    leftLeaf, rightLeaf, level]
  rfl

/-- Depth first, the explorer lists a folder in tree order. -/
theorem filesOf_nest_ordered (distinct : (leaves.map Leaf.path).Nodup) :
    (filesOf (nest inputs repoId leaves dir)).Pairwise fun left right =>
      left.path.TreeBefore right.path := by
  induction dir using @folder_induction leaves with
  | step dir ih =>
    have listed {node : TreeNode} (mem : node ∈ nest inputs repoId leaves dir) :
        ∃ sibling ∈ siblings (dirPrefix dir) [] leaves, inputs.node repoId leaves sibling = node := by
      rw [nest_eq, mem_sortWith] at mem
      exact List.mem_map.mp mem
    have ranks : (nest inputs repoId leaves dir).Pairwise fun left right =>
        TableKey.Before left.rank right.rank := by
      rw [nest_eq]
      refine sortWith_before (fun _ _ => rfl) ?_
      have ranked : TreeNode.rank ∘ inputs.node repoId leaves = Sibling.rank := funext rank_node
      rw [List.map_map, ranked]
      exact (nodup_rank_siblings distinct).1
    rw [filesOf_eq_flatMap, List.pairwise_flatMap]
    constructor
    · intro node mem
      obtain ⟨sibling, sibling_, rfl⟩ := listed mem
      cases sibling with
      | folder name path => exact ih name path sibling_
      | leaf name leaf => exact List.pairwise_singleton _ _
    · refine ranks.imp_of_mem fun {left right} leftMember rightMember before => ?_
      intro file shown file' shown'
      obtain ⟨sibling, sibling_, rfl⟩ := listed leftMember
      obtain ⟨sibling', sibling_', rfl⟩ := listed rightMember
      obtain ⟨rest, components, leaf⟩ := components_of_mem_node sibling_ shown
      obtain ⟨rest', components', leaf'⟩ := components_of_mem_node sibling_' shown'
      rw [rank_node, rank_node] at before
      exact treeBefore_of_ranks before components leaf components' leaf'

end Nesting

/-! ## The roots -/

section Roots

variable {inputs : ExplorerInputs} {repos : RepoLeaves} {files : List RenderKey}

/-- The paths of a repository's files in a list. -/
def pathsIn (files : List RenderKey) (repoId : RepoId) : List RepoPath :=
  (files.filter fun file => file.repoId = repoId).map RenderKey.path

theorem pathsIn_cons (file : RenderKey) (files : List RenderKey) (repoId : RepoId) :
    pathsIn (file :: files) repoId =
      if file.repoId = repoId then file.path :: pathsIn files repoId else pathsIn files repoId := by
  unfold pathsIn
  rw [List.filter_cons]
  by_cases same : file.repoId = repoId
  · simp [same]
  · simp [same]

theorem RepoLeaves.of_insert (repos : RepoLeaves) (repoId other : RepoId) (leaves : List Leaf) :
    RepoLeaves.of (repos.insert repoId leaves) other =
      if repoId = other then leaves else repos.of other := by
  unfold RepoLeaves.of
  rw [Table.getElem?_insert]
  split <;> rfl

theorem RepoLeaves.mem_insert (repos : RepoLeaves) (repoId other : RepoId) (leaves : List Leaf) :
    other ∈ repos.insert repoId leaves ↔ repoId = other ∨ other ∈ repos := by
  rw [Std.ExtTreeMap.mem_insert, Std.LawfulEqCmp.compare_eq_iff_eq]

/-- Seeding adds a repository for each file, and no leaf. -/
theorem foldl_withRoot (files : List RenderKey) (repos : RepoLeaves) (repoId : RepoId) :
    RepoLeaves.of (files.foldl RepoLeaves.withRoot repos) repoId = repos.of repoId ∧
      (repoId ∈ files.foldl RepoLeaves.withRoot repos ↔
        repoId ∈ repos ∨ ∃ file ∈ files, file.repoId = repoId) := by
  induction files generalizing repos with
  | nil => simp
  | cons file rest ih =>
    obtain ⟨leaves, roots⟩ := ih (repos.withRoot file)
    rw [List.foldl_cons, leaves, roots, RepoLeaves.withRoot, RepoLeaves.of_insert,
      RepoLeaves.mem_insert]
    constructor
    · split
      · rename_i same
        rw [same]
      · rfl
    · simp [or_assoc, or_left_comm]

/-- Every file of the list becomes a leaf when no path repeats. -/
theorem foldl_withFile (files : List RenderKey) (repos : RepoLeaves)
    (distinct : ∀ repoId, ((repos.of repoId).map Leaf.path ++ pathsIn files repoId).Nodup)
    (repoId : RepoId) :
    (RepoLeaves.of (files.foldl RepoLeaves.withFile repos) repoId).map Leaf.path =
        (repos.of repoId).map Leaf.path ++ pathsIn files repoId ∧
      (repoId ∈ files.foldl RepoLeaves.withFile repos ↔
        repoId ∈ repos ∨ ∃ file ∈ files, file.repoId = repoId) := by
  induction files generalizing repos with
  | nil => simp [pathsIn]
  | cons file rest ih =>
    have fresh : ∀ leaf ∈ repos.of file.repoId, leaf.path ≠ file.path := by
      intro leaf mem same
      have apart := distinct file.repoId
      rw [pathsIn_cons, if_pos rfl] at apart
      exact (List.nodup_append.mp apart).2.2 _ (List.mem_map_of_mem mem) _ List.mem_cons_self same
    have added (other : RepoId) : (RepoLeaves.of (repos.withFile file) other).map Leaf.path =
        if file.repoId = other then (repos.of other).map Leaf.path ++ [file.path]
        else (repos.of other).map Leaf.path := by
      rw [RepoLeaves.withFile, if_pos (by simpa using fresh), RepoLeaves.of_insert]
      by_cases same : file.repoId = other
      · subst same
        simp
      · simp [same]
    have together (other : RepoId) :
        (RepoLeaves.of (repos.withFile file) other).map Leaf.path ++ pathsIn rest other =
          (repos.of other).map Leaf.path ++ pathsIn (file :: rest) other := by
      rw [added, pathsIn_cons]
      split
      · rw [List.append_assoc, List.singleton_append]
      · rfl
    obtain ⟨leaves, roots⟩ := ih (repos.withFile file) fun other =>
      together other ▸ distinct other
    rw [List.foldl_cons, leaves, together, roots, RepoLeaves.withFile, RepoLeaves.mem_insert]
    exact ⟨rfl, by simp [or_assoc, or_left_comm]⟩

variable (diffing : inputs.changedOnly = true)
  (distinct : ∀ repoId, (pathsIn inputs.files repoId).Nodup)

include diffing distinct

theorem ExplorerInputs.leaves_of (repoId : RepoId) :
    (inputs.leaves.of repoId).map Leaf.path = pathsIn inputs.files repoId ∧
      (repoId ∈ inputs.leaves ↔ ∃ file ∈ inputs.files, file.repoId = repoId) := by
  have seeded (repoId : RepoId) := foldl_withRoot inputs.files ∅ repoId
  have empty (repoId : RepoId) : RepoLeaves.of ∅ repoId = [] := by simp [RepoLeaves.of]
  have filled := foldl_withFile inputs.files (inputs.files.foldl RepoLeaves.withRoot ∅)
    (fun repoId => by simpa [(seeded repoId).1, empty] using distinct repoId) repoId
  unfold ExplorerInputs.leaves
  rw [if_pos diffing, filled.1, filled.2, (seeded repoId).1, (seeded repoId).2, empty]
  simp

/-- The explorer lists one repository in tree order. -/
theorem filesOf_root (repoId : RepoId) : (inputs.root repoId (inputs.leaves.of repoId)).files =
      (sortWith RepoPath.treeOrder (pathsIn inputs.files repoId)).map (FileRef.mk repoId) := by
  obtain ⟨paths, -⟩ := inputs.leaves_of diffing distinct repoId
  generalize inputs.leaves.of repoId = leaves at paths
  have sorted : ((sortWith (fun left right => TableKey.order left.path right.path) leaves).map
      Leaf.path).Perm (pathsIn inputs.files repoId) :=
    paths ▸ (sortWith_perm _ leaves).map Leaf.path
  have shown : (inputs.root repoId leaves).files = filesOf (nest inputs repoId
      (sortWith (fun left right => TableKey.order left.path right.path) leaves) none) := by
    rw [ExplorerInputs.root, TreeNode.files]
  rw [shown]
  refine @eq_of_before_of_mem_iff _ (fun left right : FileRef => left.path.TreeBefore right.path) _ _
    (fun file => RepoPath.TreeBefore.irrefl file.path) (fun _ _ => RepoPath.TreeBefore.asymm) ?_ ?_ ?_
  · exact filesOf_nest_ordered (sorted.nodup_iff.mpr (distinct repoId))
  · exact List.pairwise_map.mpr (RepoPath.sortWith_treeOrder (distinct repoId))
  · intro file
    rw [mem_filesOf_nest]
    simp only [List.mem_map, mem_sortWith, ← paths]
    constructor
    · rintro ⟨rfl, leaf, mem, same, -⟩
      exact ⟨file.path, ⟨leaf, mem, same⟩, rfl⟩
    · rintro ⟨path, ⟨leaf, mem, rfl⟩, rfl⟩
      exact ⟨rfl, leaf, mem, rfl, _, rfl⟩

omit diffing distinct in
theorem filesOf_roots : filesOf inputs.roots = inputs.leaves.keys.flatMap fun repoId =>
    (inputs.root repoId (inputs.leaves.of repoId)).files := by
  rw [filesOf_eq_flatMap, ExplorerInputs.roots, List.flatMap_map,
    ← Std.ExtTreeMap.map_fst_toList_eq_keys, List.flatMap_map]
  refine List.flatMap_congr fun repo mem => ?_
  have found : inputs.leaves[repo.1]? = some repo.2 :=
    Std.ExtTreeMap.mem_toList_iff_getElem?_eq_some.mp mem
  rw [RepoLeaves.of, found, Option.getD_some]

end Roots

/-! ## The daemon's list -/

section Listed

open ReviewCore

variable (listing : Listing)

def fileRef (change : FileChange) : FileRef := ⟨change.repoId, change.path⟩

def RenderKey.ref (key : RenderKey) : FileRef := ⟨key.repoId, key.path⟩

/-- The list as the client keeps it: each change with the options it is rendered under. -/
def asRenders (opts : RenderOpts) (files : List FileChange) : List RenderKey :=
  files.map fun change => ⟨change.repoId, change.path, .diff change.kind, opts⟩

theorem map_ref_asRenders (opts : RenderOpts) (files : List FileChange) :
    (asRenders opts files).map RenderKey.ref = files.map fileRef := by
  rw [asRenders, List.map_map]
  rfl

/-- What is listed of one repository. -/
def block (repoId : RepoId) : List FileRef :=
  (sortWith RepoPath.treeOrder ((listing.changed repoId).map FileChangeRaw.path)).map
    (FileRef.mk repoId)

theorem map_path_inTreeOrder (repoId : RepoId) (changes : List FileChangeRaw) :
    (inTreeOrder repoId changes).map FileChange.path =
      sortWith RepoPath.treeOrder (changes.map FileChangeRaw.path) := by
  rw [inTreeOrder, List.map_map]
  exact List.map_insertionSort _ _ _ changes fun _ _ _ _ => Iff.rfl

theorem map_fileRef_inTreeOrder (repoId : RepoId) :
    (inTreeOrder repoId (listing.changed repoId)).map fileRef = block listing repoId := by
  rw [block, ← map_path_inTreeOrder repoId, inTreeOrder, List.map_map, List.map_map, List.map_map]
  rfl

theorem map_fileRef_files : listing.files.map fileRef =
    ((byName listing.workspace listing.targets).map ResolvedTarget.repoId).flatMap
      (block listing) := by
  rw [Listing.files, List.map_flatMap, List.flatMap_map]
  exact List.flatMap_congr fun target _ => map_fileRef_inTreeOrder listing target.repoId

theorem mem_block {file : FileRef} {repoId : RepoId} : file ∈ block listing repoId ↔
    file.repoId = repoId ∧ file.path ∈ (listing.changed repoId).map FileChangeRaw.path := by
  unfold block
  rw [List.mem_map]
  constructor
  · rintro ⟨path, mem, rfl⟩
    exact ⟨rfl, mem_sortWith.mp mem⟩
  · rintro ⟨rfl, mem⟩
    exact ⟨file.path, mem_sortWith.mpr mem, rfl⟩

theorem block_eq_nil_iff {repoId : RepoId} :
    block listing repoId = [] ↔ listing.changed repoId = [] := by
  simp only [List.eq_nil_iff_forall_not_mem, mem_block]
  constructor
  · intro none change mem
    exact none ⟨repoId, change.path⟩ ⟨rfl, List.mem_map_of_mem mem⟩
  · rintro none file ⟨-, mem⟩
    obtain ⟨change, mem, -⟩ := List.mem_map.mp mem
    exact none change mem

/-- The list has the changed paths of each target's repository, and no others. -/
theorem pathsIn_asRenders (opts : RenderOpts) (repoId : RepoId) :
    (pathsIn (asRenders opts listing.files) repoId).Perm
      (if repoId ∈ listing.targets.map ResolvedTarget.repoId then
        (listing.changed repoId).map FileChangeRaw.path
      else []) := by
  have append (front back : List FileChange) : pathsIn (asRenders opts (front ++ back)) repoId =
      pathsIn (asRenders opts front) repoId ++ pathsIn (asRenders opts back) repoId := by
    simp [pathsIn, asRenders]
  have one (other : RepoId) : pathsIn (asRenders opts (inTreeOrder other (listing.changed other)))
      repoId = if other = repoId then (inTreeOrder other (listing.changed other)).map FileChange.path
        else [] := by
    by_cases same : other = repoId
    · simp [pathsIn, asRenders, inTreeOrder, List.filter_map, Function.comp_def, same]
    · simp [pathsIn, asRenders, inTreeOrder, List.filter_map, Function.comp_def, same]
  have loop (targets : List ResolvedTarget) (unique : (targets.map ResolvedTarget.repoId).Nodup) :
      pathsIn (asRenders opts (targets.flatMap fun target =>
          inTreeOrder target.repoId (listing.changed target.repoId))) repoId =
        if repoId ∈ targets.map ResolvedTarget.repoId then
          (inTreeOrder repoId (listing.changed repoId)).map FileChange.path
        else [] := by
    induction targets with
    | nil => rfl
    | cons target rest ih =>
      obtain ⟨fresh, unique⟩ := List.nodup_cons.mp unique
      rw [List.flatMap_cons, append, one, ih unique]
      by_cases same : target.repoId = repoId
      · subst same
        simp [fresh]
      · simp [same, Ne.symm same]
  have sorted := byName_perm listing.workspace listing.targets
  rw [Listing.files, loop _ ((sorted.map _).nodup_iff.mpr listing.unique)]
  simp only [(sorted.map ResolvedTarget.repoId).mem_iff]
  split
  · rw [map_path_inTreeOrder]
    exact sortWith_perm _ _
  · rfl

/-- No two repositories with changes are named against the order of their ids. -/
def NamesFollowIds : Prop :=
  ∀ first ∈ listing.targets, ∀ second ∈ listing.targets,
    listing.changed first.repoId ≠ [] → listing.changed second.repoId ≠ [] →
      TableKey.Before first.repoId second.repoId →
        ¬ TableKey.Before (repoName listing.workspace second.repoId)
          (repoName listing.workspace first.repoId)

variable {listing} {inputs : ExplorerInputs} {opts : RenderOpts}

theorem explorer_keys (diffing : inputs.changedOnly = true)
    (listed : inputs.files = asRenders opts listing.files) :
    filesOf inputs.roots = inputs.leaves.keys.flatMap (block listing) ∧
      ∀ repoId, repoId ∈ inputs.leaves.keys ↔
        repoId ∈ (byName listing.workspace listing.targets).map ResolvedTarget.repoId ∧
          block listing repoId ≠ [] := by
  have distinct (repoId : RepoId) : (pathsIn inputs.files repoId).Nodup := by
    rw [listed, (pathsIn_asRenders listing opts repoId).nodup_iff]
    split
    · exact listing.distinct repoId
    · exact List.nodup_nil
  have keys (repoId : RepoId) : repoId ∈ inputs.leaves.keys ↔ pathsIn inputs.files repoId ≠ [] := by
    rw [Std.ExtTreeMap.mem_keys, (inputs.leaves_of diffing distinct repoId).2]
    simp [pathsIn]
  constructor
  · rw [filesOf_roots]
    refine List.flatMap_congr fun repoId mem => ?_
    rw [filesOf_root diffing distinct, block]
    have known := (keys repoId).mp mem
    have paths := pathsIn_asRenders listing opts repoId
    rw [← listed] at paths
    split at paths
    · congr 1
      refine eq_of_before_of_mem_iff RepoPath.TreeBefore.irrefl
        (fun _ _ => RepoPath.TreeBefore.asymm) (RepoPath.sortWith_treeOrder (distinct repoId))
        (RepoPath.sortWith_treeOrder (listing.distinct repoId)) fun path => ?_
      rw [mem_sortWith, mem_sortWith, paths.mem_iff]
    · exact absurd paths.eq_nil known
  · intro repoId
    have paths := pathsIn_asRenders listing opts repoId
    rw [keys, listed, ((byName_perm _ _).map _).mem_iff, Ne, Ne, block_eq_nil_iff,
      ← List.length_eq_zero_iff, paths.length_eq]
    split
    · rename_i mem
      simp [mem]
    · rename_i stray
      simp [stray]

theorem nameKey_injective (workspace : Workspace) : Function.Injective (nameKey workspace) :=
  fun _ _ same => (Prod.mk.inj same).2

/-- The daemon lists repositories by name, and by id those of one name. -/
theorem pairwise_byName (listing : Listing) :
    ((byName listing.workspace listing.targets).map ResolvedTarget.repoId).Pairwise
      fun first second => TableKey.Before (nameKey listing.workspace first)
        (nameKey listing.workspace second) := by
  refine List.pairwise_map.mpr ?_
  have distinct := listing.unique.map (nameKey_injective listing.workspace)
  rw [List.map_map] at distinct
  exact sortWith_before (fun _ _ => rfl) distinct

theorem before_nameKey {workspace : Workspace} {first second : RepoId} :
    TableKey.Before (nameKey workspace first) (nameKey workspace second) ↔
      TableKey.Before (repoName workspace first) (repoName workspace second) ∨
        repoName workspace first = repoName workspace second ∧ TableKey.Before first second := by
  unfold TableKey.Before
  rw [TableKey.order_pair, Ordering.then_eq_lt, Std.LawfulEqCmp.compare_eq_iff_eq]
  rfl

/-- The explorer shows the daemon's list in its order exactly when names follow ids. -/
theorem filesOf_roots_eq_iff (diffing : inputs.changedOnly = true)
    (listed : inputs.files = asRenders opts listing.files) :
    filesOf inputs.roots = listing.files.map fileRef ↔ NamesFollowIds listing := by
  obtain ⟨shown, keys⟩ := explorer_keys diffing listed
  have ordered : inputs.leaves.keys.Pairwise TableKey.Before := Std.ExtTreeMap.ordered_keys
  rw [shown, map_fileRef_files]
  refine (@flatMap_eq_iff_ordered _ _ (block listing) FileRef.repoId _ _ _ _
    (fun repoId file mem => ((mem_block listing).mp mem).1)
    TableKey.Before.irrefl (fun _ _ => TableKey.Before.asymm) ordered keys).trans ?_
  have named := (pairwise_byName listing).filter fun repoId => block listing repoId ≠ []
  have holds {repoId : RepoId} : repoId ∈ ((byName listing.workspace listing.targets).map
      ResolvedTarget.repoId).filter (fun repoId => block listing repoId ≠ []) ↔
      (∃ target ∈ listing.targets, target.repoId = repoId) ∧ listing.changed repoId ≠ [] := by
    rw [List.mem_filter, ((byName_perm _ _).map _).mem_iff, List.mem_map, decide_eq_true_eq, Ne,
      block_eq_nil_iff]
  constructor
  · -- Both orders hold along the list, so no pair of it is against one of them.
    intro byId first first_ second second_ changed changed' before against
    have apart : first.repoId ≠ second.repoId := by
      intro same
      exact TableKey.Before.irrefl _ (same ▸ before)
    obtain ⟨early, -⟩ | ⟨-, late⟩ := agree_of_pairwise named byId
      (holds.mpr ⟨⟨first, first_, rfl⟩, changed⟩) (holds.mpr ⟨⟨second, second_, rfl⟩, changed'⟩) apart
    · exact early.asymm (before_nameKey.mpr (.inl against))
    · exact before.asymm late
  · intro follows
    refine named.imp_of_mem fun {first second} firstMember secondMember before => ?_
    obtain ⟨⟨target, target_, rfl⟩, changed⟩ := holds.mp firstMember
    obtain ⟨⟨target', target_', rfl⟩, changed'⟩ := holds.mp secondMember
    obtain names | ⟨-, ids⟩ := before_nameKey.mp before
    · obtain ids | same | against := TableKey.Before.trichotomy target.repoId target'.repoId
      · exact ids
      · rw [same] at before
        exact absurd before (TableKey.Before.irrefl _)
      · exact absurd names (follows target' target_' target target_ changed' changed against)
    · exact ids

end Listed

/-! ## Stepping -/

section Stepping

variable {command : Command} {files : List RenderKey}

/-- The render that is open after presses of the next or the previous file key, from no
open file. -/
def pressed (command : Command) (forward : Bool) (files : List RenderKey) :
    Nat → Option RenderKey
  | 0 => none
  | presses + 1 =>
    let openFile := pressed command forward files presses
    match stepFile command forward files openFile with
    | .error _ => openFile
    | .ok file => files.find? fun key => key.repoId = file.repoId ∧ key.path = file.path

/-- A file of the list is opened as the list has it. -/
theorem find_ref (distinct : (files.map RenderKey.ref).Nodup) {key : RenderKey}
    (mem : key ∈ files) :
    (files.find? fun other => other.repoId = key.repoId ∧ other.path = key.path) = some key := by
  cases found : files.find? fun other => other.repoId = key.repoId ∧ other.path = key.path with
  | none => simpa using List.find?_eq_none.mp found key mem
  | some other =>
    have same : other.repoId = key.repoId ∧ other.path = key.path := by
      simpa using List.find?_some found
    have alike : other.ref = key.ref := by rw [RenderKey.ref, RenderKey.ref, same.1, same.2]
    rw [List.inj_on_of_nodup_map distinct (List.mem_of_find?_eq_some found) mem alike]

theorem idxOf_getElem (distinct : (files.map RenderKey.ref).Nodup) {index : Nat}
    (bound : index < files.length) : files.idxOf? files[index] = some index := by
  refine List.idxOf?_eq_some_iff.mpr ⟨bound, rfl, fun earlier before => ?_⟩
  intro same
  have := (List.Nodup.getElem_inj_iff distinct.of_map).mp same
  omega

theorem stepFile_first (bound : 0 < files.length) :
    stepFile command true files none = .ok files[0].ref := by
  have listed : files ≠ [] := List.ne_nil_of_length_pos bound
  simp only [stepFile, if_neg listed, Option.bind_none, Except.bind,
    List.getElem?_eq_getElem bound]
  rfl

theorem stepFile_last (bound : files.length - 1 < files.length) :
    stepFile command false files none = .ok files[files.length - 1].ref := by
  have listed : files ≠ [] := List.ne_nil_of_length_pos (by omega)
  simp only [stepFile, if_neg listed, Option.bind_none, Except.bind,
    List.getElem?_eq_getElem bound]
  rfl

theorem stepFile_next {index : Nat} (distinct : (files.map RenderKey.ref).Nodup)
    (bound : index + 1 < files.length) :
    stepFile command true files (some (files.get ⟨index, by omega⟩)) =
      .ok files[index + 1].ref := by
  have listed : files ≠ [] := List.ne_nil_of_length_pos (by omega)
  have within : ¬ index + 1 ≥ files.length := by omega
  simp only [stepFile, if_neg listed, Option.bind_some, List.get_eq_getElem,
    idxOf_getElem distinct, if_neg within, Except.bind, List.getElem?_eq_getElem bound]
  rfl

theorem stepFile_previous {index : Nat} (distinct : (files.map RenderKey.ref).Nodup)
    (bound : index + 1 < files.length) : stepFile command false files (some files[index + 1]) =
      .ok (files.get ⟨index, by omega⟩).ref := by
  have listed : files ≠ [] := List.ne_nil_of_length_pos (by omega)
  have below : index < files.length := by omega
  simp only [stepFile, if_neg listed, Option.bind_some, idxOf_getElem distinct,
    if_neg (Nat.succ_ne_zero index), Except.bind, Nat.add_sub_cancel,
    List.getElem?_eq_getElem below]
  rfl

/-- A press opens the file that the key leads to. -/
theorem pressed_succ {forward : Bool} {presses index : Nat}
    (distinct : (files.map RenderKey.ref).Nodup) (bound : index < files.length)
    (steps : stepFile command forward files (pressed command forward files presses) =
      .ok files[index].ref) : pressed command forward files (presses + 1) = some files[index] := by
  rw [pressed, steps]
  exact find_ref distinct (List.getElem_mem bound)

theorem pressed_next (distinct : (files.map RenderKey.ref).Nodup) {presses : Nat}
    (bound : presses < files.length) :
    pressed command true files (presses + 1) = files[presses]? := by
  rw [List.getElem?_eq_getElem bound]
  induction presses with
  | zero => exact pressed_succ distinct bound (stepFile_first bound)
  | succ presses ih =>
    refine pressed_succ distinct bound ?_
    rw [ih (by omega)]
    exact stepFile_next distinct bound

theorem pressed_previous (distinct : (files.map RenderKey.ref).Nodup) {presses : Nat}
    (bound : presses < files.length) :
    pressed command false files (presses + 1) = files.reverse[presses]? := by
  rw [List.getElem?_reverse bound, List.getElem?_eq_getElem (by omega)]
  induction presses with
  | zero => exact pressed_succ distinct (by omega) (stepFile_last (by omega))
  | succ presses ih =>
    refine pressed_succ distinct (by omega) ?_
    rw [ih (by omega)]
    have later : files.length - 1 - presses = files.length - 1 - (presses + 1) + 1 := by omega
    simp only [later]
    exact stepFile_previous distinct (by omega)

end Stepping

/-! ## One order -/

/-- The file nodes of the explorer are the file list in its order, and the file keys step
through them, down and up. -/
structure OneOrder (inputs : ExplorerInputs) (command : Command) : Prop where
  shown : filesOf inputs.roots = inputs.files.map RenderKey.ref
  next : ∀ presses < inputs.files.length,
    (pressed command true inputs.files (presses + 1)).map RenderKey.ref =
      (filesOf inputs.roots)[presses]?
  previous : ∀ presses < inputs.files.length,
    (pressed command false inputs.files (presses + 1)).map RenderKey.ref =
      (filesOf inputs.roots).reverse[presses]?

theorem OneOrder.of_shown {inputs : ExplorerInputs} {command : Command}
    (distinct : (inputs.files.map RenderKey.ref).Nodup)
    (shown : filesOf inputs.roots = inputs.files.map RenderKey.ref) : OneOrder inputs command where
  shown
  next presses bound := by
    rw [pressed_next distinct bound, shown, List.getElem?_map]
  previous presses bound := by
    rw [pressed_previous distinct bound, shown, ← List.map_reverse, List.getElem?_map]

section Daemon

open ReviewCore

variable {listing : Listing}

theorem nodup_fileRef : (listing.files.map fileRef).Nodup := by
  rw [map_fileRef_files, List.nodup_flatMap]
  constructor
  · intro repoId _
    have paths := ((sortWith_perm RepoPath.treeOrder _).nodup_iff).mpr (listing.distinct repoId)
    exact paths.map fun _ _ same => (FileRef.mk.inj same).2
  · have ids : ((byName listing.workspace listing.targets).map ResolvedTarget.repoId).Nodup :=
      ((byName_perm _ _).map _).nodup_iff.mpr listing.unique
    refine ids.imp fun {first second} apart file mem mem' => ?_
    rw [mem_block] at mem mem'
    exact apart (mem.1.symm.trans mem'.1)

theorem oneOrder_iff {inputs : ExplorerInputs} {opts : RenderOpts} (command : Command)
    (diffing : inputs.changedOnly = true) (listed : inputs.files = asRenders opts listing.files) :
    OneOrder inputs command ↔ NamesFollowIds listing := by
  have refs : inputs.files.map RenderKey.ref = listing.files.map fileRef := by
    rw [listed, map_ref_asRenders]
  rw [← filesOf_roots_eq_iff diffing listed, ← refs]
  exact ⟨OneOrder.shown, OneOrder.of_shown (refs ▸ nodup_fileRef)⟩

/-- The explorer and the file keys follow the daemon's list exactly when no two
repositories with changed files are named against the order of their ids. -/
theorem files_shown_in_one_order_iff {env : Environment} {core last : Core}
    {scopedTargets : ReviewId → CoreM (NonEmpty ResolvedTarget)} {id : ReviewId}
    {files : List FileChange} {resolved : NonEmpty ResolvedTarget}
    (run : Core.filesScoped scopedTargets id env core = (.ok (files, resolved), last))
    (lists : env.ListsOnce) (unique : (resolved.items.map ResolvedTarget.repoId).Nodup) :
    ∃ listing : Listing, listing.targets = resolved.items ∧ listing.Answered env ∧
      (∃ record before after, Core.review id env core = (.ok record, before) ∧
        Core.workspace record.review.workspaceId env after =
          (.ok listing.workspace, after)) ∧
      ∀ (inputs : ExplorerInputs) (opts : RenderOpts) (command : Command),
        inputs.changedOnly = true → inputs.files = asRenders opts files →
          (OneOrder inputs command ↔ NamesFollowIds listing) := by
  obtain ⟨listing, targets, answered, stored, rfl⟩ := Core.filesScoped_eq_ok run lists unique
  exact ⟨listing, targets, answered, stored, fun _ _ command diffing listed =>
    oneOrder_iff command diffing listed⟩

/-! ### Two repositories named against their ids -/

/-- The same file was added in every repository. -/
def bothChanged : Environment where
  answer number call :=
    match call with
    | .changedFiles .. => .ok [⟨⟨"a", RepoPath.valid_a⟩, .added ⟨⟨0⟩, .regular⟩⟩]
    | call => Environment.calm.answer number call

/-- A daemon with the review of both repositories. -/
def pairedCore : Core := @Core.run .plain bothChanged .initial paired

/-- The list of the review: `lib` before `repo`. -/
def pairedFiles : List FileChange :=
  [⟨⟨9⟩, ⟨"a", RepoPath.valid_a⟩, .added ⟨⟨0⟩, .regular⟩⟩,
    ⟨Session.repoId, ⟨"a", RepoPath.valid_a⟩, .added ⟨⟨0⟩, .regular⟩⟩]

def pairedInputs : ExplorerInputs where
  snapshot := ⟨⟨Session.reviewId, Session.workspaceId, "review",
    .singleton ⟨Session.repoId, .upstream, .head⟩, 0, .opened⟩, none, [], [], [], [], [], [], 0⟩
  repoNames := [(Session.repoId, "repo"), (⟨9⟩, "lib")]
  trees := []
  files := asRenders {} pairedFiles
  openFile := none
  viewer := Session.user
  expanded := []
  collapsed := []
  stats := ∅
  threadCounts := ∅
  changedOnly := true

/-- The daemon lists `lib` first and the explorer shows `repo` first. -/
theorem paired_not_oneOrder :
    (Core.files Session.reviewId bothChanged pairedCore).1 = .ok pairedFiles ∧
      pairedInputs.files = asRenders {} pairedFiles ∧
      ∀ command, ¬ OneOrder pairedInputs command := by
  refine ⟨by decide +kernel, rfl, fun command order => ?_⟩
  have shown : filesOf pairedInputs.roots ≠ pairedInputs.files.map RenderKey.ref := by
    decide +kernel
  exact shown order.shown

theorem bothChanged_listsOnce : bothChanged.ListsOnce := by
  intro number git base head changes answered
  cases answered
  exact List.nodup_singleton _

def pairedTargets : ReviewId → CoreM (NonEmpty ResolvedTarget) := fun id => do
  let (_, targets) ← Core.resolved id
  pure targets

def pairedResolved : NonEmpty ResolvedTarget :=
  ⟨[⟨Session.repoId, ⟨⟨0⟩, .commit ⟨0⟩⟩, ⟨⟨0⟩, .commit ⟨0⟩⟩⟩, ⟨⟨9⟩, ⟨⟨0⟩, .commit ⟨0⟩⟩, ⟨⟨0⟩, .commit ⟨0⟩⟩⟩],
    by decide⟩

/-- Two repositories have changed files. -/
theorem files_shown_in_one_order_iff_paired :
    ∃ listing : Listing, listing.targets = pairedResolved.items ∧ listing.Answered bothChanged ∧
      (OneOrder pairedInputs .moveDown ↔ NamesFollowIds listing) := by
  have listed : (Core.filesScoped pairedTargets Session.reviewId bothChanged pairedCore).1 =
      .ok (pairedFiles, pairedResolved) := by
    decide +kernel
  obtain ⟨last, run⟩ := Program.exists_last listed
  obtain ⟨listing, targets, answered, -, order⟩ := files_shown_in_one_order_iff
    run bothChanged_listsOnce (by decide)
  exact ⟨listing, targets, answered, order pairedInputs {} .moveDown rfl rfl⟩

end Daemon

end Nits.ClientCore
