import Nits.ClientCore.Explorer
import Nits.Logical.Offsets

/-!
# File search

The changed files come first, then everything in the head trees. A query is lowered whole,
a path only by the first character of each lowering: where a lowering is longer, no query
reaches what follows. The scan is greedy, which loses no match among the first characters.
-/

namespace Nits.ClientCore

open Logical Protocol

/-- The lowercase mapping of a character: one or more characters. -/
class Lowercase where
  of : Char → List Char
  nonempty : ∀ char, of char ≠ []

/-- One hit of the fuzzy file search. -/
structure SearchHit where
  file : FileRef
  /-- Byte offsets into the path that matched, for highlighting. -/
  matched : List Nat
  change : Option ChangeKindKind

/-- The search as the interface shows it. -/
structure SearchView where
  query : String
  hits : List SearchHit
  /-- The highlighted hit. -/
  selected : Nat

def MAX_HITS : Nat := 50

/-! ## Matching -/

section Matching

variable [Lowercase]

def lowered (text : List Char) : List Char := text.flatMap Lowercase.of

/-- The first characters of the lowerings. -/
def firsts (text : List Char) : List Char :=
  text.map fun char => (Lowercase.of char).head (Lowercase.nonempty char)

/-- How far a scan of a path has come: what it matched, and what it still looks for. -/
structure Scan where
  matched : List Nat
  score : Int
  wanted : List Char
  prevHit : Bool

/-- What a hit scores: more in a contiguous run, in the file name and where a component
starts. -/
def hitScore (prevHit inName startsComponent : Bool) : Int :=
  10 + (if prevHit then 15 else 0) + (if inName then 5 else 0) + if startsComponent then 8 else 0

/-- Scan the text after an offset, knowing the character before it. A byte that is a slash
is a whole character. -/
def Scan.run (fileNameStart : Nat) : Scan → Nat → Option Char → List Char → Scan
  | scan, _, _, [] => scan
  | scan, offset, before, ch :: text =>
    match scan.wanted with
    | [] => scan
    | next :: later =>
      let scan := if (Lowercase.of ch).head? = some next then
          { matched := scan.matched ++ [offset]
            score := scan.score +
              hitScore scan.prevHit (fileNameStart ≤ offset) (before = none ∨ before = some '/')
            wanted := later
            prevHit := true }
        else { scan with prevHit := false }
      scan.run fileNameStart (offset + ch.utf8Size) (some ch) text

/-- Where the file name starts: behind the last slash. -/
def fileNameStart (text : List Char) : Nat :=
  extent Char.utf8Size (text.reverse.dropWhile fun char => char ≠ '/')

/-- Match lowercase characters in a text, in their order; the score, and the byte offsets
matched. Higher is better, and shorter paths win ties. -/
def fuzzy (text : String) (query : List Char) : Option (Int × List Nat) :=
  let scan := Scan.run (fileNameStart text.toList) ⟨[], 0, query, false⟩ 0 none text.toList
  if scan.wanted = [] then some (scan.score - (min text.utf8ByteSize (2 ^ 63 - 1) : Nat) / 4, scan.matched)
  else none

/-! ## Ranking -/

/-- A file to search among. -/
structure Candidate where
  repoId : RepoId
  path : RepoPath
  change : Option ChangeKindKind

def Candidate.file (candidate : Candidate) : FileRef := ⟨candidate.repoId, candidate.path⟩

def TreeEntryKind.isFile : TreeEntryKind → Bool
  | .file .. | .symlink _ => true
  | .dir _ | .submodule _ => false

/-- Add an entry of a tree, unless it is there already. -/
def addEntry (repoId : RepoId) (candidates : List Candidate) (entry : TreeEntry) : List Candidate :=
  if TreeEntryKind.isFile entry.kind ∧ ¬ candidates.any fun held => held.file = ⟨repoId, entry.path⟩ then
    candidates ++ [⟨repoId, entry.path, none⟩]
  else candidates

omit [Lowercase] in
def ExplorerInputs.changedFiles (inputs : ExplorerInputs) : List Candidate :=
  inputs.files.map fun key =>
    ⟨key.repoId, key.path, match key.target with
      | .diff change => some (ChangeKindKind.ofChange change)
      | .blob _ => none⟩

def ExplorerInputs.candidates (inputs : ExplorerInputs) : List Candidate :=
  inputs.trees.foldl (fun candidates tree =>
    tree.entries.foldl (addEntry tree.repoId) candidates) inputs.changedFiles

/-- Changed files rank above unchanged ones at equal score. -/
def scored (query : List Char) (candidate : Candidate) : Option (Int × SearchHit) :=
  (fuzzy candidate.path.asStr query).map fun (score, matched) =>
    (score + if candidate.change.isSome then 1000 else 0,
      ⟨candidate.file, matched, candidate.change⟩)

/-- The better score comes first, and at equal score the lesser path. -/
def Ranks (left right : Int × SearchHit) : Prop :=
  right.1 < left.1 ∨ (right.1 = left.1 ∧ left.2.file.path.asStr ≤ right.2.file.path.asStr)

instance (left right : Int × SearchHit) : Decidable (Ranks left right) := by
  unfold Ranks
  infer_instance

/-- All hits, the best first. -/
def ranked (inputs : ExplorerInputs) (query : String) : List (Int × SearchHit) :=
  match lowered query.toList with
  | [] => []
  | next :: later => (inputs.candidates.filterMap (scored (next :: later))).insertionSort Ranks

/-- The best hits of a query. -/
def search (inputs : ExplorerInputs) (query : String) : List SearchHit :=
  ((ranked inputs query).take MAX_HITS).map Prod.snd

/-- The search as it is shown, the selection kept among the hits. -/
def searchView (inputs : ExplorerInputs) (searchSelected : Nat) (query : String) : SearchView :=
  let hits := search inputs query
  ⟨query, hits, min searchSelected (hits.length - 1)⟩

/-! ## What a scan finds -/

/-- The character at an offset lowers to the wanted one, at least at first. -/
def MatchedAt (path : List Char) (offset : Nat) (wanted : Char) : Prop :=
  ∃ before char after, path = before ++ char :: after ∧ extent Char.utf8Size before = offset ∧
    (Lowercase.of char).head? = some wanted

omit [Lowercase] in
theorem head?_eq {chars : List Char} (nonempty : chars ≠ []) {char : Char} :
    chars.head? = some char ↔ chars.head nonempty = char := by
  rw [List.head?_eq_some_head nonempty, Option.some.injEq]

variable {path text query : List Char} {start offset : Nat} {before : Option Char} {scan : Scan}

/-- The greedy scan finds what there is to find. -/
theorem Scan.run_wanted :
    (scan.run start offset before text).wanted = [] ↔ scan.wanted.Sublist (firsts text) := by
  induction text generalizing scan offset before with
  | nil => exact List.sublist_nil.symm
  | cons ch text ih =>
    unfold Scan.run
    split
    next none_ => simp [none_]
    next next later wants =>
    have cons : firsts (ch :: text) =
        (Lowercase.of ch).head (Lowercase.nonempty ch) :: firsts text := rfl
    rw [ih, cons]
    split
    next hit =>
      rw [(head?_eq (Lowercase.nonempty ch)).mp hit, wants]
      exact List.cons_sublist_cons.symm
    next miss =>
      rw [wants]
      refine ⟨fun sublist => sublist.cons _, fun sublist => ?_⟩
      cases sublist with
      | cons _ later => exact later
      | cons_cons _ later => exact absurd ((head?_eq (Lowercase.nonempty ch)).mpr rfl) miss

/-- What was matched before an offset, for as much of the query as was taken. -/
structure Scan.Located (path query : List Char) (offset : Nat) (scan : Scan) : Prop where
  taken : ∃ taken, query = taken ++ scan.wanted ∧
    List.Forall₂ (MatchedAt path) scan.matched taken
  increasing : scan.matched.Pairwise (· < ·)
  earlier : ∀ matched ∈ scan.matched, matched < offset

theorem Scan.Located.run {done : List Char} (located : scan.Located path query offset)
    (split : path = done ++ text) (reached : extent Char.utf8Size done = offset) :
    (scan.run start offset before text).Located path query (extent Char.utf8Size path) := by
  have within : offset ≤ extent Char.utf8Size path := by
    rw [split, extent_append]
    omega
  induction text generalizing scan offset before done with
  | nil => exact ⟨located.taken, located.increasing,
      fun matched mem => Nat.lt_of_lt_of_le (located.earlier matched mem) within⟩
  | cons ch text ih =>
    have positive := ch.utf8Size_pos
    unfold Scan.run
    split
    next none_ => exact ⟨located.taken, located.increasing,
      fun matched mem => Nat.lt_of_lt_of_le (located.earlier matched mem) within⟩
    next next later wants =>
    have further : path = (done ++ [ch]) ++ text := by simpa using split
    have extended : extent Char.utf8Size (done ++ [ch]) = offset + ch.utf8Size := by
      simp [reached]
    refine ih ?_ further extended ?_
    · split
      next hit =>
        obtain ⟨taken, parts, found⟩ := located.taken
        refine ⟨⟨taken ++ [next], by rw [parts, wants]; simp, ?_⟩, ?_, ?_⟩
        · refine List.rel_append found (.cons ?_ .nil)
          exact ⟨done, ch, text, split, reached, hit⟩
        · refine List.pairwise_append.mpr ⟨located.increasing, List.pairwise_singleton _ _, ?_⟩
          intro earlier mem last isLast
          rw [List.mem_singleton.mp isLast]
          exact located.earlier earlier mem
        · intro matched mem
          rcases List.mem_append.mp mem with old | new
          · have before := located.earlier matched old
            omega
          · rw [List.mem_singleton.mp new]
            omega
      next miss =>
        refine ⟨located.taken, located.increasing, fun matched mem => ?_⟩
        have before := located.earlier matched mem
        omega
    · have whole := congrArg (extent Char.utf8Size) further
      rw [extent_append, extended] at whole
      omega

theorem fuzzy_isSome {text : String} :
    (fuzzy text query).isSome ↔ query.Sublist (firsts text.toList) := by
  have greedy : (Scan.run (fileNameStart text.toList) ⟨[], 0, query, false⟩ 0 none
      text.toList).wanted = [] ↔ query.Sublist (firsts text.toList) := Scan.run_wanted
  unfold fuzzy
  rw [← greedy]
  dsimp only
  split
  next found => simpa using found
  next missing => simpa using missing

theorem fuzzy_located {text : String} {score : Int} {matched : List Nat}
    (found : fuzzy text query = some (score, matched)) :
    matched.Pairwise (· < ·) ∧ List.Forall₂ (MatchedAt text.toList) matched query := by
  unfold fuzzy at found
  have initial : Scan.Located text.toList query 0 ⟨[], 0, query, false⟩ :=
    ⟨⟨[], rfl, .nil⟩, .nil, List.forall_mem_nil _⟩
  have located : (Scan.run (fileNameStart text.toList) ⟨[], 0, query, false⟩ 0 none
      text.toList).Located text.toList query (extent Char.utf8Size text.toList) :=
    initial.run (List.nil_append _).symm rfl
  dsimp only at found
  split at found
  next whole =>
    cases found
    obtain ⟨taken, parts, here⟩ := located.taken
    rw [whole, List.append_nil] at parts
    exact ⟨located.increasing, parts ▸ here⟩
  next => cases found

end Matching

/-! ## What is searched -/

/-- Some candidates with further ones, each new. -/
def Extends (before after : List Candidate) : Prop :=
  ∃ more, after = before ++ more ∧ (more.map Candidate.file).Nodup ∧
    ∀ candidate ∈ more, candidate.file ∉ before.map Candidate.file

theorem Extends.refl (candidates : List Candidate) : Extends candidates candidates :=
  ⟨[], (List.append_nil _).symm, .nil, List.forall_mem_nil _⟩

theorem Extends.trans {first second third : List Candidate} (early : Extends first second)
    (late : Extends second third) : Extends first third := by
  obtain ⟨more, rfl, once, fresh⟩ := early
  obtain ⟨further, rfl, onceMore, freshMore⟩ := late
  refine ⟨more ++ further, List.append_assoc .., ?_, fun candidate mem => ?_⟩
  · rw [List.map_append]
    refine once.append onceMore fun file old new => ?_
    obtain ⟨candidate, mem, rfl⟩ := List.mem_map.mp new
    exact freshMore candidate mem (by simp [List.map_append, old])
  · rcases List.mem_append.mp mem with old | new
    · exact fresh candidate old
    · exact fun held => freshMore candidate new (by simp [List.map_append, held])

theorem extends_foldl {α : Type} {step : List Candidate → α → List Candidate}
    (one : ∀ candidates item, Extends candidates (step candidates item)) (items : List α)
    (candidates : List Candidate) : Extends candidates (items.foldl step candidates) := by
  induction items generalizing candidates with
  | nil => exact .refl candidates
  | cons item items ih =>
    exact (one candidates item).trans (ih _)

theorem mem_foldl {α : Type} {step : List Candidate → α → List Candidate}
    {adds : α → FileRef → Prop} (one : ∀ candidates item file,
      file ∈ (step candidates item).map Candidate.file ↔
        file ∈ candidates.map Candidate.file ∨ adds item file)
    {items : List α} {candidates : List Candidate} {file : FileRef} :
    file ∈ (items.foldl step candidates).map Candidate.file ↔
      file ∈ candidates.map Candidate.file ∨ ∃ item ∈ items, adds item file := by
  induction items generalizing candidates with
  | nil => simp
  | cons item items ih =>
    rw [List.foldl_cons, ih, one, or_assoc, List.exists_mem_cons_iff]

theorem extends_addEntry (repoId : RepoId) (candidates : List Candidate) (entry : TreeEntry) :
    Extends candidates (addEntry repoId candidates entry) := by
  unfold addEntry
  split
  next adds =>
    refine ⟨[⟨repoId, entry.path, none⟩], rfl, List.nodup_singleton _, fun candidate mem => ?_⟩
    rw [List.mem_singleton.mp mem]
    intro held
    obtain ⟨other, isHeld, same⟩ := List.mem_map.mp held
    exact adds.2 (List.any_eq_true.mpr ⟨other, isHeld, decide_eq_true same⟩)
  next => exact .refl candidates

theorem mem_addEntry {repoId : RepoId} {candidates : List Candidate} {entry : TreeEntry}
    {file : FileRef} : file ∈ (addEntry repoId candidates entry).map Candidate.file ↔
      file ∈ candidates.map Candidate.file ∨
        (TreeEntryKind.isFile entry.kind ∧ file = ⟨repoId, entry.path⟩) := by
  unfold addEntry
  split
  next adds =>
    rw [List.map_append, List.mem_append, List.map_singleton, List.mem_singleton, Candidate.file]
    simp [adds.1]
  next stays =>
    refine ⟨.inl, fun either => either.elim id ?_⟩
    rintro ⟨isFile, rfl⟩
    have held : candidates.any fun held => held.file = ⟨repoId, entry.path⟩ := by
      by_contra missing
      exact stays ⟨isFile, missing⟩
    obtain ⟨other, isHeld, same⟩ := List.any_eq_true.mp held
    exact List.mem_map.mpr ⟨other, isHeld, of_decide_eq_true same⟩

/-- The file is changed, or a head tree has it. -/
def ExplorerInputs.Searched (inputs : ExplorerInputs) (file : FileRef) : Prop :=
  (∃ key ∈ inputs.files, file = ⟨key.repoId, key.path⟩) ∨
    ∃ tree ∈ inputs.trees, ∃ entry ∈ tree.entries,
      TreeEntryKind.isFile entry.kind ∧ file = ⟨tree.repoId, entry.path⟩

section Searching

variable {inputs : ExplorerInputs} {file : FileRef}

theorem ExplorerInputs.mem_candidates :
    file ∈ inputs.candidates.map Candidate.file ↔ inputs.Searched file := by
  have added (candidates : List Candidate) (tree : TreeSnapshot) (file : FileRef) :
      file ∈ (tree.entries.foldl (addEntry tree.repoId) candidates).map Candidate.file ↔
        file ∈ candidates.map Candidate.file ∨ ∃ entry ∈ tree.entries,
          TreeEntryKind.isFile entry.kind ∧ file = ⟨tree.repoId, entry.path⟩ := by
    have one : ∀ candidates entry file,
        file ∈ (addEntry tree.repoId candidates entry).map Candidate.file ↔
          file ∈ candidates.map Candidate.file ∨
            (TreeEntryKind.isFile entry.kind ∧ file = ⟨tree.repoId, entry.path⟩) :=
      fun _ _ _ => mem_addEntry
    exact mem_foldl one
  refine (mem_foldl added).trans (or_congr ?_ Iff.rfl)
  simp [changedFiles, Candidate.file, eq_comm]

theorem ExplorerInputs.extends_candidates : Extends inputs.changedFiles inputs.candidates :=
  extends_foldl (fun candidates (tree : TreeSnapshot) =>
    extends_foldl (extends_addEntry tree.repoId) tree.entries candidates) _ _

/-- Only the file list can name a file twice. -/
theorem ExplorerInputs.nodup_candidates (matching : FileRef → Bool) :
    ((inputs.candidates.filter fun candidate => matching candidate.file).map Candidate.file).Nodup ↔
      ((inputs.changedFiles.filter fun candidate => matching candidate.file).map
        Candidate.file).Nodup := by
  obtain ⟨more, extended, once, fresh⟩ := inputs.extends_candidates
  rw [extended, List.filter_append, List.map_append]
  refine ⟨fun all => (List.nodup_append.mp all).1, fun first => first.append ?_ ?_⟩
  · exact once.sublist (List.filter_sublist.map _)
  · intro file old new
    obtain ⟨held, isHeld, rfl⟩ := List.mem_map.mp old
    obtain ⟨candidate, mem, same⟩ := List.mem_map.mp new
    refine fresh candidate (List.mem_of_mem_filter mem) ?_
    rw [same]
    exact List.mem_map_of_mem (List.mem_of_mem_filter isHeld)

end Searching

/-! ## Hits -/

section Hits

variable [Lowercase] {inputs : ExplorerInputs} {file : FileRef} {query : List Char} {text : String}

/-- The hits are the candidates with the query among their first characters. -/
theorem files_scored (candidates : List Candidate) :
    (candidates.filterMap (scored query)).map (fun hit => hit.2.file) =
      (candidates.filter fun candidate =>
        query.Sublist (firsts candidate.file.path.asStr.toList)).map Candidate.file := by
  induction candidates with
  | nil => rfl
  | cons candidate candidates ih =>
    have path : candidate.file.path = candidate.path := rfl
    by_cases found : query.Sublist (firsts candidate.path.asStr.toList)
    · obtain ⟨hit, is⟩ := Option.isSome_iff_exists.mp (fuzzy_isSome.mpr found)
      rw [List.filterMap_cons, scored, is, List.filter_cons_of_pos (by simpa [path] using found)]
      exact congrArg (candidate.file :: ·) ih
    · have missing : fuzzy candidate.path.asStr query = none :=
        Option.not_isSome_iff_eq_none.mp (fuzzy_isSome.not.mpr found)
      rw [List.filterMap_cons, scored, missing, List.filter_cons_of_neg (by simpa [path] using found)]
      exact ih

theorem lowered_ne_nil (nonempty : text ≠ "") : lowered text.toList ≠ [] := by
  intro none_
  cases chars : text.toList with
  | nil => exact nonempty (String.toList_eq_nil_iff.mp chars)
  | cons char more =>
    rw [chars, lowered, List.flatMap_cons] at none_
    exact Lowercase.nonempty char (List.append_eq_nil_iff.mp none_).1

theorem ranked_perm (nonempty : text ≠ "") : (ranked inputs text).Perm
    (inputs.candidates.filterMap (scored (lowered text.toList))) := by
  have some_ := lowered_ne_nil nonempty
  unfold ranked
  split
  next none_ => exact absurd none_ some_
  next next later chars =>
    rw [chars]
    exact List.perm_insertionSort _ _

/-- What the query names by first characters of the path. -/
theorem mem_ranked (nonempty : text ≠ "") :
    file ∈ (ranked inputs text).map (fun hit => hit.2.file) ↔
      inputs.Searched file ∧ (lowered text.toList).Sublist (firsts file.path.asStr.toList) := by
  rw [((ranked_perm nonempty).map _).mem_iff, files_scored, ← ExplorerInputs.mem_candidates]
  constructor
  · intro mem
    obtain ⟨candidate, kept, rfl⟩ := List.mem_map.mp mem
    obtain ⟨listed, found⟩ := List.mem_filter.mp kept
    exact ⟨List.mem_map_of_mem listed, of_decide_eq_true found⟩
  · rintro ⟨mem, found⟩
    obtain ⟨candidate, listed, rfl⟩ := List.mem_map.mp mem
    exact List.mem_map_of_mem (List.mem_filter.mpr ⟨listed, decide_eq_true found⟩)

theorem nodup_ranked (nonempty : text ≠ "") :
    ((ranked inputs text).map fun hit => hit.2.file).Nodup ↔
      ((inputs.changedFiles.filter fun candidate => (lowered text.toList).Sublist
        (firsts candidate.file.path.asStr.toList)).map Candidate.file).Nodup := by
  rw [((ranked_perm nonempty).map _).nodup_iff, files_scored]
  exact ExplorerInputs.nodup_candidates fun file =>
    (lowered text.toList).Sublist (firsts file.path.asStr.toList)

instance : Std.Total Ranks := ⟨fun left right => by
  rcases lt_trichotomy left.1 right.1 with worse | same | better
  · exact .inr (.inl worse)
  · rcases String.le_total left.2.file.path.asStr right.2.file.path.asStr with lesser | greater
    · exact .inl (.inr ⟨same.symm, lesser⟩)
    · exact .inr (.inr ⟨same, greater⟩)
  · exact .inl (.inl better)⟩

instance : IsTrans (Int × SearchHit) Ranks := ⟨fun first second third early late => by
  rcases early with better | ⟨same, lesser⟩
  · exact .inl (late.elim (fun further => further.trans better) fun equal => equal.1 ▸ better)
  · rcases late with better | ⟨equal, further⟩
    · exact .inl (same ▸ better)
    · exact .inr ⟨equal.trans same, String.le_trans lesser further⟩⟩

theorem ranked_sorted : (ranked inputs text).Pairwise Ranks := by
  unfold ranked
  split
  · exact .nil
  · exact List.pairwise_insertionSort Ranks _

/-- What is shown ranks before what the cap leaves out. -/
theorem shown_first {shown omitted : Int × SearchHit}
    (isShown : shown ∈ (ranked inputs text).take MAX_HITS)
    (isOmitted : omitted ∈ (ranked inputs text).drop MAX_HITS) : Ranks shown omitted := by
  have sorted : (ranked inputs text).Pairwise Ranks := ranked_sorted
  rw [← List.take_append_drop MAX_HITS (ranked inputs text)] at sorted
  exact (List.pairwise_append.mp sorted).2.2 shown isShown omitted isOmitted

theorem located_ranked {hit : Int × SearchHit} (mem : hit ∈ ranked inputs text) :
    hit.2.matched.Pairwise (· < ·) ∧
      List.Forall₂ (MatchedAt hit.2.file.path.asStr.toList) hit.2.matched (lowered text.toList) := by
  unfold ranked at mem
  split at mem
  · cases mem
  next next later chars =>
    rw [chars]
    obtain ⟨candidate, _, is⟩ := List.mem_filterMap.mp (List.mem_insertionSort _ |>.mp mem)
    obtain ⟨⟨score, matched⟩, found, rfl⟩ := Option.map_eq_some_iff.mp is
    exact fuzzy_located found

theorem selected_lt {searchSelected : Nat} (some_ : search inputs text ≠ []) :
    (searchView inputs searchSelected text).selected <
      (searchView inputs searchSelected text).hits.length := by
  have positive : 0 < (search inputs text).length := List.length_pos_of_ne_nil some_
  change min searchSelected ((search inputs text).length - 1) < (search inputs text).length
  omega

end Hits

/-! ## What a search finds -/

section Finding

variable [Lowercase] {text : List Char}

theorem firsts_sublist : (firsts text).Sublist (lowered text) := by
  induction text with
  | nil => exact .refl _
  | cons char text ih =>
    have first : [(Lowercase.of char).head (Lowercase.nonempty char)].Sublist (Lowercase.of char) :=
      List.singleton_sublist.mpr (List.head_mem _)
    exact first.append ih

/-- A text's lowering consists of first characters where no lowering is longer. -/
theorem lowered_sublist_firsts :
    (lowered text).Sublist (firsts text) ↔ ∀ char ∈ text, (Lowercase.of char).length = 1 := by
  constructor
  · intro within
    have short : (lowered text).length ≤ text.length := by
      have bound := within.length_le
      rwa [firsts, List.length_map] at bound
    clear within
    induction text with
    | nil => exact List.forall_mem_nil _
    | cons char text ih =>
      have positive := List.length_pos_of_ne_nil (Lowercase.nonempty char)
      have rest : text.length ≤ (lowered text).length := by
        have sublist : (firsts text).Sublist (lowered text) := firsts_sublist
        have bound := sublist.length_le
        rwa [firsts, List.length_map] at bound
      rw [lowered, List.flatMap_cons, List.length_append, List.length_cons, ← lowered] at short
      exact List.forall_mem_cons.mpr ⟨by omega, ih (by omega)⟩
  · intro single
    suffices lowered text = firsts text from this ▸ .refl _
    induction text with
    | nil => rfl
    | cons char text ih =>
      obtain ⟨here, single⟩ := List.forall_mem_cons.mp single
      obtain ⟨lower, only⟩ := List.length_eq_one_iff.mp here
      rw [lowered, List.flatMap_cons, ← lowered, ih single]
      simp [firsts, only]

/-- The hits before the cap are the files whose lowered path has the lowered query, each
once. -/
structure Finds (inputs : ExplorerInputs) (query : String) : Prop where
  once : ((ranked inputs query).map fun hit => hit.2.file).Nodup
  exactly : ∀ file, file ∈ (ranked inputs query).map (fun hit => hit.2.file) ↔
    inputs.Searched file ∧ (lowered query.toList).Sublist (lowered file.path.asStr.toList)

/-- The file list names no match twice, and no path has the query only by what follows the
first character of a lowering. -/
structure ExplorerInputs.Plain (inputs : ExplorerInputs) (query : String) : Prop where
  once : ((inputs.changedFiles.filter fun candidate => (lowered query.toList).Sublist
    (lowered candidate.file.path.asStr.toList)).map Candidate.file).Nodup
  first : ∀ file, inputs.Searched file →
    (lowered query.toList).Sublist (lowered file.path.asStr.toList) →
      (lowered query.toList).Sublist (firsts file.path.asStr.toList)

theorem finds_iff {inputs : ExplorerInputs} {query : String} (nonempty : query ≠ "") :
    Finds inputs query ↔ inputs.Plain query := by
  have same (first : ∀ file, inputs.Searched file →
      (lowered query.toList).Sublist (lowered file.path.asStr.toList) →
        (lowered query.toList).Sublist (firsts file.path.asStr.toList)) :
      (inputs.changedFiles.filter fun candidate => (lowered query.toList).Sublist
        (lowered candidate.file.path.asStr.toList)) =
      inputs.changedFiles.filter fun candidate => (lowered query.toList).Sublist
        (firsts candidate.file.path.asStr.toList) := by
    refine List.filter_congr fun candidate mem => decide_eq_decide.mpr ⟨first _ ?_, fun found => found.trans firsts_sublist⟩
    obtain ⟨more, extended, _⟩ := inputs.extends_candidates
    rw [← ExplorerInputs.mem_candidates, extended]
    exact List.mem_map_of_mem (List.mem_append_left _ mem)
  constructor
  · rintro ⟨once, exactly⟩
    have first : ∀ file, inputs.Searched file →
        (lowered query.toList).Sublist (lowered file.path.asStr.toList) →
          (lowered query.toList).Sublist (firsts file.path.asStr.toList) :=
      fun file searched found => ((mem_ranked nonempty).mp ((exactly file).mpr ⟨searched, found⟩)).2
    refine ⟨?_, first⟩
    rw [same first]
    exact (nodup_ranked nonempty).mp once
  · rintro ⟨once, first⟩
    refine ⟨?_, fun file => (mem_ranked nonempty).trans (and_congr_right fun searched => ?_)⟩
    · rw [nodup_ranked nonempty, ← same first]
      exact once
    · exact ⟨fun found => found.trans firsts_sublist, first file searched⟩

/-- A query finds exactly the files it should where the inputs are plain for it, and a file
is found by its own path where no character of the path has a longer lowering. Each hit's
offsets are where the query was matched; the cap leaves out nothing better; and the selection
is a hit. -/
theorem search_finds (inputs : ExplorerInputs) (query : String) (nonempty : query ≠ "") :
    (Finds inputs query ↔ inputs.Plain query) ∧
    (∀ file, inputs.Searched file →
      (file ∈ (ranked inputs file.path.asStr).map (fun hit => hit.2.file) ↔
        ∀ char ∈ file.path.asStr.toList, (Lowercase.of char).length = 1)) ∧
    (∀ hit ∈ ranked inputs query, hit.2.matched.Pairwise (· < ·) ∧
      List.Forall₂ (MatchedAt hit.2.file.path.asStr.toList) hit.2.matched (lowered query.toList)) ∧
    (∀ shown ∈ (ranked inputs query).take MAX_HITS,
      ∀ omitted ∈ (ranked inputs query).drop MAX_HITS, Ranks shown omitted) ∧
    ∀ searchSelected, search inputs query ≠ [] →
      (searchView inputs searchSelected query).selected <
        (searchView inputs searchSelected query).hits.length := by
  refine ⟨finds_iff nonempty, fun file searched => ?_, fun hit => located_ranked,
    fun shown isShown omitted => shown_first isShown, fun searchSelected => selected_lt⟩
  have named : file.path.asStr ≠ "" := by
    intro none_
    have valid := file.path.valid
    rw [none_] at valid
    exact absurd valid (by decide)
  rw [mem_ranked named, lowered_sublist_firsts]
  exact and_iff_right searched

end Finding

/-- The mapping of a dotted capital I, whose lowering is longer, and of the ASCII letters. -/
@[reducible] def dotted : Lowercase where
  of char := if char = 'İ' then ['i', '\u0307'] else [char.toLower]
  nonempty char := by
    split <;> exact List.cons_ne_nil _ _

namespace Dotted

def path (name : String) (valid : RepoPath.invalidity name = none) : RepoPath := ⟨name, valid⟩

/-- A review whose head tree has some files, none of them changed. -/
def inputs (paths : List RepoPath) : ExplorerInputs where
  snapshot := {
    review := {
      id := ⟨7⟩, workspaceId := ⟨2⟩, title := "review", created := 0, status := .opened
      targets := .singleton ⟨⟨3⟩, .upstream, .head⟩ }
    resolved := none
    threads := []
    comments := []
    suggestions := []
    viewed := []
    requests := []
    checkpoints := []
    seq := 0 }
  repoNames := []
  trees := [⟨⟨3⟩, ⟨1⟩, paths.map fun path => ⟨path, .file ⟨5⟩ 1 false⟩⟩]
  files := []
  openFile := none
  viewer := .human "ann" "desk"
  expanded := []
  collapsed := []
  stats := ∅
  threadCounts := ∅
  changedOnly := false

def notes : RepoPath := path "İ/notes" (by decide)

/-- Head trees of two repositories, and a changed file that the second tree has too. -/
def twoTrees : ExplorerInputs where
  __ := inputs []
  trees := [⟨⟨3⟩, ⟨1⟩, [⟨notes, .file ⟨5⟩ 1 false⟩, ⟨path "src/main" (by decide), .file ⟨6⟩ 1 false⟩]⟩,
    ⟨⟨4⟩, ⟨2⟩, [⟨path "lib/notes" (by decide), .file ⟨7⟩ 1 false⟩]⟩]
  files := [⟨⟨4⟩, path "lib/notes" (by decide), .diff (.modified ⟨⟨8⟩, .regular⟩ ⟨⟨7⟩, .regular⟩), {}⟩]

end Dotted

/-- A search for the first characters of the lowerings finds the files. -/
theorem notes_found : @Finds dotted Dotted.twoTrees "i/notes" := by
  obtain ⟨finds, _⟩ := @search_finds dotted Dotted.twoTrees "i/notes" (by decide)
  refine finds.mpr (@ExplorerInputs.Plain.mk dotted _ _ (by decide) fun file searched has => ?_)
  rcases searched with ⟨key, changed, rfl⟩ | ⟨tree, isTree, entry, isEntry, _, rfl⟩
  · obtain rfl := List.mem_singleton.mp changed
    decide
  · rcases List.mem_cons.mp isTree with rfl | isTree
    · rcases List.mem_cons.mp isEntry with rfl | isEntry
      · decide
      · obtain rfl := List.mem_singleton.mp isEntry
        exact absurd has (by decide)
    · obtain rfl := List.mem_singleton.mp isTree
      obtain rfl := List.mem_singleton.mp isEntry
      decide

/-- A file whose path has a longer lowering is not found by its own path. -/
theorem dotted_missed : ¬ ∀ [Lowercase] (inputs : ExplorerInputs) (query : String), query ≠ "" →
    Finds inputs query := by
  intro always
  obtain ⟨_, exactly⟩ := @always dotted (Dotted.inputs [Dotted.notes]) "İ/notes" (by decide)
  have found := (@exactly ⟨⟨3⟩, Dotted.notes⟩).mpr
    ⟨.inr ⟨_, List.mem_singleton_self _, _, List.mem_singleton_self _, rfl, rfl⟩, .refl _⟩
  have missed : (@ranked dotted (Dotted.inputs [Dotted.notes]) "İ/notes") = [] := by decide +kernel
  rw [missed] at found
  exact List.not_mem_nil found

end Nits.ClientCore
