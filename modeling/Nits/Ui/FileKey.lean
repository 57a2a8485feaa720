import Nits.ClientCore.Placement
import Nits.ReviewCore.Render.Cache

/-!
# File keys

The UI tells files apart by a text of what is compared in the file, where it is, and how many
rows and changes it has. The text says these and nothing else: two views have one key exactly
when they agree on them.
-/

namespace Nits.Ui

open Logical Protocol ClientCore

namespace BlobMetadata

def mode : BlobMode → String
  | .regular => "100644"
  | .executable => "100755 (executable)"
  | .symlink => "120000 (symlink)"
  | .unknown => "unknown Git mode"

def key (entry : BlobEntry) : String := toString entry.oid ++ ":" ++ mode entry.mode

end BlobMetadata

/-- What a submodule change reads as. -/
def submoduleText : SubmoduleChange → String
  | .added new => "Submodule added\nNew commit: " ++ toString new
  | .deleted old => "Submodule removed\nOld commit: " ++ toString old
  | .updated old new =>
    "Submodule updated\nOld commit: " ++ toString old ++ "\nNew commit: " ++ toString new
  | .renamed source old new => "Submodule renamed from " ++ toString source ++ "\nOld commit: " ++
      toString old ++ "\nNew commit: " ++ toString new
  | .blobToSubmodule old new => "Blob replaced by submodule\nOld blob: " ++ toString old.oid ++ " (" ++
      BlobMetadata.mode old.mode ++ ")\nNew commit: " ++ toString new
  | .submoduleToBlob old new => "Submodule replaced by blob\nOld commit: " ++ toString old ++
      "\nNew blob: " ++ toString new.oid ++ " (" ++ BlobMetadata.mode new.mode ++ ")"

def targetKey : RenderTarget → String
  | .blob entry => BlobMetadata.key entry
  | .diff (.submodule change) => submoduleText change
  | .diff (.added new) => "added:" ++ BlobMetadata.key new
  | .diff (.deleted old) => "deleted:" ++ BlobMetadata.key old
  | .diff (.modified old new) => BlobMetadata.key old ++ ":" ++ BlobMetadata.key new
  | .diff (.renamed source old new) =>
    toString source ++ ":" ++ BlobMetadata.key old ++ ":" ++ BlobMetadata.key new

def contentKey : RenderContent → String
  | .text totalRows _ _ _ additions deletions _ =>
    "\x00" ++ toString totalRows ++ "\x00" ++ toString additions ++ "\x00" ++ toString deletions
  | .binary => "\x00binary"
  | .submodule => "\x00submodule"

/-- Identity of the rendered file; cached rows are dropped when it changes. -/
def fileKey (diff : DiffView) : String :=
  targetKey diff.target ++ "\x00" ++ toString diff.file.repoId ++ "\x00" ++ toString diff.file.path ++
    contentKey diff.content

/-- How many rows and changes a render has, if it has any. -/
inductive RenderTotals
  | text (totalRows additions deletions : Nat)
  | binary
  | submodule

def RenderTotals.of : RenderContent → RenderTotals
  | .text totalRows _ _ _ additions deletions _ => .text totalRows additions deletions
  | .binary => .binary
  | .submodule => .submodule

/-! ## Names -/

section Names

variable {kind : ObjectKind} (oid : Oid kind)

theorem toList_oid : (toString oid).toList = (digitsOf 16 40 oid.bytes.toNat).map Nat.digitChar := by
  change (Oid.toString oid).toList = _
  rw [Oid.toString, String.toList_ofList, digitsOf, List.map_map]
  rfl

theorem length_oid : (toString oid).toList.length = 40 := by
  rw [toList_oid, List.length_map, length_digitsOf]

/-- No object name holds a character that is no digit. -/
theorem not_mem_oid {char : Char} (other : ∀ digit < 16, Nat.digitChar digit ≠ char) :
    char ∉ (toString oid).toList := by
  rw [toList_oid]
  intro mem
  obtain ⟨digit, among, rfl⟩ := List.mem_map.mp mem
  exact other digit (digitsOf_lt (by decide) among) rfl

theorem toList_oid_inj {left right : Oid kind} :
    (toString left).toList = (toString right).toList ↔ left = right :=
  ⟨fun same => Oid.toString_injective (String.toList_injective same), fun same => by rw [same]⟩

/-- Behind texts of one length, equal names are the same object. -/
theorem append_oid_inj {left right : Oid kind} {back back' : List Char} :
    (toString left).toList ++ back = (toString right).toList ++ back' ↔
      left = right ∧ back = back' := by
  constructor
  · intro same
    obtain ⟨names, backs⟩ := List.append_inj same ((length_oid left).trans (length_oid right).symm)
    exact ⟨toList_oid_inj.mp names, backs⟩
  · rintro ⟨rfl, rfl⟩
    rfl

end Names

/-! ## Targets -/

theorem colon_not_mem_mode (mode : BlobMode) : ':' ∉ (BlobMetadata.mode mode).toList := by
  cases mode <;> decide

theorem mode_injective : Function.Injective BlobMetadata.mode := by
  intro left right same
  cases left <;> cases right <;> first | rfl | exact absurd same (by decide)

theorem toList_key (entry : BlobEntry) : (BlobMetadata.key entry).toList =
    (toString entry.oid).toList ++ ':' :: (BlobMetadata.mode entry.mode).toList := by
  simp [BlobMetadata.key]

/-- The entry at the end of a text is determined by the text. -/
theorem append_key_inj {left right : BlobEntry} {front front' : List Char} :
    front ++ (BlobMetadata.key left).toList = front' ++ (BlobMetadata.key right).toList ↔
      front = front' ∧ left = right := by
  constructor
  · intro same
    rw [toList_key, toList_key, ← List.append_assoc, ← List.append_assoc] at same
    obtain ⟨fronts, modes⟩ := behind_inj (colon_not_mem_mode _) (colon_not_mem_mode _) same
    obtain ⟨fronts, oids⟩ :=
      List.append_inj' fronts ((length_oid left.oid).trans (length_oid right.oid).symm)
    refine ⟨fronts, ?_⟩
    cases left
    cases right
    exact congr (congrArg BlobEntry.mk (toList_oid_inj.mp oids))
      (mode_injective (String.toList_injective modes))
  · rintro ⟨rfl, rfl⟩
    rfl

/-- What stands before the last entry of a target: a word, or a text that ends in another
entry. -/
inductive Lead
  | word (text : String)
  | entry (front : List Char) (old : BlobEntry)

def Lead.text : Lead → List Char
  | word text => text.toList
  | entry front old => front ++ (BlobMetadata.key old).toList ++ [':']

/-- No word is as long as an entry. -/
def Lead.Short : Lead → Prop
  | word text => text.toList.length ≤ 40
  | entry .. => True

theorem Lead.text_inj {left right : Lead} (short : left.Short) (short' : right.Short)
    (same : left.text = right.text) : left = right := by
  have apart {text : String} {front : List Char} {old : BlobEntry}
      (short : text.toList.length ≤ 40) :
      text.toList ≠ front ++ (BlobMetadata.key old).toList ++ [':'] := by
    intro same
    have lengths := congrArg List.length same
    rw [List.length_append, List.length_append, toList_key, List.length_append, length_oid,
      List.length_cons] at lengths
    omega
  cases left <;> cases right
  case word.word => rw [String.toList_injective same]
  case word.entry => exact absurd same (apart short)
  case entry.word => exact absurd same.symm (apart short')
  case entry.entry =>
    obtain ⟨rfl, rfl⟩ := append_key_inj.mp (List.append_cancel_right same)
    rfl

def leading : RenderTarget → Option (Lead × BlobEntry)
  | .blob entry => some (.word "", entry)
  | .diff (.submodule _) => none
  | .diff (.added new) => some (.word "added:", new)
  | .diff (.deleted old) => some (.word "deleted:", old)
  | .diff (.modified old new) => some (.entry [] old, new)
  | .diff (.renamed source old new) => some (.entry (source.asStr.toList ++ [':']) old, new)

theorem short_leading {target : RenderTarget} {lead : Lead} {entry : BlobEntry}
    (led : leading target = some (lead, entry)) : lead.Short := by
  unfold leading at led
  split at led <;> cases led <;> simp [Lead.Short]

theorem targetKey_of_leading {target : RenderTarget} {lead : Lead} {entry : BlobEntry}
    (led : leading target = some (lead, entry)) :
    (targetKey target).toList = lead.text ++ (BlobMetadata.key entry).toList := by
  unfold leading at led
  split at led <;> cases led <;> simp [targetKey, Lead.text]
  rfl

theorem leading_inj {left right : RenderTarget} (entries : (leading left).isSome)
    (same : leading left = leading right) : left = right := by
  have paths {source source' : RepoPath} (equal : source.asStr.toList = source'.asStr.toList) :
      source = source' := RepoPath.asStr_injective (String.toList_injective equal)
  rcases left with (change | new | old | ⟨old, new⟩ | ⟨source, old, new⟩) | entry <;>
    rcases right with (change' | new' | old' | ⟨old', new'⟩ | ⟨source', old', new'⟩) | entry' <;>
    simp_all [leading]
  exact paths same.1.1

/-! ## Submodules -/

/-- What is behind the last colon of a text begins with a space. -/
def Labelled (text : List Char) : Prop :=
  ∃ front back, text = front ++ ':' :: ' ' :: back ∧ ':' ∉ back

theorem labelled {label name : String} {back : List Char}
    (spelled : label.toList = name.toList ++ [':', ' ']) (plain : ':' ∉ back) :
    Labelled (label.toList ++ back) :=
  ⟨name.toList, back, by rw [spelled, List.append_assoc]; rfl, plain⟩

theorem Labelled.append {text : List Char} (front : List Char) (labelled : Labelled text) :
    Labelled (front ++ text) := by
  obtain ⟨before, back, rfl, plain⟩ := labelled
  exact ⟨front ++ before, back, (List.append_assoc ..).symm, plain⟩

theorem labelled_submoduleText (change : SubmoduleChange) :
    Labelled (submoduleText change).toList := by
  have digits {kind : ObjectKind} (oid : Oid kind) : ':' ∉ (toString oid).toList :=
    not_mem_oid oid (by decide)
  unfold submoduleText
  cases change <;> simp only [String.toList_append, List.append_assoc]
  case added new => exact @labelled _ "Submodule added\nNew commit" _ (by decide) (digits new)
  case deleted old => exact @labelled _ "Submodule removed\nOld commit" _ (by decide) (digits old)
  case updated old new =>
    exact .append _ (.append _ (@labelled _ "\nNew commit" _ (by decide) (digits new)))
  case renamed source old new =>
    exact .append _ (.append _ (.append _ (.append _
      (@labelled _ "\nNew commit" _ (by decide) (digits new)))))
  case blobToSubmodule old new =>
    exact .append _ (.append _ (.append _ (.append _
      (@labelled _ ")\nNew commit" _ (by decide) (digits new)))))
  case submoduleToBlob old new =>
    refine .append _ (.append _ (@labelled _ "\nNew blob" _ (by decide) ?_))
    have brackets : ':' ∉ " (".toList ∧ ':' ∉ ")".toList := by decide
    simp only [List.mem_append, not_or]
    exact ⟨digits _, brackets.1, colon_not_mem_mode _, brackets.2⟩

/-- How the texts of a kind of submodule change begin. -/
def heading : SubmoduleChange → String
  | .added _ => "Submodule add"
  | .deleted _ => "Submodule rem"
  | .updated .. => "Submodule upd"
  | .renamed .. => "Submodule ren"
  | .blobToSubmodule .. => "Blob replaced"
  | .submoduleToBlob .. => "Submodule rep"

theorem take_submoduleText (change : SubmoduleChange) :
    (submoduleText change).toList.take 13 = (heading change).toList := by
  unfold submoduleText
  cases change <;> simp only [heading, String.toList_append, List.append_assoc] <;>
    rw [List.take_append_of_le_length (by decide)] <;> decide

theorem submoduleText_injective : Function.Injective submoduleText := by
  intro left right same
  have texts := congrArg String.toList same
  have heads := congrArg (List.take 13) texts
  rw [take_submoduleText, take_submoduleText] at heads
  -- Texts that begin alike are of one kind; what is of one length is cut off from either end.
  unfold submoduleText at texts
  cases left <;> cases right <;> first | exact absurd heads (by simp only [heading]; decide) |
    simp only [String.toList_append, List.append_assoc] at texts
  case added.added =>
    rw [toList_oid_inj.mp (List.append_cancel_left texts)]
  case deleted.deleted =>
    rw [toList_oid_inj.mp (List.append_cancel_left texts)]
  case updated.updated =>
    obtain ⟨rfl, rest⟩ := append_oid_inj.mp (List.append_cancel_left texts)
    rw [toList_oid_inj.mp (List.append_cancel_left rest)]
  case renamed.renamed source old new source' old' new' =>
    obtain ⟨path, rest⟩ := List.append_inj' (List.append_cancel_left texts)
      (by simp only [List.length_append, length_oid])
    have paths : source = source' := RepoPath.asStr_injective (String.toList_injective path)
    obtain ⟨olds, last⟩ := append_oid_inj.mp (List.append_cancel_left rest)
    rw [paths, olds, toList_oid_inj.mp (List.append_cancel_left last)]
  case blobToSubmodule.blobToSubmodule old new old' new' =>
    obtain ⟨oid, rest⟩ := append_oid_inj.mp (List.append_cancel_left texts)
    obtain ⟨mode, last⟩ := List.append_inj' (List.append_cancel_left rest)
      (by simp only [List.length_append, length_oid])
    rw [toList_oid_inj.mp (List.append_cancel_left last)]
    cases old
    cases old'
    cases oid
    cases mode_injective (String.toList_injective mode)
    rfl
  case submoduleToBlob.submoduleToBlob old new old' new' =>
    obtain ⟨olds, rest⟩ := append_oid_inj.mp (List.append_cancel_left texts)
    obtain ⟨oid, last⟩ := append_oid_inj.mp (List.append_cancel_left rest)
    have mode := List.append_cancel_right (List.append_cancel_left last)
    rw [olds]
    cases new
    cases new'
    cases oid
    cases mode_injective (String.toList_injective mode)
    rfl

theorem targetKey_injective : Function.Injective targetKey := by
  intro left right same
  have texts := congrArg String.toList same
  -- A target without an entry at its end is a submodule change.
  have submodule {target : RenderTarget} (none_ : leading target = none) :
      ∃ change, target = .diff (.submodule change) := by
    unfold leading at none_
    split at none_ <;> first | exact ⟨_, rfl⟩ | cases none_
  have apart {target : RenderTarget} {lead : Lead} {entry : BlobEntry} {change : SubmoduleChange}
      (led : leading target = some (lead, entry)) :
      (targetKey target).toList ≠ (submoduleText change).toList := by
    intro equal
    obtain ⟨front, back, labelled, plain⟩ := labelled_submoduleText change
    rw [targetKey_of_leading led, toList_key, ← List.append_assoc, labelled] at equal
    have modes := (behind_inj (colon_not_mem_mode _) (by simpa using plain) equal).2
    cases mode : entry.mode <;> rw [mode] at modes <;> simp [BlobMetadata.mode] at modes
  cases ledLeft : leading left with
  | none =>
    obtain ⟨change, rfl⟩ := submodule ledLeft
    cases ledRight : leading right with
    | none =>
      obtain ⟨change', rfl⟩ := submodule ledRight
      rw [submoduleText_injective same]
    | some led => exact absurd texts.symm (apart ledRight)
  | some led =>
    cases ledRight : leading right with
    | none =>
      obtain ⟨change', rfl⟩ := submodule ledRight
      exact absurd texts (apart ledLeft)
    | some led' =>
      refine leading_inj (by rw [ledLeft]; rfl) ?_
      rw [targetKey_of_leading ledLeft, targetKey_of_leading ledRight] at texts
      obtain ⟨fronts, entries⟩ := append_key_inj.mp texts
      have leads := Lead.text_inj (short_leading ledLeft) (short_leading ledRight) fronts
      rw [ledLeft, ledRight, Prod.ext leads entries]

/-! ## Keys -/

section Nul

theorem nul_not_mem_oid {kind : ObjectKind} (oid : Oid kind) :
    '\x00' ∉ (toString oid).toList := not_mem_oid oid (by decide)

theorem nul_not_mem_path (path : RepoPath) : '\x00' ∉ (toString path).toList := by
  intro mem
  have valid := path.valid
  unfold RepoPath.invalidity at valid
  dsimp only at valid
  change '\x00' ∈ path.asStr.toList at mem
  rw [if_pos (List.contains_iff_mem.mpr mem)] at valid
  split at valid <;> cases valid

theorem nul_not_mem_mode (mode : BlobMode) : '\x00' ∉ (BlobMetadata.mode mode).toList := by
  cases mode <;> decide

theorem nul_not_mem_key (entry : BlobEntry) : '\x00' ∉ (BlobMetadata.key entry).toList := by
  rw [toList_key, List.mem_append, List.mem_cons]
  simp [nul_not_mem_oid, nul_not_mem_mode]

theorem nul_not_mem_targetKey (target : RenderTarget) : '\x00' ∉ (targetKey target).toList := by
  rcases target with (change | new | old | ⟨old, new⟩ | ⟨source, old, new⟩) | entry
  case diff.submodule =>
    rw [targetKey]
    unfold submoduleText
    cases change <;> simp only [String.toList_append, List.mem_append, nul_not_mem_oid,
      nul_not_mem_mode, nul_not_mem_path, or_false] <;> decide
  all_goals
    simp only [targetKey, String.toList_append, List.mem_append, nul_not_mem_key,
      nul_not_mem_path, or_false, false_or]
    try decide

theorem nul_not_mem_digits (n : Nat) : '\x00' ∉ (toString n).toList := by
  change '\x00' ∉ n.repr.toList
  rw [Nat.toList_repr]
  exact fun mem => absurd (Nat.isDigit_of_mem_toDigits (by decide) (by decide) mem) (by decide)

end Nul

theorem length_id {kind : IdKind} (id : Id kind) : (toString id).toList.length = 26 := by
  change (Id.toString id).toList.length = 26
  simp [Id.toString]

theorem toString_id_injective {kind : IdKind} : Function.Injective (toString : Id kind → String) := by
  intro left right same
  have small (id : Id kind) : id.ulid.toNat < 32 ^ 26 := id.ulid.isLt.trans (by decide)
  have digits : (digitsOf 32 26 left.ulid.toNat).map (Id.alphabet.getD · '0') =
      (digitsOf 32 26 right.ulid.toNat).map (Id.alphabet.getD · '0') := by
    rw [digitsOf, digitsOf, List.map_map, List.map_map]
    exact String.ofList_injective same
  exact Id.ulid_injective
    (BitVec.eq_of_toNat_eq (digitsOf_inj (by decide) (small left) (small right) digits))

theorem toString_nat_inj {m n : Nat} (same : (toString m).toList = (toString n).toList) : m = n := by
  change m.repr.toList = n.repr.toList at same
  rw [Nat.toList_repr, Nat.toList_repr] at same
  have values := congrArg (fun digits => Nat.ofDigitChars 10 digits 0) same
  simpa only [Nat.ofDigitChars_ten_toDigits] using values

theorem toList_contentKey (content : RenderContent) : (contentKey content).toList = '\x00' ::
    match RenderTotals.of content with
    | .text totalRows additions deletions => (toString totalRows).toList ++ '\x00' ::
        ((toString additions).toList ++ '\x00' :: (toString deletions).toList)
    | .binary => "binary".toList
    | .submodule => "submodule".toList := by
  cases content <;> simp [contentKey, RenderTotals.of]

theorem contentKey_inj {left right : RenderContent}
    (same : (contentKey left).toList = (contentKey right).toList) :
    RenderTotals.of left = RenderTotals.of right := by
  rw [toList_contentKey, toList_contentKey] at same
  have same := (List.cons.inj same).2
  have plain : '\x00' ∉ "binary".toList ∧ '\x00' ∉ "submodule".toList := by decide
  generalize RenderTotals.of left = left at same
  generalize RenderTotals.of right = right at same
  cases left <;> cases right <;> dsimp only at same
  case text.text =>
    obtain ⟨rows, rest⟩ := before_inj (nul_not_mem_digits _) (nul_not_mem_digits _) same
    obtain ⟨additions, deletions⟩ := before_inj (nul_not_mem_digits _) (nul_not_mem_digits _) rest
    rw [toString_nat_inj rows, toString_nat_inj additions, toString_nat_inj deletions]
  case text.binary => exact absurd (by rw [← same]; simp) plain.1
  case text.submodule => exact absurd (by rw [← same]; simp) plain.2
  case binary.text => exact absurd (by rw [same]; simp) plain.1
  case submodule.text => exact absurd (by rw [same]; simp) plain.2
  case binary.submodule | submodule.binary => exact absurd same (by decide)
  case binary.binary | submodule.submodule => rfl

/-- The key of a view says what it compares, in which file, and the counts of its rows and
changes, and nothing else. -/
theorem fileKey_eq_iff (left right : DiffView) : fileKey left = fileKey right ↔
    left.target = right.target ∧ left.file = right.file ∧
      RenderTotals.of left.content = RenderTotals.of right.content := by
  have cut (view : DiffView) : (fileKey view).toList = (targetKey view.target).toList ++ '\x00' ::
      ((toString view.file.repoId).toList ++ '\x00' ::
        ((toString view.file.path).toList ++ (contentKey view.content).toList)) := by
    simp [fileKey]
  constructor
  · intro same
    have texts := congrArg String.toList same
    rw [cut, cut] at texts
    obtain ⟨targets, rest⟩ := before_inj (nul_not_mem_targetKey _) (nul_not_mem_targetKey _) texts
    obtain ⟨repos, rest⟩ := List.append_inj rest ((length_id _).trans (length_id _).symm)
    have rest := (List.cons.inj rest).2
    have contents := rest
    rw [toList_contentKey, toList_contentKey] at rest
    obtain ⟨paths, -⟩ := before_inj (nul_not_mem_path _) (nul_not_mem_path _) rest
    rw [paths] at contents
    have repos := toString_id_injective (String.toList_injective repos)
    have paths := RepoPath.asStr_injective (String.toList_injective paths)
    have files : left.file = right.file := (FileRef.mk.injEq ..).mpr ⟨repos, paths⟩
    exact ⟨targetKey_injective (String.toList_injective targets), files,
      contentKey_inj (List.append_cancel_left contents)⟩
  · rintro ⟨target, file, content⟩
    have contents : contentKey left.content = contentKey right.content := by
      apply String.toList_injective
      rw [toList_contentKey, toList_contentKey, content]
    rw [fileKey, fileKey, target, file, contents]

end Nits.Ui
