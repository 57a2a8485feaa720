import Nits.ClientCore.Cache
import Nits.Protocol.Reference
import Nits.ReviewCore.Render.Cache

/-!
# Storage keys

The host keeps cache entries under the JSON text of their keys; renders also under the
generation of the format. No two keys share a text.
-/

namespace Nits.ClientCore

open Logical Protocol

def RenderKey.toJson (render : RenderKey) : Json :=
  .object [("repo_id", .string render.repoId.toString), ("path", render.path.toJson),
    ("target", render.target.toJson), ("opts", render.opts.toJson)]

def TreeKey.toJson (tree : TreeKey) : Json :=
  .object [("repo_id", .string tree.repoId.toString), ("root", tree.root.toJson)]

def CacheKey.toJson : CacheKey → Json
  | .tree of => .object [("type", .string "Tree"), ("tree", of.toJson)]
  | .header of => .object [("type", .string "Header"), ("render", of.toJson)]
  | .chunk of index =>
    .object [("type", .string "Chunk"), ("render", of.toJson), ("index", .number index)]

/-- What the host's key for an entry is the text of. -/
def CacheKey.stored (key : CacheKey) : Json :=
  match key with
  | .tree _ => key.toJson
  | .header _ | .chunk .. => .array [.number ReviewCore.RENDER_CACHE_GENERATION, key.toJson]

/-- The host's key for an entry. -/
def CacheKey.storageKey (key : CacheKey) : String := String.ofList key.stored.print

theorem RepoId.toString_inj {left right : RepoId} : left.toString = right.toString ↔ left = right := by
  refine ⟨fun same => ?_, congrArg _⟩
  have read := crockford_reads.written left
  rw [same, crockford_reads.written right] at read
  exact (Id.ulid_injective (Option.some.inj read)).symm

theorem RenderKey.toJson_inj {left right : RenderKey} : left.toJson = right.toJson ↔ left = right := by
  cases left
  cases right
  simp [toJson, RepoId.toString_inj, RepoPath.toJson_inj, RenderTarget.toJson_inj,
    RenderOpts.toJson_inj]

theorem TreeKey.toJson_inj {left right : TreeKey} : left.toJson = right.toJson ↔ left = right := by
  cases left
  cases right
  simp [toJson, RepoId.toString_inj, Oid.toJson_inj]

theorem CacheKey.toJson_injective : Function.Injective CacheKey.toJson := by
  intro left right same
  cases left <;> cases right <;>
    simp [toJson, TreeKey.toJson_inj, RenderKey.toJson_inj] at same ⊢
  all_goals exact same

/-- A tree's text is an object, the others' are arrays. -/
theorem CacheKey.storageKey_injective : Function.Injective CacheKey.storageKey := by
  intro left right same
  have stored : left.stored = right.stored := Json.print_injective (String.ofList_injective same)
  apply CacheKey.toJson_injective
  cases left <;> cases right <;> simp [CacheKey.stored, toJson] at stored ⊢
  all_goals exact stored

/-- The host keeps nothing else under the key of an entry. -/
theorem CacheKey.storageKey_ne (key : CacheKey) {text : String} (plain : text.toList.head? = some 'n') :
    key.storageKey ≠ text := by
  rintro rfl
  rw [storageKey, String.toList_ofList] at plain
  cases key <;> simp [stored, toJson, Json.print] at plain

end Nits.ClientCore
