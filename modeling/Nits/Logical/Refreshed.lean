import Mathlib.Data.List.Perm.Basic
import Mathlib.Data.List.Nodup

/-!
# Listings brought up to date

A listing of rows under distinct keys, brought up to date by the rows that changed: a
changed row replaces the one under its key, and rows under new keys are added. When every
row that is not among the changes was listed before, the result holds the present rows.
-/

namespace Nits.Logical

variable {K V : Type} [DecidableEq K]

/-- A listing after the changed rows have replaced the old ones and the new rows have
been added. -/
def refreshed (key : V → K) (old changed : List V) : List V :=
  old.map (fun row => (changed.find? fun other => key other = key row).getD row) ++
    changed.filter fun row => !old.any fun other => key other = key row

variable {key : V → K} {old changed now : List V}

omit [DecidableEq K] in
/-- Rows under distinct keys are determined by their keys. -/
theorem eq_of_key_eq (distinct : (now.map key).Nodup) {left right : V} (leftMember : left ∈ now)
    (rightMember : right ∈ now) (same : key left = key right) : left = right :=
  List.inj_on_of_nodup_map distinct leftMember rightMember same

/-- The row that stands for an old one has its key. -/
private theorem key_replacement (row : V) :
    key ((changed.find? fun other => key other = key row).getD row) = key row := by
  cases found : changed.find? fun other => key other = key row with
  | none => rfl
  | some other => simpa using List.find?_some found

theorem refreshed_keys_nodup (oldDistinct : (old.map key).Nodup)
    (changedDistinct : (changed.map key).Nodup) : ((refreshed key old changed).map key).Nodup := by
  have kept : (old.map fun row =>
      (changed.find? fun other => key other = key row).getD row).map key = old.map key := by
    rw [List.map_map]
    exact List.map_congr_left fun row _ => key_replacement row
  rw [refreshed, List.map_append, kept, List.nodup_append]
  refine ⟨oldDistinct, changedDistinct.sublist (List.filter_sublist.map key), ?_⟩
  rintro _ listed _ added rfl
  obtain ⟨row, mem, same⟩ := List.mem_map.mp listed
  obtain ⟨other, fresh, names⟩ := List.mem_map.mp added
  have absent : (old.any fun row => key row = key other) = false := by
    simpa using (List.mem_filter.mp fresh).2
  have present : (old.any fun row => key row = key other) = true :=
    List.any_eq_true.mpr ⟨row, mem, by simp [same, names]⟩
  rw [absent] at present
  cases present

/-- A row of the refreshed listing is a changed row or an old one that nothing replaces. -/
theorem mem_refreshed {row : V} (mem : row ∈ refreshed key old changed) :
    row ∈ changed ∨ row ∈ old ∧ ∀ other ∈ changed, key other ≠ key row := by
  rcases List.mem_append.mp mem with replaced | added
  · obtain ⟨was, listed, result⟩ := List.mem_map.mp replaced
    cases found : changed.find? fun other => key other = key was with
    | some other =>
      rw [found] at result
      obtain rfl : other = row := result
      exact .inl (List.mem_of_find?_eq_some found)
    | none =>
      rw [found] at result
      obtain rfl : was = row := result
      refine .inr ⟨listed, fun other among => ?_⟩
      simpa using List.find?_eq_none.mp found other among
  · exact .inl (List.mem_filter.mp added).1

/-- Every changed row is in the refreshed listing. -/
theorem changed_mem_refreshed (changedDistinct : (changed.map key).Nodup) {row : V}
    (mem : row ∈ changed) : row ∈ refreshed key old changed := by
  by_cases known : ∃ was ∈ old, key was = key row
  · obtain ⟨was, listed, same⟩ := known
    refine List.mem_append_left _ (List.mem_map.mpr ⟨was, listed, ?_⟩)
    cases found : changed.find? fun other => key other = key was with
    | none =>
      have unlike := List.find?_eq_none.mp found row mem
      exact absurd same.symm (by simpa using unlike)
    | some other =>
      have names : key other = key was := by simpa using List.find?_some found
      exact eq_of_key_eq changedDistinct (List.mem_of_find?_eq_some found) mem (names.trans same)
  · refine List.mem_append_right _ (List.mem_filter.mpr ⟨mem, ?_⟩)
    simpa using fun other listed same => known ⟨other, listed, same⟩

/-- An old row that nothing replaces is in the refreshed listing. -/
theorem old_mem_refreshed {row : V} (mem : row ∈ old)
    (unlike : ∀ other ∈ changed, key other ≠ key row) : row ∈ refreshed key old changed := by
  refine List.mem_append_left _ (List.mem_map.mpr ⟨row, mem, ?_⟩)
  have absent : (changed.find? fun other => key other = key row) = none :=
    List.find?_eq_none.mpr fun other among => by simpa using unlike other among
  rw [absent]
  rfl

/-- Replacing the changed rows of an old listing gives the present one, when the changed
rows are present, every other present row was listed, and no listed row is gone. -/
theorem refreshed_perm (oldDistinct : (old.map key).Nodup)
    (changedDistinct : (changed.map key).Nodup) (nowDistinct : (now.map key).Nodup)
    (present : ∀ row ∈ changed, row ∈ now) (kept : ∀ row ∈ now, row ∈ changed ∨ row ∈ old)
    (stays : ∀ row ∈ old, ∃ other ∈ now, key other = key row) :
    (refreshed key old changed).Perm now := by
  refine (List.perm_ext_iff_of_nodup
    (refreshed_keys_nodup oldDistinct changedDistinct).of_map nowDistinct.of_map).mpr fun row => ?_
  constructor
  · intro mem
    rcases mem_refreshed mem with among | ⟨listed, unlike⟩
    · exact present row among
    · obtain ⟨other, among, same⟩ := stays row listed
      rcases kept other among with replaced | was
      · exact absurd same (unlike other replaced)
      · rw [← eq_of_key_eq oldDistinct was listed same]
        exact among
  · intro mem
    by_cases among : row ∈ changed
    · exact changed_mem_refreshed changedDistinct among
    · refine old_mem_refreshed ((kept row mem).resolve_left among) fun other replaced same => ?_
      exact among (eq_of_key_eq nowDistinct (present other replaced) mem same ▸ replaced)

end Nits.Logical
