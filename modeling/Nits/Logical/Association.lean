import Mathlib.Data.List.Nodup

/-!
# Association lists

Lists of keys with values that are looked up from the front. Entries are kept or taken out
by their keys, so a lookup sees no more of that than whether its own key is kept.
-/

namespace Nits.Logical.Association

variable {K V : Type} [BEq K] [LawfulBEq K] {entries : List (K × V)} {key : K} {value : V}

theorem lookup_filter (keep : K → Bool) :
    (entries.filter fun entry => keep entry.1).lookup key =
      if keep key then entries.lookup key else none := by
  induction entries with
  | nil => exact (ite_self none).symm
  | cons entry later ih =>
    obtain ⟨first, value⟩ := entry
    rw [List.filter_cons]
    by_cases same : key = first
    · subst same
      cases kept : keep key with
      | false => simpa [kept] using ih
      | true => simp
    · have other : (key == first) = false := beq_eq_false_iff_ne.mpr same
      split
      · simp only [List.lookup_cons, other, ih]
      · simp only [ih, List.lookup_cons, other]

theorem mem_of_lookup (found : entries.lookup key = some value) : (key, value) ∈ entries := by
  obtain ⟨before, after, split, _⟩ := List.lookup_eq_some_iff.mp found
  rw [split]
  exact List.mem_append_right _ List.mem_cons_self

/-- Where no key comes twice, every entry is found. -/
theorem lookup_of_mem (once : (entries.map Prod.fst).Nodup) (mem : (key, value) ∈ entries) :
    entries.lookup key = some value := by
  induction entries with
  | nil => cases mem
  | cons entry later ih =>
    obtain ⟨fresh, once⟩ := List.nodup_cons.mp once
    rcases List.mem_cons.mp mem with rfl | mem
    · exact List.lookup_cons_self
    · have other : key ≠ entry.1 := fun same =>
        fresh (same ▸ List.mem_map_of_mem mem)
      rw [List.lookup_cons, beq_eq_false_iff_ne.mpr other]
      exact ih once mem

omit [LawfulBEq K] in
theorem lookup_map {W : Type} (change : V → W) :
    (entries.map fun entry => (entry.1, change entry.2)).lookup key =
      (entries.lookup key).map change := by
  induction entries with
  | nil => rfl
  | cons entry later ih =>
    rw [List.map_cons, List.lookup_cons, List.lookup_cons, ih]
    split <;> rfl

omit [BEq K] [LawfulBEq K] in
/-- Taking entries out leaves no key twice. -/
theorem once_filter (keep : K × V → Bool) (once : (entries.map Prod.fst).Nodup) :
    ((entries.filter keep).map Prod.fst).Nodup :=
  once.sublist (List.filter_sublist.map Prod.fst)

end Nits.Logical.Association
