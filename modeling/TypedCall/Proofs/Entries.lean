import Mathlib.Data.List.Perm.Basic
import Mathlib.Data.List.Nodup

/-!
# Lists of entries

Members of an object, entries of a table and entries of a directory are lists of keys with their
values, in which the first entry of a key counts. Each of them looks a key up in its own way, and
all of these are `List.lookup` (`lookup_cons_eq_ite`). Where no key is repeated, an entry is found
wherever it stands, so the order of the entries does not matter.
-/

namespace TypedCall.Entries

variable {α β : Type} {entries others : List (α × β)} {k key : α} {v : β}

theorem lookup_cons_eq_ite [DecidableEq α] :
    List.lookup key ((k, v) :: entries) = if k = key then some v else entries.lookup key := by
  by_cases h : k = key
  · simp [h]
  · simp [List.lookup_cons, h, beq_false_of_ne (Ne.symm h)]

variable [BEq α] [LawfulBEq α]

/-- What is found is one of the entries. -/
theorem mem_of_lookup (h : entries.lookup key = some v) : (key, v) ∈ entries := by
  obtain ⟨before, after, rfl, -⟩ := List.lookup_eq_some_iff.mp h
  exact List.mem_append_right _ List.mem_cons_self

/-- In a list that repeats no key, an entry is found wherever it stands. -/
theorem lookup_eq_some_iff_mem (h : (entries.map (·.1)).Nodup) :
    entries.lookup key = some v ↔ (key, v) ∈ entries := by
  refine ⟨mem_of_lookup, fun hmem => ?_⟩
  obtain ⟨before, after, rfl⟩ := List.append_of_mem hmem
  refine List.lookup_eq_some_iff.mpr ⟨before, after, rfl, fun e he => ?_⟩
  rw [List.map_append, List.map_cons] at h
  have hne : e.1 ≠ key := by
    rintro rfl
    exact List.disjoint_of_nodup_append h (List.mem_map_of_mem he) List.mem_cons_self
  simpa using hne.symm

/-- What is found in a list that repeats no key does not depend on the order of the entries. -/
theorem lookup_perm (h : entries.Perm others) (hnodup : (others.map (·.1)).Nodup) (key : α) :
    entries.lookup key = others.lookup key := by
  have hentries : (entries.map (·.1)).Nodup := (h.map _).nodup_iff.mpr hnodup
  refine Option.ext fun value => ?_
  rw [lookup_eq_some_iff_mem hentries, lookup_eq_some_iff_mem hnodup, h.mem_iff]

end TypedCall.Entries
