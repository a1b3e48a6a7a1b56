import TypedCall.Json.Value
import TypedCall.Proofs.Entries

/-!
# Members and their keys

`Members.find?` is the view of an object through which everything else is stated: what an
operation on members does is said by the values that its result finds. Lists of members that
repeat no key and find the same values are permutations of each other
(`Members.perm_of_find?_eq`), so such statements settle an object up to the order of its members.
-/

namespace TypedCall.Json

namespace Members

variable {ms ns more : Members} {k key : String} {v w : Value}

/-! ## Finding -/

@[simp] theorem keys_nil : keys [] = [] := rfl

@[simp] theorem keys_cons : keys ((k, v) :: ms) = k :: keys ms := rfl

@[simp] theorem find?_nil : find? [] key = none := rfl

theorem find?_cons : find? ((k, v) :: ms) key = if k = key then some v else find? ms key := rfl

theorem find?_eq_lookup (ms : Members) (key : String) : find? ms key = List.lookup key ms := by
  induction ms with
  | nil => rfl
  | cons m ms ih =>
    obtain ⟨k, v⟩ := m
    rw [find?_cons, ih, Entries.lookup_cons_eq_ite]

/-- Nothing is found exactly under the keys that do not occur. -/
theorem find?_eq_none_iff : find? ms key = none ↔ key ∉ keys ms := by
  rw [find?_eq_lookup, List.lookup_eq_none_iff]
  simp only [keys, List.mem_map, bne_iff_ne, not_exists, not_and]
  exact forall₂_congr fun _ _ => ne_comm

theorem find?_isSome_iff : (find? ms key).isSome ↔ key ∈ keys ms := by
  rw [Option.isSome_iff_ne_none, Ne, find?_eq_none_iff, not_not]

theorem mem_of_find?_eq_some (h : find? ms key = some v) : (key, v) ∈ ms := by
  rw [find?_eq_lookup] at h
  exact Entries.mem_of_lookup h

/-- Where no key is repeated, every member is found. -/
theorem find?_eq_some_of_mem (hn : (keys ms).Nodup) (h : (key, v) ∈ ms) :
    find? ms key = some v := by
  rw [find?_eq_lookup]
  exact (Entries.lookup_eq_some_iff_mem hn).mpr h

/-- Members that stand first hide those behind them. -/
theorem find?_append : find? (ms ++ ns) key = (find? ms key).or (find? ns key) := by
  simp only [find?_eq_lookup, List.lookup_append]

theorem find?_concat :
    find? (ms ++ [(k, v)]) key = (find? ms key).or (if k = key then some v else none) :=
  find?_append

/-- Where no key is repeated, it does not matter from which end a member is looked for. -/
theorem find?_reverse (hn : (keys ms).Nodup) : find? ms.reverse key = find? ms key := by
  have hr : (keys ms.reverse).Nodup := by
    rw [keys, List.map_reverse]
    exact List.nodup_reverse.mpr hn
  cases h : find? ms key with
  | none =>
    rw [find?_eq_none_iff] at h ⊢
    simpa [keys] using h
  | some v =>
    exact find?_eq_some_of_mem hr (List.mem_reverse.mpr (mem_of_find?_eq_some h))

/-- Members that repeat no key are settled by what they find, up to their order. -/
theorem perm_of_find?_eq (hm : (keys ms).Nodup) (hn : (keys ns).Nodup)
    (h : ∀ key, find? ms key = find? ns key) : ms.Perm ns := by
  refine (List.perm_ext_iff_of_nodup (hm.of_map _) (hn.of_map _)).mpr fun ⟨k, v⟩ => ?_
  constructor
  · intro hmem
    exact mem_of_find?_eq_some (h k ▸ find?_eq_some_of_mem hm hmem)
  · intro hmem
    exact mem_of_find?_eq_some ((h k).symm ▸ find?_eq_some_of_mem hn hmem)

/-! ## Inserting -/

/-- Inserting changes what is found under the one key. -/
theorem find?_insert :
    find? (ms.insert k v) key = if k = key then some v else find? ms key := by
  induction ms with
  | nil => rfl
  | cons m ms ih =>
    obtain ⟨k', v'⟩ := m
    rw [insert]
    split
    · next hk =>
      subst hk
      simp only [find?_cons]
      split <;> rfl
    · next hk =>
      rw [find?_cons, find?_cons, ih]
      by_cases h : k' = key
      · rw [if_pos h, if_pos h, if_neg fun hkk => hk (h.trans hkk.symm)]
      · rw [if_neg h, if_neg h]

/-- A key that occurs keeps its place, and a new one is put behind the others. -/
theorem keys_insert :
    keys (ms.insert k v) = if k ∈ keys ms then keys ms else keys ms ++ [k] := by
  induction ms with
  | nil => rfl
  | cons m ms ih =>
    obtain ⟨k', v'⟩ := m
    rw [insert]
    by_cases h : k' = k
    · simp [h]
    · rw [if_neg h, keys_cons, keys_cons, ih]
      by_cases hk : k ∈ keys ms
      · rw [if_pos hk, if_pos (List.mem_cons_of_mem _ hk)]
      · rw [if_neg hk, if_neg (by simp [hk, Ne.symm h]), List.cons_append]

theorem nodup_keys_concat (hn : (keys ms).Nodup) (h : k ∉ keys ms) : (keys ms ++ [k]).Nodup :=
  List.concat_eq_append ▸ hn.concat h

theorem nodup_keys_insert (hn : (keys ms).Nodup) : (keys (ms.insert k v)).Nodup := by
  rw [keys_insert]
  split
  · exact hn
  · next h => exact nodup_keys_concat hn h

/-- A member with a new key is put behind the others. -/
theorem insert_of_not_mem (h : k ∉ keys ms) : ms.insert k v = ms ++ [(k, v)] := by
  induction ms with
  | nil => rfl
  | cons m ms ih =>
    obtain ⟨k', v'⟩ := m
    rw [keys_cons, List.mem_cons, not_or] at h
    rw [insert, if_neg (Ne.symm h.1), ih h.2, List.cons_append]

/-- The members after an insertion were there before, or are the one that was inserted. -/
theorem mem_insert {m : String × Value} (h : m ∈ ms.insert k v) : m ∈ ms ∨ m = (k, v) := by
  induction ms with
  | nil => exact .inr (List.mem_singleton.mp h)
  | cons m' ms ih =>
    obtain ⟨k', v'⟩ := m'
    rw [insert] at h
    split at h
    · next hk =>
      rcases List.mem_cons.mp h with rfl | h
      · exact .inr (by rw [hk])
      · exact .inl (List.mem_cons_of_mem _ h)
    · rcases List.mem_cons.mp h with rfl | h
      · exact .inl List.mem_cons_self
      · rcases ih h with h | h
        · exact .inl (List.mem_cons_of_mem _ h)
        · exact .inr h

theorem insertAll_cons : insertAll ms ((k, v) :: more) = insertAll (ms.insert k v) more := rfl

/-- Of members inserted one after the other the last one of a key is found. -/
theorem find?_insertAll :
    find? (insertAll ms more) key = (find? more.reverse key).or (find? ms key) := by
  induction more generalizing ms with
  | nil => rfl
  | cons m more ih =>
    obtain ⟨k, v⟩ := m
    rw [insertAll_cons, ih, find?_insert, List.reverse_cons, find?_append, find?_cons, find?_nil]
    cases find? more.reverse key with
    | some w => rfl
    | none => split <;> rfl

theorem mem_insertAll {m : String × Value} (h : m ∈ insertAll ms more) : m ∈ ms ∨ m ∈ more := by
  induction more generalizing ms with
  | nil => exact .inl h
  | cons m' more ih =>
    obtain ⟨k, v⟩ := m'
    rw [insertAll_cons] at h
    rcases ih h with h | h
    · rcases mem_insert h with h | rfl
      · exact .inl h
      · exact .inr List.mem_cons_self
    · exact .inr (List.mem_cons_of_mem _ h)

theorem nodup_keys_insertAll (hn : (keys ms).Nodup) : (keys (insertAll ms more)).Nodup := by
  induction more generalizing ms with
  | nil => exact hn
  | cons m more ih =>
    obtain ⟨k, v⟩ := m
    rw [insertAll_cons]
    exact ih (nodup_keys_insert hn)

/-- Members that repeat no key are inserted as they stand. -/
theorem insertAll_eq_append (hn : (keys (ms ++ more)).Nodup) : insertAll ms more = ms ++ more := by
  induction more generalizing ms with
  | nil => exact (List.append_nil ms).symm
  | cons m more ih =>
    obtain ⟨k, v⟩ := m
    have hk : k ∉ keys ms := by
      rw [keys, List.map_append, List.map_cons] at hn
      exact fun h => List.disjoint_of_nodup_append hn h List.mem_cons_self
    rw [insertAll_cons, insert_of_not_mem hk, ih (by rwa [List.append_assoc]), List.append_assoc]
    rfl

/-! ## Leaving out -/

theorem without_cons {names : List String} :
    without ((k, v) :: ms) names =
      if k ∈ names then ms.without names else (k, v) :: ms.without names := by
  rw [without, List.filter_cons]
  by_cases hk : k ∈ names <;> simp [hk, without]

theorem without_eq_self {names : List String} (h : ∀ key ∈ names, find? ms key = none) :
    ms.without names = ms := by
  rw [without, List.filter_eq_self]
  intro m hm
  have hkey : m.1 ∈ keys ms := List.mem_map_of_mem hm
  have hnames : m.1 ∉ names := fun hmem => find?_eq_none_iff.mp (h m.1 hmem) hkey
  simp [hnames]

theorem without_without {names : List String} :
    (ms.without names).without names = ms.without names := by
  rw [without, without, List.filter_filter]
  simp

theorem without_append {names : List String} :
    without (ms ++ ns) names = ms.without names ++ ns.without names := List.filter_append ..

/-- What is inserted under a key that is left out is left out as well. -/
theorem without_insert_of_mem {names : List String} (h : k ∈ names) :
    (ms.insert k v).without names = ms.without names := by
  induction ms with
  | nil => rw [insert, without_cons, if_pos h]
  | cons m ms ih =>
    obtain ⟨k', v'⟩ := m
    rw [insert]
    split
    · next hk => rw [hk, without_cons, without_cons, if_pos h, if_pos h]
    · rw [without_cons, without_cons, ih]

theorem without_insert_of_not_mem {names : List String} (h : k ∉ names) :
    (ms.insert k v).without names = (ms.without names).insert k v := by
  induction ms with
  | nil =>
    rw [insert, without_cons, if_neg h]
    rfl
  | cons m ms ih =>
    obtain ⟨k', v'⟩ := m
    rw [insert]
    split
    · next hk => rw [hk, without_cons, without_cons, if_neg h, if_neg h, insert, if_pos rfl]
    · next hk =>
      rw [without_cons, without_cons, ih]
      split
      · rfl
      · rw [insert, if_neg hk]

/-- Names can be left out before members are inserted or after it. -/
theorem without_insertAll {names : List String} :
    (insertAll ms more).without names = insertAll (ms.without names) (more.without names) := by
  induction more generalizing ms with
  | nil => rfl
  | cons m more ih =>
    obtain ⟨k, v⟩ := m
    rw [insertAll_cons, ih, without_cons]
    split
    · next h => rw [without_insert_of_mem h]
    · next h => rw [without_insert_of_not_mem h, insertAll_cons]

/-- Under the names that are left out nothing is found, and under other keys what was found before.
-/
theorem find?_without {names : List String} :
    find? (ms.without names) key = if key ∈ names then none else find? ms key := by
  induction ms with
  | nil => simp [without]
  | cons m ms ih =>
    obtain ⟨k, v⟩ := m
    rw [without_cons]
    by_cases hk : k ∈ names
    · rw [if_pos hk, ih, find?_cons]
      by_cases hkey : key ∈ names
      · rw [if_pos hkey, if_pos hkey]
      · rw [if_neg hkey, if_neg hkey, if_neg (fun h : k = key => hkey (h ▸ hk))]
    · rw [if_neg hk, find?_cons, ih, find?_cons]
      by_cases hkey : k = key
      · rw [if_pos hkey, if_pos hkey, if_neg (hkey ▸ hk)]
      · rw [if_neg hkey, if_neg hkey]

theorem nodup_keys_without {names : List String} (hn : (keys ms).Nodup) :
    (keys (ms.without names)).Nodup :=
  hn.sublist (List.filter_sublist.map Prod.fst)

end Members

end TypedCall.Json
