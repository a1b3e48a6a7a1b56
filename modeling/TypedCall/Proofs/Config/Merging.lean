import TypedCall.Config.Sources
import TypedCall.Proofs.Entries

/-!
# Merging sources

Each entry of a source changes one name at the top, the one that its key begins with. So what a
merge leaves under a name depends on what was there before and on the entries that concern the name,
in their order, and on nothing else (`find?_merge`). `says?` is what a source says about a name on
its own. It does not depend on the order in which a load goes through the source when no more than
one entry concerns the name (`Order.says?_arrange`).
-/

namespace TypedCall.Config

/-! ## Tables -/

namespace Table

/-- Setting a key changes what is found under that key only. -/
theorem find?_set (key name : String) (value : Value) (table : Table) :
    find? name (set key value table) = if key = name then some value else find? name table := by
  induction table with
  | nil => rfl
  | cons entry table ih =>
    obtain ⟨k, v⟩ := entry
    rw [set]
    split
    · next hk =>
      subst hk
      rw [find?, find?]
      split <;> rfl
    · next hk =>
      rw [find?, find?, ih]
      split
      · next hname => rw [if_neg fun h => hk (hname.trans h.symm)]
      · rfl

/-- Setting a key leaves the entries of other keys as they are. -/
theorem filter_set_of_false {about : String → Bool} {key : String} (h : about key = false)
    (value : Value) (table : Table) :
    (set key value table).filter (about ·.1) = table.filter (about ·.1) := by
  induction table with
  | nil => simp [set, h]
  | cons entry table ih =>
    obtain ⟨k, v⟩ := entry
    rw [set]
    split
    · next hk =>
      subst hk
      rw [List.filter_cons_of_neg (by simp [h]), List.filter_cons_of_neg (by simp [h])]
    · rw [List.filter_cons, List.filter_cons, ih]

/-- A key that is the first of its kind is added at the end. -/
theorem filter_set_of_true {about : String → Bool} {key : String} (h : about key = true)
    (value : Value) {table : Table} (hfresh : table.filter (about ·.1) = []) :
    (set key value table).filter (about ·.1) = [(key, value)] := by
  induction table with
  | nil => simp [set, h]
  | cons entry table ih =>
    obtain ⟨k, v⟩ := entry
    rw [List.filter_eq_nil_iff] at hfresh
    obtain ⟨hk, htable⟩ := List.forall_mem_cons.mp hfresh
    have hne : k ≠ key := by
      rintro rfl
      exact hk h
    rw [set, if_neg hne, List.filter_cons, if_neg hk]
    exact ih (List.filter_eq_nil_iff.mpr htable)

/-- A key that is there keeps its place, and any other one is added at the end. -/
theorem map_set (key : String) (value : Value) (table : Table) :
    (set key value table).map (·.1) =
      if key ∈ table.map (·.1) then table.map (·.1) else table.map (·.1) ++ [key] := by
  induction table with
  | nil => simp [set]
  | cons entry table ih =>
    obtain ⟨k, v⟩ := entry
    rw [set]
    split
    · next hk => simp [hk]
    · next hk =>
      rw [List.map_cons, ih]
      simp only [List.map_cons, List.mem_cons, Ne.symm hk, false_or]
      split <;> rfl

/-- A key that is set again takes no second place. -/
theorem nodup_set {table : Table} (h : (table.map (·.1)).Nodup) (key : String) (value : Value) :
    ((set key value table).map (·.1)).Nodup := by
  rw [map_set]
  split
  · exact h
  · next hkey => exact List.concat_eq_append ▸ h.concat hkey

theorem find?_eq_lookup (key : String) (table : Table) : find? key table = table.lookup key := by
  induction table with
  | nil => rfl
  | cons entry table ih =>
    obtain ⟨k, v⟩ := entry
    rw [find?, ih, Entries.lookup_cons_eq_ite]

/-- In a table that repeats no key an entry is found wherever it stands. -/
theorem find?_eq_some_iff {table : Table} (h : (table.map (·.1)).Nodup) {key : String}
    {value : Value} : find? key table = some value ↔ (key, value) ∈ table := by
  rw [find?_eq_lookup, Entries.lookup_eq_some_iff_mem h]

/-- What is found in a table does not depend on the order of its entries. -/
theorem find?_perm {table other : Table} (h : table.Perm other)
    (hnodup : (other.map (·.1)).Nodup) (key : String) : find? key table = find? key other := by
  rw [find?_eq_lookup, find?_eq_lookup, Entries.lookup_perm h hnodup]

end Table

/-! ## One entry -/

/-- Does a key begin with the name? -/
def concerns (name key : String) : Bool := (pathOf key).head? = some (.name name)

/-- Every path begins with a name. -/
theorem exists_pathOf_eq (key : String) : ∃ top steps, pathOf key = .name top :: steps := by
  rw [pathOf]
  by_cases hname : (key.toList.takeWhile isNameChar).isEmpty = true
  · exact ⟨key, [], if_pos hname⟩
  · rw [if_neg hname]
    cases readSteps? (key.toList.length + 1) (key.toList.dropWhile isNameChar) with
    | none =>
      -- a key that is no path is a name as a whole
      exact ⟨key, [], rfl⟩
    | some steps => exact ⟨_, steps, rfl⟩

namespace Value

@[simp] theorem entries_asTable (target : Value) : target.asTable.entries = target.entries := by
  cases target <;> rfl

@[simp] theorem entries_setEntry (target : Value) (key : String) (value : Value) :
    (target.setEntry key value).entries = Table.set key value target.entries := by
  cases target <;> rfl

/-- What stands under a name when a value is put at the end of the steps below it. -/
def placed (value : Value) (old : Option Value) : List Step → Value
  | [] =>
    match value with
    | .table entries _ => mergeEntries entries (old.getD (.table [] none))
    | value => value
  | step :: steps => value.assign (step :: steps) (old.getD nil)

/-- Giving the end of a path a value changes the name that the path begins with. -/
theorem entries_assign (value target : Value) (top : String) (steps : List Step) :
    (value.assign (.name top :: steps) target).entries =
      Table.set top (value.placed (Table.find? top target.entries) steps) target.entries := by
  cases steps with
  | nil =>
    rw [Value.assign]
    cases value <;> simp [Value.mergeAt, placed]
  | cons step steps =>
    rw [Value.assign, entries_setEntry, placed]
    exact List.cons_ne_nil step steps

end Value

/-! ## Sources -/

/-- A merge leaves under a name what the entries that concern the name make of the old value. -/
theorem find?_merge (name : String) (root : Value) (source : Table) :
    Table.find? name (merge root source).entries =
      (source.filter (concerns name ·.1)).foldl
        (fun old entry => some (entry.2.placed old (pathOf entry.1).tail))
        (Table.find? name root.entries) := by
  induction source generalizing root with
  | nil => rfl
  | cons entry source ih =>
    obtain ⟨key, value⟩ := entry
    obtain ⟨top, steps, hpath⟩ := exists_pathOf_eq key
    have hstep : merge root ((key, value) :: source) =
        merge (value.assign (pathOf key) root) source := rfl
    have hconcerns : concerns name key = decide (top = name) := by
      simp [concerns, hpath]
    -- the first entry counts for its own name, and the others find what it leaves
    rw [hstep, ih, hpath, Value.entries_assign, Table.find?_set, List.filter_cons, hconcerns]
    by_cases htop : top = name
    · subst htop
      simp [hpath]
    · simp [htop]

/-- What a source says about a name, by the entries that concern the name. -/
def says? (source : Table) (name : String) : Option Value :=
  Table.find? name (merge (.table [] none) (source.filter (concerns name ·.1))).entries

/-- Merged into nothing, a source leaves under a name what it says about it. -/
theorem find?_merge_empty (source : Table) (name : String) :
    Table.find? name (merge (.table [] none) source).entries = says? source name := by
  rw [says?, find?_merge, find?_merge, List.filter_filter]
  simp only [Bool.and_self]

/-- A source that does not concern a name leaves it alone. -/
theorem find?_merge_of_silent {source : Table} {name : String}
    (h : source.filter (concerns name ·.1) = []) (root : Value) :
    Table.find? name (merge root source).entries = Table.find? name root.entries := by
  rw [find?_merge, h]
  rfl

/-- The only entry about a name is placed where its path leads. -/
theorem find?_merge_of_single {source : Table} {name key : String} {value : Value}
    (h : source.filter (concerns name ·.1) = [(key, value)]) (root : Value) :
    Table.find? name (merge root source).entries =
      some (value.placed (Table.find? name root.entries) (pathOf key).tail) := by
  rw [find?_merge, h]
  rfl

/-- Merging repeats no key. -/
theorem nodup_merge {root : Value} (h : (root.entries.map (·.1)).Nodup) (source : Table) :
    ((merge root source).entries.map (·.1)).Nodup := by
  induction source generalizing root with
  | nil => exact h
  | cons entry source ih =>
    obtain ⟨key, value⟩ := entry
    obtain ⟨top, steps, hpath⟩ := exists_pathOf_eq key
    have hstep : ((value.assign (pathOf key) root).entries.map (·.1)).Nodup := by
      rw [hpath, Value.entries_assign]
      exact Table.nodup_set h _ _
    exact ih hstep

/-! ## Orders -/

namespace Order

variable (order : Order)

/-- What two sources say one after the other repeats no key. -/
theorem nodup_merge_merge (file environment : Table) :
    ((Config.merge (Config.merge (.table [] none) file) environment).entries.map (·.1)).Nodup := by
  have hfile : ((Config.merge (.table [] none) file).entries.map (·.1)).Nodup :=
    Config.nodup_merge (by exact List.nodup_nil) file
  exact Config.nodup_merge hfile environment

/-- In whatever order the sources are merged, the result has no name twice. -/
theorem nodup_merge (file environment : Table) :
    ((order.merge file environment).map (·.1)).Nodup :=
  ((order.perm .merged _).map _).nodup_iff.mpr (nodup_merge_merge _ _)

/-- The order of the merged table does not show in what is found in it. -/
theorem find?_merge (file environment : Table) (name : String) :
    Table.find? name (order.merge file environment) =
      Table.find? name (Config.merge (Config.merge (.table [] none) (order.arrange .file file))
        (order.arrange .environment environment)).entries :=
  Table.find?_perm (order.perm .merged _) (nodup_merge_merge _ _) name

/-- One entry of a kind, or none, is the same in every order. -/
theorem filter_arrange (layer : Layer) {about : String × Value → Bool} {table : Table}
    (h : (table.filter about).length ≤ 1) :
    (order.arrange layer table).filter about = table.filter about := by
  have hperm := (order.perm layer table).filter about
  cases hfilter : table.filter about with
  | nil =>
    rw [hfilter] at hperm
    exact List.perm_nil.mp hperm
  | cons entry entries =>
    rw [hfilter, List.length_cons] at h
    obtain rfl := List.length_eq_zero_iff.mp (Nat.le_zero.mp (Nat.le_of_succ_le_succ h))
    rw [hfilter] at hperm
    exact List.perm_singleton.mp hperm

/-- With one entry at most about a name, the order of a table does not show in what it says. -/
theorem says?_arrange {file : Table} {name : String}
    (h : (file.filter (concerns name ·.1)).length ≤ 1) :
    says? (order.arrange .file file) name = says? file name := by
  rw [says?, says?, order.filter_arrange .file h]

end Order

end TypedCall.Config
