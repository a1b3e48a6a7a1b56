import TypedCall.Catalog.Loading
import TypedCall.Proofs.Component.Reading
import TypedCall.Proofs.Text.Bytes
import Mathlib.Data.List.Dedup
import Mathlib.Data.List.Perm.Subperm

/-!
# What a catalog stores

A catalog is filled by insertions and by loading documents, files and directories. Each of these
steps inserts the components that it contributes, one after the other (`step_eq`), so a run of
steps stores what all its contributions store (`run_eq`): of the components of an id the last one.
`Reflects` says so of a catalog and a list of components, and `reflects_run` shows it of every run.
A document contributes all that it holds or nothing.
-/

namespace TypedCall

/-! ## Insertion -/

namespace Component

/-- Looking for an id finds the first component of the id. -/
theorem withId?_eq (id : String) (cs : List Component) :
    withId? id cs = cs.find? (·.id == id) := by
  induction cs with
  | nil => rfl
  | cons c cs ih =>
    rw [withId?, List.find?_cons, ih]
    by_cases h : c.id = id
    · simp [h]
    · rw [if_neg h, beq_eq_false_iff_ne.mpr h]

theorem id_of_withId? {id : String} {cs : List Component} {c : Component}
    (h : withId? id cs = some c) : c.id = id := by
  rw [withId?_eq] at h
  simpa using List.find?_some h

/-- A component that is put in its place is found, and all others as before. -/
theorem withId?_place (c : Component) (cs : List Component) (id : String) :
    withId? id (c.place cs).2 = if c.id = id then some c else withId? id cs := by
  induction cs with
  | nil => rfl
  | cons d cs ih =>
    rw [place]
    split
    · next h =>
      simp only [withId?, ← h]
      split <;> rfl
    · next hne =>
      split
      · rfl
      · simp only [withId?, ih]
        by_cases hd : d.id = id
        · rw [if_pos hd, if_pos hd, if_neg (fun hc => hne (hc.trans hd.symm))]
        · rw [if_neg hd, if_neg hd]

/-- In a list in order the component that makes place is the one that was found. -/
theorem place_fst (c : Component) {cs : List Component} (h : cs.Pairwise (·.id < ·.id)) :
    (c.place cs).1 = withId? c.id cs := by
  induction cs with
  | nil => rfl
  | cons d cs ih =>
    obtain ⟨hd, hcs⟩ := List.pairwise_cons.mp h
    rw [place, withId?]
    split
    · next heq => rw [if_pos heq.symm]
    · next hne =>
      rw [if_neg (Ne.symm hne)]
      split
      · next hlt =>
        -- all ids behind are greater still
        have hnone : withId? c.id cs = none := by
          rw [withId?_eq, List.find?_eq_none]
          intro x hx hid
          have hx := String.lt_trans hlt (hd x hx)
          rw [beq_iff_eq.mp hid] at hx
          exact String.lt_irrefl _ hx
        exact hnone.symm
      · exact ih hcs

/-- A component stands in a list in order exactly when it is found by its id. -/
theorem mem_iff_withId? {cs : List Component} (h : cs.Pairwise (·.id < ·.id)) {c : Component} :
    c ∈ cs ↔ withId? c.id cs = some c := by
  induction cs with
  | nil => simp [withId?]
  | cons d cs ih =>
    obtain ⟨hd, hcs⟩ := List.pairwise_cons.mp h
    rw [List.mem_cons, withId?]
    by_cases hid : d.id = c.id
    · rw [if_pos hid]
      constructor
      · rintro (rfl | hc)
        · rfl
        · have hlt := hd c hc
          rw [hid] at hlt
          exact absurd hlt (String.lt_irrefl _)
      · intro heq
        exact .inl (Option.some.inj heq).symm
    · rw [if_neg hid, ← ih hcs]
      exact or_iff_right fun hc => hid (congrArg Component.id hc.symm)

end Component

namespace Catalog

/-- An insertion changes what is found under the id of the component. -/
theorem get?_insert (catalog : Catalog) (c : Component) (id : String) :
    (catalog.insert c).2.get? id = if c.id = id then some c else catalog.get? id :=
  c.withId?_place catalog.components id

/-- An insertion gives back the component that it replaces. -/
theorem insert_fst (catalog : Catalog) (c : Component) :
    (catalog.insert c).1 = catalog.get? c.id :=
  c.place_fst catalog.sorted

/-- The components of a catalog are those that it finds. -/
theorem mem_components {catalog : Catalog} {c : Component} :
    c ∈ catalog.components ↔ catalog.get? c.id = some c :=
  Component.mem_iff_withId? catalog.sorted

/-- Of components inserted one after the other the last one of an id is found. -/
theorem get?_insertAll (catalog : Catalog) (cs : List Component) (id : String) :
    (catalog.insertAll cs).get? id = (cs.reverse.find? (·.id == id)).or (catalog.get? id) := by
  induction cs generalizing catalog with
  | nil => rfl
  | cons c cs ih =>
    rw [insertAll, List.foldl_cons, ← insertAll, ih, get?_insert, List.reverse_cons,
      List.find?_append, List.find?_singleton, Option.or_assoc]
    congr 1
    by_cases h : c.id = id
    · simp [h]
    · rw [if_neg h, beq_eq_false_iff_ne.mpr h]
      rfl

theorem insertAll_append (catalog : Catalog) (cs ds : List Component) :
    catalog.insertAll (cs ++ ds) = (catalog.insertAll cs).insertAll ds := List.foldl_append

/-! ## Steps -/

/-- What can be done to a catalog. A file is loaded from the files that there are at the time. -/
inductive Step where
  | insert (c : Component)
  | json (text : String)
  | yaml (text : String)
  | file (tree : Files.Tree) (path : String)
  | directory (tree : Files.Tree) (path : String)

/-- The catalog after a step. -/
def step (catalog : Catalog) : Step → Catalog
  | .insert c => (catalog.insert c).2
  | .json text => (catalog.loadJson text).2
  | .yaml text => (catalog.loadYaml text).2
  | .file tree path => (loadFile tree catalog path).2
  | .directory tree path => (loadDirectory tree catalog path).2

/-- The catalog after steps. -/
def run (catalog : Catalog) (steps : List Step) : Catalog := steps.foldl step catalog

/-- The components that have been read, if all of them have. -/
def read (components : Except LoadError (List Component)) : List Component :=
  components.toOption.getD []

/-- The files that a directory is loaded from, in their order. -/
def files (tree : Files.Tree) (path : String) : List String :=
  match Files.Pattern.ofChars (path.toList ++ ['/', '*']) with
  | .error _ => []
  | .ok pattern => (tree.expand pattern).filter isLoadable

/-- The components that a step contributes: one that is inserted, and those of a document that has
been read; those of a directory file by file. -/
def Step.contributed : Step → List Component
  | .insert c => [c]
  | .json text => read (Component.parseJson text)
  | .yaml text => read (Component.parseYaml text)
  | .file tree path => read (Component.parseFile tree path)
  | .directory tree path =>
    (files tree path).flatMap fun file => read (Component.parseFile tree file)

/-- The components that steps contribute, in order. -/
def contributed (steps : List Step) : List Component := steps.flatMap Step.contributed

/-- Components that could not be read leave the catalog as it was. -/
theorem absorb_snd (catalog : Catalog) (components : Except LoadError (List Component)) :
    (catalog.absorb components).2 = catalog.insertAll (read components) := by
  cases components <;> rfl

/-- A file adds the components that could be read of it, and their number. -/
theorem loadOrSkip_eq (tree : Files.Tree) (loaded : Nat × Catalog) (path : String) :
    loadOrSkip tree loaded path = (loaded.1 + (read (Component.parseFile tree path)).length,
      loaded.2.insertAll (read (Component.parseFile tree path))) := by
  rw [loadOrSkip, loadFile]
  cases Component.parseFile tree path <;> rfl

/-- Files are counted and inserted one after the other. -/
theorem foldl_loadOrSkip (tree : Files.Tree) (loaded : Nat × Catalog) (paths : List String) :
    paths.foldl (loadOrSkip tree) loaded =
      let components := paths.flatMap fun path => read (Component.parseFile tree path)
      (loaded.1 + components.length, loaded.2.insertAll components) := by
  induction paths generalizing loaded with
  | nil => rfl
  | cons path paths ih =>
    rw [List.foldl_cons, loadOrSkip_eq, ih]
    simp only [List.flatMap_cons, List.length_append, insertAll_append, Nat.add_assoc]

/-- A directory is loaded as far as its files can be, unless its path makes no pattern. -/
theorem loadDirectory_eq (catalog : Catalog) (tree : Files.Tree) (path : String) :
    (∃ e, loadDirectory tree catalog path = (.error (.pattern e), catalog) ∧
        (Step.directory tree path).contributed = []) ∨
      loadDirectory tree catalog path = (.ok (Step.directory tree path).contributed.length,
        catalog.insertAll (Step.directory tree path).contributed) := by
  cases h : Files.Pattern.ofChars (path.toList ++ ['/', '*']) with
  | error e =>
    refine .inl ⟨e, ?_, ?_⟩
    · simp only [loadDirectory, h]
    · simp only [Step.contributed, files, h, List.flatMap_nil]
  | ok pattern =>
    right
    simp only [loadDirectory, Step.contributed, files, h, foldl_loadOrSkip, Nat.zero_add]

/-- Loading a directory inserts what it contributes. -/
theorem loadDirectory_snd (catalog : Catalog) (tree : Files.Tree) (path : String) :
    (loadDirectory tree catalog path).2 =
      catalog.insertAll (Step.directory tree path).contributed := by
  rcases loadDirectory_eq catalog tree path with ⟨e, h, hnil⟩ | h
  · rw [h, hnil]
    rfl
  · rw [h]

/-- A step inserts what it contributes. -/
theorem step_eq (catalog : Catalog) (x : Step) :
    catalog.step x = catalog.insertAll x.contributed := by
  cases x with
  | insert c => rfl
  | json text => exact absorb_snd catalog _
  | yaml text => exact absorb_snd catalog _
  | file tree path => exact absorb_snd catalog _
  | directory tree path => exact loadDirectory_snd catalog tree path

/-- Steps insert what they contribute, one step after the other. -/
theorem run_eq (catalog : Catalog) (steps : List Step) :
    catalog.run steps = catalog.insertAll (contributed steps) := by
  induction steps generalizing catalog with
  | nil => rfl
  | cons x xs ih =>
    have hcons : contributed (x :: xs) = x.contributed ++ contributed xs := rfl
    rw [run, List.foldl_cons, ← run, ih, step_eq, hcons, insertAll_append]

/-! ## What is stored -/

/-- The catalog stores, of the components listed for an id, the last one, and nothing else. -/
structure Reflects (catalog : Catalog) (listed : List Component) : Prop where
  /-- The last component of an id is found under it. -/
  get : ∀ id, catalog.get? id = listed.reverse.find? (·.id == id)
  /-- What is found under an id is a component of that id. -/
  own : ∀ id c, catalog.get? id = some c → c.id = id
  /-- The components of the catalog are those that are found. -/
  components : ∀ c, c ∈ catalog.components ↔ catalog.get? c.id = some c
  /-- There is a component of every id that is listed. -/
  ids : ∀ id, id ∈ catalog.components.map (·.id) ↔ id ∈ listed.map (·.id)
  /-- The bytes of the ids increase, so no id repeats. -/
  increasing : catalog.components.Pairwise fun c d => Text.bytes c.id < Text.bytes d.id
  /-- The size is the number of ids. -/
  size : catalog.size = (listed.map (·.id)).dedup.length
  /-- A catalog is empty when its size is zero. -/
  empty : catalog.isEmpty = true ↔ catalog.size = 0

theorem nodup_ids (catalog : Catalog) : (catalog.components.map (·.id)).Nodup := by
  rw [List.Nodup, List.pairwise_map]
  exact catalog.sorted.imp fun h => String.ne_of_lt h

/-- An id is stored exactly when it is listed, if the last component of an id is what is found. -/
theorem mem_ids_iff {catalog : Catalog} {listed : List Component}
    (h : ∀ id, catalog.get? id = listed.reverse.find? (·.id == id)) (id : String) :
    id ∈ catalog.components.map (·.id) ↔ id ∈ listed.map (·.id) := by
  simp only [List.mem_map]
  constructor
  · rintro ⟨c, hc, rfl⟩
    rw [mem_components, h] at hc
    exact ⟨c, List.mem_reverse.mp (List.mem_of_find?_eq_some hc), rfl⟩
  · rintro ⟨c, hc, rfl⟩
    cases hfound : catalog.get? c.id with
    | none =>
      rw [h, List.find?_eq_none] at hfound
      exact absurd (beq_self_eq_true c.id) (hfound c (List.mem_reverse.mpr hc))
    | some d =>
      have hid : d.id = c.id := Component.id_of_withId? hfound
      exact ⟨d, mem_components.mpr (hid ▸ hfound), hid⟩

/-- What has been inserted into an empty catalog is reflected. -/
theorem reflects_insertAll (listed : List Component) :
    (empty.insertAll listed).Reflects listed := by
  have hget : ∀ id, (empty.insertAll listed).get? id = listed.reverse.find? (·.id == id) := by
    intro id
    have hempty : empty.get? id = none := rfl
    rw [get?_insertAll, hempty, Option.or_none]
  have hids := mem_ids_iff hget
  -- the stored ids and the listed ones without repetition are in different orders
  have hperm : ((empty.insertAll listed).components.map (·.id)).Perm
      (listed.map (·.id)).dedup :=
    (List.perm_ext_iff_of_nodup (nodup_ids _) (List.nodup_dedup _)).mpr fun id => by
      rw [hids, List.mem_dedup]
  refine ⟨hget, fun id c => Component.id_of_withId?, fun c => mem_components, hids, ?_, ?_, ?_⟩
  · exact (empty.insertAll listed).sorted.imp fun h => Text.bytes_lt_bytes h
  · rw [← hperm.length_eq, List.length_map, Catalog.size]
  · rw [isEmpty, size, List.isEmpty_iff, List.length_eq_zero_iff]

/-! ## Documents -/

/-- The text is a document in JSON that holds the components: one, or one for each item of an
array. -/
def HoldsJson (text : String) (cs : List Component) : Prop :=
  ∃ v, Json.Value.parse text = .ok v ∧
    match v with
    | .array items => List.Forall₂ (fun item c => Source.component item = .ok c) items cs
    | v => ∃ c, Source.component v = .ok c ∧ cs = [c]

/-- The text is a document in YAML that holds the components: one, or one for each item of a
sequence. -/
def HoldsYaml (text : String) (cs : List Component) : Prop :=
  ∃ v, Yaml.Value.parse text = .ok v ∧
    match v with
    | .sequence items => List.Forall₂ (fun item c => Source.component item = .ok c) items cs
    | v => ∃ c, Source.component v = .ok c ∧ cs = [c]

/-- There is a text in the file that holds the components: in YAML when the extension of the file
says so, and in JSON otherwise. -/
def HoldsFile (tree : Files.Tree) (path : String) (cs : List Component) : Prop :=
  ∃ text, tree.read path = .ok text ∧
    if Files.extension? path = some "yaml" ∨ Files.extension? path = some "yml" then
      HoldsYaml text cs
    else HoldsJson text cs

/-- The components that are read of a text in JSON are those that it holds. -/
theorem parseJson_eq_ok {text : String} {cs : List Component} :
    Component.parseJson text = .ok cs ↔ HoldsJson text cs := by
  rw [Component.parseJson, Json.bind_eq_ok]
  simp only [mapError_eq_ok]
  refine exists_congr fun v => and_congr_right fun _ => ?_
  cases v with
  | array items => exact mapM_eq_ok
  | null | bool | number | string | object => exact Json.bind_pure_eq_ok

/-- The components that are read of a text in YAML are those that it holds. -/
theorem parseYaml_eq_ok {text : String} {cs : List Component} :
    Component.parseYaml text = .ok cs ↔ HoldsYaml text cs := by
  rw [Component.parseYaml, Json.bind_eq_ok]
  simp only [mapError_eq_ok]
  refine exists_congr fun v => and_congr_right fun _ => ?_
  cases v with
  | sequence items => exact mapM_eq_ok
  | _ => exact Json.bind_pure_eq_ok

/-- The components that are read of a file are those that it holds. -/
theorem parseFile_eq_ok {tree : Files.Tree} {path : String} {cs : List Component} :
    Component.parseFile tree path = .ok cs ↔ HoldsFile tree path cs := by
  rw [Component.parseFile, Json.bind_eq_ok]
  simp only [mapError_eq_ok]
  refine exists_congr fun text => and_congr_right fun _ => ?_
  split
  · next h => rw [if_pos (.inl h), parseYaml_eq_ok]
  · next h => rw [if_pos (.inr h), parseYaml_eq_ok]
  · next hyaml hyml => rw [if_neg (not_or.mpr ⟨hyaml, hyml⟩), parseJson_eq_ok]

/-- A document is loaded as a whole or not at all. It fails when it holds no components, and then
nothing is contributed and the catalog is as it was; otherwise the components that it holds are
contributed and counted. -/
def LoadsWhole (catalog : Catalog) (outcome : Except LoadError Nat × Catalog)
    (contributed : List Component) (holds : List Component → Prop) : Prop :=
  match outcome.1 with
  | .error _ => (¬ ∃ cs, holds cs) ∧ contributed = [] ∧ outcome.2 = catalog
  | .ok n => holds contributed ∧ n = contributed.length ∧
      outcome.2 = catalog.insertAll contributed

/-- What is read before it is inserted is loaded as a whole or not at all. -/
theorem loadsWhole_absorb (catalog : Catalog) {components : Except LoadError (List Component)}
    {holds : List Component → Prop} (h : ∀ cs, components = .ok cs ↔ holds cs) :
    LoadsWhole catalog (catalog.absorb components) (read components) holds := by
  cases components with
  | error e => exact ⟨fun ⟨cs, hcs⟩ => by simpa using (h cs).mpr hcs, rfl, rfl⟩
  | ok cs => exact ⟨(h cs).mp rfl, rfl, rfl⟩

/-- **What a catalog stores.** After any steps a catalog that began without components stores, of
the components contributed for an id, the last one. An insertion gives what was found under the id
before. A text or a file is loaded as a whole or not at all; a directory is loaded as far as its
files can be. -/
theorem reflects_run (steps : List Step) :
    let catalog := empty.run steps
    catalog.Reflects (contributed steps) ∧
      (∀ c, (catalog.insert c).1 = catalog.get? c.id) ∧
      (∀ text, catalog.LoadsWhole (catalog.loadJson text) (Step.json text).contributed
        (HoldsJson text)) ∧
      (∀ text, catalog.LoadsWhole (catalog.loadYaml text) (Step.yaml text).contributed
        (HoldsYaml text)) ∧
      (∀ tree path, catalog.LoadsWhole (loadFile tree catalog path)
        (Step.file tree path).contributed (HoldsFile tree path)) ∧
      ∀ tree path, (∀ e, (loadDirectory tree catalog path).1 = .error e →
          (loadDirectory tree catalog path).2 = catalog) ∧
        ∀ n, (loadDirectory tree catalog path).1 = .ok n →
          n = (Step.directory tree path).contributed.length := by
  intro catalog
  refine ⟨?_, catalog.insert_fst, fun text => ?_, fun text => ?_, fun tree path => ?_,
    fun tree path => ?_⟩
  · rw [show catalog = _ from run_eq empty steps]
    exact reflects_insertAll (contributed steps)
  · exact catalog.loadsWhole_absorb fun cs => parseJson_eq_ok
  · exact catalog.loadsWhole_absorb fun cs => parseYaml_eq_ok
  · exact catalog.loadsWhole_absorb fun cs => parseFile_eq_ok
  · rcases catalog.loadDirectory_eq tree path with ⟨e, h, -⟩ | h <;> simp [h]

end Catalog

end TypedCall
