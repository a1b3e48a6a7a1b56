import TypedCall.Proofs.Catalog.Store
import TypedCall.Proofs.Files.Listing

/-!
# Loading a directory

A directory is loaded file by file, each onto the catalog that the files before it have left, and a
file that cannot be loaded is as good as absent (`Loads`). So of an id that stands in several files
the last file decides.
-/

namespace TypedCall

namespace Catalog

/-! ## Files -/

/-- A file of components by the extension of its name. -/
def IsComponentFile (path : String) : Prop :=
  Files.extension? path ∈ [some "json", some "yaml", some "yml"]

instance : DecidablePred IsComponentFile := fun _ => inferInstanceAs (Decidable (_ ∈ _))

/-- The files that are tried are those with an extension for components. -/
theorem isLoadable_iff {path : String} : isLoadable path = true ↔ IsComponentFile path := by
  simp only [isLoadable, IsComponentFile, List.mem_cons, List.not_mem_nil, or_false]
  split <;> simp_all

/-- The components that a file holds are counted and inserted. -/
theorem loadFile_ok {tree : Files.Tree} {catalog : Catalog} {path : String}
    {cs : List Component} (h : HoldsFile tree path cs) :
    loadFile tree catalog path = (.ok cs.length, catalog.insertAll cs) := by
  rw [loadFile, parseFile_eq_ok.mpr h, absorb]

/-- A file that does not hold components cannot be loaded, and nothing comes of trying. -/
theorem loadFile_error {tree : Files.Tree} (catalog : Catalog) {path : String}
    (h : ¬ ∃ cs, HoldsFile tree path cs) :
    ∃ e, loadFile tree catalog path = (.error e, catalog) := by
  cases hparse : Component.parseFile tree path with
  | ok cs => exact absurd ⟨cs, parseFile_eq_ok.mp hparse⟩ h
  | error e => exact ⟨e, by rw [loadFile, hparse, absorb]⟩

/-- A file can be loaded when it holds components. -/
theorem exists_loadFile_ok {tree : Files.Tree} {catalog : Catalog} {path : String} :
    (∃ n next, loadFile tree catalog path = (.ok n, next)) ↔ ∃ cs, HoldsFile tree path cs := by
  constructor
  · rintro ⟨n, next, hload⟩
    by_contra hnone
    obtain ⟨e, he⟩ := loadFile_error catalog hnone
    rw [he] at hload
    cases hload
  · rintro ⟨cs, hcs⟩
    exact ⟨_, _, loadFile_ok hcs⟩

/-! ## One file after the other -/

/-- Loading the files at the paths onto `catalog`, one after the other, adds up to `n` components
and leaves `after`. -/
inductive Loads (tree : Files.Tree) : Catalog → List String → Nat → Catalog → Prop
  | done (catalog : Catalog) : Loads tree catalog [] 0 catalog
  /-- Of a file with another extension nothing is tried. -/
  | other {catalog after : Catalog} {path : String} {paths : List String} {n : Nat} :
    ¬ IsComponentFile path → Loads tree catalog paths n after →
      Loads tree catalog (path :: paths) n after
  /-- A file that cannot be loaded is left out. -/
  | failed {catalog after : Catalog} {path : String} {paths : List String} {n : Nat}
      {e : LoadError} :
    IsComponentFile path → (loadFile tree catalog path).1 = .error e →
      Loads tree catalog paths n after → Loads tree catalog (path :: paths) n after
  /-- The next file is loaded onto what this one leaves. -/
  | loaded {catalog next after : Catalog} {path : String} {paths : List String} {m n : Nat} :
    IsComponentFile path → loadFile tree catalog path = (.ok m, next) →
      Loads tree next paths n after → Loads tree catalog (path :: paths) (m + n) after

section Loading

variable {tree : Files.Tree} {catalog after : Catalog} {path : String} {paths : List String}
  {n : Nat}

/-- The folding of files says what is loaded, and nothing else does. -/
theorem Loads.foldl_eq (h : Loads tree catalog paths n after) (count : Nat) :
    (paths.filter isLoadable).foldl (loadOrSkip tree) (count, catalog) = (count + n, after) := by
  induction h generalizing count with
  | done catalog => rfl
  | other hpath _ ih =>
    rw [List.filter_cons_of_neg (fun hloadable => hpath (isLoadable_iff.mp hloadable)), ih]
  | @failed catalog after path paths n e hpath hload _ ih =>
    have hskip : loadOrSkip tree (count, catalog) path = (count, catalog) := by
      have hnone : ¬ ∃ cs, HoldsFile tree path cs := by
        rintro ⟨cs, hcs⟩
        rw [loadFile_ok hcs] at hload
        cases hload
      obtain ⟨e, he⟩ := loadFile_error catalog hnone
      rw [loadOrSkip, he]
    rw [List.filter_cons_of_pos (isLoadable_iff.mpr hpath), List.foldl_cons, hskip, ih]
  | @loaded catalog next after path paths m n hpath hload _ ih =>
    have hnext : loadOrSkip tree (count, catalog) path = (count + m, next) := by
      rw [loadOrSkip, hload]
    rw [List.filter_cons_of_pos (isLoadable_iff.mpr hpath), List.foldl_cons, hnext, ih,
      Nat.add_assoc]

/-- Files can always be loaded one after the other, for each of them holds components or is passed
over. -/
theorem exists_loads (tree : Files.Tree) (catalog : Catalog) (paths : List String) :
    ∃ n after, Loads tree catalog paths n after := by
  induction paths generalizing catalog with
  | nil => exact ⟨0, catalog, .done catalog⟩
  | cons path paths ih =>
    by_cases hpath : IsComponentFile path
    · cases hload : loadFile tree catalog path with
      | mk result next =>
        cases result with
        | error e =>
          obtain ⟨n, after, h⟩ := ih catalog
          exact ⟨n, after, .failed hpath (congrArg Prod.fst hload) h⟩
        | ok m =>
          obtain ⟨n, after, h⟩ := ih next
          exact ⟨m + n, after, .loaded hpath hload h⟩
    · obtain ⟨n, after, h⟩ := ih catalog
      exact ⟨n, after, .other hpath h⟩

/-- Loading files one after the other is the folding over those with an extension for components.
-/
theorem loads_iff :
    Loads tree catalog paths n after ↔
      (paths.filter isLoadable).foldl (loadOrSkip tree) (0, catalog) = (n, after) := by
  constructor
  · intro h
    rw [h.foldl_eq, Nat.zero_add]
  · -- the files can be loaded in some way, and the folding says in which
    intro h
    obtain ⟨m, left, hloads⟩ := exists_loads tree catalog paths
    rw [hloads.foldl_eq, Nat.zero_add] at h
    obtain ⟨rfl, rfl⟩ := Prod.mk.inj h
    exact hloads

/-- The components that files hold, in the order of the files. -/
def contents (tree : Files.Tree) (paths : List String) : List Component :=
  (paths.filter isLoadable).flatMap fun path => read (Component.parseFile tree path)

/-- Files loaded one after the other leave what they hold, and its number. -/
theorem loads_iff_contents :
    Loads tree catalog paths n after ↔
      n = (contents tree paths).length ∧ after = catalog.insertAll (contents tree paths) := by
  rw [loads_iff, foldl_loadOrSkip]
  simp only [Nat.zero_add, Prod.mk.injEq, contents]
  exact and_congr eq_comm eq_comm

theorem contents_append (tree : Files.Tree) (paths others : List String) :
    contents tree (paths ++ others) = contents tree paths ++ contents tree others := by
  rw [contents, List.filter_append, List.flatMap_append, contents, contents]

/-- A file that holds components puts them first. -/
theorem contents_cons_of_holds {cs : List Component} (hpath : IsComponentFile path)
    (h : HoldsFile tree path cs) :
    contents tree (path :: paths) = cs ++ contents tree paths := by
  rw [contents, List.filter_cons_of_pos (isLoadable_iff.mpr hpath), List.flatMap_cons,
    parseFile_eq_ok.mpr h, contents]
  rfl

/-- A file that holds no components leaves none. -/
theorem contents_cons_of_not_holds (h : ¬ ∃ cs, HoldsFile tree path cs) :
    contents tree (path :: paths) = contents tree paths := by
  cases hparse : Component.parseFile tree path with
  | ok cs => exact absurd ⟨cs, parseFile_eq_ok.mp hparse⟩ h
  | error e =>
    rw [contents, List.filter_cons]
    split
    · rw [List.flatMap_cons, hparse, contents]
      rfl
    · rfl

/-- What files hold is held by one of those with an extension for components. -/
theorem mem_contents {c : Component} :
    c ∈ contents tree paths ↔
      ∃ path ∈ paths, IsComponentFile path ∧ ∃ cs, HoldsFile tree path cs ∧ c ∈ cs := by
  simp only [contents, List.mem_flatMap, List.mem_filter, isLoadable_iff]
  constructor
  · rintro ⟨path, ⟨hmem, hpath⟩, hc⟩
    cases hparse : Component.parseFile tree path with
    | error e =>
      rw [hparse] at hc
      cases hc
    | ok cs =>
      rw [hparse] at hc
      exact ⟨path, hmem, hpath, cs, parseFile_eq_ok.mp hparse, hc⟩
  · rintro ⟨path, hmem, hpath, cs, hcs, hc⟩
    refine ⟨path, ⟨hmem, hpath⟩, ?_⟩
    rw [parseFile_eq_ok.mpr hcs]
    exact hc

/-- Among what files hold nothing is found under an id that none of them has. -/
theorem find?_contents_eq_none {id : String}
    (h : ∀ file ∈ paths, IsComponentFile file → ∀ cs, HoldsFile tree file cs →
      ∀ c ∈ cs, c.id ≠ id) :
    (contents tree paths).reverse.find? (·.id == id) = none := by
  rw [List.find?_eq_none]
  intro c hc
  obtain ⟨file, hfile, hext, cs, hcs, hmem⟩ := mem_contents.mp (List.mem_reverse.mp hc)
  simpa using h file hfile hext cs hcs c hmem

/-- The last file that holds components of an id decides what is found under it. -/
theorem get?_insertAll_contents {before later : List String} {cs : List Component} {c : Component}
    (hpath : IsComponentFile path) (h : HoldsFile tree path cs)
    (hc : cs.reverse.find? (·.id == c.id) = some c)
    (hlater : (contents tree later).reverse.find? (·.id == c.id) = none) :
    (catalog.insertAll (contents tree (before ++ path :: later))).get? c.id = some c := by
  rw [get?_insertAll, contents_append, contents_cons_of_holds hpath h]
  simp only [List.reverse_append, List.find?_append, hlater, hc, Option.none_or, Option.some_or]

end Loading

/-- **A directory is loaded as far as its files can be.** When its path makes no pattern nothing is
loaded. Otherwise the files that the pattern finds are loaded one after the other, and those that do
not hold components are as good as absent. Under each id the last component is found, and under the
ids of no file what was there before. -/
theorem loadDirectory_folds (tree : Files.Tree) (catalog : Catalog) (dir : String) :
    (∀ e, Files.Pattern.ofChars (dir.toList ++ ['/', '*']) = .error e →
      loadDirectory tree catalog dir = (.error (.pattern e), catalog)) ∧
    (∀ pattern, Files.Pattern.ofChars (dir.toList ++ ['/', '*']) = .ok pattern →
      ∃ n after, loadDirectory tree catalog dir = (.ok n, after) ∧
        (∀ m other, Loads tree catalog (tree.expand pattern) m other ↔ m = n ∧ other = after) ∧
        (∀ earlier bad later, tree.expand pattern = earlier ++ bad :: later →
          (¬ ∃ cs, HoldsFile tree bad cs) → Loads tree catalog (earlier ++ later) n after) ∧
        (∀ earlier path later cs c, tree.expand pattern = earlier ++ path :: later →
          IsComponentFile path → HoldsFile tree path cs →
          cs.reverse.find? (·.id == c.id) = some c →
          (∀ file ∈ later, IsComponentFile file → ∀ ds, HoldsFile tree file ds →
            ∀ d ∈ ds, d.id ≠ c.id) →
          after.get? c.id = some c) ∧
        ∀ id, (∀ file ∈ tree.expand pattern, IsComponentFile file → ∀ ds, HoldsFile tree file ds →
          ∀ d ∈ ds, d.id ≠ id) → after.get? id = catalog.get? id) ∧
    ∀ (earlier : Catalog) (path : String),
      (∃ n next, loadFile tree earlier path = (.ok n, next)) ↔ ∃ cs, HoldsFile tree path cs := by
  refine ⟨fun e he => by rw [loadDirectory, he], fun pattern hpattern => ?_,
    fun earlier path => exists_loadFile_ok⟩
  obtain ⟨n, after, hloads⟩ := exists_loads tree catalog (tree.expand pattern)
  obtain ⟨hcount, hafter⟩ := loads_iff_contents.mp hloads
  refine ⟨n, after, ?_, fun m other => ?_, fun earlier bad later hsplit hbad => ?_,
    fun earlier path later cs c hsplit hpath hholds hc hlater => ?_, fun id hid => ?_⟩
  · simp only [loadDirectory, hpattern, loads_iff.mp hloads]
  · rw [loads_iff_contents, hcount, hafter]
  · rw [loads_iff_contents, hcount, hafter, hsplit, contents_append,
      contents_cons_of_not_holds hbad, contents_append]
    exact ⟨rfl, rfl⟩
  · rw [hafter, hsplit]
    exact get?_insertAll_contents hpath hholds hc (find?_contents_eq_none hlater)
  · rw [hafter, get?_insertAll, find?_contents_eq_none hid, Option.none_or]

/-- Of two files with a component of the same id the last one decides, and a malformed file between
them is left out. -/
theorem loadDirectory_folds_replaced :
    let tree : Files.Tree := .alone (.directory [("d", .directory [
      ("a.json", .file (some "[[\"x\",\"first\"],[\"y\"]]")), ("b.json", .file (some "[")),
      ("c.json", .file (some "[[\"x\",\"last\"]]"))])])
    let last : Component := ⟨"x", some "last", none, []⟩
    (loadDirectory tree empty "d").2.get? "x" = some last := by
  intro tree last
  have hpattern : Files.Pattern.ofChars ("d".toList ++ ['/', '*']) =
      .ok ⟨false, [.literal "d", .wild [.anyRun]]⟩ := by rfl
  have hfiles : tree.expand ⟨false, [.literal "d", .wild [.anyRun]]⟩ =
      ["d/a.json", "d/b.json"] ++ "d/c.json" :: [] := by
    simp only [tree]
    rfl
  obtain ⟨n, after, hload, -, -, hlast, -⟩ := (loadDirectory_folds tree empty "d").2.1 _ hpattern
  have hholds : HoldsFile tree "d/c.json" [last] := parseFile_eq_ok.mp (by rfl)
  rw [hload]
  exact hlast _ _ _ [last] last hfiles (by decide) hholds rfl (by simp)

/-! ## The directory that is named -/

/-- There is a text in the entry of a directory that holds the components, in the format that its
name says. -/
def HoldsEntry (e : String × Files.Node) (cs : List Component) : Prop :=
  ∃ text, e.2 = .file (some text) ∧
    if Files.extension? e.1 = some "yaml" ∨ Files.extension? e.1 = some "yml" then HoldsYaml text cs
    else HoldsJson text cs

/-- A text in JSON makes an entry hold its components, unless the name says YAML. -/
theorem holdsEntry_json {name text : String} {cs : List Component}
    (h : Component.parseJson text = .ok cs)
    (hname : ¬ (Files.extension? name = some "yaml" ∨ Files.extension? name = some "yml")) :
    HoldsEntry (name, .file (some text)) cs :=
  ⟨text, rfl, by rw [if_neg hname]; exact parseJson_eq_ok.mp h⟩

section Entries

variable {tree : Files.Tree} {dir : String} {place : Files.Place} {e : String × Files.Node}

/-- A text is read where a path leads to a file with a text. -/
theorem read_eq_ok {path text : String} {place : Files.Place} (h : tree.locate path = .ok place) :
    tree.read path = .ok text ↔ place.node = .file (some text) := by
  rw [Files.Tree.read, h, Json.ok_bind, Files.Place.text]
  cases place.node with
  | directory entries => simp
  | file content => cases content <;> simp

/-- A path that is too long for the system leads to no text. -/
theorem HoldsFile.short {path : String} {cs : List Component} (h : HoldsFile tree path cs) :
    path.utf8ByteSize ≤ 4095 := by
  obtain ⟨text, hread, -⟩ := h
  by_contra hlong
  obtain ⟨place, hplace, -⟩ := Json.bind_eq_ok.mp hread
  rw [Files.Tree.locate, if_pos (by omega : 4095 < path.utf8ByteSize)] at hplace
  split at hplace
  · cases hplace
  · split at hplace <;> cases hplace

/-- The file that is found for an entry holds what the entry holds. -/
theorem holdsFile_entryPath (h : Files.IsListable dir) (hplace : tree.locate dir = .ok place)
    (hnames : Files.ProperNames place.node.entries) (he : e ∈ place.node.entries)
    {cs : List Component} :
    HoldsFile tree (Files.entryPath dir e.1) cs ↔
      (Files.entryPath dir e.1).utf8ByteSize ≤ 4095 ∧ HoldsEntry e cs := by
  have hextension := Files.extension?_entryPath dir (hnames.chars e he).1
  constructor
  · intro hholds
    -- the path of a file that was read is short enough, so it leads to the entry
    have hlocate := h.locate_entryPath hplace hnames he hholds.short
    refine ⟨hholds.short, ?_⟩
    obtain ⟨text, hread, hcs⟩ := hholds
    rw [hextension] at hcs
    exact ⟨text, (read_eq_ok hlocate).mp hread, hcs⟩
  · rintro ⟨hshort, text, htext, hcs⟩
    have hlocate := h.locate_entryPath hplace hnames he hshort
    refine ⟨text, (read_eq_ok hlocate).mpr htext, ?_⟩
    rw [hextension]
    exact hcs

/-- The extension of a path is that of the entry at its end. -/
theorem isComponentFile_entryPath {name : String} (h : '/' ∉ name.toList) :
    IsComponentFile (Files.entryPath dir name) ↔ IsComponentFile name := by
  rw [IsComponentFile, IsComponentFile, Files.extension?_entryPath dir h]

end Entries

/-- **What is loaded of a directory is what stands in it.** A path without characters that have a
meaning in a pattern, and without an empty segment behind `.`, is a pattern for the entries of the
directory that it leads to: they are found in their order, and what is loaded are the components
that they hold, as far as the system can be asked for them by their paths. Nothing is loaded when
the path leads nowhere. -/
theorem loadDirectory_lists {dir : String} (h : Files.IsListable dir) (tree : Files.Tree)
    (catalog : Catalog) :
    Files.Pattern.ofChars (dir.toList ++ ['/', '*']) = .ok (Files.listingPattern dir) ∧
    (∀ place, tree.locate dir = .ok place →
      let paths := place.node.entries.map fun e => Files.entryPath dir e.1
      tree.expand (Files.listingPattern dir) = paths ∧
        loadDirectory tree catalog dir =
          (.ok (contents tree paths).length, catalog.insertAll (contents tree paths)) ∧
        (Files.ProperNames place.node.entries → ∀ c, c ∈ contents tree paths ↔
          ∃ e ∈ place.node.entries, IsComponentFile e.1 ∧
            (Files.entryPath dir e.1).utf8ByteSize ≤ 4095 ∧ ∃ cs, HoldsEntry e cs ∧ c ∈ cs)) ∧
    ∀ e, tree.locate dir = .error e → loadDirectory tree catalog dir = (.ok 0, catalog) := by
  have hexpand := Files.expand_listingPattern tree h.direct
  have hload : loadDirectory tree catalog dir =
      (.ok (contents tree (tree.expand (Files.listingPattern dir))).length,
        catalog.insertAll (contents tree (tree.expand (Files.listingPattern dir)))) := by
    simp only [loadDirectory, h.ofChars, loads_iff.mp (loads_iff_contents.mpr ⟨rfl, rfl⟩)]
  rw [← h.locate_eq] at hexpand
  refine ⟨h.ofChars, fun place hplace => ?_, fun e he => ?_⟩
  · intro paths
    have hpaths : tree.expand (Files.listingPattern dir) = paths := by rw [hexpand, hplace]
    refine ⟨hpaths, by rw [hload, hpaths], fun hnames c => ?_⟩
    rw [mem_contents]
    constructor
    · rintro ⟨path, hpath, hfile, cs, hcs, hc⟩
      obtain ⟨e, he, rfl⟩ := List.mem_map.mp hpath
      obtain ⟨hshort, hentry⟩ := (holdsFile_entryPath h hplace hnames he).mp hcs
      exact ⟨e, he, (isComponentFile_entryPath (hnames.chars e he).1).mp hfile, hshort, cs, hentry,
        hc⟩
    · rintro ⟨e, he, hfile, hshort, cs, hentry, hc⟩
      exact ⟨_, List.mem_map_of_mem he, (isComponentFile_entryPath (hnames.chars e he).1).mpr hfile,
        cs, (holdsFile_entryPath h hplace hnames he).mpr ⟨hshort, hentry⟩, hc⟩
  · rw [hload, hexpand, he]
    rfl

/-- A dot in front and a slash at the end are no part of the directory, and a directory in it is
not entered. -/
theorem loadDirectory_lists_slash :
    let one : Component := ⟨"one", none, none, []⟩
    let inner : List (String × Files.Node) := [("a.json", .file (some "[[\"one\"]]")),
      ("b.json", .directory [("c.json", .file (some "[[\"two\"]]"))])]
    let tree : Files.Tree := .alone (.directory [("m", .directory inner), ("n.json", .file none)])
    Files.IsListable "./m/" ∧ tree.expand (Files.listingPattern "./m/") = ["m/a.json", "m/b.json"] ∧
      one ∈ contents tree ["m/a.json", "m/b.json"] := by
  intro one inner tree
  have h : Files.IsListable "./m/" := ⟨by simp [Files.IsPlain], by decide, by decide, by decide⟩
  have hplace : tree.locate "./m/" = .ok ⟨.directory inner, [tree.node, Files.Node.empty]⟩ := by
    simp only [tree, inner]
    rfl
  have hnames : Files.ProperNames inner := by
    simp only [inner]
    exact ⟨by decide, by decide, by decide⟩
  have hone : HoldsEntry ("a.json", .file (some "[[\"one\"]]")) [one] :=
    holdsEntry_json (by rfl) (by decide)
  obtain ⟨hpaths, -, hmem⟩ := (loadDirectory_lists h tree empty).2.1 _ hplace
  exact ⟨h, hpaths, (hmem hnames one).mpr
    ⟨_, List.mem_cons_self, by decide, by decide, [one], hone, List.mem_singleton_self one⟩⟩

/-- A name with brackets is a class of characters: it finds another directory and not its own.
Doubled slashes behind a dot find nothing, though they lead to the directory. -/
theorem loadDirectory_brackets :
    let one : Component := ⟨"one", none, none, []⟩
    let two : Component := ⟨"two", none, none, []⟩
    let own : String × Files.Node := ("x.json", .file (some "[[\"two\"]]"))
    let tree : Files.Tree := .alone (.directory
      [("a1", .directory [("x.json", .file (some "[[\"one\"]]"))]), ("a[1]", .directory [own])])
    (∃ place, tree.locate "a[1]" = .ok place ∧ place.node.entries = [own] ∧ HoldsEntry own [two] ∧
        (loadDirectory tree empty "a[1]").2.components = [one]) ∧
      ∃ place, tree.locate ".//a1" = .ok place ∧ place.node.entries ≠ [] ∧
        loadDirectory tree empty ".//a1" = (.ok 0, empty) := by
  intro one two own tree
  have htwo : HoldsEntry own [two] := holdsEntry_json (by rfl) (by decide)
  have hother : (loadDirectory tree empty "a[1]").2.components = [one] := by
    simp only [tree, own]
    rfl
  have hnone : loadDirectory tree empty ".//a1" = (.ok 0, empty) := by
    simp only [tree, own]
    rfl
  exact ⟨⟨⟨.directory [own], [tree.node, Files.Node.empty]⟩, rfl, rfl, htwo, hother⟩,
    ⟨⟨.directory [("x.json", .file (some "[[\"one\"]]"))], [tree.node, Files.Node.empty]⟩, rfl,
      List.cons_ne_nil _ _, hnone⟩⟩

end Catalog

end TypedCall
