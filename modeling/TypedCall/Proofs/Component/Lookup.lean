import TypedCall.Catalog.Basic
import TypedCall.Proofs.Editor.History
import Mathlib.Data.List.Nodup

/-!
# Looking functions up and listing them

A function is looked up in the first export of a name (`Selects`), a listing goes through all
exports. So what is found is the first listed function of the two names (`find?_functions`), and a
listed function is missed only when an earlier export has the name of its own and no function of
its name (`exists_earlier_of_find`). `find_agrees_with_functions` puts the two together. What is
found carries its export, so a session of it never misses one.
-/

namespace TypedCall

namespace Component

variable {c : Component} {e f : String} {x : Export} {g : Callable} {before : List Export}

/-- The export is the first one of the name. -/
def Selects (c : Component) (e : String) (x : Export) : Prop :=
  ∃ before after, c.exports = before ++ x :: after ∧ x.name = e ∧ ∀ y ∈ before, y.name ≠ e

/-- The function is listed for the export that stands behind the exports `before`. -/
def ListedFor (c : Component) (before : List Export) (x : Export) (g : Callable) : Prop :=
  ∃ after, c.exports = before ++ x :: after ∧ g ∈ x.functions.map (·.within x.name)

/-- Is the function listed under the two names? -/
def isCalled (e f : String) (g : Callable) : Bool := g.exportName == some e && g.name == f

/-- A listed function is called by its own name and the name of its export. -/
theorem isCalled_iff : isCalled e f g = true ↔ g.exportName = some e ∧ g.name = f := by
  simp [isCalled]

/-! ## What is found -/

/-- An export name selects what the search finds, the first export of the name. -/
theorem selects_iff : c.Selects e x ↔ c.exports.find? (·.name == e) = some x := by
  rw [List.find?_eq_some_iff_append]
  constructor
  · rintro ⟨before, after, hsplit, hname, hbefore⟩
    exact ⟨beq_iff_eq.mpr hname, before, after, hsplit, fun y hy => by simpa using hbefore y hy⟩
  · rintro ⟨hname, before, after, hsplit, hbefore⟩
    exact ⟨before, after, hsplit, beq_iff_eq.mp hname, fun y hy => by simpa using hbefore y hy⟩

/-- The lookup fails for want of an export, or goes on in the one that is selected. -/
theorem find_cases (c : Component) (e f : String) :
    ((∀ x ∈ c.exports, x.name ≠ e) ∧ c.find e f = .error (.exportNotFound c.id e)) ∨
      ∃ x, c.Selects e x ∧
        (((∀ h ∈ x.functions, h.name ≠ f) ∧ c.find e f = .error (.functionNotFound e f)) ∨
          ∃ h, x.functions.find? (·.name == f) = some h ∧ c.find e f = .ok (h.within e)) := by
  cases hexport : c.exports.find? (·.name == e) with
  | none =>
    refine .inl ⟨fun x hx => ?_, by simp only [find, hexport]⟩
    simpa using List.find?_eq_none.mp hexport x hx
  | some x =>
    have hname : x.name = e := by simpa using List.find?_some hexport
    refine .inr ⟨x, selects_iff.mpr hexport, ?_⟩
    cases hfunction : x.functions.find? (·.name == f) with
    | none =>
      refine .inl ⟨fun h hh => ?_, by simp only [find, hexport, hfunction]⟩
      simpa using List.find?_eq_none.mp hfunction h hh
    | some h => exact .inr ⟨h, rfl, by simp only [find, hexport, hfunction, hname]⟩

theorem Selects.unique {y : Export} (hx : c.Selects e x) (hy : c.Selects e y) : x = y := by
  rw [selects_iff] at hx hy
  exact Option.some.inj (hx.symm.trans hy)

theorem Selects.mem (h : c.Selects e x) : x ∈ c.exports ∧ x.name = e := by
  obtain ⟨before, after, hsplit, hname, -⟩ := h
  exact ⟨by simp [hsplit], hname⟩

/-- The export is missing when no export has its name. -/
theorem find_eq_exportNotFound :
    c.find e f = .error (.exportNotFound c.id e) ↔ ∀ x ∈ c.exports, x.name ≠ e := by
  obtain ⟨hnone, hfind⟩ | ⟨x, hx, ⟨-, hfind⟩ | ⟨h, -, hfind⟩⟩ := find_cases c e f
  · exact iff_of_true hfind hnone
  · rw [hfind]
    exact iff_of_false (by simp) fun hnone => hnone x hx.mem.1 hx.mem.2
  · rw [hfind]
    exact iff_of_false (by simp) fun hnone => hnone x hx.mem.1 hx.mem.2

/-- The function is missing when the selected export has no function of its name. -/
theorem find_eq_functionNotFound :
    c.find e f = .error (.functionNotFound e f) ↔
      ∃ x, c.Selects e x ∧ ∀ h ∈ x.functions, h.name ≠ f := by
  obtain ⟨hnone, hfind⟩ | ⟨x, hx, ⟨hmissing, hfind⟩ | ⟨h, hh, hfind⟩⟩ := find_cases c e f
  · rw [hfind]
    exact iff_of_false (by simp) fun ⟨x, hx, _⟩ => hnone x hx.mem.1 hx.mem.2
  · exact iff_of_true hfind ⟨x, hx, hmissing⟩
  · rw [hfind]
    refine iff_of_false (by simp) ?_
    rintro ⟨y, hy, hmissing⟩
    obtain rfl := hx.unique hy
    exact hmissing h (List.mem_of_find?_eq_some hh) (by simpa using List.find?_some hh)

/-- What is found stands in the selected export, which is put in place of its own. -/
theorem exists_selects_of_find (hfind : c.find e f = .ok g) :
    ∃ x h, c.Selects e x ∧ x.functions.find? (·.name == f) = some h ∧ g = h.within e := by
  obtain ⟨-, herror⟩ | ⟨x, hx, ⟨-, herror⟩ | ⟨h, hh, hok⟩⟩ := find_cases c e f
  · rw [herror] at hfind
    cases hfind
  · rw [herror] at hfind
    cases hfind
  · exact ⟨x, h, hx, hh, Except.ok.inj (hfind.symm.trans hok)⟩

/-! ## What is listed -/

/-- The functions of an export stand between those of the exports around it. -/
theorem functions_of_split {after : List Export} (hsplit : c.exports = before ++ x :: after) :
    c.functions = (before.flatMap fun y => y.functions.map (·.within y.name)) ++
      (x.functions.map (·.within x.name) ++
        after.flatMap fun y => y.functions.map (·.within y.name)) := by
  rw [functions, hsplit, List.flatMap_append, List.flatMap_cons]

/-- Of the functions of an export the first one of a name is the first one listed under it. -/
theorem find?_listed (x : Export) (f : String) :
    (x.functions.map (·.within x.name)).find? (isCalled x.name f) =
      (x.functions.find? (·.name == f)).map (·.within x.name) := by
  rw [List.find?_map]
  congr 2
  funext h
  simp [isCalled, Callable.within]

/-- What the selected export has is the first listed under the two names. -/
theorem find?_functions {h : Callable} (hx : c.Selects e x)
    (hh : x.functions.find? (·.name == f) = some h) :
    c.functions.find? (isCalled e f) = some (h.within e) := by
  obtain ⟨before, after, hsplit, rfl, hbefore⟩ := hx
  have hearlier : (before.flatMap fun y => y.functions.map (·.within y.name)).find?
      (isCalled x.name f) = none := by
    rw [List.find?_eq_none]
    intro g hg
    obtain ⟨y, hy, hg⟩ := List.mem_flatMap.mp hg
    obtain ⟨h, -, rfl⟩ := List.mem_map.mp hg
    rw [isCalled_iff]
    exact fun hcalled => hbefore y hy (Option.some.inj hcalled.1)
  rw [functions_of_split hsplit, List.find?_append, hearlier, Option.none_or, List.find?_append,
    find?_listed, hh]
  rfl

/-- The listed functions are those of the exports, each listed for its own. -/
theorem mem_functions : g ∈ c.functions ↔ ∃ before x, c.ListedFor before x g := by
  constructor
  · intro hg
    obtain ⟨x, hx, hg⟩ := List.mem_flatMap.mp hg
    obtain ⟨before, after, hsplit⟩ := List.append_of_mem hx
    exact ⟨before, x, after, hsplit, hg⟩
  · rintro ⟨before, x, after, hsplit, hg⟩
    exact List.mem_flatMap.mpr ⟨x, by simp [hsplit], hg⟩

/-- A listed function carries the name of its export. -/
theorem ListedFor.exportName (hg : c.ListedFor before x g) : g.exportName = some x.name := by
  obtain ⟨after, -, hg⟩ := hg
  obtain ⟨h, -, rfl⟩ := List.mem_map.mp hg
  rfl

/-- The export of a listed function has a function of its name. -/
theorem ListedFor.exists_function (hg : c.ListedFor before x g) :
    ∃ h ∈ x.functions, h.name = g.name ∧ g = h.within x.name := by
  obtain ⟨after, -, hg⟩ := hg
  obtain ⟨h, hh, rfl⟩ := List.mem_map.mp hg
  exact ⟨h, hh, rfl, rfl⟩

/-! ## Listed functions that are missed -/

/-- A listed function is missed only in favour of an earlier export, which lacks it. -/
theorem exists_earlier_of_find (hg : c.ListedFor before x g) {reason : LookupError}
    (hfind : c.find x.name g.name = .error reason) :
    ∃ y ∈ before, y.name = x.name ∧ ∀ h ∈ y.functions, h.name ≠ g.name := by
  obtain ⟨h, hh, hname, -⟩ := hg.exists_function
  obtain ⟨after, hsplit, -⟩ := hg
  have hx : x ∈ c.exports := by simp [hsplit]
  obtain ⟨hnone, -⟩ | ⟨y, hy, ⟨hmissing, -⟩ | ⟨h, -, hok⟩⟩ := find_cases c x.name g.name
  · exact absurd rfl (hnone x hx)
  · -- the selected export lacks the function, so it is another one and stands before
    refine ⟨y, ?_, hy.mem.2, hmissing⟩
    rw [selects_iff, hsplit, List.find?_append] at hy
    rcases Option.or_eq_some_iff.mp hy with hy | ⟨-, hy⟩
    · exact List.mem_of_find?_eq_some hy
    · rw [List.find?_cons, beq_self_eq_true] at hy
      obtain rfl := Option.some.inj hy
      exact absurd hname (hmissing h hh)
  · rw [hok] at hfind
    cases hfind

/-- Where exports differ in their names, those before another one do. -/
theorem ListedFor.name_ne (hg : c.ListedFor before x g)
    (hexports : (c.exports.map (·.name)).Nodup) : ∀ y ∈ before, y.name ≠ x.name := by
  obtain ⟨after, hsplit, -⟩ := hg
  rw [hsplit, List.map_append, List.map_cons, List.nodup_append] at hexports
  exact fun y hy => hexports.2.2 y.name (List.mem_map_of_mem hy) x.name List.mem_cons_self

/-- Where exports differ in their names, something is found under those of a listed function. -/
theorem ListedFor.exists_find (hg : c.ListedFor before x g)
    (hexports : (c.exports.map (·.name)).Nodup) : ∃ found, c.find x.name g.name = .ok found := by
  cases hfind : c.find x.name g.name with
  | ok found => exact ⟨found, rfl⟩
  | error reason =>
    obtain ⟨y, hy, hname, -⟩ := exists_earlier_of_find hg hfind
    exact absurd hname (hg.name_ne hexports y hy)

/-- Where neither exports nor the functions in each of them repeat a name, a listed function is
what is found under its names. -/
theorem ListedFor.find (hg : c.ListedFor before x g) (hexports : (c.exports.map (·.name)).Nodup)
    (hfunctions : ∀ y ∈ c.exports, (y.functions.map (·.name)).Nodup) :
    c.find x.name g.name = .ok g := by
  obtain ⟨h, hh, hname, rfl⟩ := hg.exists_function
  have hx : c.Selects x.name x := by
    have hbefore := hg.name_ne hexports
    obtain ⟨after, hsplit, -⟩ := hg
    exact ⟨before, after, hsplit, rfl, hbefore⟩
  obtain ⟨hnone, -⟩ | ⟨y, hy, ⟨hmissing, -⟩ | ⟨k, hk, hok⟩⟩ :=
    find_cases c x.name (h.within x.name).name
  · exact absurd rfl (hnone x hx.mem.1)
  · obtain rfl := hx.unique hy
    exact absurd hname (hmissing h hh)
  · obtain rfl := hx.unique hy
    have hkname : k.name = h.name := by simpa [Callable.within] using List.find?_some hk
    obtain rfl : k = h :=
      List.inj_on_of_nodup_map (hfunctions x hx.mem.1) (List.mem_of_find?_eq_some hk) hh hkname
    exact hok

end Component

/-! ## Sessions of what was found -/

/-- A function that a catalog finds carries the name of its export. -/
theorem Catalog.exportName_of_find {catalog : Catalog} {id e f : String} {g : Callable}
    (h : catalog.find id e f = .ok g) : g.exportName = some e := by
  rw [Catalog.find] at h
  split at h
  · cases h
  · next c _ =>
    obtain ⟨x, k, -, -, rfl⟩ := Component.exists_selects_of_find h
    rfl

namespace Editor.Session

theorem run_function (s : Session) (steps : List Step) : (s.run steps).function = s.function := by
  induction steps generalizing s with
  | nil => rfl
  | cons x xs ih => exact (ih (s.step x)).trans (step_function s x)

/-- A session of a function that belongs to an export never misses the export. -/
theorem prepare_ne_missingExport {s : Session} {e : String} (h : s.function.exportName = some e)
    (name : String) : s.prepare.1 ≠ .error (.missingExport name) := by
  rw [prepare_fst, build, h]
  simp only
  split
  · simp
  · split <;> simp

end Editor.Session

/-- **Lookup agrees with the listing.** A lookup fails exactly when no export has the name, or when
the first one of the name lacks the function; otherwise it finds the first function that is listed
under the two names. A listed function is missed only when an earlier export of the same name lacks
it, so not where the names of exports differ; and it is found itself where the names of functions
in each export differ too. What a catalog finds carries its export through every session. -/
theorem find_agrees_with_functions (c : Component) :
    (∀ e f, (c.find e f = .error (.exportNotFound c.id e) ↔ ∀ x ∈ c.exports, x.name ≠ e) ∧
      (c.find e f = .error (.functionNotFound e f) ↔
        ∃ x, c.Selects e x ∧ ∀ h ∈ x.functions, h.name ≠ f) ∧
      (c.find e f = .error (.exportNotFound c.id e) ∨ c.find e f = .error (.functionNotFound e f) ∨
        ∃ g, c.find e f = .ok g ∧ g.exportName = some e ∧ g.name = f ∧
          c.functions.find? (Component.isCalled e f) = some g)) ∧
    (∀ g, g ∈ c.functions ↔ ∃ before x, c.ListedFor before x g) ∧
    (∀ before x g, c.ListedFor before x g → g.exportName = some x.name ∧
      (∀ reason, c.find x.name g.name = .error reason →
        ∃ y ∈ before, y.name = x.name ∧ ∀ h ∈ y.functions, h.name ≠ g.name) ∧
      ((c.exports.map (·.name)).Nodup → (∃ found, c.find x.name g.name = .ok found) ∧
        ((∀ y ∈ c.exports, (y.functions.map (·.name)).Nodup) →
          c.find x.name g.name = .ok g))) ∧
    ∀ (catalog : Catalog) id e f g, catalog.find id e f = .ok g → ∀ options steps name,
      ((Editor.Session.new g options).run steps).prepare.1 ≠ .error (.missingExport name) := by
  refine ⟨fun e f => ⟨Component.find_eq_exportNotFound, Component.find_eq_functionNotFound, ?_⟩,
    fun g => Component.mem_functions, ?_, ?_⟩
  · obtain ⟨-, hfind⟩ | ⟨x, hx, ⟨-, hfind⟩ | ⟨h, hh, hfind⟩⟩ := c.find_cases e f
    · exact .inl hfind
    · exact .inr (.inl hfind)
    · have hlisted := Component.find?_functions hx hh
      have hnames := Component.isCalled_iff.mp (List.find?_some hlisted)
      exact .inr (.inr ⟨h.within e, hfind, hnames.1, hnames.2, hlisted⟩)
  · intro before x g hg
    refine ⟨hg.exportName, fun reason hfind => Component.exists_earlier_of_find hg hfind, ?_⟩
    intro hexports
    exact ⟨hg.exists_find hexports, hg.find hexports⟩
  · intro catalog id e f g hg options steps name
    have hexport : ((Editor.Session.new g options).run steps).function.exportName = some e := by
      rw [Editor.Session.run_function]
      exact Catalog.exportName_of_find hg
    exact Editor.Session.prepare_ne_missingExport hexport name

/-- Of two exports of one name the second is listed but not reached, and of two functions of one
name in the first the first is found, with its export in place of the one that it had. Without the
first export the second is reached. -/
theorem find_agrees_with_functions_shadowed :
    let first : Callable := ⟨"f", some "stale", [⟨"x", .scalar .str []⟩], []⟩
    let front : Export := ⟨"api", [first, ⟨"f", none, [], []⟩]⟩
    let back : Export := ⟨"api", [⟨"g", none, [], []⟩]⟩
    let c : Component := ⟨"c", none, none, [front, back]⟩
    let rest : Component := ⟨"c", none, none, [back]⟩
    let g : Callable := ⟨"g", some "api", [], []⟩
    c.find "api" "f" = .ok (first.within "api") ∧ g ∈ c.functions ∧
      c.find "api" "g" = .error (.functionNotFound "api" "g") ∧
      (∃ y ∈ [front], y.name = back.name ∧ ∀ h ∈ y.functions, h.name ≠ "g") ∧
      rest.find "api" "g" = .ok g ∧
      ∀ options, (Editor.Session.new (first.within "api") options).prepare.1 ≠
        .error (.missingExport "f") := by
  intro first front back c rest g
  have hg : c.ListedFor [front] back g := ⟨[], rfl, List.mem_singleton_self g⟩
  have hrest : rest.ListedFor [] back g := ⟨[], rfl, List.mem_singleton_self g⟩
  have hcatalog : (Catalog.empty.insert c).2.find "c" "api" "f" = .ok (first.within "api") := by rfl
  obtain ⟨-, hmem, hlisted, hsession⟩ := find_agrees_with_functions c
  obtain ⟨-, hreached⟩ := ((find_agrees_with_functions rest).2.2.1 _ _ g hrest).2.2 (by decide)
  exact ⟨rfl, (hmem g).mpr ⟨_, _, hg⟩, rfl, (hlisted _ _ g hg).2.1 _ rfl, hreached (by decide),
    fun options => hsession _ _ _ _ _ hcatalog options [] "f"⟩

end TypedCall
