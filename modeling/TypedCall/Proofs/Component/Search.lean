import TypedCall.Component.Basic
import TypedCall.Proofs.Text.Lowercase

/-!
# Searching functions

A search keeps the order of the listed functions. It compares lowercase texts, and a capital sigma
at an end of the query may be lowercased otherwise than inside a name. So it is for settled queries
(`Text.Settled`), and for no others, that a search finds every function whose name or export holds
the query as it is written, and that a longer query finds no more (`search_of_settled`).
-/

namespace TypedCall

open Text (Settled)

/-- The name or the export of the function contains the text, character for character. -/
def Callable.Mentions (f : Callable) (text : String) : Prop :=
  text.toList <:+: f.name.toList ∨ ∃ e, f.exportName = some e ∧ text.toList <:+: e.toList

namespace Component

variable {c : Component} {f : Callable} {query : String}

/-- The characters that a search looks for. -/
def needle (query : String) : List Char := Text.lowercaseAfter [] (Text.trimChars query.toList)

/-- A function matches when its name or its export contains the needle, both in lowercase. -/
theorem matchesQuery_iff :
    matchesQuery (Text.lowercase (Text.trim query)) f = true ↔
      needle query = [] ∨ needle query <:+: Text.lowercaseAfter [] f.name.toList ∨
        ∃ e, f.exportName = some e ∧ needle query <:+: Text.lowercaseAfter [] e.toList := by
  have hneedle : (Text.lowercase (Text.trim query)).toList = needle query := by
    simp [Text.lowercase, Text.trim, needle]
  have hlowercase : ∀ s, (Text.lowercase s).toList = Text.lowercaseAfter [] s.toList := fun s => by
    simp [Text.lowercase]
  have hempty : (Text.lowercase (Text.trim query)).isEmpty = true ↔ needle query = [] := by
    rw [← hneedle]
    simp
  rw [matchesQuery, Bool.or_eq_true, Bool.or_eq_true, or_assoc, Text.contains_iff, hneedle,
    hlowercase, hempty]
  cases f.exportName with
  | none => simp
  | some e => simp [Text.contains_iff, hneedle, hlowercase]

/-- A search gives the functions in the name of which, or of whose export, the needle is found. -/
theorem mem_search :
    f ∈ c.search query ↔ f ∈ c.functions ∧
      (needle query = [] ∨ needle query <:+: Text.lowercaseAfter [] f.name.toList ∨
        ∃ e, f.exportName = some e ∧ needle query <:+: Text.lowercaseAfter [] e.toList) := by
  rw [search, List.mem_filter, matchesQuery_iff]

/-- Of a blank query no needle is left. -/
theorem needle_of_isBlank (h : Text.isBlank query = true) : needle query = [] := by
  have hdrop : query.toList.dropWhile Text.isBlankChar = [] := by
    rw [List.dropWhile_eq_nil_iff]
    exact List.all_eq_true.mp h
  rw [needle, Text.trimChars, hdrop]
  rfl

/-- A blank query finds every function. -/
theorem search_of_isBlank (h : Text.isBlank query = true) : c.search query = c.functions :=
  List.filter_eq_self.mpr fun _ _ => matchesQuery_iff.mpr (.inl (needle_of_isBlank h))

/-! ## Settled queries -/

/-- What mentions a settled query is found. -/
theorem mem_search_of_mentions (h : Settled query.toList) (hf : f ∈ c.functions)
    (hmentions : f.Mentions query) : f ∈ c.search query := by
  refine mem_search.mpr ⟨hf, .inr ?_⟩
  rcases hmentions with hname | ⟨e, he, hexport⟩
  · exact .inl (h.infix_lowercase hname)
  · exact .inr ⟨e, he, h.infix_lowercase hexport⟩

/-- What is found of a longer query is found of a settled part of it. -/
theorem mem_search_of_longer (h : Settled query.toList) {longer : String}
    (hlonger : query.toList <:+: longer.toList) (hf : f ∈ c.search longer) :
    f ∈ c.search query := by
  have hneedle : needle query <:+: needle longer := h.infix_trimmed hlonger
  obtain ⟨hlisted, hmatch⟩ := mem_search.mp hf
  refine mem_search.mpr ⟨hlisted, ?_⟩
  rcases hmatch with hnil | hname | ⟨e, he, hexport⟩
  · rw [hnil, List.infix_nil] at hneedle
    exact .inl hneedle
  · exact .inr (.inl (hneedle.trans hname))
  · exact .inr (.inr ⟨e, he, hneedle.trans hexport⟩)

/-- A query that is not settled misses a function that has it in its name, and that is found of the
whole name. -/
theorem exists_missed (h : ¬ Settled query.toList) :
    ∃ (c : Component) (f : Callable), f ∈ c.functions ∧ query.toList <:+: f.name.toList ∧
      f ∈ c.search f.name ∧ f ∉ c.search query := by
  obtain ⟨s, hs, hmissed⟩ := Text.exists_around_of_not_settled h
  let f : Callable := ⟨String.ofList s, some "", [], []⟩
  let c : Component := ⟨"", none, none, [⟨"", [f]⟩]⟩
  have hf : f ∈ c.functions := List.mem_singleton_self f
  have hname : f.name.toList = s := String.toList_ofList
  have hwhole : needle f.name <:+: Text.lowercaseAfter [] f.name.toList := by
    obtain ⟨front, back, hsplit, -⟩ := Text.exists_lowercase_trimChars f.name.toList
    exact ⟨front, back, hsplit.symm⟩
  have hne : needle query ≠ [] := fun hnil =>
    hmissed (List.IsInfix.trans (List.infix_nil.mpr hnil) List.nil_infix)
  refine ⟨c, f, hf, by rwa [hname], mem_search.mpr ⟨hf, .inr (.inl hwhole)⟩, fun hmem => ?_⟩
  obtain ⟨-, hnil | hinfix | ⟨e, he, hinfix⟩⟩ := mem_search.mp hmem
  · exact hne hnil
  · rw [hname] at hinfix
    exact hmissed hinfix
  · -- the export is empty, so nothing can be found in it
    obtain rfl := Option.some.inj he
    exact hne (List.infix_nil.mp hinfix)

end Component

/-- **What a search finds.** The listed functions in their order, and all of them when the query is
blank. The settled queries, among them all without a capital sigma, are exactly those that find
every function that mentions them, and exactly those that find whatever a longer query finds. -/
theorem search_of_settled (query : String) :
    (∀ c : Component, (c.search query).Sublist c.functions ∧
      (Text.isBlank query = true → c.search query = c.functions)) ∧
    ((∀ (c : Component), ∀ f ∈ c.functions, f.Mentions query → f ∈ c.search query) ↔
      Settled query.toList) ∧
    ((∀ (c : Component) (longer : String), query.toList <:+: longer.toList →
      ∀ f ∈ c.search longer, f ∈ c.search query) ↔ Settled query.toList) ∧
    ('Σ' ∉ query.toList → Settled query.toList) := by
  refine ⟨fun c => ⟨List.filter_sublist, Component.search_of_isBlank⟩, ⟨fun hall => ?_, fun h c f =>
    Component.mem_search_of_mentions h⟩, ⟨fun hall => ?_, fun h c longer hlonger f =>
    Component.mem_search_of_longer h hlonger⟩, Text.settled_of_not_mem⟩
  · by_contra h
    obtain ⟨c, f, hf, hname, -, hmissed⟩ := Component.exists_missed h
    exact hmissed (hall c f hf (.inl hname))
  · by_contra h
    obtain ⟨c, f, -, hname, hwhole, hmissed⟩ := Component.exists_missed h
    exact hmissed (hall c f.name hname f hwhole)

/-- A capital sigma between two letters is settled by them. -/
theorem search_of_settled_between :
    let f : Callable := ⟨"ΑΣΑΣ", some "api", [], []⟩
    let c : Component := ⟨"c", none, none, [⟨"api", [f]⟩]⟩
    Settled "ΑΣΑ".toList ∧ f.Mentions "ΑΣΑ" ∧ f ∈ c.search "ΑΣΑ" ∧ c.search " " = c.functions := by
  intro f c
  have hsettled : Settled ['Α', 'Σ', 'Α'] := by
    intro u w hsplit
    have hw : w = ['Α'] := by
      rcases u with _ | ⟨a, _ | ⟨b, _ | ⟨d, u⟩⟩⟩ <;> simp_all
    rw [hw]
    exact .inl (by decide +kernel)
  have hmentions : f.Mentions "ΑΣΑ" := .inl ⟨[], ['Σ'], by decide⟩
  have hfound := (search_of_settled "ΑΣΑ").2.1.mpr hsettled
  exact ⟨hsettled, hmentions, hfound c f (List.mem_singleton_self f) hmentions,
    ((search_of_settled " ").1 c).2 (by decide)⟩

/-- The query `ΑΣ` ends in a final sigma, and `ΑΣΑ` has none: the function of this name is missed,
though it is found of its whole name. -/
theorem search_sigma :
    let f : Callable := ⟨"ΑΣΑ", some "api", [], []⟩
    let c : Component := ⟨"c", none, none, [⟨"api", [f]⟩]⟩
    f ∈ c.functions ∧ f.Mentions "ΑΣ" ∧ f ∈ c.search "ΑΣΑ" ∧ f ∉ c.search "ΑΣ" := by
  intro f c
  have hf : f ∈ c.functions := List.mem_singleton_self f
  have hmissed : ¬ Component.matchesQuery (Text.lowercase (Text.trim "ΑΣ")) f = true := by
    decide +kernel
  exact ⟨hf, .inl ⟨[], ['Α'], by decide⟩, List.mem_filter.mpr ⟨hf, by decide +kernel⟩,
    fun hmem => hmissed (List.mem_filter.mp hmem).2⟩

end TypedCall
