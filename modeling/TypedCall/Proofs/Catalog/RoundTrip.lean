import TypedCall.Proofs.Catalog.Store
import TypedCall.Proofs.Component.RoundTrip
import TypedCall.Proofs.Json.Documents

/-!
# Writing a catalog and reading it again

A catalog is settled by the components that it finds (`eq_of_get?`), so inserting its components
into an empty catalog gives it back, in whatever order they come. What documents in JSON brought
into a catalog was read of values that repeat no key, and is read back exactly from its written
form; `rereads` says so of everything that is read, and of whole catalogs.
-/

namespace TypedCall

open Json (Value)

namespace Catalog

variable {catalog : Catalog}

/-! ## Catalogs with the same components -/

/-- Catalogs that find the same components are the same. -/
theorem eq_of_get? {a b : Catalog} (h : ∀ id, a.get? id = b.get? id) : a = b := by
  have hperm : a.components.Perm b.components := by
    refine (List.perm_ext_iff_of_nodup a.nodup_ids.of_map b.nodup_ids.of_map).mpr fun c => ?_
    rw [mem_components, mem_components, h]
  have hcomponents : a.components = b.components := by
    refine hperm.eq_of_pairwise (fun c d _ _ hcd hdc => ?_) a.sorted b.sorted
    exact absurd (String.lt_trans hcd hdc) (String.lt_irrefl _)
  cases a
  cases b
  congr

/-- The components of a catalog make up the catalog in any order. -/
theorem insertAll_of_perm {order : List Component} (h : order.Perm catalog.components) :
    empty.insertAll order = catalog := by
  have hmem : ∀ c, c ∈ order.reverse ↔ catalog.get? c.id = some c := fun c => by
    rw [List.mem_reverse, h.mem_iff, mem_components]
  refine eq_of_get? fun id => ?_
  -- no id repeats in the order, so the last component of an id is the only one
  rw [(reflects_insertAll order).get]
  cases hfind : order.reverse.find? (·.id == id) with
  | some c =>
    obtain rfl : c.id = id := by simpa using List.find?_some hfind
    exact ((hmem c).mp (List.mem_of_find?_eq_some hfind)).symm
  | none =>
    cases hget : catalog.get? id with
    | none => rfl
    | some c =>
      obtain rfl := Component.id_of_withId? hget
      rw [List.find?_eq_none] at hfind
      exact absurd (beq_self_eq_true c.id) (hfind c ((hmem c).mpr hget))

/-! ## What was loaded -/

/-- Components of a text in JSON are read of values that repeat no key, as all texts are. -/
theorem readOf_of_parseJson {text : String} {cs : List Component}
    (h : Component.parseJson text = .ok cs) : ∀ c ∈ cs, ReadOf Source.component c := by
  obtain ⟨v, hv, hcs⟩ := parseJson_eq_ok.mp h
  have hw := (Json.isDocument_of_parse hv).wellFormed
  intro c hc
  cases v with
  | array items =>
    obtain ⟨item, hitem, hread⟩ := exists_rel_of_mem hcs hc
    exact ⟨item, Json.Value.wellFormed_array.mp hw item hitem, hread⟩
  | null | bool | number | string | object =>
    obtain ⟨d, hread, rfl⟩ := hcs
    obtain rfl := List.mem_singleton.mp hc
    exact ⟨_, hw, hread⟩

/-- So are the components of a catalog that texts in JSON were loaded into. -/
theorem readOf_of_mem_run {texts : List String} {c : Component}
    (h : c ∈ (empty.run (texts.map .json)).components) : ReadOf Source.component c := by
  have hreflects := reflects_insertAll (contributed (texts.map .json))
  rw [run_eq, mem_components, hreflects.get] at h
  have hlisted := List.mem_reverse.mp (List.mem_of_find?_eq_some h)
  obtain ⟨step, hstep, hc⟩ := List.mem_flatMap.mp hlisted
  obtain ⟨text, -, rfl⟩ := List.mem_map.mp hstep
  cases hread : Component.parseJson text with
  | error e =>
    rw [Step.contributed, hread] at hc
    cases hc
  | ok cs =>
    rw [Step.contributed, hread] at hc
    exact readOf_of_parseJson hread c hc

/-! ## The round trip -/

/-- **The round trip of metadata and payloads.** Whatever is read of a value that repeats no key is
read back from its written form, and written again it gives the same value. A catalog filled from
documents in JSON is given back by its components, written, read again and inserted in any order
into an empty catalog. -/
theorem rereads :
    (∀ v : Value, v.WellFormed → Rereads Source.component Component.toJson v ∧
      Rereads Source.callable Callable.toJson v ∧ Rereads Payload.ofJson Payload.toJson v) ∧
    ∀ (texts : List String) (order : List Component),
      order.Perm (empty.run (texts.map .json)).components →
        ∃ copies, order.mapM (fun c => Source.component c.toJson) = .ok copies ∧
          empty.insertAll copies = empty.run (texts.map .json) := by
  refine ⟨fun v hw => ⟨?_, ?_, ?_⟩, fun texts order horder => ⟨order, ?_, ?_⟩⟩
  · exact rereads_of_readOf hw fun c => component_toJson
  · exact rereads_of_readOf hw fun f => callable_toJson
  · exact rereads_of_readOf hw fun p => Payload.ofJson_toJson
  · rw [mapM_eq_ok, List.forall₂_same]
    exact fun c hc => component_toJson (readOf_of_mem_run (horder.mem_iff.mp hc))
  · exact insertAll_of_perm horder

/-- A component, a function and a payload written as arrays, and a catalog of two documents whose
components are inserted from the end. -/
theorem rereads_arrays :
    let typ : Value := .object [("cases", .array []), ("type", .string "List")]
    let function : Value := .array [.string "ping", .null, .array [.array [.string "x", typ]]]
    let component : Value := .array [.string "c", .null, .number (.integer 3),
      .array [.object [("functions", .array [function]), ("name", .string "api")]]]
    let payload : Value := .array [.array [.array [.number (.integer 7), typ]]]
    let list : Descriptor := .container .list [("cases", .array [])]
    let f : Callable := ⟨"ping", none, [⟨"x", list⟩], []⟩
    let c : Component := ⟨"c", none, some 3, [⟨"api", [f]⟩]⟩
    let p : Payload := ⟨[⟨.number (.integer 7), list⟩]⟩
    let catalog := empty.run
      (["\x7b\"componentId\":\"a\",\"version\":1\x7d", "[[\"b\"]]"].map .json)
    (Source.component component = .ok c ∧ Source.component c.toJson = .ok c) ∧
      (Source.callable function = .ok f ∧ Source.callable f.toJson = .ok f) ∧
      (Payload.ofJson payload = .ok p ∧ Payload.ofJson p.toJson = .ok p) ∧
      ∃ copies, [⟨"b", none, none, []⟩, ⟨"a", none, some 1, []⟩].mapM
          (fun c : Component => Source.component c.toJson) = .ok copies ∧
        empty.insertAll copies = catalog := by
  intro typ function component payload list f c p catalog
  have hcomponent : component.WellFormed ∧ function.WellFormed ∧ payload.WellFormed := by
    simp [component, function, payload, typ, Value.WellFormed, Json.Value.WellFormedMembers,
      Json.Value.WellFormedItems, Json.Members.keys]
  obtain ⟨hc, hf, hp⟩ := hcomponent
  have hcatalog : catalog.components = [⟨"a", none, some 1, []⟩, ⟨"b", none, none, []⟩] := by rfl
  refine ⟨⟨rfl, ((rereads.1 component hc).1 c rfl).1⟩, ⟨rfl, ((rereads.1 function hf).2.1 f rfl).1⟩,
    ⟨rfl, ((rereads.1 payload hp).2.2 p rfl).1⟩, rereads.2 _ _ ?_⟩
  rw [show (empty.run _).components = _ from hcatalog]
  exact .swap _ _ _

end Catalog

end TypedCall
