import TypedCall.Proofs.Catalog.Store
import TypedCall.Proofs.Json.Documents
import TypedCall.Proofs.Yaml.Documents

/-!
# One document in two formats

JSON lets a record be written as an array of its members, and YAML lets null stand for an empty
list or record. Apart from this the formats agree: a document in which all records are objects
(`DocumentInObjects`) holds the same components when it is taken as YAML. Each reader of
`Component/Source` gives in YAML what it gives in JSON (`Below`), from texts and numbers through
functions and exports up to components, so loading either form does the same to a catalog.
-/

namespace TypedCall

open Json (Value Members Below)

/-! ## Records that are objects -/

namespace Json.Value

/-- Is the value an object? -/
def IsObject : Value → Prop
  | .object _ => True
  | _ => False

/-- The items of the list under a key have the property. -/
def Lists (v : Value) (key : String) (P : Value → Prop) : Prop :=
  ∀ items, v.member? key = some (.array items) → ∀ item ∈ items, P item

/-- A function is an object, and so are its parameters and results. -/
def FunctionInObjects (v : Value) : Prop :=
  v.IsObject ∧ v.Lists "parameters" IsObject ∧ v.Lists "results" IsObject

/-- An export is an object, and its functions are in objects. -/
def ExportInObjects (v : Value) : Prop := v.IsObject ∧ v.Lists "functions" FunctionInObjects

/-- A component is an object, and its exports are in objects. -/
def ComponentInObjects (v : Value) : Prop := v.IsObject ∧ v.Lists "exports" ExportInObjects

/-- Every component of the document is in objects: it is one component, or a list of them. -/
def DocumentInObjects : Value → Prop
  | .array items => ∀ item ∈ items, item.ComponentInObjects
  | v => v.ComponentInObjects

end Json.Value

/-! ## Steps of reading -/

section Steps

variable {ε α β γ δ : Type}

/-- A list is read alike when each of its items is. -/
theorem below_mapM {items : List α} {f : α → γ} {reading : α → Except ε β}
    {other : γ → Except ε β} (h : ∀ a ∈ items, Below (reading a) (other (f a))) :
    Below (items.mapM reading) ((items.map f).mapM other) := by
  induction items with
  | nil => exact .refl _
  | cons a items ih =>
    obtain ⟨ha, hitems⟩ := List.forall_mem_cons.mp h
    rw [List.map_cons, List.mapM_cons, List.mapM_cons]
    exact ha.bind fun b _ => (ih hitems).bind fun bs _ => .refl _

/-- What is added up entry by entry is added up alike when each entry is. -/
theorem below_foldlM {entries : List α} {f : α → γ} {add : δ → α → Except ε δ}
    {other : δ → γ → Except ε δ} (h : ∀ d, ∀ a ∈ entries, Below (add d a) (other d (f a))) (d : δ) :
    Below (entries.foldlM add d) ((entries.map f).foldlM other d) := by
  induction entries generalizing d with
  | nil => exact .refl _
  | cons a entries ih =>
    rw [List.map_cons, List.foldlM_cons, List.foldlM_cons]
    refine (h d a List.mem_cons_self).bind fun d' _ => ?_
    exact ih (fun d a ha => h d a (List.mem_cons_of_mem _ ha)) d'

/-- A slot is filled alike with what is read alike. -/
theorem below_fill {slot : Option β} {key : String} {x y : Except Mismatch β} (h : Below x y) :
    Below (Source.fill slot key x) (Source.fill slot key y) := by
  cases slot with
  | some b => exact .refl _
  | none => exact h.bind fun b _ => .refl _

end Steps

/-! ## Texts, numbers and lists -/

section Values

open Yaml.Value (ofJson)

variable {β δ : Type} {v : Value}

theorem below_text (v : Value) : Below (Source.text v) (Source.text (ofJson v)) := by
  intro s hs
  obtain rfl := Json.Value.text_eq_ok_iff.mp hs
  rfl

theorem below_optionalText (v : Value) :
    Below (Source.optionalText v) (Source.optionalText (ofJson v)) := by
  intro s hs
  cases v with
  | null | string s => exact hs
  | _ => cases hs

theorem below_optionalNatural (v : Value) :
    Below (Source.optionalNatural v) (Source.optionalNatural (ofJson v)) := by
  intro n hn
  cases v with
  | null => exact hn
  | number number =>
    cases number with
    | integer i => cases i <;> exact hn
    | double x => cases hn
  | _ => cases hn

/-- A list is read alike in both formats when each of its items is. -/
theorem below_listOf {reading : Value → Except Mismatch β} {other : Yaml.Value → Except Mismatch β}
    (h : ∀ items, v = .array items → ∀ a ∈ items, Below (reading a) (other (ofJson a))) :
    Below (Source.listOf reading v) (Source.listOf other (ofJson v)) := by
  intro bs hbs
  obtain ⟨items, rfl, -⟩ := listOf_eq_ok.mp hbs
  rw [Yaml.Value.ofJson_array]
  exact below_mapM (h items rfl) hbs

/-! ## Records -/

/-- The mapping of an object is a record with the same members. -/
theorem record_ofJson (expected : String) (members : Members) :
    Source.record expected (ofJson (.object members)) =
      .ok (.named (members.map fun m => (.ok m.1, ofJson m.2))) := by
  have hentries : ((members.map Yaml.Value.entryOfJson).map fun e => (e.1.memberKey, e.2)) =
      members.map fun m => (.ok m.1, ofJson m.2) := List.map_map
  rw [Yaml.Value.ofJson_object, ← hentries]
  rfl

/-- A record is read in YAML as it is in JSON when each of its members is. -/
theorem below_record {v : Value} (hw : v.WellFormed) (ho : v.IsObject) {expected : String}
    {start : δ} {add : δ → String → Value → Except Mismatch δ}
    {other : δ → String → Yaml.Value → Except Mismatch δ} {result : δ → Except Mismatch β}
    {read : Record Value → Except Mismatch β}
    {read' : Record Yaml.Value → Except Mismatch β}
    (hread : ∀ entries, read (.named entries) =
      entries.foldlM (fun d (key, v) => do add d (← key) v) start >>= result)
    (hread' : ∀ entries, read' (.named entries) =
      entries.foldlM (fun d (key, v) => do other d (← key) v) start >>= result)
    (hadd : ∀ d k x, v.member? k = some x → Below (add d k x) (other d k (ofJson x))) :
    Below (Source.record expected v >>= read) (Source.record expected (ofJson v) >>= read') := by
  cases v with
  | object members =>
    have hmembers : Below
        ((members.map fun m => ((.ok m.1, m.2) : Except Mismatch String × Value)).foldlM
          (fun d (key, v) => do add d (← key) v) start)
        ((members.map fun m =>
            ((.ok m.1, ofJson m.2) : Except Mismatch String × Yaml.Value)).foldlM
          (fun d (key, v) => do other d (← key) v) start) := by
      rw [List.foldlM_map]
      refine below_foldlM (fun d m hm => hadd d m.1 m.2 ?_) start
      exact Members.find?_eq_some_of_mem (Json.Value.wellFormed_object.mp hw).1 hm
    rw [record_object, record_ofJson, Json.ok_bind, Json.ok_bind, hread, hread']
    exact hmembers.bind fun d _ => .refl _
  | _ => exact ho.elim

/-- The items of a list that is a member of a value. -/
theorem forall_items {key : String} {v x : Value} {P : Value → Prop} (hw : v.WellFormed)
    (hlists : v.Lists key P) (hx : v.member? key = some x) :
    ∀ items, x = .array items → ∀ a ∈ items, a.WellFormed ∧ P a := by
  rintro items rfl a ha
  exact ⟨Json.Value.wellFormed_array.mp (hw.of_member? hx) a ha, hlists items hx a ha⟩

/-! ## Functions, exports and components -/

/-- A field that is an object is read alike in both formats. -/
theorem below_field {v : Value} (hw : v.WellFormed) (ho : v.IsObject) :
    Below (fieldOfJson v) (ofJson v).field := by
  cases v with
  | object members => exact Yaml.Value.below_field hw
  | _ => exact ho.elim

/-- A member of a function is read alike, if its parameters and results are objects. -/
theorem below_callableAdd {d : Source.CallableDraft} {key : String}
    (h : key = "parameters" ∨ key = "results" → ∀ items, v = .array items →
      ∀ p ∈ items, p.WellFormed ∧ p.IsObject) :
    Below (d.add key v) (d.add key (ofJson v)) := by
  have hfields : key = "parameters" ∨ key = "results" →
      Below (Source.listOf fieldOfJson v) (Source.listOf Yaml.Value.field (ofJson v)) :=
    fun hkey => below_listOf fun items hv p hp =>
      have ⟨hw, ho⟩ := h hkey items hv p hp
      below_field hw ho
  unfold Source.CallableDraft.add
  split
  -- `name`, `exportName`, `parameters` and `results`; other members are passed over
  · exact (below_fill (below_text v)).bind fun _ _ => .refl _
  · exact (below_fill (below_optionalText v)).bind fun _ _ => .refl _
  · exact (below_fill (hfields (.inl rfl))).bind fun _ _ => .refl _
  · exact (below_fill (hfields (.inr rfl))).bind fun _ _ => .refl _
  · exact .refl _

/-- A function in objects is read alike in both formats. -/
theorem below_callable {v : Value} (hw : v.WellFormed) (ho : v.FunctionInObjects) :
    Below (Source.callable v) (Source.callable (ofJson v)) := by
  obtain ⟨hobject, hparameters, hresults⟩ := ho
  refine below_record hw hobject (fun _ => rfl) (fun _ => rfl) fun d key x hx => ?_
  refine below_callableAdd fun hkey => ?_
  rcases hkey with rfl | rfl
  · exact forall_items hw hparameters hx
  · exact forall_items hw hresults hx

/-- A member of an export is read alike, if its functions are in objects. -/
theorem below_exportAdd {d : Source.ExportDraft} {key : String}
    (h : key = "functions" → ∀ items, v = .array items →
      ∀ f ∈ items, f.WellFormed ∧ f.FunctionInObjects) :
    Below (d.add key v) (d.add key (ofJson v)) := by
  unfold Source.ExportDraft.add
  split
  · exact (below_fill (below_text v)).bind fun _ _ => .refl _
  · have hfunctions : Below (Source.listOf Source.callable v)
        (Source.listOf Source.callable (ofJson v)) :=
      below_listOf fun items hv f hf =>
        have ⟨hw, ho⟩ := h rfl items hv f hf
        below_callable hw ho
    exact (below_fill hfunctions).bind fun _ _ => .refl _
  · exact .refl _

/-- An export in objects is read alike in both formats. -/
theorem below_exported {v : Value} (hw : v.WellFormed) (ho : v.ExportInObjects) :
    Below (Source.exported v) (Source.exported (ofJson v)) := by
  refine below_record hw ho.1 (fun _ => rfl) (fun _ => rfl) fun d key x hx => ?_
  refine below_exportAdd fun hkey => ?_
  subst hkey
  exact forall_items hw ho.2 hx

/-- A member of a component is read alike, if its exports are in objects. -/
theorem below_componentAdd {d : Source.ComponentDraft} {key : String}
    (h : key = "exports" → ∀ items, v = .array items →
      ∀ e ∈ items, e.WellFormed ∧ e.ExportInObjects) :
    Below (d.add key v) (d.add key (ofJson v)) := by
  unfold Source.ComponentDraft.add
  split
  -- `componentId`, `componentName`, `version` and `exports`; other members are passed over
  · exact (below_fill (below_text v)).bind fun _ _ => .refl _
  · exact (below_fill (below_optionalText v)).bind fun _ _ => .refl _
  · exact (below_fill (below_optionalNatural v)).bind fun _ _ => .refl _
  · have hexports : Below (Source.listOf Source.exported v)
        (Source.listOf Source.exported (ofJson v)) :=
      below_listOf fun items hv e he =>
        have ⟨hw, ho⟩ := h rfl items hv e he
        below_exported hw ho
    exact (below_fill hexports).bind fun _ _ => .refl _
  · exact .refl _

/-- A component in objects is read alike in both formats. -/
theorem below_component {v : Value} (hw : v.WellFormed) (ho : v.ComponentInObjects) :
    Below (Source.component v) (Source.component (ofJson v)) := by
  refine below_record hw ho.1 (fun _ => rfl) (fun _ => rfl) fun d key x hx => ?_
  refine below_componentAdd fun hkey => ?_
  subst hkey
  exact forall_items hw ho.2 hx

/-! ## Documents -/

/-- A document in objects is read alike in both formats, whether it is one component or a list of
them. -/
theorem below_listOfJson {v : Value} (hw : v.WellFormed) (ho : v.DocumentInObjects) :
    Below (Component.listOfJson v) (Component.listOfYaml (ofJson v)) := by
  cases v with
  | array items =>
    rw [Yaml.Value.ofJson_array]
    exact below_mapM fun item hitem =>
      below_component (Json.Value.wellFormed_array.mp hw item hitem) (ho item hitem)
  | object members =>
    -- the document is the one component
    rw [Yaml.Value.ofJson_object]
    have hread := below_component hw ho
    rw [Yaml.Value.ofJson_object] at hread
    exact hread.bind fun c _ => .refl _
  | _ => exact ho.1.elim

namespace Catalog

/-- **The formats agree.** When the components of a document are read in JSON and all its records
are objects, the same components are read of it in YAML. So in either form it is loaded into a
catalog with the same count and the same result. -/
theorem formats_agree {v : Value} (hw : v.WellFormed) (ho : v.DocumentInObjects)
    {cs : List Component} (h : Component.listOfJson v = .ok cs) :
    Component.listOfYaml (ofJson v) = .ok cs ∧
      ∀ (catalog : Catalog) (json yaml : String), Value.parse json = .ok v →
        Yaml.Value.parse yaml = .ok (ofJson v) →
          catalog.loadJson json = (.ok cs.length, catalog.insertAll cs) ∧
            catalog.loadYaml yaml = (.ok cs.length, catalog.insertAll cs) := by
  have hyaml : Component.listOfYaml (ofJson v) = .ok cs := below_listOfJson hw ho h
  refine ⟨hyaml, fun catalog json yaml hjson hparse => ?_⟩
  have hread : Component.parseJson json = .ok cs := by
    rw [Component.parseJson, hjson]
    exact mapError_eq_ok.mpr h
  have hread' : Component.parseYaml yaml = .ok cs := by
    rw [Component.parseYaml, hparse]
    exact mapError_eq_ok.mpr hyaml
  rw [loadJson, loadYaml, hread, hread']
  exact ⟨rfl, rfl⟩

/-- A component with a record among the parameters of its function, the field of which is an array,
and a text in each format for a list of components. -/
theorem formats_agree_nested :
    let typ : Value := .object [("fields", .array [.array [.string "x",
      .object [("type", .string "Str")]]]), ("note", .null), ("type", .string "Record")]
    let function : Value := .object [("name", .string "f"), ("exportName", .null),
      ("parameters", .array [.object [("typ", typ), ("name", .string "p")]])]
    let component : Value := .object [("componentId", .string "c"), ("componentName", .null),
      ("exports", .array [.object [("functions", .array [function]), ("name", .string "api")]])]
    let record : Descriptor := .compound .record [⟨"x", .scalar .str []⟩] [("note", .null)]
    let json := "[\x7b\"componentId\": \"c\", \"version\": 3\x7d]"
    let yaml := "- componentId: c\n  version: 3\n"
    let loaded := empty.insertAll [⟨"c", none, some 3, []⟩]
    Component.listOfYaml (ofJson component) =
        .ok [⟨"c", none, none, [⟨"api", [⟨"f", none, [⟨"p", record⟩], []⟩]⟩]⟩] ∧
      empty.loadJson json = (.ok 1, loaded) ∧ empty.loadYaml yaml = (.ok 1, loaded) := by
  intro typ function component record json yaml loaded
  let listed : Value :=
    .array [.object [("componentId", .string "c"), ("version", .number (.integer 3))]]
  have hw : component.WellFormed ∧ listed.WellFormed := by
    simp [component, listed, function, typ, Value.WellFormed, Json.Value.WellFormedMembers,
      Json.Value.WellFormedItems, Members.keys]
  have ho : component.DocumentInObjects ∧ listed.DocumentInObjects := by
    simp [component, listed, function, Json.Value.DocumentInObjects,
      Json.Value.ComponentInObjects, Json.Value.ExportInObjects, Json.Value.FunctionInObjects,
      Json.Value.Lists, Json.Value.IsObject, Json.Value.member?, Members.find?]
  have hjson : Value.parse json = .ok listed := by
    simp only [json]
    rfl
  have hyaml : Yaml.Value.parse yaml = .ok (ofJson listed) := by decide +kernel
  exact ⟨(formats_agree hw.1 ho.1 rfl).1, (formats_agree hw.2 ho.2 rfl).2 empty _ _ hjson hyaml⟩

end Catalog

end Values

end TypedCall
