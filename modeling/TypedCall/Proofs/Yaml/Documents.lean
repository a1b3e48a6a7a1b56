import TypedCall.Yaml.Source
import TypedCall.Proofs.Component.Reading
import Mathlib.Data.List.Induction

/-!
# JSON documents as YAML

A JSON value is taken as the YAML value with the same scalars, lists and mappings, the keys of which
are texts (`ofJson`). Whether this is what was read of a text can be computed (`decidableOfJson`).
No tag stands in it, and kept as JSON it is the value again (`toJson_ofJson`).
Members of a descriptor are kept in this way, so the descriptor that it writes is the one that the
JSON value writes (`descriptor_ofJson`); a field is the same too if it is written as an object
(`below_field`).
-/

namespace TypedCall.Yaml.Value

open Json (Members Below bind_eq_ok)

mutual

/-- The YAML value of a JSON value. -/
def ofJson : Json.Value → Value
  | .null => null
  | .bool b => bool b
  | .number (.integer i) => integer i
  | .number (.double x) => double (.finite x)
  | .string s => string s
  | .array items => sequence (itemsOfJson items)
  | .object members => mapping (entriesOfJson members)

/-- The items of a sequence. -/
def itemsOfJson : List Json.Value → List Value
  | [] => []
  | v :: vs => ofJson v :: itemsOfJson vs

/-- The entries of a mapping. -/
def entriesOfJson : List (String × Json.Value) → List (Value × Value)
  | [] => []
  | (k, v) :: rest => (string k, ofJson v) :: entriesOfJson rest

end

/-- A member as the entry of a mapping. -/
def entryOfJson (m : String × Json.Value) : Value × Value := (string m.1, ofJson m.2)

theorem ofJson_array (items : List Json.Value) :
    ofJson (.array items) = sequence (items.map ofJson) := by
  rw [ofJson]
  congr 1
  induction items with
  | nil => rfl
  | cons v vs ih => rw [itemsOfJson, ih, List.map_cons]

theorem ofJson_object (members : Members) :
    ofJson (.object members) = mapping (members.map entryOfJson) := by
  rw [ofJson]
  congr 1
  induction members with
  | nil => rfl
  | cons m ms ih =>
    obtain ⟨k, v⟩ := m
    rw [entriesOfJson, ih, List.map_cons, entryOfJson]

/-! ## Comparing -/

mutual

/-- Is the value the one of a JSON value? -/
def isOfJson : Json.Value → Value → Bool
  | .null, null => true
  | .bool b, bool c => c == b
  | .number (.integer i), integer j => j == i
  | .number (.double x), double y => y == .finite x
  | .string s, string t => t == s
  | .array items, sequence ws => areItemsOfJson items ws
  | .object members, mapping entries => areEntriesOfJson members entries
  | _, _ => false

/-- Are the items of a sequence those of an array? -/
def areItemsOfJson : List Json.Value → List Value → Bool
  | [], [] => true
  | v :: vs, w :: ws => isOfJson v w && areItemsOfJson vs ws
  | _, _ => false

/-- Are the entries of a mapping those of an object? -/
def areEntriesOfJson : List (String × Json.Value) → List (Value × Value) → Bool
  | [], [] => true
  | (k, v) :: members, (string l, w) :: entries =>
    l == k && isOfJson v w && areEntriesOfJson members entries
  | _, _ => false

end

mutual

/-- Whether a value in YAML is that of a value in JSON can be computed. -/
theorem isOfJson_iff (v : Json.Value) (w : Value) : isOfJson v w = true ↔ w = ofJson v := by
  cases v with
  | number n => cases n <;> cases w <;> simp [isOfJson, ofJson]
  | array items => cases w <;> simp [isOfJson, ofJson, areItemsOfJson_iff items]
  | object members => cases w <;> simp [isOfJson, ofJson, areEntriesOfJson_iff members]
  | null | bool b | string s => cases w <;> simp [isOfJson, ofJson]

theorem areItemsOfJson_iff (vs : List Json.Value) (ws : List Value) :
    areItemsOfJson vs ws = true ↔ ws = itemsOfJson vs := by
  cases vs with
  | nil => cases ws <;> simp [areItemsOfJson, itemsOfJson]
  | cons v vs =>
    cases ws with
    | nil => simp [areItemsOfJson, itemsOfJson]
    | cons w ws => simp [areItemsOfJson, itemsOfJson, isOfJson_iff v, areItemsOfJson_iff vs]

theorem areEntriesOfJson_iff (members : List (String × Json.Value))
    (entries : List (Value × Value)) :
    areEntriesOfJson members entries = true ↔ entries = entriesOfJson members := by
  cases members with
  | nil => cases entries <;> simp [areEntriesOfJson, entriesOfJson]
  | cons m members =>
    cases entries with
    | nil => simp [areEntriesOfJson, entriesOfJson]
    | cons e entries =>
      obtain ⟨k, v⟩ := m
      obtain ⟨key, w⟩ := e
      -- a key that is no text is no key of an object
      cases key <;>
        simp [areEntriesOfJson, entriesOfJson, isOfJson_iff v, areEntriesOfJson_iff members,
          and_assoc]

end

/-- Whether a JSON value is what was read can be computed. -/
instance decidableOfJson {ε : Type} (x : Except ε Value) (v : Json.Value) :
    Decidable (x = .ok (ofJson v)) :=
  match x with
  | .ok w => decidable_of_iff (isOfJson v w = true) (by rw [isOfJson_iff, Except.ok.injEq])
  | .error _ => .isFalse nofun

/-! ## Kept as JSON -/

/-- Items are kept as JSON when each of them is. -/
theorem itemsToJson_map {items : List Json.Value} (h : ∀ v ∈ items, (ofJson v).toJson = .ok v) :
    itemsToJson (items.map ofJson) = .ok items := by
  induction items with
  | nil => rfl
  | cons v vs ih =>
    obtain ⟨hv, hvs⟩ := List.forall_mem_cons.mp h
    rw [List.map_cons, itemsToJson, hv, ih hvs]
    rfl

/-- Entries with texts for keys are kept as members when each value is. -/
theorem entriesToJson_map {members : Members} (expected : String) (before : Members)
    (h : ∀ k v, (k, v) ∈ members → (ofJson v).toJson = .ok v) :
    entriesToJson expected before (members.map entryOfJson) = .ok (before.insertAll members) := by
  induction members generalizing expected before with
  | nil => rfl
  | cons m ms ih =>
    obtain ⟨k, v⟩ := m
    have hkey : (string k).textAs expected = .ok k := rfl
    rw [List.map_cons, entryOfJson, entriesToJson, hkey, h k v List.mem_cons_self]
    exact ih "a string" (before.insert k v) fun k v hmem => h k v (List.mem_cons_of_mem _ hmem)

/-- Kept as JSON a document is the document again. -/
theorem toJson_ofJson {v : Json.Value} (hw : v.WellFormed) : (ofJson v).toJson = .ok v := by
  induction v using Json.Value.induction with
  | null | bool b | string s => rfl
  | number n => cases n <;> rfl
  | array items ih =>
    have hitems := fun v hv => ih v hv (Json.Value.wellFormed_array.mp hw v hv)
    rw [ofJson_array, toJson, itemsToJson_map hitems]
    rfl
  | object members ih =>
    obtain ⟨hn, hms⟩ := Json.Value.wellFormed_object.mp hw
    have hmembers := fun k v hmem => ih k v hmem (hms k v hmem)
    have hinsert : Members.insertAll [] members = members := Members.insertAll_eq_append hn
    rw [ofJson_object, toJson, entriesToJson_map _ _ hmembers, hinsert]
    rfl

/-- What comes from JSON carries no tag of its own. -/
theorem hasTag_ofJson (v : Json.Value) : (ofJson v).hasTag = false := by
  induction v using Json.Value.induction with
  | null | bool b | string s => rfl
  | number n => cases n <;> rfl
  | array items ih =>
    rw [ofJson_array, hasTag]
    induction items with
    | nil => rfl
    | cons v vs ihs =>
      rw [List.map_cons, anyTag, ih v List.mem_cons_self, Bool.false_or]
      exact ihs fun w hw => ih w (List.mem_cons_of_mem v hw)
  | object members ih =>
    rw [ofJson_object, hasTag]
    induction members with
    | nil => rfl
    | cons m ms ihs =>
      rw [List.map_cons, entryOfJson, anyEntryTag, ih m.1 m.2 List.mem_cons_self]
      exact ihs fun k v hmem => ih k v (List.mem_cons_of_mem m hmem)

/-! ## Descriptors -/

/-- Members of a mapping are read one after the other. A draft that says what is read of the members
so far is what is read of all of them, if it takes in one more member. -/
theorem foldlM_entries {δ : Type} {add : δ → String → Value → Except Mismatch δ}
    (draft : Members → δ) {members : Members} (hn : members.keys.Nodup)
    (step : ∀ before k v, (k, v) ∈ members → k ∉ before.keys →
      add (draft before) k (ofJson v) = .ok (draft (before ++ [(k, v)]))) :
    (members.map entryOfJson).foldlM (fun d (k, v) => do add d (← k.memberKey) v) (draft []) =
      .ok (draft members) := by
  -- from the end, since the draft speaks of the members that stand before
  induction members using List.reverseRecOn with
  | nil => rfl
  | append_singleton before m ih =>
    obtain ⟨k, v⟩ := m
    have hbefore : (Members.keys before).Nodup := hn.sublist ((List.sublist_append_left _ _).map _)
    have hk : k ∉ Members.keys before := by
      intro hmem
      rw [Members.keys, List.map_append] at hn
      exact List.disjoint_of_nodup_append hn hmem List.mem_cons_self
    have hread := ih hbefore fun before k v hmem => step before k v (List.mem_append_left _ hmem)
    have hstep := step before k v (List.mem_append_right _ List.mem_cons_self) hk
    rw [List.map_append, List.foldlM_append, hread]
    show (add (draft before) k (ofJson v) >>= pure) = .ok (draft (before ++ [(k, v)]))
    rw [hstep]
    rfl

/-- The value of a member, unless it is null. -/
def notNull : Json.Value → Option Json.Value
  | .null => none
  | v => some v

/-- What has been read of a descriptor when its members are read, if its tag is the one given. -/
def descriptorDraft (tag : String) (members : Members) : DescriptorDraft :=
  ⟨(members.find? "type").map fun _ => tag, (members.find? "fields").map notNull,
    (members.find? "cases").map notNull,
    (Descriptor.remaining members).map fun (k, v) => (k, ofJson v)⟩

theorem optionalJson_ofJson {v : Json.Value} (hw : v.WellFormed) :
    optionalJson (ofJson v) = .ok (notNull v) := by
  have hv := toJson_ofJson hw
  cases v with
  | null => rfl
  | number n =>
    cases n <;> rfl
  | bool b | string s => rfl
  | array items | object members =>
    rw [ofJson] at hv ⊢
    rw [optionalJson, hv]
    · rfl
    · nofun

/-- A member is added to a draft in YAML as it is read in JSON. -/
theorem descriptorDraft_add {tag k : String} {before : Members} {v : Json.Value}
    (hk : k ∉ before.keys) (hw : v.WellFormed) (ht : k = "type" → v = .string tag) :
    (descriptorDraft tag before).add k (ofJson v) =
      .ok (descriptorDraft tag (before ++ [(k, v)])) := by
  have hnone : before.find? k = none := Members.find?_eq_none_iff.mpr hk
  have hrest : Descriptor.remaining (before ++ [(k, v)]) =
      Descriptor.remaining before ++ if k ∈ Descriptor.ownKeys then [] else [(k, v)] := by
    rw [Descriptor.remaining, Members.without_append, Members.without_cons]
    rfl
  have hkept := optionalJson_ofJson hw
  unfold DescriptorDraft.add
  split
  -- the tag, the two members that are read later, and any other
  · obtain rfl := ht rfl
    have htext : (ofJson (.string tag)).text = .ok tag := rfl
    simp [descriptorDraft, Members.find?_concat, hrest, hnone, Descriptor.ownKeys, htext]
  · simp [descriptorDraft, Members.find?_concat, hrest, hnone, Descriptor.ownKeys, hkept]
  · simp [descriptorDraft, Members.find?_concat, hrest, hnone, Descriptor.ownKeys, hkept]
  · next htype hfields hcases =>
    have hne : k ≠ "type" ∧ k ≠ "fields" ∧ k ≠ "cases" := ⟨htype, hfields, hcases⟩
    simp [descriptorDraft, Members.find?_concat, hrest, hne, Descriptor.ownKeys, hasTag_ofJson]
    rfl

/-- The members of a draft are those that stood in the document. -/
theorem membersToJson_map {members : Members} (before : Members)
    (h : ∀ k v, (k, v) ∈ members → v.WellFormed) :
    membersToJson before (members.map fun (k, v) => (k, ofJson v)) =
      .ok (before.insertAll members) := by
  induction members generalizing before with
  | nil => rfl
  | cons m ms ih =>
    obtain ⟨k, v⟩ := m
    have hv := toJson_ofJson (h k v List.mem_cons_self)
    rw [List.map_cons, membersToJson, hv]
    exact ih (before.insert k v) fun k v hmem => h k v (List.mem_cons_of_mem _ hmem)

theorem present?_eq_notNull (members : Members) (key : String) :
    ((members.find? key).map notNull).getD none = members.present? key := by
  rw [Members.present?]
  cases members.find? key with
  | none => rfl
  | some v => cases v <;> rfl

/-- An object with a tag writes the same descriptor in both formats, or none. -/
theorem descriptor_ofJson {members : Members} (hw : (Json.Value.object members).WellFormed)
    {tag : String} (ht : members.find? "type" = some (.string tag)) :
    (ofJson (.object members)).descriptor = Descriptor.ofJson (.object members) := by
  obtain ⟨hn, hms⟩ := Json.Value.wellFormed_object.mp hw
  have hentries : (mapping (members.map entryOfJson)).entries "struct RawDescriptor" =
      .ok (members.map entryOfJson) := rfl
  have hread : (members.map entryOfJson).foldlM
      (fun d (k, v) => do DescriptorDraft.add d (← k.memberKey) v) {} =
        .ok (descriptorDraft tag members) :=
    foldlM_entries (descriptorDraft tag) hn fun before k v hmem hk =>
      descriptorDraft_add hk (hms k v hmem) fun htype => by
        have hv := Members.find?_eq_some_of_mem hn hmem
        rw [htype, ht] at hv
        exact (Option.some.inj hv).symm
  have hkept : membersToJson [] ((Descriptor.remaining members).map fun (k, v) => (k, ofJson v)) =
      .ok (Descriptor.remaining members) := by
    rw [membersToJson_map []]
    · rw [Members.insertAll_eq_append (Members.nodup_keys_without hn), List.nil_append]
    · exact fun k v hmem => hms k v (List.mem_of_mem_filter hmem)
  -- both are now made of the tag, the two members that are known and the members that are kept
  rw [Descriptor.ofJson_of_tag ht, ofJson_object, descriptor, hentries, Json.ok_bind, hread,
    Json.ok_bind]
  simp only [descriptorDraft, ht, Option.map_some, Source.required_some, hkept, Json.ok_bind,
    present?_eq_notNull]

/-! ## Fields -/

/-- What has been read of a field when its members are read, if it is the one given. -/
def fieldDraft (f : Field) (members : Members) : FieldDraft :=
  ⟨(members.find? "name").map fun _ => f.name, (members.find? "typ").map fun _ => f.typ⟩

/-- A member is added to the draft of a field when it is the name or the descriptor of this field.
-/
theorem fieldDraft_add {f : Field} {k : String} {before : Members} {v : Json.Value}
    (hk : k ∉ before.keys) (hname : k = "name" → v = .string f.name)
    (htyp : k = "typ" → (ofJson v).descriptor = .ok f.typ) :
    (fieldDraft f before).add k (ofJson v) = .ok (fieldDraft f (before ++ [(k, v)])) := by
  have hnone : before.find? k = none := Members.find?_eq_none_iff.mpr hk
  unfold FieldDraft.add
  split
  · obtain rfl := hname rfl
    have htext : (ofJson (.string f.name)).text = .ok f.name := rfl
    simp [fieldDraft, Members.find?_concat, hnone, htext]
  · simp [fieldDraft, Members.find?_concat, hnone, htyp rfl]
  · next hname htyp =>
    have hne : k ≠ "name" ∧ k ≠ "typ" := ⟨hname, htyp⟩
    simp [fieldDraft, Members.find?_concat, hne]
    rfl

/-- A descriptor is written in YAML as it is in JSON. -/
theorem below_descriptor {v : Json.Value} (hw : v.WellFormed) :
    Below (Descriptor.ofJson v) (ofJson v).descriptor := by
  intro d hd
  cases v with
  | object members =>
    obtain ⟨tag, ht⟩ := Descriptor.exists_tag_of_ofJson hd
    rw [descriptor_ofJson hw ht, hd]
  | _ => cases hd

/-- A field that is an object is written in YAML as it is in JSON. -/
theorem below_field {members : Members} (hw : (Json.Value.object members).WellFormed) :
    Below (fieldOfJson (.object members)) (ofJson (.object members)).field := by
  intro f hf
  obtain ⟨hn, hms⟩ := Json.Value.wellFormed_object.mp hw
  obtain ⟨hname, typ, htyp, hd⟩ := (fieldOfJson_object hn).mp hf
  have hentries : (mapping (members.map entryOfJson)).entries "struct Field" =
      .ok (members.map entryOfJson) := rfl
  have hread : (members.map entryOfJson).foldlM
      (fun d (k, v) => do FieldDraft.add d (← k.memberKey) v) {} = .ok (fieldDraft f members) := by
    refine foldlM_entries (fieldDraft f) hn fun before k v hmem hk => ?_
    have hv := Members.find?_eq_some_of_mem hn hmem
    refine fieldDraft_add hk (fun hkey => ?_) (fun hkey => ?_)
    · rw [hkey, hname] at hv
      exact (Option.some.inj hv).symm
    · rw [hkey, htyp] at hv
      exact below_descriptor (hms k v hmem) (Option.some.inj hv ▸ hd)
  rw [ofJson_object, field, hentries, Json.ok_bind, hread, Json.ok_bind]
  simp only [fieldDraft, hname, htyp, Option.map_some, Source.required_some, Json.ok_bind]
  rfl

end TypedCall.Yaml.Value
