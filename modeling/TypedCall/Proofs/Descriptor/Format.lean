import TypedCall.Proofs.Descriptor.Reading

/-!
# The format of descriptors

`Value.isDescriptor` says which values write a descriptor, tag by tag. It recurses on the value as
the readers do; its statement through `Members.find?` comes first, and the proofs use that. The
format of a value does not depend on the order of members (`sameFormat_of_same`).
-/

namespace TypedCall

open Json (Value Members)

/-- What the member `type` announces, when it is a text. -/
def Json.Members.tag? (members : Members) : Option Tag :=
  match members.find? "type" with
  | some (.string tag) => some (Tag.ofString tag)
  | _ => none

theorem Json.Members.tag?_of_find? {members : Members} {tag : String}
    (ht : members.find? "type" = some (.string tag)) :
    members.tag? = some (Tag.ofString tag) := by
  rw [tag?, ht]

/-- Without a text under `type` nothing is announced. -/
theorem Json.Members.tag?_eq_none {members : Members}
    (h : ∀ tag, members.find? "type" ≠ some (.string tag)) : members.tag? = none := by
  rw [tag?]
  split
  · next tag ht => exact absurd ht (h tag)
  · rfl

namespace Json.Value

/-- Is the value null? -/
def isNull : Value → Bool
  | .null => true
  | _ => false

/-! ## Which values write a descriptor -/

mutual

/-- Does the value write a descriptor? -/
def isDescriptor : Value → Bool
  | .object members =>
    match Members.tag? members with
    | some (.compound .record) | some (.compound .tuple) =>
      (Members.present? members "cases").isNone && fieldsAllowed members
    | some (.compound .variant) | some (.container _) => (Members.present? members "fields").isNone
    | some (.scalar _) =>
      (Members.present? members "fields").isNone && (Members.present? members "cases").isNone
    | some (.unknown _) => true
    | none => false
  | _ => false

/-- Is the member `fields` absent, null, or a list of fields? -/
def fieldsAllowed : List (String × Value) → Bool
  | [] => true
  | (k, v) :: rest =>
    if k = "fields" then v.isNull || v.areFields else fieldsAllowed rest

/-- Is the value a list of fields? -/
def areFields : Value → Bool
  | .array items => areFieldItems items
  | _ => false

/-- Are the items fields? -/
def areFieldItems : List Value → Bool
  | [] => true
  | v :: vs => v.isField && areFieldItems vs

/-- Is the value an object with a name and a descriptor, or an array of the two? -/
def isField : Value → Bool
  | .object members =>
    (match Members.find? members "name" with
      | some (.string _) => true
      | _ => false) && typAllowed members
  | .array [.string _, typ] => typ.isDescriptor
  | _ => false

/-- Does the member `typ` write a descriptor? -/
def typAllowed : List (String × Value) → Bool
  | [] => false
  | (k, v) :: rest => if k = "typ" then v.isDescriptor else typAllowed rest

end

/-! ## Through what members find -/

variable {members : Members}

/-- The member `fields` is allowed when it is not present or a list of fields. -/
theorem fieldsAllowed_eq : fieldsAllowed members =
    match members.present? "fields" with
    | some v => v.areFields
    | none => true := by
  induction members with
  | nil => rfl
  | cons m ms ih =>
    obtain ⟨k, v⟩ := m
    rw [fieldsAllowed, Members.present?_cons]
    by_cases h : k = "fields"
    · rw [if_pos h, if_pos h]
      cases v <;> rfl
    · rw [if_neg h, if_neg h, ih]

/-- The member `typ` is allowed when it is there and writes a descriptor. -/
theorem typAllowed_eq : typAllowed members =
    match members.find? "typ" with
    | some v => v.isDescriptor
    | none => false := by
  induction members with
  | nil => rfl
  | cons m ms ih =>
    obtain ⟨k, v⟩ := m
    rw [typAllowed, Members.find?_cons]
    by_cases h : k = "typ"
    · rw [if_pos h, if_pos h]
    · rw [if_neg h, if_neg h, ih]

theorem areFieldItems_iff {items : List Value} :
    areFieldItems items = true ↔ ∀ v ∈ items, v.isField = true := by
  induction items with
  | nil => simp [areFieldItems]
  | cons v vs ih => simp [areFieldItems, ih]

/-! ## The order of members does not matter -/

/-- What the readers accept is the same for both values. -/
structure SameFormat (v w : Value) : Prop where
  descriptor : v.isDescriptor = w.isDescriptor
  fields : v.areFields = w.areFields
  field : v.isField = w.isField

theorem same_null_iff {v w : Value} (h : v.same w = true) : v = .null ↔ w = .null := by
  cases v <;> cases w <;> simp_all [same]

theorem same_string_iff {v w : Value} (h : v.same w = true) (s : String) :
    v = .string s ↔ w = .string s := by
  cases v <;> cases w <;> simp_all [same]

/-- If null is only related to null, what is related when found is related when present. -/
theorem rel_present? {ms ns : Members} {key : String} {R : Value → Value → Prop}
    (hnull : ∀ v w, R v w → (v = .null ↔ w = .null))
    (h : Option.Rel R (ms.find? key) (ns.find? key)) :
    Option.Rel R (ms.present? key) (ns.present? key) := by
  rw [Members.present?, Members.present?]
  generalize ms.find? key = found, ns.find? key = other at h
  cases h with
  | none => exact .none
  | @some v w hvw =>
    by_cases hv : v = .null
    · obtain rfl := (hnull v w hvw).mp hv
      subst hv
      exact .none
    · have hw : w ≠ .null := fun hw => hv ((hnull v w hvw).mpr hw)
      split
      · next h => exact absurd (Option.some.inj h) hv
      · split
        · next h => exact absurd (Option.some.inj h) hw
        · exact .some hvw

section Objects

variable {ms ns : Members}

/-- Objects with equal members find the same texts. -/
theorem find?_string_iff {key : String} (s : String)
    (h : Option.Rel (fun v w => v.same w = true) (ms.find? key) (ns.find? key)) :
    ms.find? key = some (.string s) ↔ ns.find? key = some (.string s) := by
  generalize ms.find? key = found, ns.find? key = other at h
  cases h with
  | none => rfl
  | some hvw => rw [Option.some.injEq, Option.some.injEq, same_string_iff hvw]

/-- The tag depends on the text under `type` alone. -/
theorem tag?_congr
    (h : ∀ s, ms.find? "type" = some (.string s) ↔ ns.find? "type" = some (.string s)) :
    ms.tag? = ns.tag? := by
  by_cases ht : ∃ tag, ms.find? "type" = some (.string tag)
  · obtain ⟨tag, ht⟩ := ht
    rw [Members.tag?_of_find? ht, Members.tag?_of_find? ((h _).mp ht)]
  · rw [Members.tag?_eq_none fun tag hv => ht ⟨tag, hv⟩,
      Members.tag?_eq_none fun tag hv => ht ⟨tag, (h _).mpr hv⟩]

theorem fieldsAllowed_congr
    (h : Option.Rel (fun v w => v.areFields = w.areFields) (ms.present? "fields")
      (ns.present? "fields")) : fieldsAllowed ms = fieldsAllowed ns := by
  rw [fieldsAllowed_eq, fieldsAllowed_eq]
  generalize ms.present? "fields" = found, ns.present? "fields" = other at h
  cases h with
  | none => rfl
  | some hvw => exact hvw

theorem typAllowed_congr
    (h : Option.Rel (fun v w => v.isDescriptor = w.isDescriptor) (ms.find? "typ")
      (ns.find? "typ")) : typAllowed ms = typAllowed ns := by
  rw [typAllowed_eq, typAllowed_eq]
  generalize ms.find? "typ" = found, ns.find? "typ" = other at h
  cases h with
  | none => rfl
  | some hvw => exact hvw

theorem isField_congr
    (hname : ∀ s, ms.find? "name" = some (.string s) ↔ ns.find? "name" = some (.string s))
    (htyp : typAllowed ms = typAllowed ns) :
    (Value.object ms).isField = (Value.object ns).isField := by
  rw [isField, isField, htyp]
  congr 1
  split
  · next s hs => rw [(hname s).mp hs]
  · next hms =>
    split
    · next s hs => exact absurd ((hname s).mpr hs) (hms s)
    · rfl

theorem rel_mono {R S : Value → Value → Prop} {x y : Option Value} (h : Option.Rel R x y)
    (hRS : ∀ v w, R v w → S v w) : Option.Rel S x y := by
  cases h with
  | none => exact .none
  | some hvw => exact .some (hRS _ _ hvw)

/-- The format of an object is settled by the values that it finds. -/
theorem sameFormat_object
    (h : ∀ key, Option.Rel (fun v w => v.same w = true ∧ SameFormat v w)
      (ms.find? key) (ns.find? key)) :
    SameFormat (.object ms) (.object ns) := by
  have hstring : ∀ key s, ms.find? key = some (.string s) ↔ ns.find? key = some (.string s) :=
    fun key s => find?_string_iff s (rel_mono (h key) fun _ _ hvw => hvw.1)
  have hpresent := fun key => rel_present? (fun _ _ hvw => same_null_iff hvw.1) (h key)
  have hnone : ∀ key, (ms.present? key).isNone = (ns.present? key).isNone := by
    intro key
    have hkey := hpresent key
    generalize ms.present? key = found, ns.present? key = other at hkey
    cases hkey <;> rfl
  have hfields : fieldsAllowed ms = fieldsAllowed ns :=
    fieldsAllowed_congr (rel_mono (hpresent "fields") fun _ _ hvw => hvw.2.fields)
  have htyp : typAllowed ms = typAllowed ns :=
    typAllowed_congr (rel_mono (h "typ") fun _ _ hvw => hvw.2.descriptor)
  refine ⟨?_, rfl, isField_congr (hstring "name") htyp⟩
  rw [isDescriptor, isDescriptor, tag?_congr (hstring "type"), hnone, hnone, hfields]

end Objects

/-- The format of an array is settled by those of its items. -/
theorem sameFormat_array {vs ws : List Value}
    (h : List.Forall₂ (fun v w => v.same w = true ∧ SameFormat v w) vs ws) :
    SameFormat (.array vs) (.array ws) := by
  refine ⟨rfl, ?_, ?_⟩
  · rw [areFields, areFields]
    induction h with
    | nil => rfl
    | cons hvw _ ih => rw [areFieldItems, areFieldItems, hvw.2.field, ih]
  · match h with
    | .nil => rfl
    | .cons (a := a) (b := b) _ .nil => cases a <;> cases b <;> rfl
    | .cons (a := a) (b := b) hab (.cons hcd .nil) =>
      cases a with
      | string s =>
        obtain rfl := (same_string_iff hab.1 s).mp rfl
        exact hcd.2.descriptor
      | _ =>
        cases b with
        | string s => exact absurd ((same_string_iff hab.1 s).mpr rfl) (by simp)
        | _ => rfl
    | .cons (a := a) (b := b) _ (.cons _ (.cons _ _)) => cases a <;> cases b <;> rfl

/-- Equal values have the same format, whatever the order of their members. -/
theorem sameFormat_of_same {v w : Value} (hv : v.WellFormed) (hw : w.WellFormed)
    (h : v.same w = true) : SameFormat v w := by
  induction v using Value.induction generalizing w with
  | null | bool b | number n | string s =>
    cases w with
    | array items => simp [same] at h
    | object members => simp [same] at h
    | _ => exact ⟨rfl, rfl, rfl⟩
  | array items ih =>
    cases w with
    | array others =>
      rw [same, sameItems_iff] at h
      rw [wellFormed_array] at hv hw
      refine sameFormat_array (List.forall₂_iff_get.mpr ⟨h.length_eq, fun i h₁ h₂ => ?_⟩)
      have hi := h.get h₁ h₂
      exact ⟨hi, ih _ (List.get_mem items ⟨i, h₁⟩) (hv _ (List.get_mem items ⟨i, h₁⟩))
        (hw _ (List.get_mem others ⟨i, h₂⟩)) hi⟩
    | _ => simp [same] at h
  | object members ih =>
    cases w with
    | object others =>
      refine sameFormat_object fun key => ?_
      have hkey := find?_of_same_object (wellFormed_object.mp hv).1 h key
      have hvs : ∀ v, members.find? key = some v → v.WellFormed := fun _ hf => hv.of_find? hf
      have hws : ∀ v, Members.find? others key = some v → v.WellFormed := fun _ hf =>
        hw.of_find? hf
      have hmem := fun v hf {w} => @ih key v (Members.mem_of_find?_eq_some hf) w
      generalize members.find? key = found, Members.find? others key = other at hkey hvs hws hmem
      cases hkey with
      | none => exact .none
      | some hab => exact .some ⟨hab, hmem _ rfl (hvs _ rfl) (hws _ rfl) hab⟩
    | _ => simp [same] at h

end Json.Value

/-! ## Acceptance -/

open Json.Value in
/-- A list of fields is read when each of its items is one. -/
theorem exists_fieldsOfJson_array {items : List Value}
    (h : ∀ v ∈ items, (∃ f, fieldOfJson v = .ok f) ↔ v.isField = true) :
    (∃ fields, fieldsOfJson (.array items) = .ok fields) ↔ areFieldItems items = true := by
  simp only [fieldsOfJson_array, areFieldItems_iff]
  induction items with
  | nil => simp
  | cons v vs ih =>
    have hvs := ih fun w hw => h w (List.mem_cons_of_mem _ hw)
    simp only [List.forall₂_cons_left_iff, List.forall_mem_cons, ← h v List.mem_cons_self, ← hvs]
    constructor
    · rintro ⟨_, f, fs, hf, hfs, rfl⟩
      exact ⟨⟨f, hf⟩, fs, hfs⟩
    · rintro ⟨⟨f, hf⟩, fs, hfs⟩
      exact ⟨f :: fs, f, fs, hf, hfs, rfl⟩

/-- What the three readers accept. -/
structure Accepted (v : Value) : Prop where
  descriptor : (∃ d, Descriptor.ofJson v = .ok d) ↔ v.isDescriptor = true
  fields : (∃ fields, fieldsOfJson v = .ok fields) ↔ v.areFields = true
  field : (∃ f, fieldOfJson v = .ok f) ↔ v.isField = true

/-- An object is read as a descriptor when it has the format of one, provided that its values are
read when they have theirs. -/
theorem exists_ofJson_object {members : Members}
    (h : ∀ key v, members.find? key = some v → Accepted v) :
    (∃ d, Descriptor.ofJson (.object members) = .ok d) ↔
      (Value.object members).isDescriptor = true := by
  by_cases htag : ∃ tag, members.find? "type" = some (.string tag)
  · obtain ⟨tag, ht⟩ := htag
    have hfields : ∀ v, members.present? "fields" = some v →
        ((∃ fields, fieldsOfJson v = .ok fields) ↔ v.areFields = true) := fun v hv =>
      (h "fields" v (Json.Members.present?_eq_some_iff.mp hv).1).fields
    rw [Json.Value.isDescriptor, Json.Members.tag?_of_find? ht]
    cases hk : Tag.ofString tag with
    | scalar s => simp [Descriptor.ofJson_scalar ht hk]
    | container c => simp [Descriptor.ofJson_container ht hk]
    | unknown t =>
      obtain rfl := Tag.eq_of_ofString_eq_unknown hk
      simp [Descriptor.ofJson_unknown ht hk]
    | compound c =>
      cases c with
      | variant =>
        simp only [Descriptor.ofJson_variant ht hk, Option.isNone_iff_eq_none]
        -- whatever the cases are, there is a way to take them
        refine ⟨fun ⟨d, hd⟩ => hd.1, fun hnone => ?_⟩
        cases members.present? "cases" with
        | none => exact ⟨_, hnone, .inl ⟨rfl, rfl⟩⟩
        | some v =>
          cases hv : fieldsOfJson v with
          | ok fields => exact ⟨_, hnone, .inr (.inl ⟨v, fields, rfl, hv, rfl⟩)⟩
          | error reason => exact ⟨_, hnone, .inr (.inr ⟨v, reason, rfl, hv, rfl⟩)⟩
      | record | tuple =>
        simp only [Descriptor.ofJson_product ht hk (by decide), Json.Value.fieldsAllowed_eq,
          Bool.and_eq_true, Option.isNone_iff_eq_none, exists_and_left]
        refine and_congr_right fun _ => ?_
        cases hp : members.present? "fields" with
        | none => simp
        | some v =>
          rw [← hfields v hp]
          simp
  · constructor
    · rintro ⟨d, hd⟩
      exact absurd (Descriptor.exists_tag_of_ofJson hd) htag
    · rw [Json.Value.isDescriptor, Json.Members.tag?_eq_none fun tag ht => htag ⟨tag, ht⟩]
      exact fun hd => absurd hd Bool.false_ne_true

/-- An object is read as a field when it has the format of one, provided that its values are read
when they have theirs. -/
theorem exists_fieldOfJson_object {members : Members} (hn : members.keys.Nodup)
    (h : ∀ key v, members.find? key = some v → Accepted v) :
    (∃ f, fieldOfJson (.object members) = .ok f) ↔ (Value.object members).isField = true := by
  simp only [fieldOfJson_object hn, Json.Value.isField, Json.Value.typAllowed_eq]
  cases hname : members.find? "name" with
  | none => simp
  | some v =>
    cases v with
    | string s =>
      cases htyp : members.find? "typ" with
      | none => simp
      | some t =>
        simp only [Bool.true_and, ← (h "typ" t htyp).descriptor]
        constructor
        · rintro ⟨f, -, v, hv, hd⟩
          obtain rfl := Option.some.inj hv
          exact ⟨f.typ, hd⟩
        · rintro ⟨d, hd⟩
          exact ⟨⟨s, d⟩, rfl, t, rfl, hd⟩
    | _ => simp

/-- An array is read as a field when it is a name with the format of a descriptor behind it. -/
theorem exists_fieldOfJson_array {items : List Value} (h : ∀ v ∈ items, Accepted v) :
    (∃ f, fieldOfJson (.array items) = .ok f) ↔ (Value.array items).isField = true := by
  simp only [fieldOfJson_array]
  constructor
  · rintro ⟨f, v, rfl, hv⟩
    exact (h v (by simp)).descriptor.mp ⟨f.typ, hv⟩
  · intro hf
    unfold Json.Value.isField at hf
    split at hf
    · next heq => cases heq
    · next name typ heq =>
      obtain rfl := Value.array.inj heq
      obtain ⟨d, hd⟩ := (h typ (by simp)).descriptor.mpr hf
      exact ⟨⟨name, d⟩, typ, rfl, hd⟩
    · exact absurd hf Bool.false_ne_true

/-- The three readers accept exactly what has the format. -/
theorem accepted_of_wellFormed {v : Value} (hw : v.WellFormed) : Accepted v := by
  induction v using Json.Value.induction with
  | null | bool b | number n | string s =>
    constructor <;> simp [Descriptor.ofJson, Json.Value.isDescriptor, fieldsOfJson,
      Json.Value.areFields, fieldOfJson, Json.Value.isField]
  | array items ih =>
    have hitems := fun v hv => ih v hv (Json.Value.wellFormed_array.mp hw v hv)
    refine ⟨by simp [Descriptor.ofJson, Json.Value.isDescriptor], ?_,
      exists_fieldOfJson_array hitems⟩
    exact exists_fieldsOfJson_array fun v hv => (hitems v hv).field
  | object members ih =>
    obtain ⟨hn, hms⟩ := Json.Value.wellFormed_object.mp hw
    have hfound : ∀ key v, members.find? key = some v → Accepted v := fun key v hv =>
      have hmem := Json.Members.mem_of_find?_eq_some hv
      ih key v hmem (hms key v hmem)
    exact ⟨exists_ofJson_object hfound, by simp [fieldsOfJson, Json.Value.areFields],
      exists_fieldOfJson_object hn hfound⟩

end TypedCall
