import TypedCall.Component.Basic
import TypedCall.Proofs.Descriptor.Reading

/-!
# What writing a descriptor says

`Descriptor.members` is the object that a descriptor writes. What it finds is settled by the three
parts of the written form (`find?_members`): a member kept as written wins over the member that
the tag owns, and both over the tag. A descriptor whose kept members repeat no key
(`Descriptor.WellFormed`) writes a well-formed value.
-/

namespace TypedCall

open Json (Value Members)

namespace Descriptor

/-- The members of the object that a descriptor writes. -/
def members (d : Descriptor) : Members := Members.insertAll [] d.entries

theorem toJson_eq (d : Descriptor) : d.toJson = .object d.members := rfl

/-- The members that the tag owns. -/
def own : Descriptor → Members
  | compound type fields extra => ownMembers type (fieldsToJson fields) extra
  | scalar _ _ | container _ _ | unknown _ _ => []

theorem entries_eq (d : Descriptor) :
    d.entries = ("type", .string d.tag) :: (d.own ++ d.extra) := by
  cases d with
  | compound type fields extra => rw [entries]; rfl
  | _ => rfl

theorem fieldsToJson_eq (fields : List Field) :
    fieldsToJson fields = fields.map (Named.writtenBy toJson) := by
  induction fields with
  | nil => rfl
  | cons f fs ih =>
    obtain ⟨name, typ⟩ := f
    rw [fieldsToJson, ih]
    rfl

/-- At most one member is owned. -/
theorem own_eq (d : Descriptor) : d.own = [] ∨ ∃ key v, d.own = [(key, v)] := by
  cases d with
  | compound type fields extra =>
    cases type with
    | variant =>
      rw [own, ownMembers]
      split
      · exact .inl rfl
      · exact .inr ⟨_, _, rfl⟩
    | record | tuple => exact .inr ⟨_, _, rfl⟩
  | _ => exact .inl rfl

/-- An owned member lists the named descriptors. -/
theorem eq_fieldsToJson_of_mem_own {type : Compound} {fields : List Field} {extra : Members}
    {key : String} {v : Value} (h : (key, v) ∈ (compound type fields extra).own) :
    v = .array (fieldsToJson fields) := by
  cases type with
  | record | tuple => exact (Prod.mk.inj (List.mem_singleton.mp h)).2
  | variant =>
    rw [own, ownMembers] at h
    split at h
    · cases h
    · exact (Prod.mk.inj (List.mem_singleton.mp h)).2

theorem find?_own_type (d : Descriptor) : d.own.find? "type" = none := by
  cases d with
  | compound type fields extra =>
    cases type with
    | record | tuple => rfl
    | variant =>
      rw [own, ownMembers]
      split <;> rfl
  | _ => rfl

/-- Under other keys a tag owns nothing. -/
theorem find?_own_of_not_mem {d : Descriptor} {key : String} (hk : key ∉ ownKeys) :
    d.own.find? key = none := by
  have hne : "fields" ≠ key ∧ "cases" ≠ key := by
    constructor <;> rintro rfl <;> exact hk (by decide)
  cases d with
  | compound type fields extra =>
    cases type with
    | record | tuple => simp [own, ownMembers, Members.find?_cons, hne]
    | variant =>
      rw [own, ownMembers]
      split <;> simp [Members.find?_cons, hne]
  | _ => rfl

/-- What is written repeats no key. -/
theorem nodup_keys_members (d : Descriptor) : d.members.keys.Nodup :=
  Members.nodup_keys_insertAll List.nodup_nil

/-- A member kept as written wins over the owned one, and both win over the tag. -/
theorem find?_members {d : Descriptor} (hn : d.extra.keys.Nodup) (key : String) :
    d.members.find? key = (d.extra.find? key).or
      ((d.own.find? key).or (if "type" = key then some (.string d.tag) else none)) := by
  have hown : d.own.reverse = d.own := by
    rcases own_eq d with h | ⟨k, v, h⟩ <;> rw [h] <;> rfl
  rw [members, Members.find?_insertAll, entries_eq, List.reverse_cons, List.reverse_append, hown,
    Members.find?_append, Members.find?_append, Members.find?_reverse hn, Members.find?_cons,
    Members.find?_nil, Option.or_none, Option.or_assoc]

/-- Where a compound leaves its place to a member kept as written, that member is found anyway. -/
theorem find?_members_compound {type : Compound} {fields : List Field} {extra : Members}
    (hn : extra.keys.Nodup) (key : String) :
    (compound type fields extra).members.find? key = (extra.find? key).or
      (if type.ownKey = key then some (.array (fieldsToJson fields))
        else if "type" = key then some (.string type.tag) else none) := by
  rw [find?_members (d := compound type fields extra) hn]
  cases type with
  | record | tuple =>
    by_cases hk : "fields" = key
    · simp [own, ownMembers, Members.find?_cons, Compound.ownKey, Descriptor.extra, hk]
    · simp [own, ownMembers, Members.find?_cons, Compound.ownKey, Descriptor.extra, hk]
      rfl
  | variant =>
    rw [own, ownMembers]
    by_cases hk : "cases" = key
    · subst hk
      split
      · next h =>
        obtain ⟨v, hv⟩ := Option.isSome_iff_exists.mp (Bool.and_eq_true_iff.mp h).2
        simp [Descriptor.extra, hv]
      · simp [Members.find?_cons, Compound.ownKey, Descriptor.extra]
    · split
      · simp [Compound.ownKey, Descriptor.extra, hk]
        rfl
      · simp [Members.find?_cons, Compound.ownKey, Descriptor.extra, hk]
        rfl

/-! ## Well-formed descriptors -/

mutual

/-- The members kept as written repeat no key, here and in every named descriptor. -/
def WellFormed : Descriptor → Prop
  | scalar _ extra | container _ extra | unknown _ extra => (Value.object extra).WellFormed
  | compound _ fields extra => (Value.object extra).WellFormed ∧ WellFormedFields fields

/-- Every named descriptor is well formed. -/
def WellFormedFields : List (Named Descriptor) → Prop
  | [] => True
  | ⟨_, typ⟩ :: rest => typ.WellFormed ∧ WellFormedFields rest

end

theorem wellFormedFields_iff {fields : List Field} :
    WellFormedFields fields ↔ ∀ f ∈ fields, f.typ.WellFormed := by
  induction fields with
  | nil => simp [WellFormedFields]
  | cons f fs ih =>
    obtain ⟨name, typ⟩ := f
    simp [WellFormedFields, ih]

theorem WellFormed.extra {d : Descriptor} (h : d.WellFormed) :
    (Value.object d.extra).WellFormed := by
  cases d with
  | compound type fields extra => exact h.1
  | _ => exact h

theorem WellFormed.nodup_keys_extra {d : Descriptor} (h : d.WellFormed) :
    d.extra.keys.Nodup :=
  (Json.Value.wellFormed_object.mp h.extra).1

/-- The tag is found in the written form. -/
theorem find?_members_type {d : Descriptor} (hw : d.WellFormed)
    (ht : d.extra.find? "type" = none) : d.members.find? "type" = some (.string d.tag) := by
  rw [find?_members hw.nodup_keys_extra, ht, find?_own_type, if_pos rfl, Option.none_or,
    Option.none_or]

/-- Induction on the descriptors named in a descriptor. -/
@[elab_as_elim]
theorem induction {motive : Descriptor → Prop}
    (scalar : ∀ type extra, motive (.scalar type extra))
    (container : ∀ type extra, motive (.container type extra))
    (compound : ∀ type (fields : List Field) extra, (∀ f ∈ fields, motive f.typ) →
      motive (.compound type fields extra))
    (unknown : ∀ tag extra, motive (.unknown tag extra)) : ∀ d, motive d
  | .scalar type extra => scalar type extra
  | .container type extra => container type extra
  | .compound type fields extra => compound type fields extra fun f hf =>
    have : sizeOf f < sizeOf fields := List.sizeOf_lt_of_mem hf
    have : sizeOf f.typ < sizeOf f := by
      obtain ⟨name, typ⟩ := f
      simp only [Named.mk.sizeOf_spec]
      omega
    induction scalar container compound unknown f.typ
  | .unknown tag extra => unknown tag extra

/-- A field whose descriptor writes a well-formed value is written as one. -/
theorem wellFormed_writtenBy {f : Field} (h : f.typ.toJson.WellFormed) :
    (f.writtenBy toJson).WellFormed := by
  rw [Named.writtenBy, Json.Value.wellFormed_object]
  refine ⟨by simp [Members.keys], fun k v hmem => ?_⟩
  simp only [List.mem_cons, Prod.mk.injEq, List.not_mem_nil, or_false] at hmem
  rcases hmem with ⟨-, rfl⟩ | ⟨-, rfl⟩
  · trivial
  · exact h

/-- The written value is well formed when the members kept as written and the owned ones are. -/
theorem wellFormed_toJson_of_own {d : Descriptor} (h : d.WellFormed)
    (hown : ∀ key v, d.own.find? key = some v → v.WellFormed) : d.toJson.WellFormed := by
  rw [toJson_eq]
  refine Json.Value.wellFormed_object_of_find? d.nodup_keys_members fun key v hv => ?_
  rw [find?_members h.nodup_keys_extra] at hv
  rcases Option.or_eq_some_iff.mp hv with hv | ⟨-, hv⟩
  · exact h.extra.of_find? hv
  · rcases Option.or_eq_some_iff.mp hv with hv | ⟨-, hv⟩
    · exact hown key v hv
    · split at hv
      · obtain rfl := Option.some.inj hv
        trivial
      · cases hv

/-- A well-formed descriptor writes a well-formed value. -/
theorem wellFormed_toJson {d : Descriptor} (h : d.WellFormed) : d.toJson.WellFormed := by
  induction d using induction with
  | scalar type extra => exact wellFormed_toJson_of_own h (by simp [own])
  | container type extra => exact wellFormed_toJson_of_own h (by simp [own])
  | unknown tag extra => exact wellFormed_toJson_of_own h (by simp [own])
  | compound type fields extra ih =>
    refine wellFormed_toJson_of_own h fun key v hv => ?_
    have hfields : (Value.array (fieldsToJson fields)).WellFormed := by
      rw [Json.Value.wellFormed_array, fieldsToJson_eq]
      intro w hw
      obtain ⟨f, hf, rfl⟩ := List.mem_map.mp hw
      exact wellFormed_writtenBy (ih f hf (wellFormedFields_iff.mp h.2 f hf))
    -- whichever key the tag owns, the owned value is the list of fields
    have hmem := Members.mem_of_find?_eq_some hv
    rcases eq_fieldsToJson_of_mem_own hmem
    exact hfields

/-! ## What is read is well formed -/

section Reads

variable {members : Members} {d : Descriptor}

/-- The member `fields` is kept as it was present, or not at all. -/
theorem Reads.find?_fields (h : d.Reads members) :
    d.extra.find? "fields" = none ∨ d.extra.find? "fields" = members.present? "fields" := by
  have howned := h.owned
  cases d with
  | scalar => exact .inl howned.2.2.1
  | container => exact .inl howned.2.1
  | compound c => cases c <;> exact .inl howned.2.1
  | unknown => exact .inr howned.1

/-- The member `cases` is kept as it was present, or not at all. -/
theorem Reads.find?_cases (h : d.Reads members) :
    d.extra.find? "cases" = none ∨ d.extra.find? "cases" = members.present? "cases" := by
  have howned := h.owned
  cases d with
  | scalar => exact .inl howned.2.2.2
  | container => exact .inr howned.2.2
  | compound c =>
    cases c with
    | record | tuple => exact .inl howned.2.2.1
    | variant =>
      obtain ⟨-, -, ⟨-, -, hc⟩ | ⟨w, -, -, hc⟩ | ⟨w, reason, hw, -, -, hc⟩⟩ := howned
      · exact .inl hc
      · exact .inl hc
      · exact .inr (hc.trans hw.symm)
  | unknown => exact .inr howned.2

/-- Where the tag owns nothing, `fields` and `cases` are kept as they are present. -/
theorem Reads.find?_of_own_eq_nil (h : d.Reads members) (hown : d.own = []) {key : String}
    (hkey : key = "fields" ∨ key = "cases") : d.extra.find? key = members.present? key := by
  have howned := h.owned
  cases d with
  | scalar s extra =>
    obtain ⟨hf, hc, hef, hec⟩ := howned
    rcases hkey with rfl | rfl
    · exact hef.trans hf.symm
    · exact hec.trans hc.symm
  | container c extra =>
    obtain ⟨hf, hef, hec⟩ := howned
    rcases hkey with rfl | rfl
    · exact hef.trans hf.symm
    · exact hec
  | unknown t extra =>
    rcases hkey with rfl | rfl
    · exact howned.1
    · exact howned.2
  | compound type fields extra =>
    cases type with
    | record | tuple => cases hown
    -- a variant owns nothing only when its cases were kept as written
    | variant =>
      have hkept : extra.find? "cases" ≠ none := by
        intro hec
        rw [own, ownMembers, hec, Option.isSome_none, Bool.and_false] at hown
        cases hown
      obtain ⟨hf, hef, ⟨-, -, hec⟩ | ⟨v, -, -, hec⟩ | ⟨v, reason, hc, -, -, hec⟩⟩ := howned
      · exact absurd hec hkept
      · exact absurd hec hkept
      · rcases hkey with rfl | rfl
        · exact hef.trans hf.symm
        · exact hec.trans hc.symm

/-- The members kept as written find nothing that the members read did not find. -/
theorem Reads.of_find?_extra (h : d.Reads members) {key : String} {v : Value}
    (hv : d.extra.find? key = some v) : members.find? key = some v := by
  have hpresent : ∀ {k}, d.extra.find? k = none ∨ d.extra.find? k = members.present? k →
      d.extra.find? k = some v → members.find? k = some v := by
    rintro k (hk | hk) hv
    · rw [hk] at hv
      cases hv
    · exact (Members.present?_eq_some_iff.mp (hk.symm.trans hv)).1
  -- what is found under a key that is read was put back from the members
  by_cases hown : key ∈ ownKeys
  · simp only [ownKeys, List.mem_cons, List.not_mem_nil, or_false] at hown
    rcases hown with rfl | rfl | rfl
    · exact hpresent (.inl h.type) hv
    · exact hpresent h.find?_fields hv
    · exact hpresent h.find?_cases hv
  · rw [← h.extra key hown, hv]

/-- Of well-formed members, those that are kept are well formed. -/
theorem Reads.wellFormed_extra (h : d.Reads members)
    (hw : (Value.object members).WellFormed) : (Value.object d.extra).WellFormed :=
  Json.Value.wellFormed_object_of_find? (h.nodup (Json.Value.wellFormed_object.mp hw).1)
    fun _ _ hv => hw.of_find? (h.of_find?_extra hv)

end Reads

/-- A list of fields that a descriptor owns was read of one of its members. -/
theorem Reads.exists_fieldsOfJson {members : Members} {type : Compound} {fields : List Field}
    {extra : Members} (h : (compound type fields extra).Reads members) :
    fields = [] ∨ ∃ key v, members.find? key = some v ∧ fieldsOfJson v = .ok fields := by
  have howned := h.owned
  cases type with
  | variant =>
    obtain ⟨-, -, ⟨-, hnil, -⟩ | ⟨v, hv, hf, -⟩ | ⟨v, reason, -, -, hnil, -⟩⟩ := howned
    · exact .inl hnil
    · exact .inr ⟨"cases", v, (Members.present?_eq_some_iff.mp hv).1, hf⟩
    · exact .inl hnil
  | record | tuple =>
    obtain ⟨-, -, -, ⟨-, hnil⟩ | ⟨v, hv, hf⟩⟩ := howned
    · exact .inl hnil
    · exact .inr ⟨"fields", v, (Members.present?_eq_some_iff.mp hv).1, hf⟩

/-- What is read of a well-formed value is well formed. -/
theorem wellFormed_of_ofJson {v : Value} (hw : v.WellFormed) {d : Descriptor}
    (h : ofJson v = .ok d) : d.WellFormed := by
  refine (readsAs_of_wellFormed (D := fun _ d => d.WellFormed)
    (L := fun _ fields => WellFormedFields fields) (F := fun _ f => f.typ.WellFormed)
    ?_ ?_ ?_ ?_ hw).descriptor d h
  · intro members d hw hread hfields
    have hd := reads_of_ofJson hread
    have hextra := hd.wellFormed_extra hw
    cases d with
    | compound type fields extra =>
      refine ⟨hextra, ?_⟩
      obtain rfl | ⟨key, v, hv, hf⟩ := hd.exists_fieldsOfJson
      · trivial
      · exact hfields key v hv fields hf
    | _ => exact hextra
  · intro items fields _ _ hf
    rw [wellFormedFields_iff]
    intro f hmem
    obtain ⟨_, -, hread⟩ := exists_rel_of_mem hf hmem
    exact hread
  · exact fun _ _ _ _ _ hd => hd
  · exact fun _ _ hd => hd

end Descriptor

end TypedCall
