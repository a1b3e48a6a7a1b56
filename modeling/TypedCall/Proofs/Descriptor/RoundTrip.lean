import TypedCall.Proofs.Descriptor.Format
import TypedCall.Proofs.Descriptor.Writing

/-!
# The round trip of descriptors

A descriptor can be built with members kept as written that its written form confuses with the
members it owns. `Descriptor.Canonical` rules these out, level by level. Canonical descriptors are
exactly those that are read back from their written form, and exactly those that are read of any
value at all (`canonical_exact`).

Descriptors are compared by `Descriptor.same`, which takes no notice of the order of members, so
the proof also needs that being canonical does not depend on it (`Canonical.of_same`).
-/

namespace TypedCall

open Json (Value Members)

namespace Descriptor

/-- The members kept as written are not taken for `fields` or `cases`. -/
def Unambiguous : Descriptor → Prop
  | scalar _ extra => extra.find? "fields" = none ∧ extra.find? "cases" = none
  | container _ extra => extra.find? "fields" = none ∧ extra.find? "cases" ≠ some .null
  | compound .variant fields extra => extra.find? "fields" = none ∧
      ∀ v, extra.find? "cases" = some v →
        fields = [] ∧ v ≠ .null ∧ ¬ ∃ listed, fieldsOfJson v = .ok listed
  | compound _ _ extra => extra.find? "fields" = none ∧ extra.find? "cases" = none
  | unknown tag extra => tag ∉ Tag.known ∧ extra.find? "fields" ≠ some .null ∧
      extra.find? "cases" ≠ some .null

mutual

/-- At no level are members kept as written taken for what the descriptor owns. -/
def Canonical : Descriptor → Prop
  | scalar type extra => extra.find? "type" = none ∧ (scalar type extra).Unambiguous
  | container type extra => extra.find? "type" = none ∧ (container type extra).Unambiguous
  | compound type fields extra => extra.find? "type" = none ∧
      (compound type fields extra).Unambiguous ∧ CanonicalFields fields
  | unknown tag extra => extra.find? "type" = none ∧ (unknown tag extra).Unambiguous

/-- Every named descriptor is canonical. -/
def CanonicalFields : List (Named Descriptor) → Prop
  | [] => True
  | ⟨_, typ⟩ :: rest => typ.Canonical ∧ CanonicalFields rest

end

theorem canonicalFields_iff {fields : List Field} :
    CanonicalFields fields ↔ ∀ f ∈ fields, f.typ.Canonical := by
  induction fields with
  | nil => simp [CanonicalFields]
  | cons f fs ih =>
    obtain ⟨name, typ⟩ := f
    simp [CanonicalFields, ih]

theorem Canonical.type {d : Descriptor} (h : d.Canonical) : d.extra.find? "type" = none := by
  cases d <;> exact h.1

theorem Canonical.unambiguous {d : Descriptor} (h : d.Canonical) : d.Unambiguous := by
  cases d with
  | compound => exact h.2.1
  | _ => exact h.2

/-! ## What is read is canonical -/

theorem present?_ne_null (members : Members) (key : String) :
    members.present? key ≠ some .null := fun h => (Members.present?_eq_some_iff.mp h).2 rfl

/-- A descriptor that was read is unambiguous. -/
theorem Reads.unambiguous {members : Members} {d : Descriptor} (h : d.Reads members) :
    d.Unambiguous := by
  have howned := h.owned
  cases d with
  | scalar s extra => exact howned.2.2
  | container c extra => exact ⟨howned.2.1, howned.2.2 ▸ present?_ne_null members "cases"⟩
  | unknown t extra =>
    exact ⟨Tag.ofString_eq_unknown_iff.mp h.kind, howned.1 ▸ present?_ne_null members "fields",
      howned.2 ▸ present?_ne_null members "cases"⟩
  | compound type fields extra =>
    cases type with
    | record | tuple => exact ⟨howned.2.1, howned.2.2.1⟩
    | variant =>
      obtain ⟨-, hef, hc⟩ := howned
      refine ⟨hef, fun v hv => ?_⟩
      obtain ⟨-, -, hec⟩ | ⟨w, -, -, hec⟩ | ⟨w, reason, hw, hr, hnil, hec⟩ := hc
      · rw [hec] at hv
        cases hv
      · rw [hec] at hv
        cases hv
      · obtain rfl := Option.some.inj (hec.symm.trans hv)
        refine ⟨hnil, (Members.present?_eq_some_iff.mp hw).2, fun ⟨listed, hl⟩ => ?_⟩
        rw [hr] at hl
        cases hl

/-- Whatever is read is canonical, at every level. -/
theorem canonical_of_ofJson {v : Value} (hw : v.WellFormed) {d : Descriptor}
    (h : ofJson v = .ok d) : d.Canonical := by
  refine (readsAs_of_wellFormed (D := fun _ d => d.Canonical)
    (L := fun _ fields => CanonicalFields fields) (F := fun _ f => f.typ.Canonical)
    ?_ ?_ ?_ ?_ hw).descriptor d h
  · intro members d hw hread hfields
    have hd := reads_of_ofJson hread
    cases d with
    | compound type fields extra =>
      refine ⟨hd.type, hd.unambiguous, ?_⟩
      obtain rfl | ⟨key, v, hv, hf⟩ := hd.exists_fieldsOfJson
      · trivial
      · exact hfields key v hv fields hf
    | _ => exact ⟨hd.type, hd.unambiguous⟩
  · intro items fields _ _ hf
    rw [canonicalFields_iff]
    intro f hmem
    obtain ⟨_, -, hread⟩ := exists_rel_of_mem hf hmem
    exact hread
  · exact fun _ _ _ _ _ hd => hd
  · exact fun _ _ hd => hd

/-! ## A canonical descriptor is read back -/

/-- Fields whose descriptors are read back as equal ones are read back as equal fields. -/
theorem exists_fieldsOfJson_fieldsToJson {fields : List Field}
    (h : ∀ f ∈ fields, ∃ e, ofJson f.typ.toJson = .ok e ∧ f.typ.same e = true) :
    ∃ read, fieldsOfJson (.array (fieldsToJson fields)) = .ok read ∧
      sameFields fields read = true := by
  simp only [fieldsOfJson_array, fieldsToJson_eq, List.forall₂_map_left_iff]
  induction fields with
  | nil => exact ⟨[], .nil, rfl⟩
  | cons f fs ih =>
    obtain ⟨e, he, hsame⟩ := h f List.mem_cons_self
    obtain ⟨read, hread, hfs⟩ := ih fun g hg => h g (List.mem_cons_of_mem _ hg)
    refine ⟨⟨f.name, e⟩ :: read, .cons ?_ hread, ?_⟩
    · refine (fieldOfJson_object (by simp)).mpr ⟨rfl, f.typ.toJson, rfl, he⟩
    · rw [sameFields, hsame, hfs, beq_self_eq_true]
      rfl

/-- A tag that owns nothing writes the members kept as written, and its text. -/
theorem find?_members_other {d : Descriptor} (hw : d.WellFormed) (hown : d.own = [])
    {key : String} (hkey : "type" ≠ key) : d.members.find? key = d.extra.find? key := by
  rw [find?_members hw.nodup_keys_extra, hown, Members.find?_nil, if_neg hkey, Option.or_none,
    Option.or_none]

/-- Under other keys, what is written is what was kept. -/
theorem find?_members_of_not_mem {d : Descriptor} (hw : d.WellFormed) {key : String}
    (hkey : key ∉ ownKeys) : d.members.find? key = d.extra.find? key := by
  have htype : "type" ≠ key := by
    rintro rfl
    exact hkey (by decide)
  rw [find?_members hw.nodup_keys_extra, find?_own_of_not_mem hkey, if_neg htype, Option.none_or,
    Option.or_none]

/-- The members kept as written come back when `fields` and `cases` are as they were. -/
theorem Keeps.same_extra {d : Descriptor} {extra : Members} (h : Keeps d.members extra)
    (hw : d.WellFormed) (htype : d.extra.find? "type" = none)
    (hfields : extra.find? "fields" = d.extra.find? "fields")
    (hcases : extra.find? "cases" = d.extra.find? "cases") :
    (Value.object d.extra).same (.object extra) = true := by
  refine Json.Value.same_object_of_find?_eq hw.extra (h.nodup d.nodup_keys_members) fun key => ?_
  by_cases hk : key ∈ ownKeys
  · simp only [ownKeys, List.mem_cons, List.not_mem_nil, or_false] at hk
    rcases hk with rfl | rfl | rfl
    · rw [h.type, htype]
    · exact hfields.symm
    · exact hcases.symm
  · rw [h.other key hk, find?_members_of_not_mem hw hk]

/-- A member that is kept is found where it is restored. -/
theorem find?_restore_present {extra members : Members} {key : String} {found : Option Value}
    (hf : members.find? key = found) (hnull : found ≠ some .null)
    (hnone : extra.find? key = none) :
    (extra.restore key (fieldMember key members)).find? key = found := by
  rw [find?_restore, if_pos rfl, hnone, Option.or_none, Members.present?, hf]
  split
  · next h => exact absurd rfl hnull
  · rfl

theorem find?_restore_other {extra members : Members} {key k : String} (hk : key ≠ k) :
    (extra.restore key (fieldMember key members)).find? k = extra.find? k := by
  rw [find?_restore, if_neg hk]

/-- A canonical scalar is read back. -/
theorem exists_ofJson_scalar {type : Scalar} {extra : Members}
    (hw : (scalar type extra).WellFormed) (hc : (scalar type extra).Canonical) :
    ∃ e, ofJson (scalar type extra).toJson = .ok e ∧ (scalar type extra).same e = true := by
  obtain ⟨htype, hef, hec⟩ := hc
  have hother : ∀ key, "type" ≠ key → (scalar type extra).members.find? key = extra.find? key :=
    fun _ h => find?_members_other hw rfl h
  refine ⟨.scalar type (remaining (scalar type extra).members), ?_, ?_⟩
  · rw [toJson_eq, ofJson_scalar (find?_members_type hw htype) (Tag.ofString_scalar type)]
    refine ⟨?_, ?_, rfl⟩
    · rw [Members.present?, hother "fields" (by decide), hef]
    · rw [Members.present?, hother "cases" (by decide), hec]
  · rw [same, beq_self_eq_true, Bool.true_and]
    exact (keeps_remaining _).same_extra hw htype
      ((find?_remaining_of_mem (by decide)).trans hef.symm)
      ((find?_remaining_of_mem (by decide)).trans hec.symm)

/-- A canonical container is read back. -/
theorem exists_ofJson_container {type : Container} {extra : Members}
    (hw : (container type extra).WellFormed) (hc : (container type extra).Canonical) :
    ∃ e, ofJson (container type extra).toJson = .ok e ∧
      (container type extra).same e = true := by
  obtain ⟨htype, hef, hec⟩ := hc
  let d := container type extra
  have hother : ∀ key, "type" ≠ key → d.members.find? key = extra.find? key := fun _ h =>
    find?_members_other hw rfl h
  have hnone : ∀ key ∈ ownKeys, (remaining d.members).find? key = none := fun _ =>
    find?_remaining_of_mem
  refine ⟨.container type ((remaining d.members).restore "cases"
    (fieldMember "cases" d.members)), ?_, ?_⟩
  · rw [toJson_eq, ofJson_container (find?_members_type hw htype) (Tag.ofString_container type)]
    refine ⟨?_, rfl⟩
    rw [Members.present?, hother "fields" (by decide), hef]
  · rw [same, beq_self_eq_true, Bool.true_and]
    refine ((keeps_remaining d.members).restore (.inr rfl) _).same_extra hw htype ?_ ?_
    · rw [find?_restore_other (by decide), hnone "fields" (by decide)]
      exact hef.symm
    · exact find?_restore_present (hother "cases" (by decide)) hec (hnone "cases" (by decide))

/-- A canonical descriptor with an unknown tag is read back. -/
theorem exists_ofJson_unknown {tag : String} {extra : Members}
    (hw : (unknown tag extra).WellFormed) (hc : (unknown tag extra).Canonical) :
    ∃ e, ofJson (unknown tag extra).toJson = .ok e ∧ (unknown tag extra).same e = true := by
  obtain ⟨htype, htag, hef, hec⟩ := hc
  let d := unknown tag extra
  have hother : ∀ key, "type" ≠ key → d.members.find? key = extra.find? key := fun _ h =>
    find?_members_other hw rfl h
  have hnone : ∀ key ∈ ownKeys, (remaining d.members).find? key = none := fun _ =>
    find?_remaining_of_mem
  let kept := (remaining d.members).restore "fields" (fieldMember "fields" d.members)
  refine ⟨.unknown tag (kept.restore "cases" (fieldMember "cases" d.members)), ?_, ?_⟩
  · rw [toJson_eq, ofJson_unknown (find?_members_type hw htype)
      (Tag.ofString_eq_unknown_iff.mpr htag)]
    rfl
  -- one key after the other is put back
  · have hkept : Keeps d.members kept := (keeps_remaining d.members).restore (.inl rfl) _
    rw [same, beq_self_eq_true, Bool.true_and]
    refine (hkept.restore (.inr rfl) _).same_extra hw htype ?_ ?_
    · rw [find?_restore_other (by decide)]
      exact find?_restore_present (hother "fields" (by decide)) hef (hnone "fields" (by decide))
    · refine find?_restore_present (hother "cases" (by decide)) hec ?_
      rw [find?_restore_other (by decide), hnone "cases" (by decide)]

section Compounds

variable {fields read : List Field} {extra : Members}

/-- Where nothing kept as written is taken for the owned list, that list is read back. -/
theorem same_compound {type : Compound} (hw : (compound type fields extra).WellFormed)
    (htype : extra.find? "type" = none) (hef : extra.find? "fields" = none)
    (hec : extra.find? "cases" = none) (hsame : sameFields fields read = true) :
    (compound type fields extra).same
      (.compound type read (remaining (compound type fields extra).members)) = true := by
  rw [same, beq_self_eq_true, hsame, Bool.true_and, Bool.true_and]
  exact (keeps_remaining _).same_extra hw htype
    ((find?_remaining_of_mem (by decide)).trans hef.symm)
    ((find?_remaining_of_mem (by decide)).trans hec.symm)

/-- A canonical record or tuple is read back, given that its fields are. -/
theorem exists_ofJson_product {type : Compound} (hv : type ≠ .variant)
    (hw : (compound type fields extra).WellFormed) (hc : (compound type fields extra).Canonical)
    (hread : fieldsOfJson (.array (fieldsToJson fields)) = .ok read)
    (hsame : sameFields fields read = true) :
    ∃ e, ofJson (compound type fields extra).toJson = .ok e ∧
      (compound type fields extra).same e = true := by
  obtain ⟨htype, hun, -⟩ := hc
  have hne : extra.keys.Nodup := hw.nodup_keys_extra
  have htag := find?_members_type hw htype
  have hkind : Tag.ofString (compound type fields extra).tag = .compound type :=
    Tag.ofString_compound type
  cases type with
  | variant => exact absurd rfl hv
  | record | tuple =>
    obtain ⟨hef, hec⟩ := hun
    refine ⟨_, ?_, same_compound hw htype hef hec hsame⟩
    rw [toJson_eq, ofJson_product htag hkind hv]
    refine ⟨?_, .inr ⟨.array (fieldsToJson fields), read, ?_, hread, rfl⟩⟩
    · rw [Members.present?, find?_members_compound hne, hec]
      rfl
    · rw [Members.present?, find?_members_compound hne, hef]
      rfl

/-- The cases of a variant are read back, whether they were read or kept as written. -/
theorem exists_ofJson_variant (hw : (compound .variant fields extra).WellFormed)
    (hc : (compound .variant fields extra).Canonical)
    (hread : fieldsOfJson (.array (fieldsToJson fields)) = .ok read)
    (hsame : sameFields fields read = true) :
    ∃ e, ofJson (compound .variant fields extra).toJson = .ok e ∧
      (compound .variant fields extra).same e = true := by
  obtain ⟨htype, ⟨hef, hcases⟩, -⟩ := hc
  let d := compound .variant fields extra
  have htag := find?_members_type (d := d) hw htype
  have hkind : Tag.ofString d.tag = .compound .variant := Tag.ofString_compound .variant
  have hmembers : ∀ key, d.members.find? key = (extra.find? key).or
      (if "cases" = key then some (.array (fieldsToJson fields))
        else if "type" = key then some (.string "Variant") else none) :=
    find?_members_compound hw.nodup_keys_extra
  have hnone : d.members.present? "fields" = none := by
    rw [Members.present?, hmembers "fields", hef]
    rfl
  cases hec : extra.find? "cases" with
  | none =>
    refine ⟨_, ?_, same_compound hw htype hef hec hsame⟩
    rw [toJson_eq, ofJson_variant htag hkind]
    refine ⟨hnone, .inr (.inl ⟨.array (fieldsToJson fields), read, ?_, hread, rfl⟩)⟩
    rw [Members.present?, hmembers "cases", hec]
    rfl
  -- cases kept as written hide the owned list, which is empty
  | some v =>
    obtain ⟨rfl, hnull, hnot⟩ := hcases v hec
    have hpresent : d.members.present? "cases" = some v := by
      rw [Members.present?_eq_some_iff, hmembers "cases", hec]
      exact ⟨rfl, hnull⟩
    cases hv : fieldsOfJson v with
    | ok listed => exact absurd ⟨listed, hv⟩ hnot
    | error reason =>
      refine ⟨.compound .variant [] ((remaining d.members).insert "cases" v), ?_, ?_⟩
      · rw [toJson_eq, ofJson_variant htag hkind]
        exact ⟨hnone, .inr (.inr ⟨v, reason, hpresent, hv, rfl⟩)⟩
      · rw [same, beq_self_eq_true, sameFields, Bool.true_and, Bool.true_and]
        refine ((keeps_remaining d.members).insert (.inr rfl) v).same_extra hw htype ?_ ?_
        · rw [Members.find?_insert, if_neg (by decide), find?_remaining_of_mem (by decide)]
          exact hef.symm
        · rw [Members.find?_insert, if_pos rfl]
          exact hec.symm

end Compounds

/-- A canonical descriptor is read back from its written form. -/
theorem exists_ofJson_toJson {d : Descriptor} (hw : d.WellFormed) (hc : d.Canonical) :
    ∃ e, ofJson d.toJson = .ok e ∧ d.same e = true := by
  induction d using induction with
  | scalar type extra => exact exists_ofJson_scalar hw hc
  | container type extra => exact exists_ofJson_container hw hc
  | unknown tag extra => exact exists_ofJson_unknown hw hc
  | compound type fields extra ih =>
    obtain ⟨read, hread, hsame⟩ := exists_fieldsOfJson_fieldsToJson fun f hf =>
      ih f hf (wellFormedFields_iff.mp hw.2 f hf) (canonicalFields_iff.mp hc.2.2 f hf)
    by_cases hv : type = .variant
    · subst hv
      exact exists_ofJson_variant hw hc hread hsame
    · exact exists_ofJson_product hv hw hc hread hsame

/-! ## The order of members does not matter -/

theorem sameFields_iff {as bs : List Field} :
    sameFields as bs = true ↔
      List.Forall₂ (fun a b => a.name = b.name ∧ a.typ.same b.typ = true) as bs := by
  induction as generalizing bs with
  | nil => cases bs <;> simp [sameFields]
  | cons a as ih =>
    obtain ⟨m, a⟩ := a
    cases bs with
    | nil => simp [sameFields]
    | cons b bs =>
      obtain ⟨n, b⟩ := b
      simp [sameFields, ih]

section Kept

variable {as bs : Members} {key : String}

/-- What is found in members that are the same. -/
theorem exists_find?_of_same (hn : as.keys.Nodup) (h : (Value.object as).same (.object bs) = true)
    {v : Value} (hv : as.find? key = some v) : ∃ w, bs.find? key = some w ∧ v.same w = true := by
  have hkey := Json.Value.find?_of_same_object hn h key
  rw [hv] at hkey
  generalize bs.find? key = found at hkey
  cases hkey with
  | some hvw => exact ⟨_, rfl, hvw⟩

theorem find?_none_of_same (hn : as.keys.Nodup) (h : (Value.object as).same (.object bs) = true)
    (hb : bs.find? key = none) : as.find? key = none := by
  cases hv : as.find? key with
  | none => rfl
  | some v =>
    obtain ⟨w, hw, -⟩ := exists_find?_of_same hn h hv
    rw [hb] at hw
    cases hw

theorem find?_ne_null_of_same (hn : as.keys.Nodup)
    (h : (Value.object as).same (.object bs) = true) (hb : bs.find? key ≠ some .null) :
    as.find? key ≠ some .null := by
  intro hnull
  obtain ⟨w, hw, hvw⟩ := exists_find?_of_same hn h hnull
  exact hb (by rw [hw, (Json.Value.same_null_iff hvw).mp rfl])

end Kept

section Same

variable {d e : Descriptor}

/-- Equal descriptors keep equal members as written. -/
theorem same_extra_of_same (h : d.same e = true) :
    (Value.object d.extra).same (.object e.extra) = true := by
  cases d <;> cases e <;> simp_all [same, extra]

/-- A value that is the same is as little a list of fields. -/
theorem not_fields_of_same {v w : Value} (hv : v.WellFormed) (hw : w.WellFormed)
    (h : v.same w = true) (hn : ¬ ∃ listed, fieldsOfJson w = .ok listed) :
    ¬ ∃ listed, fieldsOfJson v = .ok listed := by
  intro hl
  rw [(accepted_of_wellFormed hv).fields, (Json.Value.sameFormat_of_same hv hw h).fields] at hl
  exact hn ((accepted_of_wellFormed hw).fields.mpr hl)

/-- A descriptor that equals an unambiguous one is unambiguous. -/
theorem Unambiguous.of_same (hd : d.WellFormed) (he : e.WellFormed) (h : d.same e = true)
    (hun : e.Unambiguous) : d.Unambiguous := by
  have hn : d.extra.keys.Nodup := hd.nodup_keys_extra
  have hextra := same_extra_of_same h
  have hnone : ∀ key, e.extra.find? key = none → d.extra.find? key = none := fun _ =>
    find?_none_of_same hn hextra
  cases d with
  | scalar =>
    cases e with
    | scalar => exact ⟨hnone _ hun.1, hnone _ hun.2⟩
    | _ => simp [same] at h
  | container =>
    cases e with
    | container => exact ⟨hnone _ hun.1, find?_ne_null_of_same hn hextra hun.2⟩
    | _ => simp [same] at h
  | unknown =>
    cases e with
    | unknown =>
      rw [same, Bool.and_eq_true, beq_iff_eq] at h
      obtain ⟨rfl, -⟩ := h
      obtain ⟨htag, hf, hc⟩ := hun
      exact ⟨htag, find?_ne_null_of_same hn hextra hf, find?_ne_null_of_same hn hextra hc⟩
    | _ => simp [same] at h
  | compound type fields extra =>
    cases e with
    | compound type' fields' extra' =>
      rw [same, Bool.and_eq_true, Bool.and_eq_true, beq_iff_eq, sameFields_iff] at h
      obtain ⟨⟨rfl, hfs⟩, -⟩ := h
      cases type with
      | record | tuple => exact ⟨hnone _ hun.1, hnone _ hun.2⟩
      | variant =>
        refine ⟨hnone _ hun.1, fun v hv => ?_⟩
        obtain ⟨w, hw, hvw⟩ := exists_find?_of_same hn hextra hv
        obtain ⟨rfl, hnull, hnot⟩ := hun.2 w hw
        exact ⟨List.forall₂_nil_right_iff.mp hfs,
          fun hv => hnull ((Json.Value.same_null_iff hvw).mp hv),
          not_fields_of_same (hd.extra.of_find? hv) (he.extra.of_find? hw) hvw hnot⟩
    | _ => simp [same] at h

/-- A descriptor that equals a canonical one is canonical. -/
theorem Canonical.of_same (hd : d.WellFormed) (he : e.WellFormed) (h : d.same e = true)
    (hc : e.Canonical) : d.Canonical := by
  induction d using induction generalizing e with
  | scalar | container | unknown =>
    exact ⟨find?_none_of_same hd.nodup_keys_extra (same_extra_of_same h) hc.type,
      hc.unambiguous.of_same hd he h⟩
  | compound type fields extra ih =>
    refine ⟨find?_none_of_same hd.nodup_keys_extra (same_extra_of_same h) hc.type,
      hc.unambiguous.of_same hd he h, canonicalFields_iff.mpr fun f hmem => ?_⟩
    cases e with
    | compound type' fields' extra' =>
      rw [same, Bool.and_eq_true, Bool.and_eq_true, sameFields_iff] at h
      obtain ⟨⟨-, hfs⟩, -⟩ := h
      obtain ⟨i, hi, rfl⟩ := List.getElem_of_mem hmem
      have hi' : i < fields'.length := by
        rw [← hfs.length_eq]
        exact hi
      exact ih _ hmem (wellFormedFields_iff.mp hd.2 _ hmem)
        (wellFormedFields_iff.mp he.2 _ (List.getElem_mem hi')) (hfs.get hi hi').2
        (canonicalFields_iff.mp hc.2.2 _ (List.getElem_mem hi'))
    | _ => simp [same] at h

end Same

/-! ## The boundary -/

/-- **The round trip of descriptors.** A descriptor is read back from its written form exactly when
it is canonical. Every descriptor that is read is canonical, and canonical descriptors are all
that can be read. -/
theorem canonical_exact {d : Descriptor} (hd : d.WellFormed) :
    ((∃ e, ofJson d.toJson = .ok e ∧ d.same e = true) ↔ d.Canonical) ∧
      ((∃ v e, v.WellFormed ∧ ofJson v = .ok e ∧ d.same e = true) ↔ d.Canonical) ∧
      ∀ v e, v.WellFormed → ofJson v = .ok e → e.WellFormed ∧ e.Canonical := by
  have hread : ∀ v e, v.WellFormed → ofJson v = .ok e → d.same e = true → d.Canonical :=
    fun v e hv he hsame =>
      (canonical_of_ofJson hv he).of_same hd (wellFormed_of_ofJson hv he) hsame
  refine ⟨⟨?_, exists_ofJson_toJson hd⟩, ⟨?_, fun hc => ?_⟩, fun v e hv he => ?_⟩
  · rintro ⟨e, he, hsame⟩
    exact hread _ e (wellFormed_toJson hd) he hsame
  · rintro ⟨v, e, hv, he, hsame⟩
    exact hread v e hv he hsame
  · obtain ⟨e, he, hsame⟩ := exists_ofJson_toJson hd hc
    exact ⟨d.toJson, e, wellFormed_toJson hd, he, hsame⟩
  · exact ⟨wellFormed_of_ofJson hv he, canonical_of_ofJson hv he⟩

/-- A variant whose cases were kept as written is read back, and one that keeps a list of fields
as its cases is not. -/
theorem canonical_exact_variant :
    let keeping (cases : Value) : Descriptor := .compound .variant [] [("cases", cases)]
    (∃ e, ofJson (keeping (.bool true)).toJson = .ok e ∧
      (keeping (.bool true)).same e = true) ∧
    ¬ ∃ e, ofJson (keeping (.array [])).toJson = .ok e ∧ (keeping (.array [])).same e = true := by
  intro keeping
  have hw : ∀ cases : Value, cases.WellFormed → (keeping cases).WellFormed := fun cases h => by
    simp [keeping, WellFormed, WellFormedFields, Value.WellFormed, Json.Value.WellFormedMembers,
      Members.keys, h]
  constructor
  · refine (canonical_exact (hw (.bool true) trivial)).1.mpr ⟨rfl, ⟨rfl, fun v hv => ?_⟩, trivial⟩
    obtain rfl := Option.some.inj hv
    exact ⟨rfl, by simp, by simp [fieldsOfJson]⟩
  · rw [(canonical_exact (hw _ (by simp [Value.WellFormed, Json.Value.WellFormedItems]))).1]
    rintro ⟨-, ⟨-, hcases⟩, -⟩
    exact (hcases (.array []) rfl).2.2 ⟨[], rfl⟩

end Descriptor

end TypedCall
