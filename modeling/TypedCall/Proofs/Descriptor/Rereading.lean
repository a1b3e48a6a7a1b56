import TypedCall.Proofs.Descriptor.RoundTrip

/-!
# Reading again what was read

`Descriptor.canonical_exact` compares a descriptor that is written and read again with the first
one up to the order of the members kept as written. A descriptor that was read keeps even that
order: `fields` and `cases` stand where reading puts them, behind all other members
(`remaining_members`), so what was read is read back exactly (`readsAs_toJson`).
-/

namespace TypedCall

open Json (Value Members)

namespace Descriptor

variable {members : Members} {d : Descriptor}

/-! ## The members that are kept -/

/-- What is put back is not among the remaining members. -/
theorem remaining_restore {extra : Members} {key : String} (hkey : key ∈ ownKeys)
    (found : Option FieldMember) : remaining (extra.restore key found) = remaining extra := by
  cases found with
  | none => rfl
  | some vf => exact Members.without_insert_of_mem hkey

theorem remaining_remaining (members : Members) :
    remaining (remaining members) = remaining members := Members.without_without

theorem remaining_own (d : Descriptor) : remaining d.own = [] := by
  cases d with
  | compound type fields extra =>
    cases type with
    | record | tuple => rfl
    | variant =>
      rw [own, ownMembers]
      split <;> rfl
  | _ => rfl

/-- A written descriptor holds, behind what is its own, the members kept as written. -/
theorem remaining_members (hn : d.extra.keys.Nodup) :
    remaining d.members = remaining d.extra := by
  have hentries : remaining d.entries = remaining d.extra := by
    rw [entries_eq, remaining, Members.without_cons, if_pos (by decide), Members.without_append,
      ← remaining, remaining_own, List.nil_append, ← remaining]
  rw [members, remaining, Members.without_insertAll, ← remaining, ← remaining, hentries]
  exact Members.insertAll_eq_append (Members.nodup_keys_without hn)

/-- Of members and of the descriptor read of them the same remains. -/
theorem remaining_extra (h : ofJson (.object members) = .ok d) :
    remaining d.extra = remaining members := by
  obtain ⟨tag, ht⟩ := exists_tag_of_ofJson h
  cases hk : Tag.ofString tag with
  | scalar s =>
    obtain ⟨-, -, rfl⟩ := (ofJson_scalar ht hk).mp h
    exact remaining_remaining members
  | container c =>
    obtain ⟨-, rfl⟩ := (ofJson_container ht hk).mp h
    exact (remaining_restore (by decide) _).trans (remaining_remaining members)
  | unknown t =>
    obtain rfl := Tag.eq_of_ofString_eq_unknown hk
    obtain rfl := (ofJson_unknown ht hk).mp h
    exact (remaining_restore (by decide) _).trans
      ((remaining_restore (by decide) _).trans (remaining_remaining members))
  | compound c =>
    by_cases hc : c = .variant
    · subst hc
      obtain ⟨-, ⟨-, rfl⟩ | ⟨v, fields, -, -, rfl⟩ | ⟨v, reason, -, -, rfl⟩⟩ :=
        (ofJson_variant ht hk).mp h
      · exact remaining_remaining members
      · exact remaining_remaining members
      · exact (Members.without_insert_of_mem (by decide)).trans (remaining_remaining members)
    · obtain ⟨-, ⟨-, rfl⟩ | ⟨v, fields, -, -, rfl⟩⟩ := (ofJson_product ht hk hc).mp h
      · exact remaining_remaining members
      · exact remaining_remaining members

/-- A member that may be owned, but is not, is written as it is present. -/
theorem present?_members {key : String} (hn : d.extra.keys.Nodup) (hown : d.own.find? key = none)
    (hkey : "type" ≠ key) (hextra : d.extra.find? key = members.present? key) :
    d.members.present? key = members.present? key := by
  have hfind : d.members.find? key = members.present? key := by
    rw [find?_members hn, hown, hextra, if_neg hkey, Option.or_none, Option.or_none]
  rw [Members.present?, hfind]
  split
  · next h => exact absurd h (present?_ne_null members key)
  · rfl

/-! ## Descriptors -/

/-- The written form is read as the members were, where `fields` and `cases` are as they were. -/
theorem ofJson_members (hn : members.keys.Nodup) (h : ofJson (.object members) = .ok d)
    (hfields : d.members.present? "fields" = members.present? "fields")
    (hcases : d.members.present? "cases" = members.present? "cases") : ofJson d.toJson = .ok d := by
  have hd := reads_of_ofJson h
  have htag : d.members.find? "type" = some (.string d.tag) := by
    rw [find?_members (hd.nodup hn), hd.type, find?_own_type, if_pos rfl, Option.none_or,
      Option.none_or]
  rw [← h, toJson_eq, ofJson_of_tag htag, ofJson_of_tag hd.tag, hfields, hcases,
    remaining_members (hd.nodup hn), remaining_extra h]

/-- A descriptor that owns no list is written as it was read. -/
theorem ofJson_toJson_of_own_eq_nil (hn : members.keys.Nodup)
    (h : ofJson (.object members) = .ok d) (hown : d.own = []) : ofJson d.toJson = .ok d := by
  have hd := reads_of_ofJson h
  have hnone : ∀ key, d.own.find? key = none := fun key => by rw [hown, Members.find?_nil]
  have hpresent : ∀ key, key = "fields" ∨ key = "cases" → "type" ≠ key →
      d.members.present? key = members.present? key := fun key hkey htype =>
    present?_members (hd.nodup hn) (hnone key) htype (hd.find?_of_own_eq_nil hown hkey)
  exact ofJson_members hn h (hpresent "fields" (.inl rfl) (by decide))
    (hpresent "cases" (.inr rfl) (by decide))

section Compounds

variable {type : Compound} {fields : List Field} {extra : Members}

/-- The list that a compound owns is written where no member kept as written hides it. -/
theorem present?_members_ownKey (hn : extra.keys.Nodup) (hextra : extra.find? type.ownKey = none) :
    (compound type fields extra).members.present? type.ownKey =
      some (.array (fieldsToJson fields)) := by
  rw [Members.present?, find?_members_compound hn, hextra, if_pos rfl]
  rfl

/-- What a compound does not own is not there. -/
theorem present?_members_other {key : String} (hn : extra.keys.Nodup)
    (hextra : extra.find? key = none) (hkey : "type" ≠ key) (hown : type.ownKey ≠ key) :
    (compound type fields extra).members.present? key = none := by
  rw [Members.present?, find?_members_compound hn, hextra, if_neg hown, if_neg hkey]
  rfl

/-- A compound that keeps no `fields` and no `cases` as written is read back with its list. -/
theorem ofJson_toJson_of_listed (hw : (compound type fields extra).WellFormed)
    (htype : extra.find? "type" = none) (hef : extra.find? "fields" = none)
    (hec : extra.find? "cases" = none)
    (hread : fieldsOfJson (.array (fieldsToJson fields)) = .ok fields) :
    ofJson (compound type fields extra).toJson = .ok (compound type fields extra) := by
  have hn := hw.nodup_keys_extra
  have htag := find?_members_type hw htype
  have hkind : Tag.ofString type.tag = .compound type := Tag.ofString_compound type
  have hextra : remaining (compound type fields extra).members = extra := by
    rw [remaining_members hn]
    refine Members.without_eq_self fun key hkey => ?_
    simp only [ownKeys, List.mem_cons, List.not_mem_nil, or_false] at hkey
    rcases hkey with rfl | rfl | rfl <;> assumption
  cases type with
  | record | tuple =>
    rw [toJson_eq, ofJson_product htag hkind (by decide), hextra]
    exact ⟨present?_members_other hn hec (by decide) (by decide),
      .inr ⟨_, fields, present?_members_ownKey hn hef, hread, rfl⟩⟩
  | variant =>
    rw [toJson_eq, ofJson_variant htag hkind, hextra]
    exact ⟨present?_members_other hn hef (by decide) (by decide),
      .inr (.inl ⟨_, fields, present?_members_ownKey hn hec, hread, rfl⟩)⟩

/-- A compound descriptor that was read is read again from its written form, given that its fields
are. -/
theorem ofJson_toJson_compound (hw : (Value.object members).WellFormed)
    (h : ofJson (.object members) = .ok (compound type fields extra))
    (hread : fieldsOfJson (.array (fieldsToJson fields)) = .ok fields) :
    ofJson (compound type fields extra).toJson = .ok (compound type fields extra) := by
  have hd := reads_of_ofJson h
  have hwd := wellFormed_of_ofJson hw h
  have howned := hd.owned
  cases type with
  | record | tuple =>
    obtain ⟨-, hef, hec, -⟩ := howned
    exact ofJson_toJson_of_listed hwd hd.type hef hec hread
  | variant =>
    obtain ⟨-, hef, ⟨-, -, hec⟩ | ⟨v, -, -, hec⟩ | ⟨v, reason, -, -, rfl, hec⟩⟩ := howned
    · exact ofJson_toJson_of_listed hwd hd.type hef hec hread
    · exact ofJson_toJson_of_listed hwd hd.type hef hec hread
    -- cases kept as written take the place of the list
    · have hown : (compound .variant [] extra).own = [] := by
        rw [own, ownMembers, hec]
        rfl
      exact ofJson_toJson_of_own_eq_nil (Json.Value.wellFormed_object.mp hw).1 h hown

end Compounds

/-- A descriptor read of members is read back exactly, if the list it owns is. -/
theorem ofJson_toJson_of_ofJson_object (hw : (Value.object members).WellFormed)
    (h : ofJson (.object members) = .ok d)
    (hread : ∀ fields, d.fields? = some fields →
      fieldsOfJson (.array (fieldsToJson fields)) = .ok fields) : ofJson d.toJson = .ok d := by
  have hn := (Json.Value.wellFormed_object.mp hw).1
  cases d with
  | scalar | container | unknown => exact ofJson_toJson_of_own_eq_nil hn h rfl
  | compound type fields extra => exact ofJson_toJson_compound hw h (hread fields rfl)

/-- Everything that is read is read back exactly from its written form. -/
theorem readsAs_toJson {v : Value} (hw : v.WellFormed) :
    ReadsAs (fun _ d => ofJson d.toJson = .ok d)
      (fun _ fields => fieldsOfJson (.array (fieldsToJson fields)) = .ok fields)
      (fun _ f => fieldOfJson (f.writtenBy toJson) = .ok f) v := by
  have hfield : ∀ f : Field, ofJson f.typ.toJson = .ok f.typ →
      fieldOfJson (f.writtenBy toJson) = .ok f := fun f hd =>
    (fieldOfJson_object (by simp)).mpr ⟨rfl, f.typ.toJson, rfl, hd⟩
  refine readsAs_of_wellFormed ?_ ?_ ?_ ?_ hw
  · intro members d hw h hfields
    refine ofJson_toJson_of_ofJson_object hw h fun fields hlist => ?_
    cases d with
    | compound type fs extra =>
      obtain rfl := Option.some.inj hlist
      obtain rfl | ⟨key, v, hv, hf⟩ := (reads_of_ofJson h).exists_fieldsOfJson
      · rfl
      · exact hfields key v hv fs hf
    | _ => cases hlist
  · intro items fields _ _ hitems
    rw [fieldsOfJson_array, fieldsToJson_eq, List.forall₂_map_left_iff, List.forall₂_same]
    intro f hf
    obtain ⟨_, -, hread⟩ := exists_rel_of_mem hitems hf
    exact hread
  · exact fun _ f _ _ _ hd => hfield f hd
  · exact fun _ f hd => hfield f hd

end Descriptor

end TypedCall
