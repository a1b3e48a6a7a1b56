import TypedCall.Proofs.Descriptor.Format
import TypedCall.Proofs.Descriptor.Writing

/-!
# What a descriptor echoes

`Value.echo` is what comes back when the descriptor that a value writes is read and written again:
null `fields` and `cases` are gone, the list that a compound tag owns is there even when it was
absent, its entries are plain objects with a name and a descriptor, and everything else is as it
was. `ofJson_format` proves this of every value that repeats no key, together with the format of
the values that are read at all.
-/

namespace TypedCall

open Json (Value Members)

namespace Json.Value

/-! ## What is written again -/

mutual

/-- The value that the descriptor of a value writes, up to the order of members. -/
def echo : Value → Value
  | .object members =>
    match Members.tag? members with
    | some (.compound type) =>
      .object (echoMembers (some type.ownKey) members ++
        if (Members.present? members type.ownKey).isNone then [(type.ownKey, .array [])] else [])
    | _ => .object (echoMembers none members)
  | v => v

/-- The members without null `fields` and `cases`, and with the entries of the owned list echoed. -/
def echoMembers (own : Option String) : List (String × Value) → Members
  | [] => []
  | (k, v) :: rest =>
    if v.isNull && (k == "fields" || k == "cases") then echoMembers own rest
    else (k, if own = some k then v.echoFields else v) :: echoMembers own rest

/-- A list of fields with its entries echoed. Any other value is kept as written. -/
def echoFields : Value → Value
  | .array items => .array (if areFieldItems items then echoItems items else items)
  | v => v

/-- The entries echoed one by one. -/
def echoItems : List Value → List Value
  | [] => []
  | v :: vs => v.echoField :: echoItems vs

/-- A field as an object with its name and its descriptor and nothing else. -/
def echoField : Value → Value
  | .object members =>
    .object [("name", (Members.find? members "name").getD .null), ("typ", echoTyp members)]
  | .array [name, typ] => .object [("name", name), ("typ", typ.echo)]
  | v => v

/-- The member `typ` echoed. -/
def echoTyp : List (String × Value) → Value
  | [] => .null
  | (k, v) :: rest => if k = "typ" then v.echo else echoTyp rest

end

/-! ## Through what members find -/

variable {members : Members} {key : String}

theorem echoItems_eq (items : List Value) : echoItems items = items.map echoField := by
  induction items with
  | nil => rfl
  | cons v vs ih => rw [echoItems, ih, List.map_cons]

theorem echoTyp_eq : echoTyp members = ((members.find? "typ").map echo).getD .null := by
  induction members with
  | nil => rfl
  | cons m ms ih =>
    obtain ⟨k, v⟩ := m
    rw [echoTyp, Members.find?_cons]
    by_cases h : k = "typ"
    · rw [if_pos h, if_pos h, Option.map_some, Option.getD_some]
    · rw [if_neg h, if_neg h, ih]

/-- The echoed members have lost null `fields` and `cases`, and the list that the tag owns is
echoed. -/
theorem find?_echoMembers {own : Option String} (hn : members.keys.Nodup) :
    (echoMembers own members).find? key =
      (if key = "fields" ∨ key = "cases" then members.present? key else members.find? key).map
        fun v => if own = some key then v.echoFields else v := by
  induction members with
  | nil => simp [echoMembers, Members.present?]
  | cons m ms ih =>
    obtain ⟨k, v⟩ := m
    obtain ⟨hk, hms⟩ := List.nodup_cons.mp hn
    rw [Members.find?_cons, Members.present?_cons, echoMembers]
    by_cases hkey : k = key
    · subst hkey
      have hrest : Members.find? ms k = none := Members.find?_eq_none_iff.mpr hk
      rw [if_pos rfl, if_pos rfl]
      by_cases hown : k = "fields" ∨ k = "cases"
      · have hown' : (k == "fields" || k == "cases") = true := by simpa using hown
        rw [if_pos hown] at ih ⊢
        rw [hown', Bool.and_true]
        cases v with
        | null => simp [isNull, ih hms, Members.present?, hrest]
        | _ => simp [isNull, Members.find?_cons]
      · have hown' : (k == "fields" || k == "cases") = false := by simpa using hown
        rw [if_neg hown, hown', Bool.and_false]
        simp [Members.find?_cons]
    · rw [if_neg hkey, if_neg hkey, ← ih hms]
      split
      · rfl
      · rw [Members.find?_cons, if_neg hkey]

/-- Echoing members adds no key and leaves the others in place. -/
theorem keys_echoMembers_sublist {own : Option String} :
    ((echoMembers own members).keys).Sublist members.keys := by
  induction members with
  | nil => exact .refl _
  | cons m ms ih =>
    obtain ⟨k, v⟩ := m
    rw [echoMembers]
    split
    · exact ih.cons k
    · exact ih.cons_cons k

/-- The members of the echo. -/
def echoed (members : Members) : Members :=
  match members.tag? with
  | some (.compound type) => echoMembers (some type.ownKey) members ++
      if (members.present? type.ownKey).isNone then [(type.ownKey, .array [])] else []
  | _ => echoMembers none members

/-- The echo of an object is the object of the echoed members. -/
theorem echo_object : (Value.object members).echo = .object (echoed members) := by
  rw [echo, echoed]
  split <;> rfl

/-- Under a compound tag null `fields` and `cases` are gone, and the owned list is there, empty if
it was not. -/
theorem find?_echoed_compound {type : Compound} (hn : members.keys.Nodup)
    (hk : members.tag? = some (.compound type)) :
    (echoed members).find? key =
      ((if key = "fields" ∨ key = "cases" then members.present? key else members.find? key).map
        fun v => if type.ownKey = key then v.echoFields else v).or
        (if type.ownKey = key then some (.array []) else none) := by
  have hown : type.ownKey = "fields" ∨ type.ownKey = "cases" := by
    cases type <;> simp [Compound.ownKey]
  rw [echoed, hk]
  simp only
  rw [Members.find?_append, find?_echoMembers hn]
  simp only [Option.some.injEq]
  by_cases hkey : type.ownKey = key
  · subst hkey
    rw [if_pos hown, if_pos rfl]
    cases hp : members.present? type.ownKey <;> simp [Members.find?_cons]
  · have hnone : ∀ b : Bool, Members.find?
        (if b = true then [(type.ownKey, Value.array [])] else []) key = none := by
      intro b
      cases b <;> simp [Members.find?_cons, hkey]
    rw [hnone, if_neg hkey]

/-- Under any other tag, only null `fields` and `cases` are gone. -/
theorem find?_echoed_other (hn : members.keys.Nodup)
    (hk : ∀ type, members.tag? ≠ some (.compound type)) :
    (echoed members).find? key =
      if key = "fields" ∨ key = "cases" then members.present? key else members.find? key := by
  have heq : echoed members = echoMembers none members := by
    rw [echoed]
    split
    · next type h => exact absurd h (hk type)
    · rfl
  rw [heq, find?_echoMembers hn]
  simp

/-- The echo repeats no key. -/
theorem nodup_keys_echoed (hn : members.keys.Nodup) : (echoed members).keys.Nodup := by
  have hsub : ∀ own, (echoMembers own members).keys.Nodup := fun own =>
    hn.sublist keys_echoMembers_sublist
  rw [echoed]
  split
  · next type hk =>
    by_cases hp : (members.present? type.ownKey).isNone
    · have hown : type.ownKey = "fields" ∨ type.ownKey = "cases" := by
        cases type <;> simp [Compound.ownKey]
      have hmem : type.ownKey ∉ (echoMembers (some type.ownKey) members).keys := by
        rw [← Members.find?_eq_none_iff, find?_echoMembers hn, if_pos hown,
          Option.isNone_iff_eq_none.mp hp, Option.map_none]
      rw [if_pos hp, Members.keys, List.map_append]
      exact Members.nodup_keys_concat (hsub _) hmem
    · rw [if_neg hp, List.append_nil]
      exact hsub _
  · exact hsub _

end Json.Value

/-! ## What is read and written again -/

namespace Descriptor

open Json.Value

/-- A list that cannot be read has an entry that is not a field, and is kept as written. -/
theorem echoFields_of_error {v : Value} (hw : v.WellFormed) {reason : Mismatch}
    (h : fieldsOfJson v = .error reason) : v.echoFields = v := by
  cases v with
  | array items =>
    have hitems : ¬ areFieldItems items = true := by
      rw [show areFieldItems items = (Value.array items).areFields from rfl,
        ← (accepted_of_wellFormed hw).fields, h]
      simp
    rw [echoFields, if_neg hitems]
  | _ => rfl

theorem rel_reordered_refl {found : Option Value} (h : ∀ v, found = some v → v.WellFormed) :
    Option.Rel Reordered found found := by
  cases found with
  | none => exact .none
  | some v => exact .some (reordered_refl (h v rfl))

theorem reordered_pair {name : String} {v w : Value} (h : v.Reordered w) :
    (Value.object [("name", .string name), ("typ", v)]).Reordered
      (.object [("name", .string name), ("typ", w)]) := by
  refine reordered_object (by simp) (by simp) fun key => ?_
  simp only [Members.find?_cons]
  split
  · exact .some rfl
  · split
    · exact .some h
    · exact .none

/-- An object is echoed when the members that the tag may own are. -/
theorem reordered_echo_object {members : Members} {d : Descriptor}
    (hw : (Value.object members).WellFormed) (hd : d.Reads members)
    (hown : ∀ key, key = "fields" ∨ key = "cases" →
      Option.Rel Reordered ((echoed members).find? key) (d.members.find? key)) :
    (Value.object members).echo.Reordered d.toJson := by
  have hn := (wellFormed_object.mp hw).1
  rw [echo_object, toJson_eq]
  refine reordered_object (nodup_keys_echoed hn) d.nodup_keys_members fun key => ?_
  by_cases hkey : key = "fields" ∨ key = "cases"
  · exact hown key hkey
  -- under any other key both find what the members find
  · have hne : "fields" ≠ key ∧ "cases" ≠ key :=
      ⟨fun h => hkey (.inl h.symm), fun h => hkey (.inr h.symm)⟩
    have hecho : (echoed members).find? key = members.find? key := by
      by_cases hc : ∃ type, members.tag? = some (.compound type)
      · obtain ⟨type, hc⟩ := hc
        have hown : type.ownKey ≠ key := by cases type <;> simp [Compound.ownKey, hne]
        rw [find?_echoed_compound hn hc, if_neg hkey, if_neg hown, Option.or_none]
        simp [hown]
      · rw [find?_echoed_other hn (fun type h => hc ⟨type, h⟩), if_neg hkey]
    have hwritten : d.members.find? key = members.find? key := by
      rw [find?_members (hd.nodup hn)]
      by_cases htype : "type" = key
      · subst htype
        rw [find?_own_type, hd.type, hd.tag, if_pos rfl, Option.none_or, Option.none_or]
      · have hother : key ∉ ownKeys := by
          simp [ownKeys, Ne.symm htype, Ne.symm hne.1, Ne.symm hne.2]
        rw [find?_own_of_not_mem hother, hd.extra key hother, if_neg htype, Option.or_none,
          Option.or_none]
    rw [hecho, hwritten]
    exact rel_reordered_refl fun v hv => hw.of_find? hv

/-- The members that a descriptor was read of announce its kind. -/
theorem Reads.tag?_eq {members : Members} {d : Descriptor} (hd : d.Reads members) :
    members.tag? = some d.kind := by
  rw [Members.tag?_of_find? hd.tag, hd.kind]

/-- A tag that owns no list keeps `fields` and `cases` as they are present. -/
theorem rel_echoed_other {members : Members} {d : Descriptor}
    (hw : (Value.object members).WellFormed) (hd : d.Reads members)
    (hk : ∀ type, d.kind ≠ .compound type) (hown : d.own = []) {key : String}
    (hkey : key = "fields" ∨ key = "cases") :
    Option.Rel Reordered ((echoed members).find? key) (d.members.find? key) := by
  have hn := (wellFormed_object.mp hw).1
  have htype : "type" ≠ key := by
    rcases hkey with rfl | rfl <;> decide
  rw [find?_echoed_other hn (fun type h => hk type (Option.some.inj (hd.tag?_eq.symm.trans h))),
    if_pos hkey, find?_members (hd.nodup hn), hown, Members.find?_nil, if_neg htype,
    hd.find?_of_own_eq_nil hown hkey, Option.or_none, Option.or_none]
  exact rel_reordered_refl fun v hv => hw.of_find? (Members.present?_eq_some_iff.mp hv).1

/-- A compound tag keeps the other one of `fields` and `cases` as it is present, and its own list
as what was read of it. -/
theorem rel_echoed_compound {members : Members} {type : Compound} {fields : List Field}
    {extra : Members} (hw : (Value.object members).WellFormed)
    (hd : (compound type fields extra).Reads members)
    (hfields : ∀ key v, members.find? key = some v → ∀ fields, fieldsOfJson v = .ok fields →
      v.echoFields.Reordered (.array (fieldsToJson fields)))
    {key : String} (hkey : key = "fields" ∨ key = "cases") :
    Option.Rel Reordered ((echoed members).find? key)
      ((compound type fields extra).members.find? key) := by
  have hn := (wellFormed_object.mp hw).1
  have hpresent : ∀ {v : Value}, members.present? key = some v → members.find? key = some v :=
    fun hv => (Members.present?_eq_some_iff.mp hv).1
  have htype : "type" ≠ key := by
    rcases hkey with rfl | rfl <;> decide
  have howned := hd.owned
  have hne : extra.keys.Nodup := hd.nodup hn
  rw [find?_echoed_compound hn hd.tag?_eq, if_pos hkey, find?_members_compound hne, if_neg htype]
  cases type with
  | record | tuple =>
    obtain ⟨hc, hef, hec, hf⟩ := howned
    rcases hkey with rfl | rfl
    · simp only [Compound.ownKey, ↓reduceIte, hef, Option.none_or]
      rcases hf with ⟨hf, rfl⟩ | ⟨v, hf, hv⟩
      · rw [hf]
        exact .some (reordered_array.mpr .nil)
      · rw [hf]
        exact .some (hfields _ v (hpresent hf) fields hv)
    · simp [Compound.ownKey, hc, hec]
  | variant =>
    obtain ⟨hf, hef, hc⟩ := howned
    rcases hkey with rfl | rfl
    · simp [Compound.ownKey, hf, hef]
    · simp only [Compound.ownKey, ↓reduceIte]
      obtain ⟨hc, rfl, hec⟩ | ⟨v, hc, hv, hec⟩ | ⟨v, reason, hc, hv, rfl, hec⟩ := hc
      · rw [hc, hec]
        exact .some (reordered_array.mpr .nil)
      · rw [hc, hec]
        exact .some (hfields _ v (hpresent hc) fields hv)
      -- cases that cannot be read are echoed as they are
      · rw [hc, hec]
        have hwv := hw.of_find? (hpresent hc)
        refine .some ?_
        simp only [echoFields_of_error hwv hv]
        exact reordered_refl hwv

/-- Everything that is read is written again as its echo. -/
theorem readsAs_echo {v : Value} (hw : v.WellFormed) :
    ReadsAs (fun v d => v.echo.Reordered d.toJson)
      (fun v fields => v.echoFields.Reordered (.array (fieldsToJson fields)))
      (fun v f => v.echoField.Reordered (f.writtenBy toJson)) v := by
  refine readsAs_of_wellFormed ?_ ?_ ?_ ?_ hw
  · intro members d hw hread hfields
    have hd := reads_of_ofJson hread
    refine reordered_echo_object hw hd fun key hkey => ?_
    cases d with
    | compound type fields extra => exact rel_echoed_compound hw hd hfields hkey
    | scalar | container | unknown =>
      exact rel_echoed_other hw hd (fun _ h => by cases h) rfl hkey
  · intro items fields hw hread hitems
    have hare : areFieldItems items = true :=
      (accepted_of_wellFormed hw).fields.mp ⟨fields, hread⟩
    rw [echoFields, if_pos hare, reordered_array, echoItems_eq, fieldsToJson_eq,
      List.forall₂_map_left_iff, List.forall₂_map_right_iff]
    exact hitems
  · intro members f v hname htyp hv
    rw [echoField, echoTyp_eq, hname, htyp]
    exact reordered_pair hv
  · intro v f hv
    rw [echoField]
    exact reordered_pair hv

/-- **The format of descriptors.** A value that repeats no key is read as a descriptor exactly when
it has the format of one. The descriptor that is read is written as the echo of the value, up to
the order of members. -/
theorem ofJson_format {v : Value} (hw : v.WellFormed) :
    ((∃ d, ofJson v = .ok d) ↔ v.isDescriptor = true) ∧
      ∀ d, ofJson v = .ok d → v.echo.Reordered d.toJson :=
  ⟨(accepted_of_wellFormed hw).descriptor, (readsAs_echo hw).descriptor⟩

/-- A record without cases whose only field is written as an array. -/
theorem ofJson_format_record :
    let written (fields : List Value) : Value :=
      .object [("type", .string "Record"), ("cases", .null), ("fields", .array fields)]
    let field : Value := .object [("name", .string "x"), ("typ", .object [("type", .string "Str")])]
    (∃ d, ofJson (written [.array [.string "x", .object [("type", .string "Str")]]]) = .ok d) ∧
      ∀ d, ofJson (written [.array [.string "x", .object [("type", .string "Str")]]]) = .ok d →
        (Value.object [("type", .string "Record"), ("fields", .array [field])]).Reordered
          d.toJson := by
  intro written field
  have hw : (written [.array [.string "x", .object [("type", .string "Str")]]]).WellFormed := by
    simp [written, Value.WellFormed, WellFormedMembers, WellFormedItems, Members.keys]
  exact ⟨(ofJson_format hw).1.mpr rfl, (ofJson_format hw).2⟩

end Descriptor

end TypedCall
