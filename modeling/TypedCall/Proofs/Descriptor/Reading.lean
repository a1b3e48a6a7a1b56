import TypedCall.Descriptor.Json
import TypedCall.Proofs.Json.Order

/-!
# What reading a descriptor says

The readers of `Descriptor/Json` walk over lists of members so that they recurse on the value.
This file says what they read through `Members.find?` instead: which members a descriptor or a
field is made of, and, tag by tag, which descriptor is read (`ofJson_scalar` and its neighbours).
`Reads` sums up what a descriptor owes to the members it was read of. The later files about
descriptors open the readers through these statements only.
-/

namespace TypedCall

open Json (Value Members)

/-! ## Tags -/

/-- The tags that announce something. -/
def Tag.known : List String :=
  Scalar.all.map Scalar.tag ++ Container.all.map Container.tag ++ Compound.all.map Compound.tag

namespace Tag

@[simp] theorem ofString_scalar (s : Scalar) : ofString s.tag = scalar s := by
  cases s <;> rfl

@[simp] theorem ofString_container (c : Container) : ofString c.tag = container c := by
  cases c <;> rfl

@[simp] theorem ofString_compound (c : Compound) : ofString c.tag = compound c := by
  cases c <;> rfl

/-- The kind of a tag keeps the text of the tag. -/
theorem toString_ofString (tag : String) : (ofString tag).toString = tag := by
  rw [ofString]
  split
  · next s h => simpa [toString] using List.find?_some h
  · split
    · next c h => simpa [toString] using List.find?_some h
    · split
      · next c h => simpa [toString] using List.find?_some h
      · rfl

/-- The unknown tags are those that announce nothing. -/
theorem ofString_eq_unknown_iff {tag : String} : ofString tag = unknown tag ↔ tag ∉ known := by
  constructor
  · intro h hmem
    simp only [known, List.mem_append, List.mem_map] at hmem
    rcases hmem with (⟨s, -, rfl⟩ | ⟨c, -, rfl⟩) | ⟨c, -, rfl⟩ <;> simp at h
  · intro h
    simp only [known, List.mem_append, List.mem_map, not_or, not_exists, not_and] at h
    obtain ⟨⟨hs, hc⟩, hp⟩ := h
    rw [ofString, List.find?_eq_none.mpr (by simpa using hs),
      List.find?_eq_none.mpr (by simpa using hc), List.find?_eq_none.mpr (by simpa using hp)]

theorem eq_of_ofString_eq_unknown {tag t : String} (h : ofString tag = unknown t) : t = tag := by
  rw [← toString_ofString tag, h, toString]

end Tag

/-! ## Members -/

namespace Json.Members

variable {ms : Members} {key k : String} {v : Value}

/-- The value of a member, unless it is absent or null. -/
def present? (members : Members) (key : String) : Option Value :=
  match members.find? key with
  | some .null => none
  | found => found

theorem present?_cons : present? ((k, v) :: ms) key =
    if k = key then (match v with
      | .null => none
      | v => some v) else present? ms key := by
  by_cases h : k = key
  · rw [present?, find?_cons, if_pos h, if_pos h]
    cases v <;> rfl
  · rw [present?, find?_cons, if_neg h, if_neg h]
    rfl

/-- What is present is found and is not null. -/
theorem present?_eq_some_iff : present? ms key = some v ↔ find? ms key = some v ∧ v ≠ .null := by
  rw [present?]
  split
  · next h =>
    rw [h]
    constructor
    · intro hn
      cases hn
    · rintro ⟨hv, hn⟩
      exact absurd (Option.some.inj hv).symm hn
  · next h =>
    constructor
    · intro hv
      exact ⟨hv, fun hn => h (hn ▸ hv)⟩
    · exact And.left

end Json.Members

/-- What `fields` or `cases` is for a reader: a value that is present, and what it lists. -/
theorem fieldMember_eq (key : String) (members : Members) :
    fieldMember key members = (members.present? key).map fun v => (v, fieldsOfJson v) := by
  induction members with
  | nil => rfl
  | cons m ms ih =>
    obtain ⟨k, v⟩ := m
    by_cases h : k = key
    · rw [Json.Members.present?_cons, if_pos h]
      cases v <;> simp [fieldMember, h]
    · rw [Json.Members.present?_cons, if_neg h, ← ih]
      cases v <;> simp [fieldMember, h]

theorem Json.Value.text_eq_ok_iff {v : Value} {s : String} : v.text = .ok s ↔ v = .string s := by
  cases v <;> simp [text]

/-! ## Fields -/

/-- Every item of a list of what was read was read of something. -/
theorem exists_rel_of_mem {α β : Type} {R : α → β → Prop} {as : List α} {bs : List β}
    (h : List.Forall₂ R as bs) {b : β} (hb : b ∈ bs) : ∃ a ∈ as, R a b := by
  induction h with
  | nil => cases hb
  | cons hab _ ih =>
    rcases List.mem_cons.mp hb with rfl | hb
    · exact ⟨_, List.mem_cons_self, hab⟩
    · obtain ⟨a, ha, hab⟩ := ih hb
      exact ⟨a, List.mem_cons_of_mem _ ha, hab⟩

/-- Reading members in order gives what they find, or what was read before. -/
theorem fieldOfMembers_eq_ok_iff {members : Members} (hn : members.keys.Nodup)
    {name : Option String} {typ : Option Descriptor} {f : Field} :
    fieldOfMembers name typ members = .ok f ↔
      (match members.find? "name" with
        | some v => v.text = .ok f.name
        | none => name = some f.name) ∧
      (match members.find? "typ" with
        | some v => Descriptor.ofJson v = .ok f.typ
        | none => typ = some f.typ) := by
  induction members generalizing name typ with
  | nil =>
    obtain ⟨n, t⟩ := f
    cases name <;> cases typ <;> simp [fieldOfMembers]
  | cons m ms ih =>
    obtain ⟨k, v⟩ := m
    obtain ⟨hk, hms⟩ := List.nodup_cons.mp hn
    rw [fieldOfMembers, Members.find?_cons, Members.find?_cons]
    -- a key that is read does not come again, so nothing behind it is found under it
    by_cases hname : k = "name"
    · subst hname
      rw [if_pos rfl, if_pos rfl, if_neg (by decide)]
      cases ht : v.text with
      | error e => simp [bind, Except.bind, ht]
      | ok s =>
        have hrest : Members.find? ms "name" = none := Members.find?_eq_none_iff.mpr hk
        simp only [bind, Except.bind, ih hms, hrest, ht]
        simp
    · rw [if_neg hname, if_neg hname]
      by_cases htyp : k = "typ"
      · subst htyp
        rw [if_pos rfl, if_pos rfl]
        cases hd : Descriptor.ofJson v with
        | error e => simp [bind, Except.bind, hd]
        | ok d =>
          have hrest : Members.find? ms "typ" = none := Members.find?_eq_none_iff.mpr hk
          simp only [bind, Except.bind, ih hms, hrest, hd]
          simp
      · rw [if_neg htyp, if_neg htyp, ih hms]

/-- A field is read of an object that has a name and a descriptor. -/
theorem fieldOfJson_object {members : Members} (hn : members.keys.Nodup) {f : Field} :
    fieldOfJson (.object members) = .ok f ↔
      members.find? "name" = some (.string f.name) ∧
        ∃ v, members.find? "typ" = some v ∧ Descriptor.ofJson v = .ok f.typ := by
  rw [fieldOfJson, fieldOfMembers_eq_ok_iff hn]
  refine and_congr ?_ ?_
  · cases members.find? "name" with
    | none => simp
    | some v => simp [Json.Value.text_eq_ok_iff]
  · cases members.find? "typ" <;> simp

/-- A field is read of an array of a name and a descriptor. -/
theorem fieldOfJson_array {items : List Value} {f : Field} :
    fieldOfJson (.array items) = .ok f ↔
      ∃ v, items = [.string f.name, v] ∧ Descriptor.ofJson v = .ok f.typ := by
  obtain ⟨n, t⟩ := f
  rw [fieldOfJson]
  match items with
  | [] => simp [fieldOfItems]
  | [name] =>
    rw [fieldOfItems]
    cases name.text <;> simp [bind, Except.bind, typeOfItems]
  | name :: typ :: rest =>
    rw [fieldOfItems, typeOfItems]
    cases hs : name.text with
    | error e =>
      have hne : ∀ s, name ≠ .string s := fun s h => by simp [h, Json.Value.text] at hs
      simp [bind, Except.bind, hne]
    | ok s =>
      obtain rfl := Json.Value.text_eq_ok_iff.mp hs
      cases hd : Descriptor.ofJson typ with
      | error e =>
        simp only [bind, Except.bind, reduceCtorEq, List.cons.injEq, false_iff, not_exists, not_and]
        rintro v ⟨-, rfl, -⟩ hv
        rw [hd] at hv
        cases hv
      | ok d =>
        cases rest with
        | nil => simp [bind, Except.bind, pure, Except.pure, hd]
        | cons _ _ => simp [bind, Except.bind]

/-- A list of fields is read item by item. -/
theorem fieldsOfJson_array {items : List Value} {fields : List Field} :
    fieldsOfJson (.array items) = .ok fields ↔
      List.Forall₂ (fun v f => fieldOfJson v = .ok f) items fields := by
  rw [fieldsOfJson]
  induction items generalizing fields with
  | nil =>
    rw [fieldItems, List.forall₂_nil_left_iff]
    simp [eq_comm]
  | cons v vs ih =>
    rw [fieldItems, List.forall₂_cons_left_iff]
    cases hv : fieldOfJson v with
    | error e => simp [bind, Except.bind]
    | ok f =>
      cases hvs : fieldItems vs with
      | error e =>
        simp only [bind, Except.bind, reduceCtorEq, false_iff, not_exists, not_and]
        rintro f' fs - hfs -
        rw [← ih, hvs] at hfs
        cases hfs
      | ok fs =>
        have hfs : ∀ gs, List.Forall₂ (fun v f => fieldOfJson v = .ok f) vs gs ↔ fs = gs := by
          intro gs
          rw [← ih, hvs, Except.ok.injEq]
        simp only [bind, Except.bind, pure, Except.pure, Except.ok.injEq, hfs]
        constructor
        · rintro rfl
          exact ⟨f, fs, rfl, rfl, rfl⟩
        · rintro ⟨f', fs', rfl, rfl, h⟩
          exact h.symm

/-! ## Descriptors -/

namespace Descriptor

/-- A descriptor is read of an object that has a tag. -/
theorem exists_tag_of_ofJson {members : Members} {d : Descriptor}
    (h : ofJson (.object members) = .ok d) :
    ∃ tag, members.find? "type" = some (.string tag) := by
  rw [ofJson, ofMembers] at h
  cases hf : members.find? "type" with
  | none =>
    rw [hf] at h
    cases h
  | some v =>
    cases v with
    | string tag => exact ⟨tag, rfl⟩
    | _ =>
      rw [hf] at h
      cases h

/-- The members that a descriptor does not read itself. -/
def remaining (members : Members) : Members := members.without ownKeys

section Tags

variable {members : Members} {tag : String} {d : Descriptor}

/-- The tag decides what is made of the other members. -/
theorem ofJson_of_tag (ht : members.find? "type" = some (.string tag)) :
    ofJson (.object members) = ofParts ⟨tag,
      (members.present? "fields").map fun v => (v, fieldsOfJson v),
      (members.present? "cases").map fun v => (v, fieldsOfJson v), remaining members⟩ := by
  rw [ofJson, ofMembers, ht, fieldMember_eq, fieldMember_eq]
  rfl

/-- A scalar has neither `fields` nor `cases`, and keeps the other members. -/
theorem ofJson_scalar (ht : members.find? "type" = some (.string tag)) {s : Scalar}
    (hk : Tag.ofString tag = .scalar s) :
    ofJson (.object members) = .ok d ↔ members.present? "fields" = none ∧
      members.present? "cases" = none ∧ d = .scalar s (remaining members) := by
  rw [ofJson_of_tag ht, ofParts, hk]
  cases members.present? "fields" <;> cases members.present? "cases" <;> simp [eq_comm]

/-- A container has no `fields`, and keeps its `cases` with the other members. -/
theorem ofJson_container (ht : members.find? "type" = some (.string tag)) {c : Container}
    (hk : Tag.ofString tag = .container c) :
    ofJson (.object members) = .ok d ↔ members.present? "fields" = none ∧
      d = .container c ((remaining members).restore "cases" (fieldMember "cases" members)) := by
  rw [ofJson_of_tag ht, ofParts, hk, fieldMember_eq]
  cases members.present? "fields" <;> simp [eq_comm]

/-- Cases that cannot be read stay among the members kept as written. -/
theorem ofJson_variant (ht : members.find? "type" = some (.string tag))
    (hk : Tag.ofString tag = .compound .variant) :
    ofJson (.object members) = .ok d ↔ members.present? "fields" = none ∧
      ((members.present? "cases" = none ∧ d = .compound .variant [] (remaining members)) ∨
        (∃ v fields, members.present? "cases" = some v ∧ fieldsOfJson v = .ok fields ∧
          d = .compound .variant fields (remaining members)) ∨
        ∃ v reason, members.present? "cases" = some v ∧ fieldsOfJson v = .error reason ∧
          d = .compound .variant [] ((remaining members).insert "cases" v)) := by
  rw [ofJson_of_tag ht, ofParts, hk]
  cases members.present? "fields" with
  | some v => simp
  | none =>
    cases members.present? "cases" with
    | none => simp [eq_comm]
    | some v => cases hv : fieldsOfJson v <;> simp [hv, eq_comm]

/-- A record or a tuple has no `cases`, and its `fields` are a list that can be read, or absent. -/
theorem ofJson_product (ht : members.find? "type" = some (.string tag)) {c : Compound}
    (hk : Tag.ofString tag = .compound c) (hc : c ≠ .variant) :
    ofJson (.object members) = .ok d ↔ members.present? "cases" = none ∧
      ((members.present? "fields" = none ∧ d = .compound c [] (remaining members)) ∨
        ∃ v fields, members.present? "fields" = some v ∧ fieldsOfJson v = .ok fields ∧
          d = .compound c fields (remaining members)) := by
  cases c with
  | variant => exact absurd rfl hc
  | record | tuple =>
    rw [ofJson_of_tag ht, ofParts, hk]
    cases members.present? "cases" with
    | some v => simp
    | none =>
      cases members.present? "fields" with
      | none => simp [eq_comm]
      | some v => cases hv : fieldsOfJson v <;> simp [hv, eq_comm]

/-- An unknown tag keeps everything but null `fields` and `cases`. -/
theorem ofJson_unknown (ht : members.find? "type" = some (.string tag))
    (hk : Tag.ofString tag = .unknown tag) :
    ofJson (.object members) = .ok d ↔ d = .unknown tag
      (((remaining members).restore "fields" (fieldMember "fields" members)).restore "cases"
        (fieldMember "cases" members)) := by
  rw [ofJson_of_tag ht, ofParts, hk, fieldMember_eq, fieldMember_eq]
  simp [eq_comm]

end Tags

/-! ## What a read descriptor keeps -/

/-- What the tag of a descriptor says about `fields` and `cases`, when it was read of these
members. -/
def OwnedReads (members : Members) : Descriptor → Prop
  | scalar _ extra => members.present? "fields" = none ∧ members.present? "cases" = none ∧
      extra.find? "fields" = none ∧ extra.find? "cases" = none
  | container _ extra => members.present? "fields" = none ∧ extra.find? "fields" = none ∧
      extra.find? "cases" = members.present? "cases"
  | compound .variant fields extra => members.present? "fields" = none ∧
      extra.find? "fields" = none ∧
      ((members.present? "cases" = none ∧ fields = [] ∧ extra.find? "cases" = none) ∨
        (∃ v, members.present? "cases" = some v ∧ fieldsOfJson v = .ok fields ∧
          extra.find? "cases" = none) ∨
        ∃ v reason, members.present? "cases" = some v ∧ fieldsOfJson v = .error reason ∧
          fields = [] ∧ extra.find? "cases" = some v)
  | compound _ fields extra => members.present? "cases" = none ∧
      extra.find? "fields" = none ∧ extra.find? "cases" = none ∧
      ((members.present? "fields" = none ∧ fields = []) ∨
        ∃ v, members.present? "fields" = some v ∧ fieldsOfJson v = .ok fields)
  | unknown _ extra => extra.find? "fields" = members.present? "fields" ∧
      extra.find? "cases" = members.present? "cases"

/-- A descriptor read of members: its tag is theirs, and it finds what they find wherever it does
not read them itself. -/
structure Reads (d : Descriptor) (members : Members) : Prop where
  tag : members.find? "type" = some (.string d.tag)
  kind : Tag.ofString d.tag = d.kind
  nodup : members.keys.Nodup → d.extra.keys.Nodup
  type : d.extra.find? "type" = none
  extra : ∀ key, key ∉ ownKeys → d.extra.find? key = members.find? key
  owned : OwnedReads members d

/-- The members that a descriptor reads itself do not remain. -/
theorem find?_remaining (members : Members) (key : String) :
    (remaining members).find? key = if key ∈ ownKeys then none else members.find? key :=
  Members.find?_without

theorem find?_remaining_of_mem {members : Members} {key : String} (h : key ∈ ownKeys) :
    (remaining members).find? key = none := by
  rw [find?_remaining, if_pos h]

/-- Restoring a member puts back what is present under its key. -/
theorem find?_restore (extra members : Members) (key k : String) :
    (extra.restore key (fieldMember key members)).find? k =
      if key = k then (members.present? key).or (extra.find? k) else extra.find? k := by
  rw [fieldMember_eq]
  cases members.present? key with
  | none => simp [Members.restore]
  | some v => simp [Members.restore, Members.find?_insert]

/-- The members kept as written find what the members find, but for those that are read. -/
structure Keeps (members extra : Members) : Prop where
  nodup : members.keys.Nodup → extra.keys.Nodup
  type : extra.find? "type" = none
  other : ∀ key, key ∉ ownKeys → extra.find? key = members.find? key

/-- The remaining members keep everything that is not read. -/
theorem keeps_remaining (members : Members) : Keeps members (remaining members) := by
  refine ⟨Members.nodup_keys_without, ?_, fun key hkey => ?_⟩
  · exact find?_remaining_of_mem (by decide)
  · rw [find?_remaining, if_neg hkey]

section Parts

variable {members extra : Members} {key tag : String}

/-- A member that is read may be put back. -/
theorem Keeps.insert (h : Keeps members extra) (hkey : key = "fields" ∨ key = "cases")
    (v : Value) : Keeps members (extra.insert key v) := by
  have hne : ∀ k, k ∉ ownKeys ∨ k = "type" → key ≠ k := by
    rintro k (hk | rfl) rfl
    · rcases hkey with rfl | rfl <;> exact hk (by decide)
    · rcases hkey with hkey | hkey <;> exact absurd hkey (by decide)
  refine ⟨fun hn => Members.nodup_keys_insert (h.nodup hn), ?_, fun k hk => ?_⟩
  · rw [Members.find?_insert, if_neg (hne _ (.inr rfl)), h.type]
  · rw [Members.find?_insert, if_neg (hne _ (.inl hk)), h.other k hk]

/-- A member that is read may be restored. -/
theorem Keeps.restore (h : Keeps members extra) (hkey : key = "fields" ∨ key = "cases")
    (found : Option FieldMember) : Keeps members (extra.restore key found) := by
  cases found with
  | none => exact h
  | some vf => exact h.insert hkey vf.1

/-- What is kept, the tag, and what the tag says about `fields` and `cases` make a descriptor that
was read. -/
theorem Keeps.reads {d : Descriptor} (h : Keeps members d.extra)
    (ht : members.find? "type" = some (.string tag)) (hk : Tag.ofString tag = d.kind)
    (howned : OwnedReads members d) : d.Reads members := by
  obtain rfl : d.tag = tag := by rw [Descriptor.tag, ← hk, Tag.toString_ofString]
  exact ⟨ht, hk, h.nodup, h.type, h.other, howned⟩

/-- A variant that was read owes its members what `Reads` says. -/
theorem reads_of_variant {d : Descriptor} (ht : members.find? "type" = some (.string tag))
    (hk : Tag.ofString tag = .compound .variant) (h : ofJson (.object members) = .ok d) :
    d.Reads members := by
  have hkeeps := keeps_remaining members
  have hfields : (remaining members).find? "fields" = none := find?_remaining_of_mem (by decide)
  have hcases : (remaining members).find? "cases" = none := find?_remaining_of_mem (by decide)
  obtain ⟨hf, ⟨hc, rfl⟩ | ⟨v, fields, hc, hv, rfl⟩ | ⟨v, reason, hc, hv, rfl⟩⟩ :=
    (ofJson_variant ht hk).mp h
  · exact hkeeps.reads ht hk ⟨hf, hfields, .inl ⟨hc, rfl, hcases⟩⟩
  · exact hkeeps.reads ht hk ⟨hf, hfields, .inr (.inl ⟨v, hc, hv, hcases⟩)⟩
  -- cases that cannot be read are kept as written
  · refine (hkeeps.insert (.inr rfl) v).reads ht hk
      ⟨hf, ?_, .inr (.inr ⟨v, reason, hc, hv, rfl, ?_⟩)⟩
    · rw [Members.find?_insert, if_neg (by decide), hfields]
    · rw [Members.find?_insert, if_pos rfl]

/-- A record or a tuple that was read owes its members what `Reads` says. -/
theorem reads_of_product {d : Descriptor} (ht : members.find? "type" = some (.string tag))
    {c : Compound} (hk : Tag.ofString tag = .compound c) (hc : c ≠ .variant)
    (h : ofJson (.object members) = .ok d) : d.Reads members := by
  obtain ⟨hcases, hfields⟩ := (ofJson_product ht hk hc).mp h
  have hreads : ∀ fields, ((members.present? "fields" = none ∧ fields = []) ∨
      ∃ v, members.present? "fields" = some v ∧ fieldsOfJson v = .ok fields) →
      Reads (.compound c fields (remaining members)) members := by
    intro fields hread
    refine (keeps_remaining members).reads ht hk ?_
    cases c with
    | variant => exact absurd rfl hc
    | record | tuple =>
      exact ⟨hcases, find?_remaining_of_mem (by decide), find?_remaining_of_mem (by decide), hread⟩
  rcases hfields with ⟨hf, rfl⟩ | ⟨v, fields, hf, hv, rfl⟩
  · exact hreads [] (.inl ⟨hf, rfl⟩)
  · exact hreads fields (.inr ⟨v, hf, hv⟩)

end Parts

/-- What is read of members is made of them. -/
theorem reads_of_ofJson {members : Members} {d : Descriptor}
    (h : ofJson (.object members) = .ok d) : Reads d members := by
  obtain ⟨tag, ht⟩ := exists_tag_of_ofJson h
  have hkeeps := keeps_remaining members
  cases hk : Tag.ofString tag with
  | scalar s =>
    obtain ⟨hf, hc, rfl⟩ := (ofJson_scalar ht hk).mp h
    exact hkeeps.reads ht hk
      ⟨hf, hc, find?_remaining_of_mem (by decide), find?_remaining_of_mem (by decide)⟩
  | container c =>
    obtain ⟨hf, rfl⟩ := (ofJson_container ht hk).mp h
    refine (hkeeps.restore (.inr rfl) _).reads ht hk ⟨hf, ?_, ?_⟩ <;>
      simp [find?_restore, find?_remaining, ownKeys]
  | unknown t =>
    obtain rfl := Tag.eq_of_ofString_eq_unknown hk
    obtain rfl := (ofJson_unknown ht hk).mp h
    refine ((hkeeps.restore (.inl rfl) _).restore (.inr rfl) _).reads ht hk ⟨?_, ?_⟩ <;>
      simp [find?_restore, find?_remaining, ownKeys]
  | compound c =>
    by_cases hc : c = .variant
    · subst hc
      exact reads_of_variant ht hk h
    · exact reads_of_product ht hk hc h

end Descriptor

/-- What the three readers make of a value. -/
structure ReadsAs (D : Value → Descriptor → Prop) (L : Value → List Field → Prop)
    (F : Value → Field → Prop) (v : Value) : Prop where
  descriptor : ∀ d, Descriptor.ofJson v = .ok d → D v d
  fields : ∀ fields, fieldsOfJson v = .ok fields → L v fields
  field : ∀ f, fieldOfJson v = .ok f → F v f

/-- Induction on what is read of a value: a descriptor of an object, with the lists that its
members write; a list of an array, with its fields; a field of an object or an array, with its
descriptor. -/
theorem readsAs_of_wellFormed {D : Value → Descriptor → Prop} {L : Value → List Field → Prop}
    {F : Value → Field → Prop}
    (descriptor : ∀ (members : Members) d, (Value.object members).WellFormed →
      Descriptor.ofJson (.object members) = .ok d →
      (∀ key v, members.find? key = some v → ∀ fields, fieldsOfJson v = .ok fields → L v fields) →
      D (.object members) d)
    (fields : ∀ items fields, (Value.array items).WellFormed →
      fieldsOfJson (.array items) = .ok fields → List.Forall₂ F items fields →
      L (.array items) fields)
    (object : ∀ (members : Members) f v, members.find? "name" = some (.string f.name) →
      members.find? "typ" = some v → D v f.typ → F (.object members) f)
    (array : ∀ v f, D v f.typ → F (.array [.string f.name, v]) f)
    {v : Value} (hw : v.WellFormed) : ReadsAs D L F v := by
  induction v using Value.induction with
  | null | bool b | number n | string s =>
    constructor <;> simp [Descriptor.ofJson, fieldsOfJson, fieldOfJson]
  | array items ih =>
    have hitems := fun v hv => ih v hv (Json.Value.wellFormed_array.mp hw v hv)
    refine ⟨by simp [Descriptor.ofJson], fun fs hfs => ?_, fun f hf => ?_⟩
    · have hread := fieldsOfJson_array.mp hfs
      refine fields items fs hw hfs (List.forall₂_iff_get.mpr ⟨hread.length_eq, fun i h₁ h₂ => ?_⟩)
      exact (hitems _ (List.get_mem items ⟨i, h₁⟩)).field _ (hread.get h₁ h₂)
    · obtain ⟨v, rfl, hv⟩ := fieldOfJson_array.mp hf
      exact array v f ((hitems v (by simp)).descriptor f.typ hv)
  | object members ih =>
    obtain ⟨hn, hms⟩ := Json.Value.wellFormed_object.mp hw
    -- what is found stands among the members, and is smaller than the object
    have hfound : ∀ key v, members.find? key = some v → ReadsAs D L F v := fun key v hv =>
      have hmem := Json.Members.mem_of_find?_eq_some hv
      ih key v hmem (hms key v hmem)
    refine ⟨fun d hd => ?_, by simp [fieldsOfJson], fun f hf => ?_⟩
    · exact descriptor members d hw hd fun key v hv => (hfound key v hv).fields
    · obtain ⟨hname, v, hv, hd⟩ := (fieldOfJson_object hn).mp hf
      exact object members f v hname hv ((hfound "typ" v hv).descriptor f.typ hd)

end TypedCall
