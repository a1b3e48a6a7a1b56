import TypedCall.Component.Source
import TypedCall.Proofs.Descriptor.Reading
import TypedCall.Proofs.Json.Reading

/-!
# Reading lists and records

A list is read when each of its items is, and a record member by member or item by item. The
lemmas here say what each of these steps gives when it succeeds. Of a value that repeats no key
everything is read of such values again (`ReadOf`): the items of a list, the members of a record
(`entries_induction` carries a property from one member to the next), the items of a record written
as an array.
-/

namespace TypedCall

open Json (Value Members bind_eq_ok bind_pure_eq_ok)

section Lists

variable {ε α β : Type}

/-- A list is read when each of its items is. -/
theorem mapM_eq_ok {reading : α → Except ε β} {items : List α} {bs : List β} :
    items.mapM reading = .ok bs ↔ List.Forall₂ (fun a b => reading a = .ok b) items bs := by
  induction items generalizing bs with
  | nil =>
    rw [List.mapM_nil, List.forall₂_nil_left_iff]
    exact ⟨fun h => (Except.ok.inj h).symm, fun h => by rw [h]; rfl⟩
  | cons a items ih =>
    rw [List.mapM_cons, List.forall₂_cons_left_iff, bind_eq_ok]
    constructor
    · rintro ⟨b, hb, h⟩
      obtain ⟨bs', hbs, h⟩ := bind_eq_ok.mp h
      exact ⟨b, bs', hb, ih.mp hbs, (Except.ok.inj h).symm⟩
    · rintro ⟨b, bs', hb, hbs, rfl⟩
      exact ⟨b, hb, bind_eq_ok.mpr ⟨bs', ih.mpr hbs, rfl⟩⟩

/-- Wrapping an error does not touch what is read. -/
theorem mapError_eq_ok {ε' : Type} {wrap : ε → ε'} {x : Except ε α} {a : α} :
    x.mapError wrap = .ok a ↔ x = .ok a := by
  cases x <;> simp [Except.mapError]

/-- What one entry after the other keeps, all of them keep. -/
theorem foldlM_induction {add : β → α → Except ε β} {P : β → Prop} {entries : List α}
    (step : ∀ d a e, a ∈ entries → P d → add d a = .ok e → P e) {d e : β} (hd : P d)
    (h : entries.foldlM add d = .ok e) : P e := by
  induction entries generalizing d with
  | nil =>
    obtain rfl := Except.ok.inj h
    exact hd
  | cons a entries ih =>
    rw [List.foldlM_cons, bind_eq_ok] at h
    obtain ⟨d', hd', h⟩ := h
    exact ih (fun d a e ha => step d a e (List.mem_cons_of_mem _ ha))
      (step d a d' List.mem_cons_self hd hd') h

end Lists

@[simp] theorem Json.ok_bind {ε α β : Type} (a : α) (f : α → Except ε β) :
    Except.ok a >>= f = f a := rfl

@[simp] theorem Json.map_ok {ε α β : Type} (a : α) (f : α → β) :
    f <$> (Except.ok a : Except ε α) = .ok (f a) := rfl

/-! ## Slots and items -/

namespace Source

variable {α β : Type}

@[simp] theorem fill_none_ok (key : String) (b : β) : fill none key (.ok b) = .ok (some b) := rfl

@[simp] theorem required_some (b : β) (key : String) : required (some b) key = .ok b := rfl

/-- A slot is filled once, with what is read. -/
theorem fill_eq_ok {slot out : Option β} {key : String} {reading : Except Mismatch β} :
    fill slot key reading = .ok out ↔ slot = none ∧ ∃ b, reading = .ok b ∧ out = some b := by
  cases slot with
  | some b => simp [fill]
  | none =>
    rw [fill, bind_pure_eq_ok]
    exact (and_iff_right rfl).symm

theorem required_eq_ok {slot : Option β} {key : String} {b : β} :
    required slot key = .ok b ↔ slot = some b := by
  cases slot <;> simp [required]

/-- The next item is read if there is one, and otherwise what stands for a missing one is taken. -/
theorem next_eq_ok {items rest : List α} {reading : α → Except Mismatch β}
    {missing : Except Mismatch β} {b : β} :
    next items reading missing = .ok (b, rest) ↔
      (items = [] ∧ rest = [] ∧ missing = .ok b) ∨ ∃ a, items = a :: rest ∧ reading a = .ok b := by
  cases items with
  | nil =>
    rw [next, bind_pure_eq_ok]
    simp [and_comm]
  | cons a items =>
    rw [next, bind_pure_eq_ok]
    simp [and_comm, eq_comm]

theorem finish_eq_ok {total : Nat} {items : List α} {b c : β} :
    finish total items b = .ok c ↔ items = [] ∧ c = b := by
  cases items <;> simp [finish, eq_comm]

end Source

/-! ## What is read of JSON -/

section Values

variable {β : Type} {reading : Value → Except Mismatch β} {v : Value} {bs : List β}

@[simp] theorem text_string (s : String) : Source.text (Value.string s) = .ok s := rfl

@[simp] theorem optionalText_string (s : String) :
    Source.optionalText (Value.string s) = .ok (some s) := rfl

@[simp] theorem optionalNatural_integer (n : Nat) :
    Source.optionalNatural (Value.number (.integer n)) = .ok (some n) := rfl

@[simp] theorem record_object (expected : String) (members : Members) :
    Source.record expected (Value.object members) =
      .ok (.named (members.map fun (k, v) => (.ok k, v))) := rfl

/-- Something that a reader makes of a value that repeats no key. -/
def ReadOf (reading : Value → Except Mismatch β) (b : β) : Prop :=
  ∃ v : Value, v.WellFormed ∧ reading v = .ok b

/-- A list is read of an array, item by item. -/
theorem listOf_eq_ok :
    Source.listOf reading v = .ok bs ↔
      ∃ items, v = .array items ∧ List.Forall₂ (fun a b => reading a = .ok b) items bs := by
  rw [Source.listOf, bind_eq_ok]
  simp only [mapM_eq_ok]
  refine exists_congr fun items => and_congr_left fun _ => ?_
  cases v <;> simp [Source.items, Value.items]

/-- A list is read back when each of its items is. -/
theorem listOf_map {write : β → Value} (h : ∀ b ∈ bs, reading (write b) = .ok b) :
    Source.listOf reading (.array (bs.map write)) = .ok bs :=
  listOf_eq_ok.mpr ⟨_, rfl, by rwa [List.forall₂_map_left_iff, List.forall₂_same]⟩

/-- The items of a list were read of values that repeat no key. -/
theorem readOf_of_listOf (hw : v.WellFormed) (h : Source.listOf reading v = .ok bs) :
    ∀ b ∈ bs, ReadOf reading b := by
  obtain ⟨items, rfl, hitems⟩ := listOf_eq_ok.mp h
  intro b hb
  obtain ⟨a, ha, hab⟩ := exists_rel_of_mem hitems hb
  exact ⟨a, Json.Value.wellFormed_array.mp hw a ha, hab⟩

/-- A list in a slot that has been filled. -/
theorem readOf_of_fill {slot out : Option (List β)} {key : String} (hw : v.WellFormed)
    (h : Source.fill slot key (Source.listOf reading v) = .ok out) :
    ∀ b ∈ out.getD [], ReadOf reading b := by
  obtain ⟨-, bs, hbs, rfl⟩ := Source.fill_eq_ok.mp h
  exact readOf_of_listOf hw hbs

/-- A list at the next position. -/
theorem readOf_of_next {items rest : List Value} (hw : ∀ v ∈ items, v.WellFormed)
    (h : Source.next items (Source.listOf reading) (.ok []) = .ok (bs, rest)) :
    ∀ b ∈ bs, ReadOf reading b := by
  obtain ⟨-, -, hnil⟩ | ⟨a, rfl, ha⟩ := Source.next_eq_ok.mp h
  · obtain rfl := Except.ok.inj hnil
    exact fun b hb => nomatch hb
  · exact readOf_of_listOf (hw a List.mem_cons_self) ha

/-- What is left behind an item repeats no key. -/
theorem wellFormed_of_next {items rest : List Value} {missing : Except Mismatch β} {b : β}
    (hw : ∀ v ∈ items, v.WellFormed) (h : Source.next items reading missing = .ok (b, rest)) :
    ∀ v ∈ rest, v.WellFormed := by
  obtain ⟨-, rfl, -⟩ | ⟨a, rfl, -⟩ := Source.next_eq_ok.mp h
  · exact fun v hv => nomatch hv
  · exact fun v hv => hw v (List.mem_cons_of_mem a hv)

/-- The values of a record. -/
def Record.values {α : Type} : Record α → List α
  | named entries => entries.map (·.2)
  | positional items => items

/-- The values of a record repeat no key when the record does not. -/
theorem wellFormed_of_record {expected : String} {r : Record Value} (hw : v.WellFormed)
    (h : v.record expected = .ok r) : ∀ w ∈ r.values, w.WellFormed := by
  cases v with
  | object members =>
    obtain rfl := Except.ok.inj h
    intro w hmem
    simp only [Record.values, List.map_map, List.mem_map] at hmem
    obtain ⟨⟨k, w⟩, hm, rfl⟩ := hmem
    exact (Json.Value.wellFormed_object.mp hw).2 k w hm
  | array items =>
    obtain rfl := Except.ok.inj h
    exact Json.Value.wellFormed_array.mp hw
  | _ => cases h

/-- What every member read keeps, a record keeps. -/
theorem entries_induction {δ : Type} {add : δ → String → Value → Except Mismatch δ} {P : δ → Prop}
    (step : ∀ d key v e, v.WellFormed → P d → add d key v = .ok e → P e)
    {entries : List (Except Mismatch String × Value)}
    (hw : ∀ w ∈ (Record.named entries).values, w.WellFormed) {d e : δ} (hd : P d)
    (h : entries.foldlM (fun d (key, v) => do add d (← key) v) d = .ok e) : P e := by
  refine foldlM_induction (fun d entry e hmem hd h => ?_) hd h
  obtain ⟨key, hkey, h⟩ := bind_eq_ok.mp h
  exact step d key entry.2 e (hw _ (List.mem_map_of_mem hmem)) hd h

end Values

end TypedCall
