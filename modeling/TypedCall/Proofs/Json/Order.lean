import TypedCall.Proofs.Json.Members
import Mathlib.Data.Option.Basic

/-!
# Values up to the order of members

`Value.Reordered` relates two values that differ in the order of the members of their objects
only. `Value.same` is coarser: it also takes the two zeros for one. This file settles how both
relate the values that two objects find, and packages the induction over the values inside a
value (`Value.induction`).
-/

namespace TypedCall.Json

namespace Value

open Members

/-- Induction on the values inside a value. -/
@[elab_as_elim]
theorem induction {motive : Value → Prop} (null : motive .null) (bool : ∀ b, motive (.bool b))
    (number : ∀ n, motive (.number n)) (string : ∀ s, motive (.string s))
    (array : ∀ items, (∀ v ∈ items, motive v) → motive (.array items))
    (object : ∀ members : Members, (∀ k v, (k, v) ∈ members → motive v) →
      motive (.object members)) : ∀ v, motive v
  | .null => null
  | .bool b => bool b
  | .number n => number n
  | .string s => string s
  | .array items => array items fun v hv =>
    have : sizeOf v < sizeOf items := List.sizeOf_lt_of_mem hv
    induction null bool number string array object v
  | .object members => object members fun k v hv =>
    have : sizeOf (k, v) < sizeOf members := List.sizeOf_lt_of_mem hv
    have : sizeOf v < sizeOf (k, v) := by simp only [Prod.mk.sizeOf_spec]; omega
    induction null bool number string array object v

/-! ## Well-formed values -/

theorem wellFormedItems_iff {items : List Value} :
    WellFormedItems items ↔ ∀ v ∈ items, v.WellFormed := by
  induction items with
  | nil => simp [WellFormedItems]
  | cons v vs ih => simp [WellFormedItems, ih]

theorem wellFormedMembers_iff {members : Members} :
    WellFormedMembers members ↔ ∀ k v, (k, v) ∈ members → v.WellFormed := by
  induction members with
  | nil => simp [WellFormedMembers]
  | cons m ms ih =>
    obtain ⟨k, v⟩ := m
    simp only [WellFormedMembers, ih, List.mem_cons, Prod.mk.injEq]
    constructor
    · rintro ⟨hv, hms⟩ k' v' (⟨rfl, rfl⟩ | hmem)
      · exact hv
      · exact hms k' v' hmem
    · intro h
      exact ⟨h k v (.inl ⟨rfl, rfl⟩), fun k' v' hmem => h k' v' (.inr hmem)⟩

theorem wellFormed_array {items : List Value} :
    (Value.array items).WellFormed ↔ ∀ v ∈ items, v.WellFormed := by
  rw [WellFormed, wellFormedItems_iff]

/-- An object is well formed when it repeats no key and its values are. -/
theorem wellFormed_object {members : Members} :
    (Value.object members).WellFormed ↔
      (keys members).Nodup ∧ ∀ k v, (k, v) ∈ members → v.WellFormed := by
  rw [WellFormed, wellFormedMembers_iff]

theorem WellFormed.of_find? {members : Members} {key : String} {v : Value}
    (h : (Value.object members).WellFormed) (hv : members.find? key = some v) : v.WellFormed :=
  (wellFormed_object.mp h).2 key v (mem_of_find?_eq_some hv)

theorem WellFormed.of_member? {v w : Value} {key : String} (h : v.WellFormed)
    (hw : v.member? key = some w) : w.WellFormed := by
  cases v with
  | object members => exact h.of_find? hw
  | _ => cases hw

/-- An object is well formed when it repeats no key and all values that it finds are. -/
theorem wellFormed_object_of_find? {members : Members} (hn : (keys members).Nodup)
    (h : ∀ key v, members.find? key = some v → v.WellFormed) :
    (Value.object members).WellFormed :=
  wellFormed_object.mpr ⟨hn, fun k v hmem => h k v (find?_eq_some_of_mem hn hmem)⟩

/-! ## Equality up to order and the sign of zero -/

theorem sameItems_iff {as bs : List Value} :
    sameItems as bs = true ↔ List.Forall₂ (fun a b => a.same b = true) as bs := by
  induction as generalizing bs with
  | nil => cases bs <;> simp [sameItems]
  | cons a as ih => cases bs <;> simp [sameItems, ih]

/-- Members are compared by what the other object finds. -/
theorem sameMembers_iff {as bs : Members} :
    sameMembers as bs = true ↔
      ∀ k a, (k, a) ∈ as → ∃ b, find? bs k = some b ∧ a.same b = true := by
  induction as with
  | nil => simp [sameMembers]
  | cons m as ih =>
    obtain ⟨k, a⟩ := m
    simp only [sameMembers, Bool.and_eq_true, ih, List.mem_cons, Prod.mk.injEq]
    constructor
    · rintro ⟨ha, has⟩ k' a' (⟨rfl, rfl⟩ | hmem)
      · split at ha
        · next b hb => exact ⟨b, hb, ha⟩
        · exact absurd ha Bool.false_ne_true
      · exact has k' a' hmem
    · intro h
      refine ⟨?_, fun k' a' hmem => h k' a' (.inr hmem)⟩
      obtain ⟨b, hb, hab⟩ := h k a (.inl ⟨rfl, rfl⟩)
      rw [hb]
      exact hab

/-- Objects are equal when they have as many members and each of one object is found in the other.
-/
theorem same_object_iff {as bs : Members} :
    (Value.object as).same (.object bs) = true ↔
      as.length = bs.length ∧ ∀ k a, (k, a) ∈ as → ∃ b, find? bs k = some b ∧ a.same b = true := by
  rw [same, Bool.and_eq_true, beq_iff_eq, sameMembers_iff]

/-- A well-formed value equals itself. -/
theorem same_refl {v : Value} (h : v.WellFormed) : v.same v = true := by
  induction v using Value.induction with
  | null => rfl
  | bool b => simp [same]
  | number n => cases n <;> simp [same, Number.same]
  | string s => simp [same]
  | array items ih =>
    rw [same, sameItems_iff, List.forall₂_same]
    exact fun v hv => ih v hv (wellFormed_array.mp h v hv)
  | object members ih =>
    obtain ⟨hn, hw⟩ := wellFormed_object.mp h
    refine same_object_iff.mpr ⟨rfl, fun k a hmem => ⟨a, find?_eq_some_of_mem hn hmem, ?_⟩⟩
    exact ih k a hmem (hw k a hmem)

/-- Objects with equal members find equal values or none, whatever the key. -/
theorem find?_of_same_object {as bs : Members} (ha : (keys as).Nodup)
    (h : (Value.object as).same (.object bs) = true) (key : String) :
    Option.Rel (fun a b => a.same b = true) (find? as key) (find? bs key) := by
  obtain ⟨hlen, hmem⟩ := same_object_iff.mp h
  -- as many keys on both sides, so no key of `bs` is left over
  have hsub : keys as ⊆ keys bs := by
    intro k hk
    obtain ⟨⟨k, a⟩, hka, rfl⟩ := List.mem_map.mp hk
    obtain ⟨b, hb, -⟩ := hmem k a hka
    exact find?_isSome_iff.mp (by rw [hb]; rfl)
  have hperm : (keys as).Perm (keys bs) :=
    (List.subperm_of_subset ha hsub).perm_of_length_le (by simp [keys, hlen])
  cases hf : find? as key with
  | none =>
    rw [find?_eq_none_iff, hperm.mem_iff] at hf
    rw [find?_eq_none_iff.mpr hf]
    exact .none
  | some a =>
    obtain ⟨b, hkb, hab⟩ := hmem key a (mem_of_find?_eq_some hf)
    rw [hkb]
    exact .some hab

/-- Objects that find the same values are equal. -/
theorem same_object_of_find?_eq {as bs : Members} (ha : (Value.object as).WellFormed)
    (hb : (keys bs).Nodup) (h : ∀ key, find? as key = find? bs key) :
    (Value.object as).same (.object bs) = true := by
  obtain ⟨hn, hw⟩ := wellFormed_object.mp ha
  have hperm : as.Perm bs := perm_of_find?_eq hn hb h
  refine same_object_iff.mpr ⟨hperm.length_eq, fun k a hmem => ⟨a, ?_, same_refl (hw k a hmem)⟩⟩
  rw [← h k, find?_eq_some_of_mem hn hmem]

/-! ## Reordered values -/

mutual

/-- The other value is this one with the members of objects in another order. -/
def Reordered : Value → Value → Prop
  | .array items, w => ∃ others, w = .array others ∧ ReorderedItems items others
  | .object members, w => ∃ others, w = .object others ∧
      (keys members).Perm (keys others) ∧ ReorderedMembers members others
  | v, w => v = w

/-- The other items are these, one by one, with members in another order. -/
def ReorderedItems : List Value → List Value → Prop
  | [], ws => ws = []
  | v :: vs, ws => ∃ w rest, ws = w :: rest ∧ v.Reordered w ∧ ReorderedItems vs rest

/-- The other members give each of these keys its value, with members in another order. -/
def ReorderedMembers : List (String × Value) → List (String × Value) → Prop
  | [], _ => True
  | (k, v) :: rest, others =>
    (∃ w, find? others k = some w ∧ v.Reordered w) ∧ ReorderedMembers rest others

end

theorem reorderedItems_iff {vs ws : List Value} :
    ReorderedItems vs ws ↔ List.Forall₂ Reordered vs ws := by
  induction vs generalizing ws with
  | nil => simp [ReorderedItems]
  | cons v vs ih =>
    rw [ReorderedItems]
    constructor
    · rintro ⟨w, rest, rfl, hv, hvs⟩
      exact .cons hv (ih.mp hvs)
    · rintro (_ | ⟨hv, hvs⟩)
      exact ⟨_, _, rfl, hv, ih.mpr hvs⟩

/-- Members are reorderings of what the other object finds. -/
theorem reorderedMembers_iff {ms ns : Members} :
    ReorderedMembers ms ns ↔
      ∀ k v, (k, v) ∈ ms → ∃ w, find? ns k = some w ∧ v.Reordered w := by
  induction ms with
  | nil => simp [ReorderedMembers]
  | cons m ms ih =>
    obtain ⟨k, v⟩ := m
    simp only [ReorderedMembers, ih, List.mem_cons, Prod.mk.injEq]
    constructor
    · rintro ⟨hv, hms⟩ k' v' (⟨rfl, rfl⟩ | hmem)
      · exact hv
      · exact hms k' v' hmem
    · intro h
      exact ⟨h k v (.inl ⟨rfl, rfl⟩), fun k' v' hmem => h k' v' (.inr hmem)⟩

/-- An array keeps the order of its items, each of which may be reordered inside. -/
theorem reordered_array {vs ws : List Value} :
    (Value.array vs).Reordered (.array ws) ↔ List.Forall₂ Reordered vs ws := by
  simp [Reordered, reorderedItems_iff]

/-- Objects that find reordered values for every key are reordered. -/
theorem reordered_object {ms ns : Members} (hm : (keys ms).Nodup) (hn : (keys ns).Nodup)
    (h : ∀ key, Option.Rel Reordered (find? ms key) (find? ns key)) :
    (Value.object ms).Reordered (.object ns) := by
  refine ⟨ns, rfl, (List.perm_ext_iff_of_nodup hm hn).mpr fun key => ?_,
    reorderedMembers_iff.mpr fun k v hmem => ?_⟩
  · rw [← find?_isSome_iff, ← find?_isSome_iff]
    have hkey := h key
    generalize find? ms key = found, find? ns key = other at hkey
    cases hkey <;> rfl
  · have hk := h k
    rw [find?_eq_some_of_mem hm hmem] at hk
    generalize find? ns k = found at hk
    rcases hk with hvw | _
    exact ⟨_, rfl, hvw⟩

/-- A well-formed value is a reordering of itself. -/
theorem reordered_refl {v : Value} (h : v.WellFormed) : v.Reordered v := by
  induction v using Value.induction with
  | null | bool b | number n | string s => rfl
  | array items ih =>
    rw [reordered_array, List.forall₂_same]
    exact fun v hv => ih v hv (wellFormed_array.mp h v hv)
  | object members ih =>
    obtain ⟨hn, hw⟩ := wellFormed_object.mp h
    refine reordered_object hn hn fun key => ?_
    cases hf : find? members key with
    | none => exact .none
    | some v =>
      have hmem := mem_of_find?_eq_some hf
      exact .some (ih key v hmem (hw key v hmem))

end Value

end TypedCall.Json
