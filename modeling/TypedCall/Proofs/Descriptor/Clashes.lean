import TypedCall.Json.Printer
import TypedCall.Proofs.Descriptor.RoundTrip

/-!
# Members that are written twice

What is written of a descriptor begins with its tag and the member that the tag owns, and ends with
the members kept as written. Where one of these has a key of the others (`Descriptor.Clashes`), the
written text has the key twice, and is longer than the text of the value that it stands for; it is
the same text where nothing clashes. Nothing clashes in a descriptor that was read.
-/

namespace TypedCall

open Json (Value Members)

/-! ## The length of written members -/

namespace Json.Members

open Json.Value (compactChars compactMembers)

variable {ms more : Members} {k : String} {v : Value}

/-- The characters of a member, with the colon inside and the comma behind it. -/
def width (k : String) (v : Value) : Nat := (writtenString k).length + v.compactChars.length + 2

/-- The characters of members, each with the comma behind it. -/
def totalWidth : List (String × Value) → Nat
  | [] => 0
  | (k, v) :: ms => width k v + totalWidth ms

@[simp] theorem totalWidth_nil : totalWidth [] = 0 := rfl

@[simp] theorem totalWidth_cons : totalWidth ((k, v) :: ms) = width k v + totalWidth ms := rfl

@[simp] theorem totalWidth_append : totalWidth (ms ++ more) = totalWidth ms + totalWidth more := by
  induction ms with
  | nil => rw [List.nil_append, totalWidth_nil, Nat.zero_add]
  | cons m ms ih =>
    obtain ⟨k, v⟩ := m
    rw [List.cons_append, totalWidth_cons, totalWidth_cons, ih, Nat.add_assoc]

/-- There is no comma behind the last member. -/
theorem length_compactMembers (ms : Members) :
    (compactMembers ms).length = totalWidth ms - 1 := by
  induction ms with
  | nil => rfl
  | cons m ms ih =>
    obtain ⟨k, v⟩ := m
    cases ms with
    | nil =>
      simp only [compactMembers, totalWidth_cons, totalWidth_nil, width, List.length_append,
        List.length_cons]
      omega
    | cons m ms =>
      -- the members behind have at least the width of a colon and a comma
      have hwidth : 1 ≤ totalWidth (m :: ms) := by
        obtain ⟨k', v'⟩ := m
        rw [totalWidth_cons, width]
        omega
      simp only [compactMembers, totalWidth_cons, width, List.length_append, List.length_cons, ih]
        at hwidth ⊢
      omega

/-- A value that takes the place of another one makes no new member: there are a colon and a comma
less. -/
theorem totalWidth_insert_of_mem (h : k ∈ keys ms) :
    totalWidth (ms.insert k v) + 2 ≤ totalWidth ms + width k v := by
  induction ms with
  | nil => cases h
  | cons m ms ih =>
    obtain ⟨k', v'⟩ := m
    rw [insert]
    split
    · next heq =>
      have hwidth : 2 ≤ width k v' := Nat.le_add_left 2 _
      rw [totalWidth_cons, totalWidth_cons, heq]
      omega
    · next hne =>
      have hle := ih ((List.mem_cons.mp h).resolve_left fun heq => hne heq.symm)
      rw [totalWidth_cons, totalWidth_cons]
      omega

/-- Inserting members adds their width at most. -/
theorem totalWidth_insertAll_le (ms more : Members) :
    totalWidth (insertAll ms more) ≤ totalWidth ms + totalWidth more := by
  induction more generalizing ms with
  | nil => exact Nat.le_refl _
  | cons m more ih =>
    obtain ⟨k, v⟩ := m
    rw [insertAll_cons, totalWidth_cons]
    have hle := ih (ms.insert k v)
    by_cases hk : k ∈ keys ms
    · have hfewer := totalWidth_insert_of_mem (v := v) hk
      omega
    · rw [insert_of_not_mem hk, totalWidth_append, totalWidth_cons, totalWidth_nil] at hle
      rw [insert_of_not_mem hk]
      omega

/-- Members that repeat a key stand for fewer members. -/
theorem totalWidth_insertAll_of_repeats (hn : (keys ms).Nodup)
    (h : ¬ (keys (ms ++ more)).Nodup) :
    totalWidth (insertAll ms more) + 2 ≤ totalWidth ms + totalWidth more := by
  induction more generalizing ms with
  | nil => exact absurd hn (by simpa using h)
  | cons m more ih =>
    obtain ⟨k, v⟩ := m
    rw [insertAll_cons, totalWidth_cons]
    by_cases hk : k ∈ keys ms
    · have hle := totalWidth_insertAll_le (ms.insert k v) more
      have hfewer := totalWidth_insert_of_mem (v := v) hk
      omega
    · have hrepeats : ¬ (keys (ms.insert k v ++ more)).Nodup := by
        rw [insert_of_not_mem hk, List.append_assoc]
        exact h
      have hfewer := ih (nodup_keys_insert hn) hrepeats
      rw [insert_of_not_mem hk, totalWidth_append, totalWidth_cons, totalWidth_nil] at hfewer
      rw [insert_of_not_mem hk]
      omega

/-- Members are written as the object that they stand for when they repeat no key, and only then. -/
theorem compact_insertAll_eq_iff :
    (Value.object ms).compact = (Value.object (insertAll [] ms)).compact ↔ (keys ms).Nodup := by
  constructor
  · intro h
    by_contra hrepeats
    have hnil : (keys []).Nodup := List.nodup_nil
    have hfewer := totalWidth_insertAll_of_repeats hnil hrepeats
    have hlength := congrArg (fun s : String => s.toList.length) h
    simp only [Value.compact, String.toList_ofList, compactChars, List.length_cons,
      List.length_append, length_compactMembers] at hlength
    rw [totalWidth_nil] at hfewer
    omega
  · intro hn
    rw [insertAll_eq_append (by simpa using hn), List.nil_append]

end Json.Members

namespace Descriptor

variable {d : Descriptor} {key : String}

/-! ## Clashes -/

/-- The keys that are taken in the written form. A variant that has no cases leaves its key to cases
kept as written. -/
def taken : Descriptor → List String
  | compound .record _ _ | compound .tuple _ _ => ["type", "fields"]
  | compound .variant (_ :: _) _ => ["type", "cases"]
  | scalar _ _ | container _ _ | compound .variant [] _ | unknown _ _ => ["type"]

/-- A member kept as written has a key that is taken. -/
def Clashes (d : Descriptor) (key : String) : Prop := key ∈ d.taken ∧ key ∈ d.extra.keys

/-- What is written before the members kept as written. -/
def front (d : Descriptor) : Members := ("type", .string d.tag) :: d.own

/-- The tag and the member that it owns have different keys. -/
theorem nodup_keys_front (d : Descriptor) : d.front.keys.Nodup := by
  have htype := Members.find?_eq_none_iff.mp d.find?_own_type
  rw [front, Members.keys_cons, List.nodup_cons]
  refine ⟨htype, ?_⟩
  rcases own_eq d with h | ⟨k, v, h⟩ <;> simp [h]

/-- A key clashes when it is written both in front and among the members kept as written. -/
theorem clashes_iff : d.Clashes key ↔ key ∈ d.front.keys ∧ key ∈ d.extra.keys := by
  rw [Clashes, front]
  refine and_congr_left fun hextra => ?_
  cases d with
  | scalar type extra | container type extra | unknown tag extra => rfl
  | compound type fields extra =>
    cases type with
    | record | tuple => rfl
    | variant =>
      cases fields with
      | cons f fields => rfl
      | nil =>
        -- the place for cases is written only when it is empty behind
        rw [own, ownMembers]
        split
        · rfl
        · next hnone =>
          have hne : key ≠ "cases" := by
            rintro rfl
            have hfound : (extra.find? "cases").isSome := Members.find?_isSome_iff.mpr hextra
            exact hnone (by rw [fieldsToJson, hfound]; rfl)
          simp [taken, hne]

/-- The keys that are written more than once are those that clash. -/
theorem one_lt_count_iff (h : d.extra.keys.Nodup) :
    1 < d.entries.keys.count key ↔ d.Clashes key := by
  have hfront := List.nodup_iff_count_le_one.mp d.nodup_keys_front key
  have hextra := List.nodup_iff_count_le_one.mp h key
  have hentries : d.entries.keys = d.front.keys ++ d.extra.keys := by
    rw [entries_eq, Members.keys, ← List.cons_append, List.map_append]
    rfl
  rw [hentries, List.count_append, clashes_iff, ← List.one_le_count_iff, ← List.one_le_count_iff]
  omega

/-- No key is written twice where nothing clashes. -/
theorem nodup_keys_entries_iff (h : d.extra.keys.Nodup) :
    d.entries.keys.Nodup ↔ ∀ key, ¬ d.Clashes key := by
  simp only [List.nodup_iff_count_le_one, ← Nat.not_lt, one_lt_count_iff h]

/-- Where nothing clashes, what is written is the value of the descriptor. -/
theorem written_eq_toJson (h : d.extra.keys.Nodup) (hclash : ∀ key, ¬ d.Clashes key) :
    d.written = d.toJson := by
  have hn := (nodup_keys_entries_iff h).mpr hclash
  rw [written, toJson, Members.insertAll_eq_append (by simpa using hn), List.nil_append]

/-- What is written repeats no key in any object, unless something clashes. -/
theorem wellFormed_written_iff (h : d.WellFormed) :
    d.written.WellFormed ↔ ∀ key, ¬ d.Clashes key := by
  constructor
  · intro hw
    exact (nodup_keys_entries_iff h.nodup_keys_extra).mp (Json.Value.wellFormed_object.mp hw).1
  · intro hclash
    rw [written_eq_toJson h.nodup_keys_extra hclash]
    exact wellFormed_toJson h

/-- The written text is that of the value exactly when nothing clashes. -/
theorem compact_written_eq_iff (h : d.WellFormed) :
    d.written.compact = d.toJson.compact ↔ ∀ key, ¬ d.Clashes key := by
  rw [← nodup_keys_entries_iff h.nodup_keys_extra]
  exact Members.compact_insertAll_eq_iff

/-- The tag, and what the tag owns, is not kept as written when a descriptor is read. -/
theorem Canonical.not_clashes (h : d.Canonical) : ¬ d.Clashes key := by
  rintro ⟨htaken, hextra⟩
  have htype : key ≠ "type" := by
    rintro rfl
    exact Members.find?_eq_none_iff.mp h.type hextra
  have hun := h.unambiguous
  cases d with
  | scalar type extra | container type extra | unknown tag extra => simp_all [taken]
  | compound type fields extra =>
    cases type with
    | record | tuple =>
      obtain rfl : key = "fields" := by simpa [taken, htype] using htaken
      exact Members.find?_eq_none_iff.mp hun.1 hextra
    | variant =>
      cases fields with
      | nil => simp_all [taken]
      | cons f fields =>
        obtain rfl : key = "cases" := by simpa [taken, htype] using htaken
        obtain ⟨v, hv⟩ := Option.isSome_iff_exists.mp (Members.find?_isSome_iff.mpr hextra)
        exact absurd (hun.2 v hv).1 (List.cons_ne_nil f fields)

end Descriptor

end TypedCall
