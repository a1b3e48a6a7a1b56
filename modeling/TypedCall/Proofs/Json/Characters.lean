import TypedCall.Proofs.Json.Numbers
import TypedCall.Proofs.Json.Strings

/-!
# The characters of written documents

Numbers, strings and compact documents are each written with few characters. A number shows
characters of numbers only, a string shows its own characters and those of escapes, and a compact
document shows no control character at all (`not_isControl_compactChars`): those in its strings and
keys are written as escapes, and it has no new lines of its own. So it stands on one line.
-/

namespace TypedCall.Json

/-! ## Strings -/

/-- The characters that escapes consist of. -/
def escapeChars : List Char :=
  ['\\', '"', 'n', 'r', 't', 'b', 'f', 'u', '0', '1', '2', '3', '4', '5', '6', '7', '8', '9',
    'a', 'c', 'd', 'e']

/-- A written character shows itself or the characters of an escape. -/
theorem mem_writtenChar {c d : Char} (h : d ∈ writtenChar c) :
    (d = c ∧ IsPlain c) ∨ d ∈ escapeChars := by
  by_cases hquote : c = '"'
  · have hall : writtenChar '"' ⊆ escapeChars := by decide
    exact .inr (hall (hquote ▸ h))
  by_cases hslash : c = '\\'
  · have hall : writtenChar '\\' ⊆ escapeChars := by decide
    exact .inr (hall (hslash ▸ h))
  by_cases hcontrol : c.toNat < 0x20
  · have hall : ∀ n < 0x20, writtenChar (Char.ofNat n) ⊆ escapeChars := by decide
    exact .inr (hall c.toNat hcontrol (by rwa [Char.ofNat_toNat]))
  · rw [writtenChar, if_neg hquote, if_neg hslash, if_neg hcontrol] at h
    exact .inl ⟨List.mem_singleton.mp h, hquote, hslash, hcontrol⟩

/-! ## Numbers -/

theorem isNumberChar_digits {n : Nat} : ∀ c ∈ Nat.toDigits 10 n, IsNumberChar c :=
  fun _ hc => .inl (isDigit_of_mem_toDigits hc)

/-- Written out in full, a decimal shows digits and a point. -/
theorem isNumberChar_positionalText (layout : NumberLayout) (d : Decimal) :
    ∀ c ∈ layout.positionalText d, IsNumberChar c := by
  have hdigits := @isNumberChar_digits d.digits
  have hpoint : IsNumberChar '.' := .inr (by simp)
  have hzero : IsNumberChar '0' := .inl rfl
  have hzeros : ∀ k, ∀ c ∈ List.replicate k '0', IsNumberChar c := fun k c hc =>
    (List.mem_replicate.mp hc).2 ▸ hzero
  rw [NumberLayout.positionalText]
  cases d.exponent with
  | ofNat e =>
    have hend : ∀ c ∈ (if layout.pointZero then ['.', '0'] else []), IsNumberChar c := by
      split
      · simp [hpoint, hzero]
      · simp
    simp only [List.forall_mem_append]
    exact ⟨⟨hdigits, hzeros e⟩, hend⟩
  | negSucc e =>
    dsimp only
    -- the point stands among the digits, or before them
    split
    · simp only [List.forall_mem_append, List.forall_mem_cons]
      exact ⟨fun c hc => hdigits c (List.mem_of_mem_take hc), hpoint,
        fun c hc => hdigits c (List.mem_of_mem_drop hc)⟩
    · simp only [List.forall_mem_append, List.forall_mem_cons]
      exact ⟨hzero, hpoint, hzeros _, hdigits⟩

/-- Written with an exponent, a decimal shows digits, a point, the mark of the exponent and a sign.
-/
theorem isNumberChar_exponentText (d : Decimal) :
    ∀ c ∈ NumberLayout.exponentText d, IsNumberChar c := by
  have hdigits := @isNumberChar_digits d.digits
  have hpoint : IsNumberChar '.' := .inr (by simp)
  have hmark : IsNumberChar 'e' := .inr (by simp)
  have hsign : IsNumberChar (if d.scientific < 0 then '-' else '+') := by
    split
    · exact .inr (by simp)
    · exact .inr (by simp)
  rw [NumberLayout.exponentText]
  simp only [List.forall_mem_append, List.forall_mem_cons]
  refine ⟨?_, hmark, hsign, isNumberChar_digits⟩
  -- the point stands behind the first digit, if there are others
  split
  · next heq =>
    rw [heq] at hdigits
    simp only [List.forall_mem_cons] at hdigits ⊢
    exact ⟨hdigits.1, hpoint, hdigits.2⟩
  · exact hdigits

/-- A written number shows nothing but characters of numbers. -/
theorem isNumberChar_written (n : Number) : ∀ c ∈ n.written, IsNumberChar c := by
  have hminus : IsNumberChar '-' := .inr (by simp)
  cases n with
  | integer i =>
    cases i with
    | ofNat n => exact isNumberChar_digits
    | negSucc n => exact List.forall_mem_cons.mpr ⟨hminus, isNumberChar_digits⟩
  | double x =>
    have hsign : ∀ c ∈ (if x.negative then ['-'] else []), IsNumberChar c := by
      split
      · simp [hminus]
      · simp
    rw [Number.written, NumberLayout.text, NumberLayout.decimalText]
    refine List.forall_mem_append.mpr ⟨hsign, ?_⟩
    split
    · exact isNumberChar_positionalText _ _
    · exact isNumberChar_exponentText _

/-! ## Control characters -/

/-- A control character, which JSON does not allow inside a string. -/
def IsControl (c : Char) : Prop := c.toNat < 0x20

instance : DecidablePred IsControl := fun c => inferInstanceAs (Decidable (c.toNat < 0x20))

/-- No character of a number is a control character. -/
theorem not_isControl_of_isNumberChar {c : Char} (h : IsNumberChar c) : ¬ IsControl c := by
  rcases h with hdigit | hmark
  · simp only [Char.isDigit, Bool.and_eq_true, decide_eq_true_eq] at hdigit
    have hlow : 48 ≤ c.toNat := hdigit.1
    rw [IsControl]
    omega
  · have hall : ∀ d ∈ ['.', 'e', 'E', '+', '-'], ¬ IsControl d := by simp [IsControl]
    exact hall c hmark

/-- A written string shows no control character, whatever the string holds. -/
theorem not_isControl_writtenString (s : String) : ∀ c ∈ writtenString s, ¬ IsControl c := by
  have hchar : ∀ c ∈ s.toList.flatMap writtenChar, ¬ IsControl c := by
    intro d hd
    obtain ⟨c, -, hc⟩ := List.mem_flatMap.mp hd
    rcases mem_writtenChar hc with ⟨rfl, hplain⟩ | hescape
    · exact hplain.2.2
    · have hall : ∀ d ∈ escapeChars, ¬ IsControl d := by simp [escapeChars, IsControl]
      exact hall d hescape
  have hquote : ¬ IsControl '"' := by decide
  simp only [writtenString, List.forall_mem_append, List.forall_mem_cons]
  exact ⟨⟨hquote, hchar⟩, hquote, List.forall_mem_nil _⟩

/-- Outside of separators, joined texts show what the texts show. -/
theorem mem_intercalate_iff {separator : List Char} {c : Char} (hc : c ∉ separator)
    (parts : List (List Char)) : c ∈ separator.intercalate parts ↔ ∃ part ∈ parts, c ∈ part := by
  induction parts with
  | nil => simp
  | cons first parts ih =>
    cases parts with
    | nil => simp
    | cons second parts =>
      rw [List.intercalate_cons_cons, List.mem_append, List.mem_append, ih]
      simp [hc]

/-- Commas between texts bring no control characters in. -/
theorem not_isControl_commas {texts : List (List Char)}
    (h : ∀ text ∈ texts, ∀ c ∈ text, ¬ IsControl c) :
    ∀ c ∈ [','].intercalate texts, ¬ IsControl c := by
  intro c hc hcontrol
  have hcomma : c ∉ [','] := by
    intro hmem
    rw [List.mem_singleton.mp hmem] at hcontrol
    exact absurd hcontrol (by decide)
  obtain ⟨text, htext, hc⟩ := (mem_intercalate_iff hcomma texts).mp hc
  exact h text htext c hc hcontrol

namespace Value

/-- The text of a member. -/
def compactMember (m : String × Value) : List Char := writtenString m.1 ++ ':' :: m.2.compactChars

/-- The items of a compact array stand between commas. -/
theorem compactItems_eq (items : List Value) :
    compactItems items = [','].intercalate (items.map compactChars) := by
  induction items with
  | nil => rfl
  | cons v vs ih =>
    cases vs with
    | nil => simp [compactItems]
    | cons w ws =>
      rw [compactItems, ih]
      · simp [List.intercalate_cons_cons]
      · simp

/-- The members of a compact object stand between commas. -/
theorem compactMembers_eq (members : Members) :
    compactMembers members = [','].intercalate (members.map compactMember) := by
  induction members with
  | nil => rfl
  | cons m ms ih =>
    obtain ⟨k, v⟩ := m
    cases ms with
    | nil => simp [compactMembers, compactMember]
    | cons m ms =>
      rw [compactMembers, ih]
      · simp [compactMember, List.intercalate_cons_cons]
      · simp

/-- A compact text shows no control character, whatever the value holds. -/
theorem not_isControl_compactChars (v : Value) : ∀ c ∈ v.compactChars, ¬ IsControl c := by
  induction v using Value.induction with
  | null => simp [compactChars, IsControl]
  | bool b => cases b <;> simp [compactChars, IsControl]
  | number n => exact fun c hc => not_isControl_of_isNumberChar (isNumberChar_written n c hc)
  | string s => exact not_isControl_writtenString s
  | array items ih =>
    have hitems : ∀ c ∈ compactItems items, ¬ IsControl c := by
      rw [compactItems_eq]
      refine not_isControl_commas fun text htext => ?_
      obtain ⟨v, hv, rfl⟩ := List.mem_map.mp htext
      exact ih v hv
    simp only [compactChars, List.forall_mem_append, List.forall_mem_cons]
    exact ⟨by decide, hitems, by decide, List.forall_mem_nil _⟩
  | object members ih =>
    have hmembers : ∀ c ∈ compactMembers members, ¬ IsControl c := by
      rw [compactMembers_eq]
      refine not_isControl_commas fun text htext => ?_
      obtain ⟨⟨k, v⟩, hm, rfl⟩ := List.mem_map.mp htext
      simp only [compactMember, List.forall_mem_append, List.forall_mem_cons]
      exact ⟨not_isControl_writtenString k, by decide, ih k v hm⟩
    simp only [compactChars, List.forall_mem_append, List.forall_mem_cons]
    exact ⟨by decide, hmembers, by decide, List.forall_mem_nil _⟩

end Value

end TypedCall.Json
