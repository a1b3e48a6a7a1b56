import Mathlib.Algebra.Group.Nat.Defs

/-!
# The order of bytes

Texts are ordered by their characters. The bytes of their UTF-8 forms are in the same order
(`bytes_lt_bytes`), for of two characters that differ, the first byte that differs is smaller in
the form of the smaller one. A form is a leading byte, which tells by its value how many bytes
continue it, and these bytes with six bits each.
-/

namespace TypedCall.Text

/-- The bytes of a text in UTF-8. -/
def bytes (s : String) : List UInt8 := s.toUTF8.data.toList

/-- The bytes of a text are those of its characters, one after the other. -/
theorem bytes_eq (s : String) : bytes s = s.toList.flatMap String.utf8EncodeChar := by
  have h : s.toByteArray = s.toList.utf8Encode := by
    rw [← String.toByteArray_ofList, String.ofList_toList]
  rw [bytes, String.toUTF8, h, List.utf8Encode]
  simp

/-! ## Characters -/

/-- How many bytes continue the form of a code point. -/
def continuing (v : Nat) : Nat :=
  if v ≤ 127 then 0 else if v ≤ 2047 then 1 else if v ≤ 65535 then 2 else 3

/-- The leading byte of the form of a code point. -/
def lead (v : Nat) : Nat :=
  if v ≤ 127 then v else if v ≤ 2047 then 192 + v / 64 else if v ≤ 65535 then 224 + v / 4096
  else 240 + v / 262144

/-- The `k` lowest groups of six bits, the highest of them first. -/
def groups (v : Nat) : (k : Nat) → List UInt8
  | 0 => []
  | k + 1 => UInt8.ofNat (v / 64 ^ k % 64 + 128) :: groups v k

theorem toNat_lt (c : Char) : c.val.toNat < 1114112 := by
  have hvalid : c.val.toNat.isValidChar := c.valid
  unfold Nat.isValidChar at hvalid
  omega

/-- A character is encoded as its leading byte and then groups of six bits. -/
theorem utf8EncodeChar_eq (c : Char) :
    String.utf8EncodeChar c =
      UInt8.ofNat (lead c.val.toNat) :: groups c.val.toNat (continuing c.val.toNat) := by
  have hv := toNat_lt c
  rw [String.utf8EncodeChar, lead, continuing]
  generalize c.val.toNat = v at hv
  split
  · rfl
  split
  · have hlead : v / 64 % 32 + 192 = 192 + v / 64 := by omega
    simp [groups, hlead]
  split
  · have hlead : v / 4096 % 16 + 224 = 224 + v / 4096 := by omega
    simp [groups, hlead]
  · have hlead : v / 262144 % 8 + 240 = 240 + v / 262144 := by omega
    simp [groups, hlead]

theorem lead_cases (v : Nat) :
    (v ≤ 127 ∧ lead v = v ∧ continuing v = 0) ∨
      (127 < v ∧ v ≤ 2047 ∧ lead v = 192 + v / 64 ∧ continuing v = 1) ∨
      (2047 < v ∧ v ≤ 65535 ∧ lead v = 224 + v / 4096 ∧ continuing v = 2) ∨
      (65535 < v ∧ lead v = 240 + v / 262144 ∧ continuing v = 3) := by
  rw [lead, continuing]
  split
  · omega
  split
  · omega
  split <;> omega

/-- A greater code point has a greater leading byte, or differs from the smaller one in the
continuing bytes only. -/
theorem lead_lt_or {m n : Nat} (h : m < n) :
    lead m < lead n ∨ (lead m = lead n ∧ continuing m = continuing n ∧
      m / 64 ^ continuing n = n / 64 ^ continuing n) := by
  rcases lead_cases n with ⟨hn, hlead, hk⟩ | ⟨hl, hn, hlead, hk⟩ | ⟨hl, hn, hlead, hk⟩ |
    ⟨hl, hlead, hk⟩
  all_goals
    rw [hlead, hk]
    have hm := lead_cases m
    simp only [Nat.reducePow, Nat.pow_zero, Nat.div_one]
    omega

/-- Bytes are compared by the first of them that differs. -/
theorem ofNat_cons_lt {m n : Nat} (hn : n < 256) {as bs : List UInt8}
    (h : m < n ∨ (m = n ∧ as < bs)) : UInt8.ofNat m :: as < UInt8.ofNat n :: bs := by
  rw [List.cons_lt_cons_iff]
  rcases h with h | ⟨rfl, h⟩
  · left
    rw [UInt8.lt_iff_toNat_lt, UInt8.toNat_ofNat', UInt8.toNat_ofNat', Nat.mod_eq_of_lt hn,
      Nat.mod_eq_of_lt (Nat.lt_trans h hn)]
    exact h
  · exact .inr ⟨rfl, h⟩

/-- Numbers that agree above their lowest groups are ordered as these. -/
theorem groups_append_lt {m n k : Nat} (h : m < n) (heq : m / 64 ^ k = n / 64 ^ k)
    (as bs : List UInt8) : groups m k ++ as < groups n k ++ bs := by
  induction k with
  | zero =>
    simp only [Nat.pow_zero, Nat.div_one] at heq
    omega
  | succ k ih =>
    rw [Nat.pow_succ, ← Nat.div_div_eq_div_mul, ← Nat.div_div_eq_div_mul] at heq
    have hle : m / 64 ^ k ≤ n / 64 ^ k := Nat.div_le_div_right (Nat.le_of_lt h)
    refine ofNat_cons_lt (by omega) ?_
    -- the highest group decides, unless the numbers agree above the other groups as well
    rcases Nat.lt_or_eq_of_le hle with hlt | hdigits
    · exact .inl (by omega)
    · exact .inr ⟨by rw [hdigits], ih hdigits⟩

/-- Of two characters that differ, the form of the smaller one stands before that of the other,
whatever follows them. -/
theorem utf8EncodeChar_append_lt {c d : Char} (h : c < d) (as bs : List UInt8) :
    String.utf8EncodeChar c ++ as < String.utf8EncodeChar d ++ bs := by
  have hlt : c.val.toNat < d.val.toNat := h
  have hbyte : lead d.val.toNat < 256 := by
    have hd := toNat_lt d
    have hlead := lead_cases d.val.toNat
    omega
  rw [utf8EncodeChar_eq, utf8EncodeChar_eq]
  refine ofNat_cons_lt hbyte ?_
  rcases lead_lt_or hlt with hlead | ⟨hlead, hcontinuing, heq⟩
  · exact .inl hlead
  · rw [hcontinuing]
    exact .inr ⟨hlead, groups_append_lt hlt heq as bs⟩

/-- Smaller texts have smaller bytes. -/
theorem bytes_lt_bytes {s t : String} (h : s < t) : bytes s < bytes t := by
  rw [String.lt_iff] at h
  rw [bytes_eq, bytes_eq]
  generalize s.toList = cs at h
  generalize t.toList = ds at h
  induction h with
  | @nil d ds =>
    rw [List.flatMap_nil, List.flatMap_cons, utf8EncodeChar_eq]
    exact .nil
  | @cons c cs ds _ ih =>
    rw [List.flatMap_cons, List.flatMap_cons]
    exact List.append_left_lt ih
  | @rel c cs d ds h =>
    rw [List.flatMap_cons, List.flatMap_cons]
    exact utf8EncodeChar_append_lt h _ _

end TypedCall.Text
