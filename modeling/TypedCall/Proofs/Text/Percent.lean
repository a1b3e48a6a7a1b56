import TypedCall.Text.Percent
import TypedCall.Proofs.Text.Bytes

/-!
# Percent encoding loses nothing

A percent-encoded text is made of unreserved characters and escapes (`IsPercentEncoded`), and
decoding it gives the bytes of the text that was encoded (`decodePercent_encodePercent`). Texts of
the same bytes are the same, so no two texts are encoded alike (`encodePercent_inj`).
-/

namespace TypedCall.Text

/-! ## Bytes -/

theorem utf8Char_eq (c : Char) : utf8Char c = String.utf8EncodeChar c := by
  have hcode : c.toNat = c.val.toNat := rfl
  rw [utf8EncodeChar_eq]
  simp only [utf8Char, hcode]
  generalize c.val.toNat = v
  -- one byte, two, three or four: `lead_cases` has the bounds that the encoder compares with
  rcases lead_cases v with ⟨hv, hlead, hk⟩ | ⟨hl, hv, hlead, hk⟩ | ⟨hl, hv, hlead, hk⟩ |
    ⟨hl, hlead, hk⟩
  · rw [if_pos (by omega), hlead, hk]
    rfl
  · rw [if_neg (by omega), if_pos (by omega), hlead, hk]
    simp [groups, Nat.add_comm]
  · rw [if_neg (by omega), if_neg (by omega), if_pos (by omega), hlead, hk]
    simp [groups, Nat.add_comm]
  · rw [if_neg (by omega), if_neg (by omega), if_neg (by omega), hlead, hk]
    simp [groups, Nat.add_comm]

theorem utf8_toList (s : String) : utf8 s.toList = bytes s := by
  have hchars : utf8Char = String.utf8EncodeChar := funext utf8Char_eq
  rw [bytes_eq, utf8, hchars]

/-- Texts of the same bytes are the same. -/
theorem bytes_injective : Function.Injective bytes := by
  intro s t h
  have hdata : s.toByteArray.data = t.toByteArray.data := Array.toList_inj.mp h
  exact String.toByteArray_inj.mp (ByteArray.ext hdata)

/-! ## Encoded texts -/

/-- The characters that stand for themselves. -/
def Unreserved (c : Char) : Prop := c.isAlphanum = true ∨ c ∈ ['-', '_', '.', '~']

/-- The digits of escapes. -/
def UpperHexDigit (c : Char) : Prop := c.isDigit = true ∨ c ∈ ['A', 'B', 'C', 'D', 'E', 'F']

/-- A text of unreserved characters and of escapes, each a percent sign and two digits. -/
inductive IsPercentEncoded : List Char → Prop
  | nil : IsPercentEncoded []
  | kept {c rest} (hc : Unreserved c) (h : IsPercentEncoded rest) : IsPercentEncoded (c :: rest)
  | escaped {high low rest} (hhigh : UpperHexDigit high) (hlow : UpperHexDigit low)
    (h : IsPercentEncoded rest) : IsPercentEncoded ('%' :: high :: low :: rest)

theorem isAlphanum_iff {c : Char} :
    c.isAlphanum = true ↔ ('A' ≤ c ∧ c ≤ 'Z') ∨ ('a' ≤ c ∧ c ≤ 'z') ∨ ('0' ≤ c ∧ c ≤ '9') := by
  have halphanum : c.isAlphanum = (decide ('A' ≤ c ∧ c ≤ 'Z') || (decide ('a' ≤ c) &&
      decide (c ≤ 'z')) || (decide ('0' ≤ c) && decide (c ≤ '9'))) := rfl
  simp only [halphanum, Bool.or_eq_true, Bool.and_eq_true, decide_eq_true_eq, or_assoc]

/-- The test for unreserved characters decides which they are. -/
theorem isUnreserved_iff {c : Char} : isUnreserved c = true ↔ Unreserved c := by
  rw [Unreserved, isAlphanum_iff]
  simp only [isUnreserved, Bool.or_eq_true, Bool.and_eq_true, decide_eq_true_eq, beq_iff_eq,
    List.mem_cons, List.not_mem_nil, or_false, or_assoc]

/-- Unreserved characters are of one byte, and none of them begins an escape. -/
theorem Unreserved.lt {c : Char} (h : Unreserved c) : c.toNat < 128 ∧ c ≠ '%' := by
  constructor
  · -- the tilde is the last of these characters
    suffices htilde : c ≤ '~' from Nat.lt_of_le_of_lt htilde (by decide)
    rcases h with h | h
    · obtain ⟨-, hupper⟩ | ⟨-, hlower⟩ | ⟨-, hdigit⟩ := isAlphanum_iff.mp h
      · exact Char.le_trans hupper (by decide)
      · exact Char.le_trans hlower (by decide)
      · exact Char.le_trans hdigit (by decide)
    · simp only [List.mem_cons, List.not_mem_nil, or_false] at h
      rcases h with rfl | rfl | rfl | rfl <;> decide
  · intro hpercent
    subst hpercent
    revert h
    unfold Unreserved
    decide

/-- Every digit of an escape is read back as its value. -/
theorem upperHexDigit_spec : ∀ n < 16,
    UpperHexDigit (upperHexDigit n) ∧ upperHexValue? (upperHexDigit n) = some n := by
  unfold UpperHexDigit
  decide

theorem IsPercentEncoded.append {as bs : List Char} (ha : IsPercentEncoded as)
    (hb : IsPercentEncoded bs) : IsPercentEncoded (as ++ bs) := by
  induction ha with
  | nil => exact hb
  | kept hc _ ih => exact .kept hc ih
  | escaped hhigh hlow _ ih => exact .escaped hhigh hlow ih

/-- The text is percent-encoded and stands for the bytes, whatever follows it. -/
structure Encodes (text : List Char) (bs : List UInt8) : Prop where
  encoded : IsPercentEncoded text
  decode_append : ∀ rest, decodePercent (text ++ rest) = (decodePercent rest).map (bs ++ ·)

theorem encodes_nil : Encodes [] [] := by
  refine ⟨.nil, fun rest => ?_⟩
  rw [List.nil_append]
  exact Option.map_id_apply.symm

/-- Texts that stand for bytes stand for all of them when one is put behind the other. -/
theorem Encodes.append {s t : List Char} {bs cs : List UInt8} (hs : Encodes s bs)
    (ht : Encodes t cs) : Encodes (s ++ t) (bs ++ cs) := by
  refine ⟨hs.encoded.append ht.encoded, fun rest => ?_⟩
  rw [List.append_assoc, hs.decode_append, ht.decode_append, Option.map_map]
  simp only [Function.comp_def, List.append_assoc]

/-- Pieces that stand for bytes stand for all of them, one after the other. -/
theorem encodes_flatMap {α : Type} {f : α → List Char} {g : α → List UInt8}
    (h : ∀ a, Encodes (f a) (g a)) (as : List α) : Encodes (as.flatMap f) (as.flatMap g) := by
  induction as with
  | nil => exact encodes_nil
  | cons a as ih =>
    rw [List.flatMap_cons, List.flatMap_cons]
    exact (h a).append ih

/-- An escape stands for its byte. -/
theorem encodes_percentByte (b : UInt8) : Encodes (percentByte b) [b] := by
  have hb := b.toNat_lt
  obtain ⟨hhigh, hvalue⟩ := upperHexDigit_spec (b.toNat / 16) (by omega)
  obtain ⟨hlow, hvalue'⟩ := upperHexDigit_spec (b.toNat % 16) (by omega)
  refine ⟨.escaped hhigh hlow .nil, fun rest => ?_⟩
  have hbyte : UInt8.ofNat (b.toNat / 16 * 16 + b.toNat % 16) = b := by
    rw [Nat.div_add_mod']
    exact UInt8.ofNat_toNat
  rw [percentByte, List.cons_append, List.cons_append, List.cons_append, List.nil_append,
    decodePercent, hvalue, hvalue']
  simp only [Option.bind_eq_bind, Option.bind_some, hbyte]
  cases decodePercent rest <;> rfl

/-- An unreserved character stands for its own byte. -/
theorem encodes_unreserved {c : Char} (hc : Unreserved c) : Encodes [c] [UInt8.ofNat c.toNat] := by
  refine ⟨.kept hc .nil, fun rest => ?_⟩
  have hkept := isUnreserved_iff.mpr hc
  rw [List.singleton_append, decodePercent, if_pos hkept]
  · rfl
  -- an escape, which is tried first, would begin with a percent sign
  · intro high low rest' hpercent
    exact absurd hpercent hc.lt.2

/-- A character, escaped or not, stands for its bytes. -/
theorem encodes_percentChar (c : Char) : Encodes (percentChar c) (utf8Char c) := by
  rw [percentChar]
  split
  · next hkept =>
    have hc := isUnreserved_iff.mp hkept
    have hbytes : utf8Char c = [UInt8.ofNat c.toNat] := if_pos hc.lt.1
    rw [hbytes]
    exact encodes_unreserved hc
  · have hbytes := encodes_flatMap encodes_percentByte (utf8Char c)
    rwa [List.flatMap_singleton'] at hbytes

/-- An encoded text stands for the bytes of the text. -/
theorem encodes_encodePercent (s : String) : Encodes (encodePercent s.toList) (bytes s) := by
  rw [← utf8_toList]
  exact encodes_flatMap encodes_percentChar s.toList

theorem decodePercent_encodePercent (s : String) :
    decodePercent (encodePercent s.toList) = some (bytes s) := by
  have hnil := (encodes_encodePercent s).decode_append []
  simpa [decodePercent] using hnil

/-- No two texts are encoded alike. -/
theorem encodePercent_inj {s t : String} :
    encodePercent s.toList = encodePercent t.toList ↔ s = t := by
  constructor
  · intro h
    have hbytes := decodePercent_encodePercent s
    rw [h, decodePercent_encodePercent] at hbytes
    exact bytes_injective (Option.some.inj hbytes).symm
  · intro h
    rw [h]

end TypedCall.Text
