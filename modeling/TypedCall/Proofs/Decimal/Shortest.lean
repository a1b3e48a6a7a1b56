import TypedCall.Decimal.Shortest
import TypedCall.Proofs.Decimal.Rounding

/-!
# The shortest decimal reads back

`shortest` tests what it returns, and falls back on the full expansion, which needs no rounding.
Either way the decimal rounds to the number (`decimalPattern_shortest`). Its leading digit then
stands within the range of binary64 (`scientific_shortest`), so its written exponent is short.
-/

namespace TypedCall

namespace Decimal

variable {d : Decimal} {n : Nat}

theorem digitCount_pos (n : Nat) : 0 < digitCount n := Nat.length_toDigits_pos

/-- A number is less than the power of ten with one digit more. -/
theorem lt_pow_digitCount (n : Nat) : n < 10 ^ digitCount n :=
  (Nat.length_toDigits_le_iff (by decide) (digitCount_pos n)).mp (Nat.le_refl _)

/-- A positive number is no less than the power of ten with as many digits. -/
theorem pow_digitCount_le (h : 0 < n) : 10 ^ (digitCount n - 1) ≤ n := by
  by_contra hlt
  have hpos := digitCount_pos n
  by_cases hone : digitCount n = 1
  · rw [hone] at hlt
    exact hlt h
  · have hle := (Nat.length_toDigits_le_iff (b := 10) (n := n) (k := digitCount n - 1)
      (by decide) (by omega)).mpr (Nat.not_le.mp hlt)
    rw [← digitCount] at hle
    omega

/-- Leaving out zeros at the end of the digits does not change the number. -/
theorem decimalPattern_trimmed {p : Nat} (hp : p < Binary64.infinityPattern) :
    Binary64.decimalPattern d.trimmed.digits d.trimmed.exponent = p ↔
      Binary64.decimalPattern d.digits d.exponent = p := by
  induction d using trimmed.induct with
  | case1 d h ih =>
    rw [trimmed, dif_pos h, ih, ← Binary64.decimalPattern_mul_ten hp]
    have hdigits : d.digits / 10 * 10 = d.digits := Nat.div_mul_cancel (Nat.dvd_of_mod_eq_zero h.2)
    rw [hdigits, Int.add_sub_cancel]
  | case2 d h => rw [trimmed, dif_neg h]

end Decimal

namespace Binary64

variable (x : Binary64)

/-- A magnitude that is written with all its digits is rounded to its own pattern. -/
theorem ratioPattern_units {k p : Nat} (hk : 0 < k) (hscale : Nat.pow 2 k = unitScale)
    (hp : p < 2 ^ 63) : ratioPattern (units p * Nat.pow 5 k) (-k) = p := by
  have hneg : (-k : Int) = .negSucc (k - 1) := by omega
  have hten : units p * Nat.pow 5 k * unitScale = units p * 10 ^ (k - 1 + 1) := by
    rw [← hscale, Nat.pow_eq, Nat.pow_eq, Nat.mul_assoc, ← Nat.mul_pow, Nat.sub_add_cancel hk]
  rw [hneg, ratioPattern, hten, nearestPattern_units hp (Nat.pow_pos (by decide))]

/-- The full expansion needs no rounding. -/
theorem decimalPattern_expansion : decimalPattern x.expansion (-1074) = x.pattern := by
  -- a variable for the exponent, so that no power of it is computed
  obtain ⟨k, hk⟩ : ∃ k : Nat, k = 1074 := ⟨1074, rfl⟩
  have hexp : x.expansion = units x.pattern * Nat.pow 5 k := by rw [expansion, ← hk]
  have hneg : (-1074 : Int) = -k := by omega
  rw [decimalPattern_eq_iff x.pattern_lt, hexp, hneg]
  exact ratioPattern_units (by omega) (two_pow_eq_unitScale hk)
    (Nat.lt_trans x.pattern_lt (by decide))

/-- A candidate for the shortest decimal is only taken if it rounds to the number. -/
theorem decimalPattern_shortestOf {k : Nat} {d : Decimal} (h : x.shortestOf k = some d) :
    decimalPattern d.digits d.exponent = x.pattern := by
  obtain ⟨digits, -, hd⟩ := List.exists_of_findSome?_eq_some h
  split at hd
  · next hreads =>
    obtain rfl := Option.some.inj hd
    rw [Decimal.decimalPattern_trimmed x.pattern_lt]
    exact eq_of_beq hreads
  · cases hd

variable {x} in
theorem shortest_of_isZero (h : x.pattern = 0) : x.shortest = ⟨0, 0⟩ := by
  rw [shortest, isZero, h]
  rfl

/-- The shortest decimal rounds to the number. -/
theorem decimalPattern_shortest :
    decimalPattern x.shortest.digits x.shortest.exponent = x.pattern := by
  by_cases hzero : x.pattern = 0
  · rw [shortest_of_isZero hzero, hzero]
    rfl
  · rw [shortest, isZero, beq_false_of_ne hzero, if_neg Bool.false_ne_true]
    cases hf : (List.range 17).findSome? fun k => x.shortestOf (k + 1) with
    | some d =>
      obtain ⟨k, -, hk⟩ := List.exists_of_findSome?_eq_some hf
      exact x.decimalPattern_shortestOf hk
    -- where no short form rounds back, the whole expansion does
    | none =>
      rw [Option.getD_none, Decimal.decimalPattern_trimmed x.pattern_lt]
      exact x.decimalPattern_expansion

/-- The leading digit of a finite number stands within the range of binary64. -/
theorem scientific_of_decimalPattern {d : Decimal}
    (h : decimalPattern d.digits d.exponent = x.pattern) (hpos : x.pattern ≠ 0) :
    -401 ≤ d.scientific ∧ d.scientific ≤ 400 := by
  rw [decimalPattern_eq_iff x.pattern_lt] at h
  have hdigits : 0 < d.digits := by
    by_contra hzero
    rw [Nat.eq_zero_of_not_pos hzero, ratioPattern_zero] at h
    exact hpos h.symm
  have hcount := Decimal.digitCount_pos d.digits
  rw [Decimal.scientific]
  constructor
  · by_contra hsmall
    have hzero : ratioPattern d.digits d.exponent = 0 :=
      ratioPattern_eq_zero (Decimal.lt_pow_digitCount d.digits) (by omega)
    omega
  · by_contra hlarge
    have hle : infinityPattern ≤ ratioPattern d.digits d.exponent :=
      infinityPattern_le_ratioPattern (Decimal.pow_digitCount_le hdigits) (by omega)
    have hlt := x.pattern_lt
    omega

/-- The leading digit of a shortest decimal stands within the range of binary64. -/
theorem scientific_shortest : -401 ≤ x.shortest.scientific ∧ x.shortest.scientific ≤ 400 := by
  by_cases hzero : x.pattern = 0
  · rw [shortest_of_isZero hzero]
    decide
  · exact x.scientific_of_decimalPattern x.decimalPattern_shortest hzero

end Binary64

end TypedCall
