import TypedCall.Decimal.Binary64
import Mathlib.Algebra.Order.Ring.Nat
import Mathlib.Tactic.Ring

/-!
# Rounding to binary64

`units` orders patterns as the magnitudes they stand for, so the search of `floorPattern` finds
the greatest pattern below a ratio (`floorPattern_spec`). What follows is what the writer of
numbers relies on: rounding depends on the ratio alone (`nearestPattern_mul`), keeps what needs no
rounding (`nearestPattern_units`), and a decimal rounds the same however many zeros stand at the
end of its digits (`decimalPattern_mul_ten`).
-/

namespace TypedCall.Binary64

variable {num den c p q : Nat}

/-! ## The order of patterns -/

/-- The magnitude by the exponent and the fraction of a pattern. -/
theorem units_mul_add {e f : Nat} (hf : f < fractionCount) :
    units (fractionCount * e + f) = if e = 0 then f else (fractionCount + f) * 2 ^ (e - 1) := by
  have hdiv : (fractionCount * e + f) / fractionCount = e := by
    rw [Nat.mul_add_div (by decide), Nat.div_eq_of_lt hf, Nat.add_zero]
  have hmod : (fractionCount * e + f) % fractionCount = f := by
    rw [Nat.mul_add_mod, Nat.mod_eq_of_lt hf]
  rw [units, hdiv, hmod, Nat.pow_eq]
  split
  · next h => rw [h, Nat.mul_zero, Nat.zero_add]
  · rfl

/-- The next pattern stands for a greater magnitude, also where the exponent changes. -/
theorem units_lt_units_succ (p : Nat) : units p < units (p + 1) := by
  obtain ⟨e, f, hf, rfl⟩ : ∃ e f, f < fractionCount ∧ p = fractionCount * e + f :=
    ⟨p / fractionCount, p % fractionCount, Nat.mod_lt _ (by decide),
      (Nat.div_add_mod p fractionCount).symm⟩
  rw [units_mul_add hf]
  by_cases hlast : f + 1 = fractionCount
  · -- the fraction is full, and the next pattern has the next exponent
    have hnext : fractionCount * e + f + 1 = fractionCount * (e + 1) + 0 := by
      rw [Nat.add_assoc, hlast, Nat.mul_succ, Nat.add_zero]
    rw [hnext, units_mul_add (by decide), if_neg (Nat.succ_ne_zero e), Nat.add_sub_cancel]
    cases e with
    | zero => simpa using hf
    | succ e =>
      rw [if_neg (Nat.succ_ne_zero e), Nat.add_sub_cancel, pow_succ]
      have hpos : 0 < 2 ^ e := Nat.two_pow_pos e
      calc (fractionCount + f) * 2 ^ e < (fractionCount * 2) * 2 ^ e :=
            Nat.mul_lt_mul_of_pos_right (by omega) hpos
        _ = (fractionCount + 0) * (2 ^ e * 2) := by ring
  · rw [Nat.add_assoc, units_mul_add (by omega)]
    split
    · omega
    · exact Nat.mul_lt_mul_of_pos_right (by omega) (Nat.two_pow_pos _)

/-- Patterns are ordered as the magnitudes that they stand for. -/
theorem units_strictMono : StrictMono units := strictMono_nat_of_lt_succ units_lt_units_succ

@[simp] theorem units_zero : units 0 = 0 := rfl

theorem units_pos (h : 0 < p) : 0 < units p := units_strictMono h

/-! ## The search for a pattern -/

/-- The search ends at the greatest pattern in its range that does not exceed the ratio. -/
theorem raisePattern_spec (bits : Nat) (h : units p * den ≤ num) :
    raisePattern num den bits p < p + 2 ^ bits ∧
      units (raisePattern num den bits p) * den ≤ num ∧
      ∀ q, raisePattern num den bits p < q → q < p + 2 ^ bits → num < units q * den := by
  induction bits generalizing p with
  | zero =>
    rw [raisePattern]
    exact ⟨by omega, h, fun q hq hlt => by omega⟩
  | succ bits ih =>
    rw [raisePattern, Nat.pow_eq, pow_succ]
    have hpos : 0 < 2 ^ bits := Nat.two_pow_pos bits
    by_cases hbit : units (p + 2 ^ bits) * den ≤ num
    · rw [if_pos hbit]
      obtain ⟨hlt, hle, hmax⟩ := ih hbit
      exact ⟨by omega, hle, fun q hq hlt => hmax q hq (by omega)⟩
    · rw [if_neg hbit]
      obtain ⟨hlt, hle, hmax⟩ := ih h
      refine ⟨by omega, hle, fun q hq hqlt => ?_⟩
      by_cases hrange : q < p + 2 ^ bits
      · exact hmax q hq hrange
      · -- above the bit that was refused, magnitudes only grow
        have hmono : units (p + 2 ^ bits) ≤ units q :=
          units_strictMono.monotone (Nat.not_lt.mp hrange)
        exact Nat.lt_of_lt_of_le (Nat.not_le.mp hbit) (Nat.mul_le_mul_right den hmono)

/-- Of all patterns the search finds the greatest whose magnitude does not exceed the ratio. -/
theorem floorPattern_spec (num den : Nat) :
    floorPattern num den < 2 ^ 63 ∧ units (floorPattern num den) * den ≤ num ∧
      ∀ q, floorPattern num den < q → q < 2 ^ 63 → num < units q * den := by
  have hzero : units 0 * den ≤ num := by simp
  have h := raisePattern_spec 63 hzero
  rw [Nat.zero_add] at h
  exact h

/-- A pattern that does not exceed the ratio stands below the one that is found. -/
theorem le_floorPattern (hq : q < 2 ^ 63) (h : units q * den ≤ num) :
    q ≤ floorPattern num den := by
  by_contra hlt
  exact absurd h (Nat.not_le.mpr ((floorPattern_spec num den).2.2 q (Nat.not_le.mp hlt) hq))

/-- The magnitude of a pattern leads to that pattern. -/
theorem floorPattern_units (hp : p < 2 ^ 63) (hc : 0 < c) : floorPattern (units p * c) c = p := by
  refine Nat.le_antisymm ?_ (le_floorPattern hp (Nat.le_refl _))
  have hle := (floorPattern_spec (units p * c) c).2.1
  exact units_strictMono.le_iff_le.mp (Nat.le_of_mul_le_mul_right hle hc)

/-! ## The nearest pattern -/

/-- Rounding never goes below the pattern that the search finds. -/
theorem floorPattern_le_nearestPattern (num den : Nat) :
    floorPattern num den ≤ nearestPattern num den := by
  rw [nearestPattern]
  split <;> omega

/-- A magnitude that needs no rounding is kept. -/
theorem nearestPattern_units (hp : p < 2 ^ 63) (hc : 0 < c) :
    nearestPattern (units p * c) c = p := by
  have habove : units p * c < units (p + 1) * c :=
    Nat.mul_lt_mul_of_pos_right (units_lt_units_succ p) hc
  simp only [nearestPattern, floorPattern_units hp hc]
  rw [if_pos (.inl (by omega))]

/-- The search depends on the ratio alone. -/
theorem raisePattern_mul (hc : 0 < c) (bits p : Nat) :
    raisePattern (num * c) (den * c) bits p = raisePattern num den bits p := by
  induction bits generalizing p with
  | zero => rfl
  | succ bits ih =>
    have hiff : units (p + Nat.pow 2 bits) * (den * c) ≤ num * c ↔
        units (p + Nat.pow 2 bits) * den ≤ num := by
      rw [← Nat.mul_assoc]
      exact Nat.mul_le_mul_right_iff hc
    rw [raisePattern, raisePattern, ih]
    simp only [hiff]

/-- Rounding depends on the ratio alone. -/
theorem nearestPattern_mul (hc : 0 < c) :
    nearestPattern (num * c) (den * c) = nearestPattern num den := by
  have hbelow : ∀ a b : Nat, a * c - b * (den * c) = (a - b * den) * c := fun a b => by
    rw [Nat.sub_mul, Nat.mul_assoc]
  have habove : ∀ a b : Nat, a * (den * c) - b * c = (a * den - b) * c := fun a b => by
    rw [Nat.sub_mul, Nat.mul_assoc]
  have hlt : ∀ a b : Nat, a * c < b * c ↔ a < b := fun a b => Nat.mul_lt_mul_right hc
  have heq : ∀ a b : Nat, a * c = b * c ↔ a = b := fun a b => Nat.mul_left_inj hc.ne'
  simp only [nearestPattern, floorPattern, raisePattern_mul hc]
  refine if_congr ?_ rfl rfl
  rw [hbelow, habove, hlt, heq]

/-- A ratio below half a unit rounds to zero. -/
theorem nearestPattern_eq_zero (h : 2 * num < den) : nearestPattern num den = 0 := by
  have hfloor : floorPattern num den = 0 := by
    by_contra hne
    have hle := (floorPattern_spec num den).2.1
    have hden : den ≤ units (floorPattern num den) * den :=
      Nat.le_mul_of_pos_left den (units_pos (Nat.pos_of_ne_zero hne))
    omega
  have hone : units (0 + 1) = 1 := rfl
  simp only [nearestPattern, hfloor, units_zero, hone]
  rw [if_pos (.inl (by omega))]

/-- A ratio that reaches the pattern behind the finite ones rounds to it or beyond. -/
theorem infinityPattern_le_nearestPattern (h : units infinityPattern * den ≤ num) :
    infinityPattern ≤ nearestPattern num den :=
  Nat.le_trans (le_floorPattern (by decide) h) (floorPattern_le_nearestPattern num den)

/-! ## Decimals -/

/-- How many units make one: `2 ^ 1074`. -/
@[irreducible] def unitScale : Nat := Nat.pow 2 1074

theorem two_pow_eq_unitScale {k : Nat} (hk : k = 1074) : Nat.pow 2 k = unitScale := by
  unfold unitScale
  rw [← hk]

/-- The pattern nearest to `digits * 10 ^ exponent`, whatever the exponent. -/
def ratioPattern (digits : Nat) : Int → Nat
  | .ofNat e => nearestPattern (digits * 10 ^ e * unitScale) 1
  | .negSucc e => nearestPattern (digits * unitScale) (10 ^ (e + 1))

/-- A power of ten that leaves the range of binary64 in both directions: `10 ^ 401`. -/
@[irreducible] def reach : Nat := Nat.pow 10 401

theorem units_infinityPattern_le : units infinityPattern ≤ reach * unitScale := by
  decide +kernel

theorem unitScale_lt : 2 * unitScale < reach := by
  decide +kernel

/-- A power of ten whose exponent is greater by 401 is greater by the factor `reach`. -/
theorem pow_mul_reach_le {m n : Nat} (h : n + 401 ≤ m) : 10 ^ n * reach ≤ 10 ^ m := by
  obtain ⟨k, hk, hreach⟩ : ∃ k, k = 401 ∧ reach = Nat.pow 10 k :=
    ⟨401, rfl, by unfold reach; rfl⟩
  rw [hreach, Nat.pow_eq, ← pow_add]
  exact Nat.pow_le_pow_right (by decide) (by omega)

variable {digits : Nat} {exponent : Int}

/-- Without digits the result is zero, whatever the exponent. -/
theorem ratioPattern_zero (exponent : Int) : ratioPattern 0 exponent = 0 := by
  cases exponent with
  | ofNat e =>
    rw [ratioPattern, Nat.zero_mul, Nat.zero_mul]
    exact nearestPattern_eq_zero (by decide)
  | negSucc e =>
    rw [ratioPattern, Nat.zero_mul]
    exact nearestPattern_eq_zero (Nat.pow_pos (by decide))

/-- A zero at the end of the digits can be moved into the exponent. -/
theorem ratioPattern_mul_ten (digits : Nat) (exponent : Int) :
    ratioPattern (digits * 10) (exponent - 1) = ratioPattern digits exponent := by
  match exponent with
  | .ofNat 0 =>
    have h : Int.ofNat 0 - 1 = .negSucc 0 := rfl
    have hmul : nearestPattern (digits * unitScale * 10) (1 * 10) =
        nearestPattern (digits * unitScale) 1 := nearestPattern_mul (by decide)
    rw [h, ratioPattern, ratioPattern, Nat.pow_zero, Nat.mul_one, Nat.mul_right_comm, ← hmul]
    rfl
  | .ofNat (e + 1) =>
    have h : Int.ofNat (e + 1) - 1 = .ofNat e := by simp
    rw [h, ratioPattern, ratioPattern, pow_succ, Nat.mul_comm (10 ^ e), Nat.mul_assoc digits]
  -- the ten goes to both sides of the ratio
  | .negSucc e =>
    have h : Int.negSucc e - 1 = .negSucc (e + 1) := by omega
    have hmul : nearestPattern (digits * unitScale * 10) (10 ^ (e + 1) * 10) =
        nearestPattern (digits * unitScale) (10 ^ (e + 1)) := nearestPattern_mul (by decide)
    rw [h, ratioPattern, ratioPattern, pow_succ _ (e + 1), Nat.mul_right_comm, hmul]

/-- A decimal whose leading digit stands above the range of binary64 is too large. -/
theorem infinityPattern_le_ratioPattern {n : Nat} (hd : 10 ^ n ≤ digits)
    (h : 400 < exponent + n) : infinityPattern ≤ ratioPattern digits exponent := by
  cases exponent with
  | ofNat e =>
    simp only [Int.ofNat_eq_natCast] at h
    refine infinityPattern_le_nearestPattern ?_
    have he : reach ≤ digits * 10 ^ e := by
      calc reach = 10 ^ 0 * reach := (Nat.one_mul reach).symm
        _ ≤ 10 ^ (n + e) := pow_mul_reach_le (by omega)
        _ = 10 ^ n * 10 ^ e := pow_add 10 n e
        _ ≤ digits * 10 ^ e := Nat.mul_le_mul_right _ hd
    rw [Nat.mul_one]
    exact Nat.le_trans units_infinityPattern_le (Nat.mul_le_mul_right _ he)
  | negSucc e =>
    refine infinityPattern_le_nearestPattern ?_
    have he : 10 ^ (e + 1) * reach ≤ digits := Nat.le_trans (pow_mul_reach_le (by omega)) hd
    calc units infinityPattern * 10 ^ (e + 1) ≤ reach * unitScale * 10 ^ (e + 1) :=
          Nat.mul_le_mul_right _ units_infinityPattern_le
      _ = 10 ^ (e + 1) * reach * unitScale := by rw [Nat.mul_right_comm, Nat.mul_comm reach]
      _ ≤ digits * unitScale := Nat.mul_le_mul_right _ he

/-- A decimal whose leading digit stands below the range of binary64 is rounded to zero. -/
theorem ratioPattern_eq_zero {n : Nat} (hd : digits < 10 ^ n) (h : exponent + n ≤ -401) :
    ratioPattern digits exponent = 0 := by
  cases exponent with
  | ofNat e =>
    simp only [Int.ofNat_eq_natCast] at h
    omega
  | negSucc e =>
    refine nearestPattern_eq_zero ?_
    have hreach : 0 < reach := Nat.lt_of_le_of_lt (Nat.zero_le _) unitScale_lt
    calc 2 * (digits * unitScale) = digits * (2 * unitScale) := Nat.mul_left_comm _ _ _
      _ ≤ digits * reach := Nat.mul_le_mul_left _ unitScale_lt.le
      _ < 10 ^ n * reach := Nat.mul_lt_mul_of_pos_right hd hreach
      _ ≤ 10 ^ (e + 1) := pow_mul_reach_le (by omega)

/-- The bounds of `decimalPattern` are no approximation: a finite pattern is the nearest one. -/
theorem decimalPattern_eq_iff (hp : p < infinityPattern) :
    decimalPattern digits exponent = p ↔ ratioPattern digits exponent = p := by
  have hscale : Nat.pow 2 1074 = unitScale := by
    unfold unitScale
    rfl
  unfold decimalPattern
  rw [hscale]
  by_cases hzero : digits = 0
  · rw [if_pos hzero, hzero, ratioPattern_zero]
  rw [if_neg hzero]
  -- beyond either bound the nearest pattern is out of reach too
  by_cases hlarge : 400 < exponent
  · have hle : infinityPattern ≤ ratioPattern digits exponent :=
      infinityPattern_le_ratioPattern (n := 0) (Nat.pos_of_ne_zero hzero) (by omega)
    rw [if_pos hlarge]
    omega
  rw [if_neg hlarge]
  by_cases hsmall : exponent < -(401 + digits.log2 : Int)
  · have hd : digits < 10 ^ (digits.log2 + 1) :=
      Nat.lt_of_lt_of_le Nat.lt_log2_self (Nat.pow_le_pow_left (by decide) _)
    rw [if_pos hsmall, ratioPattern_eq_zero hd (by omega)]
  rw [if_neg hsmall]
  cases exponent <;> rfl

/-- Digits that stand for a finite number stand for it with any number of zeros behind them. -/
theorem decimalPattern_mul_ten (hp : p < infinityPattern) :
    decimalPattern (digits * 10) (exponent - 1) = p ↔ decimalPattern digits exponent = p := by
  rw [decimalPattern_eq_iff hp, decimalPattern_eq_iff hp, ratioPattern_mul_ten]

end TypedCall.Binary64
