/-!
# Finite binary64 numbers, exactly

A finite binary64 number is a sign and a 63-bit pattern: eleven bits of exponent above 52 bits of
fraction. Patterns are ordered as the magnitudes they stand for, so rounding a ratio to the
nearest number needs no estimate of its exponent: `floorPattern` finds the greatest pattern that
does not exceed the ratio bit by bit, and `nearestPattern` chooses between it and its successor.
All arithmetic is on natural numbers, in units of `2 ^ -1074`, the smallest positive magnitude.
-/

namespace TypedCall

/-- How many fractions there are: `2 ^ 52`. -/
abbrev Binary64.fractionCount : Nat := 4503599627370496

/-- The pattern behind the last one of a finite number: all bits of the exponent are set. -/
abbrev Binary64.infinityPattern : Nat := 2047 * Binary64.fractionCount

/-- A finite binary64 number. Both zeros are present; infinities and NaN are not. -/
structure Binary64 where
  negative : Bool
  pattern : Nat
  pattern_lt : pattern < Binary64.infinityPattern
deriving DecidableEq

namespace Binary64

/-- The zero of a given sign. -/
def zero (negative : Bool) : Binary64 := ⟨negative, 0, by decide⟩

instance : Inhabited Binary64 := ⟨zero false⟩

/-- The magnitude of a pattern, in units of `2 ^ -1074`. A pattern whose exponent bits are zero
is subnormal and has no hidden bit. -/
def units (pattern : Nat) : Nat :=
  if pattern / fractionCount = 0 then pattern
  else (fractionCount + pattern % fractionCount) * Nat.pow 2 (pattern / fractionCount - 1)

/-- Fix the `bits` low bits of a pattern, from the highest down, keeping each bit that does not
lift the magnitude above `num / den`. -/
def raisePattern (num den : Nat) : (bits pattern : Nat) → Nat
  | 0, pattern => pattern
  | bit + 1, pattern =>
    raisePattern num den bit
      (if units (pattern + Nat.pow 2 bit) * den ≤ num then pattern + Nat.pow 2 bit else pattern)

/-- The greatest pattern whose magnitude is at most `num / den` units. -/
def floorPattern (num den : Nat) : Nat := raisePattern num den 63 0

/-- The pattern nearest to `num / den` units; a tie goes to the even pattern. -/
def nearestPattern (num den : Nat) : Nat :=
  let low := floorPattern num den
  let below := num - units low * den
  let above := units (low + 1) * den - num
  if below < above ∨ (below = above ∧ low % 2 = 0) then low else low + 1

/-- The pattern nearest to `digits * 10 ^ exponent`. Exponents far outside the range of binary64
are settled by a bound, so that no power of ten larger than the numbers themselves is formed. -/
def decimalPattern (digits : Nat) (exponent : Int) : Nat :=
  if digits = 0 then 0
  else if 400 < exponent then infinityPattern
  else if exponent < -(401 + digits.log2 : Int) then 0
  else match exponent with
    | .ofNat e => nearestPattern (digits * Nat.pow 10 e * Nat.pow 2 1074) 1
    | .negSucc e => nearestPattern (digits * Nat.pow 2 1074) (Nat.pow 10 (e + 1))

/-- The number nearest to `± digits * 10 ^ exponent`, or nothing when it is too large. -/
def ofDecimal? (negative : Bool) (digits : Nat) (exponent : Int) : Option Binary64 :=
  let pattern := decimalPattern digits exponent
  if h : pattern < infinityPattern then some ⟨negative, pattern, h⟩ else none

/-- Is this one of the two zeros? -/
def isZero (x : Binary64) : Bool := x.pattern == 0

/-- Numeric equality: the two zeros are equal. -/
def sameNumber (x y : Binary64) : Bool :=
  x.pattern == y.pattern && (x.negative == y.negative || x.pattern == 0)

@[simp] theorem sameNumber_self (x : Binary64) : x.sameNumber x = true := by
  simp [sameNumber]

/-- The number nearest to a natural number below `2 ^ 1023`; larger ones saturate. -/
def ofNat (negative : Bool) (n : Nat) : Binary64 :=
  (ofDecimal? negative n 0).getD ⟨negative, infinityPattern - 1, by decide⟩

end Binary64

/-- A binary64 datum: a finite number, an infinity, or the undefined NaN. -/
inductive Float64 where
  | finite (x : Binary64)
  | infinity (negative : Bool)
  | nan
deriving DecidableEq

namespace Float64

instance : Inhabited Float64 := ⟨nan⟩

/-- Does the datum differ from zero? NaN does. -/
def isNonzero : Float64 → Bool
  | finite x => !x.isZero
  | infinity _ => true
  | nan => true

/-- Numeric equality, with NaN equal to itself. -/
def sameNumber : Float64 → Float64 → Bool
  | finite x, finite y => x.sameNumber y
  | infinity s, infinity t => s == t
  | nan, nan => true
  | _, _ => false

end Float64

end TypedCall
