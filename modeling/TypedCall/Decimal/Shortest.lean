import TypedCall.Decimal.Binary64
/-!
# The shortest decimal that reads back

Among the decimals that round to a given number, `Binary64.shortest` has the fewest digits, and
of those with as few the one nearest to the number. A number is a whole multiple of
`10 ^ -1074` (because `2 ^ -1074 = 5 ^ 1074 * 10 ^ -1074`), so its decimal expansion is finite
and the candidates of `k` digits are that expansion cut after `k` digits, and the cut plus one.
Each candidate is tested by reading it back, so what is returned always reads back; seventeen
digits suffice for every number, and the full expansion stands behind them.
-/

namespace TypedCall

/-- The nonnegative decimal `digits * 10 ^ exponent`. -/
structure Decimal where
  digits : Nat
  exponent : Int
deriving DecidableEq

namespace Decimal

/-- Number of decimal digits; zero has one. -/
def digitCount (n : Nat) : Nat := (Nat.toDigits 10 n).length

/-- The same value without trailing zeros among the digits. -/
def trimmed (d : Decimal) : Decimal :=
  if h : d.digits ≠ 0 ∧ d.digits % 10 = 0 then
    trimmed ⟨d.digits / 10, d.exponent + 1⟩
  else d
termination_by d.digits
decreasing_by omega

/-- The exponent of the leading digit: `2.5e3` and `2500` both have 3. -/
def scientific (d : Decimal) : Int := d.exponent + digitCount d.digits - 1

end Decimal

namespace Binary64

/-- The magnitude in units of `10 ^ -1074`. -/
def expansion (x : Binary64) : Nat := units x.pattern * Nat.pow 5 1074

/-- Does the decimal round to this magnitude? -/
def reads (x : Binary64) (d : Decimal) : Bool := decimalPattern d.digits d.exponent == x.pattern

/-- The nearer of the two decimals of `k` digits around the number that reads back, if any. -/
def shortestOf (x : Binary64) (k : Nat) : Option Decimal :=
  let places := Decimal.digitCount x.expansion - k
  let cut := Nat.pow 10 places
  let low := x.expansion / cut
  let rest := x.expansion % cut
  let exponent : Int := (places : Int) - 1074
  let down : Bool := 2 * rest < cut || (2 * rest == cut && low % 2 == 0)
  [if down then low else low + 1, if down then low + 1 else low].findSome? fun digits =>
    if x.reads ⟨digits, exponent⟩ then some (Decimal.trimmed ⟨digits, exponent⟩) else none

/-- The shortest decimal that reads back as this magnitude. -/
def shortest (x : Binary64) : Decimal :=
  if x.isZero then ⟨0, 0⟩
  else ((List.range 17).findSome? fun k => x.shortestOf (k + 1)).getD
    (Decimal.trimmed ⟨x.expansion, -1074⟩)

end Binary64

end TypedCall
