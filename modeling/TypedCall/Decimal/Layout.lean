import TypedCall.Decimal.Shortest
/-!
# Writing numbers

A `NumberLayout` says which decimals are written positionally and whether an integral number
keeps a point. `NumberLayout.json` is the form of numbers in JSON documents and
`NumberLayout.plain` the form in which settings turn numbers into text.
-/

namespace TypedCall

/-- The decisions of a number format. -/
structure NumberLayout where
  /-- Is a number whose leading digit has this exponent written positionally? -/
  positional : Int → Bool
  /-- Does an integral number end in `.0`? -/
  pointZero : Bool

namespace NumberLayout

/-- Positional from `1e-5` up to below `1e16`, always with a point; otherwise a signed exponent. -/
def json : NumberLayout := ⟨fun e => decide (-5 ≤ e ∧ e < 16), true⟩

/-- Always positional, integral numbers without a point. -/
def plain : NumberLayout := ⟨fun _ => true, false⟩

/-- Always positional and always with a point. -/
def pointed : NumberLayout := ⟨fun _ => true, true⟩

/-- Digits with the point where the exponent puts it. -/
def positionalText (layout : NumberLayout) (d : Decimal) : List Char :=
  let digits := Nat.toDigits 10 d.digits
  match d.exponent with
  | .ofNat e => digits ++ List.replicate e '0' ++ if layout.pointZero then ['.', '0'] else []
  | .negSucc e =>
    if e + 1 < digits.length then
      digits.take (digits.length - (e + 1)) ++ '.' :: digits.drop (digits.length - (e + 1))
    else '0' :: '.' :: (List.replicate (e + 1 - digits.length) '0' ++ digits)

/-- One digit before the point, and the exponent with its sign. -/
def exponentText (d : Decimal) : List Char :=
  let exponent := d.scientific
  let sign := if exponent < 0 then '-' else '+'
  let mantissa := match Nat.toDigits 10 d.digits with
    | first :: second :: more => first :: '.' :: second :: more
    | short => short
  mantissa ++ 'e' :: sign :: Nat.toDigits 10 exponent.natAbs

/-- The text of a decimal without a sign. -/
def decimalText (layout : NumberLayout) (d : Decimal) : List Char :=
  if layout.positional d.scientific then layout.positionalText d else exponentText d

/-- The text of a finite number. -/
def text (layout : NumberLayout) (x : Binary64) : List Char :=
  (if x.negative then ['-'] else []) ++ layout.decimalText x.shortest

/-- The text of a datum; infinities and NaN have names. -/
def dataText (layout : NumberLayout) : Float64 → String
  | .finite x => String.ofList (layout.text x)
  | .infinity negative => if negative then "-inf" else "inf"
  | .nan => "NaN"

end NumberLayout

end TypedCall
