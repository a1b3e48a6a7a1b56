import TypedCall.Decimal.Binary64
import TypedCall.Decimal.Words
/-!
# Reading numbers from texts

`integer64?` reads an integer of 64 bits. `Float64.ofChars?` reads a number as people write one: a
sign, digits with or without a point, an exponent, or one of the words for infinity and NaN. A
number too large for binary64 is read as an infinity.
-/

namespace TypedCall

/-- The number that a run of digits stands for. -/
def digitsNat (digits : List Char) : Nat :=
  digits.foldl (fun n c => n * 10 + (c.toNat - '0'.toNat)) 0

/-- A sign and what follows it. -/
def splitSign : List Char → Bool × List Char
  | '-' :: rest => (true, rest)
  | '+' :: rest => (false, rest)
  | cs => (false, cs)

/-- The integer of 64 bits that a text writes. -/
def integer64? (cs : List Char) : Option Int :=
  let (negative, digits) := splitSign cs
  if digits.isEmpty || !digits.all Char.isDigit then none
  else
    let i : Int := if negative then -(digitsNat digits : Int) else digitsNat digits
    if fitsSigned64 i then some i else none

/-- The exponent at the end of a number; no text at all is the exponent zero. -/
def exponentOf? : List Char → Option Int
  | [] => some 0
  | e :: rest =>
    let (down, digits) := splitSign rest
    if (e == 'e' || e == 'E') && !digits.isEmpty && digits.all Char.isDigit then
      some (if down then -(digitsNat digits : Int) else digitsNat digits)
    else none

namespace Float64

/-- The datum nearest to `± digits * 10 ^ exponent`. -/
def ofDecimal (negative : Bool) (digits : Nat) (exponent : Int) : Float64 :=
  match Binary64.ofDecimal? negative digits exponent with
  | some x => .finite x
  | none => .infinity negative

/-- The number that digits, a point and an exponent write. -/
def ofDigits? (negative : Bool) (cs : List Char) : Option Float64 :=
  let whole := cs.takeWhile Char.isDigit
  let (fraction, rest) := match cs.dropWhile Char.isDigit with
    | '.' :: rest => (rest.takeWhile Char.isDigit, rest.dropWhile Char.isDigit)
    | rest => ([], rest)
  if whole.isEmpty && fraction.isEmpty then none
  else (exponentOf? rest).map fun e =>
    ofDecimal negative (digitsNat (whole ++ fraction)) (e - fraction.length)

/-- The number that a text writes. Letter case does not matter. -/
def ofChars? (cs : List Char) : Option Float64 :=
  let (negative, rest) := splitSign cs
  let word := rest.map Char.toLower
  if word = "inf".toList ∨ word = "infinity".toList then some (.infinity negative)
  else if word = "nan".toList then some .nan
  else ofDigits? negative rest

/-- The finite number that a text writes. -/
def finiteOfChars? (cs : List Char) : Option Float64 :=
  match ofChars? cs with
  | some (.finite x) => some (.finite x)
  | _ => none

end Float64

end TypedCall
