import TypedCall.Decimal.Reading
import TypedCall.Yaml.Value
/-!
# What plain scalars mean

A plain scalar is null, a boolean, an integer, a floating point number, or else a string, by the
core schema of YAML 1.2. Integers have decimal, hexadecimal, octal and binary forms; digits after
a leading zero make a string. An integer beyond 64 bits that fits 128 bits is a fault, and one
that does not fit is a floating point number.
-/

namespace TypedCall.Yaml

/-- The texts of null. -/
def isNullText (s : List Char) : Bool :=
  ["null", "Null", "NULL", "~"].contains (String.ofList s)

/-- The boolean that a text writes. -/
def boolOf? (s : List Char) : Option Bool :=
  if ["true", "True", "TRUE"].contains (String.ofList s) then some true
  else if ["false", "False", "FALSE"].contains (String.ofList s) then some false
  else none

/-- The value of a digit of any base up to 16. -/
def digitOf? (base : Nat) (c : Char) : Option Nat :=
  let n :=
    if '0' ≤ c ∧ c ≤ '9' then c.toNat - 0x30
    else if 'a' ≤ c ∧ c ≤ 'f' then c.toNat - 0x57
    else if 'A' ≤ c ∧ c ≤ 'F' then c.toNat - 0x37
    else base
  if n < base then some n else none

/-- The number that digits write; there must be some. -/
def digitsOf? (base : Nat) (s : List Char) : Option Nat :=
  if s.isEmpty then none
  else s.foldlM (fun n c => (digitOf? base c).map (n * base + ·)) 0

/-- Does a leading zero make the digits a string? -/
def isZeroLed (s : List Char) : Bool :=
  match (splitSign s).2 with
  | '0' :: d :: rest => (d :: rest).all Char.isDigit
  | _ => false

/-- The magnitude that a text without its sign writes, in one of the four forms. -/
def magnitudeOf? (signed : List Char) (s : List Char) : Option Nat :=
  let decimal := if isZeroLed signed then none else digitsOf? 10 s
  match s with
  | '0' :: 'x' :: rest => digitsOf? 16 rest
  | '0' :: 'o' :: rest => digitsOf? 8 rest
  | '0' :: 'b' :: rest => digitsOf? 2 rest
  | _ => decimal

/-- The integer that a text writes: a natural number, with or without a plus, or a negative
one. -/
def integerOf? (s : List Char) : Option Int :=
  match s with
  | '-' :: rest => (magnitudeOf? s rest).map fun n => -(n : Int)
  | '+' :: rest => (magnitudeOf? s rest).map fun n => (n : Int)
  | _ => (magnitudeOf? s s).map fun n => (n : Int)

/-- The floating point number that a text writes. Infinities and NaN begin with a dot. -/
def floatOf? (s : List Char) : Option Float64 :=
  let positive := match s with
    | '+' :: rest => rest
    | _ => s
  if [".inf", ".Inf", ".INF"].contains (String.ofList positive) then some (.infinity false)
  else if ["-.inf", "-.Inf", "-.INF"].contains (String.ofList s) then some (.infinity true)
  else if [".nan", ".NaN", ".NAN"].contains (String.ofList s) then some .nan
  else match s, positive with
    | '+' :: _, '+' :: _ => none
    | '+' :: _, '-' :: _ => none
    | _, _ => Float64.finiteOfChars? positive

/-- What becomes of an integer: it stays one, is beyond what can be read, or is none. -/
inductive IntegerReading where
  | fits (i : Int)
  | tooLarge
  | none

/-- Read an integer of 64 bits; one of 128 bits is too large, a larger one is none. -/
def readInteger (s : List Char) : IntegerReading :=
  match integerOf? s with
  | some i =>
    if fits64 i then .fits i
    else if fits128 i then .tooLarge
    else .none
  | none => .none

/-- The value of a plain scalar without a tag. -/
def plainValue? (s : List Char) : Option Value :=
  if s.isEmpty || isNullText s then some .null
  else match boolOf? s with
    | some b => some (.bool b)
    | none => match readInteger s with
      | .fits i => some (.integer i)
      | .tooLarge => none
      | .none => match if isZeroLed s then none else floatOf? s with
        | some x => some (.double x)
        | none => some (.string (String.ofList s))

/-- The value of a scalar under a tag that names a type of the core schema. Other tags make a
string. -/
def typedValue? (tag : String) (s : List Char) : Option Value :=
  if tag = "tag:yaml.org,2002:bool" then (boolOf? s).map .bool
  else if tag = "tag:yaml.org,2002:int" then match readInteger s with
    | .fits i => some (.integer i)
    | _ => none
  else if tag = "tag:yaml.org,2002:float" then (floatOf? s).map .double
  else if tag = "tag:yaml.org,2002:null" then if isNullText s then some .null else none
  else some (.string (String.ofList s))

end TypedCall.Yaml
