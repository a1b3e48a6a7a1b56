import TypedCall.Json.Value
import TypedCall.Decimal.Layout
/-!
# Writing JSON

`Value.compact` writes a value without blanks, `Value.pretty` over several lines with two spaces
per level and empty containers closed at once. Both write members in their order, numbers in the
form `NumberLayout.json`, and escape in strings only what JSON requires: the quote, the backslash
and the controls below U+0020.
-/

namespace TypedCall.Json

/-- A lowercase hexadecimal digit. -/
def lowerHexDigit (n : Nat) : Char := Char.ofNat (if n < 10 then 0x30 + n else 0x57 + n)

/-- One character of a written string. -/
def writtenChar (c : Char) : List Char :=
  if c = '"' then ['\\', '"']
  else if c = '\\' then ['\\', '\\']
  else if c.toNat < 0x20 then
    if c = '\n' then ['\\', 'n']
    else if c = '\r' then ['\\', 'r']
    else if c = '\t' then ['\\', 't']
    else if c.toNat = 0x08 then ['\\', 'b']
    else if c.toNat = 0x0c then ['\\', 'f']
    else ['\\', 'u', '0', '0', lowerHexDigit (c.toNat / 16), lowerHexDigit (c.toNat % 16)]
  else [c]

/-- A string between quotes. -/
def writtenString (s : String) : List Char := '"' :: s.toList.flatMap writtenChar ++ ['"']

/-- The digits of a natural number. -/
def writtenNat (n : Nat) : List Char := Nat.toDigits 10 n

/-- A number. -/
def Number.written : Number → List Char
  | .integer (.ofNat n) => writtenNat n
  | .integer (.negSucc n) => '-' :: writtenNat (n + 1)
  | .double x => NumberLayout.json.text x

namespace Value

mutual

/-- The characters of a value on one line, without blanks. -/
def compactChars : Value → List Char
  | null => ['n', 'u', 'l', 'l']
  | bool true => ['t', 'r', 'u', 'e']
  | bool false => ['f', 'a', 'l', 's', 'e']
  | number n => n.written
  | string s => writtenString s
  | array items => '[' :: (compactItems items ++ [']'])
  | object members => '\x7b' :: (compactMembers members ++ ['\x7d'])

/-- Items separated by commas. -/
def compactItems : List Value → List Char
  | [] => []
  | [v] => v.compactChars
  | v :: vs => v.compactChars ++ ',' :: compactItems vs

/-- Members separated by commas. -/
def compactMembers : List (String × Value) → List Char
  | [] => []
  | [(k, v)] => writtenString k ++ ':' :: v.compactChars
  | (k, v) :: rest => writtenString k ++ ':' :: (v.compactChars ++ ',' :: compactMembers rest)

end

/-- A new line, indented by two spaces per level. -/
def newLine (level : Nat) : List Char := '\n' :: List.replicate (2 * level) ' '

mutual

/-- The characters of a value over several lines; `level` is the depth at which it stands. -/
def prettyChars (level : Nat) : Value → List Char
  | array [] => ['[', ']']
  | array (v :: vs) => '[' :: (prettyItems (level + 1) (v :: vs) ++ newLine level ++ [']'])
  | object [] => ['\x7b', '\x7d']
  | object (m :: ms) =>
    '\x7b' :: (prettyMembers (level + 1) (m :: ms) ++ newLine level ++ ['\x7d'])
  | null => compactChars null
  | bool b => compactChars (bool b)
  | number n => n.written
  | string s => writtenString s

/-- Items, each on a new line. -/
def prettyItems (level : Nat) : List Value → List Char
  | [] => []
  | [v] => newLine level ++ v.prettyChars level
  | v :: vs => newLine level ++ v.prettyChars level ++ ',' :: prettyItems level vs

/-- Members, each on a new line. -/
def prettyMembers (level : Nat) : List (String × Value) → List Char
  | [] => []
  | [(k, v)] => newLine level ++ writtenString k ++ ':' :: ' ' :: v.prettyChars level
  | (k, v) :: rest =>
    newLine level ++ writtenString k ++ ':' :: ' ' :: (v.prettyChars level ++
      ',' :: prettyMembers level rest)

end

/-- The value on one line, without blanks. -/
def compact (v : Value) : String := String.ofList v.compactChars

/-- The value over several lines, with two spaces per level. -/
def pretty (v : Value) : String := String.ofList (v.prettyChars 0)

end Value

end TypedCall.Json
