/-!
# Percent encoding

Every byte of the UTF-8 form of a text is kept when it is an ASCII letter, a digit or one of
`-_.~`, and written as `%` and two uppercase hexadecimal digits otherwise. `decodePercent` reads
such a text back into bytes.
-/

namespace TypedCall.Text

/-- The bytes of the UTF-8 form of a character. -/
def utf8Char (c : Char) : List UInt8 :=
  let n := c.toNat
  if n < 0x80 then [UInt8.ofNat n]
  else if n < 0x800 then [UInt8.ofNat (0xC0 + n / 64), UInt8.ofNat (0x80 + n % 64)]
  else if n < 0x10000 then
    [UInt8.ofNat (0xE0 + n / 4096), UInt8.ofNat (0x80 + n / 64 % 64), UInt8.ofNat (0x80 + n % 64)]
  else
    [UInt8.ofNat (0xF0 + n / 262144), UInt8.ofNat (0x80 + n / 4096 % 64),
      UInt8.ofNat (0x80 + n / 64 % 64), UInt8.ofNat (0x80 + n % 64)]

/-- The UTF-8 form of a list of characters. -/
def utf8 (cs : List Char) : List UInt8 := cs.flatMap utf8Char

/-- The characters that percent encoding keeps. -/
def isUnreserved (c : Char) : Bool :=
  ('A' ≤ c && c ≤ 'Z') || ('a' ≤ c && c ≤ 'z') || ('0' ≤ c && c ≤ '9') ||
    c == '-' || c == '_' || c == '.' || c == '~'

/-- An uppercase hexadecimal digit. -/
def upperHexDigit (n : Nat) : Char := Char.ofNat (if n < 10 then 0x30 + n else 0x37 + n)

/-- One byte as `%` and two digits. -/
def percentByte (b : UInt8) : List Char :=
  ['%', upperHexDigit (b.toNat / 16), upperHexDigit (b.toNat % 16)]

/-- One character: kept, or every byte of its UTF-8 form escaped. -/
def percentChar (c : Char) : List Char :=
  if isUnreserved c then [c] else (utf8Char c).flatMap percentByte

/-- Percent encoding of a text. -/
def encodePercent (cs : List Char) : List Char := cs.flatMap percentChar

/-- The value of an uppercase hexadecimal digit. -/
def upperHexValue? (c : Char) : Option Nat :=
  if '0' ≤ c && c ≤ '9' then some (c.toNat - 0x30)
  else if 'A' ≤ c && c ≤ 'F' then some (c.toNat - 0x37)
  else none

/-- The bytes a percent-encoded text stands for, or nothing when it is not one. -/
def decodePercent : List Char → Option (List UInt8)
  | [] => some []
  | '%' :: high :: low :: rest => do
    let h ← upperHexValue? high
    let l ← upperHexValue? low
    return UInt8.ofNat (h * 16 + l) :: (← decodePercent rest)
  | c :: rest =>
    if isUnreserved c then (decodePercent rest).map (UInt8.ofNat c.toNat :: ·) else none

end TypedCall.Text
