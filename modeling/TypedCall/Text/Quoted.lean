import TypedCall.Text.EscapeTable
import TypedCall.Text.Lowercase
/-!
# Quoted text in messages

A text shown inside a message stands between double quotes. Quotes, backslashes and the common
controls have short escapes; every other character without a visible form of its own is written
by its code point in braces.
-/

namespace TypedCall.Text

/-- `\u` and the code point in braces, in lowercase hexadecimal without padding. -/
def codeEscape (c : Char) : List Char :=
  ['\\', 'u', '\x7b'] ++ Nat.toDigits 16 c.toNat ++ ['\x7d']

/-- One character of a quoted text. -/
def quotedChar (c : Char) : List Char :=
  if c == '"' then ['\\', '"']
  else if c == '\\' then ['\\', '\\']
  else if c == '\n' then ['\\', 'n']
  else if c == '\r' then ['\\', 'r']
  else if c == '\t' then ['\\', 't']
  else if c == '\x00' then ['\\', '0']
  else if c.toNat < 0x20 then codeEscape c
  else if c.toNat < 0x7f then [c]
  else if inRanges escapedRanges c.toNat then codeEscape c
  else [c]

/-- The text between double quotes. -/
def quoted (s : String) : String :=
  String.ofList ('"' :: s.toList.flatMap quotedChar ++ ['"'])

end TypedCall.Text
