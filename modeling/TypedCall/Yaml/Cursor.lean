/-!
# Places in YAML text

A `Cursor` is a place in a text: the characters that follow, and the line and column that have
been reached. Lines end in any of the five line breaks of YAML 1.1, and a carriage return with a
line feed is one break.
-/

namespace TypedCall.Yaml

/-- How far a text has been read, in characters, all counted from zero. -/
structure Mark where
  index : Nat := 0
  line : Nat := 0
  column : Nat := 0
deriving Inhabited

namespace Mark

/-- The mark after some characters of the same line. -/
def advance (m : Mark) (n : Nat) : Mark := ⟨m.index + n, m.line, m.column + n⟩

/-- The mark at the start of the next line, after a break of `n` characters. -/
def nextLine (m : Mark) (n : Nat) : Mark := ⟨m.index + n, m.line + 1, 0⟩

end Mark

/-- A place in a text. -/
structure Cursor where
  rest : List Char
  mark : Mark := {}
deriving Inhabited

/-- A space or a tab. -/
def isBlank (c : Char) : Bool := c == ' ' || c == '\t'

/-- A character that ends a line. -/
def isBreak (c : Char) : Bool :=
  c == '\n' || c == '\r' || c == '\u0085' || c == '\u2028' || c == '\u2029'

/-- Does the text begin with a blank or a break, or is it at its end? -/
def atBlank : List Char → Bool
  | [] => true
  | c :: _ => isBlank c || isBreak c

/-- Is the text at the end of a line? -/
def atBreak : List Char → Bool
  | [] => true
  | c :: _ => isBreak c

/-- A letter, a digit, `_` or `-` of ASCII. -/
def isWordChar (c : Char) : Bool :=
  ('0' ≤ c && c ≤ '9') || ('A' ≤ c && c ≤ 'Z') || ('a' ≤ c && c ≤ 'z') || c == '_' || c == '-'

/-- The value of a hexadecimal digit. -/
def hexDigit? (c : Char) : Option Nat :=
  if '0' ≤ c ∧ c ≤ '9' then some (c.toNat - 0x30)
  else if 'a' ≤ c ∧ c ≤ 'f' then some (c.toNat - 0x57)
  else if 'A' ≤ c ∧ c ≤ 'F' then some (c.toNat - 0x37)
  else none

/-- Characters that may stand in a YAML text. -/
def isAllowed (c : Char) : Bool :=
  let n := c.toNat
  n == 0x09 || n == 0x0A || n == 0x0D || (0x20 ≤ n && n ≤ 0x7E) || n == 0x85 ||
    (0xA0 ≤ n && n ≤ 0xFFFD) || 0x10000 ≤ n

/-- Does a document marker, three times the character, stand alone at the start of the text? -/
def atMarker (c : Char) : List Char → Bool
  | a :: b :: d :: rest => a == c && b == c && d == c && atBlank rest
  | _ => false

namespace Cursor

/-- Pass over `n` characters of the line. -/
def advance (c : Cursor) (n : Nat) : Cursor := ⟨c.rest.drop n, c.mark.advance n⟩

/-- Pass over the characters of the line that satisfy a test. -/
def skipWhile (c : Cursor) (test : Char → Bool) : Cursor :=
  c.advance (c.rest.takeWhile test).length

/-- Read a line break: the text it stands for, and the start of the next line. A separator of
lines or paragraphs stands for itself, every other break for a line feed. -/
def readBreak (c : Cursor) : List Char × Cursor :=
  match c.rest with
  | '\r' :: '\n' :: rest => (['\n'], ⟨rest, c.mark.nextLine 2⟩)
  | b :: rest =>
    if isBreak b then
      (if b == '\u2028' || b == '\u2029' then [b] else ['\n'], ⟨rest, c.mark.nextLine 1⟩)
    else ([], c)
  | [] => ([], c)

/-- The column. -/
def column (c : Cursor) : Nat := c.mark.column

/-- Is this the start of a line that ends or begins a document? -/
def atDocumentMarker (c : Cursor) : Bool :=
  c.column == 0 && (atMarker '-' c.rest || atMarker '.' c.rest)

/-- Pass over blanks and a comment up to the end of the line, where only they may stand. -/
def finishLine? (c : Cursor) : Option Cursor :=
  let c := c.skipWhile isBlank
  let c := if c.rest.head? = some '#' then c.skipWhile (!isBreak ·) else c
  if atBreak c.rest then some c.readBreak.2 else none

end Cursor

end TypedCall.Yaml
