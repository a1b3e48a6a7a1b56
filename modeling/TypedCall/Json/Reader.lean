import TypedCall.Decimal.Words
import TypedCall.Json.Fault
import TypedCall.Json.Value
/-!
# Reading JSON

`Value.parse` reads a whole text as one JSON document or reports its first fault. Each reader
takes the text that is left and returns what it read together with what is left after it. Arrays
and objects may stand 127 deep in each other, and this allowance is the measure on which
`readValue` recurses; a loop over items or characters runs on a fuel taken from the length of its
text, which no run uses up because every turn consumes a character.

Decimals are rounded exactly (`makeDouble`). What is said here of documents that are written and
read again relies on this only for the decimals that are written for doubles: of any other reader it
is said under the assumption that such a decimal reads back as its double.
-/

namespace TypedCall.Json

/-- What a reader has read, with the text it has not. -/
abbrev Read (α : Type) := α × List Char

/-- The blanks between the tokens of a document. -/
def isJsonBlank (c : Char) : Bool := c == ' ' || c == '\n' || c == '\t' || c == '\r'

/-- The text after its leading blanks. -/
def skipBlanks (cs : List Char) : List Char := cs.dropWhile isJsonBlank

/-- A fault at the start of `rest`. -/
def faultAt {α : Type} (cause : Cause) (rest : List Char) : Except Fault α :=
  .error ⟨cause, rest, 0⟩

/-- A fault whose place includes the first byte of `rest`. -/
def faultAfter {α : Type} (cause : Cause) (rest : List Char) : Except Fault α :=
  .error ⟨cause, rest, 1⟩

/-- Read the letters of a word that has begun. -/
def readWord : (word : List Char) → List Char → Except Fault (List Char)
  | [], rest => .ok rest
  | _ :: _, [] => faultAt .endInValue []
  | w :: word, c :: rest =>
    if c = w then readWord word rest else faultAfter .expectedIdent (c :: rest)

/-! ## Numbers -/

/-- The number that a run of digits stands for, after `before`. -/
def digitsValue (before : Nat) (digits : List Char) : Nat :=
  digits.foldl (fun n c => n * 10 + (c.toNat - '0'.toNat)) before

/-- The nearest double, or a fault when it is too large. The decimal is rounded once and exactly. A
reader that computes it in floating point rounds more than once, so it can give a neighbour of this
double, or call one of the greatest decimals too large; that is left out. -/
def makeDouble (negative : Bool) (digits : Nat) (exponent : Int) (rest : List Char) :
    Except Fault (Read Number) :=
  match Binary64.ofDecimal? negative digits exponent with
  | some x => .ok (.double x, rest)
  | none => faultAt .numberOutOfRange rest

/-- The digits of an exponent: its value, or how much is unread when it passes `2 ^ 31 - 1`. -/
def exponentDigits (value : Nat) : List Char → Nat × Bool × List Char
  | [] => (value, true, [])
  | c :: rest =>
    if c.isDigit then
      let next := value * 10 + (c.toNat - '0'.toNat)
      if 2147483647 < next then (value, false, rest) else exponentDigits next rest
    else (value, true, c :: rest)

/-- Read an exponent, of which the letter is consumed. An exponent without bound makes zero of
zero and of every number when it is negative. -/
def readExponent (negative : Bool) (digits : Nat) (start : Int) (cs : List Char) :
    Except Fault (Read Number) :=
  let (down, cs) := match cs with
    | '+' :: rest => (false, rest)
    | '-' :: rest => (true, rest)
    | _ => (false, cs)
  match cs with
  | [] => faultAt .endInValue []
  | c :: _ =>
    if c.isDigit then
      match exponentDigits 0 cs with
      | (value, true, rest) =>
        makeDouble negative digits (if down then start - value else start + value) rest
      | (_, false, rest) =>
        if digits ≠ 0 ∧ !down then faultAt .numberOutOfRange rest
        else .ok (.double (Binary64.zero negative), rest.dropWhile Char.isDigit)
    else faultAfter .invalidNumber cs

/-- Read what follows the digits before the point: a fraction, an exponent, or the end. -/
def readTail (negative : Bool) (digits : Nat) (cs : List Char) : Except Fault (Read Number) :=
  match cs with
  | '.' :: rest =>
    let fraction := rest.takeWhile Char.isDigit
    let digits := digitsValue digits fraction
    let exponent : Int := -(fraction.length : Int)
    if fraction.isEmpty then
      if rest.isEmpty then faultAt .endInValue [] else faultAfter .invalidNumber rest
    else match rest.dropWhile Char.isDigit with
      | 'e' :: rest => readExponent negative digits exponent rest
      | 'E' :: rest => readExponent negative digits exponent rest
      | rest => makeDouble negative digits exponent rest
  | 'e' :: rest => readExponent negative digits 0 rest
  | 'E' :: rest => readExponent negative digits 0 rest
  | rest =>
    let i : Int := if negative then -(digits : Int) else digits
    if fits64 i && !(negative && digits == 0) then .ok (.integer i, rest)
    else makeDouble negative digits 0 rest

/-- Read a number whose sign is consumed. A leading zero stands alone. -/
def readNumber (negative : Bool) (cs : List Char) : Except Fault (Read Number) :=
  match cs with
  | [] => faultAt .endInValue []
  | '0' :: rest =>
    match rest with
    | c :: _ => if c.isDigit then faultAfter .invalidNumber rest else readTail negative 0 rest
    | [] => readTail negative 0 rest
  | c :: _ =>
    if c.isDigit then
      readTail negative (digitsValue 0 (cs.takeWhile Char.isDigit)) (cs.dropWhile Char.isDigit)
    else faultAfter .invalidNumber cs

/-! ## Strings -/

/-- The value of a hexadecimal digit of either case. -/
def hexValue? (c : Char) : Option Nat :=
  if '0' ≤ c ∧ c ≤ '9' then some (c.toNat - 0x30)
  else if 'a' ≤ c ∧ c ≤ 'f' then some (c.toNat - 0x57)
  else if 'A' ≤ c ∧ c ≤ 'F' then some (c.toNat - 0x37)
  else none

/-- The number written by four hexadecimal digits. -/
def hexQuad? (a b c d : Char) : Option Nat := do
  return (((← hexValue? a) * 16 + (← hexValue? b)) * 16 + (← hexValue? c)) * 16 + (← hexValue? d)

/-- Read four hexadecimal digits. Four bytes are consumed even when they are no digits. -/
def readHexQuad (cs : List Char) : Except Fault (Read Nat) :=
  match cs with
  | a :: b :: c :: d :: rest =>
    match hexQuad? a b c d with
    | some n => .ok (n, rest)
    | none => .error ⟨.invalidEscape, cs, 4⟩
  | _ => if byteLength cs < 4 then faultAt .endInString [] else .error ⟨.invalidEscape, cs, 4⟩

/-- Read a character escaped by its code unit; a leading surrogate must be followed by the escape
of a trailing one. -/
def readUnit (cs : List Char) : Except Fault (Read Char) := do
  let (n, rest) ← readHexQuad cs
  if 0xDC00 ≤ n ∧ n ≤ 0xDFFF then faultAt .loneSurrogate rest
  else if n < 0xD800 ∨ 0xDBFF < n then .ok (Char.ofNat n, rest)
  else match rest with
    | [] => faultAt .endInString []
    | '\\' :: [] => faultAt .endInString []
    | '\\' :: 'u' :: rest =>
      let (m, rest) ← readHexQuad rest
      if m < 0xDC00 ∨ 0xDFFF < m then faultAt .loneSurrogate rest
      else .ok (Char.ofNat (0x10000 + (n - 0xD800) * 0x400 + (m - 0xDC00)), rest)
    | '\\' :: rest => faultAfter .unexpectedEndOfHexEscape rest
    | rest => faultAfter .unexpectedEndOfHexEscape rest

/-- Read an escape whose backslash is consumed. -/
def readEscape (cs : List Char) : Except Fault (Read Char) :=
  match cs with
  | [] => faultAt .endInString []
  | '"' :: rest => .ok ('"', rest)
  | '\\' :: rest => .ok ('\\', rest)
  | '/' :: rest => .ok ('/', rest)
  | 'b' :: rest => .ok ('\x08', rest)
  | 'f' :: rest => .ok ('\x0c', rest)
  | 'n' :: rest => .ok ('\n', rest)
  | 'r' :: rest => .ok ('\r', rest)
  | 't' :: rest => .ok ('\t', rest)
  | 'u' :: rest => readUnit rest
  | _ => faultAfter .invalidEscape cs

/-- Read the characters of a string up to its closing quote. -/
def readChars : (fuel : Nat) → List Char → Except Fault (Read (List Char))
  | 0, _ => faultAt .endInString []
  | _ + 1, [] => faultAt .endInString []
  | fuel + 1, c :: rest =>
    if c = '"' then .ok ([], rest)
    else if c = '\\' then do
      let (d, rest) ← readEscape rest
      let (ds, rest) ← readChars fuel rest
      .ok (d :: ds, rest)
    else if c.toNat < 0x20 then faultAfter .controlCharacter (c :: rest)
    else do
      let (ds, rest) ← readChars fuel rest
      .ok (c :: ds, rest)

/-- Read a string whose opening quote is consumed. -/
def readString (cs : List Char) : Except Fault (Read String) := do
  let (ds, rest) ← readChars (cs.length + 1) cs
  .ok (String.ofList ds, rest)

/-! ## Arrays and objects -/

/-- Read items up to the closing bracket; at least one item is due. -/
def readItems (item : List Char → Except Fault (Read Value)) :
    (fuel : Nat) → List Char → Except Fault (Read (List Value))
  | 0, _ => faultAt .endInList []
  | fuel + 1, cs => do
    let (v, rest) ← item cs
    match skipBlanks rest with
    | [] => faultAt .endInList []
    | ']' :: rest => .ok ([v], rest)
    | ',' :: rest =>
      match skipBlanks rest with
      | [] => faultAt .endInValue []
      | ']' :: rest => faultAfter .trailingComma (']' :: rest)
      | rest => do
        let (vs, rest) ← readItems item fuel rest
        .ok (v :: vs, rest)
    | rest => faultAfter .expectedListCommaOrEnd rest

/-- Read an array whose opening bracket is consumed. -/
def readArray (item : List Char → Except Fault (Read Value)) (cs : List Char) :
    Except Fault (Read Value) :=
  match skipBlanks cs with
  | [] => faultAt .endInList []
  | ']' :: rest => .ok (.array [], rest)
  | rest => do
    let (vs, rest) ← readItems item (rest.length + 1) rest
    .ok (.array vs, rest)

/-- Read a member whose opening quote is consumed: the rest of the key, a colon, a value. -/
def readMember (item : List Char → Except Fault (Read Value)) (cs : List Char) :
    Except Fault (Read (String × Value)) := do
  let (key, rest) ← readString cs
  match skipBlanks rest with
  | [] => faultAt .endInObject []
  | ':' :: rest =>
    let (v, rest) ← item rest
    .ok ((key, v), rest)
  | rest => faultAfter .expectedColon rest

/-- Read members up to the closing brace; the opening quote of a key is consumed. -/
def readMembers (item : List Char → Except Fault (Read Value)) (before : Members) :
    (fuel : Nat) → List Char → Except Fault (Read Members)
  | 0, _ => faultAt .endInObject []
  | fuel + 1, cs => do
    let ((key, v), rest) ← readMember item cs
    let members := before.insert key v
    match skipBlanks rest with
    | [] => faultAt .endInObject []
    | '\x7d' :: rest => .ok (members, rest)
    | ',' :: rest =>
      match skipBlanks rest with
      | [] => faultAt .endInValue []
      | '"' :: rest => readMembers item members fuel rest
      | '\x7d' :: rest => faultAfter .trailingComma ('\x7d' :: rest)
      | rest => faultAfter .keyMustBeString rest
    | rest => faultAfter .expectedObjectCommaOrEnd rest

/-- Read an object whose opening brace is consumed. -/
def readObject (item : List Char → Except Fault (Read Value)) (cs : List Char) :
    Except Fault (Read Value) :=
  match skipBlanks cs with
  | [] => faultAt .endInObject []
  | '\x7d' :: rest => .ok (.object [], rest)
  | '"' :: rest => do
    let (members, rest) ← readMembers item [] (rest.length + 1) rest
    .ok (.object members, rest)
  | rest => faultAfter .keyMustBeString rest

/-- How many arrays and objects may stand inside each other. -/
def nestingLimit : Nat := 127

/-- Read a value inside which `depth` more arrays and objects may stand in each other. -/
def readValue (depth : Nat) (cs : List Char) : Except Fault (Read Value) :=
  match skipBlanks cs with
  | [] => faultAt .endInValue []
  | 'n' :: rest => do .ok (.null, ← readWord ['u', 'l', 'l'] rest)
  | 't' :: rest => do .ok (.bool true, ← readWord ['r', 'u', 'e'] rest)
  | 'f' :: rest => do .ok (.bool false, ← readWord ['a', 'l', 's', 'e'] rest)
  | '"' :: rest => do
    let (s, rest) ← readString rest
    .ok (.string s, rest)
  | '-' :: rest => do
    let (n, rest) ← readNumber true rest
    .ok (.number n, rest)
  | '[' :: rest =>
    match depth with
    | 0 => faultAfter .recursionLimit ('[' :: rest)
    | depth + 1 => readArray (readValue depth) rest
  | '\x7b' :: rest =>
    match depth with
    | 0 => faultAfter .recursionLimit ('\x7b' :: rest)
    | depth + 1 => readObject (readValue depth) rest
  | c :: rest =>
    if c.isDigit then do
      let (n, rest) ← readNumber false (c :: rest)
      .ok (.number n, rest)
    else faultAfter .expectedValue (c :: rest)

/-- Read a whole text as one document. -/
def readDocument (cs : List Char) : Except Fault Value := do
  let (v, rest) ← readValue nestingLimit cs
  match skipBlanks rest with
  | [] => .ok v
  | rest => faultAfter .trailingCharacters rest

/-- The value that a text holds, or its first fault. -/
def Value.parse (text : String) : Except SyntaxError Value :=
  match readDocument text.toList with
  | .ok v => .ok v
  | .error fault => .error (fault.locate text.toList)

end TypedCall.Json
