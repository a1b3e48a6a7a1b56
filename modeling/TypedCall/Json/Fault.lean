/-!
# Faults of JSON text

A reader stops at the first fault. It reports the cause and the place: the text that is still
unread, and how many bytes of it the reader has looked at. A message gives the place as a line
and a column, counted in bytes of the UTF-8 form of the text.
-/

namespace TypedCall.Json

/-- Why a text is not a JSON document. -/
inductive Cause where
  | endInList
  | endInObject
  | endInString
  | endInValue
  | expectedColon
  | expectedListCommaOrEnd
  | expectedObjectCommaOrEnd
  | expectedIdent
  | expectedValue
  | invalidEscape
  | invalidNumber
  | numberOutOfRange
  | controlCharacter
  | keyMustBeString
  | loneSurrogate
  | trailingComma
  | trailingCharacters
  | unexpectedEndOfHexEscape
  | recursionLimit
deriving DecidableEq, Inhabited

namespace Cause

/-- The wording of a cause. -/
def message : Cause → String
  | endInList => "EOF while parsing a list"
  | endInObject => "EOF while parsing an object"
  | endInString => "EOF while parsing a string"
  | endInValue => "EOF while parsing a value"
  | expectedColon => "expected `:`"
  | expectedListCommaOrEnd => "expected `,` or `]`"
  | expectedObjectCommaOrEnd => "expected `,` or `\x7d`"
  | expectedIdent => "expected ident"
  | expectedValue => "expected value"
  | invalidEscape => "invalid escape"
  | invalidNumber => "invalid number"
  | numberOutOfRange => "number out of range"
  | controlCharacter => "control character (\\u0000-\\u001F) found while parsing a string"
  | keyMustBeString => "key must be a string"
  | loneSurrogate => "lone leading surrogate in hex escape"
  | trailingComma => "trailing comma"
  | trailingCharacters => "trailing characters"
  | unexpectedEndOfHexEscape => "unexpected end of hex escape"
  | recursionLimit => "recursion limit exceeded"

/-- Does the text only end too early, so that more text could mend it? -/
def isEarlyEnd : Cause → Bool
  | endInList | endInObject | endInString | endInValue => true
  | _ => false

end Cause

/-- A fault: its cause, the unread text, and how many bytes of that text belong to the place. -/
structure Fault where
  cause : Cause
  rest : List Char
  ahead : Nat

/-- A line, counted from 1, and the bytes before the place on that line. -/
structure Position where
  line : Nat
  column : Nat
deriving DecidableEq, Repr

/-- The length of the UTF-8 form of a text. -/
def byteLength (cs : List Char) : Nat := cs.foldl (fun n c => n + c.utf8Size) 0

/-- The position after the given number of bytes. -/
def positionAfter (text : List Char) (bytes : Nat) : Position := go text bytes ⟨1, 0⟩
where
  /-- Walk on from a position; a place inside a character counts the bytes before it. -/
  go : List Char → Nat → Position → Position
    | [], _, p => p
    | c :: rest, bytes, p =>
      if bytes = 0 then p
      else if bytes < c.utf8Size then ⟨p.line, p.column + bytes⟩
      else go rest (bytes - c.utf8Size)
        (if c = '\n' then ⟨p.line + 1, 0⟩ else ⟨p.line, p.column + c.utf8Size⟩)

/-- A fault of a whole text. -/
structure SyntaxError where
  cause : Cause
  position : Position
deriving DecidableEq

/-- The fault with its place in the text it was found in. -/
def Fault.locate (fault : Fault) (text : List Char) : SyntaxError :=
  ⟨fault.cause, positionAfter text
    (byteLength text - byteLength fault.rest + min fault.ahead (byteLength fault.rest))⟩

/-- The wording of a fault with its line and column. -/
def SyntaxError.message (e : SyntaxError) : String :=
  e.cause.message ++ " at line " ++ toString e.position.line ++ " column " ++
    toString e.position.column

end TypedCall.Json
