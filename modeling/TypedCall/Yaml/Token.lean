import TypedCall.Yaml.Scalar
import TypedCall.Text.Percent
/-!
# The tokens of YAML text

`tokens` reads a whole text into tokens. In a block, indentation is made explicit by tokens that
start and end collections. A key that stands on one line before its colon is known as a key only
when the colon is reached: until then the scanner remembers where the key began, and puts the
tokens that announce it there afterwards. A text with a fault yields the tokens before the fault
that no such pending key holds back.
-/

namespace TypedCall.Yaml

/-- A token. -/
inductive Token where
  | streamEnd
  | versionDirective (major minor : Nat)
  | tagDirective (handle lead : String)
  | documentStart
  | documentEnd
  | blockSequenceStart
  | blockMappingStart
  | blockEnd
  | flowSequenceStart
  | flowSequenceEnd
  | flowMappingStart
  | flowMappingEnd
  | blockEntry
  | flowEntry
  | key
  | value
  | alias (name : String)
  | anchor (name : String)
  | tag (handle suffix : String)
  | scalar (text : String) (plain : Bool)
deriving DecidableEq, Inhabited

/-- A place where a key may have begun. -/
structure PendingKey where
  required : Bool
  /-- How many tokens stand before the key. -/
  number : Nat
  mark : Mark

/-- The state of the scanner. -/
structure Scanner where
  cursor : Cursor
  tokens : Array Token := #[]
  /-- The pending key of every level of brackets, the innermost first. -/
  keys : List (Option PendingKey) := [none]
  /-- May a key begin here? -/
  keyAllowed : Bool := true
  /-- The indentation of the innermost block collection, `-1` outside of all. -/
  indent : Int := -1
  /-- The indentations around it. -/
  indents : List Int := []

namespace Scanner

/-- Is the scanner inside brackets? -/
def inFlow (s : Scanner) : Bool := 1 < s.keys.length

/-- Add a token at the end. -/
def emit (s : Scanner) (t : Token) : Scanner := { s with tokens := s.tokens.push t }

/-- Put a token before the token of the given number. -/
def insert (s : Scanner) (number : Nat) (t : Token) : Scanner :=
  { s with tokens := s.tokens.extract 0 number ++ #[t] ++ s.tokens.extract number s.tokens.size }

/-- Pass over `n` characters. -/
def advance (s : Scanner) (n : Nat) : Scanner := { s with cursor := s.cursor.advance n }

/-- Has the key been left behind? A key stands on one line and within 1024 characters. -/
def PendingKey.isStale (k : PendingKey) (m : Mark) : Bool :=
  k.mark.line < m.line || k.mark.index + 1024 < m.index

/-- Forget the keys that have been left behind; a required one is a fault. -/
def dropStale? (s : Scanner) : Option Scanner := do
  let keys ← s.keys.mapM fun
    | some k =>
      if PendingKey.isStale k s.cursor.mark then (if k.required then none else some none)
      else some (some k)
    | none => some none
  return { s with keys := keys }

/-- Forget the pending key of this level; a required one is a fault. -/
def dropKey? (s : Scanner) : Option Scanner :=
  match s.keys with
  | some k :: rest => if k.required then none else some { s with keys := none :: rest }
  | _ => some s

/-- Remember that a key may begin here. Where the column is that of the block, it must be one. -/
def saveKey? (s : Scanner) : Option Scanner :=
  if s.keyAllowed then do
    let s ← s.dropKey?
    let key : PendingKey :=
      ⟨!s.inFlow && s.indent == s.cursor.column, s.tokens.size, s.cursor.mark⟩
    return { s with keys := some key :: s.keys.drop 1 }
  else some s

/-- Begin a block collection at a column that lies deeper than the current one. The token goes
before the token of the given number, or to the end. -/
def rollIndent (s : Scanner) (column : Nat) (number : Option Nat) (t : Token) : Scanner :=
  if s.inFlow || (column : Int) ≤ s.indent then s
  else
    let s := { s with indents := s.indent :: s.indents, indent := column }
    match number with
    | some n => s.insert n t
    | none => s.emit t

/-- End the block collections that lie deeper than a column. -/
def unrollIndent (column : Int) (s : Scanner) : Scanner :=
  if s.inFlow then s
  else go s.indents s
where
  /-- Walk out along the indentations that are left. -/
  go : List Int → Scanner → Scanner
    | [], s => s
    | outer :: indents, s =>
      if column < s.indent then
        go indents { s with
          tokens := s.tokens.push .blockEnd, indent := outer, indents := indents }
      else s

/-- Pass over blanks, comments and line breaks up to the next token. A tab may indent a token only
where no key may begin. -/
def skipToToken (s : Scanner) : (fuel : Nat) → Scanner
  | 0 => s
  | fuel + 1 =>
    let c := s.cursor
    let c := if c.column == 0 && c.rest.head? = some '\uFEFF' then c.advance 1 else c
    let c := c.skipWhile fun d => d == ' ' || ((s.inFlow || !s.keyAllowed) && d == '\t')
    let c := if c.rest.head? = some '#' then c.skipWhile (!isBreak ·) else c
    match c.rest with
    | b :: _ =>
      if isBreak b then
        skipToToken { s with cursor := c.readBreak.2, keyAllowed := s.keyAllowed || !s.inFlow } fuel
      else { s with cursor := c }
    | [] => { s with cursor := c }

/-! ## Directives, anchors and tags -/

/-- Read a number of at most nine digits. -/
def readVersionNumber? (c : Cursor) : Option (Nat × Cursor) :=
  let digits := c.rest.takeWhile Char.isDigit
  if digits.isEmpty ∨ 9 < digits.length then none
  else some (digits.foldl (fun n d => n * 10 + (d.toNat - 0x30)) 0, c.advance digits.length)

/-- Read the handle of a tag: `!`, `!!` or `!name!`, or the start of a tag that has none. -/
def readTagHandle? (directive : Bool) (c : Cursor) : Option (List Char × Cursor) :=
  match c.rest with
  | '!' :: rest =>
    let word := rest.takeWhile isWordChar
    let c := c.advance (word.length + 1)
    match c.rest with
    | '!' :: _ => some ('!' :: word ++ ['!'], c.advance 1)
    | _ => if directive && !word.isEmpty then none else some ('!' :: word, c)
  | _ => none

/-- Characters that may stand in a tag; some only between angle brackets or in a directive. -/
def isTagChar (verbatim : Bool) (c : Char) : Bool :=
  isWordChar c || ";/?:@&=+$.%!~*'()".toList.contains c || (verbatim && ",[]".toList.contains c)

/-- The byte of an escape `%XX`. -/
def escapedByte? : List Char → Option Nat
  | '%' :: a :: b :: _ => do return (← hexDigit? a) * 16 + (← hexDigit? b)
  | _ => none

/-- Read the trailing bytes of an escaped character. -/
def escapedTail? (code : Nat) : Nat → List Char → Option Nat
  | 0, _ => some code
  | n + 1, cs => do
    let byte ← escapedByte? cs
    if byte / 64 = 2 then escapedTail? (code * 64 + byte % 64) n (cs.drop 3) else none

/-- The character that escaped bytes write, and how many bytes it has. -/
def escapedChar? (cs : List Char) : Option (Char × Nat) := do
  let lead ← escapedByte? cs
  let tail (code n : Nat) : Option (Char × Nat) := do
    return (Char.ofNat (← escapedTail? code n (cs.drop 3)), n + 1)
  if lead < 0x80 then tail lead 0
  else if lead / 32 = 6 then tail (lead % 32) 1
  else if lead / 16 = 14 then tail (lead % 16) 2
  else if lead / 8 = 30 then tail (lead % 8) 3
  else none

/-- Read the characters of a tag, escapes decoded. -/
def readTagChars? (verbatim : Bool) : (fuel : Nat) → Cursor → Option (List Char × Cursor)
  | 0, c => some ([], c)
  | fuel + 1, c =>
    match c.rest with
    | d :: _ =>
      if !isTagChar verbatim d then some ([], c)
      else do
        let (d, n) ← if d == '%' then (escapedChar? c.rest).map fun (e, n) => (e, 3 * n)
          else some (d, 1)
        let (ds, c) ← readTagChars? verbatim fuel (c.advance n)
        return (d :: ds, c)
    | [] => some ([], c)

/-- Read the characters of a tag after a head that is read already; together they must not be
empty. -/
def readTagText? (verbatim : Bool) (head : List Char) (c : Cursor) :
    Option (List Char × Cursor) := do
  let (text, c) ← readTagChars? verbatim (c.rest.length + 1) c
  if head.isEmpty ∧ text.isEmpty then none else some (head.drop 1 ++ text, c)

/-- Read a directive whose percent sign is the next character. -/
def readDirective? (c : Cursor) : Option (Token × Cursor) := do
  let c := c.advance 1
  let name := c.rest.takeWhile isWordChar
  let c := c.advance name.length
  if name.isEmpty ∨ !atBlank c.rest then none
  else if name = "YAML".toList then do
    let (major, c) ← readVersionNumber? (c.skipWhile isBlank)
    match c.rest with
    | '.' :: _ => do
      let (minor, c) ← readVersionNumber? (c.advance 1)
      return (.versionDirective major minor, ← c.finishLine?)
    | _ => none
  else if name = "TAG".toList then do
    let (handle, c) ← readTagHandle? true (c.skipWhile isBlank)
    match c.rest with
    | b :: _ =>
      if !isBlank b then none
      else do
        let (lead, c) ← readTagText? true [] (c.skipWhile isBlank)
        if !atBlank c.rest then none
        else return (.tagDirective (String.ofList handle) (String.ofList lead), ← c.finishLine?)
    | [] => none
  else none

/-- Read the name of an anchor or an alias after its indicator. -/
def readAnchorName? (c : Cursor) : Option (String × Cursor) :=
  let c := c.advance 1
  let name := c.rest.takeWhile isWordChar
  let c := c.advance name.length
  if name.isEmpty then none
  else if atBlank c.rest ∨ (c.rest.head?.map ("?:,]\x7d%@`".toList.contains ·)).getD false then
    some (String.ofList name, c)
  else none

/-- Read a tag. -/
def readTag? (inFlow : Bool) (c : Cursor) : Option (Token × Cursor) := do
  let (handle, suffix, c) ← match c.rest with
    | '!' :: '<' :: _ => do
      let (text, c) ← readTagText? true [] (c.advance 2)
      match c.rest with
      | '>' :: _ => some ([], text, c.advance 1)
      | _ => none
    | _ => do
      let (handle, c) ← readTagHandle? false c
      if 1 < handle.length ∧ handle.getLast? = some '!' then do
        let (text, c) ← readTagText? false [] c
        some (handle, text, c)
      else do
        let (text, c) ← readTagText? false handle c
        if text.isEmpty then some ([], ['!'], c) else some (['!'], text, c)
  if atBlank c.rest ∨ (inFlow ∧ c.rest.head? = some ',') then
    return (.tag (String.ofList handle) (String.ofList suffix), c)
  else none

/-! ## One token after the other -/

/-- Read an opening bracket. -/
def openFlow? (s : Scanner) (t : Token) : Option Scanner := do
  let s ← s.saveKey?
  return ({ s with keys := none :: s.keys, keyAllowed := true }.advance 1).emit t

/-- Read a closing bracket. -/
def closeFlow? (s : Scanner) (t : Token) : Option Scanner := do
  let s ← s.dropKey?
  return ({ s with
    keys := if s.inFlow then s.keys.drop 1 else s.keys
    keyAllowed := false }.advance 1).emit t

/-- Read an indicator of a block entry or of a key, which begins a block collection where none
has begun. -/
def blockIndicator? (s : Scanner) (start t : Token) (keyAfter : Bool) : Option Scanner := do
  if !s.inFlow && !s.keyAllowed then none
  else
    let s ← (s.rollIndent s.cursor.column none start).dropKey?
    return ({ s with keyAllowed := keyAfter }.advance 1).emit t

/-- Read the colon before a value. When a key is pending this is its colon. -/
def value? (s : Scanner) : Option Scanner :=
  match s.keys with
  | some k :: rest =>
    let s := (s.insert k.number .key).rollIndent k.mark.column (some k.number) .blockMappingStart
    some (({ s with keys := none :: rest, keyAllowed := false }.advance 1).emit .value)
  | _ =>
    if !s.inFlow && !s.keyAllowed then none
    else
      let s := s.rollIndent s.cursor.column none .blockMappingStart
      some (({ s with keyAllowed := !s.inFlow }.advance 1).emit .value)

/-- Read a token that may be a key. -/
def keyLike? (s : Scanner) (read : Cursor → Option (Token × Cursor)) : Option Scanner := do
  let s ← s.saveKey?
  let (t, c) ← read s.cursor
  return { s with cursor := c, keyAllowed := false }.emit t

/-- Read a plain scalar. -/
def plain? (s : Scanner) : Option Scanner := do
  let s ← s.saveKey?
  let p ← readPlain? s.inFlow (s.indent + 1).toNat (s.cursor.rest.length + 1) s.cursor [] {}
  return { s with cursor := p.after, keyAllowed := p.broken }.emit
    (.scalar (String.ofList p.text) true)

/-- Read a quoted scalar. -/
def quoted? (s : Scanner) (quote : Char) : Option Scanner :=
  s.keyLike? fun c => do
    let c := c.advance 1
    let (text, c) ← readQuoted? quote (c.rest.length + 1) c []
    return (.scalar (String.ofList text) false, c)

/-- Read a block scalar. -/
def block? (s : Scanner) (literal : Bool) : Option Scanner := do
  let s ← s.dropKey?
  let (text, c) ← readBlock? literal s.indent (s.cursor.advance 1)
  return { s with cursor := c, keyAllowed := true }.emit (.scalar (String.ofList text) false)

/-- Leave all block collections before a directive, a document marker or the end. -/
def leaveBlocks? (s : Scanner) : Option Scanner := do
  let s ← (s.unrollIndent (-1)).dropKey?
  return { s with keyAllowed := false }

/-- May a plain scalar begin with this character, which `rest` follows? -/
def beginsPlain (inFlow : Bool) (c : Char) (rest : List Char) : Bool :=
  !("-?:,[]\x7b\x7d#&*!|>'\"%@`".toList.contains c || atBlank [c]) ||
    (c == '-' && !((rest.head?.map Yaml.isBlank).getD false)) ||
    (!inFlow && (c == '?' || c == ':') && !atBlank rest)

/-- Read the next token, and with it the tokens that it brings about. -/
def next? (s : Scanner) : Option Scanner := do
  let s ← (s.skipToToken (s.cursor.rest.length + 1)).dropStale?
  let s := s.unrollIndent s.cursor.column
  match s.cursor.rest with
  | [] => do
    let s ← s.leaveBlocks?
    return s.emit .streamEnd
  | c :: rest =>
    if s.cursor.column = 0 ∧ c = '%' then do
      let s ← s.leaveBlocks?
      let (t, c) ← readDirective? s.cursor
      return { s with cursor := c }.emit t
    else if s.cursor.atDocumentMarker then do
      let s ← s.leaveBlocks?
      return (s.advance 3).emit (if c = '-' then .documentStart else .documentEnd)
    else match c with
      | '[' => s.openFlow? .flowSequenceStart
      | '\x7b' => s.openFlow? .flowMappingStart
      | ']' => s.closeFlow? .flowSequenceEnd
      | '\x7d' => s.closeFlow? .flowMappingEnd
      | ',' => do
        let s ← s.dropKey?
        return ({ s with keyAllowed := true }.advance 1).emit .flowEntry
      | '*' => s.keyLike? fun c => (readAnchorName? c).map fun (n, c) => (.alias n, c)
      | '&' => s.keyLike? fun c => (readAnchorName? c).map fun (n, c) => (.anchor n, c)
      | '!' => s.keyLike? (readTag? s.inFlow)
      | '\'' => s.quoted? '\''
      | '"' => s.quoted? '"'
      | _ =>
        if c = '-' ∧ atBlank rest then s.blockIndicator? .blockSequenceStart .blockEntry true
        else if c = '?' ∧ (s.inFlow ∨ atBlank rest) then
          s.blockIndicator? .blockMappingStart .key (!s.inFlow)
        else if c = ':' ∧ (s.inFlow ∨ atBlank rest) then s.value?
        else if c = '|' ∧ !s.inFlow then s.block? true
        else if c = '>' ∧ !s.inFlow then s.block? false
        else if beginsPlain s.inFlow c rest then s.plain?
        else none

/-- The tokens that can be handed on when the next one is faulty: a pending key holds back its own
token and those after it. -/
def settled (s : Scanner) : List Token :=
  let held := s.keys.filterMap fun
    | some k => if PendingKey.isStale k s.cursor.mark && !k.required then none else some k.number
    | none => none
  (s.tokens.extract 0 (held.foldl min s.tokens.size)).toList

/-- Read tokens up to the end or the first fault. -/
def run (s : Scanner) : (fuel : Nat) → List Token
  | 0 => s.settled
  | fuel + 1 =>
    match s.next? with
    | none => s.settled
    | some s => if s.tokens.back? = some .streamEnd then s.tokens.toList else run s fuel

end Scanner

/-- The tokens of a text. They end in `streamEnd` unless the text has a fault. A byte order mark
before the text is no part of it. -/
def tokens (text : List Char) : List Token :=
  let text := if text.head? = some '\uFEFF' then text.drop 1 else text
  if text.all isAllowed then Scanner.run { cursor := ⟨text, {}⟩ } (text.length + 2) else []

end TypedCall.Yaml
