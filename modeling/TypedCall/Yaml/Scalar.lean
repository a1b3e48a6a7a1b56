import TypedCall.Yaml.Cursor
/-!
# The texts of scalars

A scalar is written plain, between quotes, or as a block of indented lines. In a plain or quoted
scalar a line break is folded: one break is a space, and of several all but the first are kept. A
block is folded or literal, and its header says what becomes of the breaks at its end.
-/

namespace TypedCall.Yaml

/-- What stands between two words of a scalar. -/
structure Gap where
  /-- Blanks on the line of the word before. -/
  blanks : List Char := []
  /-- The first line break. -/
  first : List Char := []
  /-- The line breaks after the first. -/
  more : List Char := []
  /-- Has there been a line break? -/
  broken : Bool := false

namespace Gap

/-- What the gap adds to the text. -/
def fold (g : Gap) : List Char :=
  if g.broken then
    if g.first = ['\n'] then (if g.more.isEmpty then [' '] else g.more) else g.first ++ g.more
  else g.blanks

/-- The gap with one more break. -/
def addBreak (g : Gap) (text : List Char) : Gap :=
  if g.broken then { g with more := g.more ++ text }
  else { g with blanks := [], first := text, broken := true }

end Gap

/-- Read blanks and breaks up to the next word. Below the column `margin` no tab may indent a
line. -/
def readGap? (margin : Nat) : (fuel : Nat) → Cursor → Gap → Option (Gap × Cursor)
  | 0, c, g => some (g, c)
  | fuel + 1, c, g =>
    match c.rest with
    | [] => some (g, c)
    | b :: _ =>
      if isBlank b then
        if g.broken && c.column < margin && b == '\t' then none
        else readGap? margin fuel (c.advance 1)
          (if g.broken then g else { g with blanks := g.blanks ++ [b] })
      else if isBreak b then
        let (text, c) := c.readBreak
        readGap? margin fuel c (g.addBreak text)
      else some (g, c)

/-! ## Plain scalars -/

/-- Does the character end a plain scalar inside brackets? -/
def isFlowEnd (c : Char) : Bool :=
  c == ',' || c == '[' || c == ']' || c == '\x7b' || c == '\x7d'

/-- The length of the word of a plain scalar; inside brackets a colon must not touch an
indicator. -/
def plainWord? (inFlow : Bool) : List Char → Option Nat
  | [] => some 0
  | c :: rest =>
    if isBlank c || isBreak c then some 0
    else if inFlow && c == ':' && (match rest with
        | d :: _ => isFlowEnd d || d == '?'
        | [] => false) then none
    else if (c == ':' && atBlank rest) || (inFlow && isFlowEnd c) then some 0
    else (plainWord? inFlow rest).map (· + 1)

/-- A plain scalar: its text, where it ends, and whether it ends after a line break. -/
structure PlainScalar where
  text : List Char
  after : Cursor
  broken : Bool

/-- Read the rest of a plain scalar whose lines are indented to the column `margin`. -/
def readPlain? (inFlow : Bool) (margin : Nat) :
    (fuel : Nat) → Cursor → List Char → Gap → Option PlainScalar
  | 0, c, text, gap => some ⟨text, c, gap.broken⟩
  | fuel + 1, c, text, gap =>
    if c.atDocumentMarker || c.rest.head? = some '#' then some ⟨text, c, gap.broken⟩
    else do
      let n ← plainWord? inFlow c.rest
      let (text, gap) :=
        if n = 0 then (text, gap) else (text ++ gap.fold ++ c.rest.take n, ({} : Gap))
      let c := c.advance n
      if c.rest.isEmpty || !atBlank c.rest then some ⟨text, c, gap.broken⟩
      else do
        let (gap, c) ← readGap? margin (c.rest.length + 1) c gap
        if !inFlow && c.column < margin then some ⟨text, c, gap.broken⟩
        else readPlain? inFlow margin fuel c text gap

/-! ## Quoted scalars -/

/-- The value of `n` hexadecimal digits, after `value`. -/
def hexDigits? (value : Nat) : Nat → List Char → Option Nat
  | 0, _ => some value
  | _ + 1, [] => none
  | n + 1, c :: rest => do hexDigits? (value * 16 + (← hexDigit? c)) n rest

/-- The character of an escape in double quotes, and how many characters follow the backslash. -/
def escape? : List Char → Option (Char × Nat)
  | [] => none
  | c :: rest =>
    let coded (n : Nat) : Option (Char × Nat) := do
      let code ← hexDigits? 0 n rest
      if (0xD800 ≤ code ∧ code ≤ 0xDFFF) ∨ 0x10FFFF < code then none
      else some (Char.ofNat code, n + 1)
    match c with
    | '0' => some ('\x00', 1)
    | 'a' => some ('\x07', 1)
    | 'b' => some ('\x08', 1)
    | 't' => some ('\t', 1)
    | '\t' => some ('\t', 1)
    | 'n' => some ('\n', 1)
    | 'v' => some ('\x0b', 1)
    | 'f' => some ('\x0c', 1)
    | 'r' => some ('\r', 1)
    | 'e' => some ('\x1b', 1)
    | ' ' => some (' ', 1)
    | '"' => some ('"', 1)
    | '/' => some ('/', 1)
    | '\\' => some ('\\', 1)
    | 'N' => some ('\u0085', 1)
    | '_' => some ('\u00a0', 1)
    | 'L' => some ('\u2028', 1)
    | 'P' => some ('\u2029', 1)
    | 'x' => coded 2
    | 'u' => coded 4
    | 'U' => coded 8
    | _ => none

/-- Read a word of a quoted scalar up to a blank, a break or the closing quote. The flag tells
whether the word ended in an escaped line break. -/
def readQuotedWord? (quote : Char) :
    (fuel : Nat) → Cursor → List Char → Option (List Char × Bool × Cursor)
  | 0, c, text => some (text, false, c)
  | fuel + 1, c, text =>
    match c.rest with
    | [] => some (text, false, c)
    | d :: rest =>
      if isBlank d || isBreak d then some (text, false, c)
      else if d == quote then
        if quote == '\'' && rest.head? = some '\'' then
          readQuotedWord? quote fuel (c.advance 2) (text ++ ['\''])
        else some (text, false, c)
      else if quote == '"' && d == '\\' then
        if (rest.head?.map isBreak).getD false then
          some (text, true, (c.advance 1).readBreak.2)
        else do
          let (e, n) ← escape? rest
          readQuotedWord? quote fuel (c.advance (n + 1)) (text ++ [e])
      else readQuotedWord? quote fuel (c.advance 1) (text ++ [d])

/-- Read the rest of a quoted scalar up to and over its closing quote. -/
def readQuoted? (quote : Char) : (fuel : Nat) → Cursor → List Char → Option (List Char × Cursor)
  | 0, _, _ => none
  | fuel + 1, c, text =>
    if c.atDocumentMarker || c.rest.isEmpty then none
    else do
      let (word, broken, c) ← readQuotedWord? quote (c.rest.length + 1) c []
      if c.rest.head? = some quote then some (text ++ word, c.advance 1)
      else do
        let (gap, c) ← readGap? 0 (c.rest.length + 1) c { broken := broken }
        readQuoted? quote fuel c (text ++ word ++ gap.fold)

/-! ## Block scalars -/

/-- What becomes of the line breaks at the end of a block. -/
inductive Chomping where
  | strip
  | clip
  | keep
deriving DecidableEq

/-- The header of a block. -/
structure BlockHeader where
  chomping : Chomping
  increment : Option Nat

/-- A chomping indicator. -/
def chomping? : Char → Option Chomping
  | '+' => some .keep
  | '-' => some .strip
  | _ => none

/-- Read the indicators of a block, in either order; an increment of zero is refused. -/
def readBlockHeader? (c : Cursor) : Option (BlockHeader × Cursor) :=
  let increment? (cs : List Char) : Option Nat :=
    match cs with
    | d :: _ => if '0' ≤ d ∧ d ≤ '9' then some (d.toNat - 0x30) else none
    | [] => none
  let header (chomping : Option Chomping) (increment : Option Nat) (n : Nat) :=
    if increment = some 0 then none
    else some (⟨chomping.getD .clip, increment⟩, c.advance n)
  match c.rest with
  | [] => header none none 0
  | d :: rest =>
    match chomping? d with
    | some chomping =>
      match increment? rest with
      | some n => header (some chomping) (some n) 2
      | none => header (some chomping) none 1
    | none =>
      match increment? c.rest with
      | some n =>
        match rest.head?.bind chomping? with
        | some chomping => header (some chomping) (some n) 2
        | none => header none (some n) 1
      | none => header none none 0

/-- Read the indentation and the empty lines before a line of a block. While the indentation is
not known every space belongs to it; the deepest column is returned for it. -/
def readBlockBreaks? (indent : Option Nat) :
    (fuel : Nat) → Cursor → (breaks : List Char) → (deepest : Nat) →
      Option (List Char × Nat × Cursor)
  | 0, c, breaks, deepest => some (breaks, deepest, c)
  | fuel + 1, c, breaks, deepest =>
    let spaces := (c.rest.takeWhile (· == ' ')).length
    let c := c.advance (match indent with
      | some n => min spaces (n - c.column)
      | none => spaces)
    let deepest := max deepest c.column
    let within := match indent with
      | some n => decide (c.column < n)
      | none => true
    match c.rest with
    | [] => some (breaks, deepest, c)
    | b :: _ =>
      if within && b == '\t' then none
      else if isBreak b then
        let (text, c) := c.readBreak
        readBlockBreaks? indent fuel c (breaks ++ text) deepest
      else some (breaks, deepest, c)

/-- The lines of a block read so far. -/
structure BlockLines where
  text : List Char := []
  /-- The break after the last line. -/
  last : List Char := []
  /-- The empty lines after that break. -/
  more : List Char := []
  /-- Did the last line begin with a blank? -/
  blank : Bool := false

/-- Add a line: in a folded block the break before it is folded when neither of the lines around
it begins with a blank. -/
def BlockLines.add (b : BlockLines) (literal : Bool) (line : List Char) : BlockLines :=
  let blank := (line.head?.map Yaml.isBlank).getD false
  let join :=
    if !literal && b.last = ['\n'] && !b.blank && !blank then
      (if b.more.isEmpty then [' '] else []) ++ b.more
    else b.last ++ b.more
  ⟨b.text ++ join ++ line, [], [], blank⟩

/-- Read the lines of a block that stand at the column `indent`. -/
def readBlockLines? (literal : Bool) (indent : Nat) :
    (fuel : Nat) → Cursor → BlockLines → Option (BlockLines × Cursor)
  | 0, c, b => some (b, c)
  | fuel + 1, c, b =>
    if c.column ≠ indent ∨ c.rest.isEmpty then some (b, c)
    else do
      let line := c.rest.takeWhile (!isBreak ·)
      let b := b.add literal line
      let (last, c) := (c.advance line.length).readBreak
      let (more, _, c) ← readBlockBreaks? (some indent) (c.rest.length + 1) c [] 0
      readBlockLines? literal indent fuel c { b with last := last, more := more }

/-- Read a block whose first indicator is consumed; `parent` is the indentation around it. -/
def readBlock? (literal : Bool) (parent : Int) (c : Cursor) : Option (List Char × Cursor) := do
  let (header, c) ← readBlockHeader? c
  let c ← c.finishLine?
  let given := header.increment.map fun n => (max parent 0).toNat + n
  let (more, deepest, c) ← readBlockBreaks? given (c.rest.length + 1) c [] 0
  let indent := given.getD (max deepest (max (parent + 1) 1).toNat)
  let (b, c) ← readBlockLines? literal indent (c.rest.length + 1) c { more := more }
  return (b.text ++ (match header.chomping with
    | .strip => []
    | .clip => b.last
    | .keep => b.last ++ b.more), c)

end TypedCall.Yaml
