import TypedCall.Toml.Date
import TypedCall.Toml.Value
/-!
# Reading TOML

`Value.parse?` reads a document line by line: a header names the table to which the following
lines belong, any other line gives a key a value. A text that is no document is refused without a
reason. Readers take the text that is left and return what they read with what is left after it.
-/

namespace TypedCall.Toml

/-- What has been read, with the text that has not. -/
abbrev Read (α : Type) := α × List Char

/-- Characters of bare keys; numbers and dates are made of them too. -/
def isBareChar (c : Char) : Bool :=
  ('0' ≤ c && c ≤ '9') || ('A' ≤ c && c ≤ 'Z') || ('a' ≤ c && c ≤ 'z') || c == '_' || c == '-'

/-- The text after its leading blanks. -/
def skipBlanks (cs : List Char) : List Char := cs.dropWhile fun c => c == ' ' || c == '\t'

/-- Characters that may stand in comments. -/
def isCommentChar (c : Char) : Bool := c == '\t' || 0x20 ≤ c.toNat

/-- Characters that may stand in strings. -/
def isStringChar (c : Char) : Bool := c == '\t' || (0x20 ≤ c.toNat && c.toNat != 0x7f)

/-- Pass over a comment, when there is one, and the end of the line. -/
def finishLine? (cs : List Char) : Option (List Char) :=
  match (match skipBlanks cs with
    | '#' :: rest => rest.dropWhile isCommentChar
    | rest => rest) with
  | [] => some []
  | '\n' :: rest => some rest
  | _ => none

/-- Pass over blanks, comments and ends of lines. -/
def skipLines? : (fuel : Nat) → List Char → Option (List Char)
  | 0, cs => some cs
  | fuel + 1, cs =>
    match skipBlanks cs with
    | '#' :: rest => do skipLines? fuel (← finishLine? ('#' :: rest))
    | '\n' :: rest => skipLines? fuel rest
    | rest => some rest

/-! ## Strings -/

/-- The character of a code written in hexadecimal digits. -/
def codeChar? (digits : List Char) : Option Char := do
  let code ← digits.foldlM (fun n c =>
    if '0' ≤ c ∧ c ≤ '9' then some (n * 16 + (c.toNat - 0x30))
    else if 'a' ≤ c ∧ c ≤ 'f' then some (n * 16 + (c.toNat - 0x57))
    else if 'A' ≤ c ∧ c ≤ 'F' then some (n * 16 + (c.toNat - 0x37))
    else none) 0
  if (0xD800 ≤ code ∧ code ≤ 0xDFFF) ∨ 0x10FFFF < code then none else some (Char.ofNat code)

/-- Read an escape whose backslash is consumed. In a string of several lines a backslash before
the end of a line takes away all blanks up to the next text. -/
def readEscape? (multiline : Bool) (cs : List Char) : Option (Read (List Char)) :=
  match cs with
  | [] => none
  | c :: rest =>
    match c with
    | '"' => some (['"'], rest)
    | '\\' => some (['\\'], rest)
    | 'b' => some (['\x08'], rest)
    | 'f' => some (['\x0c'], rest)
    | 'n' => some (['\n'], rest)
    | 'r' => some (['\r'], rest)
    | 't' => some (['\t'], rest)
    | 'u' => do
      if rest.length < 4 then none else return ([← codeChar? (rest.take 4)], rest.drop 4)
    | 'U' => do
      if rest.length < 8 then none else return ([← codeChar? (rest.take 8)], rest.drop 8)
    | _ =>
      if !multiline then none
      else match skipBlanks cs with
        | '\n' :: rest => some ([], rest.dropWhile fun c => c == ' ' || c == '\t' || c == '\n')
        | [] => if c == ' ' || c == '\t' then some ([], []) else none
        | _ => none

/-- Read the characters of a string on one line up to its closing quote. -/
def readLineString? (quote : Char) : (fuel : Nat) → List Char → Option (Read (List Char))
  | 0, _ => none
  | _, [] => none
  | fuel + 1, c :: rest =>
    if c = quote then some ([], rest)
    else if quote = '"' ∧ c = '\\' then do
      let (e, rest) ← readEscape? false rest
      let (cs, rest) ← readLineString? quote fuel rest
      return (e ++ cs, rest)
    else if !isStringChar c then none
    else do
      let (cs, rest) ← readLineString? quote fuel rest
      return (c :: cs, rest)

/-- Read the characters of a string of several lines. Of five closing quotes the first two belong
to the string. -/
def readMultiline? (quote : Char) : (fuel : Nat) → List Char → Option (Read (List Char))
  | 0, _ => none
  | _, [] => none
  | fuel + 1, c :: rest =>
    if c = quote then
      let n := (rest.takeWhile (· == quote)).length + 1
      if n < 3 then do
        let (cs, rest) ← readMultiline? quote fuel (rest.drop (n - 1))
        return (List.replicate n quote ++ cs, rest)
      else
        let n := min n 5
        some (List.replicate (n - 3) quote, rest.drop (n - 1))
    else if quote = '"' ∧ c = '\\' then do
      let (e, rest) ← readEscape? true rest
      let (cs, rest) ← readMultiline? quote fuel rest
      return (e ++ cs, rest)
    else if c ≠ '\n' ∧ !isStringChar c then none
    else do
      let (cs, rest) ← readMultiline? quote fuel rest
      return (c :: cs, rest)

/-- Read a string whose first quote is consumed, and tell whether it may have several lines. -/
def readString? (quote : Char) (cs : List Char) : Option (Read (String × Bool)) :=
  match cs with
  | a :: b :: rest =>
    if a = quote ∧ b = quote then do
      let rest := match rest with
        | '\n' :: rest => rest
        | rest => rest
      let (text, rest) ← readMultiline? quote (rest.length + 1) rest
      return ((String.ofList text, true), rest)
    else do
      let (text, rest) ← readLineString? quote (cs.length + 1) cs
      return ((String.ofList text, false), rest)
  | _ => do
    let (text, rest) ← readLineString? quote (cs.length + 1) cs
    return ((String.ofList text, false), rest)

/-! ## Keys -/

/-- Read one part of a key. -/
def readKeyPart? (cs : List Char) : Option (Read String) :=
  match cs with
  | '"' :: rest => do
    let ((key, multiline), rest) ← readString? '"' rest
    if multiline then none else return (key, rest)
  | '\'' :: rest => do
    let ((key, multiline), rest) ← readString? '\'' rest
    if multiline then none else return (key, rest)
  | _ =>
    let word := cs.takeWhile isBareChar
    if word.isEmpty then none else some (String.ofList word, cs.dropWhile isBareChar)

/-- Read a key with all its parts, and the blanks after it. -/
def readKey? : (fuel : Nat) → List Char → Option (Read (List String))
  | 0, _ => none
  | fuel + 1, cs => do
    let (part, rest) ← readKeyPart? cs
    match skipBlanks rest with
    | '.' :: rest => do
      let (parts, rest) ← readKey? fuel (skipBlanks rest)
      return (part :: parts, rest)
    | rest => return ([part], rest)

/-! ## Numbers and dates -/

/-- Cut digits and underscores off a word. An underscore stands between digits, and a leading
zero stands alone unless `zeros` says otherwise. -/
def cutDigits? (isDigit : Char → Bool) (sign zeros : Bool) (cs : List Char) :
    Option (Read (List Char)) :=
  let (lead, body) := match cs with
    | '+' :: rest => if sign then ([], rest) else ([], cs)
    | '-' :: rest => if sign then (['-'], rest) else ([], cs)
    | _ => ([], cs)
  (go none body).map fun (digits, rest) => (lead ++ digits, rest)
where
  /-- Go on after the digit or underscore given. -/
  go (before : Option Char) : List Char → Option (Read (List Char))
    | [] => if before.isNone ∨ before = some '_' then none else some ([], [])
    | c :: rest =>
      if isDigit c then
        match go (some c) rest with
        | none => none
        | some (digits, after) =>
          if before.isNone && c == '0' && !zeros && !digits.isEmpty then none
          else some (c :: digits, after)
      else if c = '_' then
        if before.isNone ∨ before = some '_' then none
        else go (some '_') rest
      else if before.isNone ∨ before = some '_' then none
      else some ([], c :: rest)

/-- Is this a digit of the base? -/
def isDigitOf (base : Nat) (c : Char) : Bool :=
  if base = 16 then c.isDigit || ('a' ≤ c && c ≤ 'f') || ('A' ≤ c && c ≤ 'F')
  else '0' ≤ c && c.toNat < 0x30 + base

/-- The value of digits of the base. -/
def digitsIn (base : Nat) (digits : List Char) : Nat :=
  digits.foldl (fun n c => n * base +
    (if c.isDigit then c.toNat - 0x30 else c.toLower.toNat - 0x57)) 0

/-- The integer of 64 bits that a word writes. -/
def integer? (base : Nat) (cs : List Char) : Option Int := do
  let decimal := base == 10
  let (digits, rest) ← cutDigits? (isDigitOf base) decimal (!decimal) cs
  let n : Int := match digits with
    | '-' :: digits => -(digitsIn base digits : Int)
    | digits => digitsIn base digits
  if rest.isEmpty && fitsSigned64 n then some n else none

/-- Read the exponent that a word begins with, and the word after a plus that stands behind it. -/
def readExponent? (word : List Char) (rest : List Char) : Option (Read (List Char)) :=
  match word with
  | [] => some ([], rest)
  | e :: digits =>
    if e ≠ 'e' ∧ e ≠ 'E' then none
    else if digits.isEmpty then do
      let rest := match rest with
        | '+' :: rest => rest
        | rest => rest
      let (exponent, after) ← cutDigits? Char.isDigit false true (rest.takeWhile isBareChar)
      if after.isEmpty then some ('e' :: exponent, rest.dropWhile isBareChar) else none
    else do
      let (exponent, after) ← cutDigits? Char.isDigit true true digits
      if after.isEmpty then some ('e' :: exponent, rest) else none

/-- Read a finite floating point number that begins with a word and may have a fraction. -/
def readFloat? (word : List Char) (fraction : Option (List Char)) (rest : List Char) :
    Option (Read Value) := do
  let (whole, after) ← cutDigits? Char.isDigit true false word
  let (digits, after) ← match fraction with
    | none => some ([], after)
    | some part =>
      if after.isEmpty then (cutDigits? Char.isDigit false true part).map fun (digits, after) =>
        ('.' :: digits, after)
      else none
  let (exponent, rest) ← readExponent? after rest
  let x ← Float64.finiteOfChars? (whole ++ digits ++ exponent)
  return (.double x, rest)

/-- Read the number that begins with a word. -/
def readNumber? (word : List Char) (rest : List Char) : Option (Read Value) :=
  let integral (base : Nat) (cs : List Char) : Option (Read Value) :=
    (integer? base cs).map fun i => (.integer i, rest)
  match word with
  | '0' :: 'x' :: digits => integral 16 digits
  | '0' :: 'o' :: digits => integral 8 digits
  | '0' :: 'b' :: digits => integral 2 digits
  | _ =>
    if word.contains 'e' || word.contains 'E' then readFloat? word none rest
    else match rest with
      | '.' :: rest =>
        let fraction := rest.takeWhile isBareChar
        if fraction.isEmpty then none
        else readFloat? word (some fraction) (rest.dropWhile isBareChar)
      | _ =>
        if word = "inf".toList then some (.double (.infinity false), rest)
        else if word = "-inf".toList then some (.double (.infinity true), rest)
        else if word = "nan".toList ∨ word = "-nan".toList then some (.double .nan, rest)
        else integral 10 word

/-- Pass over a character and the word after it, when they are there; the word is due then. -/
def passWord? (c : Char) (cs : List Char) : Option (List Char) :=
  match cs with
  | d :: rest =>
    if d = c then
      if (rest.takeWhile isBareChar).isEmpty then none else some (rest.dropWhile isBareChar)
    else some cs
  | [] => some []

/-- Find the end of a date or a time of which the first word is consumed. -/
def passDate? (cs : List Char) : Option (List Char) := do
  let cs := match cs with
    | ' ' :: rest =>
      if (rest.takeWhile isBareChar).isEmpty then cs else rest.dropWhile isBareChar
    | _ => cs
  match cs with
  | ':' :: _ => do
    let cs ← passWord? ':' cs
    match cs with
    | ':' :: _ => passWord? ':' (← passWord? '+' (← passWord? '.' (← passWord? ':' cs)))
    | _ => none
  | _ => some cs

/-- Read the date or the time that begins with a word. -/
def readDateValue? (word : List Char) (rest : List Char) : Option (Read Value) := do
  let after ← passDate? rest
  let whole := word ++ rest.take (rest.length - after.length)
  return (.text (String.ofList (← dateText? whole)), after)

/-- Does the letter stand before a minus somewhere? -/
def hasNegativeExponent (e : Char) : List Char → Bool
  | c :: d :: rest => (c == e && d == '-') || hasNegativeExponent e (d :: rest)
  | _ => false

/-- Is this the first word of a date: one with a `T`, or with a minus that begins no exponent? -/
def beginsDate (word : List Char) : Bool :=
  word.contains 'T' || word.contains 't' ||
    ((word.drop 1).contains '-' && !hasNegativeExponent 'e' word && !hasNegativeExponent 'E' word)

/-- Read the number, the date or the time that begins with a word. -/
def readNumberOrDate? (word : List Char) (rest : List Char) : Option (Read Value) :=
  if beginsDate word || rest.head? = some ':' then readDateValue? word rest
  else readNumber? word rest

/-! ## Values -/

mutual

/-- Read a value. -/
def readValue? : (fuel : Nat) → List Char → Option (Read Value)
  | 0, _ => none
  | _, [] => none
  | fuel + 1, c :: rest =>
    match c with
    | '"' => (readString? '"' rest).map fun ((s, _), rest) => (.text s, rest)
    | '\'' => (readString? '\'' rest).map fun ((s, _), rest) => (.text s, rest)
    | '[' => (readArray? fuel rest).map fun (items, rest) => (.array items, rest)
    | '\x7b' =>
      match skipBlanks rest with
      | '\x7d' :: rest => some (.table [], rest)
      | rest => (readInline? [] fuel rest).map fun (entries, rest) =>
        (.table (finishEntries entries), rest)
    | '+' =>
      let word := rest.takeWhile isBareChar
      if word.isEmpty then none else readNumber? word (rest.dropWhile isBareChar)
    | _ =>
      let word := (c :: rest).takeWhile isBareChar
      let rest := (c :: rest).dropWhile isBareChar
      if word = "true".toList then some (.bool true, rest)
      else if word = "false".toList then some (.bool false, rest)
      else if c == '-' || c.isDigit || word = "inf".toList || word = "nan".toList then
        readNumberOrDate? word rest
      else none

/-- Read the items of an array up to its closing bracket. -/
def readArray? : (fuel : Nat) → List Char → Option (Read (List Value))
  | 0, _ => none
  | fuel + 1, cs => do
    match ← skipLines? (cs.length + 1) cs with
    | ']' :: rest => return ([], rest)
    | cs =>
      let (item, rest) ← readValue? fuel cs
      match ← skipLines? (rest.length + 1) rest with
      | ',' :: rest => do
        let (items, rest) ← readArray? fuel rest
        return (item :: items, rest)
      | ']' :: rest => return ([item], rest)
      | _ => none

/-- Read the entries of an inline table up to its closing brace; one is due. -/
def readInline? (before : Entries) : (fuel : Nat) → List Char → Option (Read Entries)
  | 0, _ => none
  | fuel + 1, cs => do
    let (key, rest) ← readKey? (cs.length + 1) cs
    match rest with
    | '=' :: rest => do
      let (v, rest) ← readValue? fuel (skipBlanks rest)
      let entries ← addDotted? v key before
      match skipBlanks rest with
      | '\x7d' :: rest => return (entries, rest)
      | ',' :: rest => readInline? entries fuel (skipBlanks rest)
      | _ => none
    | _ => none

end

/-! ## Documents -/

/-- A document that is being read: its entries, and the header of the open table. -/
structure Draft where
  entries : Entries := []
  header : List String := []

/-- Read a header whose opening bracket is consumed. -/
def readHeader? (d : Draft) (cs : List Char) : Option (Read Draft) := do
  let (array, cs) := match cs with
    | '[' :: rest => (true, rest)
    | _ => (false, cs)
  let cs := skipBlanks cs
  let (header, rest) ← readKey? (cs.length + 1) cs
  match array, rest with
  | false, ']' :: rest =>
    return (⟨← openTable? header d.entries, header⟩, ← finishLine? rest)
  | true, ']' :: ']' :: rest =>
    return (⟨← openArray? header d.entries, header⟩, ← finishLine? rest)
  | _, _ => none

/-- Read a key and its value. -/
def readKeyValue? (d : Draft) (cs : List Char) : Option (Read Draft) := do
  let (key, rest) ← readKey? (cs.length + 1) cs
  match rest with
  | '=' :: rest => do
    let (v, rest) ← readValue? (2 * rest.length + 2) (skipBlanks rest)
    return ({ d with entries := ← changeAt? (addDotted? v key) d.header d.entries },
      ← finishLine? rest)
  | _ => none

/-- Read line after line. -/
def readLines? (d : Draft) : (fuel : Nat) → List Char → Option Draft
  | 0, _ => none
  | fuel + 1, cs => do
    match ← skipLines? (cs.length + 1) cs with
    | [] => return d
    | '[' :: rest => do
      let (d, rest) ← readHeader? d rest
      readLines? d fuel rest
    | cs => do
      let (d, rest) ← readKeyValue? d cs
      readLines? d fuel rest

/-- The text with every carriage return before a line feed taken away. -/
def foldLineEnds : List Char → List Char
  | '\r' :: '\n' :: rest => '\n' :: foldLineEnds rest
  | c :: rest => c :: foldLineEnds rest
  | [] => []

/-- The entries of the document that a text holds. -/
def parse? (text : String) : Option (List (String × Value)) :=
  let cs := match text.toList with
    | '\uFEFF' :: rest => rest
    | cs => cs
  let cs := foldLineEnds cs
  (readLines? {} (cs.length + 1) cs).map fun d => finishEntries d.entries

end TypedCall.Toml
