import TypedCall.Text.CaseTable
/-!
# Lowercase text

Lowercase by the full Unicode rules: each character has its own image, the dotted capital I has
two characters, and a capital sigma becomes the final sigma when a cased letter stands before it
and none after it, case-ignorable characters not counted.
-/

namespace TypedCall.Text

/-- Is the code point inside one of the ranges? -/
def inRanges (ranges : List (Nat × Nat)) (n : Nat) : Bool :=
  ranges.any fun (first, last) => first ≤ n && n ≤ last

/-- The property Cased. -/
def isCased (c : Char) : Bool := inRanges casedRanges c.toNat

/-- The property Case_Ignorable. -/
def isCaseIgnorable (c : Char) : Bool := inRanges caseIgnorableRanges c.toNat

/-- The image of a code point under the runs of the table, itself when no run has it. -/
def lowercaseCode (n : Nat) : Nat :=
  match lowercaseRuns.find? fun (first, last, step, _) =>
      first ≤ n && n ≤ last && (n - first) % step == 0 with
  | some (first, _, _, image) => image + (n - first)
  | none => n

/-- The lowercase of one character, away from any context. -/
def lowercaseChar (c : Char) : List Char :=
  if c.toNat < 0x80 then [c.toLower]
  else if c == 'İ' then ['i', '\u0307']
  else [Char.ofNat (lowercaseCode c.toNat)]

/-- After its case-ignorable characters, does the text go on with a cased one? -/
def nextIsCased (cs : List Char) : Bool :=
  match cs.dropWhile isCaseIgnorable with
  | c :: _ => isCased c
  | [] => false

/-- Lowercase `cs`, which stands after the reverse of `before`. -/
def lowercaseAfter (before : List Char) : List Char → List Char
  | [] => []
  | c :: rest =>
    (if c == 'Σ' then
      if nextIsCased before && !nextIsCased rest then ['ς'] else ['σ']
    else lowercaseChar c) ++ lowercaseAfter (c :: before) rest

/-- The lowercase of a text. -/
def lowercase (s : String) : String := String.ofList (lowercaseAfter [] s.toList)

/-- Is `needle` found in the list, character for character? -/
def hasSegment (needle : List Char) : List Char → Bool
  | [] => needle.isEmpty
  | c :: rest => needle.isPrefixOf (c :: rest) || hasSegment needle rest

/-- Does the text contain `needle`, character for character? -/
def contains (s needle : String) : Bool := hasSegment needle.toList s.toList

end TypedCall.Text
