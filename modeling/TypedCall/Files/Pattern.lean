import TypedCall.Text.Split
/-!
# Name patterns

A pattern is written like a path. In each segment `?` stands for one character, `*` for any run
of characters, a leading dot included, and brackets for one character of a class, or for one
outside of it after `!`. The segment `**` stands for any number of directories.
-/

namespace TypedCall.Files

/-- A piece of a pattern. -/
inductive Token where
  | char (c : Char)
  | anyChar
  | anyRun
  | oneOf (ranges : List (Char × Char))
  | noneOf (ranges : List (Char × Char))
  | anyDirectories
deriving DecidableEq

/-- What makes a text no pattern. -/
inductive PatternCause where
  | wildcards
  | recursiveWildcards
  | range
deriving DecidableEq

/-- A fault of a pattern and the index of the character where it was found. -/
structure PatternError where
  position : Nat
  cause : PatternCause
deriving DecidableEq

/-- The wording of a fault. -/
def PatternCause.message : PatternCause → String
  | wildcards => "wildcards are either regular `*` or recursive `**`"
  | recursiveWildcards => "recursive wildcards must form a single path component"
  | range => "invalid range pattern"

/-- The wording of a fault with its position. -/
def PatternError.message (e : PatternError) : String :=
  "Pattern syntax error near position " ++ toString e.position ++ ": " ++ e.cause.message

/-- The ranges of a class: `a-z`, or a character alone. -/
def classRanges : List Char → List (Char × Char)
  | first :: '-' :: last :: rest => (first, last) :: classRanges rest
  | c :: rest => (c, c) :: classRanges rest
  | [] => []

/-- The characters of a class and what follows its closing bracket. The first character always
belongs to the class. -/
def readClass? : List Char → Option (List Char × List Char)
  | [] => none
  | first :: rest =>
    match rest.dropWhile (· != ']') with
    | _ :: after => some (first :: rest.takeWhile (· != ']'), after)
    | [] => none

/-- Read tokens from the character at `position` on; `before` is the character before it. -/
def readTokens (before : Option Char) (position : Nat) :
    (fuel : Nat) → List Char → Except PatternError (List Token)
  | 0, _ => .ok []
  | _, [] => .ok []
  | fuel + 1, '?' :: rest => do
    return .anyChar :: (← readTokens (some '?') (position + 1) fuel rest)
  | _ + 1, '*' :: '*' :: '*' :: _ => .error ⟨position + 2, .wildcards⟩
  | fuel + 1, '*' :: '*' :: rest =>
    if before.isSome ∧ before ≠ some '/' then .error ⟨position - 1, .recursiveWildcards⟩
    else match rest with
      | [] => .ok [.anyDirectories]
      | '/' :: rest => do
        return .anyDirectories :: (← readTokens (some '/') (position + 3) fuel rest)
      | _ => .error ⟨position + 2, .recursiveWildcards⟩
  | fuel + 1, '*' :: rest => do
    return .anyRun :: (← readTokens (some '*') (position + 1) fuel rest)
  | fuel + 1, '[' :: '!' :: rest =>
    match readClass? rest with
    | some (cs, after) => do
      return .noneOf (classRanges cs) ::
        (← readTokens (some ']') (position + cs.length + 3) fuel after)
    | none => .error ⟨position, .range⟩
  | fuel + 1, '[' :: rest =>
    match readClass? rest with
    | some (cs, after) => do
      return .oneOf (classRanges cs) ::
        (← readTokens (some ']') (position + cs.length + 2) fuel after)
    | none => .error ⟨position, .range⟩
  | fuel + 1, c :: rest => do
    return .char c :: (← readTokens (some c) (position + 1) fuel rest)

/-- The tokens of a pattern. -/
def tokensOf (pattern : List Char) : Except PatternError (List Token) :=
  readTokens none 0 pattern.length pattern

/-- Is the character inside one of the ranges? -/
def inClass (ranges : List (Char × Char)) (c : Char) : Bool :=
  ranges.any fun (first, last) => first ≤ c && c ≤ last

/-- Does the text or some text that follows a part of it satisfy the test? -/
def anySuffix (test : List Char → Bool) : List Char → Bool
  | [] => test []
  | c :: rest => test (c :: rest) || anySuffix test rest

/-- Do the tokens match a whole name? -/
def matchesName : List Token → List Char → Bool
  | [], cs => cs.isEmpty
  | .anyRun :: tokens, cs => anySuffix (matchesName tokens) cs
  | .anyDirectories :: tokens, cs => anySuffix (matchesName tokens) cs
  | _ :: _, [] => false
  | .char d :: tokens, c :: rest => c == d && matchesName tokens rest
  | .anyChar :: tokens, _ :: rest => matchesName tokens rest
  | .oneOf ranges :: tokens, c :: rest => inClass ranges c && matchesName tokens rest
  | .noneOf ranges :: tokens, c :: rest => !inClass ranges c && matchesName tokens rest

/-- The characters of tokens that stand for themselves only. -/
def literalOf? : List Token → Option (List Char)
  | [] => some []
  | .char c :: tokens => (literalOf? tokens).map (c :: ·)
  | _ => none

/-- A segment of a pattern. -/
inductive Segment where
  | literal (name : String)
  | wild (tokens : List Token)
  | anyDirectories
deriving DecidableEq

namespace Segment

/-- The segment with the given tokens. -/
def ofTokens (tokens : List Token) : Segment :=
  match literalOf? tokens with
  | some name => .literal (String.ofList name)
  | none => if tokens = [.anyDirectories] then .anyDirectories else .wild tokens

/-- Does the segment match a name? -/
def accepts (name : String) : Segment → Bool
  | .literal s => s == name
  | .wild tokens => matchesName tokens name.toList
  | .anyDirectories => true

/-- Does the segment begin with a dot, so that it can stand for `.` and `..`? -/
def beginsWithDot : Segment → Bool
  | .wild (.char '.' :: _) => true
  | _ => false

end Segment

/-- A pattern: from where it starts, and its segments. -/
structure Pattern where
  absolute : Bool
  segments : List Segment
deriving DecidableEq

/-- The parts of a pattern between its slashes; a slash at the end ends the last part. -/
def patternParts (pattern : List Char) : List (List Char) :=
  let parts := Text.splitChars '/' pattern
  if parts.getLast? = some [] then parts.dropLast else parts

/-- The pattern that a text writes. The text is read as a whole first, then part by part, so a
class must not reach over a slash. -/
def Pattern.ofChars (pattern : List Char) : Except PatternError Pattern := do
  let _ ← tokensOf pattern
  let (absolute, relative) := match pattern with
    | '/' :: rest => (true, rest)
    | _ => (false, pattern)
  let segments ← (patternParts relative).mapM fun part => do
    return Segment.ofTokens (← tokensOf part)
  return ⟨absolute, segments⟩

end TypedCall.Files
