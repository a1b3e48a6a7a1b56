/-!
# Splitting texts

`splitChars` cuts a text at every separator, so a text with `n` separators has `n + 1` parts.
-/

namespace TypedCall.Text

/-- The parts of a text between the separators. -/
def splitChars (separator : Char) : List Char → List (List Char)
  | [] => [[]]
  | c :: rest =>
    if c = separator then [] :: splitChars separator rest
    else match splitChars separator rest with
      | part :: parts => (c :: part) :: parts
      | [] => [[c]]

/-- The parts of a text between the separators. -/
def split (separator : Char) (s : String) : List String :=
  (splitChars separator s.toList).map String.ofList

end TypedCall.Text
