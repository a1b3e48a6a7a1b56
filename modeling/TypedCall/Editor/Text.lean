import TypedCall.Json.Reader
import TypedCall.Json.Printer
import TypedCall.Component.Basic
import TypedCall.Descriptor.Skeleton
/-!
# Texts in the editor

`tidy` lays out a text that is a JSON document and leaves any other text alone, so that a
document can be tidied while it is still being written. `straighten` turns the quotes that word
processors and people write into the double quotes that JSON asks for, wherever they stand.
-/

namespace TypedCall.Editor

open Json (Value)

/-- The document over several lines, or the text itself when it is not a document. -/
def tidy (text : String) : String :=
  match Value.parse text with
  | .ok v => v.pretty
  | .error _ => text

/-- Curly double quotes and single quotes become straight double quotes. -/
def straightenChar (c : Char) : Char :=
  if c = '\u201c' ∨ c = '\u201d' ∨ c = '\'' then '"' else c

/-- Straighten every quote of a text. -/
def straighten (text : String) : String := String.ofList (text.toList.map straightenChar)

end Editor

namespace Callable

open Json (Value)

/-- A skeleton for each parameter. -/
def skeleton (f : Callable) : List Value := f.parameters.map (·.typ.skeleton)

/-- The text an editor starts from: the skeletons of all parameters as one document. -/
def startText (f : Callable) : String := (Value.array f.skeleton).pretty

end TypedCall.Callable
