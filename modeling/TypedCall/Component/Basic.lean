import TypedCall.Descriptor.Json
import TypedCall.Descriptor.Signature
import TypedCall.Text.Blank
/-!
# Components

A component exports named groups of functions. Functions are found by the name of their export
and their own name, or listed in the order of declaration; both ways a function comes with the
name of its export. A search keeps the listed functions whose name or export contains the query,
blanks at its ends and letter case left out of account.
-/

namespace TypedCall

open Json (Value)

/-- A function that can be called: its name, the export it belongs to when that is known, and
what it takes and gives. -/
structure Callable where
  name : String
  exportName : Option String := none
  parameters : List Field := []
  results : List Field := []

/-- A named group of functions. -/
structure Export where
  name : String
  functions : List Callable := []

/-- A component and what it exports. -/
structure Component where
  id : String
  name : Option String := none
  version : Option Nat := none
  exports : List Export := []

instance : Inhabited Component := ⟨⟨"", none, none, []⟩⟩

/-- Why a function cannot be found. -/
inductive LookupError where
  | componentNotFound (component : String)
  | exportNotFound (component exportName : String)
  | functionNotFound (exportName function : String)
deriving DecidableEq

/-- The wording of a failed lookup. -/
def LookupError.message : LookupError → String
  | componentNotFound component => "Component not found: '" ++ component ++ "'"
  | exportNotFound component exportName =>
    "Export not found: '" ++ exportName ++ "' in component '" ++ component ++ "'"
  | functionNotFound exportName function =>
    "Function not found: '" ++ function ++ "' in export '" ++ exportName ++ "'"

namespace Callable

/-- One line of a listing: name, parameters, and results when there are any. -/
def signature (f : Callable) : String :=
  (match f.exportName with
    | some e => e ++ "." ++ f.name
    | none => f.name) ++
  (if f.parameters.isEmpty then "()" else String.join (signatures f.parameters)) ++
  (if f.results.isEmpty then "" else " -> " ++ String.join (signatures f.results))

/-- The function as belonging to an export. -/
def within (f : Callable) (exportName : String) : Callable :=
  { f with exportName := some exportName }

/-- Pairwise equality of all parts. -/
def same (f g : Callable) : Bool :=
  f.name == g.name && f.exportName == g.exportName &&
    Descriptor.sameFields f.parameters g.parameters && Descriptor.sameFields f.results g.results

end Callable

namespace Component

/-- Find a function by the names of its export and its own: the first export of that name, and
in it the first function of that name. -/
def find (c : Component) (exportName function : String) : Except LookupError Callable :=
  match c.exports.find? (·.name == exportName) with
  | none => .error (.exportNotFound c.id exportName)
  | some e =>
    match e.functions.find? (·.name == function) with
    | none => .error (.functionNotFound exportName function)
    | some f => .ok (f.within e.name)

/-- All functions in order of declaration. -/
def functions (c : Component) : List Callable :=
  c.exports.flatMap fun e => e.functions.map (·.within e.name)

/-- Does the name or the export of the function contain the lowercase text? -/
def matchesQuery (needle : String) (f : Callable) : Bool :=
  needle.isEmpty || Text.contains (Text.lowercase f.name) needle ||
    (match f.exportName with
      | some e => Text.contains (Text.lowercase e) needle
      | none => false)

/-- The functions that match a query, in order of declaration. -/
def search (c : Component) (query : String) : List Callable :=
  c.functions.filter (matchesQuery (Text.lowercase (Text.trim query)))

end Component

/-! ## Written forms

A component can be written with its descriptors as they are or with the objects they stand for;
`write` says which. -/

/-- A field with its descriptor written by `write`. -/
def Named.writtenBy (write : Descriptor → Value) (field : Field) : Value :=
  .object [("name", .string field.name), ("typ", write field.typ)]

/-- A function; the export is written only when it is known. -/
def Callable.writtenBy (write : Descriptor → Value) (f : Callable) : Value :=
  .object ([("name", .string f.name)] ++
    (match f.exportName with
      | some e => [("exportName", .string e)]
      | none => []) ++
    [("parameters", .array (f.parameters.map (·.writtenBy write))),
      ("results", .array (f.results.map (·.writtenBy write)))])

/-- An export. -/
def Export.writtenBy (write : Descriptor → Value) (e : Export) : Value :=
  .object [("name", .string e.name),
    ("functions", .array (e.functions.map (·.writtenBy write)))]

/-- A component; name and version are written only when they are known. -/
def Component.writtenBy (write : Descriptor → Value) (c : Component) : Value :=
  .object ([("componentId", .string c.id)] ++
    (match c.name with
      | some n => [("componentName", .string n)]
      | none => []) ++
    (match c.version with
      | some v => [("version", .number (.integer v))]
      | none => []) ++
    [("exports", .array (c.exports.map (·.writtenBy write)))])

/-- The function with its descriptors as they are. -/
def Callable.written (f : Callable) : Value := f.writtenBy Descriptor.written

/-- The function as a JSON value. -/
def Callable.toJson (f : Callable) : Value := f.writtenBy Descriptor.toJson

/-- The component with its descriptors as they are. -/
def Component.written (c : Component) : Value := c.writtenBy Descriptor.written

/-- The component as a JSON value. -/
def Component.toJson (c : Component) : Value := c.writtenBy Descriptor.toJson

end TypedCall
