import TypedCall.Decimal.Words
import TypedCall.Json.Value
import TypedCall.Mismatch
import TypedCall.Toml.Value
/-!
# Configuration values

What a source of settings says: values that know where they come from, for the sake of messages.
Tables are merged key by key and belong to no single source, so they do not know.
-/

namespace TypedCall.Config

/-- Where a value comes from, when that is known. -/
abbrev Origin := Option String

/-- A value without inner structure. -/
inductive Datum where
  | nil
  | bool (b : Bool)
  | integer (i : Int)
  | double (x : Float64)
  | text (s : String)

/-- A configuration value. -/
inductive Value where
  | datum (d : Datum) (origin : Origin)
  | list (items : List Value) (origin : Origin)
  | table (entries : List (String × Value)) (origin : Origin)

/-- The entries of a table. -/
abbrev Table := List (String × Value)

namespace Value

/-- No value. -/
def nil : Value := .datum .nil none

instance : Inhabited Value := ⟨nil⟩

/-- Where the value comes from. -/
def origin : Value → Origin
  | .datum _ origin | .list _ origin | .table _ origin => origin

/-- The kind of a value, as reported in a mismatch. -/
def found : Value → Found
  | .datum .nil _ => .absent
  | .datum (.bool b) _ => .bool b
  | .datum (.integer i) _ => .integer i
  | .datum (.double x) _ => .double x
  | .datum (.text s) _ => .string s
  | .list _ _ => .sequence
  | .table _ _ => .map

/-- The entries of a table; any other value has none. -/
def entries : Value → Table
  | .table entries _ => entries
  | _ => []

/-- The items of a list; any other value has none. -/
def items : Value → List Value
  | .list items _ => items
  | _ => []

mutual

/-- A value of a TOML document. -/
def ofToml (origin : Origin) : Toml.Value → Value
  | .text s => .datum (.text s) origin
  | .integer i => .datum (.integer i) origin
  | .double x => .datum (.double x) origin
  | .bool b => .datum (.bool b) origin
  | .array items => .list (listOfToml origin items) origin
  | .table entries => .table (tableOfToml origin entries) origin

/-- Items of a TOML array. -/
def listOfToml (origin : Origin) : List Toml.Value → List Value
  | [] => []
  | v :: vs => ofToml origin v :: listOfToml origin vs

/-- Entries of a TOML table. -/
def tableOfToml (origin : Origin) : List (String × Toml.Value) → Table
  | [] => []
  | (k, v) :: rest => (k, ofToml origin v) :: tableOfToml origin rest

end

/-- A number of a JSON document: an integer of 64 bits, or a floating point number. -/
def datumOfNumber : Json.Number → Datum
  | .integer i =>
    if fitsSigned64 i then .integer i else .double (.finite (Binary64.ofNat false i.toNat))
  | .double x => .double (.finite x)

mutual

/-- A value of a JSON document. -/
def ofJson (origin : Origin) : Json.Value → Value
  | .null => .datum .nil origin
  | .bool b => .datum (.bool b) origin
  | .number n => .datum (datumOfNumber n) origin
  | .string s => .datum (.text s) origin
  | .array items => .list (listOfJson origin items) origin
  | .object members => .table (tableOfJson origin members) origin

/-- Items of a JSON array. -/
def listOfJson (origin : Origin) : List Json.Value → List Value
  | [] => []
  | v :: vs => ofJson origin v :: listOfJson origin vs

/-- Members of a JSON object. -/
def tableOfJson (origin : Origin) : List (String × Json.Value) → Table
  | [] => []
  | (k, v) :: rest => (k, ofJson origin v) :: tableOfJson origin rest

end

end Value

end TypedCall.Config
