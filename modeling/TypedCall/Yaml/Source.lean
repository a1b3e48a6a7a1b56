import TypedCall.Component.Source
import TypedCall.Yaml.Value
/-!
# YAML as a source of components

Tags are passed over where a text, a number, a list or a record is read, and null stands for an
empty list or record. A record is always a mapping. Members of a descriptor that are kept as
written are kept as JSON, so they must be what JSON can write: no tag may stand in them and their
keys must be texts; infinities and NaN become null.
-/

namespace TypedCall.Yaml

namespace Value

/-- The kind of a value, as reported in a mismatch. -/
def found : Value → Found
  | null => .absent
  | bool b => .bool b
  | integer i => .integer i
  | double x => .double x
  | string s => .string s
  | sequence _ => .sequence
  | mapping _ => .map
  | tagged _ _ => .tagged

/-- Read a text where `expected` is due. -/
def textAs (expected : String) (v : Value) : Except Mismatch String :=
  match v.untagged with
  | string s => .ok s
  | v => .error (.wrongType v.found expected)

/-- Read a text. -/
def text (v : Value) : Except Mismatch String := v.textAs "a string"

/-- Read a natural number. -/
def natural (v : Value) : Except Mismatch Nat :=
  match v.untagged with
  | integer (.ofNat n) => .ok n
  | integer i => .error (.wrongValue (.integer i) "u64")
  | v => .error (.wrongType v.found "u64")

/-- Read a list. -/
def items (v : Value) : Except Mismatch (List Value) :=
  match v.untagged with
  | sequence items => .ok items
  | null => .ok []
  | v => .error (.wrongType v.found "a sequence")

/-- The entries of a record, called by its name in mismatches. -/
def entries (expected : String) (v : Value) : Except Mismatch (List (Value × Value)) :=
  match v.untagged with
  | mapping entries => .ok entries
  | null => .ok []
  | v => .error (.wrongType v.found expected)

/-- Read the key of a record. -/
def memberKey (v : Value) : Except Mismatch String := v.textAs "field identifier"

/-- Read a record. -/
def record (expected : String) (v : Value) : Except Mismatch (Record Value) := do
  return .named ((← v.entries expected).map fun (k, v) => (k.memberKey, v))

/-! ## Values kept as JSON -/

mutual

/-- The value as JSON. -/
def toJson : Value → Except Mismatch Json.Value
  | null => .ok .null
  | bool b => .ok (.bool b)
  | integer i => .ok (.number (.integer i))
  | double (.finite x) => .ok (.number (.double x))
  | double _ => .ok .null
  | string s => .ok (.string s)
  | sequence items => do return .array (← itemsToJson items)
  | mapping entries => do return .object (← entriesToJson "a string key" [] entries)
  | tagged _ _ => .error (.wrongType .tagged "any valid JSON value")

/-- Items as JSON. -/
def itemsToJson : List Value → Except Mismatch (List Json.Value)
  | [] => .ok []
  | v :: vs => do
    let w ← v.toJson
    return w :: (← itemsToJson vs)

/-- Entries as members, inserted after those of `before`; `expected` is due as the next key. -/
def entriesToJson (expected : String) (before : Json.Members) :
    List (Value × Value) → Except Mismatch Json.Members
  | [] => .ok before
  | (k, v) :: rest => do
    let key ← k.textAs expected
    let w ← v.toJson
    entriesToJson "a string" (before.insert key w) rest

end

/-! ## Descriptors -/

/-- What has been read of a descriptor. -/
structure DescriptorDraft where
  tag : Option String := none
  fields : Option (Option Json.Value) := none
  cases : Option (Option Json.Value) := none
  /-- The other members, in order. -/
  others : List (String × Value) := []

/-- Read a value that may be missing. -/
def optionalJson : Value → Except Mismatch (Option Json.Value)
  | null => .ok none
  | v => do return some (← v.toJson)

/-- Read one member of a descriptor. -/
def DescriptorDraft.add (d : DescriptorDraft) (key : String) (v : Value) :
    Except Mismatch DescriptorDraft := do
  match key with
  | "type" => return { d with tag := ← Source.fill d.tag key v.text }
  | "fields" => return { d with fields := ← Source.fill d.fields key (optionalJson v) }
  | "cases" => return { d with cases := ← Source.fill d.cases key (optionalJson v) }
  | _ =>
    if v.hasTag then .error .taggedContent
    else return { d with others := d.others ++ [(key, v)] }

/-- The members kept as written. -/
def membersToJson (before : Json.Members) : List (String × Value) → Except Mismatch Json.Members
  | [] => .ok before
  | (key, v) :: rest => do
    let w ← v.toJson
    membersToJson (before.insert key w) rest

/-- Read a descriptor. -/
def descriptor (v : Value) : Except Mismatch Descriptor := do
  let d ← (← v.entries "struct RawDescriptor").foldlM
    (fun d (k, v) => do DescriptorDraft.add d (← k.memberKey) v) {}
  let tag ← Source.required d.tag "type"
  let extra ← membersToJson [] d.others
  let member (v : Option (Option Json.Value)) : Option FieldMember :=
    (v.getD none).map fun v => (v, fieldsOfJson v)
  Descriptor.ofParts ⟨tag, member d.fields, member d.cases, extra⟩

/-- What has been read of a field. -/
structure FieldDraft where
  name : Option String := none
  typ : Option Descriptor := none

/-- Read one member of a field. -/
def FieldDraft.add (d : FieldDraft) (key : String) (v : Value) : Except Mismatch FieldDraft := do
  match key with
  | "name" => return { d with name := ← Source.fill d.name key v.text }
  | "typ" => return { d with typ := ← Source.fill d.typ key v.descriptor }
  | _ => return d

/-- Read a name and a descriptor. -/
def field (v : Value) : Except Mismatch Field := do
  let d ← (← v.entries "struct Field").foldlM
    (fun d (k, v) => do FieldDraft.add d (← k.memberKey) v) {}
  return ⟨← Source.required d.name "name", ← Source.required d.typ "typ"⟩

/-- YAML writes nothing as null. A tagged null is present. -/
instance : Source Value where
  text := text
  natural := natural
  present? := fun v => match v with
    | null => none
    | v => some v
  items := items
  record := record
  field := field

end Value

end TypedCall.Yaml
