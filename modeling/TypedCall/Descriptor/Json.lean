import TypedCall.Descriptor.Basic
import TypedCall.Mismatch
/-!
# The written form of descriptors

A descriptor is written as an object: its tag, the members that the tag owns, then the members
kept as written. `Descriptor.entries` lists them in that order. When a kept member has the key of
an owned one the list repeats a key; `Descriptor.written` is the object with the list as it is,
and `Descriptor.toJson` the object that the list stands for, in which the kept member has taken
the value of the owned one.

`Descriptor.ofJson` reads a descriptor. Members that contradict the tag are refused, except that
the cases of a variant which are not all pairs of a name and a descriptor are kept as written.
-/

namespace TypedCall

/-- The kind of a JSON value, as reported in a mismatch. -/
def Json.Value.found : Json.Value → Found
  | .null => .absent
  | .bool b => .bool b
  | .number (.integer i) => .integer i
  | .number (.double x) => .double (.finite x)
  | .string s => .string s
  | .array _ => .sequence
  | .object _ => .map

open Json (Value Members)

namespace Descriptor

/-- The members that a compound tag owns. A variant without cases leaves the place to cases kept
as written. -/
def ownMembers (type : Compound) (fields : List Value) (extra : Members) : Members :=
  match type with
  | .record | .tuple => [("fields", .array fields)]
  | .variant =>
    if fields.isEmpty && (extra.find? "cases").isSome then [] else [("cases", .array fields)]

mutual

/-- The members of the written form, in order. -/
def entries : Descriptor → Members
  | scalar type extra => ("type", .string type.tag) :: extra
  | container type extra => ("type", .string type.tag) :: extra
  | compound type fields extra =>
    ("type", .string type.tag) :: (ownMembers type (fieldsToJson fields) extra ++ extra)
  | unknown tag extra => ("type", .string tag) :: extra

/-- Named descriptors as objects with a name and a type. -/
def fieldsToJson : List (Named Descriptor) → List Value
  | [] => []
  | ⟨name, typ⟩ :: rest =>
    .object [("name", .string name), ("typ", .object (Members.insertAll [] typ.entries))] ::
      fieldsToJson rest

end

/-- The object that the written members stand for. -/
def toJson (d : Descriptor) : Value := .object (Members.insertAll [] d.entries)

/-- The object with the members as they are written, which may repeat a key. -/
def written (d : Descriptor) : Value := .object d.entries

end Descriptor

/-! ## Reading -/

/-- Read a text. -/
def Json.Value.text : Value → Except Mismatch String
  | .string s => .ok s
  | v => .error (.wrongType v.found "a string")

/-- A member `fields` or `cases` that is present: its value, and what it is as a list of named
descriptors. -/
abbrev FieldMember := Value × Except Mismatch (List Field)

/-- The members of a descriptor, sorted by what a tag may do with them. -/
structure Descriptor.Parts where
  tag : String
  fields : Option FieldMember
  cases : Option FieldMember
  extra : Members

/-- Put a member back among those kept as written. -/
def Json.Members.restore (extra : Members) (key : String) : Option FieldMember → Members
  | some (v, _) => extra.insert key v
  | none => extra

/-- The descriptor with the given members, unless they contradict its tag. -/
def Descriptor.ofParts (parts : Descriptor.Parts) : Except Mismatch Descriptor :=
  match Tag.ofString parts.tag with
  | .scalar type =>
    if parts.fields.isSome then .error (.misplacedFields parts.tag)
    else if parts.cases.isSome then .error (.misplacedCases parts.tag)
    else .ok (.scalar type parts.extra)
  | .container type =>
    if parts.fields.isSome then .error (.misplacedFields parts.tag)
    else .ok (.container type (parts.extra.restore "cases" parts.cases))
  | .compound .variant =>
    if parts.fields.isSome then .error (.misplacedFields parts.tag)
    else match parts.cases with
      | some (_, .ok cases) => .ok (.compound .variant cases parts.extra)
      | some (v, .error _) => .ok (.compound .variant [] (parts.extra.insert "cases" v))
      | none => .ok (.compound .variant [] parts.extra)
  | .compound type =>
    if parts.cases.isSome then .error (.misplacedCases parts.tag)
    else match parts.fields with
      | some (_, .ok fields) => .ok (.compound type fields parts.extra)
      | some (_, .error reason) => .error (.badFields parts.tag reason)
      | none => .ok (.compound type [] parts.extra)
  | .unknown tag =>
    .ok (.unknown tag ((parts.extra.restore "fields" parts.fields).restore "cases" parts.cases))

/-- The keys that a descriptor reads itself. -/
def Descriptor.ownKeys : List String := ["type", "fields", "cases"]

/-- The descriptor of an object whose members `fields` and `cases` are as given. -/
def Descriptor.ofMembers (members : Members) (fields cases : Option FieldMember) :
    Except Mismatch Descriptor :=
  match members.find? "type" with
  | none => .error (.missingMember "type")
  | some v => do
    let tag ← v.text
    Descriptor.ofParts ⟨tag, fields, cases, members.without Descriptor.ownKeys⟩

mutual

/-- The descriptor that a value writes. -/
def Descriptor.ofJson : Value → Except Mismatch Descriptor
  | .object members =>
    Descriptor.ofMembers members (fieldMember "fields" members) (fieldMember "cases" members)
  | v => .error (.wrongType v.found "struct RawDescriptor")

/-- The member with the given key, unless it is absent or null. -/
def fieldMember (key : String) : List (String × Value) → Option FieldMember
  | [] => none
  | (k, v) :: rest =>
    if k = key then
      match v with
      | .null => none
      | v => some (v, fieldsOfJson v)
    else fieldMember key rest

/-- The named descriptors that an array writes. -/
def fieldsOfJson : Value → Except Mismatch (List Field)
  | .array items => fieldItems items
  | v => .error (.wrongType v.found "a sequence")

/-- One named descriptor for each item. -/
def fieldItems : List Value → Except Mismatch (List Field)
  | [] => .ok []
  | v :: vs => do
    let field ← fieldOfJson v
    return field :: (← fieldItems vs)

/-- The named descriptor that a value writes: an object, or an array of its two members. -/
def fieldOfJson : Value → Except Mismatch Field
  | .object members => fieldOfMembers none none members
  | .array items => fieldOfItems items
  | v => .error (.wrongType v.found "struct Field")

/-- Read the members in order; those not asked for are passed over. -/
def fieldOfMembers (name : Option String) (typ : Option Descriptor) :
    List (String × Value) → Except Mismatch Field
  | [] => match name, typ with
    | none, _ => .error (.missingMember "name")
    | some _, none => .error (.missingMember "typ")
    | some name, some typ => .ok ⟨name, typ⟩
  | (k, v) :: rest =>
    if k = "name" then do
      let s ← v.text
      fieldOfMembers (some s) typ rest
    else if k = "typ" then do
      let d ← Descriptor.ofJson v
      fieldOfMembers name (some d) rest
    else fieldOfMembers name typ rest

/-- Read a name and a descriptor. -/
def fieldOfItems : List Value → Except Mismatch Field
  | [] => .error (.wrongLength 0 "struct Field with 2 elements")
  | name :: rest => do
    let name ← name.text
    let typ ← typeOfItems rest
    if rest.length = 1 then return ⟨name, typ⟩
    else .error (.wrongLength (rest.length + 1) "fewer elements in array")

/-- Read the descriptor after a name. -/
def typeOfItems : List Value → Except Mismatch Descriptor
  | [] => .error (.wrongLength 1 "struct Field with 2 elements")
  | typ :: _ => Descriptor.ofJson typ

end

end TypedCall
