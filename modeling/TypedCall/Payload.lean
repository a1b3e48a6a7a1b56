import TypedCall.Component.Source
/-!
# Payloads

A payload is what is sent to call a function: for each parameter, in order, its argument together
with the whole descriptor of the parameter. Only the tag of a parameter decides whether and how
its argument is encoded; what stands inside a record, a tuple or a list is sent as it is given.
-/

namespace TypedCall

open Json (Value Members)

/-- An argument together with the descriptor of its parameter. -/
structure Argument where
  value : Value
  typ : Descriptor

/-- The arguments of a call, in the order of the parameters. -/
structure Payload where
  arguments : List Argument := []

/-- Why arguments cannot be encoded. -/
inductive EncodeError where
  | unsupportedType (tag : String)
  | missingArgument (index : Nat) (name : String)
  | notAnArgumentList (expected : Nat)
deriving DecidableEq

/-- The wording of an encoding error. -/
def EncodeError.message : EncodeError → String
  | unsupportedType tag => "Unsupported type: " ++ tag
  | missingArgument index name =>
    "Missing argument " ++ toString index ++ " ('" ++ name ++ "')"
  | notAnArgumentList expected =>
    "Expected a JSON array of " ++ toString expected ++ " arguments"

/-- How the argument of a parameter is encoded. -/
inductive Encoding where
  /-- As it is given. -/
  | verbatim
  /-- As a list; a value that is none becomes a list of one item. -/
  | wrapped
  /-- Not at all. -/
  | unsupported
deriving DecidableEq

/-- The encoding of a scalar argument. -/
def Scalar.encoding : Scalar → Encoding
  | str | u32 | f32 | i32 => .verbatim
  | chr | bool | f64 | u64 | s64 | s32 | u16 | s16 | u8 | s8 => .unsupported

/-- The encoding that a tag asks for. -/
def Tag.encoding : Tag → Encoding
  | scalar s => s.encoding
  | container .list => .wrapped
  | container .option | container .enum => .unsupported
  | compound .record | compound .tuple => .verbatim
  | compound .variant => .unsupported
  | unknown _ => .unsupported

/-- The value as a list. -/
def Json.Value.wrapped : Value → Value
  | .array items => .array items
  | v => .array [v]

/-- Encode one argument. -/
def Descriptor.encode (d : Descriptor) (v : Value) : Except EncodeError Value :=
  match d.kind.encoding with
  | .verbatim => .ok v
  | .wrapped => .ok v.wrapped
  | .unsupported => .error (.unsupportedType d.tag)

/-- Encode the arguments of the parameters that stand from `index` on. Values that are left over
are ignored. -/
def encodeArguments (index : Nat) : List Field → List Value → Except EncodeError (List Argument)
  | [], _ => .ok []
  | p :: _, [] => .error (.missingArgument index p.name)
  | p :: ps, v :: vs => do
    let value ← p.typ.encode v
    let rest ← encodeArguments (index + 1) ps vs
    return ⟨value, p.typ⟩ :: rest

/-- Encode positional arguments. -/
def Callable.encode (f : Callable) (values : List Value) : Except EncodeError Payload := do
  return ⟨← encodeArguments 0 f.parameters values⟩

/-- Encode a document: an array holds the arguments by position, any other document is the only
argument of a function of one parameter. -/
def Callable.encodeDocument (f : Callable) (document : Value) : Except EncodeError Payload :=
  match document with
  | .array values => f.encode values
  | v =>
    if f.parameters.length = 1 then f.encode [v]
    else .error (.notAnArgumentList f.parameters.length)

/-! ## Written form -/

/-- An argument with its descriptor written by `write`. -/
def Argument.writtenBy (write : Descriptor → Value) (a : Argument) : Value :=
  .object [("value", a.value), ("typ", write a.typ)]

/-- A payload with its descriptors written by `write`. -/
def Payload.writtenBy (write : Descriptor → Value) (p : Payload) : Value :=
  .object [("params", .array (p.arguments.map (·.writtenBy write)))]

/-- The payload with its descriptors as they are. -/
def Payload.written (p : Payload) : Value := p.writtenBy Descriptor.written

/-- The payload as a JSON value. -/
def Payload.toJson (p : Payload) : Value := p.writtenBy Descriptor.toJson

/-! ## Reading -/

namespace Payload

open Source

/-- What has been read of an argument. -/
structure ArgumentDraft where
  value : Option Value := none
  typ : Option Descriptor := none

/-- Read one member of an argument. -/
def ArgumentDraft.add (d : ArgumentDraft) (key : String) (v : Value) :
    Except Mismatch ArgumentDraft := do
  match key with
  | "value" => return { d with value := ← fill d.value key (.ok v) }
  | "typ" => return { d with typ := ← fill d.typ key (Descriptor.ofJson v) }
  | _ => return d

/-- Read an argument. -/
def argumentOfJson (v : Value) : Except Mismatch Argument := do
  match ← v.record "struct TypedValue" with
  | .named entries =>
    let d ← entries.foldlM (fun d (key, v) => do ArgumentDraft.add d (← key) v) {}
    return ⟨← required d.value "value", ← required d.typ "typ"⟩
  | .positional items =>
    let (value, rest) ← next items .ok
      (.error (.wrongLength 0 "struct TypedValue with 2 elements"))
    let (typ, rest) ← next rest Descriptor.ofJson
      (.error (.wrongLength 1 "struct TypedValue with 2 elements"))
    finish items.length rest ⟨value, typ⟩

/-- Read a payload. -/
def ofJson (v : Value) : Except Mismatch Payload := do
  match ← v.record "struct EncodedPayload" with
  | .named entries =>
    let params ← entries.foldlM (fun d (key, v) => do
      if (← key) = "params" then fill d "params" (listOf argumentOfJson v) else return d) none
    return ⟨← required params "params"⟩
  | .positional items =>
    let (params, rest) ← next items (listOf argumentOfJson)
      (.error (.wrongLength 0 "struct EncodedPayload with 1 element"))
    finish items.length rest ⟨params⟩

end Payload

end TypedCall
