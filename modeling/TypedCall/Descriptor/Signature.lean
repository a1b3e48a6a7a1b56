import TypedCall.Descriptor.Basic
/-!
# Signatures

How a listing shows a descriptor: a record by its fields in braces, a variant by its cases with
bars between them, everything else by its tag.
-/

namespace TypedCall

namespace Descriptor

mutual

/-- The characters of a descriptor in a listing. -/
def signatureChars : Descriptor → List Char
  | compound .record fields _ =>
    '\x7b' :: ([',', ' '].intercalate (signatureFields fields) ++ ['\x7d'])
  | compound .variant fields _ => [' ', '|', ' '].intercalate (signatureFields fields)
  | compound .tuple _ _ => Compound.tuple.tag.toList
  | scalar type _ => type.tag.toList
  | container type _ => type.tag.toList
  | unknown tag _ => tag.toList

/-- A name, a colon and a descriptor for each field. -/
def signatureFields : List (Named Descriptor) → List (List Char)
  | [] => []
  | ⟨name, typ⟩ :: rest =>
    (name.toList ++ ':' :: ' ' :: typ.signatureChars) :: signatureFields rest

end

/-- The text of a descriptor in a listing. -/
def signature (d : Descriptor) : String := String.ofList d.signatureChars

end Descriptor

/-- A parameter or a result in parentheses. -/
def Named.signature (field : Field) : String :=
  "(" ++ field.name ++ ": " ++ field.typ.signature ++ ")"

/-- The parameters or the results of a function, each in parentheses. -/
def signatures (fields : List Field) : List String := fields.map (·.signature)

end TypedCall
