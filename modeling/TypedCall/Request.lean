import TypedCall.Payload
import TypedCall.Text.Percent
/-!
# Requests

A request names the function to call and carries its payload. The name is the export and, after a
point, the function in braces, both percent-encoded; braces are among the characters that percent
encoding escapes, so only the first part can hold a bare point before them.
-/

namespace TypedCall

open Json (Value)

/-- The name of a function in a request. -/
def targetChars (exportName function : List Char) : List Char :=
  Text.encodePercent exportName ++ '.' :: Text.encodePercent ('\x7b' :: function ++ ['\x7d'])

/-- The name of a function in a request. -/
def target (exportName function : String) : String :=
  String.ofList (targetChars exportName.toList function.toList)

/-- Everything that is sent to call a function. -/
structure Request where
  target : String
  payload : Payload

/-- A request with its descriptors written by `write`. -/
def Request.writtenBy (write : Descriptor → Value) (r : Request) : Value :=
  .object [("function", .string r.target), ("payload", r.payload.writtenBy write)]

/-- The request with its descriptors as they are. -/
def Request.written (r : Request) : Value := r.writtenBy Descriptor.written

/-- The request as a JSON value. -/
def Request.toJson (r : Request) : Value := r.writtenBy Descriptor.toJson

end TypedCall
