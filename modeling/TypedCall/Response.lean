import TypedCall.Json.Printer
/-!
# Responses

What is shown of the answer to a call: the value of the result when it succeeded, a description
of the failure when it did not.
-/

namespace TypedCall.Response

open Json (Value)

/-- The value at `result.value`, over several lines; `null` when there is none. -/
def resultText (body : Value) : String :=
  match (body.member? "result").bind (·.member? "value") with
  | some v => v.pretty
  | none => "null"

/-- A string as it is, anything else on one line. -/
def bareText : Value → String
  | .string s => s
  | v => v.compact

/-- A description of a failure: the string at `error`, else the list at `errors` joined with
commas, else the whole body. -/
def failureText (body : Value) : String :=
  match body.member? "error" with
  | some (.string s) => s
  | _ =>
    match body.member? "errors" with
    | some (.array errors) => ", ".intercalate (errors.map bareText)
    | _ => bareText body

end TypedCall.Response
