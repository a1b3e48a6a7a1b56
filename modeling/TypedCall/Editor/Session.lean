import TypedCall.Editor.Text
import TypedCall.Request
import TypedCall.Response
/-!
# Editing sessions

A session belongs to one function. It holds the text being edited, the last result and the last
error, and the notices given so far. `Session.prepare` turns the text into a request; the answer
to a request comes back through `Session.accept` or `Session.reject`.
-/

namespace TypedCall

open Json (Value)

/-- A failure told to the user. -/
structure Notice where
  title : String
  description : String
deriving DecidableEq

namespace Editor

/-- The settings of an editor. -/
structure Options where
  /-- Are quotes straightened before the text is read? -/
  sanitizeQuotes : Bool := true
deriving DecidableEq

/-- Why a session has no request, or what became of one. -/
inductive SessionError where
  | invalidJson (fault : Json.SyntaxError)
  | encoding (reason : EncodeError)
  | missingExport (function : String)
  | rejected (description : String)
deriving DecidableEq

/-- The wording of a session error. -/
def SessionError.message : SessionError → String
  | invalidJson fault => "Invalid JSON data: " ++ fault.message
  | encoding reason => reason.message
  | missingExport function => "Function '" ++ function ++ "' is not attached to an export"
  | rejected description => description

/-- The state of a session. -/
structure Session where
  function : Callable
  options : Options
  buffer : String
  result : Option String
  error : Option SessionError
  notices : List Notice

namespace Session

/-- A new session starts from the skeleton of its function. -/
def new (function : Callable) (options : Options) : Session :=
  ⟨function, options, function.startText, none, none, []⟩

/-- Replace the text; result and error are of the old text and go. -/
def edit (s : Session) (text : String) : Session :=
  { s with buffer := tidy text, result := none, error := none }

/-- The request that a text makes of a function. -/
def build (function : Callable) (options : Options) (buffer : String) :
    Except SessionError Request :=
  match function.exportName with
  | none => .error (.missingExport function.name)
  | some exportName =>
    match Value.parse (if options.sanitizeQuotes then straighten buffer else buffer) with
    | .error fault => .error (.invalidJson fault)
    | .ok document =>
      match function.encodeDocument document with
      | .error reason => .error (.encoding reason)
      | .ok payload => .ok ⟨target exportName function.name, payload⟩

/-- Turn the text into a request. A failure becomes the error of the session and is noticed. -/
def prepare (s : Session) : Except SessionError Request × Session :=
  match build s.function s.options s.buffer with
  | .ok request => (.ok request, { s with error := none })
  | .error e =>
    (.error e, { s with
      error := some e
      notices := s.notices ++ [⟨"Invalid invocation arguments.", e.message⟩] })

/-- Record the answer to a request that succeeded. -/
def accept (s : Session) (body : Value) : Session :=
  { s with result := some (Response.resultText body), error := none }

/-- Record the answer to a request that failed, and notice it. -/
def reject (s : Session) (body : Value) : Session :=
  let description := Response.failureText body
  { s with
    result := none
    error := some (.rejected description)
    notices := s.notices ++ [⟨"API request failed.", description⟩] }

/-- What can happen in a session. -/
inductive Step where
  | edit (text : String)
  | prepare
  | accept (body : Value)
  | reject (body : Value)

/-- The state after one step. -/
def step (s : Session) : Step → Session
  | .edit text => s.edit text
  | .prepare => s.prepare.2
  | .accept body => s.accept body
  | .reject body => s.reject body

/-- The state after a run of steps. -/
def run (s : Session) (steps : List Step) : Session := steps.foldl step s

end Session

end Editor

end TypedCall
