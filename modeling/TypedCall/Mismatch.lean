import TypedCall.Decimal.Layout
import TypedCall.Text.Quoted
/-!
# Mismatches between a document and the type it should have

A document can be well formed and still not be a descriptor, a function or a component. A
`Mismatch` says why. The same mismatch is worded a little differently for the document formats:
they have different words for the absent value and different number texts.
-/

namespace TypedCall

/-- What stands in the document where something else was expected. -/
inductive Found where
  | absent
  | bool (b : Bool)
  | integer (i : Int)
  | double (x : Float64)
  | string (s : String)
  | sequence
  | map
  | tagged
deriving DecidableEq

/-- Why a document does not have the expected type. -/
inductive Mismatch where
  | wrongType (found : Found) (expected : String)
  | wrongValue (found : Found) (expected : String)
  | wrongLength (found : Nat) (expected : String)
  | missingMember (key : String)
  | repeatedMember (key : String)
  | taggedContent
  | misplacedFields (tag : String)
  | misplacedCases (tag : String)
  | badFields (tag : String) (reason : Mismatch)
deriving DecidableEq

/-- Where a mismatch can be reported: in a document of one of two formats, or in settings. -/
inductive Format where
  | json
  | yaml
  | settings
deriving DecidableEq

/-- The wording of what was found. -/
def Found.message (format : Format) : Found → String
  | .absent => match format with
    | .json => "null"
    | .yaml | .settings => "unit value"
  | .bool b => "boolean `" ++ (if b then "true" else "false") ++ "`"
  | .integer i => "integer `" ++ toString i ++ "`"
  | .double x =>
    let layout := match format with
      | .json => NumberLayout.json
      | .yaml | .settings => NumberLayout.pointed
    "floating point `" ++ layout.dataText x ++ "`"
  | .string s => "string " ++ Text.quoted s
  | .sequence => "sequence"
  | .map => "map"
  | .tagged => "enum"

/-- The wording of a mismatch. The reason why a list of fields is bad is always worded for JSON,
because the fields of a descriptor are kept as JSON. -/
def Mismatch.message (format : Format) : Mismatch → String
  | wrongType found expected =>
    "invalid type: " ++ found.message format ++ ", expected " ++ expected
  | wrongValue found expected =>
    "invalid value: " ++ found.message format ++ ", expected " ++ expected
  | wrongLength found expected =>
    "invalid length " ++ toString found ++ ", expected " ++ expected
  | missingMember key => "missing field `" ++ key ++ "`"
  | repeatedMember key => "duplicate field `" ++ key ++ "`"
  | taggedContent => "untagged and internally tagged enums do not support enum input"
  | misplacedFields tag => "'fields' is not allowed on a " ++ tag ++ " descriptor"
  | misplacedCases tag => "'cases' is not allowed on a " ++ tag ++ " descriptor"
  | badFields tag reason =>
    "invalid 'fields' on a " ++ tag ++ " descriptor: " ++ reason.message .json

end TypedCall
