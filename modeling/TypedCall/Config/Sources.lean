import TypedCall.Config.Key
import TypedCall.Files.Tree
import TypedCall.Json.Reader
import TypedCall.Text.Lowercase
import TypedCall.Toml.Reader
/-!
# Sources of settings

Settings come from a file and from environment variables. A file that is not there or cannot be
read says nothing, and so does a file in a format that is not known; a file that is no document
of its format is an error. The name of a file may lack its extension. TOML and JSON are the formats
that are known; files in INI, RON, JSON5 or YAML are left out.
-/

namespace TypedCall.Config

/-! ## The environment -/

/-- The start of the names of the variables that are read, in lowercase. -/
def variableLead : List Char := "invoker_".toList

/-- Put a point for every double underscore. -/
def pointed : List Char → List Char
  | '_' :: '_' :: rest => '.' :: pointed rest
  | c :: rest => c :: pointed rest
  | [] => []

/-- The key of a variable, when it is one that is read. Letter case does not matter. -/
def variableKey? (name : String) : Option String :=
  let cs := (Text.lowercase name).toList
  if variableLead.isPrefixOf cs then
    some (String.ofList (pointed (cs.drop variableLead.length)))
  else none

/-- What the text of a variable stands for: a boolean in any letter case, an integer, a floating
point number, or itself. -/
def variableDatum (text : String) : Datum :=
  let lower := Text.lowercase text
  if lower = "true" then .bool true
  else if lower = "false" then .bool false
  else match integer64? text.toList with
    | some i => .integer i
    | none => match Float64.ofChars? text.toList with
      | some x => .double x
      | none => .text text

/-- What the environment says. -/
def ofEnvironment (environment : List (String × String)) : Table :=
  environment.foldl (fun table (name, text) =>
    match variableKey? name with
    | some key => Table.set key (.datum (variableDatum text) (some "the environment")) table
    | none => table) []

/-! ## Files -/

/-- The formats of configuration files. Other formats than these two are left out: a file with
another extension says nothing here, and none is looked for under another extension. -/
inductive FileFormat where
  | toml
  | json
deriving DecidableEq

/-- The format of an extension. -/
def FileFormat.ofExtension? : Option String → Option FileFormat
  | some "toml" => some .toml
  | some "json" => some .json
  | _ => none

/-- The extensions that are tried for a name without one. The order is one of several, and it
shows only where two files differ in nothing but their extensions. -/
def FileFormat.all : List (FileFormat × String) := [(.toml, ".toml"), (.json, ".json")]

/-- The segments of a path, without those that stay where they are. -/
def segmentsOf (path : String) : List String :=
  (Text.split '/' path).filter fun s => s ≠ "" ∧ s ≠ "."

/-- The path of the same segments. -/
def normalized (path : String) : String :=
  (if path.toList.head? = some '/' then "/" else "") ++ "/".intercalate (segmentsOf path)

/-- The file of a name to which one of the extensions is added. -/
def withExtension? (tree : Files.Tree) (base : String) : Option (String × FileFormat) :=
  FileFormat.all.findSome? fun (format, extension) =>
    if tree.isFile (base ++ extension) then some (base ++ extension, format) else none

/-- The path of the file that a name stands for, with its format. -/
def findFile? (tree : Files.Tree) (name : String) : Option (String × FileFormat) :=
  if tree.isFile name then
    (FileFormat.ofExtension? (Files.extension? name)).map fun format => (name, format)
  else match (segmentsOf name).getLast? with
    | none | some ".." => none
    | some _ => withExtension? tree (normalized name)

/-- What a document says, or nothing when it is none of its format. -/
def FileFormat.parse? (format : FileFormat) (origin : Origin) (text : String) : Option Table :=
  match format with
  | .toml => (Toml.parse? text).map (Value.tableOfToml origin)
  | .json =>
    match Json.Value.parse text with
    | .ok (.object members) => some (Value.tableOfJson origin members)
    | .ok _ => some []
    | .error _ => none

/-- What the file of the given name says, or nothing when it is malformed. -/
def ofFile? (tree : Files.Tree) (name : String) : Option Table :=
  match findFile? tree name with
  | none => some []
  | some (path, format) =>
    match tree.read path with
    | .error _ => some []
    | .ok text => format.parse? (some (normalized path)) text

end TypedCall.Config
