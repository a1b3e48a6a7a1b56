import TypedCall.Config.Sources
import TypedCall.Editor.Session
/-!
# Settings

The settings of the program: how much it logs, where component files are, and how the editor
treats quotes. Each is taken from the configuration, where a text may be written as a number or a
boolean and a boolean as a number or a word, and has a default. Settings are checked after the
command line has had its say.
-/

namespace TypedCall

open Json (Value)

/-- The settings of the program. -/
structure Settings where
  logLevel : String := "info"
  metadataDir : Option String := none
  editor : Editor.Options := {}
deriving DecidableEq

instance : Inhabited Settings := ⟨{}⟩

/-- What can be wrong with a setting. -/
inductive SettingProblem where
  | unknownLogLevel (level : String)
  | blankMetadataDir
deriving DecidableEq

/-- The levels of logging. -/
def logLevels : List String := ["trace", "debug", "info", "warn", "error"]

/-- The wording of a problem. -/
def SettingProblem.message : SettingProblem → String
  | unknownLogLevel level =>
    "Invalid value for log_level: '" ++ level ++ "' is not one of " ++
      ", ".intercalate logLevels
  | blankMetadataDir => "Missing required field: metadata_dir"

/-- Why there are no settings. -/
inductive SettingsError where
  /-- The configuration file is malformed. -/
  | malformedFile
  /-- A value cannot be converted to the type of its key. -/
  | wrongType (found : Found) (expected key : String) (origin : Config.Origin)
  /-- A value has no place for what stands in it. -/
  | undecodable (reason : Mismatch)
  /-- The settings are not valid. -/
  | invalid (problems : List SettingProblem)
deriving DecidableEq

/-- The wording of an error; a malformed file has none. -/
def SettingsError.message? : SettingsError → Option String
  | malformedFile => none
  | wrongType found expected key origin =>
    some ("invalid type: " ++ found.message .settings ++ ", expected " ++ expected ++
      " for key `" ++ key ++ "`" ++
      (match origin with
        | some origin => " in " ++ origin
        | none => ""))
  | undecodable reason => some (reason.message .settings)
  | invalid problems =>
    some ("Configuration validation failed:\n" ++ "\n".intercalate (problems.map (·.message)))

namespace Settings

/-! ## Validity -/

/-- Is this the name of a level, letter case left out of account? -/
def isLogLevel (level : String) : Bool := logLevels.contains (Text.lowercase level)

/-- Everything that is wrong with the settings. -/
def problems (s : Settings) : List SettingProblem :=
  (if isLogLevel s.logLevel then [] else [.unknownLogLevel s.logLevel]) ++
    (match s.metadataDir with
      | some dir => if Text.isBlank dir then [.blankMetadataDir] else []
      | none => [])

/-- The settings themselves when nothing is wrong with them. -/
def validated (s : Settings) : Except SettingsError Settings :=
  if s.problems.isEmpty then .ok s else .error (.invalid s.problems)

/-! ## Reading configuration values -/

/-- Read a text; numbers and booleans are written out. -/
def readText (key : String) (v : Config.Value) : Except SettingsError String :=
  match v with
  | .datum (.text s) _ => .ok s
  | .datum (.bool b) _ => .ok (if b then "true" else "false")
  | .datum (.integer i) _ => .ok (toString i)
  | .datum (.double x) _ => .ok (NumberLayout.plain.dataText x)
  | v => .error (.wrongType v.found "a string" key v.origin)

/-- The boolean that a lowercase word stands for. -/
def boolOfWord? (word : String) : Option Bool :=
  if ["1", "true", "on", "yes"].contains word then some true
  else if ["0", "false", "off", "no"].contains word then some false
  else none

/-- Read a boolean; a number is one that is not zero, a text one of eight words. -/
def readBool (key : String) (v : Config.Value) : Except SettingsError Bool :=
  match v with
  | .datum (.bool b) _ => .ok b
  | .datum (.integer i) _ => .ok (i ≠ 0)
  | .datum (.double x) _ => .ok x.isNonzero
  | .datum (.text s) origin =>
    match boolOfWord? (Text.lowercase s) with
    | some b => .ok b
    | none => .error (.wrongType (.string (Text.lowercase s)) "a boolean" key origin)
  | v => .error (.wrongType v.found "a boolean" key v.origin)

/-- Read the settings of the editor: a table, or a list that begins with its one value. -/
def readEditor (v : Config.Value) : Except SettingsError Editor.Options :=
  match v with
  | .table entries _ =>
    match Config.Table.find? "sanitize_quotes" entries with
    | some v => do return ⟨← readBool "editor.sanitize_quotes" v⟩
    | none => .ok {}
  | .list (v :: _) _ => do return ⟨← readBool "editor[0]" v⟩
  | .list [] _ => .ok {}
  | v => .error (.undecodable (.wrongType v.found "struct EditorSettings"))

/-- Read a value that may be missing or nil. -/
def readOptional {α : Type} (read : Config.Value → Except SettingsError α) :
    Option Config.Value → Except SettingsError (Option α)
  | none => .ok none
  | some (.datum .nil _) => .ok none
  | some v => do return some (← read v)

/-- The settings with what an entry says; one of another name says nothing. -/
def readEntry (s : Settings) (entry : String × Config.Value) : Except SettingsError Settings :=
  match entry.1 with
  | "log_level" => do return { s with logLevel := ← readText "log_level" entry.2 }
  | "metadata_dir" => do
    return { s with metadataDir := ← readOptional (readText "metadata_dir") (some entry.2) }
  | "editor" => do return { s with editor := ← readEditor entry.2 }
  | _ => .ok s

/-- The settings that a table gives. Of the entries that cannot be read the first one is reported,
so which it is depends on the order of the table. -/
def ofTable (table : Config.Table) : Except SettingsError Settings := table.foldlM readEntry {}

/-! ## Written form -/

/-- The settings as a JSON value; the directory is written only when it is known. -/
def toJson (s : Settings) : Value :=
  .object ([("log_level", .string s.logLevel)] ++
    (match s.metadataDir with
      | some dir => [("metadata_dir", .string dir)]
      | none => []) ++
    [("editor", .object [("sanitize_quotes", .bool s.editor.sanitizeQuotes)])])

end Settings

end TypedCall
