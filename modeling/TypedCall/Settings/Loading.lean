import TypedCall.Catalog.Loading
import TypedCall.Settings.Basic
/-!
# Loading settings

A later source has precedence over an earlier one, key by key: the configuration file, the
environment, the command line. Every load goes through the entries of its sources in an order of its
own (`Config.Order`); where none is given it is the order in which they are listed.
-/

namespace TypedCall

/-- What a program sees of the world around it: its files and its environment variables. -/
structure Surroundings where
  files : Files.Tree
  environment : List (String × String)

/-- What the command line says about settings. -/
structure Overrides where
  /-- The name of the configuration file. -/
  config : String
  metadataDir : Option String
  logLevel : Option String

namespace Settings

/-- The settings that a configuration file and the environment give, not yet checked. -/
def read (world : Surroundings) (config : String) (order : Config.Order := .listed) :
    Except SettingsError Settings :=
  match Config.ofFile? world.files config with
  | none => .error .malformedFile
  | some file => ofTable (order.merge file (Config.ofEnvironment world.environment))

/-- The settings with what the command line says in their place. -/
def override (s : Settings) (overrides : Overrides) : Settings :=
  { s with
    metadataDir := overrides.metadataDir.or s.metadataDir
    logLevel := overrides.logLevel.getD s.logLevel }

/-- The settings for a command line. -/
def load (world : Surroundings) (overrides : Overrides) (order : Config.Order := .listed) :
    Except SettingsError Settings := do
  ((← read world overrides.config order).override overrides).validated

/-- The settings of the configuration file `invoker` in a directory. -/
def ofRoot (world : Surroundings) (root : String) (order : Config.Order := .listed) :
    Except SettingsError Settings := do
  let config := if root = "" then "invoker"
    else if root.toList.getLast? = some '/' then root ++ "invoker"
    else root ++ "/invoker"
  (← read world config order).validated

/-- The settings of the working directory. -/
def ofWorkingDirectory (world : Surroundings) (order : Config.Order := .listed) :
    Except SettingsError Settings := ofRoot world "." order

/-- The catalog of the directory that the settings name. -/
def catalog (s : Settings) (files : Files.Tree) : Except LoadError Catalog :=
  match s.metadataDir with
  | none => .ok .empty
  | some dir =>
    match Catalog.empty.loadDirectory files dir with
    | (.ok _, catalog) => .ok catalog
    | (.error e, _) => .error e

end Settings

end TypedCall
