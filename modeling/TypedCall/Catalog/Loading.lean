import TypedCall.Catalog.Basic
import TypedCall.Files.Expansion
import TypedCall.Json.Reader
import TypedCall.Yaml.Reader
import TypedCall.Yaml.Source
/-!
# Loading components

A document holds one component or a list of components. It is loaded as a whole or not at all:
when any of it cannot be read the catalog stays as it is. A directory is loaded file by file, and
a file that cannot be loaded is skipped.
-/

namespace TypedCall

/-- Why components cannot be loaded. -/
inductive LoadError where
  | json (fault : Json.SyntaxError)
  | yaml (fault : Yaml.ReadError)
  | mismatch (format : Format) (reason : Mismatch)
  | file (error : Files.FileError)
  | pattern (error : Files.PatternError)
deriving DecidableEq

/-- The wording of an error; faults of YAML text have none. -/
def LoadError.message? : LoadError → Option String
  | json fault => some fault.message
  | yaml fault => fault.message?
  | mismatch format reason => some (reason.message format)
  | file error => some error.message
  | pattern error => some error.message

/-- The components that a JSON document holds. -/
def Component.listOfJson : Json.Value → Except Mismatch (List Component)
  | .array items => items.mapM Source.component
  | v => do return [← Source.component v]

/-- The components that a YAML document holds. -/
def Component.listOfYaml : Yaml.Value → Except Mismatch (List Component)
  | .sequence items => items.mapM Source.component
  | v => do return [← Source.component v]

/-- The components that a text in JSON holds. -/
def Component.parseJson (text : String) : Except LoadError (List Component) := do
  let v ← (Json.Value.parse text).mapError .json
  (Component.listOfJson v).mapError (.mismatch .json)

/-- The components that a text in YAML holds. -/
def Component.parseYaml (text : String) : Except LoadError (List Component) := do
  let v ← (Yaml.Value.parse text).mapError .yaml
  (Component.listOfYaml v).mapError (.mismatch .yaml)

/-- The components that a file holds: YAML when its extension says so, JSON otherwise. -/
def Component.parseFile (tree : Files.Tree) (path : String) :
    Except LoadError (List Component) := do
  let text ← (tree.read path).mapError .file
  match Files.extension? path with
  | some "yaml" | some "yml" => Component.parseYaml text
  | _ => Component.parseJson text

namespace Catalog

/-- Insert the components that were read, and count them. A failure changes nothing. -/
def absorb (catalog : Catalog) :
    Except LoadError (List Component) → Except LoadError Nat × Catalog
  | .ok cs => (.ok cs.length, catalog.insertAll cs)
  | .error e => (.error e, catalog)

/-- Load a document in JSON. -/
def loadJson (catalog : Catalog) (text : String) : Except LoadError Nat × Catalog :=
  catalog.absorb (Component.parseJson text)

/-- Load a document in YAML. -/
def loadYaml (catalog : Catalog) (text : String) : Except LoadError Nat × Catalog :=
  catalog.absorb (Component.parseYaml text)

/-- Load a file. -/
def loadFile (tree : Files.Tree) (catalog : Catalog) (path : String) :
    Except LoadError Nat × Catalog :=
  catalog.absorb (Component.parseFile tree path)

/-- Is the file one that a directory is loaded from? -/
def isLoadable (path : String) : Bool :=
  match Files.extension? path with
  | some "json" | some "yaml" | some "yml" => true
  | _ => false

/-- Load a file if that can be done, and add to the count what it holds. -/
def loadOrSkip (tree : Files.Tree) (loaded : Nat × Catalog) (path : String) : Nat × Catalog :=
  match loadFile tree loaded.2 path with
  | (.ok n, catalog) => (loaded.1 + n, catalog)
  | (.error _, catalog) => (loaded.1, catalog)

/-- Load the files of a directory, or of every directory whose path matches. -/
def loadDirectory (tree : Files.Tree) (catalog : Catalog) (directory : String) :
    Except LoadError Nat × Catalog :=
  match Files.Pattern.ofChars (directory.toList ++ ['/', '*']) with
  | .error e => (.error (.pattern e), catalog)
  | .ok pattern =>
    let (n, catalog) :=
      ((tree.expand pattern).filter isLoadable).foldl (loadOrSkip tree) (0, catalog)
    (.ok n, catalog)

end Catalog

end TypedCall
