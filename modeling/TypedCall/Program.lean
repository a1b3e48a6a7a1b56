import TypedCall.CommandLine.Command
import TypedCall.Editor.Session
/-!
# The program

`execute` carries out a command: what it has printed so far, and whether it has failed. `run` is
the whole program, from arguments and surroundings to an exit code and two texts.
-/

namespace TypedCall

/-- Why no component is chosen. -/
inductive ChoiceError where
  | notFound (component : String)
  | noneLoaded
  | severalLoaded (number : Nat)
deriving DecidableEq

/-- The wording of a choice that fails. -/
def ChoiceError.message : ChoiceError → String
  | notFound component => "Component not found: '" ++ component ++ "'"
  | noneLoaded => "No component metadata loaded"
  | severalLoaded number => toString number ++ " components loaded; pass --component"

/-- Why a command fails. -/
inductive CommandError where
  | settings (error : SettingsError)
  | load (error : LoadError)
  | choice (error : ChoiceError)
  | lookup (error : LookupError)
  | input (error : Files.FileError)
  | session (error : Editor.SessionError)
deriving DecidableEq

/-- The wording of a failure. Faults of YAML text and of configuration files have none. -/
def CommandError.message? : CommandError → Option String
  | settings e => e.message?
  | load e => e.message?
  | choice e => some e.message
  | lookup e => some e.message
  | input e => some e.message
  | session e => some e.message

/-- What a program sees of the world, its standard input included; an input that is not UTF-8 has
no text. -/
structure World extends Surroundings where
  input : Option String

/-- A computation that prints and can fail. -/
abbrev Printing := ExceptT CommandError (StateM String)

/-- Print a line. -/
def printLine (line : String) : Printing Unit := modify (· ++ line ++ "\n")

/-- Go on with a result, or fail. -/
def succeed {α ε : Type} (wrap : ε → CommandError) (result : Except ε α) : Printing α :=
  match result with
  | .ok a => return a
  | .error e => throw (wrap e)

namespace ComponentChoice

/-- The catalog to choose from: the directory of the settings, then the file. -/
def catalog (choice : ComponentChoice) (settings : Settings) (files : Files.Tree) :
    Except LoadError Catalog := do
  let catalog ← settings.catalog files
  match choice.metadata with
  | none => return catalog
  | some path =>
    match catalog.loadFile files path with
    | (.ok _, catalog) => return catalog
    | (.error e, _) => .error e

/-- The component of the id that is given, or the only one. -/
def choose (choice : ComponentChoice) (catalog : Catalog) : Except ChoiceError Component :=
  match choice.component with
  | some id =>
    match catalog.get? id with
    | some c => .ok c
    | none => .error (.notFound id)
  | none =>
    match catalog.components with
    | [only] => .ok only
    | [] => .error .noneLoaded
    | _ => .error (.severalLoaded catalog.size)

/-- The component that is meant. -/
def resolve (choice : ComponentChoice) (settings : Settings) (files : Files.Tree) :
    Except CommandError Component := do
  let catalog ← (choice.catalog settings files).mapError .load
  (choice.choose catalog).mapError .choice

end ComponentChoice

/-- The function that is meant. -/
def FunctionChoice.resolve (choice : FunctionChoice) (settings : Settings) (files : Files.Tree) :
    Except CommandError Callable := do
  let c ← choice.source.resolve settings files
  (c.find choice.exportName choice.function).mapError .lookup

/-- The text of a file, or of the standard input. -/
def World.readInput (world : World) (path : Option String) : Except Files.FileError String :=
  match path with
  | some path => world.files.read path
  | none =>
    match world.input with
    | some text => .ok text
    | none => .error .notText

/-- Does the command read the standard input? -/
def Command.readsInput : Command → Bool
  | .encode _ none | .format none => true
  | _ => false

/-- Carry out a command. -/
def execute (world : World) (settings : Settings) : Command → Printing Unit
  | .skeleton choice => do
    let f ← succeed id (choice.resolve settings world.files)
    printLine f.startText
  | .encode choice input => do
    let f ← succeed id (choice.resolve settings world.files)
    let text ← succeed .input (world.readInput input)
    let request ← succeed .session ((Editor.Session.new f settings.editor).edit text).prepare.1
    printLine request.written.pretty
  | .signature choice query => do
    let c ← succeed id (choice.resolve settings world.files)
    (match query with
      | some query => c.search query
      | none => c.functions).forM fun f => printLine f.signature
  | .format input => do
    let text ← succeed .input (world.readInput input)
    printLine (Editor.tidy text)

/-- Load the settings for a command line and carry out its command. -/
def CommandLine.perform (line : CommandLine) (world : World) : Printing Unit := do
  let settings ← succeed .settings (Settings.load world.toSurroundings line.overrides)
  execute world settings line.command

/-- What is left of a run: the exit code, the standard output, and the error that was shown. -/
structure Outcome where
  exitCode : Nat
  output : String
  error : Option String
deriving DecidableEq

/-- The name and version of the program. -/
def versionText : String := "invoker 0.1.0\n"

/-- The outcome of a command line that is not carried out. Help and the version are no failures;
the text of help is not part of the outcome. -/
def CommandLine.UsageError.outcome : CommandLine.UsageError → Outcome
  | .version => ⟨0, versionText, none⟩
  | .help => ⟨0, "", none⟩
  | _ => ⟨2, "", none⟩

/-- The outcome of a command that fails. The fault of a document without wording of its own is
named by what it is. -/
def CommandError.outcome (e : CommandError) (output : String) : Outcome :=
  ⟨1, output, some ("Error: " ++ e.message?.getD "malformed document" ++ "\n")⟩

/-- Run the program. -/
def run (world : World) (arguments : List String) : Outcome :=
  match CommandLine.parse world.environment arguments with
  | .error e => e.outcome
  | .ok line =>
    match (line.perform world).run.run "" with
    | (.ok _, output) => ⟨0, output, none⟩
    | (.error e, output) => e.outcome output

end TypedCall
