import TypedCall.CommandLine.Options
import TypedCall.Settings.Loading
/-!
# Commands

The commands of the program, and the command line that asks for one. Some options may stand before
the command or among its own arguments; given at both places, the inner value counts unless the
outer one comes from a stronger source.
-/

namespace TypedCall

/-- Which component is meant: the file to load besides the directory, and the id. -/
structure ComponentChoice where
  metadata : Option String
  component : Option String

/-- Which function is meant. -/
structure FunctionChoice where
  source : ComponentChoice
  exportName : String
  function : String

/-- What the program can be asked to do. -/
inductive Command where
  /-- Print the text that an editor starts from. -/
  | skeleton (function : FunctionChoice)
  /-- Print the request that a document makes. -/
  | encode (function : FunctionChoice) (input : Option String)
  /-- Print the functions of a component. -/
  | signature (source : ComponentChoice) (query : Option String)
  /-- Print a document over several lines. -/
  | format (input : Option String)

/-- A command line: what it says about settings, and its command. -/
structure CommandLine where
  overrides : Overrides
  command : Command

namespace CommandLine

/-- Options that may stand before or after the command. -/
def commonOptions : List OptionSpec := [
  { name := "config", short := some 'c', isPath := true, environmentName? := some "INVOKER_CONFIG",
    fallback := some "invoker.toml" },
  { name := "metadata-dir", environmentName? := some "INVOKER_METADATA_DIR" },
  { name := "log-level" }]

/-- Options that choose a component. -/
def componentOptions : List OptionSpec := [
  { name := "metadata", short := some 'm', isPath := true },
  { name := "component" }]

/-- Options that choose a function. -/
def functionOptions : List OptionSpec := [
  { name := "export", short := some 'e', required := true },
  { name := "function", short := some 'f', required := true }]

/-- The option for a file to read. -/
def inputOption : OptionSpec := { name := "input", short := some 'i', isPath := true }

/-- The option for a search. -/
def queryOption : OptionSpec := { name := "query", short := some 'q' }

/-- The commands by name, with their own options. -/
def commandOptions : List (String × List OptionSpec) := [
  ("skeleton", componentOptions ++ functionOptions),
  ("encode", componentOptions ++ functionOptions ++ [inputOption]),
  ("signature", componentOptions ++ [queryOption]),
  ("format", [inputOption])]

/-- The outermost level. -/
def outerLevel : Level :=
  ⟨commonOptions, commandOptions.map (·.1) ++ ["help"], true⟩

/-- The level of a command. -/
def innerLevel (options : List OptionSpec) : Level := ⟨options ++ commonOptions, [], false⟩

/-- The value of an option. -/
def valueOf? (values : Values) (name : String) : Option String :=
  (values.lookup name).map (·.value)

/-- The value of a common option. -/
def commonValue? (outer inner : Values) (name : String) : Option String :=
  match outer.lookup name, inner.lookup name with
  | some o, some i => some (if o.source.beats i.source then o.value else i.value)
  | some o, none => some o.value
  | none, some i => some i.value
  | none, none => none

/-- The component that the values choose. -/
def componentChoice (values : Values) : ComponentChoice :=
  ⟨valueOf? values "metadata", valueOf? values "component"⟩

/-- The function that the values choose. -/
def functionChoice (values : Values) : FunctionChoice :=
  ⟨componentChoice values, (valueOf? values "export").getD "",
    (valueOf? values "function").getD ""⟩

/-- The command of a name and its values. -/
def commandOf (name : String) (values : Values) : Command :=
  if name = "skeleton" then .skeleton (functionChoice values)
  else if name = "encode" then .encode (functionChoice values) (valueOf? values "input")
  else if name = "signature" then .signature (componentChoice values) (valueOf? values "query")
  else .format (valueOf? values "input")

/-- The error with which help about a command is given, or that there is no such command. -/
def helpFor : List String → UsageError
  | [] => .help
  | [name] => if outerLevel.commands.contains name then .help else .unknownCommand
  | _ => .unknownCommand

/-- What is wrong when no command is given: without any option it is a question for help. -/
def withoutCommand (values : Values) : UsageError :=
  if values.any fun (_, given) => given.source ≠ .fallback then .missingCommand
  else .helpForNothing

/-- Read a command line, given the environment. The arguments of the command are settled before
those that stand before it. -/
def parse (environment : List (String × String)) (arguments : List String) :
    Except UsageError CommandLine := do
  let (outer, command) ← readLevel outerLevel {} arguments
  match command with
  | none =>
    let values ← finishLevel outerLevel environment outer
    .error (withoutCommand values)
  | some (name, rest) =>
    match commandOptions.lookup name with
    | none => .error (helpFor rest)
    | some options => do
      let level := innerLevel options
      let (inner, _) ← readLevel level {} rest
      let inner ← finishLevel level environment inner
      let outer ← finishLevel outerLevel environment outer
      let common := commonValue? outer inner
      return ⟨⟨(common "config").getD "", common "metadata-dir", common "log-level"⟩,
        commandOf name inner⟩

end CommandLine

end TypedCall
