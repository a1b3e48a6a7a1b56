import TypedCall.Text.Split
/-!
# Options on a command line

The arguments of one level of a command line: options with a value, flags that end the reading,
and at the outermost level the name of a command. A value follows its option as the next argument,
after an equals sign, or directly after a short name. A value that is the next argument is looked
at only when the next option or the end of the level is reached, and each option may be given once
on a level. What the arguments leave open is taken from the environment, then from a default.
-/

namespace TypedCall.CommandLine

/-- Why a command line is not carried out: it asks for help or the version, or it is wrong. -/
inductive UsageError where
  | help
  | version
  | helpForNothing
  | missingCommand
  | unknownCommand
  | unknownArgument
  | unusableValue
  | repeatedOption
  | missingOption
  | unneededValue
deriving DecidableEq

/-- An option that takes a value. -/
structure OptionSpec where
  name : String
  short : Option Char := none
  /-- Is the value a path, which must not be empty? -/
  isPath : Bool := false
  /-- The environment variable that stands in for the option. -/
  environmentName? : Option String := none
  fallback : Option String := none
  required : Bool := false

/-- The arguments that one level knows. -/
structure Level where
  options : List OptionSpec
  /-- The commands that may follow. -/
  commands : List String := []
  /-- Can the version be asked for? -/
  hasVersion : Bool := false

/-- Where the value of an option comes from, the weakest source first. -/
inductive Source where
  | fallback
  | environment
  | arguments
deriving DecidableEq

/-- Has the first source precedence over the second? -/
def Source.beats : Source → Source → Bool
  | .arguments, .environment | .arguments, .fallback | .environment, .fallback => true
  | _, _ => false

/-- The value of an option. -/
structure Given where
  value : String
  source : Source

/-- The values of a level, by the names of the options. -/
abbrev Values := List (String × Given)

/-- The values read so far, and an option that is not settled yet: one that waits for its value,
or whose value has not been looked at. -/
structure Progress where
  values : Values := []
  pending : Option (OptionSpec × Option String) := none

namespace Progress

/-- Take a value for an option. -/
def accept (p : Progress) (spec : OptionSpec) (value : String) (source : Source) :
    Except UsageError Progress :=
  if (p.values.lookup spec.name).isSome then .error .repeatedOption
  else if spec.isPath && value.isEmpty then .error .unusableValue
  else .ok { p with values := p.values ++ [(spec.name, ⟨value, source⟩)] }

/-- Settle the pending option. -/
def settle (p : Progress) : Except UsageError Progress :=
  match p.pending with
  | none => .ok p
  | some (_, none) => .error .unusableValue
  | some (spec, some value) => { p with pending := none }.accept spec value .arguments

/-- Does an option wait for its value? -/
def awaits (p : Progress) : Bool :=
  match p.pending with
  | some (_, none) => true
  | _ => false

/-- Begin an option, with its value when that is attached to it. -/
def begin (p : Progress) (spec : OptionSpec) (value : Option String) :
    Except UsageError Progress := do
  let p ← p.settle
  match value with
  | some value => p.accept spec value .arguments
  | none => return { p with pending := some (spec, none) }

/-- Settle the pending option, then end with an error. -/
def finishWith (p : Progress) (e : UsageError) : Except UsageError Progress := do
  let _ ← p.settle
  .error e

end Progress

/-- The name and the attached value of an argument `--name` or `--name=value`. -/
def splitLong (cs : List Char) : String × Option String :=
  (String.ofList (cs.takeWhile (· != '=')),
    match cs.dropWhile (· != '=') with
    | _ :: value => some (String.ofList value)
    | [] => none)

/-- Read an argument with a long name. -/
def readLong (level : Level) (p : Progress) (cs : List Char) : Except UsageError Progress :=
  let (name, value) := splitLong cs
  match level.options.find? (·.name == name) with
  | some spec => p.begin spec value
  | none =>
    let flag : Option UsageError :=
      if name = "help" then some .help
      else if level.hasVersion ∧ name = "version" then some .version
      else none
    match flag, value with
    | some _, some _ => .error .unneededValue
    | some e, none => p.finishWith e
    | none, _ => .error .unknownArgument

/-- The value attached to a short name; an equals sign before it is no part of it. -/
def shortValue? : List Char → Option String
  | [] => none
  | '=' :: value => some (String.ofList value)
  | value => some (String.ofList value)

/-- Read an argument with a short name. -/
def readShort (level : Level) (p : Progress) (c : Char) (rest : List Char) :
    Except UsageError Progress :=
  match level.options.find? (·.short == some c) with
  | some spec => p.begin spec (shortValue? rest)
  | none =>
    if c = 'h' then p.finishWith .help
    else if level.hasVersion ∧ c = 'V' then p.finishWith .version
    else .error .unknownArgument

/-- The error for an argument that is neither an option nor a value. Behind `--` a command is not
looked for. -/
def strayArgument (level : Level) (escaped : Bool) (argument : String) : UsageError :=
  if level.commands.isEmpty then .unknownArgument
  else if escaped ∧ level.commands.contains argument then .unknownArgument
  else .unknownCommand

/-- Read the arguments of a level, up to a command when one follows. -/
def readLevel (level : Level) (p : Progress) :
    List String → Except UsageError (Progress × Option (String × List String))
  | [] => .ok (p, none)
  | argument :: rest =>
    if !p.awaits && level.commands.contains argument then .ok (p, some (argument, rest))
    else match argument.toList with
      | ['-', '-'] => match rest with
        | [] => .ok (p, none)
        | stray :: _ => .error (strayArgument level true stray)
      | '-' :: '-' :: name => do readLevel level (← readLong level p name) rest
      | '-' :: c :: more => do readLevel level (← readShort level p c more) rest
      | _ => match p.pending with
        | some (spec, none) =>
          readLevel level { p with pending := some (spec, some argument) } rest
        | _ => .error (strayArgument level false argument)

/-- Take from the environment what the arguments leave open. -/
def addEnvironment (environment : List (String × String)) (p : Progress) :
    List OptionSpec → Except UsageError Progress
  | [] => .ok p
  | spec :: rest =>
    match p.values.lookup spec.name, spec.environmentName?.bind (environment.lookup ·) with
    | none, some value => do
      addEnvironment environment (← p.accept spec value .environment) rest
    | _, _ => addEnvironment environment p rest

/-- Take from the defaults what is still open. -/
def addFallbacks (values : Values) (options : List OptionSpec) : Values :=
  values ++ options.filterMap fun spec =>
    match values.lookup spec.name, spec.fallback with
    | none, some value => some (spec.name, ⟨value, .fallback⟩)
    | _, _ => none

/-- The values of a level when its arguments are read. -/
def finishLevel (level : Level) (environment : List (String × String)) (p : Progress) :
    Except UsageError Values := do
  let p ← addEnvironment environment (← p.settle) level.options
  if level.options.any fun spec => spec.required && (p.values.lookup spec.name).isNone then
    .error .missingOption
  else return addFallbacks p.values level.options

end TypedCall.CommandLine
