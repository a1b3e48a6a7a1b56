import TypedCall.Program
/-!
# The executable

Gathers what the program sees, runs it, and shows the outcome. The files that it sees are those
below the working directory and those that are named outside of it, by the command line or as the
directory of the settings; links to directories are followed only where they are named, and what
cannot be read is left out. The standard input is read only for a command that needs it.
-/

namespace TypedCall.Main

/-- The text of bytes, if they are UTF-8. -/
def textOf (bytes : ByteArray) : Option String := String.fromUTF8? bytes

/-! ## Files -/

/-- No path that the system takes has more segments. -/
def deepest : Nat := 4095

/-- The entry of the system at the end of the segments from the root. -/
def entryAt (segments : List String) : IO IO.FS.DirEntry := do
  return ⟨← IO.currentDir, "/" ++ "/".intercalate segments⟩

/-- The tree with what stands at the end of the segments: a file, or a directory as an empty one. -/
def bringLeaf (segments : List String) (tree : Files.Node) : IO Files.Node := do
  try
    let path := (← entryAt segments).path
    match (← path.metadata).type with
    | .dir => return tree.put .empty segments
    | .file => return tree.put (.file (textOf (← IO.FS.readBinFile path))) segments
    | _ => return tree.put (.file (some "")) segments
  catch _ => return tree

/-- The tree with what stands at the end of the segments, and below it down to a depth. -/
def bring (segments : List String) (tree : Files.Node) : (depth : Nat) → IO Files.Node
  | 0 => bringLeaf segments tree
  | depth + 1 => do
    let entry ← entryAt segments
    if ← entry.path.isDir then
      try
        (← entry.path.readDir).toList.foldlM (fun tree e => do
          let segments := segments ++ [e.fileName]
          match (← e.path.symlinkMetadata).type with
          | .dir => bring segments tree depth
          | _ => bringLeaf segments tree) (tree.put .empty segments)
      catch _ => return tree
    else bringLeaf segments tree

/-- The segments from the root to where the parts of a path lead from a directory. -/
def walk (directory parts : List String) : List String :=
  parts.foldl (fun directory part =>
    if part = "" ∨ part = "." then directory
    else if part = ".." then directory.dropLast
    else directory ++ [part]) directory

/-- The tree with what a path leads to, down to a depth, and with the directories on the way. A part
that is not fixed stands for any number of names, so from there on all is needed that can be. -/
def reach (here : List String) (isFixed : String → Bool) (depth : Nat) (tree : Files.Node)
    (path : String) : IO Files.Node := do
  let start := if path.toList.head? = some '/' then [] else here
  let parts := Text.split '/' path
  let fixed := parts.takeWhile isFixed
  let tree ← (List.range fixed.length).foldlM
    (fun tree n => bringLeaf (walk start (fixed.take n)) tree) tree
  bring (walk start fixed) tree (if fixed = parts then depth else deepest)

/-- The files that a command line names. -/
def namedFiles (line : CommandLine) : List String :=
  let config := line.overrides.config
  let named (path : Option String) : List String := path.toList
  [config, config ++ ".toml", config ++ ".json"] ++
    match line.command with
    | .skeleton f => named f.source.metadata
    | .encode f input => named f.source.metadata ++ named input
    | .signature source _ => named source.metadata
    | .format input => named input

/-- The tree as it is seen from a directory. -/
def seenFrom (here : List String) (root : Files.Node) : Files.Tree :=
  match here.foldlM Files.Place.enter ⟨root, []⟩ with
  | .ok place => place
  | .error _ => ⟨root, []⟩

/-- The files that a command line can need. The directory of the settings is known only when the
configuration has been read. -/
def filesFor (environment : List (String × String)) (line : CommandLine) : IO Files.Tree := do
  let here := walk [] (Text.split '/' (← IO.currentDir).toString)
  let below ← bring here .empty deepest
  let tree ← (namedFiles line).foldlM (reach here (fun _ => true) 0) below
  match Settings.load ⟨seenFrom here tree, environment⟩ line.overrides with
  | .ok settings =>
    let isFixed (part : String) := part.toList.all fun c => c != '?' && c != '*' && c != '['
    return seenFrom here (← settings.metadataDir.toList.foldlM (reach here isFixed 1) tree)
  | .error _ => return seenFrom here tree

/-! ## The process -/

/-- The name and value of a variable. -/
def variableOf (text : String) : Option (String × String) :=
  match Text.split '=' text with
  | name :: value => some (name, "=".intercalate value)
  | [] => none

/-- The environment variables, as far as the system shows them. -/
def environment : IO (List (String × String)) := do
  try
    let text := (textOf (← IO.FS.readBinFile "/proc/self/environ")).getD ""
    return (Text.split '\x00' text).filterMap variableOf
  catch _ => return []

/-- How the program is called. -/
def usageText : String :=
  "Usage: invoker [-c FILE] [--metadata-dir DIR] [--log-level LEVEL] COMMAND\n\n" ++
  "Commands:\n" ++
  "  skeleton   -e EXPORT -f FUNCTION [-m FILE] [--component ID]\n" ++
  "  encode     -e EXPORT -f FUNCTION [-m FILE] [--component ID] [-i FILE]\n" ++
  "  signature  [-m FILE] [--component ID] [-q TEXT]\n" ++
  "  format     [-i FILE]\n" ++
  "  help\n"

/-- Read the standard input to its end. -/
partial def readAll (stream : IO.FS.Stream) (before : ByteArray) : IO ByteArray := do
  let bytes ← stream.read 65536
  if bytes.isEmpty then return before
  readAll stream (before ++ bytes)

/-- Run the program on the given arguments and return its exit code. -/
def runProcess (arguments : List String) : IO UInt32 := do
  let known ← environment
  let usage := CommandLine.parse known arguments
  let world : World ← match usage with
    | .ok line =>
      let input ← if line.command.readsInput then pure (textOf (← readAll (← IO.getStdin) .empty))
        else pure (some "")
      pure ⟨⟨← filesFor known line, known⟩, input⟩
    | .error _ => pure ⟨⟨.alone .empty, known⟩, some ""⟩
  let outcome := run world arguments
  (← IO.getStdout).putStr outcome.output
  (← IO.getStderr).putStr (outcome.error.getD "")
  match usage with
  | .error .help => (← IO.getStdout).putStr usageText
  | .error .version | .ok _ => pure ()
  | .error _ => (← IO.getStderr).putStr usageText
  return UInt32.ofNat outcome.exitCode

end TypedCall.Main

/-- Run the program on the arguments of the process. -/
def main (arguments : List String) : IO UInt32 := TypedCall.Main.runProcess arguments
