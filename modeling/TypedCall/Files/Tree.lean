import TypedCall.Text.Split
/-!
# File trees

The files a program can see, from its working directory with the directories above it up to the
root. A path is walked segment by segment; the empty segment and `.` stay where they are, `..` goes
one directory up, and each of them needs a directory to stand in. A path that begins with a slash is
walked from the root.
-/

namespace TypedCall.Files

/-- A file or a directory. A file has no text when its bytes are not UTF-8. The entries of a
directory are sorted by name. -/
inductive Node where
  | file (text : Option String)
  | directory (entries : List (String × Node))
deriving Inhabited

/-- Why a file cannot be read. -/
inductive FileError where
  | notFound
  | notDirectory
  | isDirectory
  | nameTooLong
  | notText
  | nameWithNul
deriving DecidableEq

/-- The wording of a file error. -/
def FileError.message : FileError → String
  | notFound => "No such file or directory (os error 2)"
  | notDirectory => "Not a directory (os error 20)"
  | isDirectory => "Is a directory (os error 21)"
  | nameTooLong => "File name too long (os error 36)"
  | notText => "stream did not contain valid UTF-8"
  | nameWithNul => "file name contained an unexpected NUL byte"

namespace Node

/-- An empty directory. -/
def empty : Node := .directory []

/-- The entries of a directory; a file has none. -/
def entries : Node → List (String × Node)
  | .file _ => []
  | .directory entries => entries

/-- Is this a directory? -/
def isDirectory : Node → Bool
  | .file _ => false
  | .directory _ => true

/-- The entry of a name. -/
def find? (name : String) : List (String × Node) → Option Node
  | [] => none
  | (n, node) :: rest => if n = name then some node else find? name rest

/-- Entries with `node` under the name, in the place that keeps them sorted. -/
def insertEntry (name : String) (node : Node) : List (String × Node) → List (String × Node)
  | [] => [(name, node)]
  | (n, old) :: rest =>
    if name = n then (name, node) :: rest
    else if name < n then (name, node) :: (n, old) :: rest
    else (n, old) :: insertEntry name node rest

/-- Put a node at the end of a path below this one and make the directories on the way. An empty
directory does not replace a directory that is there. -/
def put (node : Node) (leaf : Node) : List String → Node
  | [] => if leaf.isDirectory && leaf.entries.isEmpty && node.isDirectory then node else leaf
  | name :: rest =>
    .directory (insertEntry name (((find? name node.entries).getD empty).put leaf rest)
      node.entries)

end Node

/-- The tree of the files with the given paths. A path that ends in a slash is a directory. -/
def ofFiles (files : List (String × Option String)) : Node :=
  files.foldl (fun tree (path, text) =>
    tree.put (if path.toList.getLast? = some '/' then Node.empty else .file text)
      ((Text.split '/' path).filter fun s => s ≠ "" && s ≠ ".")) Node.empty

/-- A node together with the directories above it, the nearest first and the root last. -/
structure Place where
  node : Node
  above : List Node

/-- The files that a program sees: its working directory, at its place. -/
abbrev Tree := Place

namespace Place

/-- A node with nothing to be seen above it but an empty root. -/
def alone (node : Node) : Place := ⟨node, [Node.empty]⟩

instance : Coe Node Tree := ⟨alone⟩

/-- The topmost directory. -/
def root (p : Place) : Place := ⟨p.above.getLastD p.node, []⟩

/-- One directory up; the topmost directory is its own parent. -/
def parent (p : Place) : Place :=
  match p.above with
  | [] => p
  | node :: above => ⟨node, above⟩

/-- Go on by one segment of a path. -/
def enter (p : Place) (segment : String) : Except FileError Place :=
  match p.node with
  | .file _ => .error .notDirectory
  | .directory entries =>
    if segment = "" ∨ segment = "." then .ok p
    else if segment = ".." then .ok p.parent
    else if 255 < segment.utf8ByteSize then .error .nameTooLong
    else match Node.find? segment entries with
      | some node => .ok ⟨node, p.node :: p.above⟩
      | none => .error .notFound

/-- The text of the file at this place. -/
def text (p : Place) : Except FileError String :=
  match p.node with
  | .file (some text) => .ok text
  | .file none => .error .notText
  | .directory _ => .error .isDirectory

end Place

namespace Tree

/-- The place at the end of a path. -/
def locate (tree : Tree) (path : String) : Except FileError Place :=
  if path.toList.contains '\x00' then .error .nameWithNul
  else if path = "" then .error .notFound
  else if 4095 < path.utf8ByteSize then .error .nameTooLong
  else
    (Text.split '/' path).foldlM Place.enter
      (if path.toList.head? = some '/' then tree.root else tree)

/-- The text of the file at the end of a path. -/
def read (tree : Tree) (path : String) : Except FileError String := do
  (← tree.locate path).text

/-- Is there a file, not a directory, at the end of the path? -/
def isFile (tree : Tree) (path : String) : Bool :=
  match tree.locate path with
  | .ok place => !place.node.isDirectory
  | .error _ => false

end Tree

/-- What follows the last dot of the last segment of a path, unless the dot begins the segment. -/
def extension? (path : String) : Option String :=
  match (Text.split '/' path).getLast? with
  | some name =>
    if name = ".." then none
    else match (Text.splitChars '.' name.toList).reverse with
      | last :: before :: more =>
        if more.isEmpty && before.isEmpty then none else some (String.ofList last)
      | _ => none
  | none => none

end TypedCall.Files
