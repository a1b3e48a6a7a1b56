import TypedCall.Files.Pattern
import TypedCall.Files.Tree
/-!
# Finding the files of a pattern

`Tree.expand` lists the paths that match a pattern, in alphabetical order of the names of each
directory. A segment without wildcards is walked into without looking at the directory, so it can
be `.` or `..`; a segment with wildcards matches these two only when it begins with a dot.
-/

namespace TypedCall.Files

/-- A place that has been found, with its name and the path that leads to it. -/
structure Hit where
  path : String
  name : String
  place : Place

/-- A path one segment further. The path of the working directory is `.` and is left out. -/
def joinPath (path segment : String) : String :=
  if path = "." then segment
  else if path.toList.getLast? = some '/' then path ++ segment
  else path ++ "/" ++ segment

namespace Hit

/-- Go on to a segment of the directory. -/
def enter? (h : Hit) (segment : String) : Option Hit :=
  match h.place.enter segment with
  | .ok place => some ⟨joinPath h.path segment, segment, place⟩
  | .error _ => none

/-- The entries of the directory. -/
def children (h : Hit) : List Hit :=
  h.place.node.entries.map fun (name, node) =>
    ⟨joinPath h.path name, name, ⟨node, h.place.node :: h.place.above⟩⟩

end Hit

mutual

/-- All that stands below a node, each directory before what it holds. -/
def Node.descendants (above : List Node) (path : String) : Node → List Hit
  | .file _ => []
  | .directory entries => entriesBelow (.directory entries :: above) path entries

/-- The entries and all that stands below them. -/
def entriesBelow (above : List Node) (path : String) : List (String × Node) → List Hit
  | [] => []
  | (name, node) :: rest =>
    ⟨joinPath path name, name, ⟨node, above⟩⟩ ::
      (node.descendants above (joinPath path name) ++ entriesBelow above path rest)

end

/-- All that stands below the place. -/
def Hit.below (h : Hit) : List Hit := h.place.node.descendants h.place.above h.path

/-- The hits that the segments lead to from a directory. -/
def expandFrom : List Segment → Hit → List Hit
  | [], h => [h]
  | .literal name :: rest, h =>
    if name = "" ∧ h.path = "." then []
    else ((h.enter? name).toList).flatMap (expandFrom rest)
  | .wild tokens :: rest, h =>
    let dots := if Segment.beginsWithDot (.wild tokens) ∧ h.place.node.isDirectory then
      ["..", "."].filter (Segment.accepts · (.wild tokens)) else []
    ((dots.filterMap h.enter?) ++ h.children.filter fun c =>
      Segment.accepts c.name (.wild tokens)).flatMap (expandFrom rest)
  | .anyDirectories :: rest, h => expandBelow h.below rest
where
  /-- The hits that the segments lead to when any of the places below may be next. -/
  expandBelow (below : List Hit) : List Segment → List Hit
    | [] => below.filter (·.place.node.isDirectory)
    | .anyDirectories :: rest => expandBelow below rest
    | segment :: rest =>
      (below.filter fun c => segment.accepts c.name).flatMap (expandFrom rest)

/-- The paths that match a pattern. -/
def Tree.expand (tree : Tree) (pattern : Pattern) : List String :=
  (expandFrom pattern.segments
    (if pattern.absolute then ⟨"/", "", tree.root⟩ else ⟨".", "", tree⟩)).map (·.path)

end TypedCall.Files
