import TypedCall.Config.Value
import TypedCall.Decimal.Reading
/-!
# Keys and merging

The key of a value at the top of a source is a path: names with points between them, and indices
in brackets, of which the negative ones count from the end. A text that is no path is a name as a
whole. Setting the value of a path makes the tables and lists on the way; a table is merged into
the table that is there, and any other value replaces what is there.

Two keys of one source can be paths into the same value, and then it matters which comes last. But a
source is a table, and a table has no order: whoever loads sources chooses one (`Order`).
-/

namespace TypedCall.Config

/-- A step of a path. -/
inductive Step where
  | name (s : String)
  | index (i : Int)
deriving DecidableEq

/-- Characters of names in a path. -/
def isNameChar (c : Char) : Bool :=
  ('0' ≤ c && c ≤ '9') || ('A' ≤ c && c ≤ 'Z') || ('a' ≤ c && c ≤ 'z') || c == ' ' || c == '_' ||
    c == '-'

/-- A character that may stand around an index. -/
def isIndexBlank (c : Char) : Bool := c == ' ' || c == '\t'

/-- A character of an index. -/
def isIndexChar (c : Char) : Bool := c == '-' || c.isDigit

/-- Read the steps after the first name. -/
def readSteps? : (fuel : Nat) → List Char → Option (List Step)
  | 0, _ => none
  | _, [] => some []
  | fuel + 1, '.' :: rest =>
    let name := rest.takeWhile isNameChar
    if name.isEmpty then none
    else do return .name (String.ofList name) :: (← readSteps? fuel (rest.dropWhile isNameChar))
  | fuel + 1, '[' :: rest =>
    let (index, rest) := (rest.dropWhile isIndexBlank).span isIndexChar
    match integer64? index, rest.dropWhile isIndexBlank with
    | some i, ']' :: rest => do return .index i :: (← readSteps? fuel rest)
    | _, _ => none
  | _, _ => none

/-- The path that a key writes. -/
def pathOf (key : String) : List Step :=
  let cs := key.toList
  let name := cs.takeWhile isNameChar
  if name.isEmpty then [.name key]
  else match readSteps? (cs.length + 1) (cs.dropWhile isNameChar) with
    | some steps => .name (String.ofList name) :: steps
    | none => [.name key]

namespace Table

/-- The value of a key. -/
def find? (key : String) : Table → Option Value
  | [] => none
  | (k, v) :: rest => if k = key then some v else find? key rest

/-- Give a key a value, in place or at the end. -/
def set (key : String) (value : Value) : Table → Table
  | [] => [(key, value)]
  | (k, v) :: rest => if k = key then (k, value) :: rest else (k, v) :: set key value rest

end Table

/-- The table that a value is, or an empty one. -/
def Value.asTable : Value → Value
  | .table entries origin => .table entries origin
  | _ => .table [] none

/-- Give a key of a table a value. Any other value becomes a table first. -/
def Value.setEntry (target : Value) (key : String) (value : Value) : Value :=
  match target.asTable with
  | .table entries origin => .table (Table.set key value entries) origin
  | v => v

mutual

/-- Merge a value into the table `target` under a key. -/
def Value.mergeAt (key : String) (value : Value) (target : Value) : Value :=
  match value with
  | .table entries _ =>
    target.setEntry key
      (mergeEntries entries ((Table.find? key target.entries).getD (.table [] none)))
  | .datum d origin => target.setEntry key (.datum d origin)
  | .list items origin => target.setEntry key (.list items origin)

/-- Merge entries into a table one after the other. -/
def mergeEntries : List (String × Value) → Value → Value
  | [], target => target
  | (k, v) :: rest, target => mergeEntries rest (v.mergeAt k target)

end

/-- Replace an item of a list; a list that is too short is filled up. -/
def setItem (i : Nat) (v : Value) (items : List Value) : List Value :=
  items.take i ++ List.replicate (i - items.length) Value.nil ++ v :: items.drop (i + 1)

/-- The place that an index means in a list of the given length, unless it lies before the list. -/
def placeOf? (i : Int) (length : Nat) : Option Nat :=
  let place := if i < 0 then length + i else i
  if place < 0 then none else some place.toNat

/-- The list of a value, with the item changed. Any other value becomes a list first. -/
def Value.changeItem (target : Value) (i : Int) (change : Value → Value) : Value :=
  let origin := match target with
    | .list _ origin => origin
    | _ => none
  match placeOf? i target.items.length with
  | some place =>
    .list (setItem place (change ((target.items)[place]?.getD Value.nil)) target.items) origin
  | none => .list target.items origin

/-- Give the end of a path a value. -/
def Value.assign (value : Value) : List Step → Value → Value
  | [], _ => value
  | [.name key], target => value.mergeAt key target.asTable
  | [.index i], target => target.changeItem i fun _ => value
  | .name key :: rest, target =>
    target.setEntry key
      (value.assign rest ((Table.find? key target.entries).getD Value.nil))
  | .index i :: rest, target => target.changeItem i (value.assign rest)

/-- Merge what a source says into what earlier sources said, entry by entry as they are listed. -/
def merge (earlier : Value) (source : Table) : Value :=
  source.foldl (fun root (key, v) => v.assign (pathOf key) root) earlier

/-! ## Order -/

/-- The tables that a load goes through at the top: its two sources, and what becomes of them. -/
inductive Layer where
  | file
  | environment
  | merged

/-- An order in which a load goes through tables at the top. The order is not fixed by what the
tables say, and two loads of the same sources need not have the same. In the tables below the top it
does not show, since their names are no paths and differ from each other. -/
structure Order where
  arrange : Layer → Table → Table
  perm : ∀ layer table, (arrange layer table).Perm table

namespace Order

/-- The order in which entries are listed, which is one of several. -/
def listed : Order := ⟨fun _ table => table, fun _ _ => .refl _⟩

/-- What a file and the environment say together, the environment last. -/
def merge (order : Order) (file environment : Table) : Table :=
  order.arrange .merged (Config.merge (Config.merge (.table [] none) (order.arrange .file file))
    (order.arrange .environment environment)).entries

end Order

end TypedCall.Config
