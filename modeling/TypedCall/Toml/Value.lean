import TypedCall.Decimal.Binary64
/-!
# TOML values and tables

A document is a table. While it is read, a table remembers how it came to be: by dotted keys, by
the longer header of another table, or by its own header. Only a table that its own header has not
named may still be named, and only dotted keys extend a table of dotted keys.
-/

namespace TypedCall.Toml

/-- A value. Dates and times are kept as texts. -/
inductive Value where
  | text (s : String)
  | integer (i : Int)
  | double (x : Float64)
  | bool (b : Bool)
  | array (items : List Value)
  | table (entries : List (String × Value))
deriving Inhabited

/-- How a table came to be. -/
inductive TableOrigin where
  | dotted
  | implied
  | header
deriving DecidableEq

/-- An entry of a table that is being read. Of an array of tables the last one is open. -/
inductive Entry where
  | value (v : Value)
  | table (origin : TableOrigin) (entries : List (String × Entry))
  | tables (closed : List (List (String × Entry))) (last : List (String × Entry))
deriving Inhabited

/-- The entries of a table that is being read. -/
abbrev Entries := List (String × Entry)

/-- The entry of a key. -/
def Entries.find? (key : String) : Entries → Option Entry
  | [] => none
  | (k, e) :: rest => if k = key then some e else find? key rest

/-- Entries with an entry of the key, in place or at the end. -/
def Entries.set (key : String) (entry : Entry) : Entries → Entries
  | [] => [(key, entry)]
  | (k, e) :: rest => if k = key then (k, entry) :: rest else (k, e) :: set key entry rest

mutual

/-- The value of an entry that has been read. -/
def Entry.finish : Entry → Value
  | .value v => v
  | .table _ entries => .table (finishEntries entries)
  | .tables closed last => .array (finishTables closed ++ [.table (finishEntries last)])

/-- The entries of a table that has been read. -/
def finishEntries : List (String × Entry) → List (String × Value)
  | [] => []
  | (k, e) :: rest => (k, e.finish) :: finishEntries rest

/-- The tables of an array that has been read. -/
def finishTables : List (List (String × Entry)) → List Value
  | [] => []
  | entries :: rest => .table (finishEntries entries) :: finishTables rest

end

/-- Add a value under a dotted key. -/
def addDotted? (v : Value) : List String → Entries → Option Entries
  | [], _ => none
  | [key], entries =>
    if (entries.find? key).isSome then none else some (entries ++ [(key, .value v)])
  | key :: keys, entries =>
    match entries.find? key with
    | none => do return entries ++ [(key, .table .dotted (← addDotted? v keys []))]
    | some (.table .dotted inner) => do
      return entries.set key (.table .dotted (← addDotted? v keys inner))
    | some _ => none

/-- Name a table by its header. -/
def openTable? : List String → Entries → Option Entries
  | [], _ => none
  | [key], entries =>
    match entries.find? key with
    | none => some (entries ++ [(key, .table .header [])])
    | some (.table .implied inner) => some (entries.set key (.table .header inner))
    | some _ => none
  | key :: keys, entries =>
    match entries.find? key with
    | none => do return entries ++ [(key, .table .implied (← openTable? keys []))]
    | some (.table .dotted _) => none
    | some (.table origin inner) => do
      return entries.set key (.table origin (← openTable? keys inner))
    | some (.tables closed last) => do
      return entries.set key (.tables closed (← openTable? keys last))
    | some (.value _) => none

/-- Begin a new table of an array of tables. -/
def openArray? : List String → Entries → Option Entries
  | [], _ => none
  | [key], entries =>
    match entries.find? key with
    | none => some (entries ++ [(key, .tables [] [])])
    | some (.tables closed last) => some (entries.set key (.tables (closed ++ [last]) []))
    | some _ => none
  | key :: keys, entries =>
    match entries.find? key with
    | none => do return entries ++ [(key, .table .implied (← openArray? keys []))]
    | some (.table .dotted _) => none
    | some (.table origin inner) => do
      return entries.set key (.table origin (← openArray? keys inner))
    | some (.tables closed last) => do
      return entries.set key (.tables closed (← openArray? keys last))
    | some (.value _) => none

/-- Change the entries of the table that a header has opened. -/
def changeAt? (change : Entries → Option Entries) : List String → Entries → Option Entries
  | [], entries => change entries
  | key :: keys, entries =>
    match entries.find? key with
    | some (.table origin inner) => do
      return entries.set key (.table origin (← changeAt? change keys inner))
    | some (.tables closed last) => do
      return entries.set key (.tables closed (← changeAt? change keys last))
    | _ => none

end TypedCall.Toml
