import TypedCall.Component.Basic
/-!
# Reading components

Functions, exports and components are read in the same way from every document format; a `Source`
says how one format writes texts, numbers, lists and records. The members of a record are read in
the order of the document and the first mismatch wins; members not asked for are passed over. A
format may also let a record be written as the list of its members.
-/

namespace TypedCall

/-- A record as a document writes it. A key that is no text is a mismatch. -/
inductive Record (α : Type) where
  | named (entries : List (Except Mismatch String × α))
  | positional (items : List α)

/-- A document format from which components can be read. -/
class Source (α : Type) where
  /-- Read a text. -/
  text : α → Except Mismatch String
  /-- Read a natural number below `2 ^ 64`. -/
  natural : α → Except Mismatch Nat
  /-- The value, unless it stands for nothing. -/
  present? : α → Option α
  /-- Read a list. -/
  items : α → Except Mismatch (List α)
  /-- Read a record, called by its name in mismatches. -/
  record : (expected : String) → α → Except Mismatch (Record α)
  /-- Read a name and a descriptor. -/
  field : α → Except Mismatch Field

namespace Source

variable {α β : Type}

/-- Fill a slot that must be empty. -/
def fill (slot : Option β) (key : String) (reading : Except Mismatch β) :
    Except Mismatch (Option β) :=
  match slot with
  | some _ => .error (.repeatedMember key)
  | none => do return some (← reading)

/-- What a slot must hold. -/
def required (slot : Option β) (key : String) : Except Mismatch β :=
  match slot with
  | some b => .ok b
  | none => .error (.missingMember key)

/-- Read the next item of a record written as a list, or take what stands for a missing one. -/
def next (items : List α) (reading : α → Except Mismatch β) (missing : Except Mismatch β) :
    Except Mismatch (β × List α) :=
  match items with
  | [] => do return (← missing, [])
  | a :: rest => do return (← reading a, rest)

/-- Refuse items left over from a list of `total`. -/
def finish (total : Nat) (items : List α) (result : β) : Except Mismatch β :=
  if items.isEmpty then .ok result else .error (.wrongLength total "fewer elements in array")

variable [Source α]

/-- Read a text that may be missing. -/
def optionalText (v : α) : Except Mismatch (Option String) :=
  match present? v with
  | none => .ok none
  | some v => do return some (← text v)

/-- Read a number that may be missing. -/
def optionalNatural (v : α) : Except Mismatch (Option Nat) :=
  match present? v with
  | none => .ok none
  | some v => do return some (← natural v)

/-- Read every item of a list. -/
def listOf (reading : α → Except Mismatch β) (v : α) : Except Mismatch (List β) := do
  (← items v).mapM reading

/-- What has been read of a function. -/
structure CallableDraft where
  name : Option String := none
  exportName : Option (Option String) := none
  parameters : Option (List Field) := none
  results : Option (List Field) := none

/-- Read one member of a function. -/
def CallableDraft.add (d : CallableDraft) (key : String) (v : α) :
    Except Mismatch CallableDraft := do
  match key with
  | "name" => return { d with name := ← fill d.name key (text v) }
  | "exportName" => return { d with exportName := ← fill d.exportName key (optionalText v) }
  | "parameters" => return { d with parameters := ← fill d.parameters key (listOf field v) }
  | "results" => return { d with results := ← fill d.results key (listOf field v) }
  | _ => return d

/-- Read a function. -/
def callable (v : α) : Except Mismatch Callable := do
  match ← record "struct FunctionDescriptor" v with
  | .named entries =>
    let d ← entries.foldlM (fun d (key, v) => do CallableDraft.add d (← key) v) {}
    return ⟨← required d.name "name", d.exportName.getD none, d.parameters.getD [],
      d.results.getD []⟩
  | .positional items =>
    let (name, rest) ← next items text
      (.error (.wrongLength 0 "struct FunctionDescriptor with 4 elements"))
    let (exportName, rest) ← next rest optionalText (.ok none)
    let (parameters, rest) ← next rest (listOf field) (.ok [])
    let (results, rest) ← next rest (listOf field) (.ok [])
    finish items.length rest ⟨name, exportName, parameters, results⟩

/-- What has been read of an export. -/
structure ExportDraft where
  name : Option String := none
  functions : Option (List Callable) := none

/-- Read one member of an export. -/
def ExportDraft.add (d : ExportDraft) (key : String) (v : α) : Except Mismatch ExportDraft := do
  match key with
  | "name" => return { d with name := ← fill d.name key (text v) }
  | "functions" => return { d with functions := ← fill d.functions key (listOf callable v) }
  | _ => return d

/-- Read an export. -/
def exported (v : α) : Except Mismatch Export := do
  match ← record "struct ComponentExport" v with
  | .named entries =>
    let d ← entries.foldlM (fun d (key, v) => do ExportDraft.add d (← key) v) {}
    return ⟨← required d.name "name", d.functions.getD []⟩
  | .positional items =>
    let (name, rest) ← next items text
      (.error (.wrongLength 0 "struct ComponentExport with 2 elements"))
    let (functions, rest) ← next rest (listOf callable) (.ok [])
    finish items.length rest ⟨name, functions⟩

/-- What has been read of a component. -/
structure ComponentDraft where
  id : Option String := none
  name : Option (Option String) := none
  version : Option (Option Nat) := none
  exports : Option (List Export) := none

/-- Read one member of a component. -/
def ComponentDraft.add (d : ComponentDraft) (key : String) (v : α) :
    Except Mismatch ComponentDraft := do
  match key with
  | "componentId" => return { d with id := ← fill d.id key (text v) }
  | "componentName" => return { d with name := ← fill d.name key (optionalText v) }
  | "version" => return { d with version := ← fill d.version key (optionalNatural v) }
  | "exports" => return { d with exports := ← fill d.exports key (listOf exported v) }
  | _ => return d

/-- Read a component. -/
def component (v : α) : Except Mismatch Component := do
  match ← record "struct ComponentMetadata" v with
  | .named entries =>
    let d ← entries.foldlM (fun d (key, v) => do ComponentDraft.add d (← key) v) {}
    return ⟨← required d.id "componentId", d.name.getD none, d.version.getD none,
      d.exports.getD []⟩
  | .positional items =>
    let (id, rest) ← next items text
      (.error (.wrongLength 0 "struct ComponentMetadata with 4 elements"))
    let (name, rest) ← next rest optionalText (.ok none)
    let (version, rest) ← next rest optionalNatural (.ok none)
    let (exports, rest) ← next rest (listOf exported) (.ok [])
    finish items.length rest ⟨id, name, version, exports⟩

end Source

/-! ## JSON as a source -/

namespace Json.Value

/-- Read a natural number. -/
def natural : Value → Except Mismatch Nat
  | number (.integer (.ofNat n)) => .ok n
  | number (.integer i) => .error (.wrongValue (.integer i) "u64")
  | v => .error (.wrongType v.found "u64")

/-- Read a list. -/
def items : Value → Except Mismatch (List Value)
  | array items => .ok items
  | v => .error (.wrongType v.found "a sequence")

/-- Read a record: an object, or an array of its members. -/
def record (expected : String) : Value → Except Mismatch (Record Value)
  | object members => .ok (.named (members.map fun (k, v) => (.ok k, v)))
  | array items => .ok (.positional items)
  | v => .error (.wrongType v.found expected)

/-- JSON writes nothing as null, and a record as an object or as an array. -/
instance : Source Value where
  text := text
  natural := natural
  present? := fun v => match v with
    | null => none
    | v => some v
  items := items
  record := record
  field := fieldOfJson

end Json.Value

end TypedCall
