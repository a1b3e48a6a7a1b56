import TypedCall.Yaml.Node
import TypedCall.Yaml.Resolution
/-!
# Reading YAML

`Value.parse` reads the one document of a text. Each anchor is numbered by how many names have
been given before it, an alias stands for the node that was given its number last, and a mapping
must not repeat a key. Sequences and mappings may stand 128 deep in each other, and aliases may
be followed a hundred times for every event of the document: a node that contains itself or
multiplies without end is refused by one of the two limits.
-/

namespace TypedCall.Yaml

/-- Why a text is not a YAML document. -/
inductive ReadError where
  | malformed
  | tooManyAliases
  | manyDocuments
deriving DecidableEq

/-- The wording of an error that has no place in the text. -/
def ReadError.message? : ReadError → Option String
  | malformed => none
  | tooManyAliases => some "repetition limit exceeded"
  | manyDocuments =>
    some "deserializing from YAML containing more than one document is not supported"

/-! ## Looking up aliases -/

/-- A node whose aliases are numbers. -/
abbrev LinkedNode := Node Nat

/-- The names given so far, with the number of each. -/
abbrev Names := List (String × Nat)

/-- Number an anchor. A name given again takes a new number, which counts each name once. -/
def Names.give (names : Names) : Option String → Names
  | none => names
  | some name => (name, names.length) :: names.filter (·.1 != name)

/-- The entry of an anchored node in the table of targets. -/
def target (names : Names) (anchor : Option String) (node : LinkedNode) :
    List (Nat × LinkedNode) :=
  match anchor with
  | none => []
  | some name => ((names.lookup name).map fun n => (n, node)).toList

/-- Nodes with numbered aliases, the names given up to their end, and the targets among them in
the order in which they begin. -/
abbrev Linked (α : Type) := α × Names × List (Nat × LinkedNode)

mutual

/-- Number the aliases of a node. An alias of a name not given before is a fault. -/
def Node.link? (names : Names) : WrittenNode → Option (Linked LinkedNode)
  | .alias name => (names.lookup name).map fun n => (.alias n, names, [])
  | .scalar p text plain =>
    let given := names.give p.anchor
    some (.scalar p text plain, given, target given p.anchor (.scalar p text plain))
  | .sequence p items => do
    let given := names.give p.anchor
    let (items, names, targets) ← linkItems? given items
    return (.sequence p items, names, target given p.anchor (.sequence p items) ++ targets)
  | .mapping p entries => do
    let given := names.give p.anchor
    let (entries, names, targets) ← linkEntries? given entries
    return (.mapping p entries, names, target given p.anchor (.mapping p entries) ++ targets)

/-- Number the aliases of items. -/
def linkItems? (names : Names) : List WrittenNode → Option (Linked (List LinkedNode))
  | [] => some ([], names, [])
  | item :: rest => do
    let (item, names, targets) ← item.link? names
    let (rest, names, more) ← linkItems? names rest
    return (item :: rest, names, targets ++ more)

/-- Number the aliases of entries. -/
def linkEntries? (names : Names) :
    List (WrittenNode × WrittenNode) → Option (Linked (List (LinkedNode × LinkedNode)))
  | [] => some ([], names, [])
  | (key, value) :: rest => do
    let (key, names, inKey) ← key.link? names
    let (value, names, inValue) ← value.link? names
    let (rest, names, more) ← linkEntries? names rest
    return ((key, value) :: rest, names, inKey ++ inValue ++ more)

end

mutual

/-- How many events a node makes: one for a scalar or an alias, a start and an end otherwise. -/
def Node.events {Ref : Type} : Node Ref → Nat
  | .alias _ => 1
  | .scalar _ _ _ => 1
  | .sequence _ items => itemEvents items + 2
  | .mapping _ entries => entryEvents entries + 2

/-- The events of items. -/
def itemEvents {Ref : Type} : List (Node Ref) → Nat
  | [] => 0
  | item :: rest => item.events + itemEvents rest

/-- The events of entries. -/
def entryEvents {Ref : Type} : List (Node Ref × Node Ref) → Nat
  | [] => 0
  | (key, value) :: rest => key.events + value.events + entryEvents rest

end

/-! ## Values of nodes -/

/-- A result together with how many aliases may still be followed. -/
abbrev Budgeted := StateT Nat (Except ReadError)

/-- The node that an alias stands for; any other node is itself. -/
def follow (targets : List (Nat × LinkedNode)) (node : LinkedNode) : Budgeted LinkedNode :=
  match node with
  | .alias n => do
    match ← get with
    | 0 => throw .tooManyAliases
    | left + 1 =>
      set left
      match targets.reverse.lookup n with
      | some node => return node
      | none => throw .malformed
  | node => return node

/-- The name under which a tag marks a value: that of a local tag without its first mark. -/
def localName? (tag : Option String) : Option String :=
  match tag.map String.toList with
  | some ('!' :: '!' :: c :: rest) => some (String.ofList (c :: rest))
  | some ('!' :: c :: rest) => some (String.ofList (c :: rest))
  | some ['!'] => some "!"
  | _ => none

/-- The value of a scalar, local tags left out of account. -/
def scalarValue (tag : Option String) (text : String) (plain : Bool) : Budgeted Value :=
  let value := match tag, localName? tag with
    | some tag, none => typedValue? tag text.toList
    | _, _ => if plain then plainValue? text.toList else some (.string text)
  match value with
  | some v => return v
  | none => throw .malformed

/-- Read entries, given how a node is read; a key must not be there already. -/
def readEntries (read : LinkedNode → Budgeted Value) (before : List (Value × Value)) :
    List (LinkedNode × LinkedNode) → Budgeted (List (Value × Value))
  | [] => return before
  | (key, value) :: rest => do
    let k ← read key
    if before.any fun (l, _) => l.same k then throw .malformed
    else readEntries read (before ++ [(k, ← read value)]) rest

/-- Put a value under the local tag of its node. -/
def tagAs (tag : Option String) (v : Value) : Value :=
  match localName? tag with
  | some name => .tagged name v
  | none => v

/-- The value of a node inside which `depth` more collections may stand in each other. -/
def Node.value (targets : List (Nat × LinkedNode)) (depth : Nat) (node : LinkedNode) :
    Budgeted Value := do
  match ← follow targets node with
  | .alias _ => throw .malformed
  | .scalar p text plain => return tagAs p.tag (← scalarValue p.tag text plain)
  | .sequence p items =>
    match depth with
    | 0 => throw .malformed
    | depth + 1 =>
      return tagAs p.tag (.sequence (← items.mapM (Node.value targets depth)))
  | .mapping p entries =>
    match depth with
    | 0 => throw .malformed
    | depth + 1 =>
      return tagAs p.tag (.mapping (← readEntries (Node.value targets depth) [] entries))

/-- The value of the root of a document. -/
def rootValue (root : WrittenNode) : Except ReadError Value :=
  match root.link? [] with
  | none => .error .malformed
  | some (node, _, targets) =>
    match (node.value targets 128).run (node.events * 100) with
    | .ok (v, _) => .ok v
    | .error e => .error e

/-- The value of the document in a text. A text without a document has the value null. -/
def Value.parse (text : String) : Except ReadError Value :=
  match firstDocument? (tokens text.toList) with
  | none => .error .malformed
  | some ⟨none, _⟩ => .ok .null
  | some ⟨some root, more⟩ => do
    let v ← rootValue root
    if more then .error .manyDocuments else .ok v

end TypedCall.Yaml
