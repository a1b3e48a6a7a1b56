import TypedCall.Yaml.Token
/-!
# The nodes of a YAML document

A document is a tree of scalars, sequences and mappings, which may have an anchor and a tag, and
of aliases for anchored nodes. `firstDocument?` reads the first document of a list of tokens and
says whether another one follows. The grammar decides on one token, or on whether a token is in
a set; an empty node stands wherever a node is due and none is written. Readers run on a fuel
taken from the number of tokens.
-/

namespace TypedCall.Yaml

/-- The anchor and the tag of a node, the handle of the tag resolved. -/
structure Properties where
  anchor : Option String := none
  tag : Option String := none
deriving Inhabited

/-- A node in which aliases refer to their targets by `Ref`: by a name as it is written, or by a
number when the names have been looked up. -/
inductive Node (Ref : Type) where
  | alias (target : Ref)
  | scalar (properties : Properties) (text : String) (plain : Bool)
  | sequence (properties : Properties) (items : List (Node Ref))
  | mapping (properties : Properties) (entries : List (Node Ref × Node Ref))

/-- The node that stands where nothing is written. -/
def Node.empty {Ref : Type} : Node Ref := .scalar {} "" true

instance {Ref : Type} : Inhabited (Node Ref) := ⟨.empty⟩

/-- A node as it is written. -/
abbrev WrittenNode := Node String

/-- The leads that the handles of a document stand for. -/
abbrev Handles := List (String × String)

/-- Does the list of tokens begin with one of these? At its end it has a fault. -/
def nextIn? (set : List Token) : List Token → Option Bool
  | [] => none
  | t :: _ => some (set.contains t)

/-- The tag of a handle and a suffix; an unknown handle is a fault. -/
def resolveTag? (handles : Handles) (handle suffix : String) : Option String :=
  if handle = "" then some suffix else (handles.lookup handle).map (· ++ suffix)

/-- Read the anchor and the tag of a node, in either order. -/
def readProperties? (handles : Handles) : List Token → Option (Properties × List Token)
  | .anchor a :: .tag h s :: rest => do
    return (⟨some a, some (← resolveTag? handles h s)⟩, rest)
  | .anchor a :: rest => some (⟨some a, none⟩, rest)
  | .tag h s :: .anchor a :: rest => do
    return (⟨some a, some (← resolveTag? handles h s)⟩, rest)
  | .tag h s :: rest => do return (⟨none, some (← resolveTag? handles h s)⟩, rest)
  | rest => some ({}, rest)

mutual

/-- Read a node. Block collections are allowed in a block only; as the value of a mapping a
sequence may stand without indentation of its own. -/
def readNode? (handles : Handles) (block indentless : Bool) :
    (fuel : Nat) → List Token → Option (WrittenNode × List Token)
  | 0, _ => none
  | fuel + 1, ts => do
    match ts with
    | .alias name :: rest => return (.alias name, rest)
    | _ =>
    let (p, ts) ← readProperties? handles ts
    match ts with
    | [] => none
    | .blockEntry :: _ =>
      if indentless then do
        let (items, rest) ← readIndentless? handles fuel ts
        return (.sequence p items, rest)
      else emptyNode? p ts
    | .scalar text plain :: rest =>
      return (.scalar (if p.tag = some "!" then { p with tag := none } else p) text plain, rest)
    | .flowSequenceStart :: rest => do
      let (items, rest) ← readFlowSequence? handles true fuel rest
      return (.sequence p items, rest)
    | .flowMappingStart :: rest => do
      let (entries, rest) ← readFlowMapping? handles true fuel rest
      return (.mapping p entries, rest)
    | .blockSequenceStart :: rest =>
      if block then do
        let (items, rest) ← readBlockSequence? handles fuel rest
        return (.sequence p items, rest)
      else emptyNode? p ts
    | .blockMappingStart :: rest =>
      if block then do
        let (entries, rest) ← readBlockMapping? handles fuel rest
        return (.mapping p entries, rest)
      else emptyNode? p ts
    | _ => emptyNode? p ts

/-- A node of properties only; without properties it is a fault. -/
def emptyNode? (p : Properties) (ts : List Token) : Option (WrittenNode × List Token) :=
  if p.anchor.isNone ∧ p.tag.isNone then none else some (.scalar p "" true, ts)

/-- Read a node unless the next token is one before which nothing is written. -/
def readOptional? (handles : Handles) (block indentless : Bool) (stops : List Token) :
    (fuel : Nat) → List Token → Option (WrittenNode × List Token)
  | 0, _ => none
  | fuel + 1, ts => do
    if ← nextIn? stops ts then return (.empty, ts)
    else readNode? handles block indentless fuel ts

/-- Read the entries of a block sequence and its end. -/
def readBlockSequence? (handles : Handles) :
    (fuel : Nat) → List Token → Option (List WrittenNode × List Token)
  | 0, _ => none
  | fuel + 1, ts =>
    match ts with
    | .blockEntry :: rest => do
      let (item, rest) ← readOptional? handles true false [.blockEntry, .blockEnd] fuel rest
      let (items, rest) ← readBlockSequence? handles fuel rest
      return (item :: items, rest)
    | .blockEnd :: rest => some ([], rest)
    | _ => none

/-- Read the entries of a sequence without indentation. -/
def readIndentless? (handles : Handles) :
    (fuel : Nat) → List Token → Option (List WrittenNode × List Token)
  | 0, _ => none
  | fuel + 1, ts =>
    match ts with
    | .blockEntry :: rest => do
      let (item, rest) ←
        readOptional? handles true false [.blockEntry, .key, .value, .blockEnd] fuel rest
      let (items, rest) ← readIndentless? handles fuel rest
      return (item :: items, rest)
    | [] => none
    | _ => some ([], ts)

/-- Read the entries of a block mapping and its end. -/
def readBlockMapping? (handles : Handles) :
    (fuel : Nat) → List Token → Option (List (WrittenNode × WrittenNode) × List Token)
  | 0, _ => none
  | fuel + 1, ts =>
    match ts with
    | .key :: rest => do
      let (key, rest) ← readOptional? handles true true [.key, .value, .blockEnd] fuel rest
      let (value, rest) ← match rest with
        | .value :: rest => readOptional? handles true true [.key, .value, .blockEnd] fuel rest
        | [] => none
        | _ => some (.empty, rest)
      let (entries, rest) ← readBlockMapping? handles fuel rest
      return ((key, value) :: entries, rest)
    | .blockEnd :: rest => some ([], rest)
    | _ => none

/-- Read the items of a flow sequence and its end. -/
def readFlowSequence? (handles : Handles) (first : Bool) :
    (fuel : Nat) → List Token → Option (List WrittenNode × List Token)
  | 0, _ => none
  | fuel + 1, ts => do
    match ts with
    | .flowSequenceEnd :: rest => return ([], rest)
    | _ =>
    let ts ← match first, ts with
      | true, ts => some ts
      | false, .flowEntry :: rest => some rest
      | false, _ => none
    match ts with
    | .flowSequenceEnd :: rest => return ([], rest)
    | .key :: rest => do
      let (item, rest) ← readSinglePair? handles fuel rest
      let (items, rest) ← readFlowSequence? handles false fuel rest
      return (item :: items, rest)
    | _ => do
      let (item, rest) ← readNode? handles false false fuel ts
      let (items, rest) ← readFlowSequence? handles false fuel rest
      return (item :: items, rest)

/-- Read a mapping of one entry inside a flow sequence. Where its key is empty, the token after
the key is passed over. -/
def readSinglePair? (handles : Handles) :
    (fuel : Nat) → List Token → Option (WrittenNode × List Token)
  | 0, _ => none
  | fuel + 1, ts => do
    let (key, rest) ←
      if ← nextIn? [.value, .flowEntry, .flowSequenceEnd] ts then some (.empty, ts.drop 1)
      else readNode? handles false false fuel ts
    let (value, rest) ← match rest with
      | .value :: rest =>
        readOptional? handles false false [.flowEntry, .flowSequenceEnd] fuel rest
      | [] => none
      | _ => some (.empty, rest)
    if rest.isEmpty then none else return (.mapping {} [(key, value)], rest)

/-- Read the entries of a flow mapping and its end. -/
def readFlowMapping? (handles : Handles) (first : Bool) :
    (fuel : Nat) → List Token → Option (List (WrittenNode × WrittenNode) × List Token)
  | 0, _ => none
  | fuel + 1, ts => do
    match ts with
    | .flowMappingEnd :: rest => return ([], rest)
    | _ =>
    let ts ← match first, ts with
      | true, ts => some ts
      | false, .flowEntry :: rest => some rest
      | false, _ => none
    match ts with
    | .flowMappingEnd :: rest => return ([], rest)
    | .key :: rest => do
      let (key, rest) ←
        readOptional? handles false false [.value, .flowEntry, .flowMappingEnd] fuel rest
      let (value, rest) ← match rest with
        | .value :: rest =>
          readOptional? handles false false [.flowEntry, .flowMappingEnd] fuel rest
        | [] => none
        | _ => some (.empty, rest)
      let (entries, rest) ← readFlowMapping? handles false fuel rest
      return ((key, value) :: entries, rest)
    | _ => do
      let (key, rest) ← readNode? handles false false fuel ts
      let (entries, rest) ← readFlowMapping? handles false fuel rest
      return ((key, .empty) :: entries, rest)

end

/-! ## Documents -/

/-- The handles of every document. -/
def standardHandles : Handles := [("!", "!"), ("!!", "tag:yaml.org,2002:")]

/-- Read the directives of a document. Versions 1.1 and 1.2 are known; no directive may stand
twice. -/
def readDirectives? (versioned : Bool) (handles : Handles) :
    List Token → Option (Handles × List Token)
  | .versionDirective major minor :: rest =>
    if versioned ∨ major ≠ 1 ∨ (minor ≠ 1 ∧ minor ≠ 2) then none
    else readDirectives? true handles rest
  | .tagDirective handle lead :: rest =>
    if (handles.lookup handle).isSome then none
    else readDirectives? versioned (handles ++ [(handle, lead)]) rest
  | rest => some (handles ++ standardHandles, rest)

/-- Read the content of a document after its start marker. -/
def readContent? (handles : Handles) (fuel : Nat) : List Token → Option (WrittenNode × List Token)
  | [] => none
  | t :: rest =>
    match t with
    | .versionDirective _ _ | .tagDirective _ _ | .documentStart | .documentEnd | .streamEnd =>
      some (.empty, t :: rest)
    | _ => readNode? handles true false fuel (t :: rest)

/-- Read the root of the first document. -/
def readRoot? (fuel : Nat) (ts : List Token) : Option (WrittenNode × List Token) := do
  match ts with
  | .versionDirective _ _ :: _ | .tagDirective _ _ :: _ | .documentStart :: _ =>
    let (handles, ts) ← readDirectives? false [] ts
    match ts with
    | .documentStart :: rest => readContent? handles fuel rest
    | _ => none
  | _ => readNode? standardHandles true false fuel ts

/-- The first document of a text. -/
structure FirstDocument where
  /-- The root, unless the text has no document. -/
  root : Option WrittenNode
  /-- Does anything but the end of the text follow the document? -/
  more : Bool

/-- Read the first document of a list of tokens. The token after the document must be there to
see where it ends. -/
def firstDocument? (ts : List Token) : Option FirstDocument :=
  match ts with
  | .streamEnd :: _ => some ⟨none, false⟩
  | _ => do
    let (root, rest) ← readRoot? (3 * ts.length + 3) ts
    if rest.isEmpty then none
    else
      let after := rest.dropWhile (· == .documentEnd)
      return ⟨some root, after.head? != some .streamEnd⟩

end TypedCall.Yaml
