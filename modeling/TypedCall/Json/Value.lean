import TypedCall.Decimal.Binary64
/-!
# JSON values

Numbers are integers or finite binary64 numbers; the two never compare equal. An object is the
list of its members in the order in which they are written. A document read from text never
repeats a key inside one object (`Value.WellFormed`): `Members.insert` keeps the first position
of a key and the last value given for it. A list of members that does repeat keys can still be
written, and `Value.merged` says which object it stands for.
-/

namespace TypedCall.Json

/-- A number of a JSON document. -/
inductive Number where
  | integer (i : Int)
  | double (x : Binary64)
deriving DecidableEq, Inhabited

/-- A JSON value. -/
inductive Value where
  | null
  | bool (b : Bool)
  | number (n : Number)
  | string (s : String)
  | array (items : List Value)
  | object (members : List (String × Value))
deriving Inhabited

/-- The members of an object, in written order. -/
abbrev Members := List (String × Value)

namespace Members

/-- Give `key` the value: in place when the key is present, at the end otherwise. -/
def insert (members : Members) (key : String) (value : Value) : Members :=
  match members with
  | [] => [(key, value)]
  | (k, v) :: rest => if k = key then (k, value) :: rest else (k, v) :: insert rest key value

/-- The value of a key. -/
def find? (members : Members) (key : String) : Option Value :=
  match members with
  | [] => none
  | (k, v) :: rest => if k = key then some v else find? rest key

/-- Insert members one after the other. -/
def insertAll (members more : Members) : Members :=
  more.foldl (fun ms (k, v) => ms.insert k v) members

/-- Members without those of the given keys. -/
def without (members : Members) (keys : List String) : Members :=
  members.filter fun (k, _) => !keys.contains k

/-- The keys, in order. -/
def keys (members : Members) : List String := members.map (·.1)

end Members

namespace Number

/-- Numeric equality of two numbers of the same kind. -/
def same : Number → Number → Bool
  | integer i, integer j => i == j
  | double x, double y => x.sameNumber y
  | _, _ => false

end Number

namespace Value

/-- The value of a member when the value is an object that has it. -/
def member? (v : Value) (key : String) : Option Value :=
  match v with
  | object members => Members.find? members key
  | _ => none

mutual

/-- Equality that takes no notice of the order of members and of the sign of zero. -/
def same : Value → Value → Bool
  | null, null => true
  | bool a, bool b => a == b
  | number a, number b => a.same b
  | string a, string b => a == b
  | array as, array bs => sameItems as bs
  | object as, object bs => as.length == bs.length && sameMembers as bs
  | _, _ => false

/-- Pairwise equality of two lists. -/
def sameItems : List Value → List Value → Bool
  | [], [] => true
  | a :: as, b :: bs => a.same b && sameItems as bs
  | _, _ => false

/-- Does `bs` give every member of the list an equal value? -/
def sameMembers : List (String × Value) → List (String × Value) → Bool
  | [], _ => true
  | (k, a) :: as, bs =>
    (match Members.find? bs k with
     | some b => a.same b
     | none => false) && sameMembers as bs

end

mutual

/-- The value that written members stand for: a repeated key keeps its first position and takes
its last value, at every level. -/
def merged : Value → Value
  | array items => array (mergedItems items)
  | object members => object (mergedMembers [] members)
  | v => v

/-- Merge every item of a list. -/
def mergedItems : List Value → List Value
  | [] => []
  | v :: vs => v.merged :: mergedItems vs

/-- Insert the merged members of a list after those of `before`. -/
def mergedMembers (before : Members) : List (String × Value) → Members
  | [] => before
  | (k, v) :: rest => mergedMembers (before.insert k v.merged) rest

end

mutual

/-- No object inside the value repeats a key. -/
def WellFormed : Value → Prop
  | array items => WellFormedItems items
  | object members => (Members.keys members).Nodup ∧ WellFormedMembers members
  | _ => True

/-- Every item of the list is well formed. -/
def WellFormedItems : List Value → Prop
  | [] => True
  | v :: vs => v.WellFormed ∧ WellFormedItems vs

/-- Every value of the members is well formed. -/
def WellFormedMembers : List (String × Value) → Prop
  | [] => True
  | (_, v) :: rest => v.WellFormed ∧ WellFormedMembers rest

end

mutual

/-- How many arrays and objects stand inside each other. -/
def depth : Value → Nat
  | array items => depthItems items + 1
  | object members => depthMembers members + 1
  | _ => 0

/-- The greatest depth in a list. -/
def depthItems : List Value → Nat
  | [] => 0
  | v :: vs => max v.depth (depthItems vs)

/-- The greatest depth among members. -/
def depthMembers : List (String × Value) → Nat
  | [] => 0
  | (_, v) :: rest => max v.depth (depthMembers rest)

end

end Value

end TypedCall.Json
