import TypedCall.Decimal.Binary64
/-!
# YAML values

Values of YAML documents: as in JSON, with infinities and NaN among the numbers, any value as the
key of a mapping, and values under a tag. Keys of one mapping are distinct, where equality takes
no notice of the order of entries.
-/

namespace TypedCall.Yaml

/-- A value. -/
inductive Value where
  | null
  | bool (b : Bool)
  | integer (i : Int)
  | double (x : Float64)
  | string (s : String)
  | sequence (items : List Value)
  | mapping (entries : List (Value × Value))
  | tagged (tag : String) (value : Value)
deriving Inhabited

namespace Value

mutual

/-- Equality that takes no notice of the order of entries and of the sign of zero. -/
def same : Value → Value → Bool
  | null, null => true
  | bool a, bool b => a == b
  | integer i, integer j => i == j
  | double x, double y => x.sameNumber y
  | string a, string b => a == b
  | sequence as, sequence bs => sameItems as bs
  | mapping as, mapping bs => as.length == bs.length && sameEntries as bs
  | tagged s a, tagged t b => s == t && a.same b
  | _, _ => false

/-- Pairwise equality of two lists. -/
def sameItems : List Value → List Value → Bool
  | [], [] => true
  | a :: as, b :: bs => a.same b && sameItems as bs
  | _, _ => false

/-- Is an equal entry among `bs` for every entry of the list? -/
def sameEntries : List (Value × Value) → List (Value × Value) → Bool
  | [], _ => true
  | (k, v) :: as, bs => bs.any (fun (l, w) => k.same l && v.same w) && sameEntries as bs

end

/-- The value without the tags around it. -/
def untagged : Value → Value
  | tagged _ v => v.untagged
  | v => v

mutual

/-- Does a tag stand anywhere in the value? -/
def hasTag : Value → Bool
  | tagged _ _ => true
  | sequence items => anyTag items
  | mapping entries => anyEntryTag entries
  | _ => false

/-- Does a tag stand anywhere in the items? -/
def anyTag : List Value → Bool
  | [] => false
  | v :: vs => v.hasTag || anyTag vs

/-- Does a tag stand anywhere in the entries? -/
def anyEntryTag : List (Value × Value) → Bool
  | [] => false
  | (k, v) :: rest => k.hasTag || v.hasTag || anyEntryTag rest

end

end Value

end TypedCall.Yaml
