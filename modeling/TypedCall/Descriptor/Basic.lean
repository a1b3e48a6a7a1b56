import TypedCall.Json.Value
/-!
# Type descriptors

A descriptor says which values a parameter or a result takes. Its tag decides which members of
the written form it owns: a compound tag owns a list of named descriptors, all other tags own
none. Members that a tag does not own are kept in `extra` as they were written.
-/

namespace TypedCall

/-- Something with a name: a field of a record, a position of a tuple, a case of a variant, a
parameter or a result. -/
structure Named (α : Type) where
  name : String
  typ : α
deriving Inhabited

/-- Tags of values without inner structure. -/
inductive Scalar where
  | str | chr | bool
  | f64 | f32
  | u64 | s64 | u32 | s32 | i32 | u16 | s16 | u8 | s8
deriving DecidableEq

/-- Tags whose inner types, when given, stay among the members kept as written. -/
inductive Container where
  | list | option | enum
deriving DecidableEq

/-- Tags that own a list of named descriptors. -/
inductive Compound where
  | record | tuple | variant
deriving DecidableEq

/-- The type of a parameter or a result. -/
inductive Descriptor where
  | scalar (type : Scalar) (extra : Json.Members)
  | container (type : Container) (extra : Json.Members)
  | compound (type : Compound) (fields : List (Named Descriptor)) (extra : Json.Members)
  | unknown (tag : String) (extra : Json.Members)
deriving Inhabited

/-- A named descriptor. -/
abbrev Field := Named Descriptor

/-- The written tag. -/
def Scalar.tag : Scalar → String
  | str => "Str"
  | chr => "Chr"
  | bool => "Bool"
  | f64 => "F64"
  | f32 => "F32"
  | u64 => "U64"
  | s64 => "S64"
  | u32 => "U32"
  | s32 => "S32"
  | i32 => "I32"
  | u16 => "U16"
  | s16 => "S16"
  | u8 => "U8"
  | s8 => "S8"

/-- Every scalar tag. -/
def Scalar.all : List Scalar :=
  [str, chr, bool, f64, f32, u64, s64, u32, s32, i32, u16, s16, u8, s8]

/-- The written tag. -/
def Container.tag : Container → String
  | list => "List"
  | option => "Option"
  | enum => "Enum"

/-- Every container tag. -/
def Container.all : List Container := [list, option, enum]

/-- The written tag. -/
def Compound.tag : Compound → String
  | record => "Record"
  | tuple => "Tuple"
  | variant => "Variant"

/-- Every compound tag. -/
def Compound.all : List Compound := [record, tuple, variant]

/-- The member under which the named descriptors are written. -/
def Compound.ownKey : Compound → String
  | record | tuple => "fields"
  | variant => "cases"

/-- What a tag says about a descriptor. -/
inductive Tag where
  | scalar (type : Scalar)
  | container (type : Container)
  | compound (type : Compound)
  | unknown (tag : String)
deriving DecidableEq

/-- The kind of descriptor that a written tag announces. -/
def Tag.ofString (tag : String) : Tag :=
  match Scalar.all.find? (·.tag == tag) with
  | some s => .scalar s
  | none => match Container.all.find? (·.tag == tag) with
    | some c => .container c
    | none => match Compound.all.find? (·.tag == tag) with
      | some c => .compound c
      | none => .unknown tag

/-- The written tag. -/
def Tag.toString : Tag → String
  | scalar s => s.tag
  | container c => c.tag
  | compound c => c.tag
  | unknown tag => tag

namespace Descriptor

/-- The tag together with its kind. -/
def kind : Descriptor → Tag
  | scalar s _ => .scalar s
  | container c _ => .container c
  | compound c _ _ => .compound c
  | unknown tag _ => .unknown tag

/-- The written tag. -/
def tag (d : Descriptor) : String := d.kind.toString

/-- The members kept as written. -/
def extra : Descriptor → Json.Members
  | scalar _ extra | container _ extra | compound _ _ extra | unknown _ extra => extra

/-- The named descriptors of a compound. -/
def fields? : Descriptor → Option (List Field)
  | compound _ fields _ => some fields
  | _ => none

/-- Keep a member as written: in place when its key is kept already, at the end otherwise. -/
def withExtra (d : Descriptor) (key : String) (value : Json.Value) : Descriptor :=
  match d with
  | scalar s extra => scalar s (extra.insert key value)
  | container c extra => container c (extra.insert key value)
  | compound c fields extra => compound c fields (extra.insert key value)
  | unknown tag extra => unknown tag (extra.insert key value)

mutual

/-- Equality that takes no notice of the order of the members kept as written. -/
def same : Descriptor → Descriptor → Bool
  | scalar s e, scalar t f => s == t && Json.Value.same (.object e) (.object f)
  | container s e, container t f => s == t && Json.Value.same (.object e) (.object f)
  | compound s as e, compound t bs f =>
    s == t && sameFields as bs && Json.Value.same (.object e) (.object f)
  | unknown s e, unknown t f => s == t && Json.Value.same (.object e) (.object f)
  | _, _ => false

/-- Pairwise equality of names and descriptors. -/
def sameFields : List (Named Descriptor) → List (Named Descriptor) → Bool
  | [], [] => true
  | ⟨m, a⟩ :: as, ⟨n, b⟩ :: bs => m == n && a.same b && sameFields as bs
  | _, _ => false

end

end Descriptor

end TypedCall
