import TypedCall.Descriptor.Basic
/-!
# Skeletons

The skeleton of a descriptor is the value an editor starts from: the plainest value of its shape.
A record's skeleton has its field names as keys, a tuple's one item for each field. Descriptors
whose values have no plain default, variants and unknown tags among them, have the skeleton
`null`, so a tag of a later time does not stop the editor.
-/

namespace TypedCall

open Json (Value Members)

/-- The plainest value of a scalar. -/
def Scalar.skeleton : Scalar → Value
  | str | chr => .string ""
  | bool => .bool false
  | f64 | f32 | u64 | s64 | u32 | s32 | i32 | u16 | s16 | u8 | s8 => .number (.integer 0)

/-- The plainest value of a container. -/
def Container.skeleton : Container → Value
  | list => .array []
  | option => .null
  | enum => .string ""

namespace Descriptor

mutual

/-- The plainest value of the described shape. -/
def skeleton : Descriptor → Value
  | scalar type _ => type.skeleton
  | container type _ => type.skeleton
  | compound .record fields _ => .object (skeletonMembers [] fields)
  | compound .tuple fields _ => .array (skeletonItems fields)
  | compound .variant _ _ => .null
  | unknown _ _ => .null

/-- Insert the skeletons of record fields after the members given. -/
def skeletonMembers (before : Members) : List (Named Descriptor) → Members
  | [] => before
  | ⟨name, typ⟩ :: rest => skeletonMembers (before.insert name typ.skeleton) rest

/-- The skeletons of tuple fields. -/
def skeletonItems : List (Named Descriptor) → List Value
  | [] => []
  | ⟨_, typ⟩ :: rest => typ.skeleton :: skeletonItems rest

end

end Descriptor

end TypedCall
