import TypedCall.Descriptor.Skeleton
import TypedCall.Proofs.Descriptor.Writing
import Mathlib.Data.List.Induction

/-!
# Skeletons part by part

The parts of a descriptor are reached by steps: from a record to the type of the last field of a
name, from a tuple to the type at a position. The parts of a JSON value are its members and items.
Skeletons commute with steps (`part?_skeleton`), so whatever path is followed, a skeleton has a
value exactly where the descriptor has a part, and that value is the skeleton of the part
(`skeleton_at`). Nothing inside a list, an option or a variant is a part, and members that are kept
as written have no influence.
-/

namespace TypedCall

open Json (Value Members)

/-- A step from something to one of its parts. -/
inductive Descriptor.Step where
  | field (name : String)
  | position (index : Nat)
deriving DecidableEq

/-- The member or the item that a step leads to. -/
def Json.Value.part? : Value → Descriptor.Step → Option Value
  | .object members, .field name => Members.find? members name
  | .array items, .position i => items[i]?
  | _, _ => none

/-- The value at the end of a path. -/
def Json.Value.at? (v : Value) (path : List Descriptor.Step) : Option Value :=
  path.foldlM part? v

/-- The value that stands for a tag whose skeleton has no parts. -/
def Tag.plain? : Tag → Option Value
  | .scalar .str | .scalar .chr | .container .enum => some (.string "")
  | .scalar .bool => some (.bool false)
  | .scalar _ => some (.number (.integer 0))
  | .container .list => some (.array [])
  | .container .option | .compound .variant | .unknown _ => some .null
  | .compound .record | .compound .tuple => none

namespace Descriptor

/-- The descriptor that a step leads to. Of fields of the same name the last one counts. -/
def part? : Descriptor → Step → Option Descriptor
  | compound .record fields _, .field name =>
    (fields.reverse.find? (·.name == name)).map (·.typ)
  | compound .tuple fields _, .position i => fields[i]?.map (·.typ)
  | _, _ => none

/-- The descriptor at the end of a path. -/
def at? (d : Descriptor) (path : List Step) : Option Descriptor := path.foldlM part? d

/-- What is seen of a descriptor in its skeleton: the names of a record's fields, each at its first
place, the number of a tuple's, and otherwise the plain value of the tag. -/
def ShownBy : Descriptor → Value → Prop
  | compound .record fields _, v =>
    ∃ members, v = .object members ∧ Members.keys members = (fields.map (·.name)).eraseDups
  | compound .tuple fields _, v => ∃ items, v = .array items ∧ items.length = fields.length
  | d, v => d.kind.plain? = some v

mutual

/-- The descriptor without the members that are kept as written, at every level. -/
def bare : Descriptor → Descriptor
  | scalar type _ => scalar type []
  | container type _ => container type []
  | compound type fields _ => compound type (bareFields fields) []
  | unknown tag _ => unknown tag []

/-- The fields, each with its bare descriptor. -/
def bareFields : List (Named Descriptor) → List (Named Descriptor)
  | [] => []
  | ⟨name, typ⟩ :: rest => ⟨name, typ.bare⟩ :: bareFields rest

end

end Descriptor

/-! ## Keys in order of first occurrence -/

/-- Members inserted into none leave each key at its first place. -/
theorem Json.Members.keys_insertAll (more : Members) :
    (Members.insertAll [] more).keys = more.keys.eraseDups := by
  induction more using List.reverseRecOn with
  | nil => rfl
  | append_singleton more m ih =>
    obtain ⟨k, v⟩ := m
    have hstep : Members.insertAll [] (more ++ [(k, v)]) =
        (Members.insertAll [] more).insert k v := List.foldl_append ..
    have hkeys : Members.keys (more ++ [(k, v)]) = Members.keys more ++ [k] := List.map_append
    rw [hstep, Members.keys_insert, ih, hkeys, List.eraseDups_append]
    -- a key that is there keeps its place, on both sides
    by_cases hk : k ∈ Members.keys more
    · simp [hk, List.removeAll]
    · simp [hk, List.removeAll, List.eraseDups_cons]

namespace Descriptor

/-! ## Records and tuples -/

theorem skeletonItems_eq (fields : List Field) :
    skeletonItems fields = fields.map (·.typ.skeleton) := by
  induction fields with
  | nil => rfl
  | cons f fields ih =>
    rw [skeletonItems, ih, List.map_cons]

/-- The members of a record's skeleton are those of its fields, inserted one after the other. -/
theorem skeletonMembers_eq (before : Members) (fields : List Field) :
    skeletonMembers before fields =
      Members.insertAll before (fields.map fun f => (f.name, f.typ.skeleton)) := by
  induction fields generalizing before with
  | nil => rfl
  | cons f fields ih =>
    rw [skeletonMembers, ih, List.map_cons, Members.insertAll_cons]

/-- A member of a record's skeleton is the skeleton of a field. -/
theorem exists_of_mem_skeletonMembers {fields : List Field} {m : String × Value}
    (h : m ∈ skeletonMembers [] fields) : ∃ f ∈ fields, m = (f.name, f.typ.skeleton) := by
  rw [skeletonMembers_eq] at h
  obtain ⟨f, hf, rfl⟩ := List.mem_map.mp ((Members.mem_insertAll h).resolve_left (by simp))
  exact ⟨f, hf, rfl⟩

/-- The skeleton of a record repeats no key. -/
theorem nodup_keys_skeletonMembers (fields : List Field) :
    (skeletonMembers [] fields).keys.Nodup := by
  rw [skeletonMembers_eq]
  exact Members.nodup_keys_insertAll List.nodup_nil

/-- The skeleton of a record has the names of its fields, each at its first place. -/
theorem keys_skeletonMembers (fields : List Field) :
    (skeletonMembers [] fields).keys = (fields.map (·.name)).eraseDups := by
  rw [skeletonMembers_eq, Members.keys_insertAll, Members.keys, List.map_map]
  rfl

/-- Of fields of the same name the last one has its skeleton in the object. -/
theorem find?_skeletonMembers (fields : List Field) (name : String) :
    (skeletonMembers [] fields).find? name =
      (fields.reverse.find? (·.name == name)).map (·.typ.skeleton) := by
  rw [skeletonMembers_eq, Members.find?_insertAll, Members.find?_nil, Option.or_none,
    ← List.map_reverse]
  induction fields.reverse with
  | nil => rfl
  | cons f fields ih =>
    rw [List.map_cons, Members.find?_cons, List.find?_cons, ih]
    by_cases hf : f.name = name
    · rw [if_pos hf, beq_iff_eq.mpr hf]
      rfl
    · rw [if_neg hf, beq_eq_false_iff_ne.mpr hf]

/-! ## Following a path -/

/-- To go to a part and to take the skeleton can be done in either order. -/
theorem part?_skeleton (d : Descriptor) (s : Step) :
    d.skeleton.part? s = (d.part? s).map skeleton := by
  cases d with
  | scalar type extra => cases type <;> rfl
  | unknown tag extra => rfl
  | container type extra =>
    cases type with
    | list =>
      -- the skeleton is an empty array, so it has no part either
      cases s <;> rfl
    | option | enum => rfl
  | compound type fields extra =>
    cases type with
    | variant => rfl
    | record =>
      cases s with
      | position i => rfl
      | field name =>
        rw [skeleton, part?, Option.map_map]
        exact find?_skeletonMembers fields name
    | tuple =>
      cases s with
      | field name => rfl
      | position i =>
        rw [skeleton, part?, Option.map_map, skeletonItems_eq]
        exact List.getElem?_map

/-- Along any path, the skeleton leads to the skeletons of the parts. -/
theorem at?_skeleton (d : Descriptor) (path : List Step) :
    d.skeleton.at? path = (d.at? path).map skeleton := by
  induction path generalizing d with
  | nil => rfl
  | cons s path ih =>
    show (d.skeleton.part? s).bind (·.at? path) = ((d.part? s).bind (·.at? path)).map skeleton
    rw [part?_skeleton]
    cases d.part? s with
    | none => rfl
    | some part => exact ih part

/-- A skeleton shows what can be seen of its descriptor. -/
theorem shownBy_skeleton (d : Descriptor) : d.ShownBy d.skeleton := by
  cases d with
  | scalar type extra => cases type <;> rfl
  | container type extra => cases type <;> rfl
  | unknown tag extra => rfl
  | compound type fields extra =>
    cases type with
    | variant => rfl
    | record => exact ⟨_, rfl, keys_skeletonMembers fields⟩
    | tuple => exact ⟨_, rfl, by rw [skeletonItems_eq, List.length_map]⟩

/-! ## Members kept as written -/

theorem bareFields_eq (fields : List Field) :
    bareFields fields = fields.map fun f => ⟨f.name, f.typ.bare⟩ := by
  induction fields with
  | nil => rfl
  | cons f fields ih => rw [bareFields, ih, List.map_cons]

/-- Members kept as written do not change the skeleton. -/
theorem skeleton_bare (d : Descriptor) : d.bare.skeleton = d.skeleton := by
  induction d using induction with
  | scalar type extra => rfl
  | container type extra => rfl
  | unknown tag extra => rfl
  | compound type fields extra ih =>
    rw [bare, bareFields_eq]
    cases type with
    | variant => rfl
    | record =>
      rw [skeleton, skeleton, skeletonMembers_eq, skeletonMembers_eq, List.map_map]
      refine congrArg (fun ms => Value.object (Members.insertAll [] ms)) ?_
      exact List.map_congr_left fun f hf => congrArg (Prod.mk f.name) (ih f hf)
    | tuple =>
      rw [skeleton, skeleton, skeletonItems_eq, skeletonItems_eq, List.map_map]
      exact congrArg Value.array (List.map_congr_left ih)

/-! ## The skeleton of a descriptor -/

/-- **A skeleton mirrors its descriptor.** Whatever path is followed, the skeleton has a value at
its end exactly when the descriptor has a part there. The value is the skeleton of the part, which
shows the names of a record, the length of a tuple and the plain value of every other tag.
Descriptors that differ only in what they keep as written have the same skeleton. -/
theorem skeleton_at (d : Descriptor) (path : List Step) :
    (∀ v, d.skeleton.at? path = some v ↔
      ∃ part, d.at? path = some part ∧ v = part.skeleton ∧ part.ShownBy v) ∧
    ∀ e : Descriptor, e.bare = d.bare → e.skeleton = d.skeleton := by
  constructor
  · intro v
    rw [at?_skeleton, Option.map_eq_some_iff]
    refine exists_congr fun part => and_congr_right fun _ => ?_
    constructor
    · intro h
      exact ⟨h.symm, h ▸ part.shownBy_skeleton⟩
    · intro h
      exact h.1.symm
  · intro e he
    rw [← skeleton_bare, he, skeleton_bare]

/-- A record of two fields of one name inside a tuple: the last one is found, and what a list keeps
as written is neither a part nor of influence. -/
theorem skeleton_at_repeated :
    let pair (first : Members) : Descriptor := .compound .record
      [⟨"a", .container .list first⟩, ⟨"b", .scalar .bool []⟩, ⟨"a", .scalar .u8 []⟩] []
    let d (first : Members) : Descriptor := .compound .tuple [⟨"0", pair first⟩] []
    (d []).skeleton.at? [.position 0, .field "a"] = some (.number (.integer 0)) ∧
      (d [("inner", .null)]).skeleton = (d []).skeleton := by
  intro pair d
  have hat : (d []).at? [.position 0, .field "a"] = some (.scalar .u8 []) := rfl
  have hbare : (d [("inner", .null)]).bare = (d []).bare := rfl
  obtain ⟨hvalue, hextra⟩ := skeleton_at (d []) [.position 0, .field "a"]
  exact ⟨(hvalue _).mpr ⟨_, hat, rfl, rfl⟩, hextra _ hbare⟩

end Descriptor

end TypedCall
