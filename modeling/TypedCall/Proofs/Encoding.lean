import TypedCall.Proofs.Editor.Preparing
import Mathlib.Data.Nat.Find

/-!
# Encoding arguments

A parameter is an obstacle to a call when there is no argument in its place, or when its tag cannot
be encoded (`Obstacle`). The arguments of a call are encoded exactly when there is no obstacle, and
otherwise the first obstacle is reported, for what it is (`encodeArguments_eq_ok`,
`encodeArguments_of_first`). What is left over behind the parameters is not looked at. Encoding is
idempotent, for a list is not put into another list (`Descriptor.argument_argument`).
-/

namespace TypedCall

open Json (Value)

/-! ## One argument -/

/-- The items of a list; a value that is no list is its own only item. -/
def Json.Value.listed : Value → List Value
  | .array items => items
  | v => [v]

/-- The argument that is sent for a parameter: the value that is given, for a list as a list. -/
def Descriptor.argument (d : Descriptor) (v : Value) : Argument :=
  ⟨if d.kind = .container .list then .array v.listed else v, d⟩

theorem Json.Value.wrapped_eq (v : Value) : v.wrapped = .array v.listed := by
  cases v <;> rfl

namespace Descriptor

/-- What is encoded once is encoded as itself. -/
theorem argument_argument (d : Descriptor) (v : Value) :
    d.argument (d.argument v).value = d.argument v := by
  by_cases h : d.kind = .container .list
  · simp only [argument, if_pos h, Json.Value.listed]
  · simp only [argument, if_neg h]

/-- A value is encoded unless its type cannot be. -/
theorem encode_eq (d : Descriptor) (v : Value) :
    d.encode v = if d.kind ∈ Tag.encodable then .ok (d.argument v).value
      else .error (.unsupportedType d.tag) := by
  cases d with
  | scalar type extra => cases type <;> rfl
  | container type extra =>
    cases type with
    | list => exact congrArg Except.ok v.wrapped_eq
    | option | enum => rfl
  | compound type fields extra => cases type <;> rfl
  | unknown tag extra => rw [if_neg (by simp [kind, Tag.encodable])]; rfl

end Descriptor

/-! ## Obstacles -/

/-- The parameter `p` in the place `i` has no argument, or none that can be encoded. -/
def Obstacle (ps : List Field) (vs : List Value) (i : Nat) (p : Field) : Prop :=
  ps[i]? = some p ∧ (vs.length ≤ i ∨ p.typ.kind ∉ Tag.encodable)

/-- The parameter `p` in the place `i` is the first obstacle. -/
def FirstObstacle (ps : List Field) (vs : List Value) (i : Nat) (p : Field) : Prop :=
  Obstacle ps vs i p ∧ ∀ j < i, ∀ q, ¬ Obstacle ps vs j q

section Obstacles

variable {ps : List Field} {vs : List Value} {i : Nat} {p q : Field} {v : Value}

theorem obstacle_cons_zero :
    Obstacle (q :: ps) (v :: vs) 0 p ↔ q = p ∧ p.typ.kind ∉ Tag.encodable := by
  simp [Obstacle]

theorem obstacle_cons_succ :
    Obstacle (q :: ps) (v :: vs) (i + 1) p ↔ Obstacle ps vs i p := by
  simp [Obstacle]

/-- There is no obstacle, or a first one. -/
theorem exists_firstObstacle (ps : List Field) (vs : List Value) :
    (∀ i p, ¬ Obstacle ps vs i p) ∨ ∃ i p, FirstObstacle ps vs i p := by
  classical
  by_cases h : ∃ i p, Obstacle ps vs i p
  · right
    obtain ⟨p, hp⟩ := Nat.find_spec h
    exact ⟨Nat.find h, p, hp, fun j hj q hq => Nat.find_min h hj ⟨q, hq⟩⟩
  · exact .inl fun i p hp => h ⟨i, p, hp⟩

/-- Without an obstacle there is an argument for every parameter. -/
theorem length_le_of_not_obstacle (h : ∀ i p, ¬ Obstacle ps vs i p) : ps.length ≤ vs.length := by
  by_contra hlt
  have hi : vs.length < ps.length := by omega
  exact h vs.length ps[vs.length] ⟨List.getElem?_eq_getElem hi, .inl le_rfl⟩

end Obstacles

/-! ## The arguments of a call -/

/-- The arguments that are sent for parameters. -/
def sentFor (ps : List Field) (vs : List Value) : List Argument :=
  List.zipWith (fun p v => p.typ.argument v) ps vs

section Arguments

variable {ps : List Field} {vs : List Value} {index : Nat}

/-- Without an obstacle every argument is encoded. -/
theorem encodeArguments_of_not_obstacle (h : ∀ i p, ¬ Obstacle ps vs i p) :
    encodeArguments index ps vs = .ok (sentFor ps vs) := by
  induction ps generalizing vs index with
  | nil => rfl
  | cons p ps ih =>
    cases vs with
    | nil => exact absurd ⟨rfl, .inl le_rfl⟩ (h 0 p)
    | cons v vs =>
      have hp : p.typ.kind ∈ Tag.encodable := by
        by_contra hp
        exact h 0 p (obstacle_cons_zero.mpr ⟨rfl, hp⟩)
      have hps : ∀ i q, ¬ Obstacle ps vs i q :=
        fun i q hq => h (i + 1) q (obstacle_cons_succ.mpr hq)
      rw [encodeArguments, Descriptor.encode_eq, if_pos hp, ih hps]
      rfl

/-- The first obstacle is reported: an argument that is missing before a tag that is not encoded. -/
theorem encodeArguments_of_first {i : Nat} {p : Field} (h : FirstObstacle ps vs i p) :
    encodeArguments index ps vs = .error
      (if vs.length ≤ i then .missingArgument (index + i) p.name
        else .unsupportedType p.typ.tag) := by
  obtain ⟨hp, hbefore⟩ := h
  -- behind a parameter that is no obstacle, the rest has its first one a place earlier
  induction ps generalizing vs index i with
  | nil => simp [Obstacle] at hp
  | cons q ps ih =>
    cases vs with
    | nil =>
      -- the first parameter is an obstacle already
      have hi : i = 0 := by
        by_contra hi
        exact hbefore 0 (by omega) q ⟨rfl, .inl le_rfl⟩
      subst hi
      obtain rfl : q = p := Option.some.inj hp.1
      rfl
    | cons v vs =>
      cases i with
      | zero =>
        obtain ⟨rfl, hkind⟩ := obstacle_cons_zero.mp hp
        rw [encodeArguments, Descriptor.encode_eq, if_neg hkind]
        rfl
      | succ i =>
        have hq : q.typ.kind ∈ Tag.encodable := by
          by_contra hq
          exact hbefore 0 (by omega) q (obstacle_cons_zero.mpr ⟨rfl, hq⟩)
        have hrest : encodeArguments (index + 1) ps vs = .error
            (if vs.length ≤ i then .missingArgument (index + 1 + i) p.name
              else .unsupportedType p.typ.tag) :=
          ih (obstacle_cons_succ.mp hp) fun j hj r hr =>
            hbefore (j + 1) (by omega) r (obstacle_cons_succ.mpr hr)
        rw [encodeArguments, Descriptor.encode_eq, if_pos hq, hrest, List.length_cons]
        have hindex : index + 1 + i = index + (i + 1) := by omega
        simp only [Nat.add_le_add_iff_right, hindex]
        rfl

/-- Arguments are encoded when there is no obstacle, and only then. -/
theorem encodeArguments_eq_ok {arguments : List Argument} :
    encodeArguments index ps vs = .ok arguments ↔
      (∀ i p, ¬ Obstacle ps vs i p) ∧ arguments = sentFor ps vs := by
  constructor
  · intro h
    rcases exists_firstObstacle ps vs with hnone | ⟨i, p, hfirst⟩
    · rw [encodeArguments_of_not_obstacle hnone] at h
      exact ⟨hnone, (Except.ok.inj h).symm⟩
    · rw [encodeArguments_of_first hfirst] at h
      cases h
  · rintro ⟨hnone, rfl⟩
    exact encodeArguments_of_not_obstacle hnone

theorem length_sentFor (h : ps.length ≤ vs.length) : (sentFor ps vs).length = ps.length := by
  rw [sentFor, List.length_zipWith, Nat.min_eq_left h]

/-- The value of each parameter is sent at its place. -/
theorem getElem?_sentFor {i : Nat} {p : Field} {v : Value} (hp : ps[i]? = some p)
    (hv : vs[i]? = some v) : (sentFor ps vs)[i]? = some (p.typ.argument v) := by
  rw [sentFor, List.getElem?_zipWith, hp, hv]

/-- What has been sent is sent as it is. -/
theorem sentFor_values (ps : List Field) (vs : List Value) :
    sentFor ps ((sentFor ps vs).map (·.value)) = sentFor ps vs := by
  induction ps generalizing vs with
  | nil => rfl
  | cons p ps ih =>
    cases vs with
    | nil => rfl
    | cons v vs => exact congrArg₂ List.cons (p.typ.argument_argument v) (ih vs)

/-- Values that have been sent are no obstacle. -/
theorem encodeArguments_values {arguments : List Argument}
    (h : encodeArguments index ps vs = .ok arguments) :
    encodeArguments index ps (arguments.map (·.value)) = .ok arguments := by
  obtain ⟨hnone, rfl⟩ := encodeArguments_eq_ok.mp h
  refine encodeArguments_eq_ok.mpr ⟨fun i p hp => ?_, (sentFor_values ps vs).symm⟩
  obtain ⟨hget, hshort | hkind⟩ := hp
  · have hi : i < ps.length := (List.getElem?_eq_some_iff.mp hget).1
    rw [List.length_map, length_sentFor (length_le_of_not_obstacle hnone)] at hshort
    omega
  · exact hnone i p ⟨hget, .inr hkind⟩

end Arguments

/-! ## Documents -/

namespace Callable

/-- The arguments by position: those of an array, or a value that is no array for the only
parameter. -/
def positional? (f : Callable) : Value → Option (List Value)
  | .array values => some values
  | v => if f.parameters.length = 1 then some [v] else none

theorem encode_eq_ok {f : Callable} {values : List Value} {payload : Payload} :
    f.encode values = .ok payload ↔
      encodeArguments 0 f.parameters values = .ok payload.arguments := by
  rw [encode, Json.bind_pure_eq_ok]
  constructor
  · rintro ⟨arguments, harguments, rfl⟩
    exact harguments
  · intro h
    exact ⟨payload.arguments, h, rfl⟩

/-- A document that lists arguments is encoded as the list. -/
theorem encodeDocument_of_positional {f : Callable} {document : Value} {values : List Value}
    (h : f.positional? document = some values) : f.encodeDocument document = f.encode values := by
  cases document with
  | array items =>
    obtain rfl := Option.some.inj h
    rfl
  | _ =>
    simp only [positional?] at h
    split at h
    · next hone =>
      obtain rfl := Option.some.inj h
      exact if_pos hone
    · cases h

/-- Any other document fails, with the number of arguments that are expected. -/
theorem encodeDocument_of_not_positional {f : Callable} {document : Value}
    (h : f.positional? document = none) :
    f.encodeDocument document = .error (.notAnArgumentList f.parameters.length) := by
  cases document with
  | array items => cases h
  | _ =>
    simp only [positional?] at h
    split at h
    · cases h
    · next hone => exact if_neg hone

/-- **What a document is encoded to.** With its arguments by position, either every parameter has
one that can be encoded, and each is sent with the descriptor of its parameter, or the first
obstacle is reported; what is left over does not matter. A document without arguments by position
is no argument list. What has been encoded is encoded to itself. -/
theorem encodeDocument_complete (f : Callable) (document : Value) :
    (∀ values, f.positional? document = some values →
      ((∀ i p, ¬ Obstacle f.parameters values i p) → ∃ arguments : List Argument,
        f.encodeDocument document = .ok ⟨arguments⟩ ∧
          arguments.length = f.parameters.length ∧ f.parameters.length ≤ values.length ∧
          ∀ (i : Nat) (p : Field) (v : Value), f.parameters[i]? = some p → values[i]? = some v →
            arguments[i]? = some (p.typ.argument v)) ∧
      (∀ i p, FirstObstacle f.parameters values i p → f.encodeDocument document = .error
        (if values.length ≤ i then .missingArgument i p.name else .unsupportedType p.typ.tag)) ∧
      ∀ others, others.take f.parameters.length = values.take f.parameters.length →
        f.encodeDocument (.array others) = f.encodeDocument document) ∧
    (f.positional? document = none →
      f.encodeDocument document = .error (.notAnArgumentList f.parameters.length)) ∧
    ∀ payload, f.encodeDocument document = .ok payload →
      f.encodeDocument (.array (payload.arguments.map (·.value))) = .ok payload := by
  refine ⟨fun values hvalues => ?_, encodeDocument_of_not_positional, fun payload h => ?_⟩
  · rw [encodeDocument_of_positional hvalues]
    refine ⟨fun hnone => ?_, fun i p hfirst => ?_, fun others hothers => ?_⟩
    · have hlength := length_le_of_not_obstacle hnone
      exact ⟨sentFor f.parameters values, encode_eq_ok.mpr (encodeArguments_of_not_obstacle hnone),
        length_sentFor hlength, hlength, fun i p v => getElem?_sentFor⟩
    · rw [encode, encodeArguments_of_first hfirst, Nat.zero_add]
      rfl
    · rw [encodeDocument, encode, encode, encodeArguments_congr hothers]
  · cases hvalues : f.positional? document with
    | none =>
      rw [encodeDocument_of_not_positional hvalues] at h
      cases h
    | some values =>
      rw [encodeDocument_of_positional hvalues, encode_eq_ok] at h
      exact encode_eq_ok.mpr (encodeArguments_values h)

/-- A tag that is not encoded is reported before an argument that is missing behind it; a text for
a list is sent as a list, and then as it is. -/
theorem encodeDocument_complete_wrapped :
    let tags : Field := ⟨"tags", .container .list []⟩
    let mode : Field := ⟨"mode", .container .enum []⟩
    let payload : Payload := ⟨[⟨.array [.string "a"], tags.typ⟩]⟩
    (⟨"f", none, [tags, mode, mode], []⟩ : Callable).encodeDocument
        (.array [.string "a", .null]) = .error (.unsupportedType "Enum") ∧
      (⟨"f", none, [tags], []⟩ : Callable).encodeDocument (.string "a") = .ok payload ∧
      (⟨"f", none, [tags], []⟩ : Callable).encodeDocument (.array [.array [.string "a"]]) =
        .ok payload := by
  intro tags mode payload
  have hfirst : FirstObstacle [tags, mode, mode] [.string "a", .null] 1 mode := by
    refine ⟨⟨rfl, .inr (by decide)⟩, fun j hj q hq => ?_⟩
    obtain rfl : j = 0 := by omega
    obtain ⟨rfl, hkind⟩ := obstacle_cons_zero.mp hq
    exact hkind (by decide)
  have hwrapped : (⟨"f", none, [tags], []⟩ : Callable).encodeDocument (.string "a") =
      .ok payload := rfl
  exact ⟨((encodeDocument_complete _ (.array [.string "a", .null])).1 _ rfl).2.1 1 mode hfirst,
    hwrapped, (encodeDocument_complete _ (.string "a")).2.2 payload hwrapped⟩

end Callable

end TypedCall
