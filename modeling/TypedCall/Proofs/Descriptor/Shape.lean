import TypedCall.Descriptor.Signature
import TypedCall.Proofs.Descriptor.Writing

/-!
# The shape of a descriptor

The shape is what a listing shows: the names of records and variants with the shapes of their types,
and the tag of everything else. Types of the same shape are listed alike (`signature_congr`).
-/

namespace TypedCall

namespace Descriptor

/-- What a listing shows of a descriptor. -/
inductive Shape where
  | plain (tag : Tag)
  | record (fields : List (Named Shape))
  | variant (cases : List (Named Shape))

mutual

/-- The shape of a descriptor. Only records and variants show their parts. -/
def shape : Descriptor → Shape
  | compound .record fields _ => .record (fieldShapes fields)
  | compound .variant cases _ => .variant (fieldShapes cases)
  | compound .tuple _ _ => .plain (.compound .tuple)
  | scalar type _ => .plain (.scalar type)
  | container type _ => .plain (.container type)
  | unknown tag _ => .plain (.unknown tag)

/-- The names of fields with the shapes of their types. -/
def fieldShapes : List (Named Descriptor) → List (Named Shape)
  | [] => []
  | ⟨name, typ⟩ :: rest => ⟨name, typ.shape⟩ :: fieldShapes rest

end

end Descriptor

/-- The name of a field with the shape of its type. -/
def Named.shape (f : Field) : Named Descriptor.Shape := ⟨f.name, f.typ.shape⟩

namespace Descriptor

theorem fieldShapes_eq (fields : List Field) : fieldShapes fields = fields.map (·.shape) := by
  induction fields with
  | nil => rfl
  | cons f fields ih => rw [fieldShapes, ih, List.map_cons, Named.shape]

/-! ## Listings show shapes -/

/-- Fields of the same shapes are listed alike, given that their types are. -/
theorem signatureFields_congr {fs gs : List Field}
    (ih : ∀ f ∈ fs, ∀ e : Descriptor, f.typ.shape = e.shape →
      f.typ.signatureChars = e.signatureChars)
    (h : fs.map (·.shape) = gs.map (·.shape)) : signatureFields fs = signatureFields gs := by
  induction fs generalizing gs with
  | nil =>
    obtain rfl : gs = [] := List.map_eq_nil_iff.mp h.symm
    rfl
  | cons f fs ihs =>
    obtain ⟨g, gs, rfl, hg, hgs⟩ := List.map_eq_cons_iff.mp h.symm
    obtain ⟨hname, htype⟩ := Named.mk.inj hg
    rw [signatureFields, signatureFields, ih f List.mem_cons_self g.typ htype.symm, hname,
      ihs (fun f hf => ih f (List.mem_cons_of_mem _ hf)) hgs.symm]

/-- A shape without parts is listed as its tag. -/
theorem signatureChars_of_plain {d : Descriptor} {tag : Tag} (h : d.shape = .plain tag) :
    d.signatureChars = tag.toString.toList := by
  cases d with
  | scalar type extra => cases h; rfl
  | container type extra => cases h; rfl
  | unknown tag extra => cases h; rfl
  | compound type fields extra =>
    cases type with
    | tuple => cases h; rfl
    | record => cases h
    | variant => cases h

/-- Only a record has the shape of one. -/
theorem exists_of_shape_record {d : Descriptor} {shapes : List (Named Shape)}
    (h : d.shape = .record shapes) :
    ∃ fields extra, d = .compound .record fields extra ∧ fields.map (·.shape) = shapes := by
  cases d with
  | scalar type extra => cases h
  | container type extra => cases h
  | unknown tag extra => cases h
  | compound type fields extra =>
    cases type with
    | record => exact ⟨fields, extra, rfl, fieldShapes_eq fields ▸ Shape.record.inj h⟩
    | tuple => cases h
    | variant => cases h

theorem exists_of_shape_variant {d : Descriptor} {shapes : List (Named Shape)}
    (h : d.shape = .variant shapes) :
    ∃ cases extra, d = .compound .variant cases extra ∧ cases.map (·.shape) = shapes := by
  cases d with
  | scalar type extra => cases h
  | container type extra => cases h
  | unknown tag extra => cases h
  | compound type fields extra =>
    cases type with
    | variant => exact ⟨fields, extra, rfl, fieldShapes_eq fields ▸ Shape.variant.inj h⟩
    | record => cases h
    | tuple => cases h

/-- A listing shows nothing but the shape. -/
theorem signatureChars_congr {d e : Descriptor} (h : d.shape = e.shape) :
    d.signatureChars = e.signatureChars := by
  -- a shape without parts is a tag, and the tag is the listing
  have hplain {d e : Descriptor} {tag : Tag} (hd : d.shape = .plain tag)
      (h : d.shape = e.shape) : d.signatureChars = e.signatureChars :=
    (signatureChars_of_plain hd).trans (signatureChars_of_plain (h ▸ hd)).symm
  induction d using induction generalizing e with
  | scalar type extra => exact hplain rfl h
  | container type extra => exact hplain rfl h
  | unknown tag extra => exact hplain rfl h
  | compound type fields extra ih =>
    have hfields {gs : List Field} (hgs : gs.map (·.shape) = fieldShapes fields) :
        signatureFields fields = signatureFields gs :=
      signatureFields_congr (fun f hf _ => ih f hf) (fieldShapes_eq fields ▸ hgs).symm
    cases type with
    | tuple => exact hplain rfl h
    | record =>
      obtain ⟨gs, extra', rfl, hgs⟩ := exists_of_shape_record h.symm
      rw [signatureChars, signatureChars, hfields hgs]
    | variant =>
      obtain ⟨gs, extra', rfl, hgs⟩ := exists_of_shape_variant h.symm
      rw [signatureChars, signatureChars, hfields hgs]

/-- Types of the same shape have the same listing. -/
theorem signature_congr {d e : Descriptor} (h : d.shape = e.shape) : d.signature = e.signature :=
  congrArg String.ofList (signatureChars_congr h)

end Descriptor

end TypedCall
