import TypedCall.Payload
import TypedCall.Proofs.Component.Reading
import TypedCall.Proofs.Descriptor.Rereading

/-!
# The round trip of components and payloads

Whatever was read is read back exactly from its written form: `component_toJson`,
`callable_toJson`, `Payload.ofJson_toJson`. The proofs go from the inside out. The parts of a record
that was read were themselves read of values that repeat no key, whether the record was an object or
an array; for an object this is kept from member to member by the parts read so far (`Known`). So
the parts are read back, and with them the record, which is always written as an object.
-/

namespace TypedCall

open Json (Value bind_eq_ok bind_pure_eq_ok)

/-- What is read of the value is read back from its written form, and written as it was. -/
def Rereads {α : Type} (reading : Value → Except Mismatch α) (write : α → Value) (v : Value) :
    Prop :=
  ∀ a, reading v = .ok a →
    reading (write a) = .ok a ∧ (reading (write a)).map write = .ok (write a)

/-- A reader is judged by what it makes of values that repeat no key. -/
theorem rereads_of_readOf {α : Type} {reading : Value → Except Mismatch α} {write : α → Value}
    {v : Value} (hw : v.WellFormed) (h : ∀ a, ReadOf reading a → reading (write a) = .ok a) :
    Rereads reading write v := by
  intro a ha
  have hread := h a ⟨v, hw, ha⟩
  exact ⟨hread, by rw [hread]; rfl⟩

/-! ## Fields -/

/-- A field that was read is read back. -/
theorem fieldOfJson_writtenBy {f : Field} (h : ReadOf fieldOfJson f) :
    fieldOfJson (f.writtenBy Descriptor.toJson) = .ok f := by
  obtain ⟨v, hw, hv⟩ := h
  exact (Descriptor.readsAs_toJson hw).field f hv

/-! ## Functions -/

/-- The parameters and results of a draft were read of values that repeat no key. -/
def Source.CallableDraft.Known (d : CallableDraft) : Prop :=
  (∀ p ∈ d.parameters.getD [], ReadOf fieldOfJson p) ∧ ∀ p ∈ d.results.getD [], ReadOf fieldOfJson p

/-- Each member of a function keeps what is known of the draft. -/
theorem Source.CallableDraft.Known.add {d e : CallableDraft} {key : String} {v : Value}
    (hw : v.WellFormed) (hd : d.Known) (h : d.add key v = .ok e) : e.Known := by
  unfold CallableDraft.add at h
  split at h
  · obtain ⟨out, -, rfl⟩ := bind_pure_eq_ok.mp h
    exact hd
  · obtain ⟨out, -, rfl⟩ := bind_pure_eq_ok.mp h
    exact hd
  · obtain ⟨out, hout, rfl⟩ := bind_pure_eq_ok.mp h
    exact ⟨readOf_of_fill hw hout, hd.2⟩
  · obtain ⟨out, hout, rfl⟩ := bind_pure_eq_ok.mp h
    exact ⟨hd.1, readOf_of_fill hw hout⟩
  · obtain rfl := Except.ok.inj h
    exact hd

/-- The parameters and results of a function were read of values that repeat no key. -/
theorem readOf_parts_callable {v : Value} (hw : v.WellFormed) {f : Callable}
    (h : Source.callable v = .ok f) :
    (∀ p ∈ f.parameters, ReadOf fieldOfJson p) ∧ ∀ p ∈ f.results, ReadOf fieldOfJson p := by
  obtain ⟨r, hr, h⟩ := bind_eq_ok.mp h
  have hvalues := wellFormed_of_record hw hr
  cases r with
  | named entries =>
    obtain ⟨d, hd, h⟩ := bind_eq_ok.mp h
    obtain ⟨name, -, rfl⟩ := bind_pure_eq_ok.mp h
    have hinit : Source.CallableDraft.Known {} := ⟨nofun, nofun⟩
    have hknown : d.Known :=
      entries_induction (fun _ _ _ _ hw hd h => hd.add hw h) hvalues hinit hd
    exact hknown
  -- what is left of the array repeats no key either
  | positional items =>
    obtain ⟨⟨name, rest⟩, h₁, h⟩ := bind_eq_ok.mp h
    have hrest := wellFormed_of_next hvalues h₁
    obtain ⟨⟨exportName, rest⟩, h₂, h⟩ := bind_eq_ok.mp h
    have hrest := wellFormed_of_next hrest h₂
    obtain ⟨⟨parameters, rest⟩, h₃, h⟩ := bind_eq_ok.mp h
    obtain ⟨⟨results, rest⟩, h₄, h⟩ := bind_eq_ok.mp h
    obtain ⟨-, rfl⟩ := Source.finish_eq_ok.mp h
    exact ⟨readOf_of_next hrest h₃, readOf_of_next (wellFormed_of_next hrest h₃) h₄⟩

/-- A function that was read is read back. -/
theorem callable_toJson {f : Callable} (h : ReadOf Source.callable f) :
    Source.callable f.toJson = .ok f := by
  obtain ⟨v, hw, hv⟩ := h
  obtain ⟨hparameters, hresults⟩ := readOf_parts_callable hw hv
  have hp : Source.listOf Source.field _ = _ :=
    listOf_map fun p hp => fieldOfJson_writtenBy (hparameters p hp)
  have hr : Source.listOf Source.field _ = _ :=
    listOf_map fun p hp => fieldOfJson_writtenBy (hresults p hp)
  obtain ⟨name, exportName, parameters, results⟩ := f
  rw [Callable.toJson, Callable.writtenBy]
  -- the export is written only when it is known, and is unknown when it is not written
  cases exportName <;> simp [Source.callable, Source.CallableDraft.add, hp, hr]

/-! ## Exports -/

/-- The functions of a draft were read of values that repeat no key. -/
def Source.ExportDraft.Known (d : ExportDraft) : Prop :=
  ∀ f ∈ d.functions.getD [], ReadOf Source.callable f

theorem Source.ExportDraft.Known.add {d e : ExportDraft} {key : String} {v : Value}
    (hw : v.WellFormed) (hd : d.Known) (h : d.add key v = .ok e) : e.Known := by
  unfold ExportDraft.add at h
  split at h
  · obtain ⟨out, -, rfl⟩ := bind_pure_eq_ok.mp h
    exact hd
  · obtain ⟨out, hout, rfl⟩ := bind_pure_eq_ok.mp h
    exact readOf_of_fill hw hout
  · obtain rfl := Except.ok.inj h
    exact hd

/-- The functions of an export were read of values that repeat no key. -/
theorem readOf_parts_exported {v : Value} (hw : v.WellFormed) {e : Export}
    (h : Source.exported v = .ok e) : ∀ f ∈ e.functions, ReadOf Source.callable f := by
  obtain ⟨r, hr, h⟩ := bind_eq_ok.mp h
  have hvalues := wellFormed_of_record hw hr
  cases r with
  | named entries =>
    obtain ⟨d, hd, h⟩ := bind_eq_ok.mp h
    obtain ⟨name, -, rfl⟩ := bind_pure_eq_ok.mp h
    have hinit : Source.ExportDraft.Known {} := nofun
    have hknown : d.Known :=
      entries_induction (fun _ _ _ _ hw hd h => hd.add hw h) hvalues hinit hd
    exact hknown
  | positional items =>
    obtain ⟨⟨name, rest⟩, h₁, h⟩ := bind_eq_ok.mp h
    obtain ⟨⟨functions, rest⟩, h₂, h⟩ := bind_eq_ok.mp h
    obtain ⟨-, rfl⟩ := Source.finish_eq_ok.mp h
    exact readOf_of_next (wellFormed_of_next hvalues h₁) h₂

/-- An export that was read is read back. -/
theorem exported_writtenBy {e : Export} (h : ReadOf Source.exported e) :
    Source.exported (e.writtenBy Descriptor.toJson) = .ok e := by
  obtain ⟨v, hw, hv⟩ := h
  have hf : Source.listOf Source.callable
      (Value.array (e.functions.map fun f => f.writtenBy Descriptor.toJson)) = .ok e.functions :=
    listOf_map fun f hf => callable_toJson (readOf_parts_exported hw hv f hf)
  rw [Export.writtenBy]
  simp [Source.exported, Source.ExportDraft.add, hf]

/-! ## Components -/

/-- The exports of a draft were read of values that repeat no key. -/
def Source.ComponentDraft.Known (d : ComponentDraft) : Prop :=
  ∀ e ∈ d.exports.getD [], ReadOf Source.exported e

theorem Source.ComponentDraft.Known.add {d e : ComponentDraft} {key : String} {v : Value}
    (hw : v.WellFormed) (hd : d.Known) (h : d.add key v = .ok e) : e.Known := by
  unfold ComponentDraft.add at h
  split at h
  · obtain ⟨out, -, rfl⟩ := bind_pure_eq_ok.mp h
    exact hd
  · obtain ⟨out, -, rfl⟩ := bind_pure_eq_ok.mp h
    exact hd
  · obtain ⟨out, -, rfl⟩ := bind_pure_eq_ok.mp h
    exact hd
  · obtain ⟨out, hout, rfl⟩ := bind_pure_eq_ok.mp h
    exact readOf_of_fill hw hout
  · obtain rfl := Except.ok.inj h
    exact hd

/-- The exports of a component were read of values that repeat no key. -/
theorem readOf_parts_component {v : Value} (hw : v.WellFormed) {c : Component}
    (h : Source.component v = .ok c) : ∀ e ∈ c.exports, ReadOf Source.exported e := by
  obtain ⟨r, hr, h⟩ := bind_eq_ok.mp h
  have hvalues := wellFormed_of_record hw hr
  cases r with
  | named entries =>
    obtain ⟨d, hd, h⟩ := bind_eq_ok.mp h
    obtain ⟨id, -, rfl⟩ := bind_pure_eq_ok.mp h
    have hinit : Source.ComponentDraft.Known {} := nofun
    have hknown : d.Known :=
      entries_induction (fun _ _ _ _ hw hd h => hd.add hw h) hvalues hinit hd
    exact hknown
  | positional items =>
    obtain ⟨⟨id, rest⟩, h₁, h⟩ := bind_eq_ok.mp h
    have hrest := wellFormed_of_next hvalues h₁
    obtain ⟨⟨name, rest⟩, h₂, h⟩ := bind_eq_ok.mp h
    have hrest := wellFormed_of_next hrest h₂
    obtain ⟨⟨version, rest⟩, h₃, h⟩ := bind_eq_ok.mp h
    have hrest := wellFormed_of_next hrest h₃
    obtain ⟨⟨exports, rest⟩, h₄, h⟩ := bind_eq_ok.mp h
    obtain ⟨-, rfl⟩ := Source.finish_eq_ok.mp h
    exact readOf_of_next hrest h₄

/-- A component that was read is read back. -/
theorem component_toJson {c : Component} (h : ReadOf Source.component c) :
    Source.component c.toJson = .ok c := by
  obtain ⟨v, hw, hv⟩ := h
  obtain ⟨id, name, version, exports⟩ := c
  have he : Source.listOf Source.exported
      (Value.array (exports.map fun e => e.writtenBy Descriptor.toJson)) = .ok exports :=
    listOf_map fun e he => exported_writtenBy (readOf_parts_component hw hv e he)
  rw [Component.toJson, Component.writtenBy]
  cases name <;> cases version <;> simp [Source.component, Source.ComponentDraft.add, he]

/-! ## Payloads -/

namespace Payload

/-- The descriptor of a draft was read of a value that repeats no key. -/
def ArgumentDraft.Known (d : ArgumentDraft) : Prop := ∀ typ ∈ d.typ, ReadOf Descriptor.ofJson typ

theorem ArgumentDraft.Known.add {d e : ArgumentDraft} {key : String} {v : Value}
    (hw : v.WellFormed) (hd : d.Known) (h : d.add key v = .ok e) : e.Known := by
  unfold ArgumentDraft.add at h
  split at h
  · obtain ⟨out, -, rfl⟩ := bind_pure_eq_ok.mp h
    exact hd
  · obtain ⟨out, hout, rfl⟩ := bind_pure_eq_ok.mp h
    obtain ⟨-, typ, htyp, rfl⟩ := Source.fill_eq_ok.mp hout
    rintro _ ⟨rfl⟩
    exact ⟨v, hw, htyp⟩
  · obtain rfl := Except.ok.inj h
    exact hd

/-- The descriptor of an argument was read of a value that repeats no key. -/
theorem readOf_typ_argument {v : Value} (hw : v.WellFormed) {a : Argument}
    (h : argumentOfJson v = .ok a) : ReadOf Descriptor.ofJson a.typ := by
  obtain ⟨r, hr, h⟩ := bind_eq_ok.mp h
  have hvalues := wellFormed_of_record hw hr
  cases r with
  | named entries =>
    obtain ⟨d, hd, h⟩ := bind_eq_ok.mp h
    obtain ⟨value, -, h⟩ := bind_eq_ok.mp h
    obtain ⟨typ, htyp, rfl⟩ := bind_pure_eq_ok.mp h
    have hinit : ArgumentDraft.Known {} := nofun
    have hknown : d.Known :=
      entries_induction (fun _ _ _ _ hw hd h => hd.add hw h) hvalues hinit hd
    exact hknown typ (Source.required_eq_ok.mp htyp)
  | positional items =>
    obtain ⟨⟨value, rest⟩, h₁, h⟩ := bind_eq_ok.mp h
    obtain ⟨⟨typ, rest⟩, h₂, h⟩ := bind_eq_ok.mp h
    obtain ⟨-, rfl⟩ := Source.finish_eq_ok.mp h
    obtain ⟨-, -, hmissing⟩ | ⟨w, rfl, htyp⟩ := Source.next_eq_ok.mp h₂
    · cases hmissing
    · exact ⟨w, wellFormed_of_next hvalues h₁ w List.mem_cons_self, htyp⟩

/-- An argument that was read is read back. -/
theorem argumentOfJson_writtenBy {a : Argument} (h : ReadOf argumentOfJson a) :
    argumentOfJson (a.writtenBy Descriptor.toJson) = .ok a := by
  obtain ⟨v, hw, hv⟩ := h
  obtain ⟨w, hww, hd⟩ := readOf_typ_argument hw hv
  have htyp : Descriptor.ofJson a.typ.toJson = .ok a.typ :=
    (Descriptor.readsAs_toJson hww).descriptor _ hd
  rw [Argument.writtenBy]
  simp [argumentOfJson, ArgumentDraft.add, Value.record, htyp]

/-- The arguments in the slot were read of values that repeat no key. -/
def Known (slot : Option (List Argument)) : Prop := ∀ a ∈ slot.getD [], ReadOf argumentOfJson a

theorem known_none : Known none := nofun

/-- Each member of a payload keeps what is known of its arguments. -/
theorem known_add {slot out : Option (List Argument)} {key : String} {v : Value}
    (hw : v.WellFormed) (hslot : Known slot)
    (h : (if key = "params" then Source.fill slot "params" (Source.listOf argumentOfJson v)
      else return slot) = .ok out) : Known out := by
  split at h
  · exact readOf_of_fill hw h
  · obtain rfl := Except.ok.inj h
    exact hslot

/-- The arguments of a payload were read of values that repeat no key. -/
theorem readOf_arguments {v : Value} (hw : v.WellFormed) {p : Payload} (h : ofJson v = .ok p) :
    ∀ a ∈ p.arguments, ReadOf argumentOfJson a := by
  obtain ⟨r, hr, h⟩ := bind_eq_ok.mp h
  have hvalues := wellFormed_of_record hw hr
  cases r with
  | named entries =>
    obtain ⟨slot, hslot, h⟩ := bind_eq_ok.mp h
    obtain ⟨arguments, harguments, rfl⟩ := bind_pure_eq_ok.mp h
    obtain rfl := Source.required_eq_ok.mp harguments
    exact entries_induction (fun _ _ _ _ hw hd h => known_add hw hd h) hvalues known_none hslot
  | positional items =>
    obtain ⟨⟨arguments, rest⟩, h₁, h⟩ := bind_eq_ok.mp h
    obtain ⟨-, rfl⟩ := Source.finish_eq_ok.mp h
    obtain ⟨-, -, hmissing⟩ | ⟨w, rfl, hw⟩ := Source.next_eq_ok.mp h₁
    · cases hmissing
    · exact readOf_of_listOf (hvalues w List.mem_cons_self) hw

/-- A payload that was read is read back. -/
theorem ofJson_toJson {p : Payload} (h : ReadOf ofJson p) : ofJson p.toJson = .ok p := by
  obtain ⟨v, hw, hv⟩ := h
  have ha : Source.listOf argumentOfJson
      (.array (p.arguments.map fun a => a.writtenBy Descriptor.toJson)) = .ok p.arguments :=
    listOf_map fun a ha => argumentOfJson_writtenBy (readOf_arguments hw hv a ha)
  rw [toJson, writtenBy]
  simp [ofJson, Value.record, ha]

end Payload

end TypedCall
