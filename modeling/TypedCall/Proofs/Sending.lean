import TypedCall.Proofs.Catalog.RoundTrip
import TypedCall.Proofs.Choosing
import TypedCall.Proofs.Component.Lookup
import TypedCall.Proofs.Descriptor.Clashes
import TypedCall.Proofs.Encoding

/-!
# What is sent

A request is sent with its descriptors written as they are. For a function that was read this is
the request as a JSON value, and no object in it repeats a key: nothing clashes in the descriptors
of its parameters, and the arguments were read of a document. `written_agrees` says so of
descriptors, of what a session prepares, and of what is printed.
-/

namespace TypedCall

open Json (Value Members bind_eq_ok bind_pure_eq_ok)

/-! ## Descriptors that were read -/

theorem readOf_typ {p : Field} (h : ReadOf fieldOfJson p) : ReadOf Descriptor.ofJson p.typ := by
  obtain ⟨v, hw, hv⟩ := h
  cases v with
  | object members =>
    obtain ⟨-, w, hfound, hread⟩ :=
      (fieldOfJson_object (Json.Value.wellFormed_object.mp hw).1).mp hv
    exact ⟨w, hw.of_find? hfound, hread⟩
  | array items =>
    obtain ⟨w, rfl, hread⟩ := fieldOfJson_array.mp hv
    exact ⟨w, Json.Value.wellFormed_array.mp hw w (by simp), hread⟩
  | null | bool b | number n | string s => cases hv

/-- In a descriptor that was read nothing clashes. -/
theorem Descriptor.not_clashes_of_readOf {d : Descriptor} (h : ReadOf Descriptor.ofJson d) :
    d.WellFormed ∧ ∀ key, ¬ d.Clashes key := by
  obtain ⟨v, hw, hread⟩ := h
  exact ⟨wellFormed_of_ofJson hw hread, fun key => (canonical_of_ofJson hw hread).not_clashes⟩

/-- What is found in a component that was read is a function that was read, with its export. -/
theorem exists_readOf_of_find {c : Component} (hc : ReadOf Source.component c) {e name : String}
    {g : Callable} (h : c.find e name = .ok g) :
    ∃ f, ReadOf Source.callable f ∧ g = { f with exportName := some e } := by
  obtain ⟨v, hw, hread⟩ := hc
  obtain ⟨x, f, hx, hf, rfl⟩ := Component.exists_selects_of_find h
  obtain ⟨w, hexport, hexported⟩ := readOf_parts_component hw hread x hx.mem.1
  exact ⟨f, readOf_parts_exported hexport hexported f (List.mem_of_find?_eq_some hf), rfl⟩

/-! ## Requests -/

/-- Two members make a well-formed object when their keys differ and their values are well formed.
-/
theorem wellFormed_pair {k l : String} {v w : Value} (h : k ≠ l) :
    (Value.object [(k, v), (l, w)]).WellFormed ↔ v.WellFormed ∧ w.WellFormed := by
  simp [Value.WellFormed, Json.Value.WellFormedMembers, Members.keys, h]

theorem wellFormed_argument (d : Descriptor) {v : Value} (h : v.WellFormed) :
    (d.argument v).value.WellFormed := by
  rw [Descriptor.argument]
  split
  · cases v with
    | array items => exact h
    | _ => exact Json.Value.wellFormed_array.mpr (by simpa [Json.Value.listed] using h)
  · exact h

/-- What is sent comes from a parameter and a value. -/
theorem mem_sentFor {ps : List Field} {vs : List Value} {a : Argument} (h : a ∈ sentFor ps vs) :
    ∃ p ∈ ps, ∃ v ∈ vs, a = p.typ.argument v := by
  rw [sentFor, ← List.map_uncurry_zip_eq_zipWith] at h
  obtain ⟨⟨p, v⟩, hmem, rfl⟩ := List.mem_map.mp h
  obtain ⟨hp, hv⟩ := List.of_mem_zip hmem
  exact ⟨p, hp, v, hv, rfl⟩

/-- The argument is written as its JSON value, in which no object repeats a key. -/
structure Argument.Faithful (a : Argument) : Prop where
  value : a.value.WellFormed
  typ : a.typ.written = a.typ.toJson
  wellFormed : a.typ.toJson.WellFormed

/-- An argument that was read, for a parameter that was read. -/
theorem faithful_argument {p : Field} {v : Value} (hp : ReadOf fieldOfJson p)
    (hv : v.WellFormed) : (p.typ.argument v).Faithful := by
  obtain ⟨hw, hclash⟩ := Descriptor.not_clashes_of_readOf (readOf_typ hp)
  exact ⟨wellFormed_argument p.typ hv, Descriptor.written_eq_toJson hw.nodup_keys_extra hclash,
    Descriptor.wellFormed_toJson hw⟩

/-- What a document is encoded to, when it repeats no key and the parameters were read. -/
theorem Callable.faithful_of_encodeDocument {f : Callable} {document : Value} {payload : Payload}
    (hf : ∀ p ∈ f.parameters, ReadOf fieldOfJson p) (hw : document.WellFormed)
    (h : f.encodeDocument document = .ok payload) : ∀ a ∈ payload.arguments, a.Faithful := by
  cases hvalues : f.positional? document with
  | none =>
    rw [encodeDocument_of_not_positional hvalues] at h
    cases h
  | some values =>
    have hread : ∀ v ∈ values, v.WellFormed := by
      cases document with
      | array items =>
        obtain rfl := Option.some.inj hvalues
        exact Json.Value.wellFormed_array.mp hw
      | _ =>
        simp only [positional?, Option.ite_none_right_eq_some, Option.some.injEq] at hvalues
        obtain ⟨-, rfl⟩ := hvalues
        simpa using hw
    rw [encodeDocument_of_positional hvalues, encode_eq_ok, encodeArguments_eq_ok] at h
    intro a ha
    rw [h.2] at ha
    obtain ⟨p, hp, v, hv, rfl⟩ := mem_sentFor ha
    exact faithful_argument (hf p hp) (hread v hv)

/-- A request of such arguments is written as its JSON value, in which no object repeats a key. -/
theorem Request.written_of_faithful {r : Request} (h : ∀ a ∈ r.payload.arguments, a.Faithful) :
    r.written = r.toJson ∧ r.toJson.WellFormed := by
  have harguments : r.payload.arguments.map (·.writtenBy Descriptor.written) =
      r.payload.arguments.map (·.writtenBy Descriptor.toJson) :=
    List.map_congr_left fun a ha => by rw [Argument.writtenBy, (h a ha).typ, Argument.writtenBy]
  constructor
  · rw [written, toJson, writtenBy, writtenBy, Payload.writtenBy, Payload.writtenBy, harguments]
  · rw [toJson, writtenBy, wellFormed_pair (by decide), Payload.writtenBy]
    refine ⟨trivial, Json.Value.wellFormed_object.mpr ⟨by simp [Members.keys], fun k v hmem => ?_⟩⟩
    obtain ⟨-, rfl⟩ := Prod.mk.inj (List.mem_singleton.mp hmem)
    refine Json.Value.wellFormed_array.mpr fun w hw => ?_
    obtain ⟨a, ha, rfl⟩ := List.mem_map.mp hw
    exact (wellFormed_pair (by decide)).mpr ⟨(h a ha).value, (h a ha).wellFormed⟩

/-- A request that was prepared is written as its value, and repeats no key. -/
theorem Editor.Session.written_of_prepare {s : Session} {request : Request}
    (hf : ∀ p ∈ s.function.parameters, ReadOf fieldOfJson p) (h : s.prepare.1 = .ok request) :
    request.written = request.toJson ∧ request.toJson.WellFormed := by
  obtain ⟨-, document, -, hdocument, hpayload, -⟩ := prepare_eq_ok.mp h
  have hw := (Json.isDocument_of_parse hdocument).wellFormed
  exact Request.written_of_faithful (Callable.faithful_of_encodeDocument hf hw hpayload)

/-! ## The command -/

/-- Encoding that does not fail prints the request that is prepared of its input. -/
theorem exists_request_of_encode {world : World} {settings : Settings} {choice : FunctionChoice}
    {f : Callable} {input : Option String} {before after : String}
    (hf : choice.resolve settings world.files = .ok f)
    (hrun : (execute world settings (.encode choice input)).run.run before = (.ok (), after)) :
    ∃ text request, world.readInput input = .ok text ∧
      ((Editor.Session.new f settings.editor).edit text).prepare.1 = .ok request ∧
      after = before ++ request.written.pretty ++ "\n" := by
  have hprints := prints_execute world settings (.encode choice input) before
  rw [hrun] at hprints
  cases hlines : Command.lines world settings (.encode choice input) with
  | error e =>
    rw [hlines] at hprints
    cases hprints
  | ok lines =>
    rw [hlines] at hprints
    rw [Command.lines, hf, Json.ok_bind, bind_eq_ok] at hlines
    obtain ⟨text, htext, hlines⟩ := hlines
    obtain ⟨request, hrequest, rfl⟩ := bind_pure_eq_ok.mp hlines
    refine ⟨text, request, mapError_eq_ok.mp htext, mapError_eq_ok.mp hrequest, ?_⟩
    simpa [linesText, String.append_assoc] using (Prod.mk.inj hprints).2

/-- **Both written forms agree on everything that was read.** The text of a descriptor as it is
written is the text of the value that it stands for exactly when no member kept as written clashes
with what is written before, and then no object in it repeats a key; a key that clashes is written
twice. Nothing clashes in a descriptor that was read. So what is printed for a function that was
read is the request as a JSON value, and no object in it repeats a key. -/
theorem written_agrees :
    (∀ d : Descriptor, d.WellFormed →
      (d.written.compact = d.toJson.compact ↔ ∀ key, ¬ d.Clashes key) ∧
      (d.written.WellFormed ↔ ∀ key, ¬ d.Clashes key) ∧ d.toJson.WellFormed ∧
      ∃ members : Members, d.written = .object members ∧
        ∀ key, 1 < members.keys.count key ↔ d.Clashes key) ∧
    (∀ d, ReadOf Descriptor.ofJson d → d.WellFormed ∧ ∀ key, ¬ d.Clashes key) ∧
    (∀ text cs, Component.parseJson text = .ok cs → ∀ c ∈ cs, ∀ e name g, c.find e name = .ok g →
      ∃ f, ReadOf Source.callable f ∧ g = { f with exportName := some e }) ∧
    ∀ f exportName, ReadOf Source.callable f →
      (∀ (s : Editor.Session) request, s.function = { f with exportName } →
        s.prepare.1 = .ok request → request.written = request.toJson ∧ request.toJson.WellFormed) ∧
      ∀ world settings choice input before after,
        choice.resolve settings world.files = .ok { f with exportName } →
        (execute world settings (.encode choice input)).run.run before = (.ok (), after) →
        ∃ text request, world.readInput input = .ok text ∧
          ((Editor.Session.new { f with exportName } settings.editor).edit text).prepare.1 =
            .ok request ∧
          after = before ++ request.toJson.pretty ++ "\n" ∧ request.toJson.WellFormed := by
  refine ⟨?_, fun d => Descriptor.not_clashes_of_readOf, ?_, ?_⟩
  · intro d hw
    refine ⟨Descriptor.compact_written_eq_iff hw, Descriptor.wellFormed_written_iff hw,
      Descriptor.wellFormed_toJson hw, d.entries, rfl, fun key => ?_⟩
    exact Descriptor.one_lt_count_iff hw.nodup_keys_extra
  · intro text cs hcs c hc e name g hg
    exact exists_readOf_of_find (Catalog.readOf_of_parseJson hcs c hc) hg
  · intro f exportName hf
    obtain ⟨v, hw, hread⟩ := hf
    have hparameters : ∀ p ∈ f.parameters, ReadOf fieldOfJson p :=
      (readOf_parts_callable hw hread).1
    constructor
    · intro s request hs hrequest
      apply Editor.Session.written_of_prepare _ hrequest
      rw [hs]
      exact hparameters
    · intro world settings choice input before after hf hrun
      obtain ⟨text, request, htext, hrequest, hafter⟩ := exists_request_of_encode hf hrun
      obtain ⟨hwritten, hwell⟩ := Editor.Session.written_of_prepare hparameters hrequest
      rw [hwritten] at hafter
      exact ⟨text, request, htext, hrequest, hafter, hwell⟩

/-- A member `type` that is kept as written is written twice. The members kept of a parameter that
was read are printed with the request, and the cases that were null are not among them. -/
theorem written_agrees_tuple :
    let clashing : Descriptor := .scalar .str [("type", .string "Str")]
    let f : Callable :=
      ⟨"f", none, [⟨"x", .compound .tuple [] [("unit", .number (.integer 1))]⟩], []⟩
    let text := "[[\"c\",null,null,[[\"api\",[[\"f\",null,[[\"x\"," ++
      "\x7b\"type\":\"Tuple\",\"cases\":null,\"unit\":1\x7d]]]]]]]]"
    let files : Files.Tree := .alone (.directory [("c.json", .file (some text))])
    let world : World := ⟨⟨files, []⟩, some "[[]]"⟩
    let choice : FunctionChoice := ⟨⟨some "c.json", none⟩, "api", "f"⟩
    clashing.written.compact ≠ clashing.toJson.compact ∧
      choice.resolve {} files = .ok { f with exportName := some "api" } ∧
      ∃ request : Request, (execute world {} (.encode choice none)).run.run "" =
          (.ok (), request.toJson.pretty ++ "\n") ∧ request.toJson.WellFormed := by
  intro clashing f text files world choice
  have hclashing : clashing.WellFormed := ⟨by simp [Members.keys], trivial, trivial⟩
  have hkey : clashing.Clashes "type" := ⟨List.mem_cons_self, List.mem_cons_self⟩
  let parameter : Value := .array [.string "x", .object
    [("type", .string "Tuple"), ("cases", .null), ("unit", .number (.integer 1))]]
  let function : Value := .array [.string "f", .null, .array [parameter]]
  have hfunction : function.WellFormed := by
    simp [function, parameter, Value.WellFormed, Json.Value.WellFormedItems,
      Json.Value.WellFormedMembers, Members.keys]
  have hread : ReadOf Source.callable f := ⟨function, hfunction, rfl⟩
  have hholds : Catalog.HoldsFile files "c.json" [⟨"c", none, none, [⟨"api", [f]⟩]⟩] := by
    have hparse : Value.parse text = .ok (.array [.array [.string "c", .null, .null,
        .array [.array [.string "api", .array [function]]]]]) := by
      simp only [text]
      rfl
    exact ⟨text, rfl, by rw [if_neg (by decide)]; exact ⟨_, hparse, .cons rfl .nil⟩⟩
  have hresolve : choice.resolve {} files = .ok { f with exportName := some "api" } := by
    have hoffers : choice.source.Offers {} files .empty [_] := ⟨rfl, hholds⟩
    rw [FunctionChoice.resolve, ComponentChoice.resolve_of_offers hoffers]
    rfl
  let request : Request :=
    ⟨target "api" "f", ⟨[⟨.array [], .compound .tuple [] [("unit", .number (.integer 1))]⟩]⟩⟩
  have hrun : (execute world {} (.encode choice none)).run.run "" =
      (.ok (), request.written.pretty ++ "\n") := by
    have hinput : Value.parse "[[]]" = .ok (.array [.array []]) := by rfl
    have hfree : Editor.MarkFree (.array [.array []]) := ⟨trivial, trivial⟩
    have hrequest : Editor.requestOf { f with exportName := some "api" } (.array [.array []]) =
        .ok request := by rfl
    have hworld : choice.resolve {} world.files = .ok { f with exportName := some "api" } :=
      hresolve
    have h := run_execute_encode hworld (show world.input = some "[[]]" from rfl)
    rw [Editor.Session.prepare_edit hinput (.inr hfree)] at h
    rw [h]
    simp only [Editor.Session.new, hrequest]
  obtain ⟨hwritten, -, -, hcallable⟩ := written_agrees
  obtain ⟨-, hencode⟩ := hcallable f (some "api") hread
  obtain ⟨text, printed, -, -, hafter, hwell⟩ := hencode world {} choice none _ _ hresolve hrun
  have htwice : clashing.written.compact ≠ clashing.toJson.compact := fun h =>
    (hwritten clashing hclashing).1.mp h "type" hkey
  rw [String.empty_append] at hafter
  rw [hafter] at hrun
  exact ⟨htwice, hresolve, printed, hrun, hwell⟩

end TypedCall
