import TypedCall.Proofs.Descriptor.Skeleton
import TypedCall.Proofs.Editor.Straightening
import TypedCall.Proofs.Printing

/-!
# What is prepared of a document

A text is tidied when it is edited, and straightened before it is read again. Neither is seen in
what is prepared of a document, unless quotes are straightened and the document holds some: the
request is the one that the document makes (`prepare_edit_of_parse`).

The text that an editor starts from is such a document. The skeletons in it always fill the places
of the parameters, so it can be sent as it stands whenever all parameters can be encoded
(`prepare_startText`).
-/

namespace TypedCall

open Json (Value Members)

namespace Editor

/-! ## Documents -/

/-- A document is read again of its own layout, where there is nothing to straighten. -/
theorem parse_pretty_straightened {v : Value} {sanitize : Bool} (hv : v.IsDocument)
    (hq : sanitize = false ∨ MarkFree v) :
    Value.parse (if sanitize then straighten v.pretty else v.pretty) = .ok v := by
  cases sanitize with
  | false => exact Value.parse_pretty hv
  | true =>
    have hfree : MarkFree v := hq.resolve_left (by decide)
    rw [if_pos rfl, straighten_pretty hfree, Value.parse_pretty hv]

/-- The request that a document makes of a function. -/
def requestOf (f : Callable) (document : Value) : Except SessionError Request :=
  match f.exportName with
  | none => .error (.missingExport f.name)
  | some exportName =>
    match f.encodeDocument document with
    | .ok payload => .ok ⟨target exportName f.name, payload⟩
    | .error reason => .error (.encoding reason)

theorem requestOf_unattached {f : Callable} (h : f.exportName = none) (document : Value) :
    requestOf f document = .error (.missingExport f.name) := by
  rw [requestOf, h]

theorem requestOf_ok {f : Callable} {exportName : String} {document : Value} {payload : Payload}
    (h : f.exportName = some exportName) (he : f.encodeDocument document = .ok payload) :
    requestOf f document = .ok ⟨target exportName f.name, payload⟩ := by
  simp only [requestOf, h, he]

theorem requestOf_error {f : Callable} {exportName : String} {document : Value}
    {reason : EncodeError} (h : f.exportName = some exportName)
    (he : f.encodeDocument document = .error reason) :
    requestOf f document = .error (.encoding reason) := by
  simp only [requestOf, h, he]

/-- A document that has been read cannot fail as JSON any more. -/
theorem requestOf_ne_invalidJson (f : Callable) (document : Value) (fault : Json.SyntaxError) :
    requestOf f document ≠ .error (.invalidJson fault) := by
  rw [requestOf]
  split
  · simp
  · split <;> simp

namespace Session

/-- What is prepared of a buffer that is read as a document. -/
theorem prepare_of_parse {s : Session} {v : Value}
    (h : Value.parse (if s.options.sanitizeQuotes then straighten s.buffer else s.buffer) = .ok v) :
    s.prepare.1 = requestOf s.function v := by
  rw [prepare_fst, build, requestOf, h]
  cases hexport : s.function.exportName with
  | none => simp only
  | some exportName => cases hpayload : s.function.encodeDocument v <;> simp only [hpayload]

/-- What is prepared of a text that is a document, where there is nothing to straighten. -/
theorem prepare_edit {s : Session} {text : String} {v : Value} (ht : Value.parse text = .ok v)
    (hq : s.options.sanitizeQuotes = false ∨ MarkFree v) :
    (s.edit text).prepare.1 = requestOf s.function v := by
  refine prepare_of_parse (s := s.edit text) ?_
  rw [edit, tidy_of_parse ht]
  exact parse_pretty_straightened (Json.isDocument_of_parse ht) hq

/-- **Tidying is invisible to preparing.** What is prepared of a text that is a document depends on
the document alone, where there is nothing to straighten: a function that is not attached to an
export is missed, and otherwise the request or the failure is that of encoding the document. The
text is never found to be malformed. -/
theorem prepare_edit_of_parse {s : Session} {text : String} {v : Value}
    (ht : Value.parse text = .ok v) (hq : s.options.sanitizeQuotes = false ∨ MarkFree v) :
    (s.function.exportName = none →
      (s.edit text).prepare.1 = .error (.missingExport s.function.name)) ∧
    (∀ exportName, s.function.exportName = some exportName →
      (∀ payload, s.function.encodeDocument v = .ok payload →
        (s.edit text).prepare.1 = .ok ⟨target exportName s.function.name, payload⟩) ∧
      ∀ reason, s.function.encodeDocument v = .error reason →
        (s.edit text).prepare.1 = .error (.encoding reason)) ∧
    ∀ fault, (s.edit text).prepare.1 ≠ .error (.invalidJson fault) := by
  rw [prepare_edit ht hq]
  exact ⟨fun hnone => requestOf_unattached hnone v,
    fun exportName hexport => ⟨fun payload => requestOf_ok hexport, fun reason =>
      requestOf_error hexport⟩, requestOf_ne_invalidJson _ v⟩

/-- Escapes, a key that is repeated and a zero with a sign come through, and an escaped quote is no
quote mark. -/
theorem prepare_edit_of_parse_escapes :
    let f : Callable := ⟨"set", some "api", [⟨"options", .compound .record [] []⟩], []⟩
    let text := "[\x7b\"a\\u0022\":1,\"b\":-0,\"a\\\"\":\"\\/\"\x7d]"
    let v : Value := .object [("a\"", .string "/"), ("b", .number (.double (.zero true)))]
    Value.parse text = .ok (.array [v]) ∧ MarkFree (.array [v]) ∧
      ((new f ⟨true⟩).edit text).prepare.1 =
        .ok ⟨target "api" "set", ⟨[⟨v, .compound .record [] []⟩]⟩⟩ := by
  intro f text v
  have ht : Value.parse text = .ok (.array [v]) := by
    simp only [text]
    rfl
  have hm : MarkFree (.array [v]) := by
    simp [MarkFree, Json.Value.All, Json.Value.AllItems, Json.Value.AllMembers, v, Unmarked,
      IsMark]
  exact ⟨ht, hm, ((prepare_edit_of_parse ht (.inr hm)).2.1 "api" rfl).1 _ rfl⟩

end Session

end Editor

/-! ## Skeletons -/

/-- The tags of parameters whose arguments can be encoded. -/
def Tag.encodable : List Tag :=
  [.scalar .str, .scalar .u32, .scalar .f32, .scalar .i32, .compound .tuple, .compound .record,
    .container .list]

namespace Descriptor

/-- The integers of a skeleton have 64 bits. -/
theorem all_skeleton (d : Descriptor) : d.skeleton.All Json.Number.Fits fun _ => True := by
  induction d using induction with
  | scalar type extra => cases type <;> trivial
  | container type extra => cases type <;> trivial
  | unknown tag extra => trivial
  | compound type fields extra ih =>
    cases type with
    | variant => trivial
    | tuple =>
      rw [skeleton, skeletonItems_eq, Json.Value.all_array, List.forall_mem_map]
      exact ih
    | record =>
      rw [skeleton, Json.Value.all_object]
      intro m hm
      obtain ⟨f, hf, rfl⟩ := exists_of_mem_skeletonMembers hm
      exact ⟨trivial, ih f hf⟩

/-- A skeleton repeats no key, also where the names of fields do. -/
theorem wellFormed_skeleton (d : Descriptor) : d.skeleton.WellFormed := by
  induction d using induction with
  | scalar type extra => cases type <;> trivial
  | container type extra => cases type <;> trivial
  | unknown tag extra => trivial
  | compound type fields extra ih =>
    cases type with
    | variant => trivial
    | tuple =>
      rw [skeleton, skeletonItems_eq, Json.Value.wellFormed_array, List.forall_mem_map]
      exact ih
    | record =>
      rw [skeleton, Json.Value.wellFormed_object]
      refine ⟨nodup_keys_skeletonMembers fields, fun k v hm => ?_⟩
      obtain ⟨f, hf, h⟩ := exists_of_mem_skeletonMembers hm
      obtain ⟨rfl, rfl⟩ := Prod.mk.inj h
      exact ih f hf

/-- A skeleton is encoded as it is, if values of its descriptor can be encoded at all. -/
theorem encode_skeleton (d : Descriptor) :
    d.encode d.skeleton =
      if d.kind ∈ Tag.encodable then .ok d.skeleton else .error (.unsupportedType d.tag) := by
  cases d with
  | scalar type extra => cases type <;> rfl
  | container type extra => cases type <;> rfl
  | compound type fields extra => cases type <;> rfl
  | unknown tag extra => rw [if_neg (by simp [kind, Tag.encodable])]; rfl

end Descriptor

/-- The skeletons of parameters are encoded, unless some parameter cannot be. -/
theorem encodeArguments_skeleton (index : Nat) (ps : List Field) :
    encodeArguments index ps (ps.map (·.typ.skeleton)) =
      match ps.find? (·.typ.kind ∉ Tag.encodable) with
      | none => .ok (ps.map fun p => ⟨p.typ.skeleton, p.typ⟩)
      | some p => .error (.unsupportedType p.typ.tag) := by
  induction ps generalizing index with
  | nil => rfl
  | cons p ps ih =>
    rw [List.map_cons, encodeArguments, Descriptor.encode_skeleton, ih, List.find?_cons]
    by_cases hp : p.typ.kind ∈ Tag.encodable
    · rw [if_pos hp]
      simp only [hp, not_true_eq_false, decide_false]
      cases ps.find? (·.typ.kind ∉ Tag.encodable) <;> rfl
    · rw [if_neg hp]
      simp only [hp, not_false_eq_true, decide_true]
      rfl

namespace Callable

variable {f : Callable}

/-- The skeleton of a function is encoded, unless a parameter has a type that cannot be. -/
theorem encodeDocument_skeleton (f : Callable) :
    f.encodeDocument (.array f.skeleton) =
      match f.parameters.find? (·.typ.kind ∉ Tag.encodable) with
      | none => .ok ⟨f.parameters.map fun p => ⟨p.typ.skeleton, p.typ⟩⟩
      | some p => .error (.unsupportedType p.typ.tag) := by
  rw [encodeDocument, encode, skeleton, encodeArguments_skeleton]
  cases f.parameters.find? (·.typ.kind ∉ Tag.encodable) <;> rfl

/-- Skeletons that are not too deep make a document. -/
theorem isDocument_skeleton (hd : ∀ p ∈ f.parameters, p.typ.skeleton.depth ≤ 126) :
    (Value.array f.skeleton).IsDocument := by
  refine Json.Value.holds_array.mpr ?_
  rw [skeleton, List.forall_mem_map]
  exact fun p hp => ⟨p.typ.all_skeleton, p.typ.wellFormed_skeleton, hd p hp⟩

theorem markFree_skeleton (hm : ∀ p ∈ f.parameters, Editor.MarkFree p.typ.skeleton) :
    Editor.MarkFree (.array f.skeleton) := by
  refine Json.Value.all_array.mpr ?_
  rw [skeleton, List.forall_mem_map]
  exact hm

end Callable

/-! ## The text that an editor starts from -/

namespace Editor

variable {f : Callable} {options : Options} {exportName : String}

/-- The request that the skeletons make. -/
theorem requestOf_skeleton (he : f.exportName = some exportName) :
    requestOf f (.array f.skeleton) =
      match f.parameters.find? (·.typ.kind ∉ Tag.encodable) with
      | none => .ok ⟨target exportName f.name,
          ⟨f.parameters.map fun p => ⟨p.typ.skeleton, p.typ⟩⟩⟩
      | some p => .error (.encoding (.unsupportedType p.typ.tag)) := by
  have hpayload := f.encodeDocument_skeleton
  cases hfind : f.parameters.find? (·.typ.kind ∉ Tag.encodable) with
  | none =>
    rw [hfind] at hpayload
    exact requestOf_ok he hpayload
  | some p =>
    rw [hfind] at hpayload
    exact requestOf_error he hpayload

namespace Session

/-- A session that has been given nothing but its own text, and a line feed behind it or not,
prepares the request that the skeletons make. -/
theorem prepare_untouched (hd : ∀ p ∈ f.parameters, p.typ.skeleton.depth ≤ 126)
    (hq : options.sanitizeQuotes = false ∨ ∀ p ∈ f.parameters, MarkFree p.typ.skeleton) :
    (new f options).prepare.1 = requestOf f (.array f.skeleton) ∧
      ((new f options).edit (f.startText ++ "\n")).prepare.1 =
        requestOf f (.array f.skeleton) := by
  have hv : (Value.array f.skeleton).IsDocument := Callable.isDocument_skeleton hd
  have hfree : options.sanitizeQuotes = false ∨ MarkFree (.array f.skeleton) :=
    hq.imp_right Callable.markFree_skeleton
  have hblank : Json.IsBlanks "\n".toList := by simp [Json.IsBlanks, Json.isJsonBlank]
  exact ⟨prepare_of_parse (s := new f options) (parse_pretty_straightened hv hfree),
    prepare_edit (s := new f options) (Json.Value.parse_pretty_append hv hblank) hfree⟩

end Session

end Editor

/-! ## The commands -/

section Commands

variable {f : Callable} {world : World} {settings : Settings} {choice : FunctionChoice}

/-- The command for a skeleton prints the text that an editor starts with. -/
theorem run_execute_skeleton (h : choice.resolve settings world.files = .ok f) :
    (execute world settings (.skeleton choice)).run.run "" = (.ok (), f.startText ++ "\n") := by
  simp only [execute, h, succeed_ok_bind, run_printLine, String.empty_append]

/-- Encoding prints the request that a new session prepares of the input, or prints nothing. -/
theorem run_execute_encode (h : choice.resolve settings world.files = .ok f) {text : String}
    (ht : world.input = some text) :
    (execute world settings (.encode choice none)).run.run "" =
      match ((Editor.Session.new f settings.editor).edit text).prepare.1 with
      | .ok request => (.ok (), request.written.pretty ++ "\n")
      | .error e => (.error (.session e), "") := by
  have hinput : world.readInput none = .ok text := by rw [World.readInput, ht]
  simp only [execute, h, hinput, succeed_ok_bind]
  cases ((Editor.Session.new f settings.editor).edit text).prepare.1 with
  | error e => rfl
  | ok request => simp only [succeed_ok_bind, run_printLine, String.empty_append]

end Commands

namespace Editor.Session

variable {f : Callable} {options : Options} {exportName : String}

/-- **What an editor starts from can be sent.** When the skeletons of the parameters are not too
deep, and straightening has nothing to do with the names in them, the untouched text of a session
gives a request with the skeleton of each parameter in its place, or the tag of the first parameter
that cannot be encoded. It is never malformed, and never short of arguments. The same is prepared
of the text with a line feed behind it, which is what one command prints and the other reads. -/
theorem prepare_startText (he : f.exportName = some exportName)
    (hd : ∀ p ∈ f.parameters, p.typ.skeleton.depth ≤ 126)
    (hq : options.sanitizeQuotes = false ∨ ∀ p ∈ f.parameters, MarkFree p.typ.skeleton) :
    (∀ s, s = new f options ∨ s = (new f options).edit (f.startText ++ "\n") →
      ((∀ p ∈ f.parameters, p.typ.kind ∈ Tag.encodable) →
        s.prepare.1 = .ok ⟨target exportName f.name,
          ⟨f.parameters.map fun p => ⟨p.typ.skeleton, p.typ⟩⟩⟩) ∧
      (∀ p, f.parameters.find? (·.typ.kind ∉ Tag.encodable) = some p →
        s.prepare.1 = .error (.encoding (.unsupportedType p.typ.tag))) ∧
      (∀ fault, s.prepare.1 ≠ .error (.invalidJson fault)) ∧
      (∀ index name, s.prepare.1 ≠ .error (.encoding (.missingArgument index name))) ∧
      ∀ expected, s.prepare.1 ≠ .error (.encoding (.notAnArgumentList expected))) ∧
    ∀ (world : World) (settings : Settings) (choice : FunctionChoice),
      settings.editor = options → choice.resolve settings world.files = .ok f →
      ∃ printed, (execute world settings (.skeleton choice)).run.run "" = (.ok (), printed) ∧
        (execute { world with input := some printed } settings (.encode choice none)).run.run "" =
          match ((new f options).edit (f.startText ++ "\n")).prepare.1 with
          | .ok request => (.ok (), request.written.pretty ++ "\n")
          | .error e => (.error (.session e), "") := by
  obtain ⟨hnew, hedited⟩ := prepare_untouched hd hq
  refine ⟨fun s hs => ?_, fun world settings choice hoptions hf => ?_⟩
  · have hprepare : s.prepare.1 = requestOf f (.array f.skeleton) := by
      rcases hs with rfl | rfl
      · exact hnew
      · exact hedited
    rw [hprepare, requestOf_skeleton he]
    refine ⟨fun hall => ?_, fun p hp => by rw [hp], ?_⟩
    · have hnone : f.parameters.find? (·.typ.kind ∉ Tag.encodable) = none :=
        List.find?_eq_none.mpr fun p hp => by simpa using hall p hp
      rw [hnone]
    · split <;> simp
  · subst hoptions
    -- the other command sees the same files, so it finds the same function
    let piped : World := { world with input := some (f.startText ++ "\n") }
    have hpiped : choice.resolve settings piped.files = .ok f := hf
    exact ⟨f.startText ++ "\n", run_execute_skeleton hf, run_execute_encode hpiped rfl⟩

/-- Names that repeat or hold an escaped quote come through straightening. -/
theorem prepare_startText_record :
    let user : Descriptor := .compound .record
      [⟨"a\"b", .scalar .bool []⟩, ⟨"n", .container .option []⟩, ⟨"a\"b", .scalar .u8 []⟩] []
    let f : Callable := ⟨"add", some "api", [⟨"user", user⟩, ⟨"tags", .container .list []⟩], []⟩
    let skeleton : Value := .object [("a\"b", .number (.integer 0)), ("n", .null)]
    ((new f ⟨true⟩).edit (f.startText ++ "\n")).prepare.1 = .ok ⟨target "api" "add",
      ⟨[⟨skeleton, user⟩, ⟨.array [], .container .list []⟩]⟩⟩ := by
  intro user f skeleton
  have hd : ∀ p ∈ f.parameters, p.typ.skeleton.depth ≤ 126 := by decide
  have hunmarked : Unmarked "a\"b" ∧ Unmarked "n" := by simp [Unmarked, IsMark]
  have hm : ∀ p ∈ f.parameters, MarkFree p.typ.skeleton :=
    List.forall_mem_cons.mpr ⟨⟨hunmarked.1, trivial, hunmarked.2, trivial, trivial⟩,
      List.forall_mem_singleton.mpr trivial⟩
  exact ((prepare_startText rfl hd (.inr hm)).1 _ (.inr rfl)).1 (by decide)

end Editor.Session

end TypedCall
