import TypedCall.Proofs.Editor.History
import TypedCall.Proofs.Editor.Quotes

/-!
# What straightening quotes does to a payload

A text that is a document is tidied when it is edited, so without straightening it is the document
that is sent. With straightening the tidied text can be read as another document: a quote mark
inside a string closes the string. `encodeDocument_of_prepare` says exactly when the payload that
is prepared is still the one of the document: when no value that is sent holds a quote mark.
Values that are left over may hold some, for the arguments that are sent stand before them.
-/

namespace TypedCall

open Json (Value)

/-! ## What is sent of a document -/

/-- The values of a document that are arguments. -/
def Callable.sent (f : Callable) : Value → List Value
  | .array values => values.take f.parameters.length
  | v => [v]

/-- Values beyond the parameters are not looked at. -/
theorem encodeArguments_congr {ps : List Field} {vs ws : List Value}
    (h : vs.take ps.length = ws.take ps.length) (index : Nat) :
    encodeArguments index ps vs = encodeArguments index ps ws := by
  induction ps generalizing vs ws index with
  | nil => rw [encodeArguments, encodeArguments]
  | cons p ps ih =>
    cases vs with
    | nil =>
      cases ws with
      | nil => rfl
      | cons w ws => simp at h
    | cons v vs =>
      cases ws with
      | nil => simp at h
      | cons w ws =>
        obtain ⟨rfl, hvs⟩ := List.cons.inj h
        rw [encodeArguments, encodeArguments, ih hvs]

section Contents

variable {N : Json.Number → Prop} {S : String → Prop}

theorem Json.Value.all_wrapped {v : Value} : v.wrapped.All N S ↔ v.All N S := by
  cases v with
  | array items => exact Iff.rfl
  | _ => simp [Json.Value.wrapped, Json.Value.all_array]

/-- An encoded argument holds what is given for it. -/
theorem Descriptor.all_of_encode {d : Descriptor} {v w : Value} (h : d.encode v = .ok w) :
    w.All N S ↔ v.All N S := by
  rw [encode] at h
  split at h
  · obtain rfl := Except.ok.inj h
    exact Iff.rfl
  · obtain rfl := Except.ok.inj h
    exact Json.Value.all_wrapped
  · cases h

/-- What holds of the contents of the values that are encoded holds of the arguments, and the other
way round. -/
theorem all_of_encodeArguments {ps : List Field} {vs : List Value} {index : Nat}
    {arguments : List Argument} (h : encodeArguments index ps vs = .ok arguments) :
    (∀ a ∈ arguments, a.value.All N S) ↔ ∀ v ∈ vs.take ps.length, v.All N S := by
  induction ps generalizing vs index arguments with
  | nil =>
    obtain rfl := Except.ok.inj h
    simp
  | cons p ps ih =>
    cases vs with
    | nil => cases h
    | cons v vs =>
      obtain ⟨w, hw, h⟩ := Json.bind_eq_ok.mp h
      obtain ⟨more, hmore, h⟩ := Json.bind_eq_ok.mp h
      obtain rfl := Except.ok.inj h
      rw [List.length_cons, List.take_succ_cons, List.forall_mem_cons, List.forall_mem_cons,
        ih hmore, Descriptor.all_of_encode hw]

theorem Callable.all_of_encode {f : Callable} {vs : List Value} {payload : Payload}
    (h : f.encode vs = .ok payload) :
    (∀ a ∈ payload.arguments, a.value.All N S) ↔ ∀ v ∈ vs.take f.parameters.length, v.All N S := by
  obtain ⟨arguments, harguments, h⟩ := Json.bind_eq_ok.mp h
  obtain rfl := Except.ok.inj h
  exact all_of_encodeArguments harguments

/-- A payload holds what is sent of the document. -/
theorem Callable.all_of_encodeDocument {f : Callable} {v : Value} {payload : Payload}
    (h : f.encodeDocument v = .ok payload) :
    (∀ a ∈ payload.arguments, a.value.All N S) ↔ ∀ w ∈ f.sent v, w.All N S := by
  cases v with
  | array values => exact Callable.all_of_encode h
  | _ =>
    unfold encodeDocument at h
    simp only at h
    split at h
    · next hone =>
      rw [Callable.all_of_encode h, hone]
      rfl
    · cases h

/-- What holds of the contents of a document holds of what is sent of it. -/
theorem Callable.all_sent {f : Callable} {v : Value} (h : v.All N S) :
    ∀ w ∈ f.sent v, w.All N S := by
  cases v with
  | array values => exact fun w hw => Json.Value.all_array.mp h w (List.mem_of_mem_take hw)
  | _ => simpa [sent] using h

end Contents

namespace Editor

/-! ## Straightening a document -/

/-- The text of the items that hold no quote mark is left as it is. -/
theorem map_straighten_items {items : List Value} (hm : ∀ v ∈ items, MarkFree v) (level : Nat) :
    (Json.commaSeparated (items.map (Value.prettyItem level))).map straightenChar =
      Json.commaSeparated (items.map (Value.prettyItem level)) := by
  refine map_straighten_of_aligned (aligned_commaSeparated (fun _ h => h) ?_)
  intro text htext
  obtain ⟨v, hmem, rfl⟩ := List.mem_map.mp htext
  exact (aligned_newLine (fun _ h => h) level).append
    (aligned_pretty (fun _ h => h) (hm v hmem) level)

/-- The items before the first quote mark are read as they were. -/
theorem exists_of_parse_straighten {items : List Value} {w : Value} {n : Nat}
    (hv : (Value.array items).IsDocument) (hn : n < items.length)
    (hm : ∀ v ∈ items.take n, MarkFree v)
    (h : Value.parse (straighten (Value.array items).pretty) = .ok w) :
    ∃ others, w = .array (items.take n ++ others) := by
  obtain ⟨x, more, hdrop⟩ : ∃ x more, items.drop n = x :: more := by
    cases hdrop : items.drop n with
    | nil =>
      have hle := List.drop_eq_nil_iff.mp hdrop
      omega
    | cons x more => exact ⟨x, more, rfl⟩
  obtain ⟨kept, hkept⟩ : ∃ kept, kept = items.take n := ⟨_, rfl⟩
  obtain rfl : items = kept ++ x :: more := by rw [hkept, ← hdrop, List.take_append_drop]
  rw [← hkept] at hm ⊢
  -- the items stand one level below the limit of the document
  have hholds : ∀ v ∈ kept, v.Holds Json.Number.Fits (fun _ => True) 126 :=
    fun v hmem => Value.holds_array.mp hv v (List.mem_append_left _ hmem)
  obtain ⟨rest, hread, -⟩ := Json.parse_eq_ok.mp h
  rw [straighten, Value.pretty, String.toList_ofList, String.toList_ofList,
    Value.prettyChars_array (by simp), List.map_cons,
    straightenChar_of_not_mark (by decide)] at hread
  cases kept with
  | nil =>
    obtain ⟨others, rfl⟩ := Json.exists_of_readValue_bracket hread
    exact ⟨others, rfl⟩
  | cons v kept =>
    have hitems : List.Forall₂ (Json.ReadsBack 126) (v :: kept)
        ((v :: kept).map (Value.prettyItem 1)) := by
      rw [List.forall₂_map_right_iff, List.forall₂_same]
      exact fun w hw => Value.readsBack_prettyItem (hholds w hw) 1
    have hsplit : (v :: kept ++ x :: more).map (Value.prettyItem 1) =
        (v :: kept).map (Value.prettyItem 1) ++
          Value.prettyItem 1 x :: more.map (Value.prettyItem 1) := List.map_append
    have hcomma : ∀ cs, (',' :: cs).map straightenChar = ',' :: cs.map straightenChar :=
      fun _ => rfl
    -- up to the comma behind the last of them nothing is straightened
    rw [hsplit, Json.commaSeparated_append (by simp), List.append_assoc, List.map_append,
      map_straighten_items hm, List.cons_append, hcomma] at hread
    exact Json.exists_of_readValue_array hitems hread

/-- Straightening does not change what is sent when no value that is sent holds a quote mark. -/
theorem encodeDocument_of_parse_straighten {f : Callable} {v w : Value} (hv : v.IsDocument)
    (hm : ∀ x ∈ f.sent v, MarkFree x) (h : Value.parse (straighten v.pretty) = .ok w) :
    f.encodeDocument w = f.encodeDocument v := by
  have hwhole : MarkFree v → f.encodeDocument w = f.encodeDocument v := by
    intro hfree
    rw [straighten_pretty hfree, Value.parse_pretty hv] at h
    rw [Except.ok.inj h]
  cases v with
  | array items =>
    by_cases hn : f.parameters.length < items.length
    · obtain ⟨others, rfl⟩ := exists_of_parse_straighten hv hn hm h
      have hkept : (items.take f.parameters.length).length = f.parameters.length :=
        List.length_take_of_le (by omega)
      have htake : (items.take f.parameters.length ++ others).take f.parameters.length =
          items.take f.parameters.length := List.take_left' hkept
      rw [Callable.encodeDocument, Callable.encodeDocument, Callable.encode, Callable.encode,
        encodeArguments_congr htake]
    -- without values that are left over the whole document is sent
    · refine hwhole (Json.Value.all_array.mpr fun x hx => hm x ?_)
      rw [Callable.sent, List.take_of_length_le (by omega)]
      exact hx
  | _ => exact hwhole (hm _ List.mem_cons_self)

/-! ## What is prepared -/

/-- A document is tidied into its written form. -/
theorem tidy_of_parse {text : String} {v : Value} (h : Value.parse text = .ok v) :
    tidy text = v.pretty := by rw [tidy, h]

namespace Session

/-- A request is prepared for an attached function when a document is read of the buffer and its
arguments can be encoded. -/
theorem prepare_eq_ok {s : Session} {request : Request} :
    s.prepare.1 = .ok request ↔ ∃ exportName document, s.function.exportName = some exportName ∧
      Value.parse (if s.options.sanitizeQuotes then straighten s.buffer else s.buffer) =
        .ok document ∧
      s.function.encodeDocument document = .ok request.payload ∧
      request.target = target exportName s.function.name := by
  rw [prepare_fst, build]
  constructor
  · intro h
    split at h
    · cases h
    · next exportName hexport =>
      split at h
      · cases h
      · next document hdocument =>
        split at h
        · cases h
        · next payload hpayload =>
          obtain rfl := Except.ok.inj h
          exact ⟨exportName, document, hexport, hdocument, hpayload, rfl⟩
  · rintro ⟨exportName, document, hexport, hdocument, hpayload, htarget⟩
    simp only [hexport, hdocument, hpayload, ← htarget]

/-- When a text that is a document has been edited and a request is prepared, its payload is that
of the document unless quotes are straightened and a value that is sent holds some. -/
theorem encodeDocument_of_prepare {s : Session} {text : String} {v : Value} {request : Request}
    (ht : Value.parse text = .ok v) (hp : (s.edit text).prepare.1 = .ok request) :
    s.function.encodeDocument v = .ok request.payload ↔
      s.options.sanitizeQuotes = false ∨ ∀ w ∈ s.function.sent v, MarkFree w := by
  have hv := Json.isDocument_of_parse ht
  obtain ⟨-, document, -, hdocument, hpayload, -⟩ := prepare_eq_ok.mp hp
  rw [edit, tidy_of_parse ht] at hdocument
  change s.function.encodeDocument document = .ok request.payload at hpayload
  cases hs : s.options.sanitizeQuotes with
  | false =>
    simp only [hs, Bool.false_eq_true, ↓reduceIte] at hdocument
    obtain rfl := Except.ok.inj (hdocument.symm.trans (Value.parse_pretty hv))
    simp [hpayload]
  | true =>
    simp only [hs, ↓reduceIte] at hdocument
    simp only [Bool.true_eq_false, false_or]
    constructor
    · intro h
      -- the payload is that of the straightened document too, which holds no quote marks
      have hfree : ∀ w ∈ s.function.sent document, MarkFree w :=
        Callable.all_sent (markFree_of_parse hv hdocument)
      have harguments : ∀ a ∈ request.payload.arguments, MarkFree a.value :=
        (Callable.all_of_encodeDocument hpayload).mpr hfree
      exact (Callable.all_of_encodeDocument h).mp harguments
    · intro hm
      rw [← hpayload]
      exact (encodeDocument_of_parse_straighten hv hm hdocument).symm

/-- A value that is left over may hold quote marks: here it is read as two. -/
theorem encodeDocument_of_prepare_leftover :
    let f : Callable := ⟨"echo", some "api", [⟨"text", .scalar .str []⟩], []⟩
    let request : Request := ⟨target "api" "echo", ⟨[⟨.string "a", .scalar .str []⟩]⟩⟩
    Value.parse "[\"a\", \"b', 'c\"]" = .ok (.array [.string "a", .string "b', 'c"]) ∧
      ((new f ⟨true⟩).edit "[\"a\", \"b', 'c\"]").prepare.1 = .ok request ∧
      f.encodeDocument (.array [.string "a", .string "b', 'c"]) = .ok request.payload := by
  intro f request
  have ht : Value.parse "[\"a\", \"b', 'c\"]" = .ok (.array [.string "a", .string "b', 'c"]) := by
    rfl
  have hbuffer : straighten (Value.array [.string "a", .string "b', 'c"]).pretty =
      "[\n  \"a\",\n  \"b\", \"c\"\n]" := by rfl
  have hread : Value.parse (straighten (tidy "[\"a\", \"b', 'c\"]")) =
      .ok (.array [.string "a", .string "b", .string "c"]) := by
    rw [tidy_of_parse ht, hbuffer]
    rfl
  have hp : ((new f ⟨true⟩).edit "[\"a\", \"b', 'c\"]").prepare.1 = .ok request :=
    prepare_eq_ok.mpr
      ⟨"api", .array [.string "a", .string "b", .string "c"], rfl, hread, rfl, rfl⟩
  have hm : ∀ w ∈ f.sent (.array [.string "a", .string "b', 'c"]), MarkFree w := by
    intro w hw
    obtain rfl := List.mem_singleton.mp hw
    have hunmarked : ∀ c ∈ ['a'], ¬ IsMark c := by simp [IsMark]
    exact hunmarked
  exact ⟨ht, hp, (encodeDocument_of_prepare ht hp).mpr (.inr hm)⟩

/-- An apostrophe in a string that is sent closes the string, and only its beginning is sent. -/
theorem encodeDocument_ne_of_prepare_apostrophe :
    let f : Callable := ⟨"echo", some "api", [⟨"text", .scalar .str []⟩], []⟩
    let request : Request := ⟨target "api" "echo", ⟨[⟨.string "a", .scalar .str []⟩]⟩⟩
    Value.parse "[\"a', 'b\"]" = .ok (.array [.string "a', 'b"]) ∧
      ((new f ⟨true⟩).edit "[\"a', 'b\"]").prepare.1 = .ok request ∧
      f.encodeDocument (.array [.string "a', 'b"]) ≠ .ok request.payload := by
  intro f request
  have ht : Value.parse "[\"a', 'b\"]" = .ok (.array [.string "a', 'b"]) := by rfl
  have hbuffer : straighten (Value.array [.string "a', 'b"]).pretty =
      "[\n  \"a\", \"b\"\n]" := by rfl
  have hread : Value.parse (straighten (tidy "[\"a', 'b\"]")) =
      .ok (.array [.string "a", .string "b"]) := by
    rw [tidy_of_parse ht, hbuffer]
    rfl
  have hp : ((new f ⟨true⟩).edit "[\"a', 'b\"]").prepare.1 = .ok request :=
    prepare_eq_ok.mpr ⟨"api", .array [.string "a", .string "b"], rfl, hread, rfl, rfl⟩
  refine ⟨ht, hp, fun h => ?_⟩
  have hvalue : (⟨[⟨.string "a', 'b", .scalar .str []⟩]⟩ : Payload) = request.payload :=
    Except.ok.inj h
  simp [request] at hvalue

end Session

end Editor

end TypedCall
