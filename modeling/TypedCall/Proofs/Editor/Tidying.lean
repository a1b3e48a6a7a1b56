import TypedCall.Proofs.Editor.Preparing
import TypedCall.Proofs.Json.Nesting

/-!
# Tidying a text

A text that is tidied is the layout of the document in it, and reads as the same document; a text
that is no document stays as it is. So tidying a second time changes nothing. That is also so of the
layout of a value which is too deep to be read, as the text may be that an editor starts from
(`tidy_pretty`), and with it of every buffer that a session ever holds (`tidy_buffer_run`).
-/

namespace TypedCall.Editor

open Json (Value)

/-! ## Texts -/

/-- A text that is no document is left as it is. -/
theorem tidy_of_error {text : String} {fault : Json.SyntaxError}
    (h : Value.parse text = .error fault) : tidy text = text := by
  rw [tidy, h]

/-- The layout of a value is tidy, whether it can be read again or not. -/
theorem tidy_pretty {v : Value} (hv : v.All Json.Number.Fits fun _ => True)
    (hw : v.WellFormed) : tidy v.pretty = v.pretty := by
  cases h : Value.parse v.pretty with
  -- the value is too deep to be read
  | error fault => exact tidy_of_error h
  | ok w =>
    obtain rfl : w = v := Value.eq_of_parse_pretty hv hw h
    exact tidy_of_parse h

/-- Tidying a text again changes nothing. -/
theorem tidy_tidy (text : String) : tidy (tidy text) = tidy text := by
  cases h : Value.parse text with
  | error fault => rw [tidy_of_error h, tidy_of_error h]
  | ok v =>
    have hv := Json.isDocument_of_parse h
    rw [tidy_of_parse h, tidy_pretty hv.all hv.wellFormed]

/-- A document that is tidied is read as the same document. -/
theorem parse_tidy {text : String} {v : Value} (h : Value.parse text = .ok v) :
    Value.parse (tidy text) = .ok v := by
  rw [tidy_of_parse h]
  exact Value.parse_pretty (Json.isDocument_of_parse h)

/-! ## Buffers -/

/-- The text that an editor starts with is tidy. -/
theorem tidy_startText (f : Callable) : tidy f.startText = f.startText := by
  have hall : (Value.array f.skeleton).All Json.Number.Fits fun _ => True := by
    rw [Json.Value.all_array, Callable.skeleton, List.forall_mem_map]
    exact fun p _ => p.typ.all_skeleton
  have hw : (Value.array f.skeleton).WellFormed := by
    rw [Json.Value.wellFormed_array, Callable.skeleton, List.forall_mem_map]
    exact fun p _ => p.typ.wellFormed_skeleton
  exact tidy_pretty hall hw

namespace Session

/-- A step leaves the buffer as it was, or tidy. -/
theorem tidy_buffer_step {s : Session} (h : tidy s.buffer = s.buffer) (x : Step) :
    tidy (s.step x).buffer = (s.step x).buffer := by
  rw [step_buffer]
  cases x.text? with
  | none => exact h
  | some text => exact tidy_tidy text

/-- Once the buffer is tidy, every run leaves it so. -/
theorem tidy_buffer_run {s : Session} (h : tidy s.buffer = s.buffer) (steps : List Step) :
    tidy (s.run steps).buffer = (s.run steps).buffer := by
  induction steps generalizing s with
  | nil => exact h
  | cons x xs ih => exact ih (tidy_buffer_step h x)

end Session

/-- **Tidying keeps what a text means, and is done once.** A text that is no document stays as it
is; a document is laid out, and read of its layout exactly as it was read before. Tidying a second
time changes nothing, neither of a text nor of what a session holds after any steps, however deep
the skeletons are that it began with. -/
theorem tidy_normalises :
    (∀ text, (∀ fault, Value.parse text = .error fault → tidy text = text) ∧
      (∀ v, Value.parse text = .ok v → tidy text = v.pretty ∧ Value.parse (tidy text) = .ok v) ∧
      tidy (tidy text) = tidy text) ∧
    ∀ (f : Callable) (options : Options) (steps : List Session.Step),
      let s := (Session.new f options).run steps
      tidy s.buffer = s.buffer := by
  refine ⟨fun text => ⟨fun fault => tidy_of_error, fun v hv => ?_, tidy_tidy text⟩,
    fun f options steps => ?_⟩
  · exact ⟨tidy_of_parse hv, parse_tidy hv⟩
  · exact Session.tidy_buffer_run (s := Session.new f options) (tidy_startText f) steps

/-- A key that is repeated and a zero with a sign are settled when the document is read first, and
an array that is not closed yet is left alone. -/
theorem tidy_normalises_repeated :
    let text := "\x7b\"a\":1,\"b\":-0,\"a\":[ ]\x7d"
    let v : Value := .object [("a", .array []), ("b", .number (.double (.zero true)))]
    let unclosed := "[1, 2"
    (Value.parse text = .ok v ∧ tidy text = v.pretty ∧ Value.parse (tidy text) = .ok v) ∧
      Value.parse unclosed = .error ⟨.endInList, ⟨1, 5⟩⟩ ∧ tidy unclosed = unclosed := by
  intro text v unclosed
  have htext : Value.parse text = .ok v := by
    simp only [text]
    rfl
  have hunclosed : Value.parse unclosed = .error ⟨.endInList, ⟨1, 5⟩⟩ := by
    simp only [unclosed]
    rfl
  exact ⟨⟨htext, (tidy_normalises.1 text).2.1 v htext⟩,
    hunclosed, (tidy_normalises.1 unclosed).1 _ hunclosed⟩

end TypedCall.Editor
