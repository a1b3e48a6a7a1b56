import TypedCall.Editor.Session

/-!
# The history of a session

A session does not keep its steps, but what it shows is settled by them: the buffer by the last
edit, the result by the last step that is no preparation, the error by the last step alone, and
the notices by every step in its turn. `Follows` says so of a state and a list of steps;
`follows_run_new` shows it of the state that any run leaves of a new session.

A preparation is the one step that returns something. `log` puts what it returned beside each
step, so that errors and notices can be read off the run itself.
-/

namespace TypedCall.Editor.Session

open Json (Value)

/-! ## What a history says -/

/-- A step together with what it returned; only a preparation returns something. -/
structure Entry where
  step : Step
  returned : Option (Except SessionError Request)

/-- What a step returns in a state. -/
def returned (s : Session) : Step → Option (Except SessionError Request)
  | .prepare => some s.prepare.1
  | .edit _ | .accept _ | .reject _ => none

/-- The steps of a run, each with what it returned. -/
def log (s : Session) : List Step → List Entry
  | [] => []
  | x :: xs => ⟨x, s.returned x⟩ :: (s.step x).log xs

/-- The text that a step brings. -/
def Step.text? : Step → Option String
  | .edit text => some text
  | .prepare | .accept _ | .reject _ => none

/-- The text of the last edit. -/
def lastText (steps : List Step) : Option String := steps.reverse.findSome? Step.text?

/-- Does the step settle what is shown as the result? -/
def Step.settlesResult : Step → Bool
  | .prepare => false
  | .edit _ | .accept _ | .reject _ => true

/-- The result that a step leaves: the one it accepts, if any. -/
def Step.result? : Step → Option String
  | .accept body => some (Response.resultText body)
  | .edit _ | .prepare | .reject _ => none

/-- The error that a step leaves: its own rejection, or the failure of its preparation. -/
def Entry.error? : Entry → Option SessionError
  | ⟨.reject body, _⟩ => some (.rejected (Response.failureText body))
  | ⟨.prepare, some (.error e)⟩ => some e
  | _ => none

/-- The notices that a step gives: one for a rejection and one for a preparation that failed. -/
def Entry.notices : Entry → List Notice
  | ⟨.reject body, _⟩ => [⟨"API request failed.", Response.failureText body⟩]
  | ⟨.prepare, some (.error e)⟩ => [⟨"Invalid invocation arguments.", e.message⟩]
  | _ => []

/-- A new session that has seen no step but an edit, if there is a text for it. -/
def fresh (f : Callable) (options : Options) : Option String → Session
  | some text => (new f options).edit text
  | none => new f options

/-- The state shows what the steps settle. -/
structure Follows (f : Callable) (options : Options) (steps : List Step) (s : Session) : Prop where
  function_eq : s.function = f
  options_eq : s.options = options
  buffer : s.buffer = ((lastText steps).map tidy).getD f.startText
  result : s.result = (steps.reverse.find? Step.settlesResult).bind Step.result?
  error : s.error = ((new f options).log steps).getLast?.bind Entry.error?
  notices : s.notices = ((new f options).log steps).flatMap Entry.notices
  prepare : s.prepare.1 = (fresh f options (lastText steps)).prepare.1
  logged : ((new f options).log steps).map Entry.step = steps

/-! ## One step -/

theorem step_function (s : Session) (x : Step) : (s.step x).function = s.function := by
  cases x with
  | prepare => simp only [step, prepare]; split <;> rfl
  | _ => rfl

theorem step_options (s : Session) (x : Step) : (s.step x).options = s.options := by
  cases x with
  | prepare => simp only [step, prepare]; split <;> rfl
  | _ => rfl

/-- Only an edit changes the buffer, to its own text tidied. -/
theorem step_buffer (s : Session) (x : Step) :
    (s.step x).buffer = (x.text?.map tidy).getD s.buffer := by
  cases x with
  | prepare => simp only [step, prepare]; split <;> rfl
  | _ => rfl

/-- Every step but a preparation settles the result. -/
theorem step_result (s : Session) (x : Step) :
    (s.step x).result = if x.settlesResult then x.result? else s.result := by
  cases x with
  | prepare => simp only [step, prepare]; split <;> rfl
  | _ => rfl

/-- Each step leaves its own error or none. -/
theorem step_error (s : Session) (x : Step) :
    (s.step x).error = (Entry.mk x (s.returned x)).error? := by
  cases x with
  | prepare =>
    simp only [step, returned, prepare]
    split <;> rfl
  | _ => rfl

/-- Each step puts its notices behind those before. -/
theorem step_notices (s : Session) (x : Step) :
    (s.step x).notices = s.notices ++ (Entry.mk x (s.returned x)).notices := by
  cases x with
  | prepare =>
    simp only [step, returned, prepare]
    split <;> simp [Entry.notices]
  | reject body => rfl
  | edit text => exact (List.append_nil _).symm
  | accept body => exact (List.append_nil _).symm

/-- What a preparation returns depends on the function, the options and the buffer only. -/
theorem prepare_fst (s : Session) : s.prepare.1 = build s.function s.options s.buffer := by
  rw [prepare]
  split
  · next h => exact h.symm
  · next h => exact h.symm

/-! ## Runs -/

@[simp] theorem run_nil (s : Session) : s.run [] = s := rfl

theorem run_concat (s : Session) (steps : List Step) (x : Step) :
    s.run (steps ++ [x]) = (s.run steps).step x := by
  rw [run, List.foldl_append]
  rfl

theorem log_concat (s : Session) (steps : List Step) (x : Step) :
    s.log (steps ++ [x]) = s.log steps ++ [⟨x, (s.run steps).returned x⟩] := by
  induction steps generalizing s with
  | nil => rfl
  | cons y ys ih => simp only [List.cons_append, log, ih]; rfl

/-- A log lists the steps of the run, none lost or repeated. -/
theorem map_step_log (s : Session) (steps : List Step) : (s.log steps).map Entry.step = steps := by
  induction steps generalizing s with
  | nil => rfl
  | cons x xs ih => rw [log, List.map_cons, ih]

/-- The last step brings the text, if it brings any. -/
theorem lastText_concat (steps : List Step) (x : Step) :
    lastText (steps ++ [x]) = x.text?.or (lastText steps) := by
  rw [lastText, List.reverse_append, List.reverse_singleton, List.singleton_append,
    List.findSome?_cons]
  cases x.text? <;> rfl

theorem fresh_function (f : Callable) (options : Options) (text : Option String) :
    (fresh f options text).function = f := by
  cases text <;> rfl

theorem fresh_options (f : Callable) (options : Options) (text : Option String) :
    (fresh f options text).options = options := by
  cases text <;> rfl

theorem fresh_buffer (f : Callable) (options : Options) (text : Option String) :
    (fresh f options text).buffer = (text.map tidy).getD f.startText := by
  cases text <;> rfl

/-- Preparing in a state with the function, the options and the buffer of a history returns what
it returns in a session that has seen the last edit only. -/
theorem prepare_fst_eq_fresh {f : Callable} {options : Options} {text : Option String}
    {s : Session} (hf : s.function = f) (ho : s.options = options)
    (hb : s.buffer = (text.map tidy).getD f.startText) :
    s.prepare.1 = (fresh f options text).prepare.1 := by
  rw [prepare_fst, prepare_fst, hf, ho, hb, fresh_function, fresh_options, fresh_buffer]

/-- A new session follows the history without steps. -/
theorem follows_new (f : Callable) (options : Options) : Follows f options [] (new f options) :=
  ⟨rfl, rfl, rfl, rfl, rfl, rfl, rfl, rfl⟩

/-- One more step keeps the state in accord with its history. -/
theorem Follows.step {f : Callable} {options : Options} {steps : List Step}
    (h : Follows f options steps ((new f options).run steps)) (x : Step) :
    Follows f options (steps ++ [x]) ((new f options).run (steps ++ [x])) := by
  rw [run_concat]
  have hfunction := (step_function _ x).trans h.function_eq
  have hoptions := (step_options _ x).trans h.options_eq
  have hbuffer : (((new f options).run steps).step x).buffer =
      ((lastText (steps ++ [x])).map tidy).getD f.startText := by
    rw [step_buffer, h.buffer, lastText_concat]
    cases x.text? <;> rfl
  refine ⟨hfunction, hoptions, hbuffer, ?_, ?_, ?_, ?_, map_step_log _ _⟩
  · rw [step_result, h.result, List.reverse_append, List.reverse_singleton,
      List.singleton_append, List.find?_cons]
    cases x.settlesResult <;> rfl
  · rw [step_error, log_concat, List.getLast?_concat, Option.bind_some]
  · rw [step_notices, h.notices, log_concat, List.flatMap_append, List.flatMap_singleton]
  · exact prepare_fst_eq_fresh hfunction hoptions hbuffer

/-- After any steps a session that began as new shows what its history settles: the buffer of the
last edit, the result of the last step that is no preparation, the error of the last step, the
notices of all steps in their order; and it prepares what a session prepares that has seen the
last edit only. -/
theorem follows_run_new (f : Callable) (options : Options) (steps : List Step) :
    Follows f options steps ((new f options).run steps) := by
  -- from the end, where the step stands that settles the result and the error
  rw [← List.reverse_reverse steps]
  induction steps.reverse with
  | nil => exact follows_new f options
  | cons x xs ih =>
    rw [List.reverse_cons]
    exact ih.step x

end TypedCall.Editor.Session
