import TypedCall.Proofs.Editor.History
import TypedCall.Proofs.Json.Characters
import Mathlib.Data.List.Induction

/-!
# On how many lines a rejection is told

The description of a failure takes strings of the answer over as they stand, line breaks included,
and writes everything else compactly, where no line break can show. So a description stands on one
line exactly when every string that it takes over does (`oneLine_failureText_iff`). A session tells
each rejection in a notice and keeps the last one as its error, and `rejections_oneLine_iff` says
when all of them stand on one line. Not all do (`rejection_on_two_lines`).
-/

namespace TypedCall

open Json (Value Members IsControl)

namespace Response

/-- The text has no line break: neither a line feed nor a carriage return. -/
def OneLine (s : String) : Prop := '\n' ∉ s.toList ∧ '\r' ∉ s.toList

instance : DecidablePred OneLine := fun _ => inferInstanceAs (Decidable (_ ∧ _))

/-- The description of a failure takes the string over: the one at `error`, else each one in the
list at `errors`, or the whole body. -/
inductive TakesOver (body : Value) : String → Prop
  | error {s} (h : body.member? "error" = some (.string s)) : TakesOver body s
  | entry {s errors} (hother : ∀ t, body.member? "error" ≠ some (.string t))
    (h : body.member? "errors" = some (.array errors)) (hs : .string s ∈ errors) : TakesOver body s
  | whole {s} (h : body = .string s) : TakesOver body s

/-! ## One description -/

section Description

variable {body : Value} {s t : String} {c : Char}

/-- A string has no members. -/
theorem member?_of_string (h : body = .string s) (key : String) : body.member? key = none := by
  rw [h]
  rfl

/-- A text under `error` is taken over before anything else. -/
theorem takesOver_of_error (h : body.member? "error" = some (.string s)) :
    TakesOver body t ↔ t = s := by
  constructor
  · intro ht
    cases ht with
    | error h' =>
      rw [h] at h'
      cases h'
      rfl
    | entry hother _ _ => exact absurd h (hother s)
    | whole hstring =>
      rw [member?_of_string hstring] at h
      cases h
  · rintro rfl
    exact .error h

/-- Without such a text, the texts of a list under `errors` are taken over. -/
theorem takesOver_of_errors {errors : List Value}
    (hother : ∀ t, body.member? "error" ≠ some (.string t))
    (h : body.member? "errors" = some (.array errors)) :
    TakesOver body t ↔ .string t ∈ errors := by
  constructor
  · intro ht
    cases ht with
    | error h' => exact absurd h' (hother t)
    | entry _ h' hs =>
      rw [h] at h'
      cases h'
      exact hs
    | whole hstring =>
      rw [member?_of_string hstring] at h
      cases h
  · exact .entry hother h

/-- Otherwise a body is taken over if it is a text itself. -/
theorem takesOver_of_other (herror : ∀ t, body.member? "error" ≠ some (.string t))
    (herrors : ∀ errors, body.member? "errors" ≠ some (.array errors)) :
    TakesOver body t ↔ body = .string t := by
  constructor
  · intro ht
    cases ht with
    | error h => exact absurd h (herror t)
    | entry _ h _ => exact absurd h (herrors _)
    | whole h => exact h
  · exact .whole

/-- A bare text shows a control character only of a string. -/
theorem control_mem_bareText_iff (hc : IsControl c) (v : Value) :
    c ∈ (bareText v).toList ↔ ∃ t, v = .string t ∧ c ∈ t.toList := by
  have hcompact : c ∉ v.compact.toList := by
    rw [Value.compact, String.toList_ofList]
    exact fun hmem => Value.not_isControl_compactChars v c hmem hc
  cases v with
  | string s => simp [bareText]
  | _ => simpa [bareText] using hcompact

/-- The control characters of a description are those of the strings that it takes over. -/
theorem control_mem_failureText_iff (hc : IsControl c) (body : Value) :
    c ∈ (failureText body).toList ↔ ∃ t, TakesOver body t ∧ c ∈ t.toList := by
  rw [failureText]
  split
  · next s h => simp [takesOver_of_error h]
  · next herror =>
    split
    · next errors h =>
      have hseparator : c ∉ ", ".toList := by
        intro hmem
        have hall : ∀ d ∈ ", ".toList, ¬ IsControl d := by simp [IsControl]
        exact hall c hmem hc
      rw [String.toList_intercalate, Json.mem_intercalate_iff hseparator]
      simp only [takesOver_of_errors herror h, List.map_map, List.mem_map, Function.comp_apply,
        exists_exists_and_eq_and, control_mem_bareText_iff hc]
      constructor
      · rintro ⟨v, hv, t, rfl, ht⟩
        exact ⟨t, hv, ht⟩
      · rintro ⟨t, hmem, ht⟩
        exact ⟨_, hmem, t, rfl, ht⟩
    · next herrors =>
      simp only [takesOver_of_other herror herrors]
      exact control_mem_bareText_iff hc body

/-- A description stands on one line exactly when all that it takes over does. -/
theorem oneLine_failureText_iff (body : Value) :
    OneLine (failureText body) ↔ ∀ t, TakesOver body t → OneLine t := by
  have hfeed : IsControl '\n' := by decide
  have hreturn : IsControl '\r' := by decide
  rw [OneLine, control_mem_failureText_iff hfeed, control_mem_failureText_iff hreturn]
  constructor
  · rintro ⟨hn, hr⟩ t ht
    exact ⟨fun hmem => hn ⟨t, ht, hmem⟩, fun hmem => hr ⟨t, ht, hmem⟩⟩
  · intro h
    exact ⟨fun ⟨t, ht, hmem⟩ => (h t ht).1 hmem, fun ⟨t, ht, hmem⟩ => (h t ht).2 hmem⟩

end Description

end Response

namespace Editor.Session

open Response (OneLine TakesOver failureText oneLine_failureText_iff)

/-! ## The rejections of a run -/

/-- The notice that tells a rejection. -/
def rejection (body : Value) : Notice := ⟨"API request failed.", failureText body⟩

/-- Does the notice tell a rejection? -/
def IsRejection (n : Notice) : Prop := n.title = "API request failed."

/-- Nothing that goes wrong with a preparation is a rejection. -/
theorem build_ne_rejected (f : Callable) (options : Options) (buffer d : String) :
    build f options buffer ≠ .error (.rejected d) := by
  intro h
  rw [build] at h
  repeat' split at h
  all_goals cases h

/-- A step tells the rejection of its own body, if it has one, and no other. -/
theorem mem_notices_step_iff (s : Session) (x : Step) (n : Notice) :
    (n ∈ (s.step x).notices ∧ IsRejection n) ↔
      (n ∈ s.notices ∧ IsRejection n) ∨ ∃ body, x = .reject body ∧ n = rejection body := by
  rw [step_notices, List.mem_append, or_and_right]
  refine or_congr_right ?_
  cases x with
  | edit text => simp [Entry.notices]
  | accept body => simp [Entry.notices]
  | reject body =>
    simp only [Entry.notices, List.mem_singleton, Step.reject.injEq, exists_eq_left', rejection]
    exact and_iff_left_of_imp fun hn => hn ▸ rfl
  | prepare =>
    rw [returned]
    cases s.prepare.1 with
    | ok request => simp [Entry.notices]
    | error e =>
      simp only [Entry.notices, List.mem_singleton, reduceCtorEq, false_and, exists_false,
        iff_false, not_and]
      rintro rfl
      simp [IsRejection]

/-- The rejections that are noticed are those of before and those of the steps. -/
theorem mem_notices_run_iff (s : Session) (steps : List Step) (n : Notice) :
    (n ∈ (s.run steps).notices ∧ IsRejection n) ↔
      (n ∈ s.notices ∧ IsRejection n) ∨ ∃ body, .reject body ∈ steps ∧ n = rejection body := by
  induction steps using List.reverseRecOn with
  | nil => simp
  | append_singleton steps x ih =>
    rw [run_concat, mem_notices_step_iff, ih, or_assoc]
    simp only [List.mem_append, List.mem_singleton, or_and_right, exists_or, eq_comm (a := x)]

/-- The error is a rejection behind a step that rejects, and behind no other. -/
theorem error_step_eq_rejected_iff (s : Session) (x : Step) (d : String) :
    (s.step x).error = some (.rejected d) ↔ ∃ body, x = .reject body ∧ d = failureText body := by
  rw [step_error]
  cases x with
  | edit text => simp [Entry.error?]
  | accept body => simp [Entry.error?]
  | reject body => simp [Entry.error?, eq_comm]
  | prepare =>
    have hbuild := build_ne_rejected s.function s.options s.buffer d
    rw [returned, prepare_fst]
    cases hreturned : build s.function s.options s.buffer with
    | ok request => simp [Entry.error?]
    | error e =>
      rw [hreturned] at hbuild
      simpa [Entry.error?] using hbuild

/-- A rejection is shown as the error exactly when it is the last step. -/
theorem error_run_eq_rejected_iff (f : Callable) (options : Options) (steps : List Step)
    (d : String) :
    ((new f options).run steps).error = some (.rejected d) ↔
      ∃ body, steps.getLast? = some (.reject body) ∧ d = failureText body := by
  rcases List.eq_nil_or_concat steps with rfl | ⟨steps, x, rfl⟩
  · simp [new]
  · rw [List.concat_eq_append, run_concat, error_step_eq_rejected_iff, List.getLast?_concat]
    simp only [Option.some.injEq]

/-- **On one line or more.** A description stands on one line exactly when each string that it
takes over does. In a session the notices of rejections are those of the bodies that were rejected,
each with its description, and the error is a rejection exactly when the last step was one. So all
rejections are told on one line exactly when no string with a line break is taken over from any of
the bodies. -/
theorem rejections_oneLine_iff (f : Callable) (options : Options) (steps : List Step) :
    let s := (new f options).run steps
    (∀ body, OneLine (failureText body) ↔ ∀ t, TakesOver body t → OneLine t) ∧
    (∀ n, (n ∈ s.notices ∧ IsRejection n) ↔ ∃ body, .reject body ∈ steps ∧ n = rejection body) ∧
    (∀ d, s.error = some (.rejected d) ↔
      ∃ body, steps.getLast? = some (.reject body) ∧ d = failureText body) ∧
    ((∀ n ∈ s.notices, IsRejection n → OneLine n.description) ↔
      ∀ body, .reject body ∈ steps → ∀ t, TakesOver body t → OneLine t) := by
  have hnotices : ∀ n, (n ∈ ((new f options).run steps).notices ∧ IsRejection n) ↔
      ∃ body, .reject body ∈ steps ∧ n = rejection body := fun n => by
    have hnew : (new f options).notices = [] := rfl
    simp [mem_notices_run_iff, hnew]
  intro s
  refine ⟨oneLine_failureText_iff, hnotices, error_run_eq_rejected_iff f options steps,
    fun h body hbody => ?_, fun h n hn hrejection => ?_⟩
  · obtain ⟨hn, hrejection⟩ := (hnotices (rejection body)).mpr ⟨body, hbody, rfl⟩
    exact (oneLine_failureText_iff body).mp (h _ hn hrejection)
  · obtain ⟨body, hbody, rfl⟩ := (hnotices n).mp ⟨hn, hrejection⟩
    exact (oneLine_failureText_iff body).mpr (h body hbody)

/-- Of the entries of a list only strings are taken over: the line feed inside an object is written
as an escape, and the rejection stands on one line. -/
theorem rejections_oneLine_iff_escaped :
    let body : Value := .object [("error", .null),
      ("errors", .array [.string "no worker", .object [("note", .string "a\nb")]])]
    let s := (new ⟨"echo", some "api", [], []⟩ ⟨true⟩).run [.prepare, .reject body]
    (∀ t, TakesOver body t → OneLine t) ∧
      failureText body = "no worker, \x7b\"note\":\"a\\nb\"\x7d" ∧
      (∀ n ∈ s.notices, IsRejection n → OneLine n.description) ∧
      s.error = some (.rejected (failureText body)) := by
  intro body s
  have hother : ∀ t, body.member? "error" ≠ some (.string t) := by
    intro t
    simp [body, Value.member?, Members.find?]
  have htaken : ∀ t, TakesOver body t → OneLine t := by
    intro t ht
    have hmem := (Response.takesOver_of_errors hother rfl).mp ht
    obtain rfl : t = "no worker" := by simpa using hmem
    decide
  obtain ⟨-, -, herror, hnotices⟩ :=
    rejections_oneLine_iff ⟨"echo", some "api", [], []⟩ ⟨true⟩ [.prepare, .reject body]
  refine ⟨htaken, by decide, hnotices.mpr fun b hb => ?_, (herror _).mpr ⟨body, rfl, rfl⟩⟩
  obtain rfl : b = body := by simpa using hb
  exact htaken

/-- A line feed or a carriage return in a string of the answer is told as it is, wherever the string
stands, and kept so in the notice and in the error of the session. -/
theorem rejection_on_two_lines :
    let body : Value := .object [("error", .string "worker failed:\nout of memory")]
    let s := (new ⟨"echo", some "api", [], []⟩ ⟨true⟩).reject body
    (failureText body = "worker failed:\nout of memory" ∧ ¬ OneLine (failureText body) ∧
      s.error = some (.rejected (failureText body)) ∧
      s.notices = [⟨"API request failed.", failureText body⟩]) ∧
    ¬ OneLine (failureText (.object [("errors", .array [.string "a\rb", .null])])) ∧
    ¬ OneLine (failureText (.string "a\nb")) := by
  exact ⟨⟨by decide, by decide, rfl, rfl⟩, by decide, by decide⟩

end Editor.Session

end TypedCall
