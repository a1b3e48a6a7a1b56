import TypedCall.Proofs.Editor.Preparing
import Mathlib.Data.List.Induction

/-!
# Results of requests that were answered

A preparation that fails sets the error and leaves the result, so a session can show both. It does
not when every result answers a request that the present text has made (`AnswersPrepared`): while
such a result is shown the text still makes its request, so no preparation fails. This is kept by
every step (`Answered.step`), and `result_excludes_error` reads it off all states of a run.
-/

namespace TypedCall.Editor.Session

open Json (Value)

/-! ## Runs in which answers are answers -/

/-- Some preparation behind the last edit of the run returned a request. -/
def HasPrepared (s : Session) (steps : List Step) : Prop :=
  ∃ before after request, steps = before ++ .prepare :: after ∧
    (∀ text, .edit text ∉ after) ∧ (s.run before).prepare.1 = .ok request

/-- Every answer that is accepted in the run comes behind such a preparation. -/
def AnswersPrepared (s : Session) (steps : List Step) : Prop :=
  ∀ before body after, steps = before ++ .accept body :: after → s.HasPrepared before

/-- One more step is in order unless it is an answer to nothing. -/
theorem answersPrepared_concat {s : Session} {steps : List Step} {x : Step} :
    s.AnswersPrepared (steps ++ [x]) ↔
      s.AnswersPrepared steps ∧ ∀ body, x = .accept body → s.HasPrepared steps := by
  constructor
  · intro h
    refine ⟨fun before body after hsteps => ?_, fun body hx => ?_⟩
    · exact h before body (after ++ [x]) (by simp [hsteps])
    · exact h steps body [] (by rw [hx])
  · rintro ⟨h, hx⟩ before body after hsteps
    -- the answer stands at the end of the run, or before it
    rcases List.eq_nil_or_concat after with rfl | ⟨after, y, rfl⟩
    · obtain ⟨rfl, hlast⟩ := List.append_inj' hsteps rfl
      exact hx body (List.singleton_inj.mp hlast)
    · have hsplit : steps ++ [x] = (before ++ .accept body :: after) ++ [y] := by simpa using hsteps
      exact h before body after (List.append_inj' hsplit rfl).1

/-- The beginning of a run in order is in order. -/
theorem AnswersPrepared.of_prefix {s : Session} {before steps : List Step}
    (h : s.AnswersPrepared steps) (hb : before <+: steps) : s.AnswersPrepared before := by
  obtain ⟨others, rfl⟩ := hb
  intro before' body after hbefore
  exact h before' body (after ++ others) (by simp [hbefore])

/-! ## What is prepared between edits -/

/-- A step that brings no text does not change what a preparation returns. -/
theorem prepare_step {s : Session} {x : Step} (hx : x.text? = none) :
    (s.step x).prepare.1 = s.prepare.1 := by
  rw [prepare_fst, prepare_fst, step_function, step_options, step_buffer, hx]
  rfl

/-- Without an edit the same is prepared again and again. -/
theorem prepare_run {s : Session} {steps : List Step} (h : ∀ text, .edit text ∉ steps) :
    (s.run steps).prepare.1 = s.prepare.1 := by
  induction steps generalizing s with
  | nil => rfl
  | cons x xs ih =>
    have hx : x.text? = none := by
      cases x with
      | edit text => exact absurd List.mem_cons_self (h text)
      | prepare | accept body | reject body => rfl
    have hxs : ∀ text, .edit text ∉ xs := fun text hmem => h text (List.mem_cons_of_mem x hmem)
    calc (s.run (x :: xs)).prepare.1 = ((s.step x).run xs).prepare.1 := rfl
      _ = (s.step x).prepare.1 := ih hxs
      _ = s.prepare.1 := prepare_step hx

/-- What was prepared with success is still prepared with success. -/
theorem HasPrepared.prepare {s : Session} {steps : List Step} (h : s.HasPrepared steps) :
    ∃ request, (s.run steps).prepare.1 = .ok request := by
  obtain ⟨before, after, request, rfl, hafter, hrequest⟩ := h
  refine ⟨request, ?_⟩
  have hrun : s.run (before ++ .prepare :: after) = ((s.run before).step .prepare).run after :=
    List.foldl_append
  rw [hrun, prepare_run hafter, prepare_step rfl, hrequest]

/-! ## States that show an answer -/

/-- While a result is shown there is no error, and the text makes a request. -/
structure Answered (s : Session) : Prop where
  error : s.result.isSome → s.error = none
  request : s.result.isSome → ∃ request, s.prepare.1 = .ok request

theorem answered_new (f : Callable) (options : Options) : (new f options).Answered :=
  ⟨nofun, nofun⟩

/-- Each step keeps this, if an answer is accepted only of a text that makes a request. -/
theorem Answered.step {s : Session} (h : s.Answered) (x : Step)
    (hx : ∀ body, x = .accept body → ∃ request, s.prepare.1 = .ok request) :
    (s.step x).Answered := by
  cases x with
  | edit text => exact ⟨nofun, nofun⟩
  | reject body => exact ⟨nofun, nofun⟩
  | accept body =>
    obtain ⟨request, hrequest⟩ := hx body rfl
    exact ⟨fun _ => rfl, fun _ => ⟨request, (prepare_step rfl).trans hrequest⟩⟩
  | prepare =>
    have hresult : (s.step .prepare).result = s.result := step_result s .prepare
    have herror : (s.step .prepare).error = (Entry.mk .prepare (some s.prepare.1)).error? :=
      step_error s .prepare
    refine ⟨fun hshown => ?_, fun hshown => ?_⟩
    -- the text that the result answers is the text that is prepared now
    · obtain ⟨request, hrequest⟩ := h.request (hresult ▸ hshown)
      rw [herror, hrequest]
      rfl
    · obtain ⟨request, hrequest⟩ := h.request (hresult ▸ hshown)
      exact ⟨request, (prepare_step rfl).trans hrequest⟩

/-- In a run in order, a result that is shown stands beside a request that can be built. -/
theorem answered_run {f : Callable} {options : Options} {steps : List Step}
    (h : (new f options).AnswersPrepared steps) : ((new f options).run steps).Answered := by
  induction steps using List.reverseRecOn with
  | nil => exact answered_new f options
  | append_singleton steps x ih =>
    obtain ⟨hsteps, hx⟩ := answersPrepared_concat.mp h
    rw [run_concat]
    exact (ih hsteps).step x fun body hbody => (hx body hbody).prepare

/-- **A result is never shown together with an error,** when every answer that is accepted answers a
request of the present text: in every state of such a run a result excludes an error, and while
there is a result the text makes a request. -/
theorem result_excludes_error {f : Callable} {options : Options} {steps : List Step}
    (h : (new f options).AnswersPrepared steps) {before : List Step} (hb : before <+: steps) :
    let s := (new f options).run before
    ¬ (s.result.isSome ∧ s.error.isSome) ∧
      (s.result.isSome → ∃ request, s.prepare.1 = .ok request) := by
  intro s
  have hs : s.Answered := answered_run (h.of_prefix hb)
  refine ⟨?_, hs.request⟩
  rintro ⟨hresult, herror⟩
  rw [hs.error hresult] at herror
  cases herror

/-- An answer is accepted, and again behind a rejection; then the text is spoilt. The first result
is there when the same text is prepared again. -/
theorem result_excludes_error_answered :
    let f : Callable := ⟨"echo", some "api", [⟨"text", .scalar .str []⟩], []⟩
    let answer : Value := .object [("result", .object [("value", .bool true)])]
    let first : List Step := [.prepare, .accept answer, .prepare]
    let steps := first ++ [.reject .null, .accept answer, .edit "[", .prepare]
    let s := (new f ⟨false⟩).run first
    (new f ⟨false⟩).AnswersPrepared steps ∧ s.result = some "true" ∧
      ¬ (s.result.isSome ∧ s.error.isSome) ∧ ∃ request, s.prepare.1 = .ok request := by
  intro f answer first steps s
  obtain ⟨request, hrequest⟩ : ∃ request, (new f ⟨false⟩).prepare.1 = .ok request :=
    ⟨_, (prepare_untouched (by decide) (.inl rfl)).1⟩
  have hanswers : (new f ⟨false⟩).AnswersPrepared (first ++ [.reject .null, .accept answer]) := by
    intro before body after hsplit
    cases before with
    | nil => simp [first] at hsplit
    | cons x before =>
      have hcons : [.accept answer, .prepare, .reject .null, .accept answer] =
          before ++ .accept body :: after := (List.cons.inj hsplit).2
      obtain rfl : .prepare = x := (List.cons.inj hsplit).1
      -- nothing is edited before the last answer
      refine ⟨[], before, request, rfl, fun text hedit => ?_, hrequest⟩
      have hmem : Step.edit text ∈ before ++ .accept body :: after := List.mem_append_left _ hedit
      simp [← hcons] at hmem
  have hedited : (new f ⟨false⟩).AnswersPrepared
      (first ++ [.reject .null, .accept answer] ++ [.edit "["]) :=
    answersPrepared_concat.mpr ⟨hanswers, nofun⟩
  have hsteps : (new f ⟨false⟩).AnswersPrepared steps :=
    (answersPrepared_concat (x := .prepare)).mpr ⟨hedited, nofun⟩
  have hresult : s.result = some "true" := step_result _ .prepare
  obtain ⟨hexcludes, hrequest⟩ := result_excludes_error hsteps (List.prefix_append first _)
  exact ⟨hsteps, hresult, hexcludes, hrequest (by rw [hresult]; rfl)⟩

end TypedCall.Editor.Session
