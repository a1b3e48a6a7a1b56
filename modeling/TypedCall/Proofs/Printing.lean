import TypedCall.Program

/-!
# What a command prints

A command settles everything that can fail before it prints its first line. So there is a list of
lines, or a failure, that says all of a run (`Command.lines`): a run that fails has printed nothing,
and a run that succeeds has printed these lines (`prints_execute`).
-/

namespace TypedCall

/-- A text made of lines. -/
def linesText : List String → String
  | [] => ""
  | line :: lines => line ++ "\n" ++ linesText lines

/-- The computation prints the lines when there are some to print, and nothing when it fails. -/
def Prints (m : Printing Unit) (result : Except CommandError (List String)) : Prop :=
  ∀ before, m.run.run before =
    match result with
    | .ok lines => (.ok (), before ++ linesText lines)
    | .error e => (.error e, before)

/-! ## Running a computation -/

theorem succeed_ok_bind {α β ε : Type} (wrap : ε → CommandError) (a : α) (k : α → Printing β) :
    (succeed wrap (.ok a) >>= k) = k a := rfl

theorem run_succeed_error_bind {α β ε : Type} (wrap : ε → CommandError) (e : ε)
    (k : α → Printing β) (before : String) :
    (succeed wrap (.error e) >>= k).run.run before = (.error (wrap e), before) := rfl

theorem run_printLine (line output : String) :
    (printLine line).run.run output = (.ok (), output ++ line ++ "\n") := rfl

/-- What can fail comes first: the rest prints what it prints of the value that was found. -/
theorem Prints.succeed_bind {α ε : Type} (wrap : ε → CommandError) (found : Except ε α)
    {k : α → Printing Unit} {result : α → Except CommandError (List String)}
    (h : ∀ a, Prints (k a) (result a)) :
    Prints (succeed wrap found >>= k) (found.mapError wrap >>= result) := by
  intro before
  cases found with
  | error e => exact run_succeed_error_bind wrap e k before
  | ok a =>
    rw [succeed_ok_bind]
    exact h a before

/-- Lines are printed one after the other. -/
theorem prints_forM {α : Type} (line : α → String) (items : List α) :
    Prints (items.forM fun a => printLine (line a)) (.ok (items.map line)) := by
  intro before
  induction items generalizing before with
  | nil => exact congrArg (Except.ok (), ·) (String.append_empty).symm
  | cons a items ih =>
    have hfirst : ((a :: items).forM fun a => printLine (line a)).run.run before =
        (items.forM fun a => printLine (line a)).run.run (before ++ line a ++ "\n") := rfl
    rw [hfirst, ih]
    simp only [List.map_cons, linesText, String.append_assoc]

theorem prints_printLine (line : String) : Prints (printLine line) (.ok [line]) := by
  intro before
  simp only [run_printLine, linesText, String.append_empty, String.append_assoc]

/-! ## Commands -/

/-- The functions that a query leaves of a component; all of them without a query. -/
def Component.listed (c : Component) : Option String → List Callable
  | some query => c.search query
  | none => c.functions

/-- The lines that a command prints, or why it fails. -/
def Command.lines (world : World) (settings : Settings) :
    Command → Except CommandError (List String)
  | .skeleton choice => do
    let f ← choice.resolve settings world.files
    return [f.startText]
  | .encode choice input => do
    let f ← choice.resolve settings world.files
    let text ← (world.readInput input).mapError .input
    let request ← ((Editor.Session.new f settings.editor).edit text).prepare.1.mapError .session
    return [request.written.pretty]
  | .signature choice query => do
    let c ← choice.resolve settings world.files
    return (c.listed query).map (·.signature)
  | .format input => do
    let text ← (world.readInput input).mapError .input
    return [Editor.tidy text]

/-- The lines that a command line prints, or why it fails. -/
def CommandLine.lines (line : CommandLine) (world : World) :
    Except CommandError (List String) := do
  let settings ← (Settings.load world.toSurroundings line.overrides).mapError .settings
  line.command.lines world settings

theorem mapError_id {ε α : Type} (x : Except ε α) : x.mapError id = x := by
  cases x <;> rfl

/-- A command prints its lines, or fails without having printed any. -/
theorem prints_execute (world : World) (settings : Settings) (command : Command) :
    Prints (execute world settings command) (command.lines world settings) := by
  cases command with
  | skeleton choice =>
    have h := Prints.succeed_bind id (choice.resolve settings world.files)
      fun f => prints_printLine f.startText
    rwa [mapError_id] at h
  | encode choice input =>
    have h := Prints.succeed_bind id (choice.resolve settings world.files) fun f =>
      Prints.succeed_bind .input (world.readInput input) fun text =>
        Prints.succeed_bind .session ((Editor.Session.new f settings.editor).edit text).prepare.1
          fun request => prints_printLine request.written.pretty
    rwa [mapError_id] at h
  | signature choice query =>
    have h := Prints.succeed_bind id (choice.resolve settings world.files)
      fun c => prints_forM Callable.signature (c.listed query)
    rw [mapError_id] at h
    cases query <;> exact h
  | format input =>
    exact Prints.succeed_bind .input (world.readInput input)
      fun text => prints_printLine (Editor.tidy text)

/-- A command line prints the lines of its command, once its settings are loaded. -/
theorem prints_perform (line : CommandLine) (world : World) :
    Prints (line.perform world) (line.lines world) :=
  Prints.succeed_bind .settings (Settings.load world.toSurroundings line.overrides) fun settings =>
    prints_execute world settings line.command

/-- A command line that can be read prints its lines and exits with 0, or prints nothing and exits
with 1. -/
theorem run_of_parse {world : World} {arguments : List String} {line : CommandLine}
    (h : CommandLine.parse world.environment arguments = .ok line) :
    run world arguments =
      match line.lines world with
      | .ok lines => ⟨0, linesText lines, none⟩
      | .error e => e.outcome "" := by
  have hperform := prints_perform line world ""
  rw [run, h]
  cases hlines : line.lines world with
  | ok lines => simp only [hperform, hlines, String.empty_append]
  | error e => simp only [hperform, hlines]

/-- **A command that fails prints nothing.** Whatever was printed before it stays as it is, and a
command that does not fail prints its lines. So the program prints nothing whenever it exits with
another code than 0. -/
theorem output_of_failure (world : World) :
    (∀ (settings : Settings) (command : Command) (before : String),
      (∀ e after, (execute world settings command).run.run before = (.error e, after) →
        after = before) ∧
      (execute world settings command).run.run before =
        match command.lines world settings with
        | .ok lines => (.ok (), before ++ linesText lines)
        | .error e => (.error e, before)) ∧
    ∀ arguments : List String, (run world arguments).exitCode ≠ 0 →
      (run world arguments).output = "" := by
  refine ⟨fun settings command before => ?_, fun arguments hcode => ?_⟩
  · have h := prints_execute world settings command before
    refine ⟨fun e after he => ?_, h⟩
    rw [h] at he
    split at he
    · cases he
    · exact (Prod.mk.inj he).2.symm
  · cases hparse : CommandLine.parse world.environment arguments with
    | error e =>
      -- only help and the version exit with 0
      rw [run, hparse] at hcode ⊢
      cases e with
      | version => exact absurd rfl hcode
      | _ => rfl
    | ok line =>
      rw [run_of_parse hparse] at hcode ⊢
      cases hlines : line.lines world with
      | ok lines =>
        rw [hlines] at hcode
        exact absurd rfl hcode
      | error e => rfl

/-- The arguments are the last thing that can be wrong with a call: here they are no document. An
input that is no text leaves what was printed before it. -/
theorem output_of_failure_malformed :
    let files : Files.Tree := .alone (.directory
      [("c.json", .file (some "[[\"c\",null,null,[[\"api\",[[\"f\"]]]]]]"))])
    let arguments := ["encode", "-m", "c.json", "-e", "api", "-f", "f"]
    (run ⟨⟨files, []⟩, some "["⟩ arguments).exitCode = 1 ∧
      (run ⟨⟨files, []⟩, some "["⟩ arguments).output = "" ∧
      ∃ after, (execute ⟨⟨files, []⟩, none⟩ {} (.format none)).run.run "a" =
        (.error (.input .notText), after) ∧ after = "a" := by
  intro files arguments
  have hcode : (run ⟨⟨files, []⟩, some "["⟩ arguments).exitCode = 1 := by rfl
  have hrun : (execute ⟨⟨files, []⟩, none⟩ {} (.format none)).run.run "a" =
      (.error (.input .notText), "a") := by rfl
  exact ⟨hcode, (output_of_failure _).2 arguments (by rw [hcode]; decide),
    "a", hrun, ((output_of_failure _).1 {} (.format none) "a").1 _ _ hrun⟩

end TypedCall
