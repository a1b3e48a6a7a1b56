import TypedCall.Proofs.CommandLine.Environment
import TypedCall.Proofs.Files.Listing
import TypedCall.Proofs.Settings.Precedence

/-!
# Two ways to load settings

The settings of the working directory, and those of a command line that says nothing about settings,
come from the same file when there is no second one that the shorter name of the first could mean.
They differ in the directory only: the command line takes it from the environment as it stands
there, and otherwise it has been read as a boolean or a number and written out again. So in one
order both fail alike, and they agree when the text of the variable is what is written out for it.

Two loads need not go through the file in one order. Then they can report different faults, and when
the file says something about a setting twice, even one can fail and the other not. When it says
something about each setting once at most (`SaidOnce`), the order shows in nothing but the faults.
-/

namespace TypedCall.Settings

open Json (bind_eq_ok)
open Config (OnlySettings findFile? ofFile? FileFormat)

/-! ## One file under two names -/

/-- Of the files named `invoker`, with an extension or without one, there is at most
`invoker.toml`. -/
def OnlyTomlFile (files : Files.Tree) : Prop :=
  ∀ name : String, '/' ∉ name.toList → (name = "invoker" ∨ "invoker.".toList <+: name.toList) →
    files.isFile name = true → name = "invoker.toml"

section File

variable {files : Files.Tree}

/-- The shorter name with a dot before it leads to the same place as the name alone. -/
theorem isFile_stay (files : Files.Tree) : files.isFile "./invoker" = files.isFile "invoker" := by
  have hstay : Text.split '/' "./invoker" = [".", "invoker"] := by decide
  have hname : Text.split '/' "invoker" = ["invoker"] := Text.split_of_not_mem (by decide)
  have hlocate : files.locate "./invoker" = files.locate "invoker" := by
    rw [Files.locate_eq_follow ⟨by decide, by decide⟩ (by decide) (by decide),
      Files.locate_eq_follow ⟨by decide, by decide⟩ (by decide) (by decide), Files.Tree.follow,
      Files.Tree.follow, hstay, hname]
    simp only [List.foldlM_cons, List.foldlM_nil, bind_pure]
    exact Files.enter_stay (.inr rfl) _ _
  rw [Files.Tree.isFile, Files.Tree.isFile, hlocate]

theorem OnlyTomlFile.isFile_eq_false (h : OnlyTomlFile files) (name : String)
    (hslash : '/' ∉ name.toList) (hinvoker : name = "invoker" ∨ "invoker.".toList <+: name.toList)
    (hname : name ≠ "invoker.toml") : files.isFile name = false :=
  Bool.eq_false_iff.mpr fun hfile => hname (h name hslash hinvoker hfile)

/-- Of the extensions, `toml` is tried before `json`. -/
theorem withExtension?_eq (files : Files.Tree) (base : String) :
    Config.withExtension? files base =
      if files.isFile (base ++ ".toml") then some (base ++ ".toml", .toml)
      else if files.isFile (base ++ ".json") then some (base ++ ".json", .json)
      else none := by
  rw [Config.withExtension?, FileFormat.all]
  cases htoml : files.isFile (base ++ ".toml") <;>
    cases hjson : files.isFile (base ++ ".json") <;> simp [htoml, hjson]

/-- A file asked for by its full name is that file or nothing. -/
theorem findFile?_toml (h : OnlyTomlFile files) :
    findFile? files "invoker.toml" =
      if files.isFile "invoker.toml" then some ("invoker.toml", .toml) else none := by
  have htoml := h.isFile_eq_false ("invoker.toml" ++ ".toml") (by decide) (.inr (by decide))
    (by decide)
  have hjson := h.isFile_eq_false ("invoker.toml" ++ ".json") (by decide) (.inr (by decide))
    (by decide)
  have hlast : (Config.segmentsOf "invoker.toml").getLast? = some "invoker.toml" := by decide
  have hpath : Config.normalized "invoker.toml" = "invoker.toml" := by decide
  rw [findFile?]
  cases hfile : files.isFile "invoker.toml" with
  | true =>
    have hformat : FileFormat.ofExtension? (Files.extension? "invoker.toml") = some .toml := by
      decide
    rw [hformat]
    rfl
  | false =>
    -- a name that is no file is tried with more extensions, of which there is no file
    rw [hlast, hpath, withExtension?_eq, htoml, hjson]
    rfl

/-- A file asked for without its extension is `invoker.toml` or nothing. -/
theorem findFile?_root (h : OnlyTomlFile files) :
    findFile? files "./invoker" =
      if files.isFile "invoker.toml" then some ("invoker.toml", .toml) else none := by
  have hname := h.isFile_eq_false "invoker" (by decide) (.inl rfl) (by decide)
  have hjson := h.isFile_eq_false ("invoker" ++ ".json") (by decide) (.inr (by decide)) (by decide)
  have hlast : (Config.segmentsOf "./invoker").getLast? = some "invoker" := by decide
  have hpath : Config.normalized "./invoker" = "invoker" := by decide
  rw [findFile?, isFile_stay, hname, hlast, hpath, withExtension?_eq, hjson]
  rfl

/-- Both names stand for one file. -/
theorem ofFile?_root (h : OnlyTomlFile files) :
    ofFile? files "./invoker" = ofFile? files "invoker.toml" := by
  rw [ofFile?, ofFile?, findFile?_root h, findFile?_toml h]

/-- A directory satisfies `OnlyTomlFile` when each entry named `invoker`, with an extension or
without one, is `invoker.toml`. -/
theorem onlyTomlFile_directory {entries : List (String × Files.Node)}
    (htree : files.node = .directory entries)
    (h : ∀ e ∈ entries, (e.1 = "invoker" ∨ "invoker.".toList <+: e.1.toList) →
      e.1 = "invoker.toml") : OnlyTomlFile files := by
  intro name hslash hinvoker hfile
  have hdot : name ≠ "." := by
    rintro rfl
    exact absurd hinvoker (by decide)
  have hup : name ≠ ".." := by
    rintro rfl
    exact absurd hinvoker (by decide)
  obtain ⟨e, he, rfl⟩ := List.mem_map.mp (Files.mem_of_isFile htree hslash hdot hup hfile)
  exact h e he hinvoker

end File

/-! ## One directory in two readings -/

/-- The settings with the directory of the environment as it stands there. -/
def withDirectory (s : Settings) (environment : List (String × String)) : Settings :=
  { s with metadataDir := (environment.lookup "INVOKER_METADATA_DIR").or s.metadataDir }

section Readings

variable {environment : List (String × String)} {file : Config.Table} {s : Settings}

/-- Where the environment names a directory, the settings hold the text that the variable gives. -/
theorem ReadFrom.metadataDir_eq (h : ReadFrom environment file s) {text : String}
    (hvariable : environment.lookup "INVOKER_METADATA_DIR" = some text) :
    s.metadataDir = some (variableText text) := by
  have hdir := h.directory
  rw [directoryOf, hvariable] at hdir
  exact (Except.ok.inj hdir).symm

/-- A directory is blank in both readings or in none. -/
theorem problems_withDirectory (h : ReadFrom environment file s) :
    (s.withDirectory environment).problems = s.problems := by
  rw [withDirectory]
  cases hvariable : environment.lookup "INVOKER_METADATA_DIR" with
  | none => rfl
  | some text =>
    rw [problems, problems, h.metadataDir_eq hvariable]
    dsimp only [Option.or]
    rw [isBlank_variableText]

/-- Whether settings are valid does not depend on which of its two readings the directory has. -/
theorem validated_withDirectory (h : ReadFrom environment file s) :
    (s.withDirectory environment).validated = s.validated.map (·.withDirectory environment) := by
  rw [validated, validated, problems_withDirectory h]
  cases s.problems.isEmpty <;> rfl

/-- The two readings of the directory are one exactly when the text of the variable is written out
as it stood. -/
theorem withDirectory_eq_self_iff (h : ReadFrom environment file s) :
    s.withDirectory environment = s ↔
      ∀ text, environment.lookup "INVOKER_METADATA_DIR" = some text → variableText text = text := by
  have hself : s.withDirectory environment = s ↔
      (environment.lookup "INVOKER_METADATA_DIR").or s.metadataDir = s.metadataDir :=
    ⟨congrArg Settings.metadataDir, fun heq => by rw [withDirectory, heq]⟩
  rw [hself]
  cases hvariable : environment.lookup "INVOKER_METADATA_DIR" with
  | none => simp
  | some text =>
    rw [h.metadataDir_eq hvariable]
    simp [eq_comm]

end Readings

/-! ## Two orders -/

/-- Loads agree when they give the same settings, or when both give none. -/
def Agree (first second : Except SettingsError Settings) : Prop :=
  ∀ s, first = .ok s ↔ second = .ok s

/-- No two keys of a file are about one setting. -/
def SaidOnce (file : Config.Table) : Prop :=
  ∀ name ∈ settingNames, ((file.map (·.1)).filter (Config.concerns name)).length ≤ 1

section Orders

variable {environment : List (String × String)} {file : Config.Table} {s : Settings}

/-- What a file says about a setting does not depend on the order when it says it once. -/
theorem SaidOnce.says?_arrange (h : SaidOnce file) (order : Config.Order) {name : String}
    (hname : name ∈ settingNames) :
    Config.says? (order.arrange .file file) name = Config.says? file name := by
  have honce := h name hname
  rw [List.filter_map, List.length_map] at honce
  exact order.says?_arrange honce

/-- What is read of settings that are said once does not depend on the order. -/
theorem SaidOnce.readFrom_iff (h : SaidOnce file) (order : Config.Order) :
    ReadFrom environment (order.arrange .file file) s ↔ ReadFrom environment file s := by
  have hlevel := h.says?_arrange order (by decide : "log_level" ∈ settingNames)
  have hdir := h.says?_arrange order (by decide : "metadata_dir" ∈ settingNames)
  have hoptions := h.says?_arrange order (by decide : "editor" ∈ settingNames)
  have hlevelOf : levelOf environment (order.arrange .file file) = levelOf environment file := by
    rw [levelOf, levelOf, hlevel]
  have hdirectoryOf :
      directoryOf environment (order.arrange .file file) = directoryOf environment file := by
    rw [directoryOf, directoryOf, hdir]
  have hoptionsOf :
      optionsOf environment (order.arrange .file file) = optionsOf environment file := by
    rw [optionsOf, optionsOf, hoptions]
  constructor
  · rintro ⟨h₁, h₂, h₃⟩
    exact ⟨hlevelOf ▸ h₁, hdirectoryOf ▸ h₂, hoptionsOf ▸ h₃⟩
  · rintro ⟨h₁, h₂, h₃⟩
    exact ⟨hlevelOf ▸ h₁, hdirectoryOf ▸ h₂, hoptionsOf ▸ h₃⟩

/-- Two loads of a file that says each thing once give the same settings, if both give some. -/
theorem agree_read {world : Surroundings} {config : String}
    (henvironment : OnlySettings world.environment)
    (honce : ∀ file, ofFile? world.files config = some file → SaidOnce file)
    (first second : Config.Order) : Agree (read world config first) (read world config second) := by
  intro s
  rw [read_eq_ok henvironment, read_eq_ok henvironment]
  refine exists_congr fun file => and_congr_right fun hfile => ?_
  rw [(honce file hfile).readFrom_iff, (honce file hfile).readFrom_iff]

/-- Said twice, a setting depends on the order. -/
example :
    let world : Surroundings := ⟨.alone (.directory [("invoker.toml", .file (some
      "'editor.sanitize_quotes' = false\n[editor]\nsanitize_quotes = true"))]), []⟩
    let reversed : Config.Order := ⟨fun _ table => table.reverse, fun _ table => table.reverse_perm⟩
    read world "invoker.toml" ≠ read world "invoker.toml" reversed := by
  decide +kernel

/-- Loads that agree still do so when they go on in the same way. -/
theorem Agree.bind {first second : Except SettingsError Settings} (h : Agree first second)
    (f : Settings → Except SettingsError Settings) : Agree (first >>= f) (second >>= f) := by
  intro t
  rw [bind_eq_ok, bind_eq_ok]
  exact exists_congr fun s => and_congr_left fun _ => h s

theorem Agree.map {first second : Except SettingsError Settings} (h : Agree first second)
    (f : Settings → Settings) : Agree (first.map f) (second.map f) := by
  cases first <;> cases second <;> exact h.bind fun s => .ok (f s)

end Orders

/-! ## Two ways -/

section Loaders

variable {world : Surroundings} {given : CommandLine}

/-- The settings of the working directory are those of `invoker.toml`, validated. -/
theorem ofWorkingDirectory_eq (hfiles : OnlyTomlFile world.files) (order : Config.Order) :
    ofWorkingDirectory world order = read world "invoker.toml" order >>= validated := by
  have hread : read world "./invoker" order = read world "invoker.toml" order := by
    rw [read, read, ofFile?_root hfiles]
  -- the path of the working directory is `.`, so the name of the file is `./invoker`
  rw [← hread]
  rfl

/-- A command line that says nothing about settings loads those of the working directory, with the
directory as it stands in the environment. -/
theorem load_eq_map (henvironment : OnlySettings world.environment)
    (hfiles : OnlyTomlFile world.files) (hgiven : given.overrides = ⟨"invoker.toml", none, none⟩)
    (order : Config.Order) :
    load world (given.inEnvironment world.environment).overrides order =
      (ofWorkingDirectory world order).map (·.withDirectory world.environment) := by
  have hload : load world (given.inEnvironment world.environment).overrides order =
      read world "invoker.toml" order >>= fun s =>
        (s.withDirectory world.environment).validated := by
    rw [load, CommandLine.inEnvironment, hgiven]
    rfl
  rw [hload, ofWorkingDirectory_eq hfiles]
  -- both judge what the same sources give, with the directory in one reading or the other
  cases hresult : read world "invoker.toml" order with
  | error e => rfl
  | ok s =>
    obtain ⟨file, -, hfrom⟩ := (read_eq_ok henvironment).mp hresult
    exact validated_withDirectory hfrom

/-- If there are settings, the text of a directory in the environment is what is written out for
it. -/
def KeepsDirectory (world : Surroundings) (order : Config.Order) : Prop :=
  ∀ s, ofWorkingDirectory world order = .ok s →
    ∀ text, world.environment.lookup "INVOKER_METADATA_DIR" = some text → variableText text = text

/-- In one order, the two ways give the same result exactly when the settings keep their directory.
-/
theorem map_withDirectory_eq_self_iff (henvironment : OnlySettings world.environment)
    (hfiles : OnlyTomlFile world.files) (order : Config.Order) :
    (ofWorkingDirectory world order).map (·.withDirectory world.environment) =
        ofWorkingDirectory world order ↔ KeepsDirectory world order := by
  rw [KeepsDirectory]
  cases hresult : ofWorkingDirectory world order with
  | error e => simp [Except.map]
  | ok s =>
    rw [ofWorkingDirectory_eq hfiles] at hresult
    obtain ⟨t, hread, hvalidated⟩ := bind_eq_ok.mp hresult
    obtain ⟨rfl, -⟩ := validated_eq_ok.mp hvalidated
    obtain ⟨file, -, hfrom⟩ := (read_eq_ok henvironment).mp hread
    simp [Except.map, withDirectory_eq_self_iff hfrom]

/-- For one result, agreement between the two readings is equality. -/
theorem agree_map_withDirectory_iff (environment : List (String × String))
    (loaded : Except SettingsError Settings) :
    Agree (loaded.map (·.withDirectory environment)) loaded ↔
      loaded.map (·.withDirectory environment) = loaded := by
  constructor
  · intro h
    cases loaded with
    | error e => rfl
    | ok s => exact (h s).mpr rfl
  · intro h s
    rw [h]

/-- The two ways to load settings fail alike in one order, and when they do not they differ at most
in the directory, which only the command line takes from the environment as it stands there. When
the file says something about each setting once at most, that holds of any two orders up to the
fault that is reported. So they agree unless they succeed with a variable whose text is not what is
written out for it. -/
theorem load_agrees_ofWorkingDirectory (henvironment : OnlySettings world.environment)
    (hfiles : OnlyTomlFile world.files) {arguments : List String} {line : CommandLine}
    (hline : CommandLine.parse world.environment arguments = .ok line)
    (hgiven : CommandLine.parse [] arguments = .ok given)
    (hsilent : given.overrides = ⟨"invoker.toml", none, none⟩) :
    (∀ order,
        load world line.overrides order =
          (ofWorkingDirectory world order).map (·.withDirectory world.environment) ∧
        (load world line.overrides order = ofWorkingDirectory world order ↔
          KeepsDirectory world order)) ∧
      ((∀ file, ofFile? world.files "invoker.toml" = some file → SaidOnce file) →
        ∀ first second,
          Agree (load world line.overrides first)
            ((ofWorkingDirectory world second).map (·.withDirectory world.environment)) ∧
          (Agree (load world line.overrides first) (ofWorkingDirectory world second) ↔
            KeepsDirectory world second)) := by
  obtain ⟨given', hgiven', rfl⟩ :=
    (CommandLine.parse_eq_ok_iff (lookup_config henvironment)).mp hline
  obtain rfl : given = given' := Except.ok.inj (hgiven.symm.trans hgiven')
  have hload := load_eq_map henvironment hfiles hsilent
  have hkeeps := map_withDirectory_eq_self_iff henvironment hfiles
  refine ⟨fun order => ⟨hload order, ?_⟩, fun honce first second => ?_⟩
  · rw [hload]
    exact hkeeps order
  · -- the order of either load does not show, so both can be taken in the second one
    have horders : Agree (ofWorkingDirectory world first) (ofWorkingDirectory world second) := by
      rw [ofWorkingDirectory_eq hfiles, ofWorkingDirectory_eq hfiles]
      exact (agree_read henvironment honce first second).bind validated
    have hagree : Agree (load world (given.inEnvironment world.environment).overrides first)
        ((ofWorkingDirectory world second).map (·.withDirectory world.environment)) := by
      rw [hload]
      exact horders.map _
    refine ⟨hagree, ?_⟩
    rw [← hkeeps, ← agree_map_withDirectory_iff]
    exact forall_congr' fun s => by rw [hagree s]

end Loaders

/-- A file and variables that are read as they stand. -/
theorem load_agrees_ofWorkingDirectory_plain :
    let world : Surroundings :=
      ⟨.alone (.directory [("invoker.toml", .file (some "log_level = 'warn'"))]),
        [("INVOKER_METADATA_DIR", "components")]⟩
    ∀ first second,
      Agree (load world ⟨"invoker.toml", some "components", none⟩ first)
        (ofWorkingDirectory world second) := by
  intro world first second
  have henvironment : OnlySettings world.environment := ⟨by decide, by decide +kernel⟩
  have hfiles : OnlyTomlFile world.files := onlyTomlFile_directory rfl (by simp)
  have hline : CommandLine.parse world.environment ["format"] =
      .ok ⟨⟨"invoker.toml", some "components", none⟩, .format none⟩ := rfl
  have hgiven : CommandLine.parse [] ["format"] =
      .ok ⟨⟨"invoker.toml", none, none⟩, .format none⟩ := rfl
  have hkeys : (ofFile? world.files "invoker.toml").map (·.map (·.1)) = some ["log_level"] := by
    decide +kernel
  have honce : ∀ file, ofFile? world.files "invoker.toml" = some file → SaidOnce file := by
    intro file hfile
    rw [hfile] at hkeys
    have hnames : file.map (·.1) = ["log_level"] := Option.some.inj hkeys
    rw [SaidOnce, hnames]
    decide +kernel
  have hagree := (load_agrees_ofWorkingDirectory henvironment hfiles hline hgiven rfl).2 honce
  refine (hagree first second).2.mpr ?_
  intro s _ text htext
  obtain rfl := Option.some.inj htext
  decide +kernel

/-- A directory whose name is a number with leading zeros. -/
theorem load_ne_ofWorkingDirectory_number :
    let world : Surroundings := ⟨.alone .empty, [("INVOKER_METADATA_DIR", "007")]⟩
    OnlySettings world.environment ∧ OnlyTomlFile world.files ∧
      (∃ line, CommandLine.parse world.environment ["format"] = .ok line ∧
        ∀ order, load world line.overrides order = .ok ⟨"info", some "007", ⟨true⟩⟩) ∧
      (∃ given, CommandLine.parse [] ["format"] = .ok given ∧
        given.overrides = ⟨"invoker.toml", none, none⟩) ∧
      ∀ order, ofWorkingDirectory world order = .ok ⟨"info", some "7", ⟨true⟩⟩ := by
  intro world
  have henvironment : OnlySettings world.environment := ⟨by decide, by decide +kernel⟩
  have hfiles : OnlyTomlFile world.files := onlyTomlFile_directory rfl (by simp)
  -- there is no file, so whatever the order the settings are those of the environment
  have hread : ∀ order, read world "invoker.toml" order = .ok ⟨"info", some "7", ⟨true⟩⟩ := by
    have honce : ∀ file, ofFile? world.files "invoker.toml" = some file → SaidOnce file := by
      intro file hfile
      obtain rfl := Option.some.inj hfile
      exact fun _ _ => Nat.zero_le 1
    exact fun order => (agree_read henvironment honce order .listed _).mpr (by decide +kernel)
  refine ⟨henvironment, hfiles, ⟨_, rfl, fun order => ?_⟩, ⟨_, rfl, rfl⟩, fun order => ?_⟩
  · rw [load]
    change read world "invoker.toml" order >>= _ = _
    rw [hread]
    decide +kernel
  · rw [ofWorkingDirectory_eq hfiles, hread]
    decide +kernel

end TypedCall.Settings
