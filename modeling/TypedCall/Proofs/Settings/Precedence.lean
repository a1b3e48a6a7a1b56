import TypedCall.Proofs.CommandLine.Environment
import TypedCall.Proofs.Settings.Reading

/-!
# Precedence of settings

For each setting the first source counts that says something about it: the command line, the
environment, the configuration file, the default. The directory is read from the environment twice,
once as a configuration value and once for the command line, and the text on the command line wins,
so it is taken as it stands. Whether the settings are valid is judged by the values that count; what
a weaker source says in their place does not matter, as long as it can be read at all. All this
holds in whatever order a load goes through its sources; only which of two entries of the file about
one setting counts depends on the order.
-/

namespace TypedCall.Settings

open Json (bind_eq_ok bind_pure_eq_ok)
open Config (Table ofVariable says? merge ofEnvironment OnlySettings)

/-! ## Where settings come from -/

/-- A level comes from the command line, or else the environment, or else the file, or else it is
the default. -/
def LevelFrom (given : Overrides) (environment : List (String × String)) (file : Table)
    (level : String) : Prop :=
  match given.logLevel, environment.lookup "INVOKER_LOG_LEVEL", says? file "log_level" with
  | some argument, _, _ => level = argument
  | none, some text, _ => level = variableText text
  | none, none, some v => readText "log_level" v = .ok level
  | none, none, none => level = "info"

/-- A directory comes from the command line, or else the environment as it stands there, or else
the file, or else there is none. A file can also say that there is none. -/
def DirectoryFrom (given : Overrides) (environment : List (String × String)) (file : Table)
    (dir : Option String) : Prop :=
  match given.metadataDir, environment.lookup "INVOKER_METADATA_DIR", says? file "metadata_dir" with
  | some argument, _, _ => dir = some argument
  | none, some text, _ => dir = some text
  | none, none, some v => readOptional (readText "metadata_dir") (some v) = .ok dir
  | none, none, none => dir = none

/-- What a file says about quotes: the entry of the editor, or the first item of a list. -/
def quotesOf? (file : Table) : Option Config.Value :=
  match says? file "editor" with
  | some (.table entries _) => Table.find? "sanitize_quotes" entries
  | some (.list (v :: _) _) => some v
  | _ => none

/-- Whether quotes are replaced comes from the environment, or else the file, or else they are. -/
def QuotesFrom (environment : List (String × String)) (file : Table) (sanitized : Bool) : Prop :=
  match environment.lookup "INVOKER_EDITOR__SANITIZE_QUOTES", quotesOf? file with
  | some text, _ => readBool "editor.sanitize_quotes" (ofVariable text) = .ok sanitized
  | none, some v => readBool "editor.sanitize_quotes" v = .ok sanitized
  | none, none => sanitized = true

/-- Each setting comes from the first source that says something about it, by the entries for this
setting. -/
structure ComeFrom (s : Settings) (given : Overrides) (environment : List (String × String))
    (file : Table) : Prop where
  logLevel : LevelFrom given environment file s.logLevel
  metadataDir : DirectoryFrom given environment file s.metadataDir
  sanitizeQuotes : QuotesFrom environment file s.editor.sanitizeQuotes

section Chosen

variable {given : Overrides} {environment : List (String × String)} {file : Table}

/-- An argument comes before the level that environment and file give together. -/
theorem levelFrom_of_levelOf {level : String} (h : levelOf environment file = .ok level) :
    LevelFrom given environment file (given.logLevel.getD level) := by
  rw [levelOf] at h
  rw [LevelFrom]
  cases given.logLevel with
  | some argument => rfl
  | none =>
    cases hvariable : environment.lookup "INVOKER_LOG_LEVEL" with
    | some text =>
      rw [hvariable] at h
      exact (Except.ok.inj h).symm
    | none =>
      rw [hvariable] at h
      cases hfile : says? file "log_level" with
      | some v =>
        rw [hfile] at h
        exact h
      | none =>
        rw [hfile] at h
        exact (Except.ok.inj h).symm

/-- A directory is looked for in the arguments, then in the environment as it stands there, and
then in what has been read. -/
theorem directoryFrom_of_directoryOf {dir : Option String}
    (h : directoryOf environment file = .ok dir) :
    DirectoryFrom given environment file
      ((given.metadataDir.or (environment.lookup "INVOKER_METADATA_DIR")).or dir) := by
  rw [directoryOf] at h
  rw [DirectoryFrom]
  cases given.metadataDir with
  | some argument => rfl
  | none =>
    cases hvariable : environment.lookup "INVOKER_METADATA_DIR" with
    | some text => rfl
    | none =>
      rw [hvariable] at h
      cases hfile : says? file "metadata_dir" with
      | some v =>
        rw [hfile] at h
        exact h
      | none =>
        rw [hfile] at h
        exact (Except.ok.inj h).symm

/-- With no variable set, the options that were read hold what the file says about quotes, or else
that they are replaced. -/
theorem quotesFrom_of_readOptions {options : Editor.Options}
    (h : readOptions (says? file "editor") = .ok options) :
    QuotesFrom [] file options.sanitizeQuotes := by
  rw [QuotesFrom, quotesOf?]
  cases hfile : says? file "editor" with
  | none =>
    rw [hfile] at h
    obtain rfl := Except.ok.inj h
    rfl
  | some v =>
    rw [hfile, readOptions, readOr] at h
    cases v with
    | datum d origin =>
      -- an editor that is neither a table nor a list cannot be read
      cases h
    | table entries origin =>
      rw [readEditor] at h
      dsimp only
      cases hquotes : Table.find? "sanitize_quotes" entries with
      | none =>
        rw [hquotes] at h
        obtain rfl := Except.ok.inj h
        rfl
      | some v =>
        rw [hquotes] at h
        obtain ⟨b, hb, rfl⟩ := bind_pure_eq_ok.mp h
        exact hb
    | list items origin =>
      cases items with
      | nil =>
        obtain rfl := Except.ok.inj h
        rfl
      | cons v items =>
        obtain ⟨b, hb, rfl⟩ := bind_pure_eq_ok.mp h
        exact (readBool_eq_ok_congr _ _).mp hb

/-- The options that environment and file give together hold what the first of them says about
quotes. -/
theorem quotesFrom_of_optionsOf {options : Editor.Options}
    (h : optionsOf environment file = .ok options) :
    QuotesFrom environment file options.sanitizeQuotes := by
  rw [optionsOf] at h
  cases hvariable : environment.lookup "INVOKER_EDITOR__SANITIZE_QUOTES" with
  | some text =>
    rw [hvariable] at h
    obtain ⟨b, hb, rfl⟩ := bind_pure_eq_ok.mp h
    rw [QuotesFrom, hvariable]
    exact hb
  | none =>
    rw [hvariable] at h
    have hquotes := quotesFrom_of_readOptions h
    rw [QuotesFrom] at hquotes ⊢
    rwa [hvariable]

/-- What the command line says comes before what is read of the sources. -/
theorem ReadFrom.comeFrom {s : Settings} (h : ReadFrom environment file s) (given : CommandLine) :
    (s.override (given.inEnvironment environment).overrides).ComeFrom given.overrides environment
      file where
  logLevel := levelFrom_of_levelOf h.level
  metadataDir := directoryFrom_of_directoryOf h.directory
  sanitizeQuotes := quotesFrom_of_optionsOf h.options

end Chosen

/-! ## Sources on their own -/

/-- A source on its own makes settings, valid or not. -/
def Decodes (source : Table) : Prop := ∃ s, ofTable (merge (.table [] none) source).entries = .ok s

/-- The file and the environment together make settings, valid or not. -/
def DecodeTogether (environment : List (String × String)) (file : Table) : Prop :=
  ∃ s, ofTable (layered environment file) = .ok s

theorem onlySettings_nil : OnlySettings [] := ⟨List.nodup_nil, by simp⟩

/-- A file can be decoded exactly when settings can be read from it alone. -/
theorem decodes_file {file : Table} : Decodes file ↔ ∃ s, ReadFrom [] file s :=
  exists_congr fun _ => ofTable_layered_eq_ok onlySettings_nil

/-- An environment can be decoded exactly when settings can be read from it alone. -/
theorem decodes_environment {environment : List (String × String)}
    (h : OnlySettings environment) :
    Decodes (ofEnvironment environment) ↔ ∃ s, ReadFrom environment [] s := by
  refine exists_congr fun s => ?_
  change ofTable (layered environment []) = .ok s ↔ _
  exact ofTable_layered_eq_ok h

/-- Sources that make settings each on their own make settings together. -/
theorem decodeTogether_of_decodes {environment : List (String × String)} {file : Table}
    (h : OnlySettings environment) (hfile : Decodes file)
    (henvironment : Decodes (ofEnvironment environment)) : DecodeTogether environment file := by
  obtain ⟨s, hfile⟩ := decodes_file.mp hfile
  obtain ⟨t, henvironment⟩ := (decodes_environment h).mp henvironment
  -- a text from the environment can always be read, and quotes as they are read without the file
  have hlevel : ∃ level, levelOf environment file = .ok level := by
    rw [levelOf]
    cases environment.lookup "INVOKER_LOG_LEVEL" with
    | some text => exact ⟨_, rfl⟩
    | none => exact ⟨_, hfile.level⟩
  have hdir : ∃ dir, directoryOf environment file = .ok dir := by
    rw [directoryOf]
    cases environment.lookup "INVOKER_METADATA_DIR" with
    | some text => exact ⟨_, rfl⟩
    | none => exact ⟨_, hfile.directory⟩
  have hoptions : ∃ options, optionsOf environment file = .ok options := by
    have h := henvironment.options
    rw [optionsOf] at h ⊢
    cases hvariable : environment.lookup "INVOKER_EDITOR__SANITIZE_QUOTES" with
    | some text =>
      rw [hvariable] at h
      exact ⟨_, h⟩
    | none => exact ⟨_, hfile.options⟩
  obtain ⟨level, hlevel⟩ := hlevel
  obtain ⟨dir, hdir⟩ := hdir
  obtain ⟨options, hoptions⟩ := hoptions
  exact ⟨⟨level, dir, options⟩, (ofTable_layered_eq_ok h).mpr ⟨hlevel, hdir, hoptions⟩⟩

/-! ## Loading -/

/-- The outcome are the settings, or an error that names every rule that they break. -/
structure Judged (s : Settings) (outcome : Except SettingsError Settings) : Prop where
  valid : (∀ p, ¬ s.Violates p) → outcome = .ok s
  invalid : ∀ p, s.Violates p → ∃ problems text, outcome = .error (.invalid problems) ∧
    (∀ q, q ∈ problems ↔ s.Violates q) ∧
    (SettingsError.invalid problems).message? = some text ∧
    ∀ q, s.Violates q → q.message.toList <:+: text.toList

theorem judged_validated (s : Settings) : s.Judged s.validated where
  valid := validated_of_valid
  invalid p hp := by
    obtain ⟨text, htext, hnames⟩ := exists_message_invalid s.problems
    exact ⟨s.problems, text, validated_of_violates hp, fun _ => mem_problems, htext,
      fun q hq => hnames q (mem_problems.mpr hq)⟩

/-- An environment that only sets settings names no file to read them from. -/
theorem lookup_config {environment : List (String × String)} (h : OnlySettings environment) :
    environment.lookup "INVOKER_CONFIG" = none := by
  rw [List.lookup_eq_none_iff]
  intro v hv
  rw [bne_iff_ne]
  intro hname
  have hread : (Config.variableKey? "INVOKER_CONFIG").isSome := by decide +kernel
  exact absurd (hname ▸ h.known v hv (hname ▸ hread)) (by decide)

/-- What the sources give is judged with what the command line says in its place. -/
theorem load_of_readFrom {world : Surroundings} (henvironment : OnlySettings world.environment)
    {order : Config.Order} {given : CommandLine} {file : Table} {s : Settings}
    (hfile : Config.ofFile? world.files given.overrides.config = some file)
    (hs : ReadFrom world.environment (order.arrange .file file) s) :
    load world (given.inEnvironment world.environment).overrides order =
      (s.override (given.inEnvironment world.environment).overrides).validated := by
  have hread : read world given.overrides.config order = .ok s :=
    (read_eq_ok henvironment).mpr ⟨file, hfile, hs⟩
  rw [load]
  change read world given.overrides.config order >>= _ = _
  rw [hread]
  rfl

/-- A valid level from the environment is the text of the variable. -/
theorem LevelFrom.eq_text {given : Overrides} {environment : List (String × String)}
    {file : Table} {level text : String} (h : LevelFrom given environment file level)
    (hunset : given.logLevel = none)
    (htext : environment.lookup "INVOKER_LOG_LEVEL" = some text)
    (hvalid : Text.lowercase level ∈ logLevels) : level = text := by
  -- a level is no literal, so it has not been written out anew
  rw [LevelFrom, hunset, htext] at h
  have hlevel : isLogLevel (variableText text) = true := by
    rw [← h, isLogLevel_iff]
    exact hvalid
  exact h.trans (variableText_of_isLogLevel hlevel)

/-- In every order, loading takes each setting from the first source that says something about it,
and judges the settings so chosen. For that the sources must be readable together, and they are if
each of them is on its own. -/
theorem load_precedence {world : Surroundings} (henvironment : OnlySettings world.environment)
    {arguments : List String} {line : CommandLine}
    (hline : CommandLine.parse world.environment arguments = .ok line) (order : Config.Order) :
    ∃ given, CommandLine.parse [] arguments = .ok given ∧
      line.overrides.config = given.overrides.config ∧
      (∀ s, load world line.overrides order = .ok s →
        (∃ file, Config.ofFile? world.files given.overrides.config = some file ∧
          s.ComeFrom given.overrides world.environment (order.arrange .file file)) ∧
        (∀ p, ¬ s.Violates p) ∧
        (given.overrides.logLevel = none →
          ∀ text, world.environment.lookup "INVOKER_LOG_LEVEL" = some text → s.logLevel = text)) ∧
      ∀ file, Config.ofFile? world.files given.overrides.config = some file →
        (DecodeTogether world.environment (order.arrange .file file) →
          ∃ s : Settings,
            s.ComeFrom given.overrides world.environment (order.arrange .file file) ∧
              s.Judged (load world line.overrides order)) ∧
        (Decodes (order.arrange .file file) → Decodes (ofEnvironment world.environment) →
          DecodeTogether world.environment (order.arrange .file file)) := by
  obtain ⟨given, hgiven, rfl⟩ := (CommandLine.parse_eq_ok_iff (lookup_config henvironment)).mp hline
  refine ⟨given, hgiven, rfl, ?_, ?_⟩
  · intro s hload
    obtain ⟨t, hread, hvalidated⟩ := bind_eq_ok.mp hload
    obtain ⟨rfl, hvalid⟩ := validated_eq_ok.mp hvalidated
    obtain ⟨file, hfile, hread⟩ := (read_eq_ok henvironment).mp hread
    have hfrom := hread.comeFrom given
    refine ⟨⟨file, hfile, hfrom⟩, hvalid, ?_⟩
    intro hunset text htext
    exact hfrom.logLevel.eq_text hunset htext (not_not.mp fun h => hvalid _ (.level h))
  · intro file hfile
    refine ⟨?_, decodeTogether_of_decodes henvironment⟩
    rintro ⟨s, hs⟩
    have hs := (ofTable_layered_eq_ok henvironment).mp hs
    refine ⟨s.override (given.inEnvironment world.environment).overrides, hs.comeFrom given, ?_⟩
    rw [load_of_readFrom henvironment hfile hs]
    exact judged_validated _

/-- A file whose level is unknown, a directory in the environment that looks like a number, and a
level on the command line. -/
theorem load_precedence_of_all_sources :
    let world : Surroundings := ⟨.alone (.directory [("invoker.toml",
      .file (some "log_level = 'loud'\n[editor]\nsanitize_quotes = false"))]),
      [("INVOKER_METADATA_DIR", "005")]⟩
    ∃ given, CommandLine.parse [] ["--log-level", "Debug", "format"] = .ok given ∧
      ∃ file, Config.ofFile? world.files given.overrides.config = some file ∧
        ComeFrom ⟨"Debug", some "005", ⟨false⟩⟩ given.overrides world.environment file := by
  intro world
  have henvironment : OnlySettings world.environment := ⟨by decide, by decide +kernel⟩
  have hline : CommandLine.parse world.environment ["--log-level", "Debug", "format"] =
      .ok ⟨⟨"invoker.toml", some "005", some "Debug"⟩, .format none⟩ := rfl
  obtain ⟨given, hgiven, -, hloaded, -⟩ := load_precedence henvironment hline .listed
  have hload : load world ⟨"invoker.toml", some "005", some "Debug"⟩ =
      .ok ⟨"Debug", some "005", ⟨false⟩⟩ := by decide +kernel
  exact ⟨given, hgiven, (hloaded _ hload).1⟩

end TypedCall.Settings
