import TypedCall.Proofs.Component.Reading
import TypedCall.Proofs.Settings.Texts
import TypedCall.Settings.Loading

/-!
# What settings are read from

Three values of the merged sources make the settings, one for each key (`ofTable_eq_ok`), and what
is wrong with them is wrong with one of them (`mem_problems`). Of each key the merged sources hold
what the environment says, and else what the file says.
-/

namespace TypedCall.Settings

open Json (bind_eq_ok bind_pure_eq_ok)
open Config (Table ofVariable says? merge ofEnvironment OnlySettings)

/-! ## Keys -/

/-- What a value gives, if there is one, and what there was otherwise. -/
def readOr {α : Type} (old : α) (read : Config.Value → Except SettingsError α) :
    Option Config.Value → Except SettingsError α
  | some v => read v
  | none => .ok old

/-- The level that a value gives, if there is one. -/
def readLevel : Option Config.Value → Except SettingsError String :=
  readOr "info" (readText "log_level")

/-- The directory that a value gives, if there is one. -/
def readDirectory : Option Config.Value → Except SettingsError (Option String) :=
  readOr none fun v => readOptional (readText "metadata_dir") (some v)

/-- The options of the editor that a value gives, if there is one. -/
def readOptions : Option Config.Value → Except SettingsError Editor.Options :=
  readOr {} readEditor

/-- The entries of a table make the settings `t` out of `s`, each for its own setting. -/
structure Makes (table : Table) (s t : Settings) : Prop where
  level : readOr s.logLevel (readText "log_level") (table.find? "log_level") = .ok t.logLevel
  directory : readOr s.metadataDir (fun v => readOptional (readText "metadata_dir") (some v))
    (table.find? "metadata_dir") = .ok t.metadataDir
  options : readOr s.editor readEditor (table.find? "editor") = .ok t.editor

/-- The names of the settings. -/
def settingNames : List String := ["log_level", "metadata_dir", "editor"]

section Keys

variable {table other : Table} {entry : String × Config.Value} {s t : Settings}

/-- Only what is found under the names of the settings matters. -/
theorem makes_congr (h : ∀ name ∈ settingNames, table.find? name = other.find? name) :
    Makes table s t ↔ Makes other s t := by
  have hlevel := h "log_level" (by decide)
  have hdir := h "metadata_dir" (by decide)
  have hoptions := h "editor" (by decide)
  constructor
  · rintro ⟨h₁, h₂, h₃⟩
    exact ⟨hlevel ▸ h₁, hdir ▸ h₂, hoptions ▸ h₃⟩
  · rintro ⟨h₁, h₂, h₃⟩
    exact ⟨hlevel ▸ h₁, hdir ▸ h₂, hoptions ▸ h₃⟩

/-- Nothing is made of no entries. -/
theorem makes_nil_iff : Makes [] s t ↔ t = s := by
  constructor
  · rintro ⟨hlevel, hdir, hoptions⟩
    obtain ⟨level, dir, options⟩ := t
    obtain rfl := Except.ok.inj hlevel
    obtain rfl := Except.ok.inj hdir
    obtain rfl := Except.ok.inj hoptions
    rfl
  · rintro rfl
    exact ⟨rfl, rfl, rfl⟩

/-- An entry is read for the setting of its name and leaves the others alone. -/
theorem readEntry_eq_ok : readEntry s entry = .ok t ↔ Makes [entry] s t := by
  obtain ⟨key, v⟩ := entry
  obtain ⟨level, dir, options⟩ := t
  rw [readEntry]
  split
  · next hkey =>
    obtain rfl : key = "log_level" := hkey
    rw [bind_pure_eq_ok]
    constructor
    · rintro ⟨a, ha, heq⟩
      obtain ⟨rfl, rfl, rfl⟩ := Settings.mk.inj heq
      exact ⟨ha, rfl, rfl⟩
    · rintro ⟨hlevel, hdir, hoptions⟩
      obtain rfl := Except.ok.inj hdir
      obtain rfl := Except.ok.inj hoptions
      exact ⟨level, hlevel, rfl⟩
  · next hkey =>
    obtain rfl : key = "metadata_dir" := hkey
    rw [bind_pure_eq_ok]
    constructor
    · rintro ⟨a, ha, heq⟩
      obtain ⟨rfl, rfl, rfl⟩ := Settings.mk.inj heq
      exact ⟨rfl, ha, rfl⟩
    · rintro ⟨hlevel, hdir, hoptions⟩
      obtain rfl := Except.ok.inj hlevel
      obtain rfl := Except.ok.inj hoptions
      exact ⟨dir, hdir, rfl⟩
  · next hkey =>
    obtain rfl : key = "editor" := hkey
    rw [bind_pure_eq_ok]
    constructor
    · rintro ⟨a, ha, heq⟩
      obtain ⟨rfl, rfl, rfl⟩ := Settings.mk.inj heq
      exact ⟨rfl, rfl, ha⟩
    · rintro ⟨hlevel, hdir, hoptions⟩
      obtain rfl := Except.ok.inj hlevel
      obtain rfl := Except.ok.inj hdir
      exact ⟨options, hoptions, rfl⟩
  · next hlevel hdir heditor =>
    -- the name is none of the three, so there is no entry for any setting
    have hother : ∀ name ∈ settingNames, Table.find? name [(key, v)] = Table.find? name [] := by
      intro name hname
      have hkey : key ≠ name := by
        rintro rfl
        simp only [settingNames, List.mem_cons, List.not_mem_nil, or_false] at hname
        exact hname.elim hlevel fun h => h.elim hdir heditor
      exact if_neg hkey
    rw [makes_congr hother, makes_nil_iff]
    exact ⟨fun h => (Except.ok.inj h).symm, fun h => congrArg Except.ok h.symm⟩

/-- An entry of its own name is read before the others or not at all. -/
theorem readOr_cons_eq_ok {α : Type} {old new : α} {read : Config.Value → Except SettingsError α}
    (h : Table.find? entry.1 table = none) (name : String) :
    readOr old read (Table.find? name (entry :: table)) = .ok new ↔
      ∃ a, readOr old read (Table.find? name [entry]) = .ok a ∧
        readOr a read (Table.find? name table) = .ok new := by
  obtain ⟨key, v⟩ := entry
  simp only [Table.find?]
  split
  · next hname =>
    subst hname
    simp [h, readOr]
  · simp [readOr]

/-- An entry of its own name makes settings first, and the other entries go on from them. -/
theorem makes_cons_iff (h : Table.find? entry.1 table = none) :
    Makes (entry :: table) s t ↔ ∃ u, Makes [entry] s u ∧ Makes table u t := by
  constructor
  · rintro ⟨hlevel, hdir, hoptions⟩
    obtain ⟨level, hlevel, hlevel'⟩ := (readOr_cons_eq_ok h _).mp hlevel
    obtain ⟨dir, hdir, hdir'⟩ := (readOr_cons_eq_ok h _).mp hdir
    obtain ⟨options, hoptions, hoptions'⟩ := (readOr_cons_eq_ok h _).mp hoptions
    exact ⟨⟨level, dir, options⟩, ⟨hlevel, hdir, hoptions⟩, ⟨hlevel', hdir', hoptions'⟩⟩
  · rintro ⟨u, hfirst, hrest⟩
    exact ⟨(readOr_cons_eq_ok h _).mpr ⟨_, hfirst.level, hrest.level⟩,
      (readOr_cons_eq_ok h _).mpr ⟨_, hfirst.directory, hrest.directory⟩,
      (readOr_cons_eq_ok h _).mpr ⟨_, hfirst.options, hrest.options⟩⟩

/-- Entries are read one after the other. As no two have the same name, the order does not show in
the settings that they make. -/
theorem foldlM_readEntry_eq_ok (h : (table.map (·.1)).Nodup) :
    table.foldlM readEntry s = .ok t ↔ Makes table s t := by
  induction table generalizing s with
  | nil =>
    rw [makes_nil_iff]
    exact ⟨fun h => (Except.ok.inj h).symm, fun h => congrArg Except.ok h.symm⟩
  | cons entry table ih =>
    obtain ⟨hentry, hrest⟩ := List.nodup_cons.mp h
    have hfresh : Table.find? entry.1 table = none := by
      rw [Option.eq_none_iff_forall_ne_some]
      intro v hv
      exact hentry (List.mem_map.mpr ⟨_, (Table.find?_eq_some_iff hrest).mp hv, rfl⟩)
    rw [List.foldlM_cons, bind_eq_ok, makes_cons_iff hfresh]
    simp only [ih hrest, readEntry_eq_ok]

/-- Settings are read key by key. -/
theorem ofTable_eq_ok (h : (table.map (·.1)).Nodup) :
    ofTable table = .ok s ↔ readLevel (table.find? "log_level") = .ok s.logLevel ∧
      readDirectory (table.find? "metadata_dir") = .ok s.metadataDir ∧
      readOptions (table.find? "editor") = .ok s.editor :=
  (foldlM_readEntry_eq_ok h).trans ⟨fun h => ⟨h.level, h.directory, h.options⟩,
    fun ⟨hlevel, hdir, hoptions⟩ => ⟨hlevel, hdir, hoptions⟩⟩

end Keys

/-- Under which key a boolean stands does not matter. -/
theorem readBool_eq_ok_congr {v : Config.Value} {b : Bool} (key key' : String) :
    readBool key v = .ok b ↔ readBool key' v = .ok b := by
  cases v with
  | table entries origin => simp [readBool]
  | list items origin => simp [readBool]
  | datum d origin =>
    cases d with
    | text s =>
      rw [readBool, readBool]
      cases boolOfWord? (Text.lowercase s) <;> simp
    | _ => simp [readBool]

/-! ## Validity -/

theorem isLogLevel_iff {level : String} :
    isLogLevel level = true ↔ Text.lowercase level ∈ logLevels := List.contains_iff_mem

theorem isBlank_iff {dir : String} :
    Text.isBlank dir = true ↔ ∀ c ∈ dir.toList, Text.isBlankChar c = true := List.all_eq_true

/-- A rule that settings break. -/
inductive Violates (s : Settings) : SettingProblem → Prop where
  | level (h : Text.lowercase s.logLevel ∉ logLevels) : Violates s (.unknownLogLevel s.logLevel)
  | directory {dir : String} (hdir : s.metadataDir = some dir)
      (hblank : ∀ c ∈ dir.toList, Text.isBlankChar c = true) : Violates s .blankMetadataDir

/-- The problems that validation lists are the rules that the settings break. -/
theorem mem_problems {s : Settings} {p : SettingProblem} : p ∈ s.problems ↔ s.Violates p := by
  rw [problems, List.mem_append]
  constructor
  · rintro (h | h)
    · split at h
      · cases h
      · next hlevel =>
        obtain rfl := List.mem_singleton.mp h
        exact .level fun hmem => hlevel (isLogLevel_iff.mpr hmem)
    · split at h
      · next dir hdir =>
        split at h
        · next hblank =>
          obtain rfl := List.mem_singleton.mp h
          exact .directory hdir (isBlank_iff.mp hblank)
        · cases h
      · cases h
  · rintro (hlevel | ⟨hdir, hblank⟩)
    · left
      rw [if_neg fun h => hlevel (isLogLevel_iff.mp h)]
      exact List.mem_singleton_self _
    · right
      rw [hdir]
      dsimp only
      rw [if_pos (isBlank_iff.mpr hblank)]
      exact List.mem_singleton_self _

/-- Settings that break no rule are taken. -/
theorem validated_of_valid {s : Settings} (h : ∀ p, ¬ s.Violates p) : s.validated = .ok s := by
  have hnone : s.problems = [] := by
    rw [List.eq_nil_iff_forall_not_mem]
    exact fun p hp => h p (mem_problems.mp hp)
  rw [validated, hnone]
  rfl

/-- Settings that break a rule are refused with all that they break. -/
theorem validated_of_violates {s : Settings} {p : SettingProblem} (h : s.Violates p) :
    s.validated = .error (.invalid s.problems) := by
  have hsome : s.problems.isEmpty = false := by
    rw [List.isEmpty_eq_false_iff]
    exact List.ne_nil_of_mem (mem_problems.mpr h)
  rw [validated, hsome]
  rfl

/-- Validation changes nothing, and takes exactly the settings that break no rule. -/
theorem validated_eq_ok {s t : Settings} : s.validated = .ok t ↔ t = s ∧ ∀ p, ¬ s.Violates p := by
  constructor
  · intro h
    by_cases hvalid : ∃ p, s.Violates p
    · obtain ⟨p, hp⟩ := hvalid
      rw [validated_of_violates hp] at h
      cases h
    · rw [validated_of_valid (not_exists.mp hvalid)] at h
      exact ⟨(Except.ok.inj h).symm, not_exists.mp hvalid⟩
  · rintro ⟨rfl, hvalid⟩
    exact validated_of_valid hvalid

theorem infix_intercalate {separator part : List Char} {parts : List (List Char)}
    (h : part ∈ parts) : part <:+: separator.intercalate parts := by
  induction parts with
  | nil => cases h
  | cons first parts ih =>
    cases parts with
    | nil =>
      obtain rfl := List.mem_singleton.mp h
      rw [List.intercalate_singleton]
    | cons second parts =>
      rw [List.intercalate_cons_cons]
      rcases List.mem_cons.mp h with rfl | h
      · rw [List.append_assoc]
        exact (List.prefix_append _ _).isInfix
      · exact (ih h).trans (List.suffix_append _ _).isInfix

/-- The message of an error names every problem. -/
theorem exists_message_invalid (problems : List SettingProblem) :
    ∃ text, (SettingsError.invalid problems).message? = some text ∧
      ∀ p ∈ problems, p.message.toList <:+: text.toList := by
  refine ⟨_, rfl, fun p hp => ?_⟩
  rw [String.toList_append, String.toList_intercalate, List.map_map]
  refine List.IsInfix.trans ?_ (List.suffix_append _ _).isInfix
  exact infix_intercalate (List.mem_map_of_mem hp)

/-! ## Merged sources -/

/-- The level that the environment gives, or else the file. -/
def levelOf (environment : List (String × String)) (file : Table) : Except SettingsError String :=
  match environment.lookup "INVOKER_LOG_LEVEL" with
  | some text => .ok (variableText text)
  | none => readLevel (says? file "log_level")

/-- The directory that the environment gives, or else the file. -/
def directoryOf (environment : List (String × String)) (file : Table) :
    Except SettingsError (Option String) :=
  match environment.lookup "INVOKER_METADATA_DIR" with
  | some text => .ok (some (variableText text))
  | none => readDirectory (says? file "metadata_dir")

/-- The options of the editor that the environment gives, or else the file. -/
def optionsOf (environment : List (String × String)) (file : Table) :
    Except SettingsError Editor.Options :=
  match environment.lookup "INVOKER_EDITOR__SANITIZE_QUOTES" with
  | some text => do return ⟨← readBool "editor.sanitize_quotes" (ofVariable text)⟩
  | none => readOptions (says? file "editor")

/-- What the file and the environment say, the environment last. -/
def layered (environment : List (String × String)) (file : Table) : Table :=
  (merge (merge (.table [] none) file) (ofEnvironment environment)).entries

section Layered

variable {environment : List (String × String)}

/-- What a variable leaves under a name. -/
theorem find?_layered (h : OnlySettings environment) (order : Config.Order) (file : Table)
    (source key name : String) (hsource : (source, key) ∈ Config.settingVariables)
    (hname : Config.concerns name key = true) :
    Table.find? name (order.merge file (ofEnvironment environment)) =
      match environment.lookup source with
      | some text =>
        some ((ofVariable text).placed (says? (order.arrange .file file) name)
          (Config.pathOf key).tail)
      | none => says? (order.arrange .file file) name := by
  have hfilter := Config.filter_ofEnvironment h hsource hname
  -- no other variable is about the name, so the order of the environment does not show
  have hsingle : ((ofEnvironment environment).filter (Config.concerns name ·.1)).length ≤ 1 := by
    rw [hfilter]
    exact Option.length_toList_le
  rw [← order.filter_arrange .environment hsingle] at hfilter
  rw [order.find?_merge]
  cases hlookup : environment.lookup source with
  | none =>
    rw [hlookup] at hfilter
    rw [Config.find?_merge_of_silent hfilter, Config.find?_merge_empty]
  | some text =>
    rw [hlookup] at hfilter
    rw [Config.find?_merge_of_single hfilter, Config.find?_merge_empty]

/-- The level that is read from the merged sources comes from the environment, or else from the
file. -/
theorem readLevel_layered (h : OnlySettings environment) (order : Config.Order) (file : Table) :
    readLevel (Table.find? "log_level" (order.merge file (ofEnvironment environment))) =
      levelOf environment (order.arrange .file file) := by
  have hlayered := find?_layered h order file "INVOKER_LOG_LEVEL" "log_level" "log_level"
    (by decide) (by decide)
  rw [hlayered, levelOf]
  cases environment.lookup "INVOKER_LOG_LEVEL" with
  | none => rfl
  | some text => exact readText_ofVariable "log_level" text

/-- A variable never stands for a value that is missing. -/
theorem readOptional_ofVariable {α : Type} (read : Config.Value → Except SettingsError α)
    (text : String) :
    readOptional read (some (ofVariable text)) = some <$> read (ofVariable text) := by
  rw [ofVariable]
  cases h : Config.variableDatum text with
  | nil => exact absurd h (variableDatum_ne_nil text)
  | _ => rfl

/-- The directory that is read from the merged sources comes from the environment, or else from the
file. -/
theorem readDirectory_layered (h : OnlySettings environment) (order : Config.Order)
    (file : Table) :
    readDirectory (Table.find? "metadata_dir" (order.merge file (ofEnvironment environment))) =
      directoryOf environment (order.arrange .file file) := by
  have hlayered := find?_layered h order file "INVOKER_METADATA_DIR" "metadata_dir" "metadata_dir"
    (by decide) (by decide)
  rw [hlayered, directoryOf]
  cases environment.lookup "INVOKER_METADATA_DIR" with
  | none => rfl
  | some text =>
    -- the key is a name alone, so the value of the variable takes the place of the old one
    have hpath : (Config.pathOf "metadata_dir").tail = [] := by decide
    dsimp only
    rw [hpath]
    change readOptional (readText "metadata_dir") (some (ofVariable text)) = _
    rw [readOptional_ofVariable, readText_ofVariable]
    rfl

/-- An editor whose entry about quotes was set is read from that entry alone. -/
theorem readEditor_setEntry (target v : Config.Value) :
    readEditor (target.setEntry "sanitize_quotes" v) = (do
      return ⟨← readBool "editor.sanitize_quotes" v⟩) := by
  have hentry : ∃ entries origin, target.setEntry "sanitize_quotes" v =
      .table (Table.set "sanitize_quotes" v entries) origin := by
    cases target <;> exact ⟨_, _, rfl⟩
  obtain ⟨entries, origin, hentry⟩ := hentry
  rw [hentry, readEditor, Table.find?_set, if_pos rfl]

/-- The options that are read from the merged sources come from the environment, or else from the
file. -/
theorem readOptions_layered (h : OnlySettings environment) (order : Config.Order) (file : Table) :
    readOptions (Table.find? "editor" (order.merge file (ofEnvironment environment))) =
      optionsOf environment (order.arrange .file file) := by
  have hlayered := find?_layered h order file "INVOKER_EDITOR__SANITIZE_QUOTES"
    "editor.sanitize_quotes" "editor" (by decide) (by decide)
  rw [hlayered, optionsOf]
  cases environment.lookup "INVOKER_EDITOR__SANITIZE_QUOTES" with
  | none => rfl
  | some text =>
    -- the variable sets an entry of the editor, which becomes a table if it is none
    have hpath : (Config.pathOf "editor.sanitize_quotes").tail = [.name "sanitize_quotes"] := by
      decide
    dsimp only
    rw [hpath]
    exact readEditor_setEntry _ (ofVariable text)

end Layered

/-! ## The settings of a file and an environment -/

/-- What the sources say of each key makes the settings. -/
structure ReadFrom (environment : List (String × String)) (file : Table) (s : Settings) : Prop where
  level : levelOf environment file = .ok s.logLevel
  directory : directoryOf environment file = .ok s.metadataDir
  options : optionsOf environment file = .ok s.editor

section Reading

variable {environment : List (String × String)} {file : Table} {s : Settings}

/-- Of the order of a load no more can show than the order of the file. -/
theorem ofTable_merge_eq_ok (h : OnlySettings environment) (order : Config.Order) :
    ofTable (order.merge file (ofEnvironment environment)) = .ok s ↔
      ReadFrom environment (order.arrange .file file) s := by
  rw [ofTable_eq_ok (order.nodup_merge _ _), readLevel_layered h, readDirectory_layered h,
    readOptions_layered h]
  exact ⟨fun ⟨hlevel, hdir, hoptions⟩ => ⟨hlevel, hdir, hoptions⟩,
    fun hread => ⟨hread.level, hread.directory, hread.options⟩⟩

/-- The merged sources give settings exactly when each setting can be read from the source that
decides it. -/
theorem ofTable_layered_eq_ok (h : OnlySettings environment) :
    ofTable (layered environment file) = .ok s ↔ ReadFrom environment file s :=
  ofTable_merge_eq_ok h .listed

/-- Loading gives settings exactly when the file is not malformed, and they are read from what it
says and the environment. -/
theorem read_eq_ok {world : Surroundings} (h : OnlySettings world.environment) {config : String}
    {order : Config.Order} :
    read world config order = .ok s ↔ ∃ file, Config.ofFile? world.files config = some file ∧
      ReadFrom world.environment (order.arrange .file file) s := by
  rw [read]
  cases Config.ofFile? world.files config with
  | none => simp
  | some file =>
    refine (ofTable_merge_eq_ok h order).trans ?_
    exact ⟨fun hread => ⟨file, rfl, hread⟩, fun ⟨file', hfile, hread⟩ =>
      Option.some.inj hfile ▸ hread⟩

end Reading

end TypedCall.Settings
