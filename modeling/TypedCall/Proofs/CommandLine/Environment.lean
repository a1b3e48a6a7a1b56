import TypedCall.CommandLine.Command
import TypedCall.Proofs.Entries
import TypedCall.Proofs.Json.Reading

/-!
# Command lines in an environment

What the arguments leave open is taken from the environment. The name of the configuration file can
be set there, and the directory of component files. Where the first is not set, a command line says
what its arguments say on their own, with the directory of the environment in the place of one that
is not given (`parse_eq_ok_iff`), wherever among the arguments it could have been given.
-/

namespace TypedCall.CommandLine

open Json (bind_eq_ok)

/-- The command line, with the directory of the environment if its arguments name none. -/
def inEnvironment (line : CommandLine) (environment : List (String × String)) : CommandLine :=
  { line with overrides := { line.overrides with
      metadataDir := line.overrides.metadataDir.or (environment.lookup "INVOKER_METADATA_DIR") } }

/-! ## What the arguments give -/

namespace Progress

/-- Every value comes from the arguments. -/
def AllGiven (p : Progress) : Prop := ∀ v ∈ p.values, v.2.source = .arguments

variable {p q : Progress} {spec : OptionSpec}

theorem AllGiven.of_lookup (hp : p.AllGiven) {name : String} {given : Given}
    (h : p.values.lookup name = some given) : given.source = .arguments :=
  hp (name, given) (Entries.mem_of_lookup h)

/-- Accepting a value from the arguments keeps all values from there. -/
theorem AllGiven.accept (hp : p.AllGiven) {value : String}
    (h : p.accept spec value .arguments = .ok q) : q.AllGiven := by
  rw [Progress.accept] at h
  split at h
  · cases h
  · split at h
    · cases h
    · obtain rfl := Except.ok.inj h
      intro v hv
      rcases List.mem_append.mp hv with hv | hv
      · exact hp v hv
      · obtain rfl := List.mem_singleton.mp hv
        rfl

/-- Settling the pending option takes a value from the arguments at most. -/
theorem AllGiven.settle (hp : p.AllGiven) (h : p.settle = .ok q) : q.AllGiven := by
  rw [Progress.settle] at h
  split at h
  · exact Except.ok.inj h ▸ hp
  · cases h
  · have hp' : AllGiven { p with pending := none } := hp
    exact hp'.accept h

/-- Beginning an option takes values from the arguments at most. -/
theorem AllGiven.begin (hp : p.AllGiven) {value : Option String}
    (h : p.begin spec value = .ok q) : q.AllGiven := by
  obtain ⟨p', hsettle, h⟩ := bind_eq_ok.mp h
  have hp' := hp.settle hsettle
  cases value with
  | some value => exact hp'.accept h
  | none =>
    obtain rfl := Except.ok.inj h
    exact hp'

/-- A level that ends with an error gives nothing. -/
theorem finishWith_ne_ok {e : UsageError} : p.finishWith e ≠ .ok q := by
  intro h
  obtain ⟨-, -, h⟩ := bind_eq_ok.mp h
  cases h

end Progress

/-- A long option takes values from the arguments only. -/
theorem allGiven_readLong {level : Level} {p q : Progress} {cs : List Char} (hp : p.AllGiven)
    (h : readLong level p cs = .ok q) : q.AllGiven := by
  rw [readLong] at h
  dsimp only at h
  split at h
  · exact hp.begin h
  · split at h
    · cases h
    · exact absurd h Progress.finishWith_ne_ok
    · cases h

/-- A group of short options takes values from the arguments only. -/
theorem allGiven_readShort {level : Level} {p q : Progress} {c : Char} {rest : List Char}
    (hp : p.AllGiven) (h : readShort level p c rest = .ok q) : q.AllGiven := by
  rw [readShort] at h
  split at h
  · exact hp.begin h
  · split at h
    · exact absurd h Progress.finishWith_ne_ok
    · split at h
      · exact absurd h Progress.finishWith_ne_ok
      · cases h

/-- What is read of a level comes from the arguments. -/
theorem allGiven_readLevel {level : Level} {p q : Progress} {arguments : List String}
    {command : Option (String × List String)} (hp : p.AllGiven)
    (h : readLevel level p arguments = .ok (q, command)) : q.AllGiven := by
  induction arguments generalizing p with
  | nil =>
    obtain ⟨rfl, -⟩ := Prod.mk.inj (Except.ok.inj h)
    exact hp
  | cons argument rest ih =>
    unfold readLevel at h
    split at h
    · -- a command ends the level
      obtain ⟨rfl, -⟩ := Prod.mk.inj (Except.ok.inj h)
      exact hp
    · split at h
      · -- nothing may stand behind `--`
        cases rest with
        | nil =>
          obtain ⟨rfl, -⟩ := Prod.mk.inj (Except.ok.inj h)
          exact hp
        | cons stray rest => cases h
      · obtain ⟨p', hlong, h⟩ := bind_eq_ok.mp h
        exact ih (allGiven_readLong hp hlong) h
      · obtain ⟨p', hshort, h⟩ := bind_eq_ok.mp h
        exact ih (allGiven_readShort hp hshort) h
      · split at h
        · -- the argument is noted for the option that waits for it
          exact ih (p := ⟨p.values, some (_, some argument)⟩) hp h
        · cases h

/-! ## What the environment adds -/

section Environment

variable {environment : List (String × String)} {values : Values}

/-- The options of the level end with those that may stand at either place. None of its own options
is taken from the environment, has a default or is named like the directory. -/
structure Level.HasCommon (level : Level) (own : List OptionSpec) : Prop where
  options : level.options = own ++ commonOptions
  own : ∀ spec ∈ own, spec.environmentName? = none ∧ spec.fallback = none ∧
    spec.name ≠ "metadata-dir"

theorem hasCommon_outer : outerLevel.HasCommon [] := ⟨rfl, by simp⟩

/-- The options of every command end with the common ones. -/
theorem hasCommon_inner {name : String} {options : List OptionSpec}
    (h : commandOptions.lookup name = some options) : (innerLevel options).HasCommon options := by
  have hall : ∀ command ∈ commandOptions, ∀ spec ∈ command.2, spec.environmentName? = none ∧
      spec.fallback = none ∧ spec.name ≠ "metadata-dir" := by decide
  exact ⟨rfl, hall (name, options) (Entries.mem_of_lookup h)⟩

/-- The values, with the directory of the environment if there is none among them. -/
def withDirectory (environment : List (String × String)) (values : Values) : Values :=
  match values.lookup "metadata-dir", environment.lookup "INVOKER_METADATA_DIR" with
  | none, some dir => values ++ [("metadata-dir", ⟨dir, .environment⟩)]
  | _, _ => values

/-- A directory that is given hides the one of the environment, and no other value is touched. -/
theorem lookup_withDirectory (environment : List (String × String)) (values : Values)
    (name : String) :
    (withDirectory environment values).lookup name =
      if name = "metadata-dir" then
        (values.lookup name).or
          ((environment.lookup "INVOKER_METADATA_DIR").map fun dir => ⟨dir, .environment⟩)
      else values.lookup name := by
  rw [withDirectory]
  split
  · next dir hnone hdir =>
    rw [List.lookup_append, hdir]
    by_cases hname : name = "metadata-dir"
    · rw [if_pos hname, hname, hnone]
      rfl
    · rw [if_neg hname, List.lookup_cons, beq_eq_false_iff_ne.mpr hname, List.lookup_nil,
        Option.or_none]
  · next hopen =>
    split
    · next hname =>
      subst hname
      -- the directory is given, or not set
      cases hvalue : values.lookup "metadata-dir" with
      | some given => rfl
      | none =>
        cases hdir : environment.lookup "INVOKER_METADATA_DIR" with
        | none => rfl
        | some dir => exact absurd hdir (hopen dir hvalue)
    · rfl

theorem addEnvironment_append (p : Progress) (first second : List OptionSpec) :
    addEnvironment environment p (first ++ second) =
      addEnvironment environment p first >>= fun p => addEnvironment environment p second := by
  induction first generalizing p with
  | nil => rfl
  | cons spec first ih =>
    rw [List.cons_append, addEnvironment, addEnvironment]
    split
    · rw [bind_assoc]
      exact bind_congr fun q => ih q
    · exact ih p

/-- An option that has its value, or is not set in the environment, is passed over. -/
theorem addEnvironment_cons_of_settled {p : Progress} {spec : OptionSpec}
    {options : List OptionSpec}
    (h : (p.values.lookup spec.name).isSome ∨
      spec.environmentName?.bind (environment.lookup ·) = none) :
    addEnvironment environment p (spec :: options) = addEnvironment environment p options := by
  rw [addEnvironment]
  split
  · next hopen hset =>
    rw [hopen, hset] at h
    exact absurd h (by simp)
  · rfl

/-- Options that are not set in the environment are left open. -/
theorem addEnvironment_of_unset {options : List OptionSpec} (p : Progress)
    (h : ∀ spec ∈ options, spec.environmentName?.bind (environment.lookup ·) = none) :
    addEnvironment environment p options = .ok p := by
  induction options with
  | nil => rfl
  | cons spec options ih =>
    obtain ⟨hspec, hoptions⟩ := List.forall_mem_cons.mp h
    rw [addEnvironment_cons_of_settled (.inr hspec)]
    exact ih hoptions

/-- Where no configuration file is named in the environment, of the common options only the
directory can be taken from it. -/
theorem addEnvironment_common (hconfig : environment.lookup "INVOKER_CONFIG" = none)
    (p : Progress) :
    addEnvironment environment p commonOptions =
      .ok { p with values := withDirectory environment p.values } := by
  have hconfig' : (some "INVOKER_CONFIG").bind (environment.lookup ·) = none := hconfig
  rw [commonOptions, addEnvironment_cons_of_settled (.inr hconfig'), withDirectory]
  -- of the two options that are left only the directory can be set in the environment
  cases hvalue : p.values.lookup "metadata-dir" with
  | some given =>
    rw [addEnvironment_cons_of_settled (.inl (Option.isSome_of_eq_some hvalue))]
    exact addEnvironment_of_unset p (by simp)
  | none =>
    cases hdir : environment.lookup "INVOKER_METADATA_DIR" with
    | none =>
      have hunset : (some "INVOKER_METADATA_DIR").bind (environment.lookup ·) = none := hdir
      rw [addEnvironment_cons_of_settled (.inr hunset)]
      exact addEnvironment_of_unset p (by simp)
    | some dir =>
      have hset : (some "INVOKER_METADATA_DIR").bind (environment.lookup ·) = some dir := hdir
      rw [addEnvironment, hvalue, hset]
      dsimp only
      rw [Progress.accept, hvalue]
      exact addEnvironment_of_unset _ (by simp)

/-- At either level, the environment adds its directory at most. -/
theorem addEnvironment_level {level : Level} {own : List OptionSpec} (hlevel : level.HasCommon own)
    (hconfig : environment.lookup "INVOKER_CONFIG" = none) (p : Progress) :
    addEnvironment environment p level.options =
      .ok { p with values := withDirectory environment p.values } := by
  have hown : ∀ spec ∈ own, spec.environmentName?.bind (environment.lookup ·) = none := by
    intro spec hspec
    rw [(hlevel.own spec hspec).1]
    rfl
  rw [hlevel.options, addEnvironment_append, addEnvironment_of_unset p hown]
  exact addEnvironment_common hconfig p

theorem addFallbacks_append {own : List OptionSpec} (h : ∀ spec ∈ own, spec.fallback = none)
    (values : Values) (options : List OptionSpec) :
    addFallbacks values (own ++ options) = addFallbacks values options := by
  rw [addFallbacks, addFallbacks, List.filterMap_append, List.filterMap_eq_nil_iff.mpr,
    List.nil_append]
  intro spec hspec
  rw [h spec hspec]
  split
  · next heq => cases heq
  · rfl

/-- Only the name of the configuration file has a default. -/
theorem lookup_addFallbacks {level : Level} {own : List OptionSpec} (hlevel : level.HasCommon own)
    (values : Values) (name : String) :
    (addFallbacks values level.options).lookup name =
      (values.lookup name).or
        (if name = "config" then some ⟨"invoker.toml", .fallback⟩ else none) := by
  rw [hlevel.options, addFallbacks_append fun spec hspec => (hlevel.own spec hspec).2.1,
    addFallbacks, List.lookup_append, commonOptions]
  cases hvalue : values.lookup "config" with
  | some given =>
    by_cases hname : name = "config"
    · simp [hname, hvalue]
    · simp [hname, hvalue]
  | none =>
    by_cases hname : name = "config"
    · simp [hname, hvalue]
    · simp [hname, hvalue, List.lookup_cons, beq_eq_false_iff_ne.mpr hname]

/-- The values of a level, with the directory of the environment and the defaults. -/
def completed (level : Level) (environment : List (String × String)) (values : Values) : Values :=
  addFallbacks (withDirectory environment values) level.options

/-- Apart from the directory, a completed level has the values that were given and the default for
the configuration file. -/
theorem lookup_completed {level : Level} {own : List OptionSpec} (hlevel : level.HasCommon own)
    {name : String} (hname : name ≠ "metadata-dir") :
    (completed level environment values).lookup name =
      (values.lookup name).or
        (if name = "config" then some ⟨"invoker.toml", .fallback⟩ else none) := by
  rw [completed, lookup_addFallbacks hlevel, lookup_withDirectory, if_neg hname]

/-- The directory of a completed level is the one that was given, or else that of the environment.
-/
theorem lookup_completed_directory {level : Level} {own : List OptionSpec}
    (hlevel : level.HasCommon own) :
    (completed level environment values).lookup "metadata-dir" =
      (values.lookup "metadata-dir").or
        ((environment.lookup "INVOKER_METADATA_DIR").map fun dir => ⟨dir, .environment⟩) := by
  rw [completed, lookup_addFallbacks hlevel, lookup_withDirectory, if_pos rfl,
    if_neg (by decide), Option.or_none]

/-- Is an option that is required still open? -/
def lacksRequired (level : Level) (values : Values) : Bool :=
  level.options.any fun spec => spec.required && (values.lookup spec.name).isNone

/-- The directory is never required. -/
theorem lacksRequired_withDirectory {level : Level} {own : List OptionSpec}
    (hlevel : level.HasCommon own) (values : Values) :
    lacksRequired level (withDirectory environment values) = lacksRequired level values := by
  have hown : ∀ spec ∈ own, (withDirectory environment values).lookup spec.name =
      values.lookup spec.name := by
    intro spec hspec
    rw [lookup_withDirectory, if_neg (hlevel.own spec hspec).2.2]
  have hcommon : ∀ values : Values, (commonOptions.any fun spec =>
      spec.required && (values.lookup spec.name).isNone) = false := fun _ => rfl
  rw [lacksRequired, lacksRequired, hlevel.options, List.any_append, List.any_append, hcommon,
    hcommon]
  congr 1
  rw [Bool.eq_iff_iff, List.any_eq_true, List.any_eq_true]
  exact exists_congr fun spec => and_congr_right fun hspec => by rw [hown spec hspec]

/-- A level ends well exactly when its last option is settled and nothing is missing, and then its
values are completed. -/
theorem finishLevel_eq_ok {level : Level} {own : List OptionSpec} (hlevel : level.HasCommon own)
    (hconfig : environment.lookup "INVOKER_CONFIG" = none) {p : Progress} {result : Values} :
    finishLevel level environment p = .ok result ↔
      ∃ q, p.settle = .ok q ∧ lacksRequired level q.values = false ∧
        result = completed level environment q.values := by
  rw [finishLevel, bind_eq_ok]
  refine exists_congr fun q => and_congr_right fun _ => ?_
  rw [addEnvironment_level hlevel hconfig]
  change (if lacksRequired level (withDirectory environment q.values) = true then _ else _) =
    Except.ok result ↔ _
  rw [lacksRequired_withDirectory hlevel]
  cases lacksRequired level q.values with
  | true => simp
  | false => simp [completed, eq_comm, pure, Except.pure]

end Environment

/-! ## Command lines -/

/-- What the arguments give: the name of a command, and the values before it and behind it. -/
structure Gives (arguments : List String) (name : String) (options : List OptionSpec)
    (outer inner : Progress) : Prop where
  command : commandOptions.lookup name = some options
  levels : ∃ rest p q stray, readLevel outerLevel {} arguments = .ok (p, some (name, rest)) ∧
    readLevel (innerLevel options) {} rest = .ok (q, stray) ∧
    p.settle = .ok outer ∧ q.settle = .ok inner
  outerComplete : lacksRequired outerLevel outer.values = false
  innerComplete : lacksRequired (innerLevel options) inner.values = false

/-- Before they are completed, the values of both levels come from the arguments. -/
theorem Gives.allGiven {arguments : List String} {name : String} {options : List OptionSpec}
    {outer inner : Progress} (h : Gives arguments name options outer inner) :
    outer.AllGiven ∧ inner.AllGiven := by
  obtain ⟨rest, p, q, stray, hp, hq, houter, hinner⟩ := h.levels
  have hempty : Progress.AllGiven {} := by
    intro v hv
    cases hv
  exact ⟨(allGiven_readLevel hempty hp).settle houter, (allGiven_readLevel hempty hq).settle hinner⟩

/-- The command line of the values of both levels. -/
def ofValues (name : String) (outer inner : Values) : CommandLine :=
  ⟨⟨(commonValue? outer inner "config").getD "", commonValue? outer inner "metadata-dir",
    commonValue? outer inner "log-level"⟩, commandOf name inner⟩

/-- A command line comes from what the arguments give, completed in the environment. -/
theorem parse_eq_ok {environment : List (String × String)}
    (hconfig : environment.lookup "INVOKER_CONFIG" = none) {arguments : List String}
    {line : CommandLine} :
    parse environment arguments = .ok line ↔
      ∃ name options outer inner, Gives arguments name options outer inner ∧
        line = ofValues name (completed outerLevel environment outer.values)
          (completed (innerLevel options) environment inner.values) := by
  rw [parse]
  constructor
  · intro h
    obtain ⟨⟨p, command⟩, hp, h⟩ := bind_eq_ok.mp h
    cases command with
    | none =>
      obtain ⟨values, -, h⟩ := bind_eq_ok.mp h
      cases h
    | some command =>
      obtain ⟨name, rest⟩ := command
      dsimp only at h
      split at h
      · cases h
      · next options hoptions =>
        -- the levels end in the order in which their errors count
        obtain ⟨⟨q, stray⟩, hq, h⟩ := bind_eq_ok.mp h
        obtain ⟨innerValues, hendInner, h⟩ := bind_eq_ok.mp h
        obtain ⟨outerValues, hendOuter, h⟩ := bind_eq_ok.mp h
        obtain ⟨inner, hinner, hinnerComplete, rfl⟩ :=
          (finishLevel_eq_ok (hasCommon_inner hoptions) hconfig).mp hendInner
        obtain ⟨outer, houter, houterComplete, rfl⟩ :=
          (finishLevel_eq_ok hasCommon_outer hconfig).mp hendOuter
        exact ⟨name, options, outer, inner,
          ⟨hoptions, ⟨rest, p, q, stray, hp, hq, houter, hinner⟩, houterComplete, hinnerComplete⟩,
          (Except.ok.inj h).symm⟩
  · rintro ⟨name, options, outer, inner,
      ⟨hoptions, ⟨rest, p, q, stray, hp, hq, houter, hinner⟩, houterComplete, hinnerComplete⟩, rfl⟩
    refine bind_eq_ok.mpr ⟨(p, some (name, rest)), hp, ?_⟩
    dsimp only
    rw [hoptions]
    refine bind_eq_ok.mpr ⟨(q, stray), hq, ?_⟩
    refine bind_eq_ok.mpr ⟨_, (finishLevel_eq_ok (hasCommon_inner hoptions) hconfig).mpr
      ⟨inner, hinner, hinnerComplete, rfl⟩, ?_⟩
    exact bind_eq_ok.mpr ⟨_, (finishLevel_eq_ok hasCommon_outer hconfig).mpr
      ⟨outer, houter, houterComplete, rfl⟩, rfl⟩

theorem commonValue?_congr {outer inner outer' inner' : Values} {name : String}
    (houter : outer.lookup name = outer'.lookup name)
    (hinner : inner.lookup name = inner'.lookup name) :
    commonValue? outer inner name = commonValue? outer' inner' name := by
  rw [commonValue?, commonValue?, houter, hinner]

/-- A command makes no use of the directory. -/
theorem commandOf_congr {values values' : Values}
    (h : ∀ name ≠ "metadata-dir", values.lookup name = values'.lookup name) (name : String) :
    commandOf name values = commandOf name values' := by
  simp [commandOf, functionChoice, componentChoice, valueOf?, h]

/-- A directory among the arguments comes before that of the environment, at either level. -/
theorem commonValue?_directory {outer inner : Progress} (houter : outer.AllGiven)
    (hinner : inner.AllGiven) {options : List OptionSpec}
    (hoptions : (innerLevel options).HasCommon options) (environment : List (String × String)) :
    commonValue? (completed outerLevel environment outer.values)
        (completed (innerLevel options) environment inner.values) "metadata-dir" =
      (commonValue? outer.values inner.values "metadata-dir").or
        (environment.lookup "INVOKER_METADATA_DIR") := by
  rw [commonValue?, commonValue?, lookup_completed_directory hasCommon_outer,
    lookup_completed_directory hoptions]
  -- a directory of the environment stands at both levels, and any argument beats it
  cases ho : outer.values.lookup "metadata-dir" with
  | none =>
    cases hi : inner.values.lookup "metadata-dir" with
    | none => cases environment.lookup "INVOKER_METADATA_DIR" <;> rfl
    | some given =>
      have hsource := hinner.of_lookup hi
      cases environment.lookup "INVOKER_METADATA_DIR" <;> simp [Source.beats, hsource]
  | some given =>
    have hsource := houter.of_lookup ho
    cases hi : inner.values.lookup "metadata-dir" with
    | none => cases environment.lookup "INVOKER_METADATA_DIR" <;> simp [Source.beats, hsource]
    | some given => rfl

/-- Completed in an environment, the values are those of a command line of their own with the
directory of the environment. -/
theorem ofValues_completed {outer inner : Progress} (houter : outer.AllGiven)
    (hinner : inner.AllGiven) {options : List OptionSpec}
    (hoptions : (innerLevel options).HasCommon options) (environment : List (String × String))
    (name : String) :
    ofValues name (completed outerLevel environment outer.values)
        (completed (innerLevel options) environment inner.values) =
      (ofValues name (completed outerLevel [] outer.values)
        (completed (innerLevel options) [] inner.values)).inEnvironment environment := by
  have hcommon : ∀ key ≠ "metadata-dir",
      commonValue? (completed outerLevel environment outer.values)
          (completed (innerLevel options) environment inner.values) key =
        commonValue? (completed outerLevel [] outer.values)
          (completed (innerLevel options) [] inner.values) key := by
    intro key hkey
    refine commonValue?_congr ?_ ?_
    · rw [lookup_completed hasCommon_outer hkey, lookup_completed hasCommon_outer hkey]
    · rw [lookup_completed hoptions hkey, lookup_completed hoptions hkey]
  have hcommand : commandOf name (completed (innerLevel options) environment inner.values) =
      commandOf name (completed (innerLevel options) [] inner.values) := by
    refine commandOf_congr (fun key hkey => ?_) name
    rw [lookup_completed hoptions hkey, lookup_completed hoptions hkey]
  have hdirectory := commonValue?_directory houter hinner hoptions
  rw [ofValues, hcommon "config" (by decide), hcommon "log-level" (by decide), hcommand,
    hdirectory, inEnvironment, ofValues, hdirectory, List.lookup_nil, Option.or_none]

/-- A command line says what its arguments say, with the directory of the environment if they name
none. -/
theorem parse_eq_ok_iff {environment : List (String × String)}
    (hconfig : environment.lookup "INVOKER_CONFIG" = none) {arguments : List String}
    {line : CommandLine} :
    parse environment arguments = .ok line ↔
      ∃ given, parse [] arguments = .ok given ∧ line = given.inEnvironment environment := by
  rw [parse_eq_ok hconfig]
  constructor
  · rintro ⟨name, options, outer, inner, hgives, rfl⟩
    have hlevel := hasCommon_inner hgives.command
    refine ⟨_, (parse_eq_ok List.lookup_nil).mpr ⟨name, options, outer, inner, hgives, rfl⟩, ?_⟩
    exact ofValues_completed hgives.allGiven.1 hgives.allGiven.2 hlevel environment name
  · rintro ⟨given, hparse, rfl⟩
    obtain ⟨name, options, outer, inner, hgives, rfl⟩ := (parse_eq_ok List.lookup_nil).mp hparse
    have hlevel := hasCommon_inner hgives.command
    refine ⟨name, options, outer, inner, hgives, ?_⟩
    exact (ofValues_completed hgives.allGiven.1 hgives.allGiven.2 hlevel environment name).symm

end TypedCall.CommandLine
