import TypedCall.Proofs.Catalog.Directory
import TypedCall.Proofs.Printing

/-!
# Choosing a component

A command about components chooses from a directory and a file (`Offers`). What is listed in the
file goes into the catalog of the directory, one component after the other, so it replaces what the
directory has under the same ids. `command_uses` says of every command which component it uses, or
that it fails, and that no other component has a part in what is printed.
-/

namespace TypedCall

/-! ## What there is to choose from -/

/-- The catalog that the directory of the settings gives. Without a directory it is empty. -/
def Settings.Provides (s : Settings) (files : Files.Tree) (loaded : Catalog) : Prop :=
  match s.metadataDir with
  | none => loaded = .empty
  | some dir => ∃ n, Catalog.empty.loadDirectory files dir = (.ok n, loaded)

/-- The components that the file holds. Without a file there are none. -/
def ComponentChoice.Lists (choice : ComponentChoice) (files : Files.Tree)
    (listed : List Component) : Prop :=
  match choice.metadata with
  | none => listed = []
  | some path => Catalog.HoldsFile files path listed

/-- What there is to choose from: the catalog of the directory, and what is listed in the file. -/
structure ComponentChoice.Offers (choice : ComponentChoice) (settings : Settings)
    (files : Files.Tree) (loaded : Catalog) (listed : List Component) : Prop where
  provides : settings.Provides files loaded
  lists : choice.Lists files listed

section Offers

variable {settings : Settings} {files : Files.Tree} {choice : ComponentChoice}
  {loaded catalog : Catalog} {listed : List Component}

/-- The settings give the catalog that their directory provides. -/
theorem Settings.catalog_eq_ok : settings.catalog files = .ok loaded ↔
    settings.Provides files loaded := by
  rw [Settings.catalog, Settings.Provides]
  cases settings.metadataDir with
  | none => exact ⟨fun h => (Except.ok.inj h).symm, fun h => congrArg Except.ok h.symm⟩
  | some dir =>
    simp only
    rcases Catalog.empty.loadDirectory files dir with ⟨_ | n, after⟩ <;> simp

/-- No catalog is given exactly when the directory cannot be loaded. -/
theorem Settings.not_exists_provides : (¬ ∃ loaded, settings.Provides files loaded) ↔
    ∃ dir, settings.metadataDir = some dir ∧
      ∃ e after, Catalog.empty.loadDirectory files dir = (.error e, after) := by
  simp only [Settings.Provides]
  cases settings.metadataDir with
  | none => simp
  | some dir =>
    simp only [Option.some.injEq, exists_eq_left']
    rcases Catalog.empty.loadDirectory files dir with ⟨_ | n, after⟩ <;> simp

/-- Nothing is listed exactly when the file cannot be loaded, onto whatever catalog. -/
theorem ComponentChoice.not_exists_lists : (¬ ∃ listed, choice.Lists files listed) ↔
    ∃ path, choice.metadata = some path ∧
      ∀ catalog, ∃ e, Catalog.loadFile files catalog path = (.error e, catalog) := by
  simp only [ComponentChoice.Lists]
  cases choice.metadata with
  | none => simp
  | some path =>
    simp only [Option.some.injEq, exists_eq_left']
    refine ⟨fun h catalog => Catalog.loadFile_error catalog h, fun h => ?_⟩
    rintro ⟨cs, hcs⟩
    obtain ⟨e, he⟩ := h .empty
    rw [Catalog.loadFile_ok hcs] at he
    cases he

/-- There is nothing to choose from exactly when the directory or the file cannot be loaded. -/
theorem ComponentChoice.not_exists_offers :
    (¬ ∃ loaded listed, choice.Offers settings files loaded listed) ↔
      (¬ ∃ loaded, settings.Provides files loaded) ∨ ¬ ∃ listed, choice.Lists files listed := by
  rw [← not_and_or, not_iff_not]
  exact ⟨fun ⟨loaded, listed, h⟩ => ⟨⟨loaded, h.provides⟩, listed, h.lists⟩,
    fun ⟨⟨loaded, hloaded⟩, listed, hlisted⟩ => ⟨loaded, listed, hloaded, hlisted⟩⟩

/-- What is listed goes into the catalog of the directory. -/
theorem ComponentChoice.catalog_eq_ok : choice.catalog settings files = .ok catalog ↔
    ∃ loaded listed, choice.Offers settings files loaded listed ∧
      catalog = loaded.insertAll listed := by
  rw [ComponentChoice.catalog, Json.bind_eq_ok]
  refine exists_congr fun loaded => ?_
  rw [Settings.catalog_eq_ok]
  constructor
  · rintro ⟨hloaded, h⟩
    cases hpath : choice.metadata with
    | none =>
      rw [hpath] at h
      refine ⟨[], ⟨hloaded, ?_⟩, (Except.ok.inj h).symm⟩
      rw [ComponentChoice.Lists, hpath]
    | some path =>
      rw [hpath] at h
      by_cases hholds : ∃ cs, Catalog.HoldsFile files path cs
      · obtain ⟨cs, hcs⟩ := hholds
        simp only [Catalog.loadFile_ok hcs] at h
        refine ⟨cs, ⟨hloaded, ?_⟩, (Except.ok.inj h).symm⟩
        rwa [ComponentChoice.Lists, hpath]
      · obtain ⟨e, he⟩ := Catalog.loadFile_error loaded hholds
        simp only [he] at h
        cases h
  · rintro ⟨listed, hoffers, rfl⟩
    refine ⟨hoffers.provides, ?_⟩
    have hlists := hoffers.lists
    cases hpath : choice.metadata with
    | none =>
      rw [ComponentChoice.Lists, hpath] at hlists
      simp only at hlists
      rw [hlists]
      rfl
    | some path =>
      rw [ComponentChoice.Lists, hpath] at hlists
      simp only [Catalog.loadFile_ok hlists]
      rfl

end Offers

/-! ## Which component is chosen -/

namespace Catalog

variable {catalog loaded : Catalog} {listed : List Component} {c : Component}

theorem mem_ids {id : String} :
    id ∈ catalog.components.map (·.id) ↔ (catalog.get? id).isSome := by
  rw [get?, Component.withId?_eq, List.find?_isSome]
  simp

/-- After insertions there is a component of every id that was there or was listed. -/
theorem mem_ids_insertAll {id : String} :
    id ∈ (loaded.insertAll listed).components.map (·.id) ↔
      id ∈ (loaded.components ++ listed).map (·.id) := by
  rw [mem_ids, get?_insertAll, Option.isSome_or, Bool.or_eq_true, ← mem_ids, List.map_append,
    List.mem_append, List.find?_isSome, or_comm]
  simp

/-- No id repeats in a catalog, so a catalog of one id is one of a single component. -/
theorem exists_components_eq_singleton :
    (∃ c, catalog.components = [c]) ↔ ∃! id, id ∈ catalog.components.map (·.id) := by
  have hnodup := catalog.nodup_ids
  constructor
  · rintro ⟨c, hc⟩
    exact ⟨c.id, by simp [hc], fun id hid => by simpa [hc] using hid⟩
  · rintro ⟨id, hid, hunique⟩
    cases hcomponents : catalog.components with
    | nil => simp [hcomponents] at hid
    | cons c rest =>
      rw [hcomponents] at hunique hnodup
      cases rest with
      | nil => exact ⟨c, rfl⟩
      | cons d rest =>
        -- two components would have the same id
        have hc : c.id = id := hunique c.id (by simp)
        have hd : d.id = id := hunique d.id (by simp)
        simp [hc, hd] at hnodup

/-- The single component that is left is the last one inserted, if any was. -/
theorem last_of_insertAll_eq_singleton (h : (loaded.insertAll listed).components = [c]) :
    listed.getLast? = some c ∨ listed = [] ∧ loaded.components = [c] := by
  rcases List.eq_nil_or_concat listed with rfl | ⟨before, d, hconcat⟩
  · exact .inr ⟨rfl, h⟩
  · left
    rw [List.concat_eq_append] at hconcat
    subst hconcat
    have hd : (loaded.insertAll (before ++ [d])).get? d.id = some d := by
      simp [get?_insertAll]
    have hmem : d ∈ (loaded.insertAll (before ++ [d])).components := mem_components.mpr hd
    rw [h, List.mem_singleton] at hmem
    rw [List.getLast?_concat, hmem]

end Catalog

namespace ComponentChoice

variable {settings : Settings} {files : Files.Tree} {choice : ComponentChoice} {loaded : Catalog}
  {listed : List Component} {c : Component}

theorem choose_of_id {id : String} (h : choice.component = some id) (catalog : Catalog) :
    choice.choose catalog =
      match catalog.get? id with
      | some c => .ok c
      | none => .error (.notFound id) := by
  cases hget : catalog.get? id with
  | some c => simp only [choose, h, hget]
  | none => simp only [choose, h, hget]

/-- Without an id a component is chosen from a catalog that holds just this one. -/
theorem choose_eq_ok_of_none (h : choice.component = none) {catalog : Catalog} :
    choice.choose catalog = .ok c ↔ catalog.components = [c] := by
  rw [choose, h]
  simp only
  split <;> simp_all

/-- Where there is something to choose from, the choice is made in the catalog with what is listed.
-/
theorem resolve_of_offers (h : choice.Offers settings files loaded listed) :
    choice.resolve settings files =
      (choice.choose (loaded.insertAll listed)).mapError .choice := by
  have hcatalog : choice.catalog settings files = .ok (loaded.insertAll listed) :=
    catalog_eq_ok.mpr ⟨loaded, listed, h, rfl⟩
  rw [resolve, hcatalog]
  rfl

/-- Where there is nothing to choose from, the choice fails. -/
theorem exists_resolve_error (h : ¬ ∃ loaded listed, choice.Offers settings files loaded listed) :
    ∃ e, choice.resolve settings files = .error e := by
  cases hcatalog : choice.catalog settings files with
  | error e => exact ⟨.load e, by rw [resolve, hcatalog]; rfl⟩
  | ok catalog =>
    obtain ⟨loaded, listed, hoffers, -⟩ := catalog_eq_ok.mp hcatalog
    exact absurd ⟨loaded, listed, hoffers⟩ h

/-- The component of an id is the last one listed, or else the one of the directory. -/
theorem resolve_of_id (h : choice.Offers settings files loaded listed) {id : String}
    (hid : choice.component = some id) :
    choice.resolve settings files =
      match (listed.reverse.find? (·.id == id)).or (loaded.get? id) with
      | some c => .ok c
      | none => .error (.choice (.notFound id)) := by
  rw [resolve_of_offers h, choose_of_id hid, Catalog.get?_insertAll]
  cases (listed.reverse.find? (·.id == id)).or (loaded.get? id) <;> rfl

/-- Without an id a component is chosen exactly when one id occurs, and no other. -/
theorem exists_resolve_of_none (h : choice.Offers settings files loaded listed)
    (hnone : choice.component = none) :
    (∃ c, choice.resolve settings files = .ok c) ↔
      ∃! id, id ∈ (loaded.components ++ listed).map (·.id) := by
  simp only [resolve_of_offers h, mapError_eq_ok, choose_eq_ok_of_none hnone,
    Catalog.exists_components_eq_singleton, Catalog.mem_ids_insertAll]

/-- The component that is chosen without an id is the last one listed, or the only one of the
directory. -/
theorem last_of_resolve (h : choice.Offers settings files loaded listed)
    (hnone : choice.component = none) (hc : choice.resolve settings files = .ok c) :
    listed.getLast? = some c ∨ listed = [] ∧ loaded.components = [c] := by
  rw [resolve_of_offers h, mapError_eq_ok, choose_eq_ok_of_none hnone] at hc
  exact Catalog.last_of_insertAll_eq_singleton hc

end ComponentChoice

/-! ## Commands about a component -/

namespace Command

/-- Where the component of a command comes from. -/
def source? : Command → Option ComponentChoice
  | .skeleton choice | .encode choice _ => some choice.source
  | .signature source _ => some source
  | .format _ => none

/-- The command about a component that comes from elsewhere. -/
def withSource (source : ComponentChoice) : Command → Command
  | .skeleton choice => .skeleton { choice with source }
  | .encode choice input => .encode { choice with source } input
  | .signature _ query => .signature source query
  | .format input => .format input

/-- The text that a command reads. It is empty for a command that reads none. -/
def text (world : World) : Command → Except Files.FileError String
  | .encode _ input | .format input => world.readInput input
  | .skeleton _ | .signature _ _ => .ok ""

/-- What a command prints of a component, a text that was read, and options of the editor. -/
def linesOf (editor : Editor.Options) (text : Except Files.FileError String) (c : Component) :
    Command → Except CommandError (List String)
  | .skeleton choice => do
    let f ← (c.find choice.exportName choice.function).mapError .lookup
    return [f.startText]
  | .encode choice _ => do
    let f ← (c.find choice.exportName choice.function).mapError .lookup
    let text ← text.mapError .input
    let request ← ((Editor.Session.new f editor).edit text).prepare.1.mapError .session
    return [request.written.pretty]
  | .signature _ query => .ok ((c.listed query).map (·.signature))
  | .format _ => do return [Editor.tidy (← text.mapError .input)]

/-- What a command prints of a component. -/
def linesFrom (world : World) (settings : Settings) (command : Command) (c : Component) :
    Except CommandError (List String) :=
  command.linesOf settings.editor (command.text world) c

/-- The command uses the component: it prints what it prints of this one. -/
def Uses (world : World) (settings : Settings) (command : Command) (c : Component) : Prop :=
  Prints (execute world settings command) (command.linesFrom world settings c)

/-- The command fails without printing anything. -/
def Fails (world : World) (settings : Settings) (command : Command) : Prop :=
  ∃ e, Prints (execute world settings command) (.error e)

variable {world : World} {settings : Settings} {command : Command} {choice : ComponentChoice}
  {c : Component}

/-- A command about a component settles first which one it is. -/
theorem lines_of_source (hsource : command.source? = some choice) :
    command.lines world settings = choice.resolve settings world.files >>=
      command.linesFrom world settings := by
  cases command with
  | skeleton function | encode function input =>
    obtain rfl := Option.some.inj hsource
    rw [lines, FunctionChoice.resolve]
    cases function.source.resolve settings world.files <;> rfl
  | signature source query =>
    obtain rfl := Option.some.inj hsource
    rfl
  | format input => cases hsource

/-- A command uses the component that is chosen for it. -/
theorem uses_of_resolve (hsource : command.source? = some choice)
    (h : choice.resolve settings world.files = .ok c) : command.Uses world settings c := by
  have hprints := prints_execute world settings command
  rwa [lines_of_source hsource, h, Json.ok_bind] at hprints

/-- A command for which no component can be chosen prints nothing. -/
theorem fails_of_resolve (hsource : command.source? = some choice) {e : CommandError}
    (h : choice.resolve settings world.files = .error e) : command.Fails world settings := by
  have hprints := prints_execute world settings command
  rw [lines_of_source hsource, h] at hprints
  exact ⟨e, hprints⟩

theorem source?_withSource (hsource : command.source? = some choice) (source : ComponentChoice) :
    (command.withSource source).source? = some source := by
  cases command with
  | format input => cases hsource
  | _ => rfl

theorem text_withSource (source : ComponentChoice) :
    (command.withSource source).text world = command.text world := by
  cases command <;> rfl

/-- What is printed of a component does not depend on where it comes from. -/
theorem linesOf_withSource (source : ComponentChoice) (editor : Editor.Options)
    (text : Except Files.FileError String) :
    (command.withSource source).linesOf editor text c = command.linesOf editor text c := by
  cases command <;> rfl

/-- What a command prints depends on the component that it uses, and on no other. -/
theorem run_withSource (hsource : command.source? = some choice)
    (h : choice.resolve settings world.files = .ok c) {other : World} {otherSettings : Settings}
    {source : ComponentChoice} (hother : source.resolve otherSettings other.files = .ok c)
    (heditor : otherSettings.editor = settings.editor)
    (htext : command.text other = command.text world) (before : String) :
    (execute other otherSettings (command.withSource source)).run.run before =
      (execute world settings command).run.run before := by
  have hlines : (command.withSource source).linesFrom other otherSettings c =
      command.linesFrom world settings c := by
    rw [linesFrom, linesFrom, text_withSource, linesOf_withSource, heditor, htext]
  have hother := uses_of_resolve (source?_withSource hsource source) hother before
  rw [hother, uses_of_resolve hsource h before, hlines]

end Command

/-- **Which component a command uses.** There is nothing to choose from when the directory or the
file cannot be loaded. With an id it is the last component that the file lists for it, or else the
one of the directory. Without an id there must be exactly one id in both, and it is the last
component of the file, or the one of the directory when the file lists none. When none is chosen
the command fails; otherwise what it prints is decided by the component that is chosen, with the
options of the editor and the text that is read. -/
theorem command_uses (world : World) (settings : Settings) (choice : ComponentChoice) :
    ((¬ ∃ loaded listed, choice.Offers settings world.files loaded listed) ↔
      (∃ dir, settings.metadataDir = some dir ∧
        ∃ e after, Catalog.empty.loadDirectory world.files dir = (.error e, after)) ∨
      ∃ path, choice.metadata = some path ∧
        ∀ catalog, ∃ e, Catalog.loadFile world.files catalog path = (.error e, catalog)) ∧
    ((¬ ∃ loaded listed, choice.Offers settings world.files loaded listed) →
      ∃ e, choice.resolve settings world.files = .error e) ∧
    (∀ loaded listed, choice.Offers settings world.files loaded listed →
      (∀ id, choice.component = some id → choice.resolve settings world.files =
        match (listed.reverse.find? (·.id == id)).or (loaded.get? id) with
        | some c => .ok c
        | none => .error (.choice (.notFound id))) ∧
      (choice.component = none →
        ((∃ c, choice.resolve settings world.files = .ok c) ↔
          ∃! id, id ∈ (loaded.components ++ listed).map (·.id)) ∧
        ∀ c, choice.resolve settings world.files = .ok c →
          listed.getLast? = some c ∨ listed = [] ∧ loaded.components = [c])) ∧
    ∀ command : Command, command.source? = some choice →
      (∀ e, choice.resolve settings world.files = .error e → command.Fails world settings) ∧
      ∀ c, choice.resolve settings world.files = .ok c → command.Uses world settings c ∧
        ∀ (other : World) (otherSettings : Settings) (source : ComponentChoice),
          source.resolve otherSettings other.files = .ok c →
          otherSettings.editor = settings.editor → command.text other = command.text world →
          ∀ before, (execute other otherSettings (command.withSource source)).run.run before =
            (execute world settings command).run.run before := by
  refine ⟨?_, ComponentChoice.exists_resolve_error, ?_, ?_⟩
  · rw [ComponentChoice.not_exists_offers, Settings.not_exists_provides,
      ComponentChoice.not_exists_lists]
  · intro loaded listed hoffers
    refine ⟨fun id hid => ComponentChoice.resolve_of_id hoffers hid, fun hnone => ⟨?_, ?_⟩⟩
    · exact ComponentChoice.exists_resolve_of_none hoffers hnone
    · intro c hc
      exact ComponentChoice.last_of_resolve hoffers hnone hc
  · intro command hsource
    refine ⟨fun e he => Command.fails_of_resolve hsource he, fun c hc => ⟨?_, ?_⟩⟩
    · exact Command.uses_of_resolve hsource hc
    · intro other otherSettings source hother heditor htext before
      exact Command.run_withSource hsource hc hother heditor htext before

/-- The file lists the id of the directory twice, so there is one id, and the last component of the
file is used. -/
theorem command_uses_last :
    let own : Component := ⟨"x", some "own", none, []⟩
    let first : Component := ⟨"x", some "first", none, []⟩
    let last : Component := ⟨"x", some "last", none, []⟩
    let files : Files.Tree := .alone (.directory
      [("d", .directory [("a.json", .file (some "[[\"x\",\"own\"]]"))]),
        ("f.json", .file (some "[[\"x\",\"first\"],[\"x\",\"last\"]]"))])
    let settings : Settings := { metadataDir := some "d" }
    let choice : ComponentChoice := ⟨some "f.json", none⟩
    choice.Offers settings files (Catalog.empty.insert own).2 [first, last] ∧
      choice.resolve settings files = .ok last ∧
      (Command.signature choice none).Uses ⟨⟨files, []⟩, none⟩ settings last := by
  intro own first last files settings choice
  have hprovides :
      Catalog.empty.loadDirectory files "d" = (.ok 1, (Catalog.empty.insert own).2) := by
    simp only [files, own]
    rfl
  have hlists : Catalog.HoldsFile files "f.json" [first, last] :=
    Catalog.parseFile_eq_ok.mp (by simp only [files]; rfl)
  have hoffers : choice.Offers settings files (Catalog.empty.insert own).2 [first, last] :=
    ⟨⟨1, hprovides⟩, hlists⟩
  obtain ⟨-, -, hchosen, hcommand⟩ := command_uses ⟨⟨files, []⟩, none⟩ settings choice
  obtain ⟨hproceeds, hlast⟩ := (hchosen _ _ hoffers).2 rfl
  obtain ⟨c, hc⟩ := hproceeds.mpr ⟨"x", by decide, by decide⟩
  have hlist : [first, last].getLast? = some c := by
    rcases hlast c hc with h | ⟨h, -⟩
    · exact h
    · cases h
  obtain rfl : last = c := Option.some.inj hlist
  exact ⟨hoffers, hc, ((hcommand (.signature choice none) rfl).2 last hc).1⟩

end TypedCall
