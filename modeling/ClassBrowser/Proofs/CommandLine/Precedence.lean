import ClassBrowser.CommandLine.Commands
import ClassBrowser.Proofs.Assoc
import ClassBrowser.Proofs.Except
import ClassBrowser.Proofs.Session.Engines

/-!
# What the decompiler is told

Where its jar and java lie and which options it gets may be said by the command line, by the
environment and by a settings file.  They do not rank the same way everywhere: the environment comes
before the file for the jar (`NamesJar`), and behind it for java (`NamesJava`); options are merged
key by key (`Merges`).  The command that a session runs is what they come to (`command_of_run`).
-/

namespace ClassBrowser.CommandLine

open Text (Loose)

/-- The settings file that counts, with its fields: that of the command line, or else of a variable
that is not empty. -/
inductive ReadsFile (files : Files) (env : Environment) (config : Option (Given Path)) :
    Option (Path × Json.Fields) → Prop
  | nothing (hflag : config = none)
      (hvariable : Settings.given? env "DECOMP_VIEWER_CONFIG" = none) :
      ReadsFile files env config none
  | flag {p file : Path} {fields : Json.Fields} (hflag : config = some (.value p))
      (hexpand : p.expandUser env = .ok file)
      (hread : Settings.readFile files file = .ok (.object fields)) :
      ReadsFile files env config (some (file, fields))
  | variable {value : String} {file : Path} {fields : Json.Fields} (hflag : config = none)
      (hvariable : Settings.given? env "DECOMP_VIEWER_CONFIG" = some value)
      (hexpand : (Path.ofString value).expandUser env = .ok file)
      (hread : Settings.readFile files file = .ok (.object fields)) :
      ReadsFile files env config (some (file, fields))

/-- Where a settings file says that something lies, if it does. -/
inductive FileNames (env : Environment) (key : String) :
    Option (Path × Json.Fields) → Option Path → Prop
  | noFile : FileNames env key none none
  | noField {file : Path} {fields : Json.Fields} (hfield : Settings.field? fields key = none) :
      FileNames env key (some (file, fields)) none
  | field {file below p : Path} {fields : Json.Fields} {value : List Text.Glyph}
      (hfield : Settings.field? fields key = some (.text value))
      (hexpand : (Path.ofLoose (.ofGlyphs value)).expandUser env = .ok below)
      (hresolve : (file.parent.append below).resolve Files.cwd = .ok p) :
      FileNames env key (some (file, fields)) (some p)

/-- Where the jar is said to lie: by the command line, or else by a variable that is not empty, or
else by the file. -/
inductive NamesJar (c : EngineChoice) (env : Environment) (file : Option (Path × Json.Fields)) :
    Option (Given Path) → Prop
  | flag {given : Given Path} (hflag : c.jar = some given) : NamesJar c env file (some given)
  | variable {value : String} {p : Path} (hflag : c.jar = none)
      (hvariable : Settings.given? env "DECOMP_VIEWER_ENGINE_JAR" = some value)
      (hexpand : (Path.ofString value).expandUser env = .ok p) :
      NamesJar c env file (some (.value p))
  | file {named : Option Path} (hflag : c.jar = none)
      (hvariable : Settings.given? env "DECOMP_VIEWER_ENGINE_JAR" = none)
      (hfile : FileNames env "engine_jar" file named) : NamesJar c env file (named.map .value)

/-- The java program of a home directory. -/
def javaOf (home : String) : Path := ((Path.ofString home).child "bin").child "java"

/-- Where java is said to lie: by the command line, or else by the file, or else by a variable that
is not empty, provided that there is a file. -/
inductive NamesJava (c : EngineChoice) (w : World) (file : Option (Path × Json.Fields)) :
    Option (Given Path) → Prop
  | flag {given : Given Path} (hflag : c.java = some given) : NamesJava c w file (some given)
  | file {p : Path} (hflag : c.java = none) (hfile : FileNames w.env "java" file (some p)) :
      NamesJava c w file (some (.value p))
  | variable {home : String} (hflag : c.java = none) (hfile : FileNames w.env "java" file none)
      (hvariable : Settings.given? w.env "JAVA_HOME" = some home)
      (hfound : w.files.isFile (javaOf home) = .ok true) :
      NamesJava c w file (some (.value (javaOf home)))
  | nowhere (hflag : c.java = none) (hfile : FileNames w.env "java" file none)
      (hvariable : ∀ home, Settings.given? w.env "JAVA_HOME" = some home →
        w.files.isFile (javaOf home) = .ok false) : NamesJava c w file none

/-- The options of a settings file, in their order. -/
def fileOptions : Option (Path × Json.Fields) → List (Loose × Loose)
  | none => []
  | some (_, fields) => match Settings.field? fields "engine_options" with
    | some (.object options) => options.map fun (key, value) => (Loose.ofGlyphs key, value.toLoose)
    | _ => []

/-- Whether an argument of the command line gives an option. -/
def Gives (given : Given String) (option : Loose × Loose) : Prop :=
  ∃ value key text, given = .value value ∧ Settings.parseOption value = .ok (key, text) ∧
    option = (Loose.whole key, Loose.whole text)

/-- Whether options are those of the defaults, the file and the command line: there is one of each
key, in the order in which the keys appear first, and its value is that of the last layer that has
the key, and the last one in it. -/
structure Merges (inFile onLine : List (Loose × Loose)) (options : Assoc Loose Loose) : Prop where
  nodup : options.keys.Nodup
  keys : options.keys =
    (Settings.defaultOptions.keys ++ inFile.map Prod.fst ++ onLine.map Prod.fst).eraseDups
  value : ∀ key, options.get? key =
    ((Assoc.last? onLine key).or (Assoc.last? inFile key)).or (Settings.defaultOptions.get? key)

/-- The argument that hands on an option. -/
def argument (option : Loose × Loose) : Loose := "-" ++ option.1 ++ "=" ++ option.2

/-- The file that is used where one is named, or else what a search finds. -/
inductive Finds (files : Files) (env : Environment) (search : Except EngineError Path) :
    Option (Given Path) → Path → Prop
  | named {p expanded found : Path} (hexpand : p.expandUser env = .ok expanded)
      (hresolve : expanded.resolve Files.cwd = .ok found)
      (hfile : files.isFile found = .ok true) : Finds files env search (some (.value p)) found
  | searched {found : Path} (hsearch : search = .ok found) : Finds files env search none found

/-- Whether a jar, java and options are those that the command line, the environment and a settings
file come to, `files` being what is there when the decompiler is run. -/
def AreTold (c : EngineChoice) (w : World) (files : Files) (jar java : Path)
    (options : Assoc Loose Loose) : Prop :=
  ∃ file jarNamed javaNamed onLine,
    ReadsFile w.files w.env c.config file ∧
    NamesJar c w.env file jarNamed ∧
    Finds files w.env (Engine.findJar files Engine.jarNames) jarNamed jar ∧
    NamesJava c w file javaNamed ∧
    Finds files w.env (Engine.resolveJava files w.env none) javaNamed java ∧
    List.Forall₂ Gives c.options onLine ∧
    Merges (fileOptions file) onLine options

/-! ## The settings -/

variable {c : EngineChoice} {w : World} {files : Files} {env : Environment}
  {s s' settings : Settings} {file : Option (Path × Json.Fields)}

/-- Whether settings are those of a file, if there is one, before the environment is asked. -/
structure ComesFrom (s : Settings) (env : Environment) (file : Option (Path × Json.Fields)) :
    Prop where
  jar : ∃ named, FileNames env "engine_jar" file named ∧ s.engineJar = named.map .value
  java : ∃ named, FileNames env "java" file named ∧ s.java = named.map .value
  options : s.engineOptions = Settings.defaultOptions.insertAll (fileOptions file)

theorem comesFrom_default (env : Environment) : ComesFrom .default env none :=
  ⟨⟨none, .noFile, rfl⟩, ⟨none, .noFile, rfl⟩, rfl⟩

theorem fileNames_of_pathField {p : Path} {fields : Json.Fields} {key : String}
    {named : Option Path} (h : Settings.pathField env p fields key = .ok named) :
    FileNames env key (some (p, fields)) named := by
  unfold Settings.pathField at h
  split at h
  · next hfield =>
    cases h
    exact .noField hfield
  · next value hfield =>
    obtain ⟨below, hexpand, h⟩ := bind_eq_ok_iff.1 h
    obtain ⟨resolved, hresolve, h⟩ := bind_eq_ok_iff.1 h
    cases h
    exact .field hfield (mapError_eq_ok_iff.1 hexpand) (mapError_eq_ok_iff.1 hresolve)
  · cases h

theorem options_of_optionsField {p : Path} {fields : Json.Fields} {options : Assoc Loose Loose}
    (h : Settings.optionsField p fields = .ok options) :
    options = Settings.defaultOptions.insertAll (fileOptions (some (p, fields))) := by
  unfold Settings.optionsField at h
  rw [fileOptions]
  split at h
  · next hfield =>
    cases h
    rw [hfield]
    rfl
  · next hfield =>
    cases h
    rw [hfield]
  · cases h

theorem comesFrom_of_ofFile {p : Path} (h : Settings.ofFile files env p = .ok s) :
    ∃ fields, Settings.readFile files p = .ok (.object fields) ∧
      ComesFrom s env (some (p, fields)) := by
  obtain ⟨value, hread, h⟩ := bind_eq_ok_iff.1 h
  split at h
  · next fields =>
    obtain ⟨jar, hjar, h⟩ := bind_eq_ok_iff.1 h
    obtain ⟨java, hjava, h⟩ := bind_eq_ok_iff.1 h
    obtain ⟨options, hoptions, h⟩ := bind_eq_ok_iff.1 h
    obtain ⟨extension, -, h⟩ := bind_eq_ok_iff.1 h
    obtain ⟨delimiter, -, h⟩ := bind_eq_ok_iff.1 h
    obtain ⟨interval, -, h⟩ := bind_eq_ok_iff.1 h
    cases h
    exact ⟨fields, hread, ⟨jar, fileNames_of_pathField hjar, rfl⟩,
      ⟨java, fileNames_of_pathField hjava, rfl⟩, options_of_optionsField hoptions⟩
  · cases h

theorem exists_of_load {config : Option Path} (h : Settings.load files env config = .ok s) :
    ∃ file base, ReadsFile files env (config.map .value) file ∧ ComesFrom base env file ∧
      base.withEnvironment files env = .ok s := by
  unfold Settings.load at h
  cases config with
  | none =>
    cases hvariable : Settings.given? env "DECOMP_VIEWER_CONFIG" with
    | none =>
      rw [hvariable] at h
      exact ⟨none, .default, .nothing rfl hvariable, comesFrom_default env, h⟩
    | some value =>
      rw [hvariable] at h
      obtain ⟨p, hexpand, h⟩ := bind_eq_ok_iff.1 h
      obtain ⟨base, hfile, h⟩ := bind_eq_ok_iff.1 h
      obtain ⟨fields, hread, hfrom⟩ := comesFrom_of_ofFile hfile
      exact ⟨_, base, .variable rfl hvariable (mapError_eq_ok_iff.1 hexpand) hread, hfrom, h⟩
  | some given =>
    obtain ⟨p, hexpand, h⟩ := bind_eq_ok_iff.1 h
    obtain ⟨base, hfile, h⟩ := bind_eq_ok_iff.1 h
    obtain ⟨fields, hread, hfrom⟩ := comesFrom_of_ofFile hfile
    exact ⟨_, base, .flag rfl (mapError_eq_ok_iff.1 hexpand) hread, hfrom, h⟩

/-! ## The environment -/

/-- Where the jar lies when the environment was asked. -/
def jarWith (env : Environment) (s : Settings) : Except SettingsError (Option (Given Path)) :=
  match Settings.given? env "DECOMP_VIEWER_ENGINE_JAR" with
  | none => .ok s.engineJar
  | some value => do
    let jar ← ((Path.ofString value).expandUser env).mapError .path
    return some (.value jar)

/-- Where java lies when the environment was asked. -/
def javaWith (files : Files) (env : Environment) (s : Settings) :
    Except SettingsError (Option (Given Path)) :=
  match s.java, Settings.given? env "JAVA_HOME" with
  | none, some home => do
    let found ← (files.isFile (javaOf home)).mapError .file
    return if found then some (.value (javaOf home)) else none
  | java, _ => .ok java

theorem withEnvironment_eq (files : Files) (env : Environment) (s : Settings) :
    s.withEnvironment files env = do
      let engineJar ← jarWith env s
      let java ← javaWith files env s
      return { s with engineJar, java } := by
  have hjava (jar : Option (Given Path)) : (match s.java, Settings.given? env "JAVA_HOME" with
      | none, some home => do
        let found ← (files.isFile (javaOf home)).mapError .file
        let java ← pure (if found then some (.value (javaOf home)) else none)
        return { s with engineJar := jar, java }
      | java, _ => do
        let java ← pure java
        return { s with engineJar := jar, java } : Except SettingsError Settings) = do
      let java ← javaWith files env s
      return { s with engineJar := jar, java } := by
    unfold javaWith
    split
    · cases (files.isFile (javaOf _)).mapError SettingsError.file <;> rfl
    · rfl
  unfold Settings.withEnvironment jarWith
  cases Settings.given? env "DECOMP_VIEWER_ENGINE_JAR" with
  | none => exact hjava s.engineJar
  | some value =>
    dsimp only
    cases ((Path.ofString value).expandUser env).mapError SettingsError.path with
    | error e => rfl
    | ok jar => exact hjava (some (.value jar))

theorem namesJar_of_withEnvironment (h : s.withEnvironment files env = .ok s')
    (hfrom : ComesFrom s env file) (hflag : c.jar = none) : NamesJar c env file s'.engineJar := by
  obtain ⟨named, hnamed, hjar⟩ := hfrom.jar
  rw [withEnvironment_eq] at h
  obtain ⟨jar, hchosen, h⟩ := bind_eq_ok_iff.1 h
  obtain ⟨java, -, h⟩ := bind_eq_ok_iff.1 h
  cases h
  show NamesJar c env file jar
  unfold jarWith at hchosen
  split at hchosen
  · next hvariable =>
    cases hchosen
    rw [hjar]
    exact .file hflag hvariable hnamed
  · next value hvariable =>
    obtain ⟨p, hexpand, hchosen⟩ := bind_eq_ok_iff.1 hchosen
    cases hchosen
    exact .variable hflag hvariable (mapError_eq_ok_iff.1 hexpand)

theorem namesJava_of_withEnvironment (h : s.withEnvironment w.files w.env = .ok s')
    (hfrom : ComesFrom s w.env file) (hflag : c.java = none) : NamesJava c w file s'.java := by
  obtain ⟨named, hnamed, hjava⟩ := hfrom.java
  rw [withEnvironment_eq] at h
  obtain ⟨jar, -, h⟩ := bind_eq_ok_iff.1 h
  obtain ⟨java, hchosen, h⟩ := bind_eq_ok_iff.1 h
  cases h
  show NamesJava c w file java
  rw [javaWith, hjava] at hchosen
  cases named with
  | some p =>
    cases hchosen
    exact .file hflag hnamed
  | none =>
    cases hvariable : Settings.given? w.env "JAVA_HOME" with
    | none =>
      rw [hvariable] at hchosen
      cases hchosen
      exact .nowhere hflag hnamed fun home hhome => nomatch hvariable.symm.trans hhome
    | some home =>
      rw [hvariable] at hchosen
      obtain ⟨found, hfound, hchosen⟩ := bind_eq_ok_iff.1 hchosen
      have hfound := mapError_eq_ok_iff.1 hfound
      cases hchosen
      cases found with
      | true => exact .variable hflag hnamed hvariable hfound
      | false =>
        refine .nowhere hflag hnamed fun other hother => ?_
        obtain rfl := Option.some.inj (hvariable.symm.trans hother)
        exact hfound

theorem engineOptions_withEnvironment (h : s.withEnvironment files env = .ok s') :
    s'.engineOptions = s.engineOptions := by
  rw [withEnvironment_eq] at h
  obtain ⟨jar, -, h⟩ := bind_eq_ok_iff.1 h
  obtain ⟨java, -, h⟩ := bind_eq_ok_iff.1 h
  cases h
  rfl

/-! ## The options of the command line -/

theorem exists_of_addOption {options options' : Assoc String String} {value : String}
    (h : Settings.addOption options value = .ok options') :
    ∃ pair, Settings.parseOption value = .ok pair ∧ options' = options.insert pair.1 pair.2 := by
  obtain ⟨pair, hparse, h⟩ := bind_eq_ok_iff.1 h
  cases h
  exact ⟨pair, hparse, rfl⟩

theorem exists_of_foldlM {given : List (Given String)} {options options' : Assoc String String}
    (h : given.foldlM (fun options given => do
        Settings.addOption options
          (← (given.get (.ability "partition")).mapError SettingsError.lack)) options =
      .ok options') :
    ∃ pairs : List (String × String),
      List.Forall₂ (fun given pair => ∃ value, given = .value value ∧
        Settings.parseOption value = .ok pair) given pairs ∧
      options' = options.insertAll pairs := by
  induction given generalizing options with
  | nil =>
    cases h
    exact ⟨[], .nil, rfl⟩
  | cons first rest ih =>
    rw [List.foldlM_cons] at h
    obtain ⟨added, hadd, hrest⟩ := bind_eq_ok_iff.1 h
    obtain ⟨value, hvalue, hadd⟩ := bind_eq_ok_iff.1 hadd
    obtain ⟨pair, hparse, rfl⟩ := exists_of_addOption hadd
    obtain ⟨pairs, hpairs, rfl⟩ := ih hrest
    have hfirst : first = .value value := by
      cases first with
      | value a =>
        cases hvalue
        rfl
      | nothing => cases hvalue
    exact ⟨pair :: pairs, .cons ⟨value, hfirst, hparse⟩ hpairs, rfl⟩

theorem eq_map_of_mapM {config : Option (Given Path)} {config' : Option Path}
    (h : config.mapM (fun given =>
      (given.get (.ability "expanduser")).mapError SettingsError.lack) = .ok config') :
    config = config'.map .value := by
  rcases config with _ | given | _
  · cases h
    rfl
  · cases h
    rfl
  · cases h

/-- What comes of the options when they are put on top of each other. -/
theorem merges_insertAll (inFile onLine : List (Loose × Loose)) :
    Merges inFile onLine (Settings.defaultOptions.insertAll (inFile ++ onLine)) := by
  have hdefault : Settings.defaultOptions.keys.Nodup := by decide
  refine ⟨Assoc.nodup_keys_insertAll hdefault _, ?_, ?_⟩
  · rw [Assoc.keys_insertAll hdefault, List.map_append, List.append_assoc]
  · intro key
    rw [Assoc.get?_insertAll_eq_or, Assoc.last?_append]

/-- The settings of a command line. -/
theorem exists_of_settings (h : c.settings w = .ok settings) :
    ∃ file onLine, ReadsFile w.files w.env c.config file ∧
      NamesJar c w.env file settings.engineJar ∧ NamesJava c w file settings.java ∧
      List.Forall₂ Gives c.options onLine ∧
      Merges (fileOptions file) onLine settings.engineOptions := by
  unfold EngineChoice.settings at h
  obtain ⟨config, hconfig, h⟩ := bind_eq_ok_iff.1 h
  obtain ⟨s, hload, h⟩ := bind_eq_ok_iff.1 h
  obtain ⟨overrides, hgiven, h⟩ := bind_eq_ok_iff.1 h
  cases h
  obtain ⟨file, base, hread, hfrom, henvironment⟩ := exists_of_load hload
  obtain ⟨pairs, hpairs, rfl⟩ := exists_of_foldlM hgiven
  rw [← eq_map_of_mapM hconfig] at hread
  refine ⟨file, pairs.map (Prod.map .whole .whole), hread, ?_, ?_, ?_, ?_⟩
  · cases hflag : c.jar with
    | some given => exact .flag hflag
    | none =>
      have hnames := namesJar_of_withEnvironment henvironment hfrom hflag
      exact hnames
  · cases hflag : c.java with
    | some given => exact .flag hflag
    | none =>
      have hnames := namesJava_of_withEnvironment henvironment hfrom hflag
      exact hnames
  · rw [List.forall₂_map_right_iff]
    exact hpairs.imp fun given pair ⟨value, hvalue, hparse⟩ =>
      ⟨value, pair.1, pair.2, hvalue, hparse, rfl⟩
  · have hinjective : Function.Injective Loose.whole := fun a b hab => Loose.whole.inj hab
    have hoverrides : (Assoc.insertAll [] pairs).map (Prod.map Loose.whole Loose.whole) =
        Assoc.insertAll [] (pairs.map (Prod.map Loose.whole Loose.whole)) :=
      Assoc.map_insertAll hinjective Loose.whole [] pairs
    show Merges _ _ (s.engineOptions.insertAll
      ((Assoc.insertAll [] pairs).map (Prod.map Loose.whole Loose.whole)))
    rw [hoverrides, Assoc.insertAll_insertAll, engineOptions_withEnvironment henvironment,
      hfrom.options, ← Assoc.insertAll_append]
    exact merges_insertAll _ _

/-! ## The command -/

theorem finds_of_resolveFile {given : Given Path} {missing : Path → EngineError} {p : Path}
    {search : Except EngineError Path} (h : Engine.resolveFile files env given missing = .ok p) :
    Finds files env search (some given) p := by
  obtain ⟨named, hgiven, h⟩ := bind_eq_ok_iff.1 h
  obtain ⟨expanded, hexpand, h⟩ := bind_eq_ok_iff.1 h
  obtain ⟨resolved, hresolve, h⟩ := bind_eq_ok_iff.1 h
  obtain ⟨found, hfound, h⟩ := bind_eq_ok_iff.1 h
  cases given with
  | nothing => cases hgiven
  | value a =>
    cases hgiven
    cases found with
    | false => cases h
    | true =>
      cases h
      exact .named (mapError_eq_ok_iff.1 hexpand) (mapError_eq_ok_iff.1 hresolve)
        (mapError_eq_ok_iff.1 hfound)

theorem finds_of_resolveJar {named : Option (Given Path)} {jar : Path}
    (h : Engine.resolveJar files env named = .ok jar) :
    Finds files env (Engine.findJar files Engine.jarNames) named jar := by
  cases named with
  | none => exact .searched h
  | some given => exact finds_of_resolveFile h

theorem finds_of_resolveJava {named : Option (Given Path)} {java : Path}
    (h : Engine.resolveJava files env named = .ok java) :
    Finds files env (Engine.resolveJava files env none) named java := by
  cases named with
  | none => exact .searched h
  | some given => exact finds_of_resolveFile h

/-- The session of settings when something has happened to it. -/
def sessionAfter (settings : Settings) (w : World) (events : List Session.Event) : Session :=
  ((Session.new settings (some (.decompiler settings)) w).run events).1

/-- Whatever has happened to a session, the command that its engine runs is what the command line,
the environment and the settings file come to, one argument for each option, with the sources that
the engine was given and the directory for what is made behind them. -/
theorem command_of_run (hsettings : c.settings w = .ok settings) {events : List Session.Event}
    (hsupply : ∀ f, .supply f ∉ events) {e : Engine}
    (he : e ∈ (sessionAfter settings w events).pipeline.engines) :
    ∃ d, e.machine = .decompiler d ∧ ∀ files output command,
      d.command { (sessionAfter settings w events).world with files } output = .ok command →
        ∃ jar java options, AreTold c w files jar java options ∧
          command = [java.toLoose, "-jar", jar.toLoose] ++
            options.map argument ++ d.sources.map Path.toLoose ++ [output.toLoose] := by
  have hof : (sessionAfter settings w events).pipeline.IsOf settings w.env :=
    Session.isOf_run (Session.isOf_new settings w) hsupply
  obtain ⟨sources, running, locations, hmachine⟩ := hof.engines he
  refine ⟨_, hmachine, fun files output command hcommand => ?_⟩
  obtain ⟨java, hjava, hcommand⟩ := bind_eq_ok_iff.1 hcommand
  obtain ⟨jar, hjar, hcommand⟩ := bind_eq_ok_iff.1 hcommand
  cases hcommand
  obtain ⟨file, onLine, hread, hnamesJar, hnamesJava, hgives, hmerges⟩ :=
    exists_of_settings hsettings
  have henv : (sessionAfter settings w events).world.env = w.env := hof.workspace.env
  refine ⟨jar, java, settings.engineOptions, ?_, rfl⟩
  refine ⟨file, _, _, onLine, hread, hnamesJar, ?_, hnamesJava, ?_, hgives, hmerges⟩
  · rw [← henv]
    exact finds_of_resolveJar hjar
  · rw [← henv]
    exact finds_of_resolveJava hjava

namespace Sample

def settingsPath : Path := ⟨.relative, ["c.json"]⟩

def layersText : String :=
  "\x7b\"engine_jar\": \"e.jar\", \"engine_options\": \x7b\"din\": 0, \"new\": true\x7d\x7d"

/-- Surroundings with a settings file, an archive, a jar, and java in a home directory. -/
def layered : World :=
  .start ⟨[([], .directory), (["W"], .directory),
    (["W", "c.json"], .file (.bytes layersText.toUTF8) false),
    (["W", "e.jar"], .file (.bytes .empty) false), (["W", "a.jar"], .file (.zip []) false),
    (["jdk"], .directory), (["jdk", "bin"], .directory), (["jdk", "bin", "java"], .program [] 0)],
    .roomy⟩
    { values := [("JAVA_HOME", "/jdk")] }

/-- A command line with options, one of which is given twice. -/
def asking : EngineChoice :=
  ⟨some (.value settingsPath), none, none, [.value "new=x", .value "--ind=y", .value "new=z"]⟩

/-- An archive is opened, and its engine takes it. -/
def opening : List Session.Event := [.start .decompileArchive ⟨.relative, ["a.jar"]⟩ 0, .work]

/-- The session of settings when its engine has the archive. -/
def opened (settings : Settings) : Session := sessionAfter settings layered opening

/-- The command for an engine of a session. -/
def commandOf (s : Session) (e : Engine) : Option (List Loose) :=
  match e.machine with
  | .decompiler d => (d.command s.world Decompiler.outputDirectory).toOption
  | .script _ => none

def layeredCommand : List Loose :=
  ["/jdk/bin/java", "-jar", "/W/e.jar", "-ind=y", "-din=0", "-dgs=1", "-hes=1", "-hdc=1", "-new=z",
    "/W/a.jar", "/OUT"]

end Sample

theorem command_of_run_sample :
    ∃ settings e d jar java options, Sample.asking.settings Sample.layered = .ok settings ∧
      (∀ f, .supply f ∉ Sample.opening) ∧ e ∈ (Sample.opened settings).pipeline.engines ∧
      e.machine = .decompiler d ∧
      AreTold Sample.asking Sample.layered (Sample.opened settings).world.files jar java options ∧
      Sample.layeredCommand = [java.toLoose, "-jar", jar.toLoose] ++ options.map argument ++
        d.sources.map Path.toLoose ++ [Decompiler.outputDirectory.toLoose] := by
  have hcommands : (Sample.asking.settings Sample.layered).toOption.map (fun settings =>
      (Sample.opened settings).pipeline.engines.map (Sample.commandOf (Sample.opened settings))) =
        some [some Sample.layeredCommand] := by
    decide +kernel
  have hsupply : ∀ f, .supply f ∉ Sample.opening := by
    intro f hf
    rcases List.mem_cons.1 hf with hstart | hwork
    · cases hstart
    · exact nomatch List.mem_singleton.1 hwork
  cases hsettings : Sample.asking.settings Sample.layered with
  | error error =>
    rw [hsettings] at hcommands
    cases hcommands
  | ok settings =>
    rw [hsettings] at hcommands
    obtain ⟨e, rest, hengines, hcommand, -⟩ := List.map_eq_cons_iff.1 (Option.some.inj hcommands)
    have he : e ∈ (Sample.opened settings).pipeline.engines := by
      rw [hengines]
      exact List.mem_cons_self
    obtain ⟨d, hd, htold⟩ := command_of_run hsettings hsupply he
    rw [Sample.commandOf, hd] at hcommand
    obtain ⟨jar, java, options, hare, hlist⟩ :=
      htold (Sample.opened settings).world.files Decompiler.outputDirectory Sample.layeredCommand
        (eq_ok_of_toOption hcommand)
    exact ⟨settings, e, d, jar, java, options, rfl, hsupply, he, hd, hare, hlist⟩

end ClassBrowser.CommandLine
