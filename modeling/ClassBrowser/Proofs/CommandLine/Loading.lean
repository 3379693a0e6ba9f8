import ClassBrowser.Proofs.CommandLine.Precedence
import ClassBrowser.Proofs.Text.Glyphs

/-!
# Settings that cannot be loaded

Loading yields settings that can be used, or an error.  Most errors are reported as faults of the
settings, and then every command prints the complaint and ends with exit code 2.  Others are passed
on as they are, and which ones is known exactly (`Settings.Escapes`): the file cannot be read or
decoded, it goes beyond a limit of the reader, or a path that is given somewhere leads nowhere.
Either way a command does nothing else (`load_reports_unless_escapes`).
-/

namespace ClassBrowser

open Text (Glyph Loose)

namespace Settings

variable {α β ε : Type} {fs : Files} {env : Environment} {config : Option Path} {p : Path}
  {fields : Json.Fields} {key : String} {s s' : Settings}

/-! ## Errors that are not reported -/

/-- Whether a computation fails with an error that is not reported as a fault of the settings. -/
def Slips (x : Except SettingsError α) : Prop := ∃ e, x = .error e ∧ e.isReported = false

theorem not_slips_ok (a : α) : ¬ Slips (.ok a) := nofun

theorem slips_error_iff {e : SettingsError} :
    Slips (.error e : Except SettingsError α) ↔ e.isReported = false := by
  simp [Slips]

theorem slips_bind_iff {x : Except SettingsError α} {f : α → Except SettingsError β} :
    Slips (x >>= f) ↔ Slips x ∨ ∃ a, x = .ok a ∧ Slips (f a) := by
  cases x with
  | error e =>
    show Slips (.error e) ↔ _
    rw [slips_error_iff, slips_error_iff]
    simp
  | ok a =>
    show Slips (f a) ↔ _
    simp [not_slips_ok]

theorem slips_mapError_iff {f : ε → SettingsError} (hf : ∀ e, (f e).isReported = false)
    {x : Except ε α} : Slips (x.mapError f) ↔ ∃ e, x = .error e := by
  cases x with
  | error e => exact iff_of_true ⟨f e, rfl, hf e⟩ ⟨e, rfl⟩
  | ok a => exact iff_of_false (not_slips_ok a) nofun

/-! ## The file -/

/-- The settings file that is asked for: the one that is given, or else that of a variable that is
not empty. -/
def asked (env : Environment) (config : Option Path) : Option Path :=
  config.orElse fun _ => (given? env "DECOMP_VIEWER_CONFIG").map Path.ofString

/-- The settings of the file that is asked for, or the defaults where none is. -/
def beforeEnvironment (fs : Files) (env : Environment) (config : Option Path) :
    Except SettingsError Settings :=
  match asked env config with
  | none => .ok default
  | some p => do ofFile fs env (← (p.expandUser env).mapError .path)

/-- Whether a settings file yields no text, or one that goes beyond a limit of the reader; a file
that is not there and a text that is not JSON do not count. -/
inductive Unread (fs : Files) (p : Path) : Prop
  | refused {e : FileError} (hread : fs.read p = .error e)
      (hthere : ∀ q, e ≠ .refused .notFound q) : Unread fs p
  | undecodable {bytes : ByteArray} {fault : Text.Utf8.Fault} (hread : fs.read p = .ok bytes)
      (hdecode : Text.Utf8.decode bytes = .error fault) : Unread fs p
  | beyondReader {bytes : ByteArray} {text : String} {e : Json.ParseError}
      (hread : fs.read p = .ok bytes) (hdecode : Text.Utf8.decode bytes = .ok text)
      (hparse : Json.parse (Text.unifyNewlineChars text.toList) = .error e)
      (hlimit : ∀ problem position, e ≠ .malformed problem position) : Unread fs p

/-- Whether a field of the file `p` is a text that is taken for a path and leads nowhere: it begins
in a home directory that is not known, or it is no name. -/
inductive Misleads (env : Environment) (p : Path) (fields : Json.Fields) (key : String) : Prop
  | home {value : List Glyph} {e : PathError} (hfield : field? fields key = some (.text value))
      (hexpand : (Path.ofLoose (.ofGlyphs value)).expandUser env = .error e) :
      Misleads env p fields key
  | name {value : List Glyph} {below : Path} {fault : Text.NameFault}
      (hfield : field? fields key = some (.text value))
      (hexpand : (Path.ofLoose (.ofGlyphs value)).expandUser env = .ok below)
      (hfault : (p.parent.append below).nameFault? = some fault) : Misleads env p fields key

/-- Whether settings are not loaded for a reason that is not reported as a fault of the settings.
Each reason counts only where none of those before it does. -/
inductive Escapes (fs : Files) (env : Environment) (config : Option Path) : Prop
  | home {p : Path} {e : PathError} (hasked : asked env config = some p)
      (hexpand : p.expandUser env = .error e) : Escapes fs env config
  | file {p file : Path} (hasked : asked env config = some p)
      (hexpand : p.expandUser env = .ok file) (hunread : Unread fs file) : Escapes fs env config
  | jarField {p file : Path} {fields : Json.Fields} (hasked : asked env config = some p)
      (hexpand : p.expandUser env = .ok file) (hread : readFile fs file = .ok (.object fields))
      (hjar : Misleads env file fields "engine_jar") : Escapes fs env config
  | javaField {p file : Path} {fields : Json.Fields} {jar : Option Path}
      (hasked : asked env config = some p) (hexpand : p.expandUser env = .ok file)
      (hread : readFile fs file = .ok (.object fields))
      (hjar : pathField env file fields "engine_jar" = .ok jar)
      (hjava : Misleads env file fields "java") : Escapes fs env config
  | jarVariable {s : Settings} {value : String} {e : PathError}
      (hfile : beforeEnvironment fs env config = .ok s)
      (hvariable : given? env "DECOMP_VIEWER_ENGINE_JAR" = some value)
      (hexpand : (Path.ofString value).expandUser env = .error e) : Escapes fs env config
  | javaHome {s : Settings} {jar : Option (Given Path)} {home : String} {e : FileError}
      (hfile : beforeEnvironment fs env config = .ok s)
      (hjar : CommandLine.jarWith env s = .ok jar) (hjava : s.java = none)
      (hvariable : given? env "JAVA_HOME" = some home)
      (hfound : fs.isFile (CommandLine.javaOf home) = .error e) : Escapes fs env config

theorem slips_readFile_iff : Slips (readFile fs p) ↔ Unread fs p := by
  constructor
  · rintro ⟨e, herror, hslips⟩
    unfold readFile at herror
    split at herror
    · cases herror
      cases hslips
    · next e' hnotFound hread =>
      exact .refused hread hnotFound
    · next bytes hread =>
      split at herror
      · next fault hdecode => exact .undecodable hread hdecode
      · next text hdecode =>
        dsimp only at herror
        split at herror
        · cases herror
        · cases herror
          cases hslips
        · next e' hmalformed hparse =>
          exact .beyondReader hread hdecode hparse hmalformed
  · intro h
    cases h with
    | @refused e hread hthere =>
      refine ⟨.file e, ?_, rfl⟩
      unfold readFile
      rw [hread]
      split
      · next q hq => exact absurd (Except.error.inj hq) (hthere q)
      · next hq => rw [Except.error.inj hq]
      · next hq => cases hq
    | @undecodable bytes fault hread hdecode =>
      refine ⟨.undecodable fault, ?_, rfl⟩
      unfold readFile
      rw [hread]
      dsimp only
      rw [hdecode]
    | @beyondReader bytes text e hread hdecode hparse hlimit =>
      refine ⟨.readerLimit (Text.unifyNewlineChars text.toList) e, ?_, rfl⟩
      unfold readFile
      rw [hread]
      dsimp only
      rw [hdecode]
      dsimp only
      rw [hparse]
      split
      · next hq => cases hq
      · next hq => exact absurd (Except.error.inj hq) (hlimit _ _)
      · next hq => rw [Except.error.inj hq]

theorem slips_pathField_iff :
    Slips (pathField env p fields key) ↔ Misleads env p fields key := by
  have hresolve : ∀ below : Path, Slips (((p.parent.append below).resolve Files.cwd).mapError
      SettingsError.path) ↔ ∃ fault, (p.parent.append below).nameFault? = some fault := by
    intro below
    rw [slips_mapError_iff fun _ => rfl]
    cases hfault : (p.parent.append below).nameFault? with
    | some fault =>
      rw [Path.resolve, hfault]
      exact iff_of_true ⟨_, rfl⟩ ⟨_, rfl⟩
    | none =>
      rw [Path.resolve, hfault]
      exact iff_of_false nofun nofun
  unfold pathField
  constructor
  · split
    · exact fun h => absurd h (not_slips_ok _)
    · next value hfield =>
      rw [slips_bind_iff, slips_mapError_iff fun _ => rfl]
      rintro (⟨e, hexpand⟩ | ⟨below, hexpand, hslips⟩)
      · exact .home hfield hexpand
      · obtain hslips | ⟨q, -, hslips⟩ := slips_bind_iff.1 hslips
        · obtain ⟨fault, hfault⟩ := (hresolve below).1 hslips
          exact .name hfield (mapError_eq_ok_iff.1 hexpand) hfault
        · exact absurd hslips (not_slips_ok _)
    · rintro ⟨e, herror, hslips⟩
      cases herror
      cases hslips
  · rintro (⟨hfield, hexpand⟩ | ⟨hfield, hexpand, hfault⟩)
    · rw [hfield]
      dsimp only
      rw [slips_bind_iff, slips_mapError_iff fun _ => rfl]
      exact .inl ⟨_, hexpand⟩
    · rw [hfield]
      dsimp only
      rw [slips_bind_iff]
      refine .inr ⟨_, mapError_eq_ok_iff.2 hexpand, ?_⟩
      rw [slips_bind_iff]
      exact .inl ((hresolve _).2 ⟨_, hfault⟩)

theorem not_slips_optionsField : ¬ Slips (optionsField p fields) := by
  rintro ⟨e, herror, hslips⟩
  unfold optionsField at herror
  split at herror
  · cases herror
  · cases herror
  · cases herror
    cases hslips

theorem not_slips_textField {fallback : Loose} : ¬ Slips (textField p fields key fallback) := by
  rintro ⟨e, herror, hslips⟩
  unfold textField at herror
  split at herror
  · cases herror
  · cases herror
    cases hslips
  · cases herror
  · cases herror
    cases hslips

theorem not_slips_intervalField : ¬ Slips (intervalField p fields) := by
  rintro ⟨e, herror, hslips⟩
  unfold intervalField at herror
  split at herror
  · cases herror
  · split at herror
    · cases herror
    · cases herror
      cases hslips
  · cases herror
    cases hslips

/-- It is for its text or for one of its two paths that an error of a file is not reported. -/
theorem slips_ofFile_iff : Slips (ofFile fs env p) ↔
    Unread fs p ∨ ∃ fields, readFile fs p = .ok (.object fields) ∧
      (Misleads env p fields "engine_jar" ∨
        ∃ jar, pathField env p fields "engine_jar" = .ok jar ∧ Misleads env p fields "java") := by
  have hobject : ∀ fields : Json.Fields, Slips (do
      let engineJar ← pathField env p fields "engine_jar"
      let java ← pathField env p fields "java"
      let options ← optionsField p fields
      let extension ← textField p fields "extension" default.extension
      let delimiter ← textField p fields "delimiter" default.delimiter
      let interval ← intervalField p fields
      return Settings.mk (engineJar.map .value) (java.map .value) options extension delimiter
        interval) ↔
      Misleads env p fields "engine_jar" ∨
        ∃ jar, pathField env p fields "engine_jar" = .ok jar ∧ Misleads env p fields "java" := by
    intro fields
    simp only [slips_bind_iff, slips_pathField_iff, not_slips_optionsField, not_slips_textField,
      not_slips_intervalField, pure, Except.pure, not_slips_ok, and_false, exists_false, or_false]
  rw [ofFile, slips_bind_iff, slips_readFile_iff]
  refine or_congr_right ?_
  constructor
  · rintro ⟨value, hread, hslips⟩
    cases value with
    | object fields => exact ⟨fields, hread, (hobject fields).1 hslips⟩
    | _ =>
      obtain ⟨e, herror, hslips⟩ := hslips
      cases herror
      cases hslips
  · rintro ⟨fields, hread, hmisleads⟩
    exact ⟨_, hread, (hobject fields).2 hmisleads⟩

/-! ## The environment -/

theorem slips_jarWith_iff : Slips (CommandLine.jarWith env s) ↔
    ∃ value e, given? env "DECOMP_VIEWER_ENGINE_JAR" = some value ∧
      (Path.ofString value).expandUser env = .error e := by
  unfold CommandLine.jarWith
  cases given? env "DECOMP_VIEWER_ENGINE_JAR" with
  | none => exact iff_of_false (not_slips_ok _) nofun
  | some value =>
    dsimp only
    rw [slips_bind_iff, slips_mapError_iff fun _ => rfl]
    simp [pure, Except.pure, not_slips_ok]

theorem slips_javaWith_iff : Slips (CommandLine.javaWith fs env s) ↔
    s.java = none ∧ ∃ home e, given? env "JAVA_HOME" = some home ∧
      fs.isFile (CommandLine.javaOf home) = .error e := by
  unfold CommandLine.javaWith
  cases s.java with
  | some java => exact iff_of_false (not_slips_ok _) nofun
  | none =>
    cases given? env "JAVA_HOME" with
    | none => exact iff_of_false (not_slips_ok _) (by simp)
    | some home =>
      dsimp only
      rw [slips_bind_iff, slips_mapError_iff fun _ => rfl]
      simp [pure, Except.pure, not_slips_ok]

theorem slips_withEnvironment_iff : Slips (s.withEnvironment fs env) ↔
    Slips (CommandLine.jarWith env s) ∨
      ∃ jar, CommandLine.jarWith env s = .ok jar ∧ Slips (CommandLine.javaWith fs env s) := by
  rw [CommandLine.withEnvironment_eq]
  simp only [slips_bind_iff, pure, Except.pure, not_slips_ok, and_false, exists_false, or_false]

/-! ## Loading -/

theorem load_eq (fs : Files) (env : Environment) (config : Option Path) :
    load fs env config = beforeEnvironment fs env config >>= withEnvironment fs env := by
  unfold load beforeEnvironment asked
  cases config.orElse fun _ => (given? env "DECOMP_VIEWER_CONFIG").map Path.ofString with
  | none => rfl
  | some p =>
    dsimp only
    cases (p.expandUser env).mapError SettingsError.path <;> rfl

theorem slips_beforeEnvironment_iff : Slips (beforeEnvironment fs env config) ↔
    ∃ p, asked env config = some p ∧ ((∃ e, p.expandUser env = .error e) ∨
      ∃ file, p.expandUser env = .ok file ∧ Slips (ofFile fs env file)) := by
  unfold beforeEnvironment
  cases asked env config with
  | none => exact iff_of_false (not_slips_ok _) nofun
  | some p =>
    dsimp only
    rw [slips_bind_iff, slips_mapError_iff fun _ => rfl]
    simp [mapError_eq_ok_iff]

/-- What is not reported as a fault of the settings is known exactly. -/
theorem slips_load_iff : Slips (load fs env config) ↔ Escapes fs env config := by
  rw [load_eq, slips_bind_iff, slips_beforeEnvironment_iff]
  constructor
  · rintro (⟨p, hasked, ⟨e, hexpand⟩ | ⟨file, hexpand, hslips⟩⟩ | ⟨s, hfile, hslips⟩)
    · exact .home hasked hexpand
    · obtain hunread | ⟨fields, hread, hjar | ⟨jar, hjar, hjava⟩⟩ := slips_ofFile_iff.1 hslips
      · exact .file hasked hexpand hunread
      · exact .jarField hasked hexpand hread hjar
      · exact .javaField hasked hexpand hread hjar hjava
    · obtain hslips | ⟨jar, hjar, hslips⟩ := slips_withEnvironment_iff.1 hslips
      · obtain ⟨value, e, hvariable, hexpand⟩ := slips_jarWith_iff.1 hslips
        exact .jarVariable hfile hvariable hexpand
      · obtain ⟨hjava, home, e, hvariable, hfound⟩ := slips_javaWith_iff.1 hslips
        exact .javaHome hfile hjar hjava hvariable hfound
  · intro h
    cases h with
    | home hasked hexpand => exact .inl ⟨_, hasked, .inl ⟨_, hexpand⟩⟩
    | file hasked hexpand hunread =>
      exact .inl ⟨_, hasked, .inr ⟨_, hexpand, slips_ofFile_iff.2 (.inl hunread)⟩⟩
    | jarField hasked hexpand hread hjar =>
      exact .inl ⟨_, hasked, .inr ⟨_, hexpand, slips_ofFile_iff.2 (.inr ⟨_, hread, .inl hjar⟩)⟩⟩
    | javaField hasked hexpand hread hjar hjava =>
      exact .inl ⟨_, hasked, .inr ⟨_, hexpand,
        slips_ofFile_iff.2 (.inr ⟨_, hread, .inr ⟨_, hjar, hjava⟩⟩)⟩⟩
    | jarVariable hfile hvariable hexpand =>
      exact .inr ⟨_, hfile, slips_withEnvironment_iff.2
        (.inl (slips_jarWith_iff.2 ⟨_, _, hvariable, hexpand⟩))⟩
    | javaHome hfile hjar hjava hvariable hfound =>
      exact .inr ⟨_, hfile, slips_withEnvironment_iff.2
        (.inr ⟨_, hjar, slips_javaWith_iff.2 ⟨hjava, _, _, hvariable, hfound⟩⟩)⟩

/-! ## Settings that were loaded -/

/-- Whether names can be divided and files be named by settings, and the window has a pause. -/
structure IsUsable (s : Settings) : Prop where
  extension : s.extension.glyphs ≠ []
  delimiter : s.delimiter.glyphs ≠ []
  pollInterval : 0 < s.pollInterval

theorem isUsable_default : default.IsUsable := ⟨by decide, by decide, by decide⟩

theorem glyphs_ne_nil_of_textField {fallback text : Loose} (hfallback : fallback.glyphs ≠ [])
    (h : textField p fields key fallback = .ok text) : text.glyphs ≠ [] := by
  unfold textField at h
  split at h
  · cases h
    exact hfallback
  · cases h
  · next value hvalue _ =>
    cases h
    rw [Loose.glyphs_ofGlyphs]
    exact hvalue
  · cases h

theorem pos_of_intervalField {n : Nat} (h : intervalField p fields = .ok n) : 0 < n := by
  unfold intervalField at h
  split at h
  · cases h
    exact isUsable_default.pollInterval
  · next i _ =>
    split at h
    · next hpos =>
      cases h
      omega
    · cases h
  · cases h

theorem isUsable_of_ofFile (h : ofFile fs env p = .ok s) : s.IsUsable := by
  obtain ⟨value, -, h⟩ := bind_eq_ok_iff.1 h
  split at h
  · obtain ⟨jar, -, h⟩ := bind_eq_ok_iff.1 h
    obtain ⟨java, -, h⟩ := bind_eq_ok_iff.1 h
    obtain ⟨options, -, h⟩ := bind_eq_ok_iff.1 h
    obtain ⟨extension, hextension, h⟩ := bind_eq_ok_iff.1 h
    obtain ⟨delimiter, hdelimiter, h⟩ := bind_eq_ok_iff.1 h
    obtain ⟨interval, hinterval, h⟩ := bind_eq_ok_iff.1 h
    cases h
    exact ⟨glyphs_ne_nil_of_textField isUsable_default.extension hextension,
      glyphs_ne_nil_of_textField isUsable_default.delimiter hdelimiter,
      pos_of_intervalField hinterval⟩
  · cases h

theorem isUsable_of_beforeEnvironment (h : beforeEnvironment fs env config = .ok s) :
    s.IsUsable := by
  unfold beforeEnvironment at h
  split at h
  · cases h
    exact isUsable_default
  · obtain ⟨file, -, h⟩ := bind_eq_ok_iff.1 h
    exact isUsable_of_ofFile h

/-- The environment has a say in where the tools lie only. -/
theorem IsUsable.withEnvironment (hs : s.IsUsable) (h : s.withEnvironment fs env = .ok s') :
    s'.IsUsable := by
  rw [CommandLine.withEnvironment_eq] at h
  obtain ⟨jar, -, h⟩ := bind_eq_ok_iff.1 h
  obtain ⟨java, -, h⟩ := bind_eq_ok_iff.1 h
  cases h
  exact ⟨hs.extension, hs.delimiter, hs.pollInterval⟩

theorem isUsable_of_load (h : load fs env config = .ok s) : s.IsUsable := by
  rw [load_eq] at h
  obtain ⟨before, hbefore, h⟩ := bind_eq_ok_iff.1 h
  exact (isUsable_of_beforeEnvironment hbefore).withEnvironment h

end Settings

namespace CommandLine

variable {w : World} {config : Option Path} {c : Command} {choice : EngineChoice}
  {engine : Option Factory} {e : SettingsError} {s : Settings}

/-- What a command says of the decompiler, if it needs it. -/
def Command.choice? : Command → Option EngineChoice
  | .gui choice _ | .tree choice _ | .showClass choice _ _ _ | .decompile choice _ _ _ =>
    some choice
  | .list _ _ => none

/-- Whether every command that needs the decompiler, and whose command line names the file `config`
or none, prints this, ends so and does nothing else. -/
def AllEnd (w : World) (config : Option Path) (printed : List Printed) (ending : Ending) : Prop :=
  ∀ (c : Command) choice engine, c.choice? = some choice → choice.config = config.map .value →
    c.perform engine w = .ended printed ending w

theorem perform_of_settings (hchoice : c.choice? = some choice)
    (h : choice.settings w = .error e) : c.perform engine w =
      if e.isReported then .ended [complaint e.message] (.exit 2) w
      else .ended [] (.escaped (.settings e)) w := by
  have hsession : ∀ next, withSession choice engine w next =
      if e.isReported then .ended [complaint e.message] (.exit 2) w
      else .ended [] (.escaped (.settings e)) w := by
    intro next
    rw [withSession, h]
  cases c with
  | list archive includeInner => cases hchoice
  | _ =>
    cases hchoice
    rw [Command.perform, hsession]

theorem settings_of_load (hconfig : choice.config = config.map .value)
    (h : Settings.load w.files w.env config = .error e) : choice.settings w = .error e := by
  unfold EngineChoice.settings
  rw [hconfig]
  cases config with
  | none =>
    show (Settings.load w.files w.env none >>= _) = _
    rw [h]
    rfl
  | some p =>
    show (Settings.load w.files w.env (some p) >>= _) = _
    rw [h]
    rfl

theorem allEnd_of_isReported (h : Settings.load w.files w.env config = .error e)
    (hreported : e.isReported = true) : AllEnd w config [complaint e.message] (.exit 2) := by
  intro c choice engine hchoice hconfig
  rw [perform_of_settings hchoice (settings_of_load hconfig h), if_pos hreported]

theorem allEnd_of_not_isReported (h : Settings.load w.files w.env config = .error e)
    (hreported : e.isReported = false) : AllEnd w config [] (.escaped (.settings e)) := by
  intro c choice engine hchoice hconfig
  rw [perform_of_settings hchoice (settings_of_load hconfig h), hreported]
  rfl

/-- The options of settings that were loaded are the defaults and what the file gives, each of its
values as a text. -/
theorem exists_options_of_load (h : Settings.load w.files w.env config = .ok s) :
    ∃ file, ReadsFile w.files w.env (config.map .value) file ∧
      s.engineOptions = Settings.defaultOptions.insertAll (fileOptions file) := by
  obtain ⟨file, base, hreads, hfrom, henvironment⟩ := exists_of_load h
  exact ⟨file, hreads, (engineOptions_withEnvironment henvironment).trans hfrom.options⟩

/-- Unless something escapes, settings are loaded that can be used, or every command complains and
ends with exit code 2; and where something escapes, it escapes from every command. -/
theorem load_reports_unless_escapes (w : World) (config : Option Path) :
    (¬ Settings.Escapes w.files w.env config →
      (∃ s file, Settings.load w.files w.env config = .ok s ∧ s.IsUsable ∧
        ReadsFile w.files w.env (config.map .value) file ∧
        s.engineOptions = Settings.defaultOptions.insertAll (fileOptions file)) ∨
      ∃ e, Settings.load w.files w.env config = .error e ∧ e.isReported = true ∧
        AllEnd w config [complaint e.message] (.exit 2)) ∧
    (Settings.Escapes w.files w.env config →
      ∃ e, Settings.load w.files w.env config = .error e ∧ e.isReported = false ∧
        AllEnd w config [] (.escaped (.settings e))) := by
  constructor
  · intro hescapes
    cases hload : Settings.load w.files w.env config with
    | ok s =>
      obtain ⟨file, hreads, hoptions⟩ := exists_options_of_load hload
      exact .inl ⟨s, file, rfl, Settings.isUsable_of_load hload, hreads, hoptions⟩
    | error e =>
      have hreported : e.isReported = true := by
        by_contra hslips
        exact hescapes (Settings.slips_load_iff.1 ⟨e, hload, Bool.eq_false_iff.2 hslips⟩)
      exact .inr ⟨e, rfl, hreported, allEnd_of_isReported hload hreported⟩
  · intro hescapes
    obtain ⟨e, hload, hslips⟩ := Settings.slips_load_iff.2 hescapes
    exact ⟨e, hload, hslips, allEnd_of_not_isReported hload hslips⟩

namespace Sample

/-- Surroundings in which the settings file holds some bytes. -/
def holding (bytes : ByteArray) : World :=
  .start ⟨[([], .directory), (["W"], .directory),
    (["W", "c.json"], .file (.bytes bytes) false)], .roomy⟩ {}

/-- An opening brace alone. -/
def broken : World := holding ⟨#[0x7b]⟩

/-- A byte that begins no character. -/
def undecodable : World := holding ⟨#[0xff]⟩

theorem load_broken : Settings.load broken.files broken.env (some settingsPath) =
    .error (.invalidJson settingsPath ['\x7b'] .expectingKey 1) := by
  decide +kernel

end Sample

theorem load_reports_unless_escapes_broken :
    ¬ Settings.Escapes Sample.broken.files Sample.broken.env (some Sample.settingsPath) ∧
    ∃ e, Settings.load Sample.broken.files Sample.broken.env (some Sample.settingsPath) =
        .error e ∧ e.isReported = true ∧
      AllEnd Sample.broken (some Sample.settingsPath) [complaint e.message] (.exit 2) := by
  obtain ⟨hunless, hif⟩ := load_reports_unless_escapes Sample.broken (some Sample.settingsPath)
  have hescapes : ¬ Settings.Escapes Sample.broken.files Sample.broken.env
      (some Sample.settingsPath) := by
    intro hescapes
    obtain ⟨e, hload, hslips, -⟩ := hif hescapes
    obtain rfl := Except.error.inj (Sample.load_broken.symm.trans hload)
    cases hslips
  refine ⟨hescapes, (hunless hescapes).resolve_left ?_⟩
  rintro ⟨s, file, hload, -⟩
  exact nomatch Sample.load_broken.symm.trans hload

/-- The bytes of a settings file may be no text, and then no command complains: the error
escapes. -/
theorem exists_settings_unreported : ∃ (w : World) (p : Path) (e : SettingsError),
    Settings.load w.files w.env (some p) = .error e ∧ e.isReported = false ∧
      AllEnd w (some p) [] (.escaped (.settings e)) := by
  have hload : Settings.load Sample.undecodable.files Sample.undecodable.env
      (some Sample.settingsPath) = .error (.undecodable ⟨0xff, 0, 1, .invalidStart⟩) := by
    decide +kernel
  exact ⟨Sample.undecodable, Sample.settingsPath, _, hload, rfl, allEnd_of_not_isReported hload rfl⟩

end CommandLine

end ClassBrowser
