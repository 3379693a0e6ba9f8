import ClassBrowser.Proofs.Engine.Locations
import ClassBrowser.Proofs.Files.Names

/-!
# How a run of the decompiler fails

A run fails where there is no archive, where a tool that it needs is not there, where the process
cannot be started or fails, and where nothing is found of what the process has made (`Cause`).  The
failure is reported as a fault of the engine but for three cases, where something else goes wrong
before the cause is looked at (`Escapes`): the system refuses the path that is given for a tool, or
an archive that was made cannot be looked through, because an entry has no name or because it is
damaged.
-/

namespace ClassBrowser

open Text (Loose)

/-! ## Tools -/

namespace Engine

variable {fs : Files} {env : Environment} {given : Given Path} {java jar : Option (Given Path)}
  {missing : Path → EngineError} {e : EngineError} {p q : Path}

/-- Whether a file stands where the settings say. -/
def Stands (fs : Files) (env : Environment) (given : Given Path) : Prop :=
  ∃ p q, given = .value p ∧ p.expandUser env = .ok q ∧ q.nameFault? = none ∧
    fs.isFile q.absolute = .ok true

/-- Whether it cannot even be asked if a file stands where the settings say. -/
inductive Refused (fs : Files) (env : Environment) : Given Path → Prop
  | nothing : Refused fs env .nothing
  | home {p : Path} {e : PathError} (hexpand : p.expandUser env = .error e) :
      Refused fs env (.value p)
  | name {p q : Path} {fault : Text.NameFault} (hexpand : p.expandUser env = .ok q)
      (hfault : q.nameFault? = some fault) : Refused fs env (.value p)
  | tooLong {p q : Path} (hexpand : p.expandUser env = .ok q) (hname : q.nameFault? = none)
      (hlong : fs.isFile q.absolute = .error (.refused .nameTooLong q.absolute)) :
      Refused fs env (.value p)

/-- Whether a tool that the settings give is refused. -/
def IsRefused (fs : Files) (env : Environment) (tool : Option (Given Path)) : Prop :=
  ∃ given, tool = some given ∧ Refused fs env given

/-- Whether there is a java program. -/
def HasJava (fs : Files) (env : Environment) : Option (Given Path) → Prop
  | some java => Stands fs env java
  | none => ∃ p ∈ (searchPath env).map javaIn, isExecutable fs p = true

/-- Whether there is a decompiler. -/
def HasJar (fs : Files) (env : Environment) : Option (Given Path) → Prop
  | some jar => Stands fs env jar
  | none => ∃ name ∈ jarNames, fs.isFile (.ofString name) = .ok true

theorem not_isRefused_none : ¬ IsRefused fs env none := nofun

theorem resolveFile_value (hexpand : p.expandUser env = .ok q) (hname : q.nameFault? = none) :
    resolveFile fs env (.value p) missing =
      (fs.isFile q.absolute).mapError EngineError.file >>= fun stands =>
        if stands then pure q.absolute else throw (missing q.absolute) := by
  show ((p.expandUser env).mapError _ >>= fun p => (p.resolve Files.cwd).mapError _ >>= _) = _
  rw [hexpand]
  show ((q.resolve Files.cwd).mapError _ >>= _) = _
  rw [Path.resolve_eq_absolute hname]
  rfl

theorem Stands.resolveFile (h : Stands fs env given) (missing : Path → EngineError) :
    ∃ p, resolveFile fs env given missing = .ok p := by
  obtain ⟨p, q, rfl, hexpand, hname, hfile⟩ := h
  exact ⟨q.absolute, by rw [resolveFile_value hexpand hname, hfile]; rfl⟩

/-- What is refused is not reported as a fault of the engine. -/
theorem Refused.resolveFile (h : Refused fs env given) (missing : Path → EngineError) :
    ∃ e, resolveFile fs env given missing = .error e ∧ e.isReported = false ∧
      e.streams? = none := by
  cases h with
  | nothing => exact ⟨_, rfl, rfl, rfl⟩
  | @home p e hexpand =>
    refine ⟨.path e, ?_, rfl, rfl⟩
    show ((p.expandUser env).mapError _ >>= _) = _
    rw [hexpand]
    rfl
  | @name p q fault hexpand hfault =>
    refine ⟨.path (.name fault), ?_, rfl, rfl⟩
    show ((p.expandUser env).mapError _ >>= fun p => (p.resolve Files.cwd).mapError _ >>= _) = _
    rw [hexpand]
    show ((q.resolve Files.cwd).mapError _ >>= _) = _
    rw [Path.resolve_of_nameFault hfault]
    rfl
  | tooLong hexpand hname hlong =>
    exact ⟨.file _, by rw [resolveFile_value hexpand hname, hlong]; rfl, rfl, rfl⟩

/-- What is neither there nor refused is reported as missing. -/
theorem resolveFile_of_missing (hstands : ¬ Stands fs env given) (hrefused : ¬ Refused fs env given)
    (missing : Path → EngineError) :
    ∃ p, Engine.resolveFile fs env given missing = .error (missing p) := by
  cases given with
  | nothing => exact absurd .nothing hrefused
  | value p =>
    cases hexpand : p.expandUser env with
    | error e => exact absurd (.home hexpand) hrefused
    | ok q =>
      cases hname : q.nameFault? with
      | some fault => exact absurd (.name hexpand hname) hrefused
      | none =>
        cases hfile : fs.isFile q.absolute with
        | error e =>
          obtain rfl := Files.eq_of_isFile_eq_error hfile
          exact absurd (.tooLong hexpand hname hfile) hrefused
        | ok stands =>
          cases stands with
          | true => exact absurd ⟨p, q, rfl, hexpand, hname, hfile⟩ hstands
          | false => exact ⟨q.absolute, by rw [resolveFile_value hexpand hname, hfile]; rfl⟩

theorem Stands.not_refused (h : Stands fs env given) : ¬ Refused fs env given := by
  intro hrefused
  obtain ⟨p, hok⟩ := h.resolveFile .jarNotFound
  obtain ⟨e, herror, -⟩ := hrefused.resolveFile .jarNotFound
  exact nomatch hok.symm.trans herror

/-- A path without NUL and tilde is refused for its encoding or its length only. -/
theorem refused_iff_of_isTidy (h : p.IsTidy) : Refused fs env (.value p) ↔
    (∃ fault, p.nameFault? = some (.unencodable fault)) ∨
      p.nameFault? = none ∧
        fs.isFile p.absolute = .error (.refused .nameTooLong p.absolute) := by
  have hexpand := h.expandUser_eq env
  constructor
  · intro hrefused
    cases hrefused with
    | home hexpand' => exact nomatch hexpand.symm.trans hexpand'
    | name hexpand' hfault =>
      obtain rfl := Except.ok.inj (hexpand.symm.trans hexpand')
      obtain ⟨f, rfl⟩ := h.exists_unencodable hfault
      exact .inl ⟨f, hfault⟩
    | tooLong hexpand' hname hlong =>
      obtain rfl := Except.ok.inj (hexpand.symm.trans hexpand')
      exact .inr ⟨hname, hlong⟩
  · rintro (⟨fault, hfault⟩ | ⟨hname, hlong⟩)
    · exact .name hexpand hfault
    · exact .tooLong hexpand hname hlong

/-! ## Looking up java and the jar -/

/-- What an error of a look-up tells: that a tool is missing, unless the tool is refused. -/
structure TellsMissing (fs : Files) (env : Environment) (tool : Option (Given Path))
    (e : EngineError) : Prop where
  isReported : e.isReported = true ↔ ¬ IsRefused fs env tool
  streams : e.streams? = none

theorem isRefused_some : IsRefused fs env (some given) ↔ Refused fs env given := by
  simp [IsRefused]

theorem resolveFile_cases (fs : Files) (env : Environment) (given : Given Path)
    (hreported : ∀ p, (missing p).isReported = true) (hstreams : ∀ p, (missing p).streams? = none) :
    (Stands fs env given ∧ ∃ p, resolveFile fs env given missing = .ok p) ∨
      ¬ Stands fs env given ∧ ∃ e, resolveFile fs env given missing = .error e ∧
        TellsMissing fs env (some given) e := by
  by_cases hstands : Stands fs env given
  · exact .inl ⟨hstands, hstands.resolveFile missing⟩
  · refine .inr ⟨hstands, ?_⟩
    by_cases hrefused : Refused fs env given
    · obtain ⟨e, herror, hunreported, hnone⟩ := hrefused.resolveFile missing
      refine ⟨e, herror, ?_, hnone⟩
      rw [isRefused_some, hunreported]
      simpa using hrefused
    · obtain ⟨p, herror⟩ := resolveFile_of_missing hstands hrefused missing
      refine ⟨missing p, herror, iff_of_true (hreported p) ?_, hstreams p⟩
      rwa [isRefused_some]

theorem locate_of_isExecutable (h : isExecutable fs p = true) :
    ∃ place, fs.locate p = .ok place := by
  unfold isExecutable at h
  split at h
  · next node hget =>
    obtain ⟨place, hlocate, -⟩ := Files.exists_locate_of_get hget
    exact ⟨place, hlocate⟩
  · cases h

theorem nameFault?_of_locate {place : Place} (h : fs.locate p = .ok place) :
    p.nameFault? = none :=
  Path.nameFault?_of_toLoose (Files.isFollowable_of_locate h).name

/-- What the look-up of java comes to. -/
theorem resolveJava_cases (fs : Files) (env : Environment) (java : Option (Given Path)) :
    (HasJava fs env java ∧ ∃ p, resolveJava fs env java = .ok p) ∨
      ¬ HasJava fs env java ∧ ∃ e, resolveJava fs env java = .error e ∧
        TellsMissing fs env java e := by
  cases java with
  | none =>
    unfold resolveJava HasJava
    dsimp only
    cases hfind : ((searchPath env).map javaIn).find? (isExecutable fs) with
    | some p =>
      have hexecutable := List.find?_some hfind
      obtain ⟨place, hlocate⟩ := locate_of_isExecutable hexecutable
      refine .inl ⟨⟨p, List.mem_of_find?_eq_some hfind, hexecutable⟩, p.absolute, ?_⟩
      dsimp only
      rw [Path.resolve_eq_absolute (nameFault?_of_locate hlocate)]
      rfl
    | none =>
      refine .inr ⟨?_, .noJava, rfl, iff_of_true rfl not_isRefused_none, rfl⟩
      rintro ⟨p, hp, hexecutable⟩
      exact List.find?_eq_none.1 hfind p hp hexecutable
  | some given => exact resolveFile_cases fs env given (fun _ => rfl) fun _ => rfl

theorem HasJava.not_isRefused (h : HasJava fs env java) : ¬ IsRefused fs env java := by
  rintro ⟨given, rfl, hrefused⟩
  exact Stands.not_refused h hrefused

theorem HasJar.not_isRefused (h : HasJar fs env jar) : ¬ IsRefused fs env jar := by
  rintro ⟨given, rfl, hrefused⟩
  exact Stands.not_refused h hrefused

theorem findJar_cases {names : List String}
    (hname : ∀ name ∈ names, (Path.ofString name).nameFault? = none)
    (hfile : ∀ name ∈ names, ∃ stands, fs.isFile (.ofString name) = .ok stands) :
    ((∃ name ∈ names, fs.isFile (.ofString name) = .ok true) ∧ ∃ p, findJar fs names = .ok p) ∨
      (¬ ∃ name ∈ names, fs.isFile (.ofString name) = .ok true) ∧
        findJar fs names = .error .noJar := by
  induction names with
  | nil => exact .inr ⟨by simp, rfl⟩
  | cons name rest ih =>
    obtain ⟨stands, hstands⟩ := hfile name List.mem_cons_self
    have hfind : findJar fs (name :: rest) =
        if stands then ((Path.ofString name).resolve Files.cwd).mapError .path
        else findJar fs rest := by
      rw [findJar, hstands]
      rfl
    rw [hfind]
    cases stands with
    | true =>
      rw [Path.resolve_eq_absolute (hname name List.mem_cons_self)]
      exact .inl ⟨⟨name, List.mem_cons_self, hstands⟩, _, rfl⟩
    | false =>
      have hrest := ih (fun n hn => hname n (List.mem_cons_of_mem _ hn))
        fun n hn => hfile n (List.mem_cons_of_mem _ hn)
      simpa [hstands] using hrest

/-- What the look-up of the jar comes to. -/
theorem resolveJar_cases (fs : Files) (env : Environment) (jar : Option (Given Path)) :
    (HasJar fs env jar ∧ ∃ p, resolveJar fs env jar = .ok p) ∨
      ¬ HasJar fs env jar ∧ ∃ e, resolveJar fs env jar = .error e ∧ TellsMissing fs env jar e := by
  cases jar with
  | none =>
    have hshort : ∀ name ∈ jarNames, (Path.ofString name).nameFault? = none ∧
        (∀ part ∈ (Path.ofString name).parts, part.byteSize ≤ Files.maxNameBytes) ∧
        (Path.ofString name).toLoose.byteSize ≤ Files.maxPathBytes := by
      decide +kernel
    have hcases := findJar_cases (fun name hname => (hshort name hname).1) fun name hname =>
      Files.exists_isFile_eq_ok (hshort name hname).2.1 (hshort name hname).2.2 fs
    obtain ⟨hjar, hfound⟩ | ⟨hjar, hnone⟩ := hcases
    · exact .inl ⟨hjar, hfound⟩
    · exact .inr ⟨hjar, .noJar, hnone, iff_of_true rfl not_isRefused_none, rfl⟩
  | some given => exact resolveFile_cases fs env given (fun _ => rfl) fun _ => rfl

end Engine

/-! ## Runs -/

namespace Decompiler

variable {d : Decompiler} {w w' : World} {e : EngineError} {command : List Loose}
  {completed : Engine.Completed} {streams : Option (String × String)}

/-- The surroundings at the start of a run: nothing is left of the run before. -/
def emptied (d : Decompiler) (w : World) : World :=
  { (d.close w).1 with
    files := ((d.close w).1.files.removeTree outputDirectory.parts).set outputDirectory.parts
      .directory }

/-- The surroundings in which a command is started. -/
def announced (d : Decompiler) (w : World) (command : List Loose) : World :=
  (d.emptied w).note ⟨.info, .engine, Engine.startText command⟩

/-- Why a run fails, and what the process has printed if that is to be told. -/
inductive Cause (d : Decompiler) (w : World) : Option (String × String) → Prop
  | noArchive (h : d.sources = []) : Cause d w none
  | noJava (h : ¬ Engine.HasJava (d.emptied w).files w.env d.java) : Cause d w none
  | noJar (h : ¬ Engine.HasJar (d.emptied w).files w.env d.jar) : Cause d w none
  | cannotStart {command : List Loose} {obstacle : Obstacle}
      (hcommand : d.command (d.emptied w) outputDirectory = .ok command)
      (hwords : command.findSome? Loose.nameFault? = none)
      (hstart : Engine.programOf (d.announced w command).files w.env command = .error obstacle) :
      Cause d w none
  | failed {w' : World} {completed : Engine.Completed} (hsources : d.sources ≠ [])
      (hlaunch : d.launch w = (w', .ok completed)) (hexit : completed.exitCode ≠ 0) :
      Cause d w (some (completed.stdout, completed.stderr))
  | nothing {w' : World} {completed : Engine.Completed} (hsources : d.sources ≠ [])
      (hlaunch : d.launch w = (w', .ok completed)) (hexit : completed.exitCode = 0)
      (hnone : ∀ s ∈ d.sources, ∀ p, ¬ Yields w'.files outputDirectory.parts s p) :
      Cause d w (some (completed.stdout, completed.stderr))

/-- What goes wrong before a cause is looked at, and is passed on as it is. -/
inductive Escapes (d : Decompiler) (w : World) : Prop
  | java (hsources : d.sources ≠ []) (h : Engine.IsRefused (d.emptied w).files w.env d.java) :
      Escapes d w
  | jar (hsources : d.sources ≠ []) (hjava : Engine.HasJava (d.emptied w).files w.env d.java)
      (h : Engine.IsRefused (d.emptied w).files w.env d.jar) : Escapes d w
  | resists {w' : World} {completed : Engine.Completed}
      (hlaunch : d.launch w = (w', .ok completed)) (hexit : completed.exitCode = 0)
      (h : ∃ s ∈ d.sources, Resists w'.files outputDirectory.parts s) : Escapes d w

theorem env_emptied (d : Decompiler) (w : World) : (d.emptied w).env = w.env := by
  unfold emptied close
  split <;> rfl

theorem launch_eq (d : Decompiler) (w : World) :
    d.launch w = match d.command (d.emptied w) outputDirectory with
      | .error e => (d.emptied w, .error e)
      | .ok command => match Engine.execute (d.announced w command).files w.env command with
        | .error e => (d.announced w command, .error e)
        | .ok (completed, files) =>
          ({ d.announced w command with files }.noteAll (Engine.outputRecords completed.stdout),
            .ok completed) := by
  rw [← env_emptied d w]
  rfl

/-- Both tools are there, or there is no command because of the first that is not. -/
theorem command_cases (d : Decompiler) (w : World) :
    (Engine.HasJava (d.emptied w).files w.env d.java ∧
      Engine.HasJar (d.emptied w).files w.env d.jar) ∨
    (¬ Engine.HasJava (d.emptied w).files w.env d.java ∧
      ∃ e, d.command (d.emptied w) outputDirectory = .error e ∧
        Engine.TellsMissing (d.emptied w).files w.env d.java e) ∨
    (Engine.HasJava (d.emptied w).files w.env d.java ∧
      ¬ Engine.HasJar (d.emptied w).files w.env d.jar ∧
        ∃ e, d.command (d.emptied w) outputDirectory = .error e ∧
          Engine.TellsMissing (d.emptied w).files w.env d.jar e) := by
  have hcommand : d.command (d.emptied w) outputDirectory =
      Engine.resolveJava (d.emptied w).files w.env d.java >>= fun java =>
        Engine.resolveJar (d.emptied w).files w.env d.jar >>= fun jar =>
          .ok ([java.toLoose, "-jar", jar.toLoose] ++
            d.options.map (fun o : Text.Loose × Text.Loose => "-" ++ o.1 ++ "=" ++ o.2) ++
              d.sources.map Path.toLoose ++ [outputDirectory.toLoose]) := by
    rw [← env_emptied d w]
    rfl
  rw [hcommand]
  obtain ⟨hjava, java, hfound⟩ | ⟨hjava, e, herror, htells⟩ :=
    Engine.resolveJava_cases (d.emptied w).files w.env d.java
  · rw [hfound]
    obtain ⟨hjar, jar, hfound⟩ | ⟨hjar, e, herror, htells⟩ :=
      Engine.resolveJar_cases (d.emptied w).files w.env d.jar
    · exact .inl ⟨hjava, hjar⟩
    · rw [herror]
      exact .inr (.inr ⟨hjava, hjar, e, rfl, htells⟩)
  · rw [herror]
    exact .inr (.inl ⟨hjava, e, rfl, htells⟩)

theorem launch_of_command_error (h : d.command (d.emptied w) outputDirectory = .error e) :
    d.launch w = (d.emptied w, .error e) := by
  rw [launch_eq, h]

theorem launch_of_start_error {obstacle : Obstacle}
    (hcommand : d.command (d.emptied w) outputDirectory = .ok command)
    (hwords : command.findSome? Loose.nameFault? = none)
    (hstart : Engine.programOf (d.announced w command).files w.env command = .error obstacle) :
    d.launch w = (d.announced w command,
      .error (.cannotStart obstacle (.ofLoose (command.headD "")))) := by
  have hexecute : Engine.execute (d.announced w command).files w.env command =
      .error (.cannotStart obstacle (.ofLoose (command.headD ""))) := by
    unfold Engine.execute
    rw [hwords]
    show ((Engine.programOf _ _ _).mapError _ >>= _) = _
    rw [hstart]
    rfl
  rw [launch_eq, hcommand]
  dsimp only
  rw [hexecute]

theorem outcome_of_launch_error (hsources : d.sources ≠ []) (h : d.launch w = (w', .error e)) :
    (d.decompile w).2.2 = .error e := by
  rw [decompile_eq hsources, h]

theorem outcome_of_launch_ok (hsources : d.sources ≠ [])
    (h : d.launch w = (w', .ok completed)) :
    (d.decompile w).2.2 = (d.started.gather w' completed).2 := by
  rw [decompile_eq hsources, h]

theorem Escapes.sources_ne_nil (h : Escapes d w) : d.sources ≠ [] := by
  cases h with
  | java hsources => exact hsources
  | jar hsources => exact hsources
  | resists _ _ h =>
    obtain ⟨s, hs, -⟩ := h
    exact List.ne_nil_of_mem hs

/-- Where the process has not run there is nothing to be told of what it printed. -/
theorem Cause.streams_eq_none (h : Cause d w streams) (hlaunch : d.launch w = (w', .error e)) :
    streams = none := by
  cases h with
  | failed _ hlaunch' => exact nomatch (hlaunch.symm.trans hlaunch')
  | nothing _ hlaunch' => exact nomatch (hlaunch.symm.trans hlaunch')
  | _ => rfl

/-- What escapes where the process has run to its end. -/
theorem escapes_iff_of_launch (hjava : Engine.HasJava (d.emptied w).files w.env d.java)
    (hjar : Engine.HasJar (d.emptied w).files w.env d.jar)
    (hlaunch : d.launch w = (w', .ok completed)) :
    Escapes d w ↔ completed.exitCode = 0 ∧
      ∃ s ∈ d.sources, Resists w'.files outputDirectory.parts s := by
  constructor
  · intro h
    cases h with
    | java _ hrefused => exact absurd hrefused hjava.not_isRefused
    | jar _ _ hrefused => exact absurd hrefused hjar.not_isRefused
    | resists hlaunch' hexit hresists =>
      obtain ⟨rfl, h⟩ := Prod.mk.inj (hlaunch.symm.trans hlaunch')
      cases h
      exact ⟨hexit, hresists⟩
  · rintro ⟨hexit, hresists⟩
    exact .resists hlaunch hexit hresists

/-- Whether a run fails, reports that as a fault of the engine unless something escapes, and then
tells what was printed. -/
def FailsWith (d : Decompiler) (w : World) (streams : Option (String × String)) : Prop :=
  ∃ e, (d.decompile w).2.2 = .error e ∧ (e.isReported = true ↔ ¬ Escapes d w) ∧
    (e.isReported = true → e.streams? = streams)

theorem Cause.failsWith_of_no_archive (h : Cause d w streams) (hsources : d.sources = []) :
    FailsWith d w streams := by
  have houtcome : (d.decompile w).2.2 = .error .noArchive := by
    rw [decompile_of_no_archive hsources]
  have hstreams : streams = none := by
    cases h with
    | failed hne => exact absurd hsources hne
    | nothing hne => exact absurd hsources hne
    | _ => rfl
  exact ⟨_, houtcome, iff_of_true rfl fun hescapes => hescapes.sources_ne_nil hsources,
    fun _ => hstreams.symm⟩

theorem Cause.failsWith_of_launch_error (h : Cause d w streams) (hsources : d.sources ≠ [])
    (hlaunch : d.launch w = (w', .error e)) (hreported : e.isReported = true ↔ ¬ Escapes d w)
    (hstreams : e.streams? = none) : FailsWith d w streams :=
  ⟨e, outcome_of_launch_error hsources hlaunch, hreported,
    fun _ => hstreams.trans (h.streams_eq_none hlaunch).symm⟩

/-- A run of which nothing is found fails; an archive that cannot be looked through is noticed
first. -/
theorem failsWith_of_nothing (hjava : Engine.HasJava (d.emptied w).files w.env d.java)
    (hjar : Engine.HasJar (d.emptied w).files w.env d.jar) (hsources : d.sources ≠ [])
    (hlaunch : d.launch w = (w', .ok completed)) (hexit : completed.exitCode = 0)
    (hnone : ∀ s ∈ d.sources, ∀ p, ¬ Yields w'.files outputDirectory.parts s p) :
    FailsWith d w (some (completed.stdout, completed.stderr)) := by
  have houtcome := outcome_of_launch_ok hsources hlaunch
  have hstarted : d.started.sources = d.sources := rfl
  rw [gather, failure?_eq_none hexit, hstarted] at houtcome
  by_cases hresists : ∃ s ∈ d.sources, Resists w'.files outputDirectory.parts s
  · obtain ⟨e, hcollect, hunreported⟩ := exists_collect_eq_error hresists
    have hfalse : (EngineError.archive e).isReported ≠ true := by
      simp [EngineError.isReported, hunreported]
    rw [hcollect] at houtcome
    exact ⟨_, houtcome, iff_of_false hfalse (not_not.2 (.resists hlaunch hexit hresists)),
      fun hreported => absurd hreported hfalse⟩
  · obtain ⟨locations, hcollect⟩ :=
      exists_collect_eq_ok fun s hs hsource => hresists ⟨s, hs, hsource⟩
    obtain rfl := (eq_nil_iff_of_collect hcollect).2 hnone
    rw [hcollect] at houtcome
    refine ⟨_, houtcome, iff_of_true rfl ?_, fun _ => rfl⟩
    rw [escapes_iff_of_launch hjava hjar hlaunch]
    exact fun hescapes => hresists hescapes.2

theorem Cause.failsWith_of_command (h : Cause d w streams) (hsources : d.sources ≠ [])
    (hjava : Engine.HasJava (d.emptied w).files w.env d.java)
    (hjar : Engine.HasJar (d.emptied w).files w.env d.jar) : FailsWith d w streams := by
  cases h with
  | noArchive hnil => exact absurd hnil hsources
  | noJava hnone => exact absurd hjava hnone
  | noJar hnone => exact absurd hjar hnone
  | cannotStart hcommand hwords hstart =>
    have hlaunch := launch_of_start_error hcommand hwords hstart
    refine ⟨_, outcome_of_launch_error hsources hlaunch, iff_of_true rfl ?_, fun _ => rfl⟩
    intro hescapes
    cases hescapes with
    | java _ hrefused => exact hjava.not_isRefused hrefused
    | jar _ _ hrefused => exact hjar.not_isRefused hrefused
    | resists hlaunch' => exact nomatch (hlaunch.symm.trans hlaunch')
  | @failed w' completed _ hlaunch hexit =>
    have houtcome := outcome_of_launch_ok hsources hlaunch
    rw [gather_of_exitCode hexit] at houtcome
    refine ⟨_, houtcome, iff_of_true rfl ?_, fun _ => rfl⟩
    rw [escapes_iff_of_launch hjava hjar hlaunch]
    exact fun hescapes => hexit hescapes.1
  | nothing _ hlaunch hexit hnone =>
    exact failsWith_of_nothing hjava hjar hsources hlaunch hexit hnone

/-- Every cause makes the run fail, and unless something escapes it is reported as a fault of the
engine that tells what was printed. -/
theorem Cause.failsWith (h : Cause d w streams) : FailsWith d w streams := by
  by_cases hsources : d.sources = []
  · exact h.failsWith_of_no_archive hsources
  obtain ⟨hjava, hjar⟩ | ⟨hjava, e, herror, htells⟩ | ⟨hjava, hjar, e, herror, htells⟩ :=
    d.command_cases w
  · exact h.failsWith_of_command hsources hjava hjar
  · have hlaunch := launch_of_command_error herror
    refine h.failsWith_of_launch_error hsources hlaunch ?_ htells.streams
    rw [htells.isReported, not_iff_not]
    constructor
    · exact .java hsources
    · intro hescapes
      cases hescapes with
      | java _ hrefused => exact hrefused
      | jar _ hhas => exact absurd hhas hjava
      | resists hlaunch' => exact nomatch (hlaunch.symm.trans hlaunch')
  · have hlaunch := launch_of_command_error herror
    refine h.failsWith_of_launch_error hsources hlaunch ?_ htells.streams
    rw [htells.isReported, not_iff_not]
    constructor
    · exact .jar hsources hjava
    · intro hescapes
      cases hescapes with
      | java _ hrefused => exact absurd hrefused hjava.not_isRefused
      | jar _ _ hrefused => exact hrefused
      | resists hlaunch' => exact nomatch (hlaunch.symm.trans hlaunch')

end Decompiler

end ClassBrowser
