import ClientGen.Proofs.Run.Accounting
import ClientGen.Proofs.Run.Atomic
import ClientGen.Proofs.Storage.Touched

/-!
# What a run touches

Whatever becomes of a run, it touches nothing but its outputs, the directories on the way to them
and, if they are kept, its settings.

* **Parts** (`touches_writeOutput`, `touches_emitOutput`, `touches_keepSettings`): each part of a
  run has a frame, also where it stops.
* **Paths** (`pathsApart`): the outputs and the settings of a target are apart, on every disk.

The main statement, `run_touches`, puts the frames together. A loader is free to do what it likes,
so the frame starts where it has left the disk.
-/

namespace ClientGen

variable {ω : Type} {w w' : World ω}

/-! ## Parts of a run -/

namespace World

theorem touches_writeOutput {path content : String} {r : Except RunError Unit}
    (h : w.exec (writeOutput path content) = (r, w')) :
    Disk.Touches [path] [path] w.disk w'.disk := by
  have hwrite : ∀ {w₁ : World ω},
      w₁.exec (orStop (.write path) (Storage.writeText path content)) = (r, w') →
      Disk.Touches [path] [path] w₁.disk w'.disk := by
    intro w₁ h
    rcases exec_orStop_writeText h with ⟨disk, htext, -, rfl⟩ | ⟨error, -, -, rfl⟩
    · exact (Disk.touches_writeText htext).mono (List.Subset.refl _) (List.nil_subset _)
    · exact .refl _ _ _
  rw [writeOutput] at h
  split at h
  · rename_i parent hparent
    have hdirectories := Disk.touches_createDirectories hparent w.disk
    have hframe := hdirectories.mono (List.nil_subset [path]) (List.Subset.refl [path])
    rcases exec_bind_cases h with ⟨_, w₁, hcreate, h⟩ | ⟨error, hcreate, -⟩
    · obtain ⟨rfl, -⟩ := exec_orStop_createDirectories hcreate
      exact hframe.trans (hwrite h)
    · obtain ⟨rfl, -⟩ := exec_orStop_createDirectories hcreate
      exact hframe
  · exact hwrite h

theorem touches_emitOutput {options : EmitOptions} {specs : List Specification}
    {language : Language} {path : String} {r : Except RunError Emitted}
    (h : w.exec (emitOutput options specs language path) = (r, w')) :
    Disk.Touches [path] [path] w.disk w'.disk := by
  obtain ⟨warnings, r', hwrite, -⟩ := exec_emitOutput_writes h
  exact (touches_writeOutput hwrite :)

/-- All languages, by what each of them touches. -/
theorem touches_emitOutputs {options : EmitOptions} {specs : List Specification}
    {paths : List (Language × String)} {r : Except RunError (List Emitted)}
    (h : w.exec (paths.mapM fun p => emitOutput options specs p.1 p.2) = (r, w')) :
    Disk.Touches (paths.map (·.2)) (paths.map (·.2)) w.disk w'.disk := by
  have hstep : ∀ p ∈ paths, ∀ (w₁ w₂ : World ω) r,
      Disk.Touches (paths.map (·.2)) (paths.map (·.2)) w.disk w₁.disk →
      w₁.exec (emitOutput options specs p.1 p.2) = (r, w₂) →
      Disk.Touches (paths.map (·.2)) (paths.map (·.2)) w.disk w₂.disk := by
    intro p hp w₁ w₂ r hw₁ hexec
    have hsub : [p.2] ⊆ paths.map (·.2) := by simpa using ⟨p.1, hp⟩
    exact hw₁.trans ((touches_emitOutput hexec).mono hsub hsub)
  exact (exec_mapM_cases (.refl _ _ _) hstep h).1

theorem touches_keepSettings {config : Config} {target : String}
    {r : Except RunError (Option String)} (h : w.exec (keepSettings config target) = (r, w')) :
    Disk.Touches (if config.saveSettings then [settingsPath target] else []) [] w.disk w'.disk := by
  rcases exec_keepSettings h with
    ⟨-, -, rfl⟩ | ⟨hsave, disk, hwrite, -, rfl⟩ | ⟨-, error, -, -, rfl⟩
  · exact .refl _ _ _
  · rw [if_pos hsave]
    exact Disk.touches_writeText hwrite
  · exact .refl _ _ _

end World

/-! ## The paths of a run -/

/-- The paths of the outputs. -/
def Config.outputs (config : Config) : List String :=
  match config.target with
  | some target => (outputPaths target config.languages).map (·.2)
  | none => []

/-- The path of the settings, whether they are kept or not. -/
def Config.sidecar (config : Config) : List String :=
  match config.target with
  | some target => [settingsPath target]
  | none => []

/-- The path of the settings, if they are kept. -/
def Config.keptSidecar (config : Config) : List String :=
  if config.saveSettings then config.sidecar else []

/-- Two paths that differ, and never lead to the same place. -/
structure PathsApart (p q : String) : Prop where
  ne : p ≠ q
  places : ∀ (disk : Disk) (place : Place), disk.Leads p place → ¬ disk.Leads q place

theorem PathsApart.of_lastSegment? {p q : String}
    (h : Path.lastSegment? p ≠ Path.lastSegment? q) : PathsApart p q := by
  refine ⟨fun heq => h (congrArg _ heq), fun disk place hp hq => h ?_⟩
  rw [← hp.getLast?_eq, ← hq.getLast?_eq]

theorem ne_settingsPath {target : String} {languages : Languages} {p : Language × String}
    (hp : p ∈ outputPaths target languages) : p.2 ≠ settingsPath target := by
  intro heq
  rcases outputPaths_cases target languages with ⟨language, -, hpaths⟩ | hpaths
  · rw [hpaths, List.mem_singleton] at hp
    rw [hp] at heq
    simpa [settingsPath] using congrArg String.length heq
  · rw [hpaths] at hp
    obtain ⟨language, -, rfl⟩ := List.mem_map.mp hp
    rw [settingsPath, String.append_right_inj] at heq
    cases language <;> exact absurd heq (by decide)

/-- Without a target, the extensions alone are the names. -/
theorem lastSegment?_ne_of_empty (languages : Languages) : ∀ p ∈ outputPaths "" languages,
    Path.lastSegment? p.2 ≠ Path.lastSegment? (settingsPath "") := by
  rcases languages with ⟨_ | _, _ | _⟩ <;> decide +kernel

/-- An output is apart from the settings: its last segment is another one, unless it ends in a slash
and leads to no file. -/
theorem outputPaths_apart_sidecar {target : String} {languages : Languages}
    {p : Language × String} (hp : p ∈ outputPaths target languages) :
    PathsApart p.2 (settingsPath target) := by
  refine ⟨ne_settingsPath hp, fun disk place hleads hsettings => ?_⟩
  have hsegments : Path.lastSegment? p.2 ≠ Path.lastSegment? (settingsPath target) := by
    rcases eq_or_ne target "" with rfl | htarget
    · exact lastSegment?_ne_of_empty languages p hp
    · exact outputPaths_apart_settings htarget hp hleads.noSlash
  rw [← hleads.getLast?_eq, ← hsettings.getLast?_eq] at hsegments
  exact hsegments rfl

/-- **The outputs and the settings of a target are apart.** -/
theorem pathsApart (config : Config) :
    (config.outputs ++ config.sidecar).Pairwise PathsApart := by
  rw [Config.outputs, Config.sidecar]
  cases config.target with
  | none => exact List.Pairwise.nil
  | some target =>
    refine List.pairwise_append.mpr ⟨?_, List.pairwise_singleton _ _, ?_⟩
    · exact List.pairwise_map.mpr
        ((outputPaths_apart target config.languages).imp PathsApart.of_lastSegment?)
    · intro path hpath settings hsettings
      obtain ⟨p, hp, rfl⟩ := List.mem_map.mp hpath
      rw [List.mem_singleton.mp hsettings]
      exact outputPaths_apart_sidecar hp

/-! ## The run -/

namespace World

variable {load : Loader (Beside ω)} {config : Config} {target : String}

/-- From where the loader has left the disk, production touches only the outputs. -/
theorem exec_produce_touches {r : Except RunError (List ParsedSource × List Emitted)}
    (htarget : config.target = some target) (h : w.exec (produce load config target) = (r, w')) :
    ∃ loaded, OnlyLoaded load w.disk loaded ∧
      Disk.Touches config.outputs config.outputs loaded w'.disk := by
  rcases exec_produce_cases h with ⟨e, -, hload⟩ | ⟨texts, w₁, warnings, r', hload, hemit, -⟩
  · exact ⟨w'.disk, (exec_loadSources hload).1, .refl _ _ _⟩
  · refine ⟨w₁.disk, (exec_loadSources hload).1, ?_⟩
    rw [Config.outputs, htarget]
    exact (touches_emitOutputs hemit :)

/-- So does a run, but for its settings. -/
theorem exec_run_touches {r : Except RunError Report} (h : w.exec (run load config) = (r, w')) :
    ∃ loaded, OnlyLoaded load w.disk loaded ∧
      Disk.Touches (config.outputs ++ config.keptSidecar) config.outputs loaded w'.disk := by
  rcases exec_run_cases h with ⟨e, -, hprepare⟩ | ⟨target, hprepare, hrest⟩
  · obtain ⟨rfl, -⟩ := exec_prepare_cases hprepare
    exact ⟨w'.disk, .refl, .refl _ _ _⟩
  · obtain ⟨-, htarget, -⟩ := exec_prepare_ok hprepare
    have houtputs := List.subset_append_left config.outputs config.keptSidecar
    rcases hrest with ⟨e, -, hproduce⟩ | ⟨produced, w₁, settings, hproduce, hkeep, -⟩
    · obtain ⟨loaded, hloaded, hframe⟩ := exec_produce_touches htarget hproduce
      exact ⟨loaded, hloaded, hframe.mono houtputs (List.Subset.refl _)⟩
    · obtain ⟨loaded, hloaded, hframe⟩ := exec_produce_touches htarget hproduce
      have hsettings : Disk.Touches config.keptSidecar [] w₁.disk w'.disk := by
        rw [Config.keptSidecar, Config.sidecar, htarget]
        exact touches_keepSettings hkeep
      refine ⟨loaded, hloaded, (hframe.mono houtputs (List.Subset.refl _)).trans ?_⟩
      exact hsettings.mono (List.subset_append_right _ _) (List.nil_subset _)

/-- A run that must not replace its outputs finds none of them, or does nothing. -/
theorem exec_run_guarded {r : Except RunError Report} (h : w.exec (run load config) = (r, w'))
    (hoverride : config.allowOverride = false) :
    (∀ path ∈ config.outputs, w.disk.isPresent path = false) ∨
      w' = w ∧ ((∃ problem, r = .error (.invalidConfig problem)) ∨
        ∃ path, r = .error (.conflict path)) := by
  rcases exec_run_cases h with ⟨e, rfl, hprepare⟩ | ⟨target, hprepare, -⟩
  · obtain ⟨hw, ⟨problem, he⟩ | ⟨path, he⟩ | ⟨target, he, -⟩⟩ := exec_prepare_cases hprepare
    · cases he
      exact .inr ⟨hw, .inl ⟨problem, rfl⟩⟩
    · cases he
      exact .inr ⟨hw, .inr ⟨path, rfl⟩⟩
    · cases he
  · obtain ⟨-, htarget, -, habsent⟩ := exec_prepare_ok hprepare
    rw [Config.outputs, htarget]
    exact .inl (List.forall_mem_map.mpr (habsent hoverride))

end World

/-- **A run touches only its own outputs**, whatever becomes of it. Beside what the loader does,
only the outputs, the directories on the way to them and the settings, if they are kept, are
written. Their paths are apart. If outputs must not replace files, none of them was there, or the
run has stopped at its checks and has done nothing at all. -/
theorem run_touches {load : Loader (Beside ω)} {config : Config} {r : Except RunError Report}
    (h : w.exec (run load config) = (r, w')) :
    (∃ loaded, OnlyLoaded load w.disk loaded ∧ (LeavesDisk load → loaded = w.disk) ∧
      Disk.Touches (config.outputs ++ config.keptSidecar) config.outputs loaded w'.disk) ∧
    (config.outputs ++ config.sidecar).Pairwise PathsApart ∧
    (config.allowOverride = false → (∀ path ∈ config.outputs, w.disk.isPresent path = false) ∨
      w' = w ∧ ((∃ problem, r = .error (.invalidConfig problem)) ∨
        ∃ path, r = .error (.conflict path))) := by
  refine ⟨?_, pathsApart config, fun hoverride => ?_⟩
  · obtain ⟨loaded, hloaded, htouches⟩ := World.exec_run_touches h
    exact ⟨loaded, hloaded, hloaded.eq_of_leavesDisk, htouches⟩
  · exact World.exec_run_guarded h hoverride

/-- A disk with nothing but one source, which is empty. -/
def sourceDisk : World Unit where
  disk := ⟨[(["a.json"], .file "")]⟩
  own := ()

/-- A run of both languages into a directory that is not there. -/
def nestedRun : Config where
  sources := ["a.json"]
  target := some "gen/out"
  saveSettings := true

/-- The directory is created, and both outputs and the settings are written into it. -/
theorem run_touches_nestedRun :
    ∃ report w', sourceDisk.exec (run fileLoader nestedRun) = (.ok report, w') ∧
      Disk.Touches ["gen/out.cs", "gen/out.ts", "gen/out.swg.json"] ["gen/out.cs", "gen/out.ts"]
        sourceDisk.disk w'.disk ∧
      (∀ path ∈ ["gen/out.cs", "gen/out.ts"], sourceDisk.disk.isPresent path = false) ∧
      w'.disk.get? ["gen"] = some .directory := by
  have hkept : (sourceDisk.exec (run fileLoader nestedRun)).1.toOption.map (·.settings) =
      some (some "gen/out.swg.json") := by
    decide +kernel
  obtain ⟨report, hreport, -⟩ := Option.map_eq_some_iff.mp hkept
  have hrun := World.exec_eq_of_fst (eq_ok_of_toOption hreport)
  obtain ⟨⟨loaded, -, hloaded, htouches⟩, -, hguarded⟩ := run_touches hrun
  obtain rfl := hloaded leavesDisk_fileLoader
  refine ⟨report, _, hrun, htouches, ?_, by decide +kernel⟩
  rcases hguarded rfl with habsent | ⟨-, ⟨problem, herror⟩ | ⟨path, herror⟩⟩
  · exact habsent
  · cases herror
  · cases herror

end ClientGen
