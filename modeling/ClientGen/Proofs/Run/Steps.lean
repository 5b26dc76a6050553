import ClientGen.Proofs.Storage.Disk
import ClientGen.Run.Basic

/-!
# Runs, step by step

A run works on a `World`: a disk, the warnings so far, and a state that the loader has for itself,
so that a loader may answer differently each time it is asked. `World.exec` carries out any part of
a run. This module says once what each part does:

* checks leave the world as it is (`exec_checkConflicts`),
* loading does what the loader does (`exec_loadSource`),
* outputs and settings are written (`exec_writeOutput`, `exec_emitOutput`, `exec_keepSettings`).

`run_eq` cuts a run into its checks (`prepare`), its outputs (`produce`) and its settings;
`exec_run_cases` says how far a run gets, and `exec_run_ok` what one that succeeds has done.
-/

namespace ClientGen

/-- A state beside a storage leaves the storage as it is. -/
instance {σ : Type} {m : Type → Type} [Monad m] [Storage m] : Storage (StateT σ m) where
  isPresent path := StateT.lift (Storage.isPresent path)
  readText path := StateT.lift (Storage.readText path)
  writeText path text := StateT.lift (Storage.writeText path text)
  createDirectories path := StateT.lift (Storage.createDirectories path)

/-- Work on a disk, with a state beside it. -/
abbrev Beside (ω : Type) := StateT ω OnDisk

/-- What a run works on. -/
structure World (ω : Type) where
  disk : Disk
  /-- the state of the loader -/
  own : ω
  /-- the warnings so far -/
  warnings : List Warning := []

/-- What a report says of one language. -/
def emittedOf (generation : Generation) (language : Language) (path : String) : Emitted :=
  ⟨⟨language, path, generation.emitted⟩, generation.failures, generation.diagnostics⟩

namespace World

variable {ω α β : Type} {w w' : World ω}

/-- Carries out a part of a run. -/
def exec (w : World ω) (x : RunM (Beside ω) α) : Except RunError α × World ω :=
  match ((x.run.run w.warnings).run w.own).run w.disk with
  | (((result, warnings), own), disk) => (result, ⟨disk, own, warnings⟩)

theorem exec_eq_of_fst {x : RunM (Beside ω) α} {r : Except RunError α} (h : (w.exec x).1 = r) :
    w.exec x = (r, (w.exec x).2) := by
  rw [← h]

/-! ## Sequences -/

theorem exec_bind (w : World ω) (x : RunM (Beside ω) α) (f : α → RunM (Beside ω) β) :
    w.exec (x >>= f) =
      match w.exec x with
      | (.ok a, w₁) => w₁.exec (f a)
      | (.error e, w₁) => (.error e, w₁) := by
  simp only [exec, ExceptT.run, StateT.run, bind, ExceptT.bind, ExceptT.mk, StateT.bind,
    ExceptT.bindCont]
  rcases x w.warnings w.own w.disk with ⟨⟨⟨error | a, warnings⟩, own⟩, disk⟩ <;> rfl

/-- Inversion for `bind`. -/
theorem exec_bind_cases {x : RunM (Beside ω) α} {f : α → RunM (Beside ω) β} {r : Except RunError β}
    (h : w.exec (x >>= f) = (r, w')) :
    (∃ a w₁, w.exec x = (.ok a, w₁) ∧ w₁.exec (f a) = (r, w')) ∨
      ∃ e, w.exec x = (.error e, w') ∧ r = .error e := by
  rw [exec_bind] at h
  rcases hx : w.exec x with ⟨e | a, w₁⟩
  · rw [hx] at h
    cases h
    exact Or.inr ⟨e, rfl, rfl⟩
  · rw [hx] at h
    exact Or.inl ⟨a, w₁, rfl, h⟩

theorem exec_bind_ok {x : RunM (Beside ω) α} {f : α → RunM (Beside ω) β} {b : β}
    (h : w.exec (x >>= f) = (.ok b, w')) :
    ∃ a w₁, w.exec x = (.ok a, w₁) ∧ w₁.exec (f a) = (.ok b, w') := by
  rcases exec_bind_cases h with hok | ⟨e, -, he⟩
  · exact hok
  · cases he

/-- A traversal that succeeds goes on from where its first member has left the world. -/
theorem exec_mapM_cons_ok {f : α → RunM (Beside ω) β} {a : α} {l : List α} {bs : List β}
    (h : w.exec ((a :: l).mapM f) = (.ok bs, w')) :
    ∃ b rest w₁, w.exec (f a) = (.ok b, w₁) ∧ w₁.exec (l.mapM f) = (.ok rest, w') ∧
      bs = b :: rest := by
  rw [List.mapM_cons] at h
  obtain ⟨b, w₁, ha, h⟩ := exec_bind_ok h
  obtain ⟨rest, w₂, hl, h⟩ := exec_bind_ok h
  cases h
  exact ⟨b, rest, w₁, ha, hl, rfl⟩

/-- What every member of a traversal keeps, the traversal keeps, and it stops only where one of them
does. -/
theorem exec_mapM_cases {f : α → RunM (Beside ω) β} {P : World ω → Prop} {l : List α} :
    ∀ {w : World ω} {r : Except RunError (List β)}, P w →
      (∀ a ∈ l, ∀ w w' r, P w → w.exec (f a) = (r, w') → P w') →
      w.exec (l.mapM f) = (r, w') →
      P w' ∧ ∀ e, r = .error e → ∃ a ∈ l, ∃ w₁ : World ω, w₁.exec (f a) = (.error e, w') := by
  induction l with
  | nil =>
    intro w r hw _ h
    cases h
    exact ⟨hw, fun e he => (nomatch he)⟩
  | cons a l ih =>
    intro w r hw hstep h
    rw [List.mapM_cons] at h
    rcases exec_bind_cases h with ⟨b, w₁, ha, h⟩ | ⟨e, ha, rfl⟩
    · have hw₁ := hstep a List.mem_cons_self w w₁ _ hw ha
      have htail := fun a' ha' => hstep a' (List.mem_cons_of_mem a ha')
      rcases exec_bind_cases h with ⟨rest, w₂, hl, h⟩ | ⟨e, hl, rfl⟩
      · cases h
        exact ⟨(ih hw₁ htail hl).1, fun e he => (nomatch he)⟩
      · obtain ⟨hw', herror⟩ := ih hw₁ htail hl
        refine ⟨hw', fun e' he' => ?_⟩
        cases he'
        obtain ⟨a', ha', hstop⟩ := herror e rfl
        exact ⟨a', List.mem_cons_of_mem a ha', hstop⟩
    · refine ⟨hstep a List.mem_cons_self w w' _ hw ha, fun e' he' => ?_⟩
      cases he'
      exact ⟨a, List.mem_cons_self, w, ha⟩

/-! ## Parts of a run -/

/-- Carries out work of the loader or of the storage. -/
def perform (w : World ω) (x : Beside ω α) : α × World ω :=
  let out := (x.run w.own).run w.disk
  (out.1.1, ⟨out.2, out.1.2, w.warnings⟩)

theorem exec_lift (w : World ω) (x : Beside ω α) :
    w.exec (liftM x) = (.ok (w.perform x).1, (w.perform x).2) := rfl

theorem exec_orStop {ε : Type} (w : World ω) (toError : ε → RunError)
    (x : Beside ω (Except ε α)) :
    w.exec (orStop toError x) = ((w.perform x).1.mapError toError, (w.perform x).2) := by
  rw [orStop, exec_bind, exec_lift]
  rcases (w.perform x).1 with e | a <;> rfl

theorem perform_storage (w : World ω) (x : OnDisk α) :
    w.perform (StateT.lift x) = ((x.run w.disk).1, { w with disk := (x.run w.disk).2 }) := rfl

/-- What cannot be written leaves the world as it is. -/
theorem perform_writeText (w : World ω) (path text : String) :
    w.perform (Storage.writeText path text) =
      match w.disk.writeText path text with
      | .ok disk => (.ok (), { w with disk })
      | .error e => (.error e, w) := by
  have hattempt : (Storage.writeText path text : OnDisk _).run w.disk =
      match w.disk.writeText path text with
      | .ok disk => (.ok (), disk)
      | .error e => (.error e, w.disk) := rfl
  refine (perform_storage w _).trans ?_
  rw [hattempt]
  rcases w.disk.writeText path text with e | disk <;> rfl

theorem exec_warnAll (w : World ω) (warnings : List Warning) :
    w.exec (warnAll warnings) = (.ok (), { w with warnings := w.warnings ++ warnings }) := rfl

/-- Looking for outputs in the way stops at the first one, and changes nothing. -/
theorem exec_checkConflicts (w : World ω) (paths : List (Language × String)) :
    w.exec (checkConflicts paths) =
      match paths.find? fun p => w.disk.isPresent p.2 with
      | some p => (.error (.conflict p.2), w)
      | none => (.ok (), w) := by
  induction paths with
  | nil => rfl
  | cons p paths ih =>
    have hperform : w.perform (Storage.isPresent p.2) = (w.disk.isPresent p.2, w) := rfl
    rw [checkConflicts, exec_bind, exec_lift, hperform, List.find?_cons]
    rcases w.disk.isPresent p.2 with _ | _
    · exact ih
    · rfl

theorem exec_loadSource (w : World ω) (load : Loader (Beside ω)) (source : String) :
    w.exec (loadSource load source) =
      (((w.perform (load source)).1.map ((source, ·))).mapError (.unavailable source),
        (w.perform (load source)).2) := by
  rw [loadSource, exec_bind, exec_orStop]
  rcases (w.perform (load source)).1 with reason | text <;> rfl

/-- Writing a file stops with an error of its path, or the text is there after it. -/
theorem exec_orStop_writeText {path text : String} {toError : FileError → RunError}
    {r : Except RunError Unit}
    (h : w.exec (orStop toError (Storage.writeText path text)) = (r, w')) :
    (∃ disk, w.disk.writeText path text = .ok disk ∧ r = .ok () ∧ w' = { w with disk }) ∨
      ∃ error, w.disk.writeText path text = .error error ∧ r = .error (toError error) ∧ w' = w := by
  rw [exec_orStop, perform_writeText] at h
  split at h
  · rename_i disk hwrite
    cases h
    exact Or.inl ⟨disk, hwrite, rfl, rfl⟩
  · rename_i error hwrite
    cases h
    exact Or.inr ⟨error, hwrite, rfl, rfl⟩

/-- Creating directories goes on or stops with an error, and what has been created stays. -/
theorem exec_orStop_createDirectories {path : String} {toError : FileError → RunError}
    {r : Except RunError Unit}
    (h : w.exec (orStop toError (Storage.createDirectories path)) = (r, w')) :
    w' = { w with disk := (w.disk.createDirectories path).2 } ∧
      (r = .ok () ∨ ∃ error, r = .error (toError error)) := by
  have hperform : w.perform (Storage.createDirectories path) =
      ((w.disk.createDirectories path).1, { w with disk := (w.disk.createDirectories path).2 }) :=
    perform_storage w (Storage.createDirectories path)
  rw [exec_orStop, hperform] at h
  obtain ⟨rfl, rfl⟩ := Prod.mk.inj h
  refine ⟨rfl, ?_⟩
  rcases (w.disk.createDirectories path).1 with error | _
  · exact Or.inr ⟨error, rfl⟩
  · exact Or.inl rfl

/-- An output is written, or the run stops there. -/
theorem exec_writeOutput {path content : String} {r : Except RunError Unit}
    (h : w.exec (writeOutput path content) = (r, w')) :
    (∃ error, r = .error (.write path error)) ∨
      r = .ok () ∧ Disk.Keeps [path] w.disk w'.disk ∧ w'.disk.Holds path content := by
  -- what is left to do once the directories are there
  have hwrite : ∀ {w₁ : World ω}, Disk.Keeps [] w.disk w₁.disk →
      w₁.exec (orStop (.write path) (Storage.writeText path content)) = (r, w') →
      (∃ error, r = .error (.write path error)) ∨
        r = .ok () ∧ Disk.Keeps [path] w.disk w'.disk ∧ w'.disk.Holds path content := by
    intro w₁ hk h
    rcases exec_orStop_writeText h with ⟨disk, htext, rfl, rfl⟩ | ⟨error, -, rfl, -⟩
    · obtain ⟨hkeeps, hholds⟩ := Disk.keeps_writeText htext
      exact Or.inr ⟨rfl, (hk.mono (List.nil_subset _)).trans hkeeps, hholds⟩
    · exact Or.inl ⟨error, rfl⟩
  rw [writeOutput] at h
  split at h
  · rename_i parent _
    rcases exec_bind_cases h with ⟨_, w₁, hdirs, h⟩ | ⟨error, hdirs, rfl⟩
    · obtain ⟨rfl, -⟩ := exec_orStop_createDirectories hdirs
      exact hwrite (Disk.keeps_createDirectories w.disk _) h
    · rcases (exec_orStop_createDirectories hdirs).2 with hok | ⟨error', herror⟩
      · cases hok
      · cases herror
        exact Or.inl ⟨error', rfl⟩
  · exact hwrite (Disk.Keeps.refl [] w.disk) h

/-- Emission does nothing to the disk but to write its output. -/
theorem exec_emitOutput_writes {options : EmitOptions} {specs : List Specification}
    {language : Language} {path : String} {r : Except RunError Emitted}
    (h : w.exec (emitOutput options specs language path) = (r, w')) :
    ∃ warnings r', World.exec { w with warnings }
        (writeOutput path ((generate language options specs).2.content.getD "")) = (r', w') ∧
      r = r'.map fun _ => emittedOf (generate language options specs).2 language path := by
  rw [emitOutput] at h
  generalize generate language options specs = generated at h ⊢
  obtain ⟨warnings, generation⟩ := generated
  -- the warnings before the output is written change nothing else
  have hwritten : ∃ warnings', World.exec { w with warnings := warnings' } (do
      writeOutput path (generation.content.getD "")
      return emittedOf generation language path) = (r, w') := by
    rw [exec_bind, exec_warnAll] at h
    dsimp only at h
    split at h
    · rw [exec_bind, exec_warnAll] at h
      exact ⟨_, h⟩
    · exact ⟨_, h⟩
  obtain ⟨warnings', h⟩ := hwritten
  rcases exec_bind_cases h with ⟨_, w₁, hwrite, h⟩ | ⟨error, hwrite, rfl⟩
  · cases h
    exact ⟨warnings', _, hwrite, rfl⟩
  · exact ⟨warnings', _, hwrite, rfl⟩

/-- One language is emitted and written, or the run stops there. -/
theorem exec_emitOutput {options : EmitOptions} {specs : List Specification} {language : Language}
    {path : String} {r : Except RunError Emitted}
    (h : w.exec (emitOutput options specs language path) = (r, w')) :
    (∃ error, r = .error (.write path error)) ∨
      r = .ok (emittedOf (generate language options specs).2 language path) ∧
        Disk.Keeps [path] w.disk w'.disk ∧
        w'.disk.Holds path ((generate language options specs).2.content.getD "") := by
  obtain ⟨warnings, r', hwrite, rfl⟩ := exec_emitOutput_writes h
  rcases exec_writeOutput hwrite with ⟨error, rfl⟩ | ⟨rfl, hkept⟩
  · exact Or.inl ⟨error, rfl⟩
  · exact Or.inr ⟨rfl, hkept⟩

/-- Settings are kept when that is wanted. What cannot be written leaves the world as it is. -/
theorem exec_keepSettings {config : Config} {target : String} {r : Except RunError (Option String)}
    (h : w.exec (keepSettings config target) = (r, w')) :
    (config.saveSettings = false ∧ r = .ok none ∧ w' = w) ∨
    (config.saveSettings = true ∧ ∃ disk,
      w.disk.writeText (settingsPath target) config.settingsText = .ok disk ∧
      r = .ok (some (settingsPath target)) ∧ w' = { w with disk }) ∨
    (config.saveSettings = true ∧ ∃ error,
      w.disk.writeText (settingsPath target) config.settingsText = .error error ∧
      r = .error (.settings (.inaccessible (settingsPath target) error)) ∧ w' = w) := by
  rw [keepSettings] at h
  split at h
  · rename_i hsave
    have hperform : w.perform (saveSettings (settingsPath target) config) =
        ((w.perform (Storage.writeText (settingsPath target) config.settingsText)).1.mapError
            (.inaccessible (settingsPath target)),
          (w.perform (Storage.writeText (settingsPath target) config.settingsText)).2) := rfl
    rw [exec_bind, exec_orStop, hperform, perform_writeText] at h
    rcases hwrite : w.disk.writeText (settingsPath target) config.settingsText with error | disk
    · rw [hwrite] at h
      cases h
      exact Or.inr (Or.inr ⟨hsave, error, rfl, rfl, rfl⟩)
    · rw [hwrite] at h
      cases h
      exact Or.inr (Or.inl ⟨hsave, disk, rfl, rfl, rfl⟩)
  · rename_i hsave
    cases h
    exact Or.inl ⟨by simpa using hsave, rfl, rfl⟩

end World

/-! ## A run in three parts -/

section

variable {m : Type → Type} [Monad m] [Storage m]

/-- What is checked before a run; the answer is its target. -/
def prepare (config : Config) : RunM m String := do
  let target ← config.checkedTarget
  unless config.allowOverride do checkConflicts (outputPaths target config.languages)
  return target

/-- Loads and parses the sources, and writes every language. -/
def produce (load : Loader m) (config : Config) (target : String) :
    RunM m (List ParsedSource × List Emitted) := do
  let loaded ← config.sources.mapM (loadSource load)
  warnAll (parseBatch loaded).1
  let emitted ← (outputPaths target config.languages).mapM fun p =>
    emitOutput config.emitOptions (specificationsOf (parseBatch loaded).2) p.1 p.2
  return ((parseBatch loaded).2, emitted)

/-- A run is checked first, and its settings are kept last. -/
theorem run_eq [LawfulMonad m] (load : Loader m) (config : Config) :
    run load config = do
      let target ← prepare config
      let produced ← produce load config target
      let settings ← keepSettings config target
      return { Report.of produced.1 produced.2 with settings } := by
  rw [run, prepare]
  simp only [produce, bind_assoc]
  refine bind_congr fun target => ?_
  by_cases hoverride : config.allowOverride
  · simp only [hoverride, if_true, pure_bind]
  · simp only [hoverride, if_false, bind_assoc, pure_bind, Bool.false_eq_true]

theorem Config.checkedTarget_cases (config : Config) :
    (∃ problem, config.checkedTarget = .error (.invalidConfig problem)) ∨
      ∃ target, config.checkedTarget = .ok target ∧ config.target = some target ∧
        target ≠ "" := by
  rw [checkedTarget]
  split
  · exact Or.inl ⟨_, rfl⟩
  · split
    · exact Or.inl ⟨_, rfl⟩
    · split
      · rename_i target htarget
        split
        · exact Or.inl ⟨_, rfl⟩
        · rename_i hblank
          refine Or.inr ⟨target, rfl, htarget, ?_⟩
          rintro rfl
          exact hblank rfl
      · exact Or.inl ⟨_, rfl⟩

end

namespace World

variable {ω : Type} {w w' : World ω} {load : Loader (Beside ω)} {config : Config} {target : String}

/-- Checks leave the world as it is, and find nothing in the way of the outputs of a run that must
not replace it. -/
theorem exec_prepare_cases {r : Except RunError String} (h : w.exec (prepare config) = (r, w')) :
    w' = w ∧ ((∃ problem, r = .error (.invalidConfig problem)) ∨
      (∃ path, r = .error (.conflict path)) ∨
      ∃ target, r = .ok target ∧ config.target = some target ∧ target ≠ "" ∧
        (config.allowOverride = false → ∀ p ∈ outputPaths target config.languages,
          w.disk.isPresent p.2 = false)) := by
  rw [prepare, exec_bind] at h
  rcases config.checkedTarget_cases with ⟨problem, hcheck⟩ | ⟨target, hcheck, htarget, hne⟩
  · rw [hcheck] at h
    cases h
    exact ⟨rfl, Or.inl ⟨problem, rfl⟩⟩
  · rw [hcheck] at h
    change w.exec (if config.allowOverride = true then _ else _) = _ at h
    split at h
    · rename_i hoverride
      cases h
      refine ⟨rfl, Or.inr (Or.inr ⟨target, rfl, htarget, hne, fun hfalse => ?_⟩)⟩
      rw [hoverride] at hfalse
      cases hfalse
    · rw [exec_bind, exec_checkConflicts] at h
      rcases hfind : (outputPaths target config.languages).find? fun p => w.disk.isPresent p.2
        with _ | p
      · rw [hfind] at h
        cases h
        refine ⟨rfl, Or.inr (Or.inr ⟨target, rfl, htarget, hne, fun _ p hp => ?_⟩)⟩
        simpa using List.find?_eq_none.mp hfind p hp
      · rw [hfind] at h
        cases h
        exact ⟨rfl, Or.inr (Or.inl ⟨p.2, rfl⟩)⟩

theorem exec_prepare_ok (h : w.exec (prepare config) = (.ok target, w')) :
    w' = w ∧ config.target = some target ∧ target ≠ "" ∧
      (config.allowOverride = false → ∀ p ∈ outputPaths target config.languages,
        w.disk.isPresent p.2 = false) := by
  obtain ⟨hw, ⟨_, he⟩ | ⟨_, he⟩ | ⟨_, hok, htarget⟩⟩ := exec_prepare_cases h
  · cases he
  · cases he
  · cases hok
    exact ⟨hw, htarget⟩

/-- The three parts put together, for a run that gets to its settings. -/
theorem exec_run_of_produce {produced : List ParsedSource × List Emitted} {w₁ : World ω}
    {r : Except RunError (Option String)} (hprepare : w.exec (prepare config) = (.ok target, w))
    (hproduce : w.exec (produce load config target) = (.ok produced, w₁))
    (hkeep : w₁.exec (keepSettings config target) = (r, w')) :
    w.exec (run load config) =
      (r.map fun settings => { Report.of produced.1 produced.2 with settings }, w') := by
  rw [run_eq, exec_bind, hprepare]
  dsimp only
  rw [exec_bind, hproduce]
  dsimp only
  rw [exec_bind, hkeep]
  rcases r with e | settings <;> rfl

/-- **How far a run gets**: not past its checks, not past its outputs, or to its settings. -/
theorem exec_run_cases {r : Except RunError Report} (h : w.exec (run load config) = (r, w')) :
    (∃ e, r = .error e ∧ w.exec (prepare config) = (.error e, w')) ∨
    ∃ target, w.exec (prepare config) = (.ok target, w) ∧
      ((∃ e, r = .error e ∧ w.exec (produce load config target) = (.error e, w')) ∨
      ∃ produced w₁ settings, w.exec (produce load config target) = (.ok produced, w₁) ∧
        w₁.exec (keepSettings config target) = (settings, w') ∧
        r = settings.map fun settings =>
          { Report.of produced.1 produced.2 with settings }) := by
  have hrun := h
  rw [run_eq] at hrun
  rcases exec_bind_cases hrun with ⟨target, w₁, hprepare, hrest⟩ | ⟨e, hprepare, he⟩
  · obtain ⟨rfl, -⟩ := exec_prepare_ok hprepare
    refine Or.inr ⟨target, hprepare, ?_⟩
    rcases exec_bind_cases hrest with ⟨produced, w₂, hproduce, -⟩ | ⟨e, hproduce, he⟩
    · obtain ⟨settings, w₃, hkeep⟩ : ∃ r w₃, w₂.exec (keepSettings config target) = (r, w₃) :=
        ⟨_, _, rfl⟩
      have hwhole := exec_run_of_produce hprepare hproduce hkeep
      rw [h] at hwhole
      obtain ⟨rfl, rfl⟩ := Prod.mk.inj hwhole
      exact Or.inr ⟨produced, w₂, settings, hproduce, hkeep, rfl⟩
    · exact Or.inl ⟨e, he, hproduce⟩
  · exact Or.inl ⟨e, he, hprepare⟩

/-- Production stops at a source, or goes on to write every language. -/
theorem exec_produce_cases {r : Except RunError (List ParsedSource × List Emitted)}
    (h : w.exec (produce load config target) = (r, w')) :
    (∃ e, r = .error e ∧ w.exec (config.sources.mapM (loadSource load)) = (.error e, w')) ∨
    ∃ loaded w₁ warnings r',
      w.exec (config.sources.mapM (loadSource load)) = (.ok loaded, w₁) ∧
      World.exec { w₁ with warnings } ((outputPaths target config.languages).mapM fun p =>
        emitOutput config.emitOptions (specificationsOf (parseBatch loaded).2) p.1 p.2) = (r', w') ∧
      r = r'.map fun emitted => ((parseBatch loaded).2, emitted) := by
  rw [produce] at h
  rcases exec_bind_cases h with ⟨loaded, w₁, hload, h⟩ | ⟨e, hload, rfl⟩
  · rw [exec_bind, exec_warnAll] at h
    refine Or.inr ⟨loaded, w₁, w₁.warnings ++ (parseBatch loaded).1, ?_⟩
    rcases exec_bind_cases h with ⟨emitted, w₂, hemit, h⟩ | ⟨e, hemit, rfl⟩
    · cases h
      exact ⟨.ok emitted, hload, hemit, rfl⟩
    · exact ⟨.error e, hload, hemit, rfl⟩
  · exact Or.inl ⟨e, rfl, hload⟩

/-- **A run that succeeds** has loaded all sources, written every language and kept its settings. -/
theorem exec_run_ok {report : Report} (h : w.exec (run load config) = (.ok report, w')) :
    ∃ target loaded emitted settings w₁ w₂ warnings, target ≠ "" ∧
      w.exec (config.sources.mapM (loadSource load)) = (.ok loaded, w₁) ∧
      World.exec { w₁ with warnings } ((outputPaths target config.languages).mapM fun p =>
        emitOutput config.emitOptions (specificationsOf (parseBatch loaded).2) p.1 p.2) =
        (.ok emitted, w₂) ∧
      w₂.exec (keepSettings config target) = (.ok settings, w') ∧
      report = { Report.of (parseBatch loaded).2 emitted with settings } := by
  rcases exec_run_cases h with ⟨e, he, -⟩ | ⟨target, hprepare, ⟨e, he, -⟩ | hdone⟩
  · cases he
  · cases he
  · obtain ⟨produced, w₂, settings, hproduce, hkeep, hreport⟩ := hdone
    obtain ⟨settings, rfl, rfl⟩ := map_eq_ok hreport.symm
    obtain ⟨-, -, hne, -⟩ := exec_prepare_ok hprepare
    rcases exec_produce_cases hproduce with ⟨e, he, -⟩ | hwritten
    · cases he
    · obtain ⟨loaded, w₁, warnings, r, hload, hemit, hr⟩ := hwritten
      obtain ⟨emitted, rfl, rfl⟩ := map_eq_ok hr.symm
      exact ⟨target, loaded, emitted, settings, w₁, w₂, warnings, hne, hload, hemit, hkeep, rfl⟩

end World

end ClientGen
