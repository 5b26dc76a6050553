import ClientGen.Proofs.Run.Steps
import Mathlib.Logic.Relation

/-!
# What an error leaves behind

A run that stops before its first output has changed nothing on the disk; only the loader may have
done so (`OnlyLoaded`). Two errors come later: an output that cannot be written, and settings that
cannot be kept. The latter end a run that is complete in all else, so its outputs stay:
`run_error` tells the kinds of errors apart, and `not_atomic_blockedDisk` is a run whose error comes
after its output.
-/

namespace ClientGen

open World

variable {ω : Type}

/-- One call of a loader takes a disk to another. -/
def LoadsTo (load : Loader (Beside ω)) (disk disk' : Disk) : Prop :=
  ∃ (source : String) (w : World ω), w.disk = disk ∧ (w.perform (load source)).2.disk = disk'

/-- Calls of a loader, and nothing else, take a disk to another. -/
def OnlyLoaded (load : Loader (Beside ω)) : Disk → Disk → Prop :=
  Relation.ReflTransGen (LoadsTo load)

/-- A loader that writes nothing. -/
def LeavesDisk (load : Loader (Beside ω)) : Prop :=
  ∀ (source : String) (w : World ω), (w.perform (load source)).2.disk = w.disk

theorem OnlyLoaded.eq_of_leavesDisk {load : Loader (Beside ω)} {disk disk' : Disk}
    (h : OnlyLoaded load disk disk') (hload : LeavesDisk load) : disk' = disk := by
  induction h with
  | refl => rfl
  | tail _ hstep ih =>
    obtain ⟨source, w, hw, hw'⟩ := hstep
    rw [← hw', hload source w, hw, ih]

/-- Files are read and not written. -/
theorem leavesDisk_fileLoader : LeavesDisk (fileLoader : Loader (Beside ω)) := by
  intro source w
  rw [fileLoader]
  split <;> rfl

/-- Loading all sources makes only calls of the loader, and stops only at a source. -/
theorem exec_loadSources {w w' : World ω} {load : Loader (Beside ω)} {sources : List String}
    {r : Except RunError (List (String × String))}
    (h : w.exec (sources.mapM (loadSource load)) = (r, w')) :
    OnlyLoaded load w.disk w'.disk ∧
      ∀ e, r = .error e → ∃ source reason, e = .unavailable source reason := by
  have hstep : ∀ source ∈ sources, ∀ (w₁ w₂ : World ω) r, OnlyLoaded load w.disk w₁.disk →
      w₁.exec (loadSource load source) = (r, w₂) → OnlyLoaded load w.disk w₂.disk := by
    intro source _ w₁ w₂ r hw₁ hexec
    rw [exec_loadSource] at hexec
    obtain ⟨-, rfl⟩ := Prod.mk.inj hexec
    exact hw₁.tail ⟨source, w₁, rfl, rfl⟩
  obtain ⟨hloaded, herror⟩ := exec_mapM_cases .refl hstep h
  refine ⟨hloaded, fun e he => ?_⟩
  obtain ⟨source, -, w₁, hstop⟩ := herror e he
  rw [exec_loadSource] at hstop
  obtain ⟨reason, -, rfl⟩ := mapError_eq_error (Prod.mk.inj hstop).1
  exact ⟨source, reason, rfl⟩

/-- Production stops at a source, before it has written anything, or at an output. -/
theorem exec_produce_error {w w' : World ω} {load : Loader (Beside ω)} {config : Config}
    {target : String} {e : RunError} (h : w.exec (produce load config target) = (.error e, w')) :
    (∃ source reason, e = .unavailable source reason ∧ OnlyLoaded load w.disk w'.disk) ∨
      ∃ path error, e = .write path error := by
  rcases exec_produce_cases h with ⟨e', he, hload⟩ | ⟨loaded, w₁, warnings, r', -, hemit, hr⟩
  · cases he
    obtain ⟨hloaded, herror⟩ := exec_loadSources hload
    obtain ⟨source, reason, rfl⟩ := herror e rfl
    exact Or.inl ⟨source, reason, rfl, hloaded⟩
  · rcases r' with e' | emitted
    · cases hr
      obtain ⟨-, herror⟩ := exec_mapM_cases (P := fun _ => True) trivial
        (fun _ _ _ _ _ _ _ => trivial) hemit
      obtain ⟨p, -, w₂, hstop⟩ := herror e rfl
      rcases exec_emitOutput hstop with ⟨error, herr⟩ | ⟨hok, -⟩
      · cases herr
        exact Or.inr ⟨p.2, error, rfl⟩
      · cases hok
    · cases hr

/-- A run without settings is the same up to where they would be kept. -/
theorem exec_run_withoutSettings {w w' : World ω} {load : Loader (Beside ω)} {config : Config}
    {target : String} {produced : List ParsedSource × List Emitted}
    (hprepare : w.exec (prepare config) = (.ok target, w))
    (hproduce : w.exec (produce load config target) = (.ok produced, w')) :
    w.exec (run load { config with saveSettings := false }) =
      (.ok (Report.of produced.1 produced.2), w') := by
  have hprepares : (prepare { config with saveSettings := false } : RunM (Beside ω) String) =
      prepare config := rfl
  have hproduces : produce load { config with saveSettings := false } target =
      produce load config target := rfl
  rw [← hprepares] at hprepare
  rw [← hproduces] at hproduce
  exact exec_run_of_produce hprepare hproduce rfl

/-- **What an error leaves behind.** An error other than those of outputs and of settings leaves the
disk to the loader: it is as it was if the loader writes nothing. An error of the settings ends a
run that would have succeeded without settings, and it leaves the disk as that run does. -/
theorem run_error {load : Loader (Beside ω)} {config : Config} {w w' : World ω} {e : RunError}
    (h : w.exec (run load config) = (.error e, w')) :
    ((∀ path error, e ≠ .write path error) → (∀ error, e ≠ .settings error) →
      OnlyLoaded load w.disk w'.disk ∧ (LeavesDisk load → w'.disk = w.disk)) ∧
    ∀ error, e = .settings error → config.saveSettings = true ∧ ∃ report target reason,
      w.exec (run load { config with saveSettings := false }) = (.ok report, w') ∧
      config.target = some target ∧ error = .inaccessible (settingsPath target) reason ∧
      w'.disk.writeText (settingsPath target) config.settingsText = .error reason := by
  rcases exec_run_cases h with ⟨e', he, hprepare⟩ | ⟨target, hprepare, hrest⟩
  · cases he
    obtain ⟨rfl, ⟨problem, he⟩ | ⟨path, he⟩ | ⟨target, he, -⟩⟩ := exec_prepare_cases hprepare
    · cases he
      exact ⟨fun _ _ => ⟨.refl, fun _ => rfl⟩, fun error herr => (nomatch herr)⟩
    · cases he
      exact ⟨fun _ _ => ⟨.refl, fun _ => rfl⟩, fun error herr => (nomatch herr)⟩
    · cases he
  · rcases hrest with ⟨e', he, hproduce⟩ | ⟨produced, w₁, settings, hproduce, hkeep, hr⟩
    · cases he
      rcases exec_produce_error hproduce with ⟨source, reason, rfl, hloaded⟩ | ⟨path, error, rfl⟩
      · exact ⟨fun _ _ => ⟨hloaded, hloaded.eq_of_leavesDisk⟩, fun error herr => (nomatch herr)⟩
      · exact ⟨fun hwrite => absurd rfl (hwrite path error), fun error herr => (nomatch herr)⟩
    · -- all is written; only the settings are left
      rcases exec_keepSettings hkeep with
        ⟨-, rfl, -⟩ | ⟨-, disk, -, rfl, -⟩ | ⟨hsave, reason, hwrite, rfl, rfl⟩
      · cases hr
      · cases hr
      · cases hr
        refine ⟨fun _ hsettings => absurd rfl (hsettings _), fun error herr => ⟨hsave, ?_⟩⟩
        cases herr
        obtain ⟨-, htarget, -⟩ := exec_prepare_ok hprepare
        have hplain := exec_run_withoutSettings hprepare hproduce
        exact ⟨_, target, reason, hplain, htarget, rfl, hwrite⟩

/-- The error that a result is. -/
def stop? {α : Type} : Except RunError α → Option RunError
  | .ok _ => none
  | .error e => some e

theorem eq_error_of_stop? {α : Type} {r : Except RunError α} {e : RunError}
    (h : stop? r = some e) : r = .error e := by
  cases r with
  | ok a => cases h
  | error e' => exact congrArg Except.error (Option.some.inj h)

/-- A disk with one source, which is empty, and a directory where settings would go. -/
def blockedDisk : World Unit where
  disk := ⟨[(["a.json"], .file ""), (["out.swg.json"], .directory)]⟩
  own := ()

/-- A run of C# that keeps its settings. -/
def keptRun (sources : List String) : Config where
  sources := sources
  target := some "out"
  languages := ⟨true, false⟩
  saveSettings := true

/-- The second of two sources is missing: nothing has been written. -/
theorem run_error_missing :
    ∃ w', blockedDisk.exec (run fileLoader (keptRun ["a.json", "b.json"])) =
        (.error (.unavailable "b.json" FileError.notFound.message), w') ∧
      w'.disk = blockedDisk.disk := by
  have hstop : stop? (blockedDisk.exec (run fileLoader (keptRun ["a.json", "b.json"]))).1 =
      some (.unavailable "b.json" FileError.notFound.message) := by
    decide +kernel
  have hrun := exec_eq_of_fst (eq_error_of_stop? hstop)
  obtain ⟨hbefore, -⟩ := run_error hrun
  refine ⟨_, hrun, (hbefore ?_ ?_).2 leavesDisk_fileLoader⟩
  · intro path error herror
    cases herror
  · intro error herror
    cases herror

/-- **An error after the output**: settings cannot be kept, and the output is there. -/
theorem not_atomic_blockedDisk :
    ∃ e w', blockedDisk.exec (run fileLoader (keptRun ["a.json"])) = (.error e, w') ∧
      (∀ path error, e ≠ .write path error) ∧ w'.disk ≠ blockedDisk.disk ∧
      blockedDisk.disk.isPresent "out.cs" = false ∧ w'.disk.isPresent "out.cs" = true := by
  have hstop : stop? (blockedDisk.exec (run fileLoader (keptRun ["a.json"]))).1 =
      some (.settings (.inaccessible "out.swg.json" .isDirectory)) := by
    decide +kernel
  refine ⟨_, _, exec_eq_of_fst (eq_error_of_stop? hstop), ?_, ?_, ?_, ?_⟩
  · intro path error herror
    cases herror
  · decide +kernel
  · decide +kernel
  · decide +kernel

end ClientGen
