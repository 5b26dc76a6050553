import ClientGen.Proofs.Emission.Batch
import ClientGen.Proofs.Resolve.Parts
import ClientGen.Proofs.Run.Steps
import Mathlib.Data.List.Nodup

/-!
# No source is lost

Each source of a run is accounted for once at every stage, also where sources are listed twice.
Sources are told apart by their positions.

* `Splits` — a list is split in two, each side in order; `splits_outcomes` splits by what comes of
  the members, and `Splits.of_forall₂` carries a split over to related lists.
* **Stages**: parsing (`splits_parseBatch`), emission (`splits_generate`), writing
  (`exec_emitOutputs`), where the paths of one target are apart (`outputPaths_apart`).
* `run_accounts` puts the stages together.
-/

namespace ClientGen

/-! ## Splits -/

/-- A list is split in two: each member goes to one side, and both sides keep the order. -/
inductive Splits {α : Type} : (all left right : List α) → Prop
  | nil : Splits [] [] []
  | left {a : α} {all left right : List α} :
      Splits all left right → Splits (a :: all) (a :: left) right
  | right {a : α} {all left right : List α} :
      Splits all left right → Splits (a :: all) left (a :: right)

/-- A split carries over to a list of related members. -/
theorem Splits.of_forall₂ {α β : Type} {R : α → β → Prop} {all left right : List β}
    (h : Splits all left right) : ∀ {l : List α}, List.Forall₂ R l all →
      ∃ left' right', Splits l left' right' ∧ List.Forall₂ R left' left ∧
        List.Forall₂ R right' right := by
  induction h with
  | nil =>
    intro l hl
    cases hl
    exact ⟨[], [], .nil, .nil, .nil⟩
  | left _ ih =>
    intro l hl
    cases hl with
    | cons hab hl =>
      obtain ⟨left', right', hsplit, hleft, hright⟩ := ih hl
      exact ⟨_ :: left', right', .left hsplit, .cons hab hleft, hright⟩
  | right _ ih =>
    intro l hl
    cases hl with
    | cons hab hl =>
      obtain ⟨left', right', hsplit, hleft, hright⟩ := ih hl
      exact ⟨left', _ :: right', .right hsplit, hleft, .cons hab hright⟩

/-! ## Parsing -/

/-- A source with its text, at its position in the configuration. -/
abbrev Position := (String × String) × Nat

/-- What comes of parsing a source. -/
def Position.outcome (p : Position) : Except DocumentError Specification :=
  (Specification.parse p.1.1 p.1.2).outcome

/-- **Parsing splits the sources** into those that are reported and those that are specifications,
by induction on them. -/
theorem splits_parseBatch (positions : List Position) :
    ∃ failed rest, Splits positions failed rest ∧
      List.Forall₂ (fun p failure => failure.1 = p.1.1 ∧ Position.outcome p = .error failure.2)
        failed (parseFailuresOf (parseBatch (positions.map (·.1))).2) ∧
      List.Forall₂ (fun p spec => Position.outcome p = .ok spec)
        rest (specificationsOf (parseBatch (positions.map (·.1))).2) := by
  induction positions with
  | nil => exact ⟨[], [], .nil, .nil, .nil⟩
  | cons p positions ih =>
    obtain ⟨failed, rest, hsplit, hfailed, hrest⟩ := ih
    have hcons : (parseBatch ((p :: positions).map (·.1))).2 =
        ⟨p.1.1, Position.outcome p⟩ :: (parseBatch (positions.map (·.1))).2 := rfl
    rw [hcons, parseFailuresOf, specificationsOf, List.filterMap_cons, List.filterMap_cons]
    rcases hp : Position.outcome p with error | spec
    · exact ⟨p :: failed, rest, .left hsplit, .cons ⟨rfl, hp⟩ hfailed, hrest⟩
    · exact ⟨failed, p :: rest, .right hsplit, hfailed, .cons hp hrest⟩

/-! ## Emission -/

/-- Verdicts split a batch. -/
theorem splits_judged (judged : List (Specification × Option EmitError)) :
    Splits (judged.map (·.1)) (withoutError judged) ((withError judged).map (·.1)) := by
  induction judged with
  | nil => exact .nil
  | cons entry judged ih =>
    obtain ⟨spec, _ | error⟩ := entry
    · exact .left ih
    · exact .right ih

/-- What a batch reports splits its specifications, for any text that is there exactly when
something was emitted. -/
theorem splits_generation {σ π : Type} (e : Emitter σ π) (names : σ) (specs : List Specification)
    {content : Option String} (hnone : content = none ↔ (emitBatch e names specs).emitted = []) :
    ∃ ok bad, Splits specs ok bad ∧
      ((emitBatch e names specs).generation content).emitted = ok.map (·.sourceId) ∧
      ((emitBatch e names specs).generation content).failures.map (·.sourceId) =
        bad.map (·.sourceId) ∧
      (content = none ↔ ok = []) := by
  obtain ⟨judged, rfl, hok, hbad⟩ := emitBatch_split e names specs
  refine ⟨withoutError judged, (withError judged).map (·.1), splits_judged judged, ?_, ?_, ?_⟩
  · rw [← hok, List.map_map]
    rfl
  · rw [← hbad, List.map_map, Batch.generation, List.map_map]
    rfl
  · rw [hnone, ← hok, List.map_eq_nil_iff]

/-- **Emission splits the specifications** into those in the document and those that are reported,
and there is a document unless nothing is in it. -/
theorem splits_generate (language : Language) (options : EmitOptions)
    (specs : List Specification) :
    ∃ ok bad, Splits specs ok bad ∧
      (generate language options specs).2.emitted = ok.map (·.sourceId) ∧
      (generate language options specs).2.failures.map (·.sourceId) = bad.map (·.sourceId) ∧
      ((generate language options specs).2.content = none ↔ ok = []) := by
  cases language with
  | csharp =>
    exact splits_generation (CSharp.emitter options) (CSharp.withSupport .empty) specs
      (CSharp.content?_eq_none options (CSharp.batch options specs .empty))
  | typescript =>
    exact splits_generation TypeScript.emitter ⟨.empty, []⟩ specs
      (TypeScript.content?_eq_none options (TypeScript.batch specs .empty))

/-! ## Writing -/

theorem Languages.nodup_toList (languages : Languages) : languages.toList.Nodup := by
  rw [toList]
  exact List.Nodup.filter _ (by decide)

/-- A language is written at the target, if it is the only one, or at the target with its extension.
-/
theorem outputPaths_cases (target : String) (languages : Languages) :
    (∃ language, languages.toList = [language] ∧
      outputPaths target languages = [(language, target)]) ∨
    outputPaths target languages =
      languages.toList.map fun language => (language, target ++ ("." ++ language.extension)) := by
  rw [outputPaths]
  split
  · rename_i language hlist
    split
    · exact Or.inl ⟨language, hlist, rfl⟩
    · rw [hlist, Path.withExtension, String.append_assoc]
      exact Or.inr rfl
  · simp only [Path.withExtension, String.append_assoc]
    exact Or.inr trivial

theorem map_fst_outputPaths (target : String) (languages : Languages) :
    (outputPaths target languages).map (·.1) = languages.toList := by
  rcases outputPaths_cases target languages with ⟨language, hlist, hpaths⟩ | hpaths
  · rw [hpaths, hlist]
    rfl
  · rw [hpaths, List.map_map]
    exact List.map_id _

theorem lastSegment?_extension (target : String) : ∃ base : String,
    (∀ language : Language, Path.lastSegment? (target ++ ("." ++ language.extension)) =
      some (base ++ ("." ++ language.extension))) ∧
    Path.lastSegment? (settingsPath target) = some (base ++ ".swg.json") ∧
    (target ≠ "" → Path.endsInSlash target = false → Path.lastSegment? target = some base) := by
  obtain ⟨base, hbase⟩ := Path.lastSegment?_append target
  refine ⟨base, fun language => ?_, ?_, fun hne hslash => ?_⟩
  · cases language with
    | csharp => exact hbase _ (by decide) fun h => absurd h (by decide)
    | typescript => exact hbase _ (by decide) fun h => absurd h (by decide)
  · exact hbase _ (by decide) fun h => absurd h (by decide)
  · simpa using hbase "" (by decide) fun _ => ⟨hne, hslash⟩

/-- **The outputs of a target have names of their own**, -/
theorem outputPaths_apart (target : String) (languages : Languages) :
    (outputPaths target languages).Pairwise fun p q =>
      Path.lastSegment? p.2 ≠ Path.lastSegment? q.2 := by
  rcases outputPaths_cases target languages with ⟨language, -, hpaths⟩ | hpaths
  · rw [hpaths]
    exact List.pairwise_singleton _ _
  · obtain ⟨base, hext, -⟩ := lastSegment?_extension target
    rw [hpaths, List.pairwise_map]
    refine languages.nodup_toList.imp fun {a b} hne heq => hne ?_
    rw [hext, hext, Option.some.injEq, String.append_right_inj] at heq
    cases a <;> cases b <;> first | rfl | exact absurd heq (by decide)

/-- and none of them is the name of the settings. -/
theorem outputPaths_apart_settings {target : String} (htarget : target ≠ "")
    {languages : Languages} {p : Language × String} (hp : p ∈ outputPaths target languages)
    (hslash : Path.endsInSlash p.2 = false) :
    Path.lastSegment? p.2 ≠ Path.lastSegment? (settingsPath target) := by
  obtain ⟨base, hext, hsettings, hself⟩ := lastSegment?_extension target
  rcases outputPaths_cases target languages with ⟨language, -, hpaths⟩ | hpaths
  · rw [hpaths, List.mem_singleton] at hp
    rw [hp] at hslash
    rw [hp, hself htarget hslash, hsettings]
    intro heq
    have hlength := congrArg String.length (Option.some.inj heq)
    simp at hlength
  · rw [hpaths] at hp
    obtain ⟨language, -, rfl⟩ := List.mem_map.mp hp
    rw [hext, hsettings]
    intro heq
    rw [Option.some.injEq, String.append_right_inj] at heq
    cases language <;> exact absurd heq (by decide)

/-- Every language is written at its path. -/
theorem exec_emitOutputs {ω : Type} {options : EmitOptions} {specs : List Specification}
    {paths : List (Language × String)} :
    ∀ {w w' : World ω} {emitted : List Emitted},
      paths.Pairwise (fun p q => Path.lastSegment? p.2 ≠ Path.lastSegment? q.2) →
      w.exec (paths.mapM fun p => emitOutput options specs p.1 p.2) = (.ok emitted, w') →
      emitted = paths.map (fun p => emittedOf (generate p.1 options specs).2 p.1 p.2) ∧
        Disk.Keeps (paths.map (·.2)) w.disk w'.disk ∧
        ∀ p ∈ paths, w'.disk.Holds p.2 ((generate p.1 options specs).2.content.getD "") := by
  induction paths with
  | nil =>
    intro w w' emitted _ h
    cases h
    exact ⟨rfl, Disk.Keeps.refl [] w.disk, fun p hp => (nomatch hp)⟩
  | cons p paths ih =>
    intro w w' emitted hapart h
    obtain ⟨hp, hpaths⟩ := List.pairwise_cons.mp hapart
    obtain ⟨first, rest, w₁, hfirst, hrest, rfl⟩ := World.exec_mapM_cons_ok h
    obtain ⟨rfl, hkeeps, hholds⟩ := ih hpaths hrest
    rcases World.exec_emitOutput hfirst with ⟨error, herror⟩ | ⟨hok, hkept, hheld⟩
    · cases herror
    · cases hok
      refine ⟨rfl, (hkept.mono (by simp)).trans (hkeeps.mono (by simp)), fun q hq => ?_⟩
      rcases List.mem_cons.mp hq with rfl | hq
      · -- what is written later is named differently
        refine hheld.mono hkeeps fun path hpath => ?_
        obtain ⟨q', hq', rfl⟩ := List.mem_map.mp hpath
        exact hp q' hq'
      · exact hholds q hq

/-- Settings take nothing away but what is named like them. -/
theorem keeps_keepSettings {ω : Type} {config : Config} {target : String} {w w' : World ω}
    {settings : Option String} (h : w.exec (keepSettings config target) = (.ok settings, w')) :
    Disk.Keeps [settingsPath target] w.disk w'.disk := by
  rcases World.exec_keepSettings h with
    ⟨-, -, rfl⟩ | ⟨-, disk, hwrite, -, rfl⟩ | ⟨-, error, -, herror, -⟩
  · exact Disk.Keeps.refl _ _
  · exact (Disk.keeps_writeText hwrite).1
  · cases herror

/-! ## The account of a run -/

/-- Sources are loaded one after the other. -/
theorem map_fst_loaded {ω : Type} {load : Loader (Beside ω)} {sources : List String} :
    ∀ {w w' : World ω} {loaded : List (String × String)},
      w.exec (sources.mapM (loadSource load)) = (.ok loaded, w') →
      loaded.map (·.1) = sources := by
  induction sources with
  | nil =>
    intro w w' loaded h
    cases h
    rfl
  | cons source sources ih =>
    intro w w' loaded h
    obtain ⟨first, rest, w₁, hfirst, hrest, rfl⟩ := World.exec_mapM_cons_ok h
    rw [World.exec_loadSource] at hfirst
    obtain ⟨text, -, rfl⟩ := map_eq_ok (mapError_eq_ok (Prod.mk.inj hfirst).1)
    rw [List.map_cons, ih hrest]

theorem map_sourceId_of_outcome {positions : List Position} {specs : List Specification}
    (h : List.Forall₂ (fun p spec => Position.outcome p = .ok spec) positions specs) :
    specs.map (·.sourceId) = positions.map (·.1.1) := by
  induction h with
  | nil => rfl
  | cons hp _ ih => rw [List.map_cons, List.map_cons, ih, Specification.sourceId_of_parse hp]

/-- Emission splits the positions that specifications come from. -/
theorem splits_positions {rest : List Position} {specs : List Specification}
    (h : List.Forall₂ (fun p spec => Position.outcome p = .ok spec) rest specs)
    (language : Language) (options : EmitOptions) :
    ∃ emitted refused, Splits rest emitted refused ∧
      (generate language options specs).2.emitted = emitted.map (·.1.1) ∧
      (generate language options specs).2.failures.map (·.sourceId) = refused.map (·.1.1) ∧
      ((generate language options specs).2.content = none ↔ emitted = []) := by
  obtain ⟨ok, bad, hsplit, hok, hbad, hnone⟩ := splits_generate language options specs
  obtain ⟨emitted, refused, hpositions, hemitted, hrefused⟩ := hsplit.of_forall₂ h
  refine ⟨emitted, refused, hpositions, ?_, ?_, ?_⟩
  · rw [hok, map_sourceId_of_outcome hemitted]
  · rw [hbad, map_sourceId_of_outcome hrefused]
  · rw [hnone, ← List.length_eq_zero_iff, ← List.length_eq_zero_iff, hemitted.length_eq]

/-- The failures of one language among those of all languages. -/
theorem filter_failures {languages : List Language} (hnodup : languages.Nodup)
    (failures : Language → List SpecFailure) {language : Language} (hl : language ∈ languages) :
    (languages.flatMap fun l => (failures l).map ((l, ·))).filter (·.1 = language) =
      (failures language).map ((language, ·)) := by
  have hself : ∀ l, ((failures l).map ((l, ·))).filter (·.1 = language) =
      if l = language then (failures l).map ((l, ·)) else [] := by
    intro l
    by_cases hll : l = language <;> simp [hll, List.filter_map, Function.comp_def]
  induction languages with
  | nil => cases hl
  | cons l languages ih =>
    obtain ⟨hnew, hnodup⟩ := List.nodup_cons.mp hnodup
    rw [List.flatMap_cons, List.filter_append, hself]
    by_cases hll : l = language
    · -- no other language is the same
      have hrest : (languages.flatMap fun l => (failures l).map ((l, ·))).filter
          (·.1 = language) = [] := by
        rw [List.filter_flatMap, List.flatMap_eq_nil_iff]
        intro l' hl'
        rw [hself, if_neg]
        rintro rfl
        exact hnew (hll ▸ hl')
      rw [if_pos hll, hrest, hll, List.append_nil]
    · rw [if_neg hll, List.nil_append]
      exact ih hnodup ((List.mem_cons.mp hl).resolve_left (Ne.symm hll))

/-- The failures of one output in a report. -/
theorem filter_emitFailures (parsed : List ParsedSource) (options : EmitOptions)
    (specs : List Specification) {target : String} {languages : Languages} {p : Language × String}
    (hp : p ∈ outputPaths target languages) :
    (Report.of parsed ((outputPaths target languages).map fun p =>
        emittedOf (generate p.1 options specs).2 p.1 p.2)).emitFailures.filter (·.1 = p.1) =
      (generate p.1 options specs).2.failures.map ((p.1, ·)) := by
  have hmem : p.1 ∈ languages.toList := by
    rw [← map_fst_outputPaths target languages]
    exact List.mem_map_of_mem hp
  rw [← filter_failures languages.nodup_toList
    (fun l => (generate l options specs).2.failures) hmem, ← map_fst_outputPaths target languages]
  simp only [Report.of, List.flatMap_map]
  rfl

/-- **No source is lost.** A run that succeeds has loaded every source, in order. The positions of
the sources are split into those that cannot be parsed, which the report lists, and the rest. There
is one output for each language, and it splits the rest into what it lists as emitted and what the
report lists as failed for the language. At the end its file holds the generated text, which is
empty if nothing was emitted. -/
theorem run_accounts {ω : Type} {load : Loader (Beside ω)} {config : Config} {w w' : World ω}
    {report : Report} (h : w.exec (run load config) = (.ok report, w')) :
    ∃ loaded w₁, w.exec (config.sources.mapM (loadSource load)) = (.ok loaded, w₁) ∧
      loaded.map (·.1) = config.sources ∧
      ∃ failed rest specs, Splits loaded.zipIdx failed rest ∧
        List.Forall₂ (fun p failure => failure.1 = p.1.1 ∧ Position.outcome p = .error failure.2)
          failed report.parseFailures ∧
        List.Forall₂ (fun p spec => Position.outcome p = .ok spec) rest specs ∧
        report.outputs.map (·.language) = config.languages.toList ∧
        ∀ output ∈ report.outputs, ∃ emitted refused, Splits rest emitted refused ∧
          output.emitted = emitted.map (·.1.1) ∧
          (report.emitFailures.filter (·.1 = output.language)).map (·.2.sourceId) =
            refused.map (·.1.1) ∧
          let content := (generate output.language config.emitOptions specs).2.content
          w'.disk.readText output.path = .ok (content.getD "") ∧
            (content = none ↔ emitted = []) := by
  obtain ⟨target, loaded, emitted, settings, w₁, w₂, warnings, htarget, hload, hemit, hkeep, rfl⟩ :=
    World.exec_run_ok h
  obtain ⟨failed, rest, hparsed, hfailed, hrest⟩ := splits_parseBatch loaded.zipIdx
  rw [List.zipIdx_map_fst] at hfailed hrest
  obtain ⟨rfl, -, hholds⟩ := exec_emitOutputs (outputPaths_apart target config.languages) hemit
  refine ⟨loaded, w₁, hload, map_fst_loaded hload, failed, rest, _, hparsed, hfailed, hrest, ?_, ?_⟩
  · rw [← map_fst_outputPaths target config.languages]
    simp only [Report.of, List.map_map]
    rfl
  · intro output houtput
    simp only [Report.of, List.map_map] at houtput
    obtain ⟨p, hp, rfl⟩ := List.mem_map.mp houtput
    obtain ⟨emitted, refused, hsplit, hemitted, hrefused, hnone⟩ :=
      splits_positions hrest p.1 config.emitOptions
    refine ⟨emitted, refused, hsplit, hemitted, ?_, ?_, hnone⟩
    · have hfailures := filter_emitFailures (parseBatch loaded).2 config.emitOptions
        (specificationsOf (parseBatch loaded).2) hp
      refine Eq.trans (congrArg (List.map _) hfailures) ?_
      rw [List.map_map]
      exact hrefused
    · -- the settings are written last, at a path of their own
      have hheld := hholds p hp
      obtain ⟨place, hleads, -⟩ := hheld
      have hapart := outputPaths_apart_settings htarget hp hleads.noSlash
      have hkept := (hholds p hp).mono (keeps_keepSettings hkeep) fun other hother =>
        List.mem_singleton.mp hother ▸ hapart
      exact hkept.readText

/-- What a report says of sources: those that were not parsed, and for each language those that were
emitted and those that were not. -/
def Report.sources (report : Report) :
    List String × List (Language × List String) × List (Language × String) :=
  (report.parseFailures.map (·.1),
    report.outputs.map fun output => (output.language, output.emitted),
    report.emitFailures.map fun failure => (failure.1, failure.2.sourceId))

/-- A disk with two documents of one title and an empty file. -/
def twinDisk : World Unit where
  disk :=
    let text := "\x7b\"swagger\":\"2.0\",\"info\":\x7b\"title\":\"T\",\"version\":\"1\"\x7d," ++
      "\"paths\":\x7b\x7d\x7d"
    ⟨[(["a"], .file text), (["b"], .file text), (["c"], .file "")]⟩
  own := ()

/-- A run that lists one source twice. -/
def twinRun : Config where
  sources := ["a", "b", "a", "c"]
  target := some "out"

/-- The first and the third source are emitted in both languages. The second, whose client would
have the name of theirs, is in one document only, and the last is in none. -/
theorem run_accounts_twins :
    ∃ report w', twinDisk.exec (run fileLoader twinRun) = (.ok report, w') ∧
      report.sources = (["c"], [(.csharp, ["a", "a"]), (.typescript, ["a", "b", "a"])],
        [(.csharp, "b")]) ∧
      ∃ (loaded : List (String × String)) (failed rest : List Position),
        loaded.map (·.1) = ["a", "b", "a", "c"] ∧ Splits loaded.zipIdx failed rest ∧
        failed.length = report.parseFailures.length ∧
        ∀ output ∈ report.outputs, ∃ emitted refused text, Splits rest emitted refused ∧
          output.emitted = emitted.map (·.1.1) ∧ w'.disk.readText output.path = .ok text := by
  have hsources : (twinDisk.exec (run fileLoader twinRun)).1.toOption.map Report.sources =
      some (["c"], [(.csharp, ["a", "a"]), (.typescript, ["a", "b", "a"])],
        [(.csharp, "b")]) := by
    decide +kernel
  obtain ⟨report, hreport, hsources⟩ := Option.map_eq_some_iff.mp hsources
  have hrun := World.exec_eq_of_fst (eq_ok_of_toOption hreport)
  generalize (twinDisk.exec (run fileLoader twinRun)).2 = w' at hrun
  obtain ⟨loaded, w₁, -, hloaded, failed, rest, specs, hsplit, hfailed, -, -, houtputs⟩ :=
    run_accounts hrun
  refine ⟨report, w', hrun, hsources, loaded, failed, rest, hloaded, hsplit, hfailed.length_eq, ?_⟩
  intro output houtput
  obtain ⟨emitted, refused, hsplit', hemitted, -, hread, -⟩ := houtputs output houtput
  exact ⟨emitted, refused, _, hsplit', hemitted, hread⟩

end ClientGen
