import ClientGen.Emission.Generate

/-!
# A failed specification leaves no trace

`emitBatch` folds one step over the specifications. This module opens the fold once and for all, for
any emitter:

* `trace` lists the specifications with what came of each, in the order of the batch. The batch is
  read off the trace: `emitBatch_emitted`, `emitBatch_failed`, `emitBatch_names`.
* `trace_emitted` — the **two-run fact**: a batch of those specifications alone that were emitted
  has the emitted entries of the first trace as its trace, since a failed step hands on the names
  it was given.
* `generateWith_emittedSpecs` says it of the documents of both target languages.
-/

namespace ClientGen

variable {σ π : Type}

/-! ## Traces -/

/-- The specifications of a batch with what came of each: its part of the document, or its error. -/
def trace (e : Emitter σ π) : σ → List Specification → List (Specification × Except EmitError π)
  | _, [] => []
  | names, spec :: specs =>
    match (e.emit spec names).2 with
    | .ok (part, names') => (spec, .ok part) :: trace e names' specs
    | .error error => (spec, .error error) :: trace e names specs

/-- The names in use after a batch. -/
def namesAfter (e : Emitter σ π) : σ → List Specification → σ
  | names, [] => names
  | names, spec :: specs =>
    match (e.emit spec names).2 with
    | .ok (_, names') => namesAfter e names' specs
    | .error _ => namesAfter e names specs

/-- The part of an entry that was emitted. -/
def emittedEntry? : Specification × Except EmitError π → Option (Specification × π)
  | (spec, .ok part) => some (spec, part)
  | (_, .error _) => none

/-- The error of an entry that failed. -/
def failedEntry? : Specification × Except EmitError π → Option (Specification × EmitError)
  | (_, .ok _) => none
  | (spec, .error error) => some (spec, error)

/-- **One step.** It adds a part and hands on new names, or adds a failure and hands on the names it
was given; the part and the error are those of the emitter. -/
theorem Batch.step_cases (e : Emitter σ π) (b : Batch σ π) (spec : Specification) :
    (∃ part names ws, (e.emit spec b.names).2 = .ok (part, names) ∧
      b.step e spec = ⟨names, b.emitted ++ [(spec, part)], b.failed, ws⟩) ∨
    (∃ error ws, (e.emit spec b.names).2 = .error error ∧
      b.step e spec = ⟨b.names, b.emitted, b.failed ++ [(spec, error)], ws⟩) := by
  unfold Batch.step
  rcases e.emit spec b.names with ⟨ws, error | ⟨part, names⟩⟩
  · exact Or.inr ⟨error, _, rfl, rfl⟩
  · exact Or.inl ⟨part, names, _, rfl, rfl⟩

/-- **A whole run**, from any point: what the trace holds comes after what is there already. -/
theorem foldl_step (e : Emitter σ π) (specs : List Specification) :
    ∀ b : Batch σ π, ∃ ws, specs.foldl (Batch.step e) b =
      ⟨namesAfter e b.names specs,
       b.emitted ++ (trace e b.names specs).filterMap emittedEntry?,
       b.failed ++ (trace e b.names specs).filterMap failedEntry?, ws⟩ := by
  induction specs with
  | nil =>
    intro b
    exact ⟨b.warnings, by simp [namesAfter, trace]⟩
  | cons spec specs ih =>
    intro b
    rw [List.foldl_cons]
    rcases b.step_cases e spec with ⟨part, names, ws, hemit, hstep⟩ | ⟨error, ws, hemit, hstep⟩
    · obtain ⟨ws', h⟩ := ih (b.step e spec)
      refine ⟨ws', ?_⟩
      rw [h, hstep]
      simp [namesAfter, trace, hemit, List.filterMap_cons, emittedEntry?, failedEntry?]
    · obtain ⟨ws', h⟩ := ih (b.step e spec)
      refine ⟨ws', ?_⟩
      rw [h, hstep]
      simp [namesAfter, trace, hemit, List.filterMap_cons, emittedEntry?, failedEntry?]

theorem emitBatch_names (e : Emitter σ π) (names : σ) (specs : List Specification) :
    (emitBatch e names specs).names = namesAfter e names specs := by
  obtain ⟨ws, h⟩ := foldl_step e specs { names }
  rw [emitBatch, h]

theorem emitBatch_emitted (e : Emitter σ π) (names : σ) (specs : List Specification) :
    (emitBatch e names specs).emitted = (trace e names specs).filterMap emittedEntry? := by
  obtain ⟨ws, h⟩ := foldl_step e specs { names }
  rw [emitBatch, h]
  exact List.nil_append _

theorem emitBatch_failed (e : Emitter σ π) (names : σ) (specs : List Specification) :
    (emitBatch e names specs).failed = (trace e names specs).filterMap failedEntry? := by
  obtain ⟨ws, h⟩ := foldl_step e specs { names }
  rw [emitBatch, h]
  exact List.nil_append _

/-- **Invariants of a batch.** What holds of the names in use and the parts emitted so far, at the
start and after every step that succeeds, holds after the batch: failed steps change neither. -/
theorem emitBatch_invariant {e : Emitter σ π} {names : σ} {specs : List Specification}
    {P : σ → List (Specification × π) → Prop} (hstart : P names [])
    (hstep : ∀ spec ∈ specs, ∀ n n' emitted part, P n emitted →
      (e.emit spec n).2 = .ok (part, n') → P n' (emitted ++ [(spec, part)])) :
    P (emitBatch e names specs).names (emitBatch e names specs).emitted := by
  suffices hrun : ∀ specs' ⊆ specs, ∀ b : Batch σ π, P b.names b.emitted →
      P (specs'.foldl (Batch.step e) b).names (specs'.foldl (Batch.step e) b).emitted from
    hrun specs (List.Subset.refl specs) { names } hstart
  intro specs'
  induction specs' with
  | nil => exact fun _ b hb => hb
  | cons spec specs' ih =>
    intro hsub b hb
    have hsub' : specs' ⊆ specs := fun s hs => hsub (List.mem_cons_of_mem spec hs)
    rw [List.foldl_cons]
    refine ih hsub' (b.step e spec) ?_
    rcases b.step_cases e spec with ⟨part, names, ws, hemit, hs⟩ | ⟨error, ws, -, hs⟩
    · rw [hs]
      exact hstep spec (hsub (List.mem_cons_self ..)) _ _ _ _ hb hemit
    · rw [hs]
      exact hb

/-- What was emitted was in the batch. -/
theorem mem_of_mem_emitted {e : Emitter σ π} {names : σ} {specs : List Specification}
    {entry : Specification × π} (h : entry ∈ (emitBatch e names specs).emitted) :
    entry.1 ∈ specs := by
  revert entry
  refine emitBatch_invariant (P := fun _ emitted => ∀ {entry}, entry ∈ emitted → entry.1 ∈ specs)
    (fun h => (nomatch h)) ?_
  intro spec hspec _ _ emitted part hemitted _ entry hentry
  rcases List.mem_append.mp hentry with hentry | hentry
  · exact hemitted hentry
  · rw [List.mem_singleton.mp hentry]
    exact hspec

/-! ## Every specification has one verdict -/

/-- A trace has the specifications of the batch, in their order. -/
theorem map_fst_trace (e : Emitter σ π) (specs : List Specification) :
    ∀ names : σ, (trace e names specs).map (·.1) = specs := by
  induction specs with
  | nil => exact fun _ => rfl
  | cons spec specs ih =>
    intro names
    rw [trace]
    rcases (e.emit spec names).2 with error | ⟨part, names'⟩
    · exact congrArg (spec :: ·) (ih names)
    · exact congrArg (spec :: ·) (ih names')

/-- The error of what came of a specification, if it failed. -/
def errorOf? : Except EmitError π → Option EmitError
  | .ok _ => none
  | .error error => some error

/-- Specifications with a verdict on each: the emitted ones are those with no error. -/
def withoutError (judged : List (Specification × Option EmitError)) : List Specification :=
  judged.filterMap fun (spec, error) => if error.isNone then some spec else none

/-- Specifications with a verdict on each: the failed ones are those with an error. -/
def withError (judged : List (Specification × Option EmitError)) :
    List (Specification × EmitError) :=
  judged.filterMap fun (spec, error) => error.map ((spec, ·))

/-- What was emitted and what failed splits the batch: there is one verdict on each specification,
and the two lists are read off the verdicts in order. -/
theorem emitBatch_split (e : Emitter σ π) (names : σ) (specs : List Specification) :
    ∃ judged : List (Specification × Option EmitError), judged.map (·.1) = specs ∧
      (emitBatch e names specs).emitted.map (·.1) = withoutError judged ∧
      (emitBatch e names specs).failed = withError judged := by
  refine ⟨(trace e names specs).map fun entry => (entry.1, errorOf? entry.2), ?_, ?_, ?_⟩
  · rw [List.map_map]
    exact map_fst_trace e specs names
  · rw [emitBatch_emitted, withoutError, List.filterMap_map, List.map_filterMap]
    congr 1
    funext ⟨spec, outcome⟩
    cases outcome <;> rfl
  · rw [emitBatch_failed, withError, List.filterMap_map]
    congr 1
    funext ⟨spec, outcome⟩
    cases outcome <;> rfl

/-! ## The emitted specifications alone -/

/-- **Two runs.** In a batch of the emitted specifications alone each meets the names that it met in
the whole batch, so it is emitted again with the same part, and none fails. -/
theorem trace_emitted (e : Emitter σ π) (specs : List Specification) :
    ∀ names : σ,
      trace e names (((trace e names specs).filterMap emittedEntry?).map (·.1)) =
        ((trace e names specs).filterMap emittedEntry?).map (fun entry => (entry.1, .ok entry.2)) ∧
      namesAfter e names (((trace e names specs).filterMap emittedEntry?).map (·.1)) =
        namesAfter e names specs := by
  induction specs with
  | nil => exact fun _ => ⟨rfl, rfl⟩
  | cons spec specs ih =>
    intro names
    rcases hemit : (e.emit spec names).2 with error | ⟨part, names'⟩
    · -- a failure adds nothing to the second run, and the names are the same after it
      simp only [trace, namesAfter, hemit, List.filterMap_cons, emittedEntry?]
      exact ih names
    · simp only [trace, namesAfter, hemit, List.filterMap_cons, emittedEntry?, List.map_cons]
      obtain ⟨ht, hn⟩ := ih names'
      exact ⟨by rw [ht], hn⟩

/-- The emitted specifications alone make the same batch, without failures. -/
theorem emitBatch_emitted_alone (e : Emitter σ π) (names : σ) (specs : List Specification) :
    (emitBatch e names ((emitBatch e names specs).emitted.map (·.1))).emitted =
        (emitBatch e names specs).emitted ∧
      (emitBatch e names ((emitBatch e names specs).emitted.map (·.1))).failed = [] ∧
      (emitBatch e names ((emitBatch e names specs).emitted.map (·.1))).names =
        (emitBatch e names specs).names := by
  obtain ⟨htrace, hnames⟩ := trace_emitted e specs names
  refine ⟨?_, ?_, ?_⟩
  · rw [emitBatch_emitted, emitBatch_emitted e names specs, htrace, List.filterMap_map]
    exact List.filterMap_some
  · rw [emitBatch_failed, emitBatch_emitted e names specs, htrace, List.filterMap_map]
    exact List.filterMap_eq_nil_iff.mpr fun _ _ => rfl
  · rw [emitBatch_names, emitBatch_emitted, emitBatch_names]
    exact hnames

/-- The emitted specifications alone give the same account, for any text that is made of the emitted
parts and is there exactly when there are some. -/
theorem generation_emitted_alone (e : Emitter σ π) (names : σ) (specs : List Specification)
    {content : Batch σ π → Option String}
    (hcongr : ∀ b c : Batch σ π, b.emitted = c.emitted → content b = content c)
    (hnone : ∀ b : Batch σ π, content b = none ↔ b.emitted = []) :
    let b := emitBatch e names specs
    let c := emitBatch e names (b.emitted.map (·.1))
    let whole := b.generation (content b)
    let alone := c.generation (content c)
    (alone.failures = [] ∧ alone.content = whole.content ∧ alone.emitted = whole.emitted ∧
      alone.diagnostics = whole.diagnostics ∧ c.names = b.names) ∧
    (∃ judged : List (Specification × Option EmitError), judged.map (·.1) = specs ∧
      b.emitted.map (·.1) = withoutError judged ∧
      whole.emitted = (b.emitted.map (·.1)).map (·.sourceId) ∧
      whole.failures = (withError judged).map fun (spec, error) => .of spec error) ∧
    (whole.content = none ↔ whole.emitted = []) := by
  intro b c whole alone
  obtain ⟨hemitted, hfailed, hnames⟩ := emitBatch_emitted_alone e names specs
  obtain ⟨judged, hspecs, hok, hbad⟩ := emitBatch_split e names specs
  refine ⟨⟨?_, hcongr c b hemitted, ?_, ?_, hnames⟩, ⟨judged, hspecs, hok, ?_, ?_⟩, ?_⟩
  · show c.failed.map _ = []
    rw [hfailed, List.map_nil]
  · show c.emitted.map _ = b.emitted.map _
    rw [hemitted]
  · show c.emitted.flatMap _ = b.emitted.flatMap _
    rw [hemitted]
  · exact List.map_map.symm
  · show b.failed.map _ = _
    rw [hbad]
  · show content b = none ↔ b.emitted.map _ = []
    rw [hnone b, List.map_eq_nil_iff]

/-! ## Documents -/

theorem CSharp.content?_congr (options : EmitOptions) (b c : Batch Registry CSharp.Part)
    (h : b.emitted = c.emitted) : CSharp.content? options b = CSharp.content? options c := by
  rw [CSharp.content?, CSharp.content?, CSharp.declared, CSharp.declared, Batch.parts, Batch.parts,
    h]

theorem CSharp.content?_eq_none (options : EmitOptions) (b : Batch Registry CSharp.Part) :
    CSharp.content? options b = none ↔ b.emitted = [] := by
  rw [CSharp.content?, ← List.isEmpty_iff]
  cases b.emitted.isEmpty <;> simp

theorem TypeScript.content?_congr (options : EmitOptions)
    (b c : Batch TypeScript.Names TypeScript.Module) (h : b.emitted = c.emitted) :
    TypeScript.content? options b = TypeScript.content? options c := by
  rw [TypeScript.content?, TypeScript.content?, Batch.parts, Batch.parts, h]

theorem TypeScript.content?_eq_none (options : EmitOptions)
    (b : Batch TypeScript.Names TypeScript.Module) :
    TypeScript.content? options b = none ↔ b.emitted = [] := by
  rw [TypeScript.content?, ← List.isEmpty_iff]
  cases b.emitted.isEmpty <;> simp

/-- The specifications of a batch that were emitted, in order. -/
def emittedSpecs (language : Language) (options : EmitOptions) (specs : List Specification)
    (registry : Registry) : List Specification :=
  match language with
  | .csharp => (CSharp.batch options specs registry).emitted.map (·.1)
  | .typescript => (TypeScript.batch specs registry).emitted.map (·.1)

/-- **A failed specification leaves no trace.** Let `ok` be the specifications that were emitted.
Emitting `ok` alone from the same registry fails for none of them and gives the same text, the same
account and the same registry. In the whole batch every specification has one verdict, and what is
reported as emitted and as failed is read off the verdicts in the order of the batch; there is no
text exactly when nothing was emitted. -/
theorem generateWith_emittedSpecs (language : Language) (options : EmitOptions)
    (specs : List Specification) (registry : Registry) :
    let ok := emittedSpecs language options specs registry
    let whole := (generateWith language options specs registry).2
    let alone := (generateWith language options ok registry).2
    (alone.1.failures = [] ∧ alone.1.content = whole.1.content ∧
      alone.1.emitted = whole.1.emitted ∧ alone.1.diagnostics = whole.1.diagnostics ∧
      alone.2 = whole.2) ∧
    (∃ judged : List (Specification × Option EmitError), judged.map (·.1) = specs ∧
      ok = withoutError judged ∧
      whole.1.emitted = ok.map (·.sourceId) ∧
      whole.1.failures = (withError judged).map fun (spec, error) => .of spec error) ∧
    (whole.1.content = none ↔ whole.1.emitted = []) := by
  cases language with
  | csharp =>
    exact generation_emitted_alone (CSharp.emitter options) (CSharp.withSupport registry) specs
      (CSharp.content?_congr options) (CSharp.content?_eq_none options)
  | typescript =>
    -- the document answers with the registry alone, without the owners of its names
    obtain ⟨⟨hfail, hcontent, hemitted, hdiag, hnames⟩, hsplit, hnone⟩ :=
      generation_emitted_alone TypeScript.emitter ⟨registry, []⟩ specs
        (TypeScript.content?_congr options) (TypeScript.content?_eq_none options)
    exact ⟨⟨hfail, hcontent, hemitted, hdiag, congrArg TypeScript.Names.registry hnames⟩,
      hsplit, hnone⟩

end ClientGen
