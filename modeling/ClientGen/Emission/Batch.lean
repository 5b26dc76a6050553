import ClientGen.Emission.Generation

/-!
# Batches of specifications

Specifications are emitted one after the other. Each starts from the names that are in use, and adds
its part to the document and its own names to those in use, or fails. A failure is noted; names and
document stay as they were before it.

* `Emitter` is what a target language does with one specification.
* `emitBatch` does it for all of them.
-/

namespace ClientGen

/-- What a target language does with one specification: from the names in use (`σ`), its part of the
document (`π`) and the names in use after it. -/
structure Emitter (σ π : Type) where
  language : Language
  emit : Specification → σ → List Warning × Except EmitError (π × σ)

/-- How far the emission of a batch has come. -/
structure Batch (σ π : Type) where
  /-- the names in use -/
  names : σ
  /-- the specifications that were emitted, with their parts of the document -/
  emitted : List (Specification × π) := []
  /-- the specifications that failed -/
  failed : List (Specification × EmitError) := []
  warnings : List Warning := []

namespace Batch

variable {σ π : Type}

/-- The parts of the document, in order. -/
def parts (b : Batch σ π) : List π := b.emitted.map (·.2)

/-- The account of a batch, given the text of the document. -/
def generation (b : Batch σ π) (content : Option String) : Generation where
  content
  emitted := b.emitted.map (·.1.sourceId)
  failures := b.failed.map fun (spec, error) => .of spec error
  diagnostics := b.emitted.flatMap (·.1.diagnostics)

/-- Emits one more specification. -/
def step (e : Emitter σ π) (b : Batch σ π) (spec : Specification) : Batch σ π :=
  match e.emit spec b.names with
  | (warnings, .ok (part, names)) =>
    { b with
      names
      emitted := b.emitted ++ [(spec, part)]
      warnings := b.warnings ++ warnings }
  | (warnings, .error error) =>
    { b with
      failed := b.failed ++ [(spec, error)]
      warnings := b.warnings ++ warnings ++ [.notEmitted spec.sourceId e.language error] }

end Batch

/-- Emits specifications in their order, after the names that are in use already. -/
def emitBatch {σ π : Type} (e : Emitter σ π) (names : σ) (specs : List Specification) : Batch σ π :=
  specs.foldl (Batch.step e) { names }

end ClientGen
