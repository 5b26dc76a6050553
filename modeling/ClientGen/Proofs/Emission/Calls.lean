import ClientGen.Proofs.CSharp.Scope
import ClientGen.Proofs.Emission.Parallel
import ClientGen.Proofs.TypeScript.Owners

/-!
# Several calls with one registry

Specifications that are emitted in two calls, the second from the registry that the first leaves,
come to what they come to in one call. The second call does not start where the first has stopped:

* In C# it registers the types of the document again. They are there already, and registering what
  is there changes nothing (`CSharp.withSupport_names`).
* In TypeScript it starts without owners. Owners decide how types are qualified and not what is
  emitted, so that the two calls run in parallel with the one (`TypeScript.alike_of_registry`).
-/

namespace ClientGen

/-! ## C# -/

namespace CSharp

/-- Registering the types of the document changes nothing once they are there. -/
theorem withSupport_eq_self {r : Registry}
    (h : ∀ name ∈ supportTypes, ∃ s, r.shape? name = some s) : withSupport r = r := by
  suffices hall : ∀ names ⊆ supportTypes,
      names.foldl (fun r name => r.reserve name supportShape) r = r from
    hall supportTypes (List.Subset.refl _)
  intro names
  induction names with
  | nil => exact fun _ => rfl
  | cons name names ih =>
    intro hsub
    obtain ⟨hname, hsub⟩ := List.cons_subset.mp hsub
    obtain ⟨s, hs⟩ := h name hname
    rw [List.foldl_cons, Registry.reserve_of_shape? hs, ih hsub]

/-- A batch keeps what is declared. -/
theorem extends_batch (options : EmitOptions) (specs : List Specification) (registry : Registry) :
    (withSupport registry).Extends (batch options specs registry).names := by
  refine emitBatch_invariant (P := fun names _ => (withSupport registry).Extends names)
    (fun _ _ hn => hn) ?_
  intro spec _ names names' emitted part hkept hemit n s hn
  exact extends_of_emit hemit n s (hkept n s hn)

/-- **The second call** starts from the registry that the first has left. -/
theorem withSupport_names (options : EmitOptions) (specs : List Specification)
    (registry : Registry) :
    withSupport (batch options specs registry).names = (batch options specs registry).names := by
  apply withSupport_eq_self
  intro name hname
  obtain ⟨s, hs⟩ := (Registry.extends_foldl_reserve supportTypes supportShape registry).2 name hname
  exact ⟨s, extends_batch options specs registry name s hs⟩

theorem batch_append (options : EmitOptions) (xs ys : List Specification) (registry : Registry) :
    batch options (xs ++ ys) registry =
      (batch options xs registry).append
        (batch options ys (batch options xs registry).names) := by
  have hsecond : batch options ys (batch options xs registry).names =
      emitBatch (emitter options) (batch options xs registry).names ys := by
    rw [batch, withSupport_names]
  rw [hsecond]
  exact emitBatch_append (emitter options) (withSupport registry) xs ys

end CSharp

/-! ## TypeScript -/

namespace TypeScript

/-- Names in use with one registry. -/
def SameRegistry (names names' : Names) : Prop := names.registry = names'.registry

/-- **Owners do not matter** to what is emitted, and with which error the rest fails. -/
theorem alike_of_registry (spec : Specification) {names names' : Names}
    (h : SameRegistry names names') :
    emitter.Alike SameRegistry (fun _ _ => True) spec names names' := by
  have htwins : Names.Twins Eq False (planned spec) names names' := ⟨h, False.elim⟩
  refine ⟨rfl, (emitModule_matches (Registry.indistinct_eq _) htwins).mono ?_⟩
  rintro x y ⟨-, hafter⟩
  exact ⟨trivial, hafter.registry⟩

/-- The second call runs in parallel with the end of one call. -/
theorem parallel_second (xs ys : List Specification) (registry : Registry) :
    (emitBatch emitter (batch xs registry).names ys).Parallel SameRegistry (fun _ _ => True)
      (batch ys (batch xs registry).names.registry) := by
  apply emitBatch_parallel
  · intro spec _ names names'
    exact alike_of_registry spec
  · rfl

end TypeScript

/-! ## Both languages -/

namespace Batch

variable {σ π : Type}

/-- Two batches give the same account of their specifications. -/
structure SameAccount (b c : Batch σ π) : Prop where
  specs : b.emitted.map (·.1) = c.emitted.map (·.1)
  failed : b.failed = c.failed
  warnings : b.warnings = c.warnings

theorem SameAccount.refl (b : Batch σ π) : b.SameAccount b := ⟨rfl, rfl, rfl⟩

theorem Parallel.sameAccount {R : σ → σ → Prop} {S : π → π → Prop} {b c : Batch σ π}
    (h : b.Parallel R S c) : b.SameAccount c := by
  refine ⟨?_, h.failed, h.warnings⟩
  rw [← List.forall₂_eq_eq_eq, List.forall₂_map_left_iff, List.forall₂_map_right_iff]
  exact h.emitted.imp fun _ _ hxy => hxy.1

/-- What is reported of a batch and another one after it, where a third gives the same account as
the other. -/
theorem generation_append (b : Batch σ π) {c d : Batch σ π} (h : c.SameAccount d)
    (whole first second : Option String) :
    ((b.append c).generation whole).emitted =
        (b.generation first).emitted ++ (d.generation second).emitted ∧
      ((b.append c).generation whole).failures =
        (b.generation first).failures ++ (d.generation second).failures ∧
      ((b.append c).generation whole).diagnostics =
        (b.generation first).diagnostics ++ (d.generation second).diagnostics ∧
      (b.append c).warnings = b.warnings ++ d.warnings := by
  have hsources := congrArg (List.map (·.sourceId)) h.specs
  have hdiagnostics := congrArg (List.flatMap (·.diagnostics)) h.specs
  simp only [List.map_map, List.flatMap_map] at hsources hdiagnostics
  simp only [generation, append, List.map_append, List.flatMap_append, h.failed, h.warnings,
    ← hdiagnostics]
  exact ⟨congrArg _ hsources, trivial, trivial, trivial⟩

end Batch

/-- **Two calls are one.** Emitting two lists, the second from the registry that the first leaves,
ends with the registry that both of them together end with, and reports what they report together,
one after the other. -/
theorem generateWith_append (language : Language) (options : EmitOptions)
    (xs ys : List Specification) (registry : Registry) :
    let first := generateWith language options xs registry
    let second := generateWith language options ys first.2.2
    let whole := generateWith language options (xs ++ ys) registry
    whole.2.2 = second.2.2 ∧
      whole.2.1.emitted = first.2.1.emitted ++ second.2.1.emitted ∧
      whole.2.1.failures = first.2.1.failures ++ second.2.1.failures ∧
      whole.2.1.diagnostics = first.2.1.diagnostics ++ second.2.1.diagnostics ∧
      whole.1 = first.1 ++ second.1 := by
  cases language with
  | csharp =>
    simp only [generateWith, CSharp.generateWith, CSharp.batch_append]
    exact ⟨rfl, Batch.generation_append _ (.refl _) _ _ _⟩
  | typescript =>
    have hwhole : TypeScript.batch (xs ++ ys) registry =
        (TypeScript.batch xs registry).append
          (emitBatch TypeScript.emitter (TypeScript.batch xs registry).names ys) :=
      emitBatch_append TypeScript.emitter ⟨registry, []⟩ xs ys
    have hsecond := TypeScript.parallel_second xs ys registry
    simp only [generateWith, TypeScript.generateWith, hwhole]
    exact ⟨hsecond.names, Batch.generation_append _ hsecond.sameAccount _ _ _⟩

end ClientGen
