import ClientGen.Proofs.CSharp.Scope
import ClientGen.Proofs.TypeScript.Scope
import Mathlib.Data.List.Nodup

/-!
# Types are declared once

In the document of a batch no type is declared twice, and none is left out: what a specification
plans is declared by its own part of the document or by an earlier one. Both come from the registry,
whose names are distinct because a claim adds only names that are not there (`Claims.nodup_names`).

* `Covers` — nothing is left out; kept by a step whose own plan is covered (`Covers.concat`).
* `TypeScript.Registered` — the registry lists exactly the declared names.
* `CSharp.Registered` — the registry lists the models among other names. Those are the types of the
  document itself and the clients, and shapes tell them from models.
* `declaredOnce` says it of both target languages.
-/

namespace ClientGen

variable {π : Type}

/-- The names that parts of a document declare, in order. -/
def declaredNames (declares : π → List String) (emitted : List (Specification × π)) : List String :=
  emitted.flatMap fun entry => declares entry.2

theorem declaredNames_concat (declares : π → List String) (emitted : List (Specification × π))
    (entry : Specification × π) :
    declaredNames declares (emitted ++ [entry]) =
      declaredNames declares emitted ++ declares entry.2 := by
  simp [declaredNames]

/-- What a specification plans is declared by its part or by one before it. -/
def Covers (planned : Specification → List String) (declares : π → List String)
    (emitted : List (Specification × π)) : Prop :=
  ∀ before entry after, emitted = before ++ entry :: after →
    planned entry.1 ⊆ declaredNames declares (before ++ [entry])

section

variable {planned : Specification → List String} {declares : π → List String}
  {emitted : List (Specification × π)}

theorem covers_nil : Covers planned declares [] := by
  intro before entry after h
  simp at h

/-- One more part keeps the names covered if it covers those of its own specification. -/
theorem Covers.concat (h : Covers planned declares emitted) {entry : Specification × π}
    (hentry : planned entry.1 ⊆ declaredNames declares (emitted ++ [entry])) :
    Covers planned declares (emitted ++ [entry]) := by
  intro before e after heq
  rcases List.eq_nil_or_concat after with rfl | ⟨after, last, rfl⟩
  · obtain ⟨rfl, hlast⟩ := List.append_inj' heq rfl
    cases hlast
    exact hentry
  · rw [List.concat_eq_append, ← List.cons_append, ← List.append_assoc] at heq
    obtain ⟨hemitted, -⟩ := List.append_inj' heq rfl
    exact h before e after hemitted

end

/-! ## TypeScript -/

namespace TypeScript

/-- The names that a specification wants to declare. -/
def plannedNames (spec : Specification) : List String := (planned spec).map Declaration.name

/-- Declarations are claimed one after the other, by induction on them. -/
theorem claims_of_claim {moduleName : String} {ds : List Declaration} :
    ∀ {names names' : Names} {declared : List Declaration},
      names.claim moduleName ds = .ok (declared, names') →
      Registry.Claims (fun d => (d.name, d.shape)) names.registry ds declared names'.registry := by
  induction ds with
  | nil =>
    intro names names' declared h
    cases h
    exact .nil _
  | cons d ds ih =>
    intro names names' declared h
    rcases Names.claim_cons_cases h with ⟨hnew, rest, rfl, hrest⟩ | ⟨hold, hrest⟩
    · exact .fresh hnew (ih hrest)
    · exact .known hold (ih hrest)

/-- **One module** declares, under their planned names, those of its declarations that are new. -/
theorem claims_of_emitModule {spec : Specification} {names names' : Names} {m : Module}
    (h : emitModule spec names = .ok (m, names')) :
    ∃ declared, m.declared = declared.map Declaration.name ∧
      Registry.Claims (fun d => (d.name, d.shape)) names.registry (planned spec) declared
        names'.registry := by
  rw [emitModule] at h
  obtain ⟨⟨declared, names''⟩, hclaim, h⟩ := bind_eq_ok h
  obtain ⟨declarations, hdeclare, h⟩ := bind_eq_ok h
  obtain ⟨methods, -, h⟩ := bind_eq_ok h
  obtain ⟨rfl, rfl⟩ := Prod.mk.inj (pure_eq_ok h)
  exact ⟨declared, Scope.names_mapM_declare hdeclare, claims_of_claim hclaim⟩

/-- The registry lists the declared names and no others, each of them once, and nothing that is
planned is left out. -/
structure Registered (names : Names) (emitted : List (Specification × Module)) : Prop where
  names_eq : names.registry.names = declaredNames Module.declared emitted
  distinct : names.registry.names.Nodup
  covered : Covers plannedNames Module.declared emitted

/-- **A step keeps the registry and the document together.** -/
theorem Registered.emit {names names' : Names} {emitted : List (Specification × Module)}
    (hreg : Registered names emitted) {spec : Specification} {m : Module}
    (h : emitModule spec names = .ok (m, names')) :
    Registered names' (emitted ++ [(spec, m)]) := by
  obtain ⟨declared, hdeclared, hclaims⟩ := claims_of_emitModule h
  have hnames : names'.registry.names = declaredNames Module.declared (emitted ++ [(spec, m)]) := by
    rw [declaredNames_concat, ← hreg.names_eq, hdeclared]
    exact hclaims.names_eq
  refine ⟨hnames, hclaims.nodup_names hreg.distinct, hreg.covered.concat ?_⟩
  intro name hname
  obtain ⟨d, hd, rfl⟩ := List.mem_map.mp hname
  rw [← hnames]
  exact List.mem_map_of_mem (f := (·.1)) (Table.mem_of_get? (hclaims.shape?_of_mem hd))

theorem registered_batch (specs : List Specification) :
    Registered (batch specs .empty).names (batch specs .empty).emitted := by
  refine emitBatch_invariant (P := Registered) ⟨rfl, List.nodup_nil, covers_nil⟩ ?_
  intro spec _ names names' emitted m hreg hemit
  exact hreg.emit hemit

end TypeScript

/-! ## C# -/

namespace CSharp

-- names are compared, never computed, in what follows
attribute [local irreducible] typeName clientName

/-- The names of the models that a specification plans. -/
def plannedNames (options : EmitOptions) (spec : Specification) : List String :=
  (planSpec spec options).models.map Model.name

/-- The names of the models that a part declares. -/
def Part.declared (part : Part) : List String := part.models.map Model.name

theorem declaredNames_eq (emitted : List (Specification × Part)) :
    declaredNames Part.declared emitted = (partModels emitted).map Model.name := by
  simp [declaredNames, partModels, Part.declared, List.map_flatMap, List.flatMap_map]

/-- The shape of a planned model does not begin like those of names that are no models. -/
theorem head?_shape_of_planned {spec : Specification} {client : Client} {models : List Model}
    (hp : Planned spec client models) {m : Model} (hm : m ∈ models) :
    m.shape.toList.head? ≠ some '<' := by
  obtain ⟨name, context, schema, rest, hmake⟩ := (hp.made m hm).makes
  rcases hmake.head?_shape with ⟨-, hs⟩ | ⟨-, hs | hs⟩ <;>
    exact fun hhead => absurd (hs.symm.trans hhead) (by decide)

theorem name_of_planSpec {options : EmitOptions} {spec : Specification} {client : Client}
    {ms : List Model} (h : (planSpec spec options).Runs client ms) :
    client.name = clientName spec := by
  obtain ⟨_, _, _, -, hclient, -⟩ := Plan.Runs.bind_inv h
  obtain ⟨methods, -, rfl⟩ := Plan.Runs.bind_pure_inv hclient
  rfl

/-- The registry has the models among its names, which are distinct. Its other names keep the shapes
that say what they are. -/
structure Registered (options : EmitOptions) (registry : Registry)
    (emitted : List (Specification × Part)) : Prop where
  accounted : Accounted options registry emitted
  distinct : registry.names.Nodup
  models : (declaredNames Part.declared emitted).Sublist registry.names
  support : ∀ name ∈ supportTypes, registry.shape? name = some supportShape
  clients : ∀ entry ∈ emitted, registry.shape? entry.2.client.name = some (clientShape entry.1)
  covered : Covers (plannedNames options) Part.declared emitted

/-- What is planned and has its shape in a registry that accounts for the parts is declared by one
of them. -/
theorem declared_of_accounted {options : EmitOptions} {registry : Registry}
    {emitted : List (Specification × Part)} (hacc : Accounted options registry emitted)
    {spec : Specification} {client : Client} {ms : List Model}
    (hrun : (planSpec spec options).Runs client ms)
    (hshape : ∀ m ∈ ms, registry.shape? m.name = some m.shape) :
    plannedNames options spec ⊆ declaredNames Part.declared emitted := by
  intro name hname
  rw [plannedNames, hrun.models] at hname
  obtain ⟨m, hm, rfl⟩ := List.mem_map.mp hname
  rcases hacc.origin m.name m.shape (hshape m hm) with hhead | ⟨d, hd, hdname, -⟩
  · exact absurd hhead (head?_shape_of_planned (planned_of_runs hrun) hm)
  · rw [declaredNames_eq, ← hdname]
    exact List.mem_map_of_mem hd

/-- The client of a specification is claimed like a list of one. -/
theorem claims_of_client {registry registry' : Registry} {spec : Specification} {isFresh : Bool}
    (h : registry.claim (clientName spec) (clientShape spec) = .ok (isFresh, registry')) :
    ∃ fresh, Registry.Claims (fun s => (clientName s, clientShape s)) registry [spec] fresh
      registry' := by
  rcases Registry.claim_cases h with ⟨-, hnew, rfl⟩ | ⟨-, hold, rfl⟩
  · exact ⟨[spec], .fresh hnew (.nil _)⟩
  · exact ⟨[], .known hold (.nil _)⟩

/-- **A step keeps the registry and the document together.** -/
theorem Registered.emit {options : EmitOptions} {spec : Specification}
    {registry registry' : Registry} {part : Part} {emitted : List (Specification × Part)}
    (hreg : Registered options registry emitted)
    (h : ((emitter options).emit spec registry).2 = .ok (part, registry')) :
    Registered options registry' (emitted ++ [(spec, part)]) := by
  have hacc := hreg.accounted.emit h
  obtain ⟨ms, isFresh, registry₁, hrun, hclient, hmodels⟩ := emit_eq_ok h
  obtain ⟨fresh, hclient⟩ := claims_of_client hclient
  have hmodels := claims_of_claimModels hmodels
  have hmono := extends_of_emit h
  refine ⟨hacc, hmodels.nodup_names (hclient.nodup_names hreg.distinct), ?_,
    fun name hname => hmono _ _ (hreg.support name hname), ?_,
    hreg.covered.concat (declared_of_accounted hacc hrun fun _ => hmodels.shape?_of_mem)⟩
  · -- the client may have come between the models of earlier parts and the new ones
    rw [declaredNames_concat, hmodels.names_eq, hclient.names_eq]
    exact (hreg.models.trans (List.sublist_append_left _ _)).append (List.Sublist.refl _)
  · intro entry hentry
    rcases List.mem_append.mp hentry with hentry | hentry
    · exact hmono _ _ (hreg.clients entry hentry)
    · rw [List.mem_singleton.mp hentry, name_of_planSpec hrun]
      exact hmodels.shape?_mono (hclient.shape?_of_mem (List.mem_singleton_self spec))

theorem registered_batch (options : EmitOptions) (specs : List Specification) :
    Registered options (batch options specs .empty).names (batch options specs .empty).emitted := by
  refine emitBatch_invariant (P := Registered options) ?_ ?_
  · exact ⟨accounted_withSupport options, by decide, by simp [declaredNames], by decide,
      fun _ h => (nomatch h), covers_nil⟩
  · intro spec _ registry registry' emitted part hreg hemit
    exact hreg.emit hemit

end CSharp

end ClientGen
