import ClientGen.Proofs.Emission.Parallel
import ClientGen.Proofs.Emission.Uniqueness

/-!
# Clients and their names

The client of a specification is claimed before its models, under its name and with a shape that
holds the source. The claim fails if the name is taken in the document by anything but a client of
the same source (`shape?_of_taken`), and a specification whose claim fails is reported
(`failed_of_shape?`). What the claim answers is not looked at when it succeeds: a client of the same
source is declared again, so that the names of clients are distinct exactly when the clients differ
in their names or in their sources (`clients_apart`).
-/

namespace ClientGen.CSharp

-- names are compared, never computed, in what follows
attribute [local irreducible] typeName clientName

/-! ## Shapes -/

theorem sourceId_of_clientShape_eq {a b : Specification} (h : clientShape a = clientShape b) :
    a.sourceId = b.sourceId := by
  have hchars := congrArg String.toList h
  simp only [clientShape, String.toList_append, List.append_assoc, List.append_cancel_left_eq,
    List.append_cancel_right_eq] at hchars
  exact String.toList_inj.mp hchars

theorem clientShape_ne_supportShape (spec : Specification) : clientShape spec ≠ supportShape := by
  intro h
  -- the second letters differ
  have hsecond := congrArg (fun text => text.toList[1]?) h
  simp [clientShape, supportShape] at hsecond

/-! ## Taken names -/

/-- The name of the client is taken in the document of a batch: by a type of the document itself, by
a model, or by the client of another source. -/
def ClientTaken (b : Batch Registry Part) (spec : Specification) : Prop :=
  clientName spec ∈ supportTypes ∨ (∃ d ∈ declared b, d.name = clientName spec) ∨
    ∃ entry ∈ b.emitted, entry.2.client.name = clientName spec ∧
      entry.1.sourceId ≠ spec.sourceId

instance (b : Batch Registry Part) (spec : Specification) : Decidable (ClientTaken b spec) :=
  inferInstanceAs (Decidable (_ ∨ _ ∨ _))

/-- A name that is taken has a shape, and not the one of the client. -/
theorem shape?_of_taken {options : EmitOptions} {specs : List Specification} {spec : Specification}
    (h : ClientTaken (batch options specs .empty) spec) :
    ∃ shape, (batch options specs .empty).names.shape? (clientName spec) = some shape ∧
      shape ≠ clientShape spec := by
  have hreg := registered_batch options specs
  rcases h with hsupport | ⟨d, hd, hname⟩ | ⟨entry, hentry, hname, hsource⟩
  · exact ⟨supportShape, hreg.support _ hsupport, (clientShape_ne_supportShape spec).symm⟩
  · obtain ⟨entry, hentry, hmem⟩ := exists_part_of_declared hd
    obtain ⟨ms, hrun, hsub, hshape⟩ := hreg.accounted.planned entry hentry
    refine ⟨d.shape, hname ▸ hshape d (hsub hmem), fun heq => ?_⟩
    -- the shape of a model does not begin like that of a client
    apply head?_shape_of_planned (planned_of_runs hrun) (hsub hmem)
    rw [heq, head?_clientShape]
  · refine ⟨clientShape entry.1, hname ▸ hreg.clients entry hentry, fun heq => ?_⟩
    exact hsource (sourceId_of_clientShape_eq heq)

/-- The error of a specification whose client cannot be claimed: a collision, unless planning has
failed before. -/
def refusal (options : EmitOptions) (spec : Specification) : EmitError :=
  match (planSpec spec options).outcome with
  | .error error => error
  | .ok _ => .nameCollision (clientName spec)

theorem emit_eq_refusal (options : EmitOptions) {spec : Specification} {registry : Registry}
    {shape : String} (h : registry.shape? (clientName spec) = some shape)
    (hshape : shape ≠ clientShape spec) :
    ((emitter options).emit spec registry).2 = .error (refusal options spec) := by
  have hclaim : registry.claim (clientName spec) (clientShape spec) =
      .error (.nameCollision (clientName spec)) := by
    rw [Registry.claim, Registry.register, h]
    simp only [if_neg hshape]
  rw [emit_outcome]
  simp only [emitSpec, refusal]
  rcases (planSpec spec options).outcome with error | client
  · rfl
  · simp only [Except.bind, claimPart, hclaim]
    rfl

/-- **A specification whose client is taken is reported**, after those that have
failed before it. -/
theorem failed_of_taken {options : EmitOptions} {before after : List Specification}
    {spec : Specification} (h : ClientTaken (batch options before .empty) spec) :
    ∃ rest, (batch options (before ++ spec :: after) .empty).failed =
      (batch options before .empty).failed ++ (spec, refusal options spec) :: rest := by
  obtain ⟨shape, hshape, hne⟩ := shape?_of_taken h
  have hemit := emit_eq_refusal options hshape hne
  have hwhole : (batch options (before ++ spec :: after) .empty).failed =
      (batch options before .empty).failed ++
        (emitBatch (emitter options) (batch options before .empty).names (spec :: after)).failed :=
    congrArg Batch.failed (emitBatch_append (emitter options) (withSupport .empty) before _)
  simp only [hwhole, emitBatch_failed _ _ (spec :: after), trace, hemit, List.filterMap_cons,
    failedEntry?]
  exact ⟨_, rfl⟩

/-! ## Emitted clients -/

/-- Emitted clients of one name are of one source: the registry has one shape for the name. -/
theorem sourceId_of_client_eq {options : EmitOptions} {specs : List Specification}
    {x y : Specification × Part} (hx : x ∈ (batch options specs .empty).emitted)
    (hy : y ∈ (batch options specs .empty).emitted) (h : x.2.client.name = y.2.client.name) :
    x.1.sourceId = y.1.sourceId := by
  have hclients := (registered_batch options specs).clients
  have hshape := hclients x hx
  rw [h, hclients y hy] at hshape
  exact sourceId_of_clientShape_eq (Option.some.inj hshape).symm

/-- The names of the emitted clients, in order. -/
def clientNames (b : Batch Registry Part) : List String := b.emitted.map (·.2.client.name)

/-- The names of the emitted clients with their sources. -/
def clientSources (b : Batch Registry Part) : List (String × String) :=
  b.emitted.map fun entry => (entry.2.client.name, entry.1.sourceId)

theorem nodup_clientNames_iff (options : EmitOptions) (specs : List Specification) :
    (clientNames (batch options specs .empty)).Nodup ↔
      (clientSources (batch options specs .empty)).Nodup := by
  have hnames : clientNames (batch options specs .empty) =
      (clientSources (batch options specs .empty)).map Prod.fst := by
    simp [clientNames, clientSources]
  rw [hnames]
  refine ⟨fun h => h.of_map, fun h => h.map_on ?_⟩
  rintro p hp q hq hpq
  obtain ⟨x, hx, rfl⟩ := List.mem_map.mp hp
  obtain ⟨y, hy, rfl⟩ := List.mem_map.mp hq
  exact Prod.ext hpq (sourceId_of_client_eq hx hy hpq)

/-- **Clients are apart.** The document of a batch is the text of its parts, and each part has the
client of its specification. Clients of one name are of one source, and the names of the clients are
distinct exactly when no client is there twice with its source. A specification whose client is
taken in the document of those before it, other than by a client of its own source, is reported:
with a collision, or with the error of its planning. -/
theorem clients_apart (options : EmitOptions) (specs : List Specification) :
    let b := batch options specs .empty
    (generate .csharp options specs).2 = b.generation (content? options b) ∧
      (∀ entry ∈ b.emitted, entry.2.client.name = clientName entry.1) ∧
      (∀ x ∈ b.emitted, ∀ y ∈ b.emitted, x.2.client.name = y.2.client.name →
        x.1.sourceId = y.1.sourceId) ∧
      ((clientNames b).Nodup ↔ (clientSources b).Nodup) ∧
      ∀ before spec after, specs = before ++ spec :: after →
        ClientTaken (batch options before .empty) spec →
        ∃ rest, b.failed =
          (batch options before .empty).failed ++ (spec, refusal options spec) :: rest := by
  intro b
  refine ⟨rfl, ?_, ?_, nodup_clientNames_iff options specs, ?_⟩
  · intro entry hentry
    obtain ⟨ms, hrun, -⟩ := runs_of_mem_emitted entry hentry
    exact name_of_planSpec hrun
  · intro x hx y hy
    exact sourceId_of_client_eq hx hy
  · rintro before spec after rfl htaken
    exact failed_of_taken htaken

/-- A shop with nothing in it. -/
def emptyShop (sourceId : String) : Specification := specOf sourceId "Shop" [] []

/-- A second shop from another source is reported. -/
theorem clients_apart_emptyShop :
    let b := batch {} [paintShop, emptyShop "b.json"] .empty
    ClientTaken (batch {} [paintShop] .empty) (emptyShop "b.json") ∧
      refusal {} (emptyShop "b.json") = .nameCollision "Shop" ∧
      ∃ rest, b.failed = (batch {} [paintShop] .empty).failed ++
        (emptyShop "b.json", refusal {} (emptyShop "b.json")) :: rest := by
  have htaken : ClientTaken (batch {} [paintShop] .empty) (emptyShop "b.json") := by
    decide +kernel
  obtain ⟨-, -, -, -, hreported⟩ := clients_apart {} [paintShop, emptyShop "b.json"]
  exact ⟨htaken, by decide +kernel, hreported [paintShop] (emptyShop "b.json") [] rfl htaken⟩

/-- A shop that comes twice from one source is declared twice. -/
theorem not_nodup_clientNames_emptyShop :
    ¬ (clientNames (batch {} [emptyShop "a.json", emptyShop "a.json"] .empty)).Nodup := by
  decide +kernel

end ClientGen.CSharp
