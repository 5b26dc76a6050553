import ClientGen.Proofs.Emission.Parallel
import ClientGen.Proofs.Emission.Uniqueness
import ClientGen.Proofs.TypeScript.Owners

/-!
# Independent specifications

Two specifications that claim different names fare in a batch as they fare alone, in either order.
The argument is one of frames, and is made once for any emitter (`Emitter.Local`). What it asks of a
language is shown here:

* **C#** (`CSharp.local_emitter`): planning looks at no names in use, and claims look at their own.
* **TypeScript** (`TypeScript.local_emitter`): the owners of types are names in use as well. They
  are looked up for planned names only.
* `orderFree_of_disjoint` says what follows for the documents of both.
-/

namespace ClientGen

/-! ## C# -/

namespace CSharp

-- names are compared, never computed, in what follows
attribute [local irreducible] typeName clientName

/-- The names that a specification claims: those of its client and its models, once it is planned. A
specification whose plan fails does not come to its claims. -/
def claimedNames (options : EmitOptions) (spec : Specification) : List String :=
  match (planSpec spec options).outcome with
  | .ok _ => clientName spec :: plannedNames options spec
  | .error _ => []

/-- Claims of models, by induction on those that are still to come. -/
theorem claimModels_matches {R : Registry → Registry → Prop} {names : List String}
    (hR : Registry.Indistinct R names) {models : List Model}
    (hnames : models.map Model.name ⊆ names) : ∀ {r r' : Registry}, R r r' →
      Matches (fun x y => x.1 = y.1 ∧ R x.2 y.2) (claimModels r models)
        (claimModels r' models) := by
  induction models with
  | nil => exact fun h => .ok ⟨rfl, h⟩
  | cons m models ih =>
    intro r r' h
    obtain ⟨hm, hnames⟩ := List.cons_subset.mp hnames
    rw [claimModels, claimModels]
    apply (hR h m.name hm m.shape).bind
    rintro ⟨fresh, r₁⟩ ⟨_, r₁'⟩ ⟨rfl, h₁⟩
    apply (ih hnames h₁).bind
    rintro ⟨rest, r₂⟩ ⟨_, r₂'⟩ ⟨rfl, h₂⟩
    exact .ok ⟨rfl, h₂⟩

/-- **One specification**, planned and claimed side by side. -/
theorem emitSpec_matches {R : Registry → Registry → Prop} {options : EmitOptions}
    {spec : Specification} (hR : Registry.Indistinct R (claimedNames options spec))
    {r r' : Registry} (h : R r r') :
    Matches (fun x y => x.1 = y.1 ∧ R x.2 y.2) (emitSpec spec options r).2
      (emitSpec spec options r').2 := by
  simp only [emitSpec]
  rcases hplan : (planSpec spec options).outcome with e | client
  · exact .error e
  · rw [claimedNames, hplan] at hR
    apply (hR h (clientName spec) List.mem_cons_self (clientShape spec)).bind
    rintro ⟨fresh, r₁⟩ ⟨_, r₁'⟩ ⟨rfl, h₁⟩
    apply (claimModels_matches hR (List.subset_cons_self _ _) h₁).bind
    rintro ⟨models, r₂⟩ ⟨_, r₂'⟩ ⟨rfl, h₂⟩
    exact .ok ⟨rfl, h₂⟩

/-- The findings of a specification are warned of in both cases or in none. -/
theorem alike_of_matches {R : Registry → Registry → Prop} {options : EmitOptions}
    {spec : Specification} {r r' : Registry}
    (h : Matches (fun x y => x.1 = y.1 ∧ R x.2 y.2) (emitSpec spec options r).2
      (emitSpec spec options r').2) :
    (emitter options).Alike R Eq spec r r' := by
  have hwarnings : (emitSpec spec options r).1 = (emitSpec spec options r').1 := rfl
  rcases hx : emitSpec spec options r with ⟨ws, x⟩
  rcases hy : emitSpec spec options r' with ⟨ws', y⟩
  rw [hx, hy] at h hwarnings
  obtain rfl : ws = ws' := hwarnings
  cases h with
  | error e =>
    refine ⟨?_, ?_⟩ <;> simp only [emitter, hx, hy]
    exact .error e
  | ok hxy =>
    refine ⟨?_, ?_⟩ <;> simp only [emitter, hx, hy]
    exact .ok hxy

/-- **Emission of C# is local**, with the registry as the names in use. -/
theorem local_emitter (options : EmitOptions) :
    (emitter options).Local Registry.shape? (claimedNames options) := by
  refine ⟨fun spec r r' h => ?_, fun {spec r part r'} hemit name hname => ?_⟩
  · exact alike_of_matches (emitSpec_matches (Registry.indistinct_agreeOn _) h)
  · obtain ⟨ms, isFresh, r₁, hrun, hclient, hmodels⟩ := emit_eq_ok hemit
    rw [claimedNames, hrun.outcome, List.mem_cons, not_or, plannedNames, hrun.models] at hname
    obtain ⟨fresh, hclient⟩ := claims_of_client hclient
    rw [(claims_of_claimModels hmodels).shape?_of_not_mem hname.2,
      hclient.shape?_of_not_mem (List.mem_singleton.not.mpr hname.1)]

/-- The text of a part, in blocks of lines: one for each model, and one for the client. -/
def Part.blocks (part : Part) : List (List String) :=
  part.models.map Model.lines ++ [part.client.lines]

end CSharp

/-! ## TypeScript -/

namespace TypeScript

/-- What the names in use hold of a name: its shape, and the module that declares it. -/
def Names.view (names : Names) (name : String) : Option String × Option String :=
  (names.registry.shape? name, names.owners.get? name)

/-- **Emission of TypeScript is local**, with registry and owners as the names in use. -/
theorem local_emitter : emitter.Local Names.view plannedNames := by
  refine ⟨fun spec names names' h => ⟨rfl, ?_⟩, fun {spec names m names'} hemit name hname => ?_⟩
  · have htwins : Names.Twins (Registry.AgreeOn (plannedNames spec)) True (planned spec)
        names names' := by
      refine ⟨fun n hn => congrArg Prod.fst (h n hn), fun _ d hd => ?_⟩
      exact congrArg Prod.snd (h d.name (List.mem_map_of_mem hd))
    apply (emitModule_matches (Registry.indistinct_agreeOn _) htwins).mono
    rintro x y ⟨hmodule, hafter⟩
    refine ⟨hmodule trivial, fun n hn => ?_⟩
    obtain ⟨d, hd, rfl⟩ := List.mem_map.mp hn
    exact Prod.ext (hafter.registry d.name hn) (hafter.owners trivial d hd)
  · obtain ⟨declared, -, hclaims⟩ := claims_of_emitModule hemit
    exact Prod.ext (hclaims.shape?_of_not_mem hname) (get?_owners_of_emitModule hemit hname)

end TypeScript

/-! ## Both languages -/

/-- The names that a specification claims. -/
def claimedNames (language : Language) (options : EmitOptions) (spec : Specification) :
    List String :=
  match language with
  | .csharp => CSharp.claimedNames options spec
  | .typescript => TypeScript.plannedNames spec

/-- The specifications of a batch that were emitted, each with its text in blocks of lines. -/
def renderings (language : Language) (options : EmitOptions) (specs : List Specification)
    (registry : Registry) : List (Specification × List (List String)) :=
  match language with
  | .csharp => (CSharp.batch options specs registry).emitted.map fun entry =>
      (entry.1, entry.2.blocks)
  | .typescript => (TypeScript.batch specs registry).emitted.map fun entry =>
      (entry.1, [entry.2.lines])

/-- The order of the two specifications does not matter: each is emitted or fails, with its text or
its error, as it does alone, and the registries after them hold the same shapes. -/
structure OrderFree (language : Language) (options : EmitOptions) (registry : Registry)
    (a b : Specification) : Prop where
  emitted : FareAlone (fun specs => (generateWith language options specs registry).2.1.emitted) a b
  failures :
    FareAlone (fun specs => (generateWith language options specs registry).2.1.failures) a b
  renderings : FareAlone (fun specs => renderings language options specs registry) a b
  shapes : ∀ name, (generateWith language options [a, b] registry).2.2.shape? name =
    (generateWith language options [b, a] registry).2.2.shape? name

/-- **Independent specifications commute.** -/
theorem orderFree_of_disjoint (language : Language) (options : EmitOptions) (registry : Registry)
    {a b : Specification}
    (h : List.Disjoint (claimedNames language options a) (claimedNames language options b)) :
    OrderFree language options registry a b := by
  cases language with
  | csharp =>
    have hlocal := CSharp.local_emitter options
    exact ⟨hlocal.fareAlone_emitted h _ _, hlocal.fareAlone_failed h _ _,
      hlocal.fareAlone_emitted h _ _, hlocal.names_swap h (CSharp.withSupport registry)⟩
  | typescript =>
    have hlocal := TypeScript.local_emitter
    refine ⟨hlocal.fareAlone_emitted h _ _, hlocal.fareAlone_failed h _ _,
      hlocal.fareAlone_emitted h _ _, fun name => ?_⟩
    exact congrArg Prod.fst (hlocal.names_swap h ⟨registry, []⟩ name)

/-- A list of tags, next to the paint shop. -/
def tagList : Specification :=
  CSharp.specOf "tags.json" "Tags" [("Tag", .object none none [⟨"name", .string, true⟩] none)] []

/-- A registry in which the name of the tags is taken. -/
def tagTaken : Registry := ⟨[("Tag", "another")]⟩

/-- The shop and the tags claim different names: in either language and either order, the shop is
emitted as it is alone and the tags fail as they fail alone. -/
theorem orderFree_of_disjoint_tagList :
    (claimedNames .csharp {} CSharp.paintShop = ["Shop", "Color", "Item", "ListItemsColor"] ∧
      claimedNames .csharp {} tagList = ["Tags", "Tag"] ∧
      ((generateWith .csharp {} [CSharp.paintShop, tagList] tagTaken).2.1.failures =
        [.of tagList (.nameCollision "Tag")]) ∧
      OrderFree .csharp {} tagTaken CSharp.paintShop tagList) ∧
    (claimedNames .typescript {} CSharp.paintShop =
        ["Sku", "Code", "Color", "Shade", "Item", "listItemsRequest"] ∧
      claimedNames .typescript {} tagList = ["Tag"] ∧
      ((generateWith .typescript {} [CSharp.paintShop, tagList] tagTaken).2.1.failures =
        [.of tagList (.nameCollision "Tag")]) ∧
      OrderFree .typescript {} tagTaken CSharp.paintShop tagList) := by
  have hshop : claimedNames .csharp {} CSharp.paintShop =
      ["Shop", "Color", "Item", "ListItemsColor"] := by decide +kernel
  have htags : claimedNames .csharp {} tagList = ["Tags", "Tag"] := by decide +kernel
  have hshop' : claimedNames .typescript {} CSharp.paintShop =
      ["Sku", "Code", "Color", "Shade", "Item", "listItemsRequest"] := by decide +kernel
  have htags' : claimedNames .typescript {} tagList = ["Tag"] := by decide +kernel
  refine ⟨⟨hshop, htags, by decide +kernel, orderFree_of_disjoint .csharp {} tagTaken ?_⟩,
    hshop', htags', by decide +kernel, orderFree_of_disjoint .typescript {} tagTaken ?_⟩
  · simp [hshop, htags, List.Disjoint]
  · simp [hshop', htags', List.Disjoint]

end ClientGen
