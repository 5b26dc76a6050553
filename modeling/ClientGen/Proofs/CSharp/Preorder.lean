import ClientGen.Proofs.CSharp.InPlace
import ClientGen.Proofs.CSharp.Site

/-!
# Models in pre-order

Where a schema is mapped in place, the models that are there stay as they are, and one block of
models is added behind them.

* `Block` — **the order of a block**: the model of the site itself comes first, if the schema there
  has no name of its own, and then the blocks of its parts, in their order. `block_of_runs` goes
  down the parts of a site.
* `InPlace.Adds` — what work does wherever it starts: it keeps what is there and adds a block.
  `declares_preorder` says this of a declaration, of a class and of a schema.
-/

namespace ClientGen.CSharp

open Plan (RunsAll)

/-! ## Blocks -/

mutual

/-- The models of a site in pre-order. -/
inductive Block (definitions : Table Schema) : Site → List Model → Prop
  /-- a model of its own, and what its parts need -/
  | own {s : Site} {m : Model} {rest : List Model} :
      MadeAt definitions s m → Blocks definitions s.parts rest → Block definitions s (m :: rest)
  /-- only what its parts need -/
  | parts {s : Site} {ms : List Model} :
      isNameless s.schema = false → Blocks definitions s.parts ms → Block definitions s ms

/-- The blocks of sites one after the other. Each is what mapping its site adds. -/
inductive Blocks (definitions : Table Schema) : List Site → List Model → Prop
  | nil : Blocks definitions [] []
  | cons {s : Site} {sites : List Site} {t : TypeRef} {ms ns : List Model} :
      (s.plan definitions).Runs t ms → Block definitions s ms → Blocks definitions sites ns →
      Blocks definitions (s :: sites) (ms ++ ns)

end

/-- Sites that run one after the other add their blocks one after the other. -/
theorem blocks_of_runsAll {definitions : Table Schema} {sites : List Site} {types : List TypeRef}
    {ms : List Model} (h : RunsAll (Site.plan definitions) sites types ms)
    (hblock : ∀ s ∈ sites, ∀ {t ms}, (s.plan definitions).Runs t ms → Block definitions s ms) :
    Blocks definitions sites ms := by
  induction h with
  | nil => exact .nil
  | cons hrun _ ih =>
    refine .cons hrun (hblock _ (List.mem_cons_self ..) hrun) (ih fun s hs => ?_)
    exact hblock s (List.mem_cons_of_mem _ hs)

/-- **A site adds a block**, by induction over its parts. -/
theorem block_of_runs {definitions : Table Schema} (s : Site) :
    ∀ {t : TypeRef} {ms : List Model}, (s.plan definitions).Runs t ms →
      Block definitions s ms := by
  induction s using Site.induction with
  | h s ih =>
    intro t ms h
    have hparts {types : List TypeRef} {rest : List Model}
        (hall : RunsAll (Site.plan definitions) s.parts types rest) :
        Blocks definitions s.parts rest :=
      blocks_of_runsAll hall fun part hpart => ih part hpart
    cases mapping_of_runs h with
    | reference _ => exact .parts rfl (hparts RunsAll.nil)
    | array hitem => exact .parts rfl (hparts (RunsAll.single hitem))
    | any => exact .parts rfl (hparts RunsAll.nil)
    | dictionary hvalue => exact .parts rfl (hparts (RunsAll.single hvalue))
    | model hnameless hmake =>
      obtain ⟨types, hall, -⟩ := hmake.formed
      rw [modelSites_eq_parts hnameless] at hall
      exact .own ⟨hnameless, _, hmake⟩ (hparts hall)
    | primitive henum => exact .parts (Bool.eq_false_iff.mpr henum) (hparts RunsAll.nil)

/-- The type of a schema without a name is named like the first model of its block. -/
theorem head_of_runs {definitions : Table Schema} {s : Site} {t : TypeRef} {ms : List Model}
    (h : (s.plan definitions).Runs t ms) (hnameless : isNameless s.schema = true) :
    ∃ m rest, ms = m :: rest ∧ t.name = m.name := by
  cases mapping_of_runs h with
  | model _ hmake =>
    refine ⟨_, _, rfl, ?_⟩
    dsimp only
    exact hmake.name_eq.symm
  | primitive henum => exact absurd hnameless henum
  | _ => cases hnameless

/-- A class is declared before the blocks of its properties. -/
theorem declareClass_runs {definitions : Table Schema} {name : String}
    {description : Option String} {properties : List (Property Schema)}
    {additional : Option Schema} {shape context : String} {u : Unit} {ms : List Model}
    (h : (Plan.declare (classModel definitions name description properties additional shape
      context)).Runs u ms) :
    ∃ types rest, ms = classOf name description (membersOf name [] properties types)
        additional.isSome shape :: rest ∧
      RunsAll (Site.plan definitions) (properties.map (Site.ofProperty name context)) types rest ∧
      Blocks definitions (properties.map (Site.ofProperty name context)) rest := by
  obtain ⟨m, rest, hmake, rfl⟩ := h.declare_inv
  obtain ⟨members, hmembers, rfl⟩ := hmake.bind_pure_inv
  obtain ⟨types, hall, rfl⟩ := runsAll_of_mapProperties hmembers
  exact ⟨types, rest, rfl, hall, blocks_of_runsAll hall fun s _ => block_of_runs s⟩

/-! ## In place -/

namespace InPlace

variable {α : Type}

/-- Wherever the work starts, the models that are there stay in front, also if it fails; if it gives
a value, it adds a block of models behind them, and `P` holds of both. -/
def Adds (x : InPlace α) (P : α → List Model → Prop) : Prop :=
  ∀ before, before <+: (x.after before).2 ∧
    ∀ a ms, x.after before = (.ok a, ms) → ∃ block, ms = before ++ block ∧ P a block

/-- A plan that is done in place adds its models. -/
theorem adds_onto {p : Plan α} {P : α → List Model → Prop} (h : ∀ {a ms}, p.Runs a ms → P a ms) :
    p.onto.Adds P := by
  intro before
  rw [Plan.after_onto]
  refine ⟨List.prefix_append before p.models, fun a ms hafter => ?_⟩
  obtain ⟨hout, rfl⟩ := Prod.mk.inj hafter
  exact ⟨p.models, rfl, h ⟨hout, rfl⟩⟩

/-- **Models are declared in pre-order.** Whatever models are there, they stay in front, and what is
added behind them is

* for a declaration: the model that is made, and then what making it adds;
* for a class: the class, whose members have the types of its properties, and then the blocks of
  these, in their order;
* for a schema: its block, in pre-order. It is what the plan of the schema adds, and the type of a
  schema without a name is named like the first model of it. -/
theorem declares_preorder (definitions : Table Schema) :
    (∀ make : InPlace Model, Built make → (declare make).Adds fun _ block =>
      ∃ m rest, block = m :: rest ∧ ∀ before, make.after before = (.ok m, before ++ rest)) ∧
    (∀ (name : String) (description : Option String) (properties : List (Property Schema))
        (additional : Option Schema) (shape context : String),
      (declareClass definitions name description properties additional shape context).Adds
        fun _ block => ∃ types rest,
          block = classOf name description (membersOf name [] properties types) additional.isSome
            shape :: rest ∧
          RunsAll (Site.plan definitions) (properties.map (Site.ofProperty name context)) types
            rest ∧
          Blocks definitions (properties.map (Site.ofProperty name context)) rest) ∧
    ∀ (schema : Schema) (hint context : String),
      (map definitions schema hint context).Adds fun t block =>
        (mapSchema definitions schema hint context).Runs t block ∧
          Block definitions ⟨schema, hint, context⟩ block ∧
          (isNameless schema = true → ∃ m rest, block = m :: rest ∧ t.name = m.name) := by
  refine ⟨fun make hmake => ?_, fun _ _ _ _ _ _ => ?_, fun schema hint context => ?_⟩
  · obtain ⟨p, rfl⟩ := hmake.exists_plan
    rw [← Plan.onto_declare]
    refine adds_onto fun h => ?_
    obtain ⟨m, rest, hrun, hms⟩ := h.declare_inv
    refine ⟨m, rest, hms, fun before => ?_⟩
    rw [Plan.after_onto, hrun.outcome, hrun.models]
  · rw [declareClass_eq]
    exact adds_onto declareClass_runs
  · rw [map_eq]
    refine adds_onto fun h => ?_
    have hsite := h
    rw [← Site.plan_mk] at hsite
    exact ⟨h, block_of_runs _ hsite, head_of_runs hsite⟩

/-- An object with an object and with strings inside. -/
def parcel : Schema :=
  .object none none
    [⟨"box", .object none none
        [⟨"unit", .primitive { kind := .string, enum := ["cm", "in"] }, true⟩] none, true⟩,
     ⟨"states", .array (.primitive { kind := .string, enum := ["sent"] }) none {}, false⟩]
    none

/-- A model that is declared before. -/
def letter : Model := .enumModel "Letter" none [] ""

/-- The names that work gives: of its value, and of the models that are declared then. -/
def namesAfter (x : InPlace TypeRef) (before : List Model) : Option String × List String :=
  ((x.after before).1.toOption.map (·.name), (x.after before).2.map (·.name))

theorem after_of_namesAfter {x : InPlace TypeRef} {before : List Model} {name : String}
    {names : List String} (h : namesAfter x before = (some name, names)) :
    ∃ t ms, x.after before = (.ok t, ms) ∧ t.name = name ∧ ms.map (·.name) = names := by
  obtain ⟨hname, hnames⟩ := Prod.mk.inj h
  obtain ⟨t, ht, htname⟩ := Option.map_eq_some_iff.mp hname
  exact ⟨t, _, Prod.ext (eq_ok_of_toOption ht) rfl, htname, hnames⟩

/-- A class for the object, one for the object inside, then its enum, and the other enum last; and a
declaration that maps this object on the way comes before all four. -/
theorem declares_preorder_parcel :
    ∃ t block, (map [] parcel "Parcel" "").after [letter] = (.ok t, letter :: block) ∧
      t.name = "Parcel" ∧
      block.map (·.name) = ["Parcel", "ParcelBox", "ParcelBoxUnit", "ParcelStates"] ∧
      Block [] ⟨parcel, "Parcel", ""⟩ block ∧ (∃ m rest, block = m :: rest ∧ m.name = "Parcel") ∧
      (declare (map [] parcel "Parcel" "" >>= fun _ => pure letter)).after [letter] =
        (.ok (), letter :: letter :: block) := by
  have hnames : namesAfter (map [] parcel "Parcel" "") [letter] =
      (some "Parcel", ["Letter", "Parcel", "ParcelBox", "ParcelBoxUnit", "ParcelStates"]) := by
    decide +kernel
  obtain ⟨t, ms, hafter, hname, hms⟩ := after_of_namesAfter hnames
  obtain ⟨hdeclare, -, hmap⟩ := declares_preorder []
  obtain ⟨block, rfl, -, hblock, hhead⟩ := (hmap parcel "Parcel" "" [letter]).2 t ms hafter
  obtain ⟨m, rest, hrest, hm⟩ := hhead rfl
  rw [hname] at hm
  refine ⟨t, block, hafter, hname, (List.cons.inj hms).2, hblock, ⟨m, rest, hrest, hm.symm⟩, ?_⟩
  -- the declaration: what making the model gives here is what it gives anywhere
  have hbuilt : Built (map [] parcel "Parcel" "" >>= fun _ => pure letter) :=
    .bind (built_map [] parcel "Parcel" "") fun _ => .pure letter
  have hmake : (map [] parcel "Parcel" "" >>= fun _ => pure letter).after [letter] =
      (.ok letter, letter :: block) := by
    rw [after_bind_ok hafter]
    rfl
  have hdone := after_declare_ok hmake
  obtain ⟨added, hadded, own, others, rfl, hown⟩ := (hdeclare _ hbuilt [letter]).2 () _ hdone
  obtain ⟨hletter, hothers⟩ := Prod.mk.inj (hmake.symm.trans (hown [letter]))
  rw [hdone, hadded, ← Except.ok.inj hletter, (List.cons.inj hothers).2]
  rfl

end InPlace

end ClientGen.CSharp
