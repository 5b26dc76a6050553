import ClientGen.Proofs.CSharp.Planned

/-!
# Chains of aliases

A definition that is itself a reference is an alias, and a reference to it is followed. What a
reference resolves to is decided where the chain of aliases ends.

* `Follows` — a number of aliases leads from one name to another.
* `resolveReference_of_follows` — resolving a name is resolving the end of its chain.
* `Resolves` — what a reference is if its chain is followed to the end, however long that is.
* `resolves_followReference` — where chains are short enough, references are followed to the end.
  `AliasesEnd` says that of all chains, and can be decided.
-/

namespace ClientGen.CSharp

/-- So many aliases lead from one name to another. A definition that goes by the name of any value
is any value and not an alias, whatever it refers to. -/
inductive Follows (definitions : Table Schema) : Nat → String → String → Prop
  | here (name : String) : Follows definitions 0 name name
  | step {n : Nat} {name next last : String} :
      typeName name ≠ anyType → definitions.get? name = some (.reference next) →
      Follows definitions n next last → Follows definitions (n + 1) name last

/-- Every chain of aliases ends before references are no longer followed. -/
def AliasesEnd (definitions : Table Schema) : Prop :=
  ∀ n name last, Follows definitions n name last → n < maxAliasDepth

variable {definitions : Table Schema} {context : String}

/-- Following a chain takes one step for each alias. -/
theorem followReference_of_follows {n : Nat} {name last : String}
    (h : Follows definitions n name last) (fuel : Nat) :
    followReference definitions context (n + fuel) name =
      followReference definitions context fuel last := by
  induction h with
  | here name => rw [Nat.zero_add]
  | @step n name next last hany hget _ ih =>
    rw [Nat.add_right_comm, followReference, hget]
    simp only [if_neg hany]
    exact ih

/-- Resolving a name is resolving the end of its chain. -/
theorem resolveReference_of_follows {n : Nat} {name last : String}
    (h : Follows definitions n name last) (hn : n < maxAliasDepth) :
    ∃ fuel, resolveReference definitions name context =
      followReference definitions context (fuel + 1) last := by
  obtain ⟨fuel, hfuel⟩ := Nat.exists_eq_add_of_lt hn
  refine ⟨fuel, ?_⟩
  rw [resolveReference, hfuel, Nat.add_assoc]
  exact followReference_of_follows h (fuel + 1)

/-- A definition that needs a model has the type of that name, a value type if it lists values. -/
theorem followReference_model {fuel : Nat} {last : String} {target : Schema}
    (hget : definitions.get? last = some target) (hany : typeName last ≠ anyType)
    (hneeds : needsModel target = true) :
    followReference definitions context (fuel + 1) last =
      .ok ⟨typeName last, target.isStringEnum⟩ := by
  rw [followReference, hget]
  simp only [if_neg hany]
  cases target with
  | reference _ => cases hneeds
  | object _ _ _ _ => rfl
  | array _ _ _ => rfl
  | primitive p =>
    have henum : p.isStringEnum = true := hneeds
    simp only [Schema.isStringEnum, henum]
    rfl

/-- What the end of a chain of aliases is. -/
inductive EndType (definitions : Table Schema) (last : String) : TypeRef → Prop
  | any : typeName last = anyType → EndType definitions last (.reference anyType)
  | model {target : Schema} : definitions.get? last = some target → typeName last ≠ anyType →
      needsModel target = true → EndType definitions last ⟨typeName last, target.isStringEnum⟩
  | primitive {p : Primitive} : definitions.get? last = some (.primitive p) →
      typeName last ≠ anyType → ¬ p.isStringEnum = true →
      EndType definitions last (primitiveType p)

/-- The end of a chain is reached in one step. -/
theorem followReference_of_endType {fuel : Nat} {last : String} {target : Schema} {t : TypeRef}
    (hget : definitions.get? last = some target) (h : EndType definitions last t) :
    followReference definitions context (fuel + 1) last = .ok t := by
  cases h with
  | any hany => simp [followReference, hget, hany]
  | model hget hany hneeds => exact followReference_model hget hany hneeds
  | primitive hget hany henum => simp [followReference, hget, hany, henum]

/-- The end of a chain is not an alias. -/
theorem EndType.get?_ne_reference {last : String} {t : TypeRef} (h : EndType definitions last t)
    (hany : typeName last ≠ anyType) (next : String) :
    definitions.get? last ≠ some (.reference next) := by
  intro halias
  cases h with
  | any h => exact hany h
  | model hget _ hneeds =>
    obtain rfl := Option.some.inj (hget.symm.trans halias)
    cases hneeds
  | primitive hget _ _ => cases hget.symm.trans halias

/-! ## What chains resolve to -/

/-- What a reference is if its chain is followed to the end, however many aliases there are. A name
without a definition is unresolved, also if it is the name of any value. -/
inductive Resolves (definitions : Table Schema) (context : String) :
    String → Except EmitError TypeRef → Prop
  | absent {name : String} : definitions.get? name = none →
      Resolves definitions context name (.error (.unresolvedReference name context))
  | ends {name : String} {target : Schema} {t : TypeRef} : definitions.get? name = some target →
      EndType definitions name t → Resolves definitions context name (.ok t)
  | step {name next : String} {r : Except EmitError TypeRef} :
      typeName name ≠ anyType → definitions.get? name = some (.reference next) →
      Resolves definitions context next r → Resolves definitions context name r

/-- **Chains end**: a reference whose chain is shorter than what is followed resolves to what the
end of the chain is. By induction on the steps that are left. -/
theorem resolves_followReference {fuel : Nat} :
    ∀ {name : String}, (∀ last, ¬ Follows definitions fuel name last) →
      Resolves definitions context name (followReference definitions context fuel name) := by
  induction fuel with
  | zero =>
    intro name hends
    exact absurd (Follows.here name) (hends name)
  | succ fuel ih =>
    intro name hends
    rcases hget : definitions.get? name with _ | target
    · rw [followReference, hget]
      exact .absent hget
    · have hresolves {t : TypeRef} (hend : EndType definitions name t) :
          Resolves definitions context name
            (followReference definitions context (fuel + 1) name) := by
        rw [followReference_of_endType hget hend]
        exact .ends hget hend
      by_cases hany : typeName name = anyType
      · exact hresolves (.any hany)
      · cases target with
        | object _ _ _ _ => exact hresolves (.model hget hany rfl)
        | array _ _ _ => exact hresolves (.model hget hany rfl)
        | primitive p =>
          by_cases henum : p.isStringEnum = true
          · exact hresolves (.model hget hany henum)
          · exact hresolves (.primitive hget hany henum)
        | reference next =>
          rw [followReference, hget]
          simp only [if_neg hany]
          exact .step hany hget (ih fun last hnext => hends last (.step hany hget hnext))

namespace Resolves

variable {name : String} {r r' : Except EmitError TypeRef}

/-- A reference has one meaning. -/
theorem unique (h : Resolves definitions context name r)
    (h' : Resolves definitions context name r') : r = r' := by
  induction h with
  | absent hget =>
    cases h' with
    | absent _ => rfl
    | ends hget' _ => cases hget.symm.trans hget'
    | step _ hget' _ => cases hget.symm.trans hget'
  | @ends name _ t hget hend =>
    cases h' with
    | absent hget' => cases hget.symm.trans hget'
    | ends hget' hend' =>
      have hname : followReference definitions context 1 name = .ok t :=
        followReference_of_endType hget hend
      exact hname.symm.trans (followReference_of_endType hget' hend')
    | step hany hget' _ => exact absurd hget' (hend.get?_ne_reference hany _)
  | step hany hget _ ih =>
    cases h' with
    | absent hget' => cases hget.symm.trans hget'
    | ends _ hend' => exact absurd hget (hend'.get?_ne_reference hany _)
    | step _ hget' hnext =>
      cases hget.symm.trans hget'
      exact ih hnext

/-- A reference with a meaning has a chain that ends. -/
theorem exists_not_follows (h : Resolves definitions context name r) :
    ∃ n, ∀ last, ¬ Follows definitions n name last := by
  induction h with
  | absent hget =>
    refine ⟨1, fun last hfollows => ?_⟩
    cases hfollows with
    | step _ hget' _ => cases hget.symm.trans hget'
  | ends _ hend =>
    refine ⟨1, fun last hfollows => ?_⟩
    cases hfollows with
    | step hany hget' _ => exact hend.get?_ne_reference hany _ hget'
  | step _ hget _ ih =>
    obtain ⟨n, hn⟩ := ih
    refine ⟨n + 1, fun last hfollows => ?_⟩
    cases hfollows with
    | step _ hget' hnext =>
      cases hget.symm.trans hget'
      exact hn last hnext

/-- A reference that is not unresolved is what the end of its chain is. -/
theorem exists_end {t : TypeRef} (h : Resolves definitions context name (.ok t)) :
    ∃ n last, Follows definitions n name last ∧ EndType definitions last t := by
  generalize hr : Except.ok t = r at h
  induction h with
  | absent _ => cases hr
  | ends _ hend =>
    cases hr
    exact ⟨0, _, .here _, hend⟩
  | step hany hget _ ih =>
    obtain ⟨n, last, hfollows, hend⟩ := ih hr
    exact ⟨n + 1, last, .step hany hget hfollows, hend⟩

end Resolves

theorem exists_end {fuel : Nat} {name : String} {t : TypeRef}
    (hends : ∀ n last, Follows definitions n name last → n < fuel)
    (h : followReference definitions context fuel name = .ok t) :
    ∃ n last, Follows definitions n name last ∧ EndType definitions last t := by
  have hresolves : Resolves definitions context name (.ok t) := by
    rw [← h]
    exact resolves_followReference fun last hlast => Nat.lt_irrefl fuel (hends fuel last hlast)
  exact hresolves.exists_end

/-! ## Deciding whether chains end -/

/-- Does the chain from a name have fewer aliases than that? -/
def endsBefore (definitions : Table Schema) : Nat → String → Bool
  | 0, _ => false
  | fuel + 1, name =>
    match definitions.get? name with
    | some (.reference next) => typeName name = anyType || endsBefore definitions fuel next
    | _ => true

theorem endsBefore_iff {fuel : Nat} :
    ∀ {name : String}, endsBefore definitions fuel name = true ↔
      ∀ n last, Follows definitions n name last → n < fuel := by
  induction fuel with
  | zero =>
    intro name
    refine ⟨fun h => (nomatch h), fun h => ?_⟩
    exact absurd (h 0 name (Follows.here name)) (Nat.lt_irrefl 0)
  | succ fuel ih =>
    intro name
    constructor
    · intro h n last hfollows
      cases hfollows with
      | here => exact Nat.succ_pos fuel
      | @step n _ next _ hany hget hnext =>
        rw [endsBefore, hget] at h
        simp only [decide_eq_false hany, Bool.false_or] at h
        exact Nat.succ_lt_succ (ih.mp h n last hnext)
    · intro h
      rw [endsBefore]
      split
      · next next hget =>
        by_cases hany : typeName name = anyType
        · rw [decide_eq_true hany, Bool.true_or]
        · rw [decide_eq_false hany, Bool.false_or, ih]
          intro n last hnext
          exact Nat.lt_of_succ_lt_succ (h (n + 1) last (Follows.step hany hget hnext))
      · rfl

/-- Only the chains from definitions need to be looked at. -/
theorem aliasesEnd_iff : AliasesEnd definitions ↔
    ∀ name ∈ definitions.names, endsBefore definitions maxAliasDepth name = true := by
  constructor
  · exact fun h name _ => endsBefore_iff.mpr (h · name)
  · intro h n name last hfollows
    cases hfollows with
    | here => decide
    | step hany hget hnext =>
      have hmem : name ∈ definitions.names := by
        by_contra hnot
        rw [(Table.get?_eq_none_iff definitions name).mpr hnot] at hget
        cases hget
      exact endsBefore_iff.mp (h name hmem) _ last (Follows.step hany hget hnext)

instance : Decidable (AliasesEnd definitions) := decidable_of_iff' _ aliasesEnd_iff

end ClientGen.CSharp
