import ClientGen.Proofs.CSharp.Scope

/-!
# References that are followed to their end

A reference should be what the end of its chain of aliases is, however many aliases there are, and
should not resolve if there is no end. That is so of chains with fewer aliases than are followed. On
a longer one the name that is reached last is taken as it is, and nothing may be declared by that
name.

* `Declared` — a type stands for a model that the definitions of a specification are planned with.
* `Endless` — a chain of aliases without an end.
* `resolves_or_endless` — any other chain has one.
* `followsAliases_iff` — where references are followed to their end, and what they are elsewhere.
-/

namespace ClientGen.CSharp

/-- A definition has that name and needs a model, and wherever the definitions are planned there is
one, which is an enum exactly if the type is a value type. -/
structure Declared (spec : Specification) (t : TypeRef) : Prop where
  defined : ∃ entry ∈ spec.definitions, typeName entry.1 = t.name ∧ needsModel entry.2 = true
  planned : ∀ ms, (planDefinitions spec).Runs () ms →
    ∃ m ∈ ms, m.name = t.name ∧ m.isEnum = t.isValue

/-- The end of a chain is built in or declared. -/
theorem EndType.declared {spec : Specification} {last : String} {t : TypeRef}
    (h : EndType spec.definitions last t) : t.name ∈ builtinTypes ∨ Declared spec t := by
  cases h with
  | any _ => exact .inl (by simp [builtinTypes, TypeRef.reference])
  | primitive _ _ _ => exact .inl (name_primitiveType_mem _)
  | @model target hget hany hneeds =>
    have hmem := Table.mem_of_get? hget
    refine .inr ⟨⟨(last, target), hmem, by dsimp only, hneeds⟩, fun ms hruns => ?_⟩
    obtain ⟨-, hdefined, -⟩ := planDefinitions_runs hruns
    obtain ⟨m, hm, rest, hmake⟩ := hdefined (last, target) hmem hany hneeds
    dsimp only at hmake ⊢
    exact ⟨m, hm, hmake.name_eq, hmake.isEnum_eq⟩

/-- There is always one more alias. -/
def Endless (definitions : Table Schema) (name : String) : Prop :=
  ∀ n, ∃ last, Follows definitions n name last

/-- **Every reference has a meaning, or has no end.** -/
theorem resolves_or_endless (definitions : Table Schema) (name context : String) :
    (∃ r, Resolves definitions context name r) ∨ Endless definitions name := by
  by_cases hends : ∃ n, ∀ last, ¬ Follows definitions n name last
  · obtain ⟨n, hn⟩ := hends
    exact .inl ⟨_, resolves_followReference hn⟩
  · push Not at hends
    exact .inr hends

/-- Past the bound, the name that has been reached is taken as it is. -/
theorem resolveReference_of_long {definitions : Table Schema} {name cut : String}
    (h : Follows definitions maxAliasDepth name cut) (context : String) :
    resolveReference definitions name context = .ok (.reference (typeName cut)) :=
  followReference_of_follows h 0

/-- A reference is followed to its end. -/
structure FollowsAliases (spec : Specification) (name context : String) : Prop where
  /-- it resolves to what the end is, or does not resolve if that is missing -/
  resolves : ∀ r, Resolves spec.definitions context name r →
    resolveReference spec.definitions name context = r
  /-- it does not resolve if there is no end -/
  endless : Endless spec.definitions name →
    ∃ missing, resolveReference spec.definitions name context =
      .error (.unresolvedReference missing context)
  /-- the type that it resolves to is built in or declared -/
  declared : ∀ t, resolveReference spec.definitions name context = .ok t →
    t.name ∈ builtinTypes ∨ Declared spec t

theorem followsAliases_of_resolves {spec : Specification} {name context : String}
    (h : Resolves spec.definitions context name (resolveReference spec.definitions name context)) :
    FollowsAliases spec name context := by
  refine ⟨fun r hr => h.unique hr, fun hendless => ?_, fun t ht => ?_⟩
  · obtain ⟨n, hn⟩ := h.exists_not_follows
    obtain ⟨last, hlast⟩ := hendless n
    exact absurd hlast (hn last)
  · rw [ht] at h
    obtain ⟨n, last, -, hend⟩ := h.exists_end
    exact hend.declared

/-- **Where references are followed to their end**: exactly if they have fewer aliases than are
followed, or the end of the chain happens to be the class of the name where it is cut. Every longer
chain is cut there and resolves. -/
theorem followsAliases_iff (spec : Specification) (name context : String) :
    (FollowsAliases spec name context ↔
      (∀ last, ¬ Follows spec.definitions maxAliasDepth name last) ∨
        ∃ cut, Follows spec.definitions maxAliasDepth name cut ∧
          Resolves spec.definitions context name (.ok (.reference (typeName cut)))) ∧
      ∀ cut, Follows spec.definitions maxAliasDepth name cut →
        resolveReference spec.definitions name context = .ok (.reference (typeName cut)) := by
  refine ⟨⟨fun h => ?_, ?_⟩, fun cut hcut => resolveReference_of_long hcut context⟩
  · by_cases hlong : ∃ cut, Follows spec.definitions maxAliasDepth name cut
    · obtain ⟨cut, hcut⟩ := hlong
      have hresolve := resolveReference_of_long hcut context
      rcases resolves_or_endless spec.definitions name context with ⟨r, hr⟩ | hendless
      · refine .inr ⟨cut, hcut, ?_⟩
        rwa [← hresolve, h.resolves r hr]
      · obtain ⟨missing, hmissing⟩ := h.endless hendless
        cases hresolve.symm.trans hmissing
    · exact .inl (not_exists.mp hlong)
  · rintro (hshort | ⟨cut, hcut, hresolves⟩)
    · exact followsAliases_of_resolves (resolves_followReference hshort)
    · rw [← resolveReference_of_long hcut context] at hresolves
      exact followsAliases_of_resolves hresolves

/-- So many aliases, one of the next, and then an enum. -/
def aliasChain (n : Nat) : Table Schema :=
  (List.range n).map (fun i => ("A" ++ toString i, .reference ("A" ++ toString (i + 1)))) ++
    [("A" ++ toString n, .primitive { kind := .string, enum := ["red"] })]

/-- The longest chain that is followed to its end. -/
theorem followsAliases_iff_aliasChain :
    (∀ last, ¬ Follows (aliasChain 15) maxAliasDepth "A0" last) ∧
      resolveReference (aliasChain 15) "A0" "a" = .ok (.value "A15") ∧
      FollowsAliases (specOf "a.json" "A" (aliasChain 15) []) "A0" "a" := by
  have hends : endsBefore (aliasChain 15) maxAliasDepth "A0" = true := by decide +kernel
  have hshort : ∀ last, ¬ Follows (aliasChain 15) maxAliasDepth "A0" last :=
    fun last hfollows => Nat.lt_irrefl _ (endsBefore_iff.mp hends _ last hfollows)
  refine ⟨hshort, eq_ok_of_toOption (by decide +kernel), ?_⟩
  exact (followsAliases_iff (specOf "a.json" "A" (aliasChain 15) []) "A0" "a").1.mpr (.inl hshort)

/-- A definition that refers to itself. -/
def selfAlias : Specification := specOf "a.json" "A" [("A", .reference "A")] []

/-- **A type out of nothing**: the definition has no end, and yet it resolves, to a class that is
not declared. -/
theorem not_followsAliases_selfAlias :
    Endless selfAlias.definitions "A" ∧
      resolveReference selfAlias.definitions "A" "a" = .ok (.reference "A") ∧
      (planDefinitions selfAlias).models = [] ∧ ¬ FollowsAliases selfAlias "A" "a" := by
  have hendless : Endless selfAlias.definitions "A" := by
    intro n
    refine ⟨"A", ?_⟩
    induction n with
    | zero => exact .here "A"
    | succ n ih => exact .step (by decide +kernel) rfl ih
  have hresolve : resolveReference selfAlias.definitions "A" "a" = .ok (.reference "A") :=
    eq_ok_of_toOption (by decide +kernel)
  refine ⟨hendless, hresolve, by decide +kernel, fun h => ?_⟩
  obtain ⟨missing, hmissing⟩ := h.endless hendless
  cases hresolve.symm.trans hmissing

end ClientGen.CSharp
