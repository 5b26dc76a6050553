import ClientGen.Proofs.CSharp.Planned
import ClientGen.Proofs.CSharp.Signature
import ClientGen.Proofs.Name.Normalize

/-!
# Names of methods

Every operation is given a name of its own: its base name, or the name of its route, or that with a
number.

* **Identifiers** (`isIdentifier_methodBaseName`, `isIdentifier_routeName`): names that are made of
  a method and path segments start with the letters of the method, and have letters and digits only.
* **One name** (`namedAfter_methodName`, `NamedAfter.notMem`): which of the three it is depends on
  the names that are given out already, and it is none of these.
* **All names** (`methodsNamed_methodNames`): by induction over the operations, each is named after
  those before it. `client_methodsNamed` says so of the client of a specification.
-/

namespace ClientGen

/-! ## Identifiers -/

namespace Name

theorem isAlphanum_of_mem_segmentChars (segment : List Char) :
    ∀ c ∈ segmentChars segment, c.isAlphanum = true := by
  rw [segmentChars]
  split
  · simp
  · refine Text.isAlphanum_of_mem_pascalCase fun c hc => ?_
    exact isIdentifierChar_of_mem_sanitizeChars c (List.dropWhile_suffix _ |>.mem hc)

theorem isAlphanum_of_mem_routeSegment (segment : List Char) :
    ∀ c ∈ routeSegment segment, c.isAlphanum = true := by
  rw [routeSegment]
  split
  · next parameter _ =>
    simp only [List.forall_mem_cons]
    exact ⟨by decide, by decide, isAlphanum_of_mem_segmentChars parameter⟩
  · exact isAlphanum_of_mem_segmentChars segment

/-- Letters and digits after a letter are an identifier. -/
theorem isIdentifier_of_isAlphanum {c : Char} {s : List Char} (hc : c.isDigit = false)
    (h : ∀ d ∈ c :: s, d.isAlphanum = true) : isIdentifier (c :: s) = true :=
  isIdentifier_iff.mpr ⟨fun d hd => isIdentifierChar_of_isAlphanum (h d hd), c, s, rfl, hc⟩

/-- The verb of a method: letters, and the first one is a letter in upper case as well. -/
theorem verb_cases (method : Method) : ∃ c s, method.upper.toList.map Char.toLower = c :: s ∧
    c.toUpper.isDigit = false ∧ ∀ d ∈ c :: s, d.isAlphanum = true := by
  cases method <;> exact ⟨_, _, rfl, by decide, List.all_eq_true.mp (by decide)⟩

/-- **Verbs**: what starts with a verb, and has letters and digits only, is an identifier. -/
theorem isIdentifier_of_verb (method : Method) (front back : List Char)
    (hfront : ∀ c ∈ front, c.isAlphanum = true) (hback : ∀ c ∈ back, c.isAlphanum = true) :
    isIdentifier (Text.pascalCase (method.upper.toList.map Char.toLower ++ front) ++ back) =
      true := by
  obtain ⟨c, s, hverb, hdigit, hchars⟩ := verb_cases method
  rw [hverb, List.cons_append]
  obtain ⟨hc, hs⟩ := List.forall_mem_cons.mp hchars
  have hwords : ∀ d ∈ Text.pascalCase (c :: (s ++ front)), d.isAlphanum = true := by
    refine Text.isAlphanum_of_mem_pascalCase fun d hd => isIdentifierChar_of_isAlphanum ?_
    rw [← List.cons_append] at hd
    exact List.forall_mem_append.mpr ⟨hchars, hfront⟩ d hd
  obtain ⟨rest, hrest⟩ := Text.pascalCase_cons hc (s ++ front)
  rw [hrest] at hwords ⊢
  exact isIdentifier_of_isAlphanum hdigit (List.forall_mem_append.mpr ⟨hwords, hback⟩)

end Name

namespace CSharp

open Name (isIdentifier isIdentifier_numbered numbered numbered_one numbered_of_two_le)

theorem isIdentifier_methodBaseName (op : Operation) :
    isIdentifier (methodBaseName op).toList = true := by
  rw [methodBaseName]
  split
  · exact Name.isIdentifier_normalize (by decide) _
  · rw [Name.ofFirstSegment, String.toList_ofList]
    have hverb := Name.isIdentifier_of_verb op.method [] _ (by simp)
      (Name.isAlphanum_of_mem_segmentChars
        (Text.trimBoth Name.isBrace ((Name.segments op.path.toList).headD [])))
    rwa [List.append_nil] at hverb

/-- The name of the route of an operation. -/
def routeName (op : Operation) : String :=
  String.ofList (Text.pascalCase (Name.ofRoute op.method.upper op.path).toList)

theorem isIdentifier_routeName (op : Operation) : isIdentifier (routeName op).toList = true := by
  rw [routeName, String.toList_ofList, Name.ofRoute, String.toList_ofList]
  have hsegments : ∀ c ∈ (Name.segments op.path.toList).flatMap Name.routeSegment,
      c.isAlphanum = true := by
    intro c hc
    obtain ⟨segment, -, hc⟩ := List.mem_flatMap.mp hc
    exact Name.isAlphanum_of_mem_routeSegment segment c hc
  have hverb := Name.isIdentifier_of_verb op.method _ [] hsegments (by simp)
  rwa [List.append_nil] at hverb

/-! ## One name -/

/-- What an operation is named, given the names of those before it. -/
inductive NamedAfter (earlier : List String) (op : Operation) : String → Prop
  /-- its base name is free -/
  | base : methodBaseName op ∉ earlier → NamedAfter earlier op (methodBaseName op)
  /-- its base name is taken, that of its route is free -/
  | route : methodBaseName op ∈ earlier → routeName op ∉ earlier →
      NamedAfter earlier op (routeName op)
  /-- both are taken, and the number is the least that makes the name of the route free -/
  | numbered {n : Nat} : methodBaseName op ∈ earlier → routeName op ∈ earlier → 2 ≤ n →
      routeName op ++ toString n ∉ earlier →
      (∀ i, 2 ≤ i → i < n → routeName op ++ toString i ∈ earlier) →
      NamedAfter earlier op (routeName op ++ toString n)

theorem namedAfter_methodName (op : Operation) (taken : List String) :
    NamedAfter taken op (methodName op taken) := by
  by_cases hbase : methodBaseName op ∈ taken
  · have hname : methodName op taken = Name.uniqueName (routeName op) taken := if_pos hbase
    obtain ⟨n, hn, hunique, hfree, hbefore⟩ := Name.uniqueName_spec (routeName op) taken
    rw [hname, hunique]
    rcases Nat.lt_or_eq_of_le hn with htwo | rfl
    · rw [numbered_of_two_le _ htwo] at hfree ⊢
      refine .numbered hbase (hbefore 1 (Nat.le_refl 1) htwo) htwo hfree fun i hi hlt => ?_
      rw [← numbered_of_two_le _ hi]
      exact hbefore i (by omega) hlt
    · exact .route hbase hfree
  · have hname : methodName op taken = methodBaseName op := if_neg hbase
    rw [hname]
    exact .base hbase

namespace NamedAfter

variable {earlier : List String} {op : Operation} {name : String}

theorem notMem (h : NamedAfter earlier op name) : name ∉ earlier := by
  cases h with
  | base hfree => exact hfree
  | route _ hfree => exact hfree
  | numbered _ _ _ hfree _ => exact hfree

theorem identifier (h : NamedAfter earlier op name) : isIdentifier name.toList = true := by
  cases h with
  | base _ => exact isIdentifier_methodBaseName op
  | route _ _ => exact isIdentifier_routeName op
  | @numbered n _ _ htwo _ _ =>
    rw [← numbered_of_two_le _ htwo]
    exact isIdentifier_numbered (isIdentifier_routeName op) (by omega)

end NamedAfter

/-! ## All names -/

theorem length_methodNames {ops : List Operation} :
    ∀ {taken : List String}, (methodNames taken ops).length = ops.length := by
  induction ops with
  | nil => intros; rfl
  | cons op ops ih => simp [methodNames, ih]

/-- **Each operation is named after those before it**, by induction over the operations: what is
given out is taken from then on. -/
theorem namedAfter_methodNames {ops : List Operation} {op : Operation} {name : String} :
    ∀ (taken : List String) {i : Nat}, ops[i]? = some op → (methodNames taken ops)[i]? = some name →
      NamedAfter (taken ++ (methodNames taken ops).take i) op name := by
  induction ops with
  | nil =>
    intro taken i hop
    simp at hop
  | cons first ops ih =>
    intro taken i hop hname
    cases i with
    | zero =>
      obtain rfl : first = op := by simpa using hop
      obtain rfl : methodName first taken = name := by simpa [methodNames] using hname
      simpa using namedAfter_methodName first taken
    | succ i =>
      rw [methodNames, List.getElem?_cons_succ] at hname
      simpa [methodNames] using ih _ hop hname

/-- The operations have these names: distinct identifiers, and each is named after those before. -/
structure MethodsNamed (ops : List Operation) (names : List String) : Prop where
  length_eq : names.length = ops.length
  distinct : names.Nodup
  identifiers : ∀ name ∈ names, isIdentifier name.toList = true
  named : ∀ {i : Nat} {op : Operation} {name : String}, ops[i]? = some op →
    names[i]? = some name → NamedAfter (names.take i) op name

theorem methodsNamed_methodNames (ops : List Operation) :
    MethodsNamed ops (methodNames [] ops) := by
  have hlength : (methodNames [] ops).length = ops.length := length_methodNames
  have hnamed {i : Nat} (hi : i < (methodNames [] ops).length) :
      NamedAfter ((methodNames [] ops).take i) (ops[i]) (methodNames [] ops)[i] :=
    namedAfter_methodNames [] (List.getElem?_eq_getElem _) (List.getElem?_eq_getElem hi)
  refine ⟨hlength, ?_, ?_, namedAfter_methodNames []⟩
  · refine List.pairwise_iff_getElem.mpr fun i j hi hj hlt heq => (hnamed hj).notMem ?_
    rw [← heq, List.mem_take_iff_getElem]
    exact ⟨i, by omega, rfl⟩
  · intro name hname
    obtain ⟨i, hi, rfl⟩ := List.mem_iff_getElem.mp hname
    exact (hnamed hi).identifier

/-! ## Clients -/

theorem name_of_planMethod {spec : Specification} {options : EmitOptions} {item : PathItem}
    {op : Operation} {name : String} {method : ClientMethod} {ms : List Model}
    (h : (planMethod spec options item op name).Runs method ms) :
    method.name = name ++ "Async" := by
  rw [planMethod] at h
  obtain ⟨signature, _, _, -, hrest, -⟩ := h.bind_inv
  obtain ⟨_, -, rfl⟩ := hrest.bind_pure_inv
  rfl

/-- **Methods have names of their own.** The methods of a client are the operations of its
specification, in the order of the document, under their names. -/
theorem client_methodsNamed {spec : Specification} {options : EmitOptions} {client : Client}
    (h : (planClient spec options).outcome = .ok client) :
    ∃ names, client.methods.map (·.name) = names.map (· ++ "Async") ∧
      MethodsNamed (spec.operations.map (·.2)) names := by
  have hrun : (planClient spec options).Runs client _ := ⟨h, rfl⟩
  rw [planClient] at hrun
  obtain ⟨methods, hmethods, rfl⟩ := hrun.bind_pure_inv
  have hnames : methods.map (·.name) =
      (namedOperations spec).map (fun entry => entry.2 ++ "Async") :=
    hmethods.mapM_inv.map_eq name_of_planMethod
  refine ⟨methodNames [] (spec.operations.map (·.2)), ?_, methodsNamed_methodNames _⟩
  calc methods.map (·.name)
      = ((namedOperations spec).map (·.2)).map (· ++ "Async") := by rw [List.map_map]; exact hnames
    _ = (methodNames [] (spec.operations.map (·.2))).map (· ++ "Async") := by
        rw [namedOperations, List.map_snd_zip]
        simp [length_methodNames]

/-- A way to get something. -/
def getFrom (path : String) (operationId : Option String) : PathItem :=
  ⟨path, [], [{ listItems with path, operationId, parameters := [], responses := [] }]⟩

/-- Three ways to get pets. The second has the base name and the route of the first, and the third
goes by the name that the second is given. -/
def petRoutes : Specification :=
  specOf "pets.json" "Pets" []
    [getFrom "/pets" none, getFrom "/pets/" none, getFrom "/pets/\x7bid\x7d" (some "Get Pets2")]

/-- The one keeps its base name, the next is numbered, and the last is named for its route. -/
theorem client_methodsNamed_petRoutes : ∃ client,
    (planClient petRoutes {}).outcome = .ok client ∧
      client.methods.map (·.name) = ["GetPetsAsync", "GetPets2Async", "GetPetsByIdAsync"] ∧
      ∃ names, client.methods.map (·.name) = names.map (· ++ "Async") ∧
        MethodsNamed (petRoutes.operations.map (·.2)) names := by
  have hnames : (planClient petRoutes {}).outcome.toOption.map (fun c => c.methods.map (·.name)) =
      some ["GetPetsAsync", "GetPets2Async", "GetPetsByIdAsync"] := by decide +kernel
  obtain ⟨client, hclient, hmethods⟩ := Option.map_eq_some_iff.mp hnames
  have hok := eq_ok_of_toOption hclient
  exact ⟨client, hok, hmethods, client_methodsNamed hok⟩

end CSharp

end ClientGen
