import ClientGen.Proofs.CSharp.Scope
import ClientGen.Proofs.Name.Unique
import ClientGen.Proofs.Name.Words

/-!
# Signatures of methods

* **Names of parameters** (`parameterName_cases`): a parameter is named by an identifier that is no
  reserved word, or by a reserved word after an `@`. A number behind it does not change that
  (`isUsable_numbered`).
* **Escapes** (`nodup_bareNames_iff`): `@name` and `name` are the same identifier, although they are
  different texts. The escaped names of a signature are the reserved words with numbers from 1 to as
  many parameters as go by that word (`escaped_mem_iff`).
* **Signatures** (`signature_wellFormed`): the arguments of an operation come in the order that the
  language asks for, under usable names that are distinct as texts. They are distinct as identifiers
  exactly if no name is a reserved word with one of the numbers that its parameters have been given.
-/

namespace ClientGen.CSharp

open Name (isIdentifier isIdentifier_iff isIdentifier_numbered numbered numbered_one
  numbered_of_two_le toList_numbered uniqueNames)

/-! ## Names of parameters -/

/-- A name without the `@` that escapes it. -/
def bareName (name : String) : String :=
  match name.toList with
  | '@' :: rest => String.ofList rest
  | _ => name

/-- A name that a parameter can have: it is an identifier, maybe escaped, and no reserved word
unless it is escaped. -/
def IsUsable (name : String) : Prop := isIdentifier (bareName name).toList = true ∧ name ∉ keywords

theorem bareName_escaped (name : String) : bareName ("@" ++ name) = name := by
  simp [bareName]

theorem head?_of_isIdentifier {s : List Char} (h : isIdentifier s = true) : s.head? ≠ some '@' := by
  obtain ⟨hchars, c, rest, rfl, -⟩ := isIdentifier_iff.mp h
  rintro hc
  obtain rfl : c = '@' := by simpa using hc
  exact absurd (hchars _ List.mem_cons_self) (by decide)

theorem bareName_eq_self {name : String} (h : name.toList.head? ≠ some '@') :
    bareName name = name := by
  rw [bareName]
  split
  · next hs => simp [hs] at h
  · rfl

theorem bareName_cases (name : String) : name = "@" ++ bareName name ∨ name = bareName name := by
  by_cases h : name.toList.head? = some '@'
  · obtain ⟨rest, hrest⟩ := List.head?_eq_some_iff.mp h
    refine .inl (String.toList_inj.mp ?_)
    simp [bareName, hrest]
  · exact .inr (bareName_eq_self h).symm

/-- A reserved word is an identifier without digits. -/
theorem of_mem_keywords {word : String} (h : word ∈ keywords) :
    isIdentifier word.toList = true ∧ ∀ c ∈ word.toList, c.isDigit = false := by
  have hall : keywords.all (fun word => isIdentifier word.toList &&
      word.toList.all fun c => !c.isDigit) = true := by decide +kernel
  simpa using List.all_eq_true.mp hall word h

theorem isIdentifier_fixStart {s : List Char} (h : ∀ c ∈ s, c.isAlphanum = true) :
    isIdentifier (fixStart s) = true := by
  have hchars : ∀ c ∈ s, Name.isIdentifierChar c = true := fun c hc =>
    Name.isIdentifierChar_of_isAlphanum (h c hc)
  rw [isIdentifier_iff]
  cases s with
  | nil => exact ⟨by simp [fixStart, Name.isIdentifierChar], '_', [], rfl, rfl⟩
  | cons c s =>
    simp only [fixStart]
    split
    · exact ⟨List.forall_mem_cons.mpr ⟨by decide, hchars⟩, '_', _, rfl, rfl⟩
    · next hdigit => exact ⟨hchars, c, s, rfl, Bool.eq_false_iff.mpr hdigit⟩

/-- What a parameter is named by: a reserved word that is escaped, or an identifier. -/
inductive ParameterBase (base : String) : Prop
  | escaped {word : String} : word ∈ keywords → base = "@" ++ word → ParameterBase base
  | plain : isIdentifier base.toList = true → base ∉ keywords → ParameterBase base

theorem parameterName_cases (raw : String) : ParameterBase (parameterName raw) := by
  simp only [parameterName, escapeKeyword]
  split
  · next hword => exact .escaped hword rfl
  · next hword =>
    refine .plain ?_ hword
    rw [String.toList_ofList]
    exact isIdentifier_fixStart (Text.isAlphanum_of_mem_camelCase
      Name.isIdentifierChar_of_mem_sanitizeChars)

/-! ### Numbers behind names -/

/-- A name with a number is no reserved word. -/
theorem numbered_notMem_keywords (base : String) {n : Nat} (htwo : 2 ≤ n) :
    numbered base n ∉ keywords := by
  intro hmem
  obtain ⟨d, hd⟩ := List.exists_mem_of_ne_nil _ (Nat.toDigits_ne_nil (n := n) (b := 10))
  have hdigit := Nat.isDigit_of_mem_toDigits (by decide) (Nat.le_refl 10) hd
  have hnone := (of_mem_keywords hmem).2 d (by simp [toList_numbered base htwo, hd])
  rw [hdigit] at hnone
  cases hnone

theorem notMem_keywords_numbered {base : String} (h : base ∉ keywords) {n : Nat} (hn : 1 ≤ n) :
    numbered base n ∉ keywords := by
  rcases Nat.lt_or_eq_of_le hn with htwo | rfl
  · exact numbered_notMem_keywords base htwo
  · exact h

theorem numbered_escaped (word : String) (n : Nat) :
    numbered ("@" ++ word) n = "@" ++ numbered word n := by
  simp only [numbered]
  split
  · rfl
  · rw [String.append_assoc]

/-- **Parameters have usable names**, with a number or without. -/
theorem isUsable_numbered {base : String} (h : ParameterBase base) {n : Nat} (hn : 1 ≤ n) :
    IsUsable (numbered base n) := by
  cases h with
  | @escaped word hword hbase =>
    have hident := isIdentifier_numbered (of_mem_keywords hword).1 hn
    rw [hbase, numbered_escaped]
    refine ⟨by rwa [bareName_escaped], fun hmem => ?_⟩
    exact head?_of_isIdentifier (of_mem_keywords hmem).1 (by simp)
  | plain hident hword =>
    have hnumbered := isIdentifier_numbered hident hn
    refine ⟨by rwa [bareName_eq_self (head?_of_isIdentifier hnumbered)], ?_⟩
    exact notMem_keywords_numbered hword hn

/-- Without the digits, the word is left. -/
theorem filter_numbered {word : String} (h : word ∈ keywords) {n : Nat} (hn : 1 ≤ n) :
    (numbered word n).toList.filter (fun c => !c.isDigit) = word.toList := by
  have hword : word.toList.filter (fun c => !c.isDigit) = word.toList :=
    List.filter_eq_self.mpr fun c hc => by simp [(of_mem_keywords h).2 c hc]
  rcases Nat.lt_or_eq_of_le hn with htwo | rfl
  · have hdigits : (Nat.toDigits 10 n).filter (fun c => !c.isDigit) = [] :=
      List.filter_eq_nil_iff.mpr fun c hc => by
        simp [Nat.isDigit_of_mem_toDigits (by decide) (Nat.le_refl 10) hc]
    rw [toList_numbered word htwo, List.filter_append, hword, hdigits, List.append_nil]
  · exact hword

/-- No other base runs into the numbers of a reserved word. -/
theorem apart_escaped {word other : String} (hword : word ∈ keywords) (h : ParameterBase other)
    (hne : other ≠ "@" ++ word) : Name.Apart ("@" ++ word) other := by
  intro m n hm hn heq
  rw [numbered_escaped] at heq
  cases h with
  | @escaped word' hword' hother =>
    rw [hother, numbered_escaped] at heq
    have hnumbered : numbered word m = numbered word' n := by simpa using heq
    have hwords : word.toList = word'.toList := by
      rw [← filter_numbered hword hm, hnumbered, filter_numbered hword' hn]
    exact hne (by rw [hother, String.toList_inj.mp hwords])
  | plain hident _ =>
    refine head?_of_isIdentifier (isIdentifier_numbered hident hn) ?_
    rw [← heq]
    simp

/-! ## Escapes -/

/-- **Names are distinct as identifiers** if none of them is there with an escape and without. -/
theorem nodup_bareNames_iff {names : List String} (hnodup : names.Nodup)
    (husable : ∀ name ∈ names, IsUsable name) :
    (names.map bareName).Nodup ↔ ∀ name, "@" ++ name ∈ names → name ∉ names := by
  rw [List.nodup_map_iff_inj_on hnodup]
  constructor
  · intro hinj name hescaped hname
    have hident := (husable _ hescaped).1
    rw [bareName_escaped] at hident
    have hbare := bareName_eq_self (head?_of_isIdentifier hident)
    have heq := hinj _ hescaped _ hname (by rw [bareName_escaped, hbare])
    simpa using congrArg String.length heq
  · intro hnone name hname other hother hbare
    rcases bareName_cases name with hn | hn <;> rcases bareName_cases other with ho | ho
    · rw [hn, ho, hbare]
    · rw [hn, hbare, ← ho] at hname
      exact absurd hother (hnone other hname)
    · rw [ho, ← hbare, ← hn] at hother
      exact absurd hname (hnone name hother)
    · rw [hn, ho, hbare]

/-- The names that are taken before the parameters are named. -/
def takenNames (op : Operation) : List String :=
  bodyLocals ++ (if op.oauthSecured then [tokenArgument] else []).map (·.ident)

theorem head?_of_mem_takenNames {op : Operation} : ∀ name ∈ takenNames op,
    name.toList.head? ≠ some '@' := by
  cases h : op.oauthSecured <;> simp only [takenNames, h] <;> decide

/-- What parameters are named by. -/
def parameterBases (parameters : List Parameter) : List String :=
  parameters.map fun p => parameterName p.name

theorem parameterBase_of_mem {parameters : List Parameter} {base : String}
    (h : base ∈ parameterBases parameters) : ParameterBase base := by
  obtain ⟨p, -, rfl⟩ := List.mem_map.mp h
  exact parameterName_cases p.name

/-- **Escaped names**: a reserved word has been given the numbers up to that of the parameters that
it names. -/
theorem escaped_mem_iff {op : Operation} {parameters : List Parameter} {word : String}
    (hword : word ∈ keywords) {n : Nat} (hn : 1 ≤ n) :
    "@" ++ numbered word n ∈ uniqueNames (takenNames op) (parameterBases parameters) ↔
      n ≤ (parameterBases parameters).count ("@" ++ word) := by
  have hfree (i : Nat) : numbered ("@" ++ word) i ∉ takenNames op := fun hmem =>
    head?_of_mem_takenNames _ hmem (by simp [numbered_escaped])
  have hnone : ∀ i, 1 ≤ i → (numbered ("@" ++ word) i ∈ takenNames op ↔ i ≤ 0) := by
    intro i hi
    simp only [hfree i, false_iff]
    omega
  have hapart : ∀ other ∈ parameterBases parameters, other ≠ "@" ++ word →
      Name.Apart ("@" ++ word) other :=
    fun other hother => apart_escaped hword (parameterBase_of_mem hother)
  have hiff := Name.numbered_mem_uniqueNames_iff hapart hnone n hn
  rwa [List.mem_append, or_iff_right (hfree n), numbered_escaped, Nat.zero_add] at hiff

/-! ## Arguments -/

theorem idents_argumentsOf {ps : List Parameter} :
    ∀ {taken : List String} {types : List TypeRef}, types.length = ps.length →
      (argumentsOf taken ps types).map (·.ident) =
        uniqueNames (bodyLocals ++ taken) (parameterBases ps) := by
  induction ps with
  | nil => intros; rfl
  | cons p ps ih =>
    intro taken types hlength
    obtain ⟨t, types, rfl⟩ := List.exists_cons_of_length_eq_add_one hlength
    simp only [argumentsOf, List.map_cons, ih (Nat.succ.inj hlength), ← List.append_assoc,
      argumentOf, parameterBases, uniqueNames]

theorem data_argumentsOf {ps : List Parameter} :
    ∀ {taken : List String} {types : List TypeRef}, types.length = ps.length →
      (argumentsOf taken ps types).map (fun a => (a.wireName, a.required)) =
        ps.map fun p => (p.name, p.required) := by
  induction ps with
  | nil => intros; rfl
  | cons p ps ih =>
    intro taken types hlength
    obtain ⟨t, types, rfl⟩ := List.exists_cons_of_length_eq_add_one hlength
    simp only [argumentsOf, List.map_cons, ih (Nat.succ.inj hlength), argumentOf]

theorem argumentKind_ne_token (payload : Payload) : argumentKind payload ≠ .token := by
  fun_cases argumentKind payload <;> simp

theorem kind_of_mem_argumentsOf {ps : List Parameter} :
    ∀ {taken : List String} {types : List TypeRef}, ∀ a ∈ argumentsOf taken ps types,
      a.kind ≠ .token := by
  induction ps with
  | nil => intro _ _ a ha; cases ha
  | cons p ps ih =>
    intro taken types a ha
    cases types with
    | nil => cases ha
    | cons t types =>
      rcases List.mem_cons.mp ha with rfl | ha
      · exact argumentKind_ne_token p.payload
      · exact ih a ha

/-- The arguments that are sent: all but the token. -/
def sentArguments (args : List Argument) : List Argument := args.filter (·.kind ≠ .token)

/-- The arguments of an operation: the token, if there is one, and those of the parameters in the
order of the signature. -/
structure ArgumentsOf (parameters : List Parameter) (op : Operation) (args rest : List Argument) :
    Prop where
  args_eq : args = (if op.oauthSecured then [tokenArgument] else []) ++ signatureOrder rest
  idents : rest.map (·.ident) = uniqueNames (takenNames op) (parameterBases parameters)
  data : rest.map (fun a => (a.wireName, a.required)) = parameters.map fun p => (p.name, p.required)
  kind : ∀ a ∈ rest, a.kind ≠ .token

theorem argumentsOf_of_runs {spec : Specification} {item : PathItem} {op : Operation}
    {stem : String} {args : List Argument}
    (h : (arguments spec item op stem).outcome = .ok args) :
    ∃ rest, ArgumentsOf (item.effectiveParameters op) op args rest := by
  have hrun : (arguments spec item op stem).Runs args _ := ⟨h, rfl⟩
  rw [arguments] at hrun
  obtain ⟨rest, hrest, rfl⟩ := hrun.bind_pure_inv
  obtain ⟨types, hall, rfl⟩ := runsAll_of_argumentsAfter hrest
  have hlength : types.length = (item.effectiveParameters op).length := by
    simpa [parameterSites] using hall.length_eq
  exact ⟨_, rfl, idents_argumentsOf hlength, data_argumentsOf hlength, kind_of_mem_argumentsOf⟩

theorem signatureOrder_perm (args : List Argument) : (signatureOrder args).Perm args :=
  List.filter_append_perm Argument.required args

/-! ## Signatures -/

/-- What the signature of an operation has to be. -/
structure WellFormedSignature (item : PathItem) (op : Operation) (args : List Argument) : Prop where
  /-- names are distinct as texts -/
  distinct : (args.map (·.ident)).Nodup
  /-- names are usable, and other than those that the body uses -/
  usable : ∀ a ∈ args, IsUsable a.ident ∧ a.ident ∉ bodyLocals
  /-- the first argument is the token exactly if the operation asks for one -/
  token : (args.head?.any fun a => decide (a.kind = .token)) = op.oauthSecured
  /-- no other argument is the token -/
  others : ∀ a ∈ args.tail, a.kind ≠ .token
  /-- nothing that is required follows what is optional -/
  order : args.Pairwise fun a b => b.required = true → a.required = true
  /-- all parameters are sent, under the names that they have -/
  sent : ((sentArguments args).map (·.wireName)).Perm
    ((item.effectiveParameters op).map (·.name))
  /-- those that are required are in their order -/
  required : ((sentArguments args).filter (·.required)).map (·.wireName) =
    ((item.effectiveParameters op).filter (·.required)).map (·.name)
  /-- those that are optional are in their order -/
  optional : ((sentArguments args).filter (!·.required)).map (·.wireName) =
    ((item.effectiveParameters op).filter (!·.required)).map (·.name)

/-- Names are distinct as identifiers, which escapes do not count for. -/
def DistinctIdentifiers (args : List Argument) : Prop :=
  ((args.map (·.ident)).map bareName).Nodup

/-- Where several parameters go by a reserved word, no argument is named by that word with one of
their numbers. -/
def NumbersFree (parameters : List Parameter) (args : List Argument) : Prop :=
  ∀ word ∈ keywords, ∀ n, 2 ≤ n → n ≤ (parameterBases parameters).count ("@" ++ word) →
    word ++ toString n ∉ args.map (·.ident)

section

variable {parameters : List Parameter} {op : Operation} {args rest : List Argument}

/-- The names of the arguments are those of the token and of the parameters. -/
theorem ArgumentsOf.idents_perm (h : ArgumentsOf parameters op args rest) :
    (args.map (·.ident)).Perm ((if op.oauthSecured then [tokenArgument] else []).map (·.ident) ++
      uniqueNames (takenNames op) (parameterBases parameters)) := by
  rw [h.args_eq, List.map_append, ← h.idents]
  exact (((signatureOrder_perm rest).map _)).append_left _

theorem ArgumentsOf.sentArguments_eq (h : ArgumentsOf parameters op args rest) :
    sentArguments args = signatureOrder rest := by
  have hrest : (signatureOrder rest).filter (·.kind ≠ .token) = signatureOrder rest :=
    List.filter_eq_self.mpr fun a ha =>
      decide_eq_true (h.kind a ((signatureOrder_perm rest).mem_iff.mp ha))
  rw [sentArguments, h.args_eq, List.filter_append, hrest]
  split <;> rfl

theorem ArgumentsOf.nodup (h : ArgumentsOf parameters op args rest) :
    (args.map (·.ident)).Nodup := by
  obtain ⟨hnodup, hfree⟩ : (uniqueNames (takenNames op) (parameterBases parameters)).Nodup ∧
      ∀ name ∈ uniqueNames (takenNames op) (parameterBases parameters), name ∉ takenNames op :=
    Name.nodup_uniqueNames
  rw [h.idents_perm.nodup_iff, List.nodup_append']
  refine ⟨by split <;> simp, hnodup, fun name htoken hname => ?_⟩
  exact hfree name hname (List.mem_append_right _ htoken)

/-- A name in the signature is that of the token or that of a parameter. -/
theorem ArgumentsOf.ident_cases (h : ArgumentsOf parameters op args rest) {name : String}
    (hname : name ∈ args.map (·.ident)) :
    name = tokenParameter ∨ name ∈ uniqueNames (takenNames op) (parameterBases parameters) := by
  rcases List.mem_append.mp (h.idents_perm.mem_iff.mp hname) with htoken | hname
  · left
    split at htoken
    · simpa [tokenArgument] using htoken
    · cases htoken
  · exact .inr hname

theorem ArgumentsOf.isUsable (h : ArgumentsOf parameters op args rest) {name : String}
    (hname : name ∈ args.map (·.ident)) : IsUsable name ∧ name ∉ bodyLocals := by
  rcases h.ident_cases hname with rfl | hname
  · exact ⟨⟨by decide, by decide⟩, by decide⟩
  · obtain ⟨base, hbase, n, hn, rfl⟩ := Name.exists_of_mem_uniqueNames hname
    refine ⟨isUsable_numbered (parameterBase_of_mem hbase) hn, fun hlocal => ?_⟩
    exact Name.nodup_uniqueNames.2 _ hname (List.mem_append_left _ hlocal)

/-- **Distinct as identifiers**: an escaped name is a reserved word with a number, so that it can
only run into that word with that number. -/
theorem ArgumentsOf.distinctIdentifiers_iff (h : ArgumentsOf parameters op args rest) :
    DistinctIdentifiers args ↔ NumbersFree parameters args := by
  have hmem {name : String}
      (hname : name ∈ uniqueNames (takenNames op) (parameterBases parameters)) :
      name ∈ args.map (·.ident) := h.idents_perm.mem_iff.mpr (List.mem_append_right _ hname)
  rw [DistinctIdentifiers, nodup_bareNames_iff h.nodup fun name hname => (h.isUsable hname).1]
  constructor
  · intro hnone word hword n htwo hcount
    rw [← numbered_of_two_le word htwo]
    exact hnone _ (hmem ((escaped_mem_iff hword (by omega)).mpr hcount))
  · intro hnumbers name hescaped hname
    have hgiven : "@" ++ name ∈ uniqueNames (takenNames op) (parameterBases parameters) := by
      refine (h.ident_cases hescaped).resolve_left fun htoken => ?_
      have hhead := congrArg (fun s => s.toList.head?) htoken
      simp [tokenParameter] at hhead
    obtain ⟨base, hbase, n, hn, heq⟩ := Name.exists_of_mem_uniqueNames hgiven
    cases parameterBase_of_mem hbase with
    | plain hident _ =>
      refine head?_of_isIdentifier (isIdentifier_numbered hident hn) ?_
      rw [← heq]
      simp
    | @escaped word hword hbase =>
      rw [hbase, numbered_escaped] at heq
      obtain rfl : name = numbered word n := by simpa using heq
      rcases Nat.lt_or_eq_of_le hn with htwo | rfl
      · refine hnumbers word hword n htwo ((escaped_mem_iff hword hn).mp hgiven) ?_
        rwa [← numbered_of_two_le word htwo]
      · -- without a number it is the reserved word, which is never there without an escape
        exact (h.isUsable hname).1.2 hword

theorem ArgumentsOf.order (h : ArgumentsOf parameters op args rest) :
    args.Pairwise fun a b => b.required = true → a.required = true := by
  have hfirst : ∀ a ∈ (if op.oauthSecured then [tokenArgument] else []), a.required = true := by
    split <;> simp [tokenArgument]
  rw [h.args_eq, signatureOrder, List.pairwise_append, List.pairwise_append]
  refine ⟨List.pairwise_of_forall_mem_list ?_, ⟨List.pairwise_of_forall_mem_list ?_,
    List.pairwise_of_forall_mem_list ?_, ?_⟩, ?_⟩
  · exact fun a ha _ _ _ => hfirst a ha
  · exact fun a ha _ _ _ => (List.mem_filter.mp ha).2
  · intro a _ b hb hrequired
    simp [hrequired] at hb
  · exact fun a ha _ _ _ => (List.mem_filter.mp ha).2
  · exact fun a ha _ _ _ => hfirst a ha

/-- The parameters of either kind are sent in their order. -/
theorem ArgumentsOf.sent_filter (h : ArgumentsOf parameters op args rest) (kind : Bool) :
    ((sentArguments args).filter (·.required == kind)).map (·.wireName) =
      (parameters.filter (·.required == kind)).map (·.name) := by
  have hrest : (signatureOrder rest).filter (·.required == kind) =
      rest.filter (·.required == kind) := by
    cases kind <;> simp [signatureOrder, List.filter_append, List.filter_filter]
  have hargs : (rest.filter (·.required == kind)).map (·.wireName) =
      ((rest.map fun a => (a.wireName, a.required)).filter (·.2 == kind)).map (·.1) := by
    simp [List.filter_map, Function.comp_def]
  have hparameters : (parameters.filter (·.required == kind)).map (·.name) =
      ((parameters.map fun p => (p.name, p.required)).filter (·.2 == kind)).map (·.1) := by
    simp [List.filter_map, Function.comp_def]
  rw [h.sentArguments_eq, hrest, hargs, hparameters, h.data]

/-- The token comes first, if there is one, and nothing else is a token. -/
theorem ArgumentsOf.token (h : ArgumentsOf parameters op args rest) :
    (args.head?.any fun a => decide (a.kind = .token)) = op.oauthSecured ∧
      ∀ a ∈ args.tail, a.kind ≠ .token := by
  have hkind : ∀ a ∈ signatureOrder rest, a.kind ≠ .token :=
    fun a ha => h.kind a ((signatureOrder_perm rest).mem_iff.mp ha)
  have hargs := h.args_eq
  cases hsecured : op.oauthSecured with
  | true =>
    simp only [hsecured, if_true, List.singleton_append] at hargs
    rw [hargs]
    exact ⟨rfl, hkind⟩
  | false =>
    simp only [hsecured, Bool.false_eq_true, if_false, List.nil_append] at hargs
    rw [hargs]
    refine ⟨?_, fun a ha => hkind a (List.mem_of_mem_tail ha)⟩
    rw [Option.any_eq_false]
    intro a ha
    simpa using hkind a (List.mem_of_mem_head? ha)

end

/-- **Signatures are well formed**: names are usable and distinct as texts, the token comes first,
what is required comes before what is optional, and the parameters are all there, in their order in
either group. Names are distinct as identifiers exactly if, where several parameters go by a
reserved word, no argument is named by that word with one of their numbers. -/
theorem signature_wellFormed (spec : Specification) (item : PathItem) (op : Operation)
    (stem : String) (args : List Argument)
    (h : (arguments spec item op stem).outcome = .ok args) :
    WellFormedSignature item op args ∧
      (DistinctIdentifiers args ↔ NumbersFree (item.effectiveParameters op) args) := by
  obtain ⟨rest, hof⟩ := argumentsOf_of_runs h
  refine ⟨?_, hof.distinctIdentifiers_iff⟩
  exact {
    distinct := hof.nodup
    usable := fun a ha => hof.isUsable (List.mem_map_of_mem ha)
    token := hof.token.1
    others := hof.token.2
    order := hof.order
    sent := by
      have hnames := congrArg (List.map (·.1)) hof.data
      simp only [List.map_map, Function.comp_def] at hnames
      rw [hof.sentArguments_eq, ← hnames]
      exact (signatureOrder_perm rest).map _
    required := by simpa using hof.sent_filter true
    optional := by simpa using hof.sent_filter false }

/-- A query parameter that holds text. -/
def textParameter (name : String) (required : Bool) : Parameter :=
  ⟨name, none, required, .query (.primitive { kind := .string })⟩

/-- An operation that takes parameters, and maybe a token. -/
def taking (parameters : List Parameter) (oauthSecured : Bool) : Operation :=
  { listItems with parameters, oauthSecured }

/-- The names in the signature of an operation on its own. -/
def signatureNames (op : Operation) : Option (List String) :=
  (arguments paintShop ⟨"/items", [], [op]⟩ op "ListItems").outcome.toOption.map
    (·.map (·.ident))

/-- Names that run into each other in all ways but one. -/
def crowded : Operation :=
  taking [textParameter "oauthToken" false, textParameter "a-b" true, textParameter "aB" false,
    textParameter "class" false, textParameter "Class" true, textParameter "-" true] true

/-- The names of the crowded signature are distinct as identifiers. -/
theorem signature_wellFormed_crowded :
    ∃ args, (arguments paintShop ⟨"/items", [], [crowded]⟩ crowded "ListItems").outcome = .ok args ∧
      args.map (·.ident) =
        ["oauthToken", "aB", "@class2", "unnamed", "oauthToken2", "aB2", "@class"] ∧
      WellFormedSignature ⟨"/items", [], [crowded]⟩ crowded args ∧ DistinctIdentifiers args ∧
      NumbersFree crowded.parameters args := by
  have hnames : signatureNames crowded =
      some ["oauthToken", "aB", "@class2", "unnamed", "oauthToken2", "aB2", "@class"] := by
    decide +kernel
  obtain ⟨args, hargs, hidents⟩ := Option.map_eq_some_iff.mp hnames
  have hargs := eq_ok_of_toOption hargs
  obtain ⟨hwell, hiff⟩ := signature_wellFormed paintShop _ crowded "ListItems" args hargs
  have hdistinct : DistinctIdentifiers args := by
    rw [DistinctIdentifiers, hidents]
    decide +kernel
  exact ⟨args, hargs, hidents, hwell, hdistinct, hiff.mp hdistinct⟩

/-- Two parameters that go by a reserved word, and one that goes by the word with a number. -/
def clashing : Operation :=
  taking [textParameter "class" true, textParameter "Class" true, textParameter "class2" true] false

/-- **One identifier twice**: the second parameter is escaped and has the number that the third one
is named with. -/
theorem not_distinctIdentifiers_clashing :
    ∃ args, (arguments paintShop ⟨"/items", [], [clashing]⟩ clashing "ListItems").outcome =
        .ok args ∧
      args.map (·.ident) = ["@class", "@class2", "class2"] ∧ ¬ DistinctIdentifiers args := by
  have hnames : signatureNames clashing = some ["@class", "@class2", "class2"] := by
    decide +kernel
  obtain ⟨args, hargs, hidents⟩ := Option.map_eq_some_iff.mp hnames
  refine ⟨args, eq_ok_of_toOption hargs, hidents, ?_⟩
  rw [DistinctIdentifiers, hidents]
  decide +kernel

end ClientGen.CSharp
