import ClientGen.Proofs.CSharp.Scope
import ClientGen.Proofs.Resolve.Parts
import ClientGen.Proofs.Specification.Success

/-!
# What status codes are answered with

* **One response** (`answered_of_runs`): it carries the type of the success, or the type of a schema
  of its own. `ownSchema?_eq_some_iff` says which.
* **All responses** (`responseCases_consistent`): a case counts as success exactly if it has a
  success code and carries the type of the success.
-/

namespace ClientGen

theorem Operation.map_codedResponses (op : Operation) :
    op.codedResponses.map (·.2) = op.responses.filter (·.status.code?.isSome) := by
  rw [codedResponses]
  induction op.responses with
  | nil => rfl
  | cons r rs ih => rcases hr : r.status.code? with _ | code <;> simp [hr, ih]

namespace CSharp

/-! ## One response -/

/-- A payload is that of a type: there is one exactly if the type stands for something. -/
def Carries (t : TypeRef) : Option String → Prop
  | some name => name = t.name ∧ t.name ≠ noContent
  | none => t.name = noContent

theorem carries_iff {t : TypeRef} {payload : Option String} :
    Carries t payload ↔ payload = successPayload t := by
  rw [successPayload]
  cases payload <;> split <;> simp_all [Carries]

/-- A response has a payload of its own if it has a schema, is not the canonical success, and has
another shape than that. -/
theorem ownSchema?_eq_some_iff {op : Operation} {r : Response} {schema : Schema} :
    ownSchema? op r = some schema ↔ r.schema = some schema ∧
      ∀ canonical, op.canonicalSuccess? = some canonical →
        canonical.status ≠ r.status ∧ canonical.shape? ≠ some schema.shape := by
  rw [ownSchema?]
  rcases op.canonicalSuccess? with _ | canonical
  · simp [Option.filter_eq_some_iff]
  · by_cases hstatus : canonical.status = r.status
    · simp [hstatus]
    · have hshape : some schema.shape = canonical.shape? ↔ canonical.shape? = some schema.shape :=
        eq_comm
      simp [hstatus, Option.filter_eq_some_iff, hshape]

/-- Otherwise it shares the payload of the success. -/
theorem ownSchema?_eq_none {op : Operation} {r : Response}
    (h : ∀ schema, r.schema = some schema → ∃ canonical, op.canonicalSuccess? = some canonical ∧
      (canonical.status = r.status ∨ canonical.shape? = some schema.shape)) :
    ownSchema? op r = none := by
  rcases hown : ownSchema? op r with _ | schema
  · rfl
  · obtain ⟨hschema, hother⟩ := ownSchema?_eq_some_iff.mp hown
    obtain ⟨canonical, hcanonical, hsame⟩ := h schema hschema
    obtain ⟨hstatus, hshape⟩ := hother canonical hcanonical
    exact (hsame.elim hstatus hshape).elim

/-- What a response can be answered with: the payload of the success, or that of its own schema. -/
inductive Answered (spec : Specification) (op : Operation) (stem : String) (success : TypeRef)
    (code : Nat) (r : Response) : Option String → Prop
  | shared : ownSchema? op r = none → Answered spec op stem success code r (successPayload success)
  | own {schema : Schema} {t : TypeRef} : ownSchema? op r = some schema →
      (mapSchema spec.definitions schema (stem ++ "Out" ++ toString code) op.context).outcome =
        .ok t →
      Answered spec op stem success code r (some t.name)

theorem answered_of_runs {spec : Specification} {op : Operation} {stem : String}
    {success : TypeRef} {code : Nat} {r : Response} {payload : Option String} {ms : List Model}
    (h : (responsePayload spec op stem success code r).Runs payload ms) :
    Answered spec op stem success code r payload := by
  rw [responsePayload] at h
  split at h
  · next schema hown =>
    obtain ⟨t, ht, rfl⟩ := h.bind_pure_inv
    exact .own hown ht.outcome
  · next hown =>
    obtain ⟨rfl, -⟩ := h.pure_inv
    exact .shared hown

/-! ## All responses -/

/-- The case of a response is consistent with the type of the success. -/
structure ConsistentCase (spec : Specification) (op : Operation) (stem : String)
    (success : TypeRef) (r : Response) (c : ResponseCase) : Prop where
  status : r.status = .code c.code
  /-- a case counts as success if it has a success code and carries the type of the success -/
  success_iff : c.success = true ↔ (200 ≤ c.code ∧ c.code ≤ 299) ∧ Carries success c.payload
  /-- the canonical success counts as one -/
  canonical : ∀ canonical, op.canonicalSuccess? = some canonical → canonical.status = r.status →
    c.success = true
  /-- a success code with the shape of the canonical success counts as success -/
  same_shape : 200 ≤ c.code → c.code ≤ 299 → ∀ canonical, op.canonicalSuccess? = some canonical →
    canonical.shape? = r.shape? → c.success = true
  /-- any other code with a shape of its own carries the type of that -/
  own_shape : ¬ (200 ≤ c.code ∧ c.code ≤ 299) → ∀ schema, r.schema = some schema →
    (∀ canonical, op.canonicalSuccess? = some canonical → canonical.shape? ≠ some schema.shape) →
    ∃ t, (mapSchema spec.definitions schema (stem ++ "Out" ++ toString c.code)
        op.context).outcome = .ok t ∧ c.payload = some t.name
  /-- any other code without a schema carries the type of the success -/
  no_schema : ¬ (200 ≤ c.code ∧ c.code ≤ 299) → r.schema = none → Carries success c.payload

/-- **One case.** -/
theorem consistentCase_of_answered {spec : Specification} {op : Operation} {stem : String}
    {success : TypeRef} {code : Nat} {r : Response} {payload : Option String}
    (hstatus : r.status = .code code) (h : Answered spec op stem success code r payload) :
    ConsistentCase spec op stem success r
      ⟨code, payload, r.status.isSuccess && payload = successPayload success⟩ := by
  have hcode : r.status.isSuccess = true ↔ 200 ≤ code ∧ code ≤ 299 := by
    rw [hstatus, Status.isSuccess_code]
  have hiff : (r.status.isSuccess && decide (payload = successPayload success)) = true ↔
      (200 ≤ code ∧ code ≤ 299) ∧ Carries success payload := by
    rw [Bool.and_eq_true, hcode, decide_eq_true_eq, carries_iff]
  have hshared (hown : ownSchema? op r = none) : Carries success payload := by
    cases h with
    | shared _ => exact carries_iff.mpr rfl
    | own hown' _ => simp [hown] at hown'
  have hcanonicalCode {canonical : Response} (hcanonical : op.canonicalSuccess? = some canonical)
      (hsame : canonical.status = r.status) : 200 ≤ code ∧ code ≤ 299 := by
    rw [← hcode, ← hsame]
    exact (Operation.mem_of_canonicalSuccess? hcanonical).2
  refine ⟨hstatus, hiff, ?_, ?_, ?_, ?_⟩
  · intro canonical hcanonical hsame
    refine hiff.mpr ⟨hcanonicalCode hcanonical hsame, hshared (ownSchema?_eq_none ?_)⟩
    exact fun _ _ => ⟨canonical, hcanonical, .inl hsame⟩
  · intro hlow hhigh canonical hcanonical hshape
    refine hiff.mpr ⟨⟨hlow, hhigh⟩, hshared (ownSchema?_eq_none fun schema hschema => ?_)⟩
    exact ⟨canonical, hcanonical, .inr (by rw [hshape, Response.shape?, hschema, Option.map_some])⟩
  · intro hother schema hschema hshape
    have hown : ownSchema? op r = some schema := by
      refine ownSchema?_eq_some_iff.mpr ⟨hschema, fun canonical hcanonical => ?_⟩
      exact ⟨fun hsame => hother (hcanonicalCode hcanonical hsame), hshape canonical hcanonical⟩
    cases h with
    | shared hnone => simp [hown] at hnone
    | @own schema' t hown' ht =>
      obtain rfl : schema = schema' := Option.some.inj (hown.symm.trans hown')
      exact ⟨t, ht, rfl⟩
  · intro _ hnone
    refine hshared (ownSchema?_eq_none fun schema hschema => ?_)
    simp [hnone] at hschema

/-- **Dispatch is consistent.** Each response with a code has its case, in order, and carries the
type of the success or, outside of the success codes, that of its own shape. A case counts as
success exactly if it has a success code and carries the type of the success; that of the canonical
success is one of them. -/
theorem responseCases_consistent (spec : Specification) (op : Operation) (stem : String)
    (success : TypeRef) (cases : List ResponseCase)
    (h : (responseCases spec op stem success).outcome = .ok cases) :
    List.Forall₂ (ConsistentCase spec op stem success)
        (op.responses.filter (·.status.code?.isSome)) cases ∧
      ∀ canonical, op.canonicalSuccess? = some canonical →
        ∃ c ∈ cases, canonical.status = .code c.code ∧ c.success = true := by
  have hall : List.Forall₂ (ConsistentCase spec op stem success)
      (op.responses.filter (·.status.code?.isSome)) cases := by
    rw [← op.map_codedResponses, List.forall₂_map_left_iff]
    refine (Plan.Runs.mapM_inv ⟨h, rfl⟩).forall₂ fun entry hentry c _ hrun => ?_
    obtain ⟨r, -, hr⟩ := List.mem_filterMap.mp hentry
    obtain ⟨code, hcode, rfl⟩ := Option.map_eq_some_iff.mp hr
    obtain ⟨payload, hpayload, rfl⟩ := hrun.bind_pure_inv
    exact consistentCase_of_answered (Status.code?_eq_some.mp hcode) (answered_of_runs hpayload)
  refine ⟨hall, fun canonical hcanonical => ?_⟩
  obtain ⟨hmem, hsuccess⟩ := Operation.mem_of_canonicalSuccess? hcanonical
  have hcoded : canonical.status.code?.isSome = true := by
    cases hstatus : canonical.status <;> simp_all [Status.isSuccess, Status.code?]
  obtain ⟨c, hc, hcase⟩ := exists_right_of_forall₂ hall (List.mem_filter.mpr ⟨hmem, hcoded⟩)
  exact ⟨c, hc, hcase.status, hcase.canonical canonical hcanonical rfl⟩

/-- A response with a code. -/
def answer (code : Nat) (schema : Option Schema) : Response := ⟨.code code, "", schema, [], []⟩

/-- An operation of the shop with two successes of one shape and one of another, an error with a
shape of its own, one without a schema, and a default. -/
def orderItem : Operation :=
  { listItems with
    responses := [answer 404 (some (.reference "Code")), answer 201 (some (.reference "Item")),
      answer 200 (some (.reference "Item")), answer 202 (some (.reference "Shade")),
      answer 500 none, ⟨.default, "", some (.reference "Code"), [], []⟩] }

/-- Both codes with the shape of the canonical success count as success, the third one does not. -/
theorem responseCases_consistent_orderItem :
    ∃ cases, (responseCases paintShop orderItem "OrderItem" (.reference "Item")).outcome =
        .ok cases ∧
      cases = [⟨404, some "string", false⟩, ⟨201, some "Item", true⟩, ⟨200, some "Item", true⟩,
        ⟨202, some "Color", false⟩, ⟨500, some "Item", false⟩] ∧
      List.Forall₂ (ConsistentCase paintShop orderItem "OrderItem" (.reference "Item"))
        (orderItem.responses.take 5) cases ∧
      ∃ c ∈ cases, Status.code 200 = .code c.code ∧ c.success = true := by
  have hcases : (responseCases paintShop orderItem "OrderItem" (.reference "Item")).outcome =
      .ok [⟨404, some "string", false⟩, ⟨201, some "Item", true⟩, ⟨200, some "Item", true⟩,
        ⟨202, some "Color", false⟩, ⟨500, some "Item", false⟩] :=
    eq_ok_of_toOption (by decide +kernel)
  obtain ⟨hall, hcanonical⟩ := responseCases_consistent _ _ _ _ _ hcases
  exact ⟨_, hcases, rfl, hall, hcanonical (answer 200 (some (.reference "Item"))) rfl⟩

end CSharp

end ClientGen
