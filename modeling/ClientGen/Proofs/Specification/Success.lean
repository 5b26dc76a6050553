import ClientGen.Specification.Operation
import Mathlib.Data.List.Nodup
import Mathlib.Data.List.Sort

/-!
# The success of an operation

* **The canonical success** (`canonicalSuccess?_eq_some_iff`): of responses with distinct keys it is
  the one with the lowest success code.
* **Ambiguity** (`mem_successAmbiguity_iff`, `successAmbiguity_sorted`): the codes of the successes
  of another shape, each once and in increasing order.

Both say by membership alone what is chosen. The order in which responses are declared is therefore
of no consequence (`success_orderFree`).
-/

namespace ClientGen

namespace Status

theorem code?_eq_some {s : Status} {code : Nat} : s.code? = some code ↔ s = .code code := by
  cases s <;> simp [code?]

theorem isSuccess_code (code : Nat) :
    (Status.code code).isSuccess = true ↔ 200 ≤ code ∧ code ≤ 299 := by
  simp [isSuccess]

theorem isSuccess_iff {s : Status} :
    s.isSuccess = true ↔ ∃ code, s = .code code ∧ 200 ≤ code ∧ code ≤ 299 := by
  cases s <;> simp [isSuccess]

end Status

namespace Operation

/-! ## The canonical success -/

theorem lowest_mem (best : Response) (rs : List Response) : lowest best rs ∈ best :: rs := by
  induction rs generalizing best with
  | nil => exact List.mem_singleton_self best
  | cons r rs ih =>
    rw [lowest]
    rcases List.mem_cons.mp (ih (if r.status.code?.getD 0 < best.status.code?.getD 0 then r
      else best)) with heq | hmem
    · rw [heq]
      split <;> simp
    · exact List.mem_cons_of_mem best (List.mem_cons_of_mem r hmem)

/-- No response has a lower code, by induction on those that are still to be compared. -/
theorem lowest_le (best : Response) (rs : List Response) :
    ∀ r ∈ best :: rs, (lowest best rs).status.code?.getD 0 ≤ r.status.code?.getD 0 := by
  induction rs generalizing best with
  | nil => simp [lowest]
  | cons next rs ih =>
    simp only [lowest, List.forall_mem_cons]
    split
    · next hlt =>
      obtain ⟨hnext, hrs⟩ := List.forall_mem_cons.mp (ih next)
      exact ⟨Nat.le_trans hnext (Nat.le_of_lt hlt), hnext, hrs⟩
    · next hge =>
      obtain ⟨hbest, hrs⟩ := List.forall_mem_cons.mp (ih best)
      exact ⟨hbest, Nat.le_trans hbest (Nat.le_of_not_lt hge), hrs⟩

/-- A response with a success code, and no response has a lower one. -/
structure IsLowestSuccess (op : Operation) (r : Response) (code : Nat) : Prop where
  mem : r ∈ op.responses
  status : r.status = .code code
  success : 200 ≤ code ∧ code ≤ 299
  least : ∀ other ∈ op.responses, ∀ n, other.status = .code n → 200 ≤ n → n ≤ 299 → code ≤ n

theorem IsLowestSuccess.of_mem_iff {op op' : Operation}
    (hmem : ∀ r, r ∈ op.responses ↔ r ∈ op'.responses) {r : Response} {code : Nat}
    (h : op.IsLowestSuccess r code) : op'.IsLowestSuccess r code where
  mem := (hmem r).mp h.mem
  status := h.status
  success := h.success
  least other hother := h.least other ((hmem other).mpr hother)

theorem isLowestSuccess_of_canonicalSuccess? {op : Operation} {r : Response}
    (h : op.canonicalSuccess? = some r) : ∃ code, op.IsLowestSuccess r code := by
  rw [canonicalSuccess?] at h
  split at h
  · cases h
  · next first rest hsuccesses =>
    obtain rfl := Option.some.inj h
    have hmem := lowest_mem first rest
    have hle := lowest_le first rest
    rw [← hsuccesses, successes] at hmem hle
    obtain ⟨hresponse, hsuccess⟩ := List.mem_filter.mp hmem
    obtain ⟨code, hcode, hrange⟩ := Status.isSuccess_iff.mp hsuccess
    refine ⟨code, hresponse, hcode, hrange, fun other hother n hn hlow hhigh => ?_⟩
    have hsuccess := Status.isSuccess_iff.mpr ⟨n, hn, hlow, hhigh⟩
    have hle := hle other (List.mem_filter.mpr ⟨hother, hsuccess⟩)
    simpa [hcode, hn, Status.code?] using hle

/-- The canonical success is a response with a success code. -/
theorem mem_of_canonicalSuccess? {op : Operation} {r : Response}
    (h : op.canonicalSuccess? = some r) : r ∈ op.responses ∧ r.status.isSuccess = true := by
  obtain ⟨code, hlowest⟩ := isLowestSuccess_of_canonicalSuccess? h
  exact ⟨hlowest.mem, Status.isSuccess_iff.mpr ⟨code, hlowest.status, hlowest.success⟩⟩

theorem canonicalSuccess?_eq_none_iff {op : Operation} :
    op.canonicalSuccess? = none ↔ ∀ r ∈ op.responses, r.status.isSuccess = false := by
  have hnil : op.canonicalSuccess? = none ↔ op.successes = [] := by
    rw [canonicalSuccess?]
    split <;> simp_all
  rw [hnil, successes, List.filter_eq_nil_iff]
  simp only [Bool.not_eq_true]

/-- Responses with distinct keys. -/
def DistinctStatuses (op : Operation) : Prop := (op.responses.map (·.status)).Nodup

instance (op : Operation) : Decidable op.DistinctStatuses :=
  inferInstanceAs (Decidable (op.responses.map (·.status)).Nodup)

theorem DistinctStatuses.eq_of_status {op : Operation} (h : op.DistinctStatuses) {r r' : Response}
    (hr : r ∈ op.responses) (hr' : r' ∈ op.responses) (hstatus : r.status = r'.status) : r = r' :=
  List.inj_on_of_nodup_map h hr hr' hstatus

/-- **The canonical success** is the response with the lowest success code. -/
theorem canonicalSuccess?_eq_some_iff {op : Operation} (hdistinct : op.DistinctStatuses)
    {r : Response} : op.canonicalSuccess? = some r ↔ ∃ code, op.IsLowestSuccess r code := by
  refine ⟨isLowestSuccess_of_canonicalSuccess?, ?_⟩
  rintro ⟨code, hr⟩
  rcases hcanonical : op.canonicalSuccess? with _ | canonical
  · have hnone := canonicalSuccess?_eq_none_iff.mp hcanonical r hr.mem
    rw [Status.isSuccess_iff.mpr ⟨code, hr.status, hr.success⟩] at hnone
    cases hnone
  · obtain ⟨n, hn⟩ := isLowestSuccess_of_canonicalSuccess? hcanonical
    -- each of the two codes is the lowest, and a code is the key of one response only
    obtain rfl : n = code := Nat.le_antisymm
      (hn.least r hr.mem code hr.status hr.success.1 hr.success.2)
      (hr.least canonical hn.mem n hn.status hn.success.1 hn.success.2)
    rw [hdistinct.eq_of_status hn.mem hr.mem (hn.status.trans hr.status.symm)]

/-! ## Ambiguity -/

/-- A success with the code has another shape than the canonical success. -/
def Disagrees (op : Operation) (canonical : Response) (code : Nat) : Prop :=
  ∃ r ∈ op.responses, r.status = .code code ∧ 200 ≤ code ∧ code ≤ 299 ∧
    r.shape? ≠ canonical.shape?

/-- **Ambiguous successes** are those that disagree with the canonical one. -/
theorem mem_successAmbiguity_iff {op : Operation} (hdistinct : op.DistinctStatuses) {code : Nat} :
    code ∈ op.successAmbiguity ↔
      ∃ canonical, op.canonicalSuccess? = some canonical ∧ op.Disagrees canonical code := by
  rw [successAmbiguity]
  split
  · next hnone => simp [hnone]
  · next canonical hcanonical =>
    have hmem := (mem_of_canonicalSuccess? hcanonical).1
    simp only [hcanonical, Option.some.injEq, exists_eq_left', List.mem_mergeSort,
      List.mem_filterMap, Status.code?_eq_some, List.mem_filter, decide_eq_true_eq, Disagrees,
      successes]
    constructor
    · rintro ⟨r, ⟨⟨hr, hsuccess⟩, -, hshape⟩, hcode⟩
      rw [hcode, Status.isSuccess_code] at hsuccess
      exact ⟨r, hr, hcode, hsuccess.1, hsuccess.2, hshape⟩
    · rintro ⟨r, hr, hcode, hlow, hhigh, hshape⟩
      refine ⟨r, ⟨⟨hr, Status.isSuccess_iff.mpr ⟨code, hcode, hlow, hhigh⟩⟩, ?_, hshape⟩, hcode⟩
      intro hstatus
      exact hshape (by rw [hdistinct.eq_of_status hr hmem hstatus])

/-- Each code is there once, in increasing order. -/
theorem successAmbiguity_sorted {op : Operation} (hdistinct : op.DistinctStatuses) :
    op.successAmbiguity.Pairwise (· < ·) := by
  rw [successAmbiguity]
  split
  · exact List.Pairwise.nil
  · next canonical _ =>
    generalize hothers : op.successes.filter (fun r => r.status ≠ canonical.status ∧
      r.shape? ≠ canonical.shape?) = others
    have hsublist : others.Sublist op.responses := by
      rw [← hothers]
      exact List.filter_sublist.trans List.filter_sublist
    have hcodes : (others.filterMap (·.status.code?)).Nodup := by
      have hnodup : (others.map (·.status)).Nodup := hdistinct.sublist (hsublist.map _)
      rw [← Function.comp_def Status.code?, ← List.filterMap_map]
      refine hnodup.filterMap fun s s' code hs hs' => ?_
      rw [Option.mem_def, Status.code?_eq_some] at hs hs'
      rw [hs, hs']
    have hsorted : ((others.filterMap (·.status.code?)).mergeSort (· ≤ ·)).Pairwise (· ≤ ·) :=
      List.pairwise_mergeSort' (· ≤ ·) _
    have hdifferent : ((others.filterMap (·.status.code?)).mergeSort (· ≤ ·)).Nodup :=
      (List.mergeSort_perm _ _).nodup_iff.mpr hcodes
    exact hsorted.imp₂ (fun _ _ => Nat.lt_of_le_of_ne) hdifferent

/-- A success that disagrees with the canonical one has a higher code. -/
theorem IsLowestSuccess.lt_of_disagrees {op : Operation} (hdistinct : op.DistinctStatuses)
    {canonical : Response} {n code : Nat} (h : op.IsLowestSuccess canonical n)
    (hcode : op.Disagrees canonical code) : n < code := by
  obtain ⟨r, hr, hstatus, hlow, hhigh, hshape⟩ := hcode
  refine Nat.lt_of_le_of_ne (h.least r hr code hstatus hlow hhigh) ?_
  rintro rfl
  exact hshape (by rw [hdistinct.eq_of_status hr h.mem (hstatus.trans h.status.symm)])

/-! ## Order -/

/-- What the choice of a success has to be. -/
structure ChoosesLowest (op : Operation) : Prop where
  /-- nothing is chosen only if there is no success -/
  none_iff : op.canonicalSuccess? = none ↔ ∀ r ∈ op.responses, r.status.isSuccess = false
  /-- what is chosen has the lowest success code, and what has it is chosen -/
  some_iff : ∀ r, op.canonicalSuccess? = some r ↔ ∃ code, op.IsLowestSuccess r code
  /-- ambiguous codes are strictly increasing -/
  sorted : op.successAmbiguity.Pairwise (· < ·)
  /-- ambiguous codes are above the chosen one -/
  above : ∀ canonical n, op.canonicalSuccess? = some canonical → canonical.status = .code n →
    ∀ code ∈ op.successAmbiguity, n < code
  /-- a code is ambiguous exactly if a success with it has another shape than the chosen one -/
  mem_iff : ∀ code, code ∈ op.successAmbiguity ↔
    ∃ canonical, op.canonicalSuccess? = some canonical ∧ op.Disagrees canonical code

theorem choosesLowest {op : Operation} (hdistinct : op.DistinctStatuses) : op.ChoosesLowest where
  none_iff := canonicalSuccess?_eq_none_iff
  some_iff _ := canonicalSuccess?_eq_some_iff hdistinct
  sorted := successAmbiguity_sorted hdistinct
  mem_iff _ := mem_successAmbiguity_iff hdistinct
  above := by
    intro canonical n hcanonical hn code hcode
    obtain ⟨canonical', hcanonical', hdisagrees⟩ := (mem_successAmbiguity_iff hdistinct).mp hcode
    obtain rfl := Option.some.inj (hcanonical.symm.trans hcanonical')
    obtain ⟨m, hm⟩ := isLowestSuccess_of_canonicalSuccess? hcanonical
    obtain rfl : n = m := Status.code.inj (hn.symm.trans hm.status)
    exact hm.lt_of_disagrees hdistinct hdisagrees

/-- **Success does not depend on the order of responses**: any order of responses with distinct keys
has the same canonical success and the same ambiguous codes. -/
theorem success_orderFree {op op' : Operation} (hdistinct : op.DistinctStatuses)
    (hperm : op'.responses.Perm op.responses) :
    op'.canonicalSuccess? = op.canonicalSuccess? ∧ op'.successAmbiguity = op.successAmbiguity ∧
      op.ChoosesLowest := by
  have hmem (r : Response) : r ∈ op'.responses ↔ r ∈ op.responses := hperm.mem_iff
  have hdistinct' : op'.DistinctStatuses :=
    (hperm.map Response.status).nodup_iff.mpr hdistinct
  have hcanonical : op'.canonicalSuccess? = op.canonicalSuccess? := by
    refine Option.ext fun r => ?_
    rw [canonicalSuccess?_eq_some_iff hdistinct', canonicalSuccess?_eq_some_iff hdistinct]
    exact exists_congr fun code => ⟨.of_mem_iff hmem, .of_mem_iff fun r => (hmem r).symm⟩
  refine ⟨hcanonical, ?_, choosesLowest hdistinct⟩
  refine (successAmbiguity_sorted hdistinct').eq_of_mem_iff (successAmbiguity_sorted hdistinct) ?_
  intro code
  rw [mem_successAmbiguity_iff hdistinct', mem_successAmbiguity_iff hdistinct, hcanonical]
  simp only [Disagrees, hmem]

/-- An operation with three successes and a default, declared in the order given. -/
def saveDraft (order : List Response → List Response) : Operation where
  method := .put
  path := "/drafts"
  operationId := none
  summary := none
  description := none
  tags := []
  consumes := []
  produces := []
  parameters := []
  responses := order
    [⟨.code 204, "unchanged", none, [], []⟩, ⟨.default, "refused", some .string, [], []⟩,
     ⟨.code 201, "created", some (.reference "Draft"), [], []⟩,
     ⟨.code 202, "queued", some .string, [], []⟩,
     ⟨.code 203, "copied", some (.reference "Draft"), [], []⟩]
  security := []
  oauthSecured := false
  deprecated := false
  externalDocs := none

/-- The draft that was created is the success in both orders. A response without content and one
with text disagree with it. -/
theorem success_orderFree_saveDraft :
    (saveDraft id).DistinctStatuses ∧
      (saveDraft List.reverse).responses.Perm (saveDraft id).responses ∧
      (saveDraft List.reverse).canonicalSuccess?.map (·.description) = some "created" ∧
      (saveDraft id).canonicalSuccess?.map (·.description) = some "created" ∧
      (saveDraft id).successAmbiguity = [202, 204] ∧ (saveDraft id).ChoosesLowest := by
  have hdistinct : (saveDraft id).DistinctStatuses := by decide
  have hperm : (saveDraft List.reverse).responses.Perm (saveDraft id).responses :=
    List.reverse_perm _
  obtain ⟨hcanonical, hambiguity, hchooses⟩ := success_orderFree hdistinct hperm
  have hdescription : (saveDraft id).canonicalSuccess?.map (·.description) = some "created" := by
    decide
  refine ⟨hdistinct, hperm, ?_, hdescription, ?_, hchooses⟩
  · rw [hcanonical, hdescription]
  · -- the codes are in order when the responses are reversed
    have hothers : (saveDraft List.reverse).successAmbiguity = [202, 204].mergeSort (· ≤ ·) := rfl
    rw [← hambiguity, hothers]
    exact List.mergeSort_of_pairwise (by decide)

end Operation

end ClientGen
