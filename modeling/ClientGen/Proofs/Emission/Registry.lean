import ClientGen.Emission.Registry
import ClientGen.Proofs.Outcome

/-!
# What a claim does to a registry

A registration finds its name new, and puts it at the end, or changes nothing (`register_cases`). So
a claim that succeeds leaves a registry in which the name has the claimed shape, and changes nothing
else: it was there with that shape, or it was not there and comes last (`claim_cases`).

`Claims` says the same of a list of claims. The registry after it is the one before it with the new
names at its end (`Claims.entries_eq`), and names that were distinct stay distinct.

A name that is reserved is declared afterwards, one way or the other (`extends_reserve`).

A claim looks at its own name only: registries that agree on some names cannot be told apart by
claims of these names (`indistinct_agreeOn`).
-/

namespace ClientGen.Registry

/-- The shapes after a name has been added at the end. -/
theorem shape?_concat (r : Registry) (name shape n : String) :
    shape? ⟨r.entries ++ [(name, shape)]⟩ n =
      (r.shape? n).or (if n = name then some shape else none) := by
  unfold shape? Table.get?
  rw [List.lookup_append]
  congr 1
  exact Table.get?_cons name shape [] n

theorem shape?_eq_none_iff (r : Registry) (name : String) :
    r.shape? name = none ↔ name ∉ r.names :=
  Table.get?_eq_none_iff r.entries name

/-- A new name leaves the names distinct. -/
theorem nodup_names_concat {r : Registry} (hr : r.names.Nodup) {name : String}
    (h : r.shape? name = none) (shape : String) :
    (names ⟨r.entries ++ [(name, shape)]⟩).Nodup := by
  have hnot := (shape?_eq_none_iff r name).mp h
  simp only [names, Table.names, List.map_append, List.map_singleton]
  refine List.nodup_append.mpr ⟨hr, by simp, ?_⟩
  rintro n hn m hm rfl
  exact hnot (List.mem_singleton.mp hm ▸ hn)

/-! ## One name -/

/-- **One registration**: the name is new and comes last, or nothing changes. -/
theorem register_cases (r : Registry) (name shape : String) :
    (r.shape? name = none ∧ r.register name shape = (.fresh, ⟨r.entries ++ [(name, shape)]⟩)) ∨
    (r.shape? name = some shape ∧ r.register name shape = (.duplicate, r)) ∨
    ∃ other, r.shape? name = some other ∧ other ≠ shape ∧
      r.register name shape = (.collision, r) := by
  rw [register]
  rcases hs : r.shape? name with _ | existing
  · exact .inl ⟨rfl, rfl⟩
  · by_cases he : existing = shape
    · exact .inr (.inl ⟨congrArg some he, if_pos he⟩)
    · exact .inr (.inr ⟨existing, rfl, he, if_neg he⟩)

/-- The shapes after a registration: a name that is there keeps its shape. -/
theorem shape?_register (r : Registry) (name shape n : String) :
    (r.register name shape).2.shape? n =
      (r.shape? n).or (if n = name then some shape else none) := by
  rcases register_cases r name shape with ⟨-, h⟩ | hsame
  · rw [h, shape?_concat]
  · obtain ⟨s, hs, hr⟩ : ∃ s, r.shape? name = some s ∧ (r.register name shape).2 = r := by
      rcases hsame with ⟨hs, h⟩ | ⟨other, hs, -, h⟩
      · exact ⟨shape, hs, by rw [h]⟩
      · exact ⟨other, hs, by rw [h]⟩
    rw [hr]
    by_cases hn : n = name
    · rw [hn, hs, Option.some_or]
    · rw [if_neg hn, Option.or_none]

/-- **One claim**: the name is new and comes last, or is there with the same shape. -/
theorem claim_cases {r r' : Registry} {name shape : String} {fresh : Bool}
    (h : r.claim name shape = .ok (fresh, r')) :
    (fresh = true ∧ r.shape? name = none ∧ r' = ⟨r.entries ++ [(name, shape)]⟩) ∨
      (fresh = false ∧ r.shape? name = some shape ∧ r' = r) := by
  rw [claim] at h
  rcases register_cases r name shape with ⟨hs, hr⟩ | ⟨hs, hr⟩ | ⟨other, -, -, hr⟩ <;> rw [hr] at h
  · cases h
    exact .inl ⟨rfl, hs, rfl⟩
  · cases h
    exact .inr ⟨rfl, hs, rfl⟩
  · cases h

/-- A claim keeps the shapes that are there. -/
theorem shape?_mono_of_claim {r r' : Registry} {name shape : String} {fresh : Bool}
    (h : r.claim name shape = .ok (fresh, r')) {n s : String} (hn : r.shape? n = some s) :
    r'.shape? n = some s := by
  rcases claim_cases h with ⟨-, -, rfl⟩ | ⟨-, -, rfl⟩
  · rw [shape?_concat, hn, Option.some_or]
  · exact hn

/-- A shape after a claim was there before, or is the claimed one. -/
theorem shape?_cases_of_claim {r r' : Registry} {name shape : String} {fresh : Bool}
    (h : r.claim name shape = .ok (fresh, r')) {n s : String} (hn : r'.shape? n = some s) :
    r.shape? n = some s ∨ (fresh = true ∧ n = name ∧ s = shape) := by
  rcases claim_cases h with ⟨hf, -, rfl⟩ | ⟨-, -, rfl⟩
  · rw [shape?_concat] at hn
    rcases hr : r.shape? n with _ | t
    · rw [hr, Option.none_or] at hn
      by_cases hname : n = name
      · rw [if_pos hname] at hn
        exact Or.inr ⟨hf, hname, (Option.some.inj hn).symm⟩
      · rw [if_neg hname] at hn
        cases hn
    · rw [hr, Option.some_or] at hn
      exact Or.inl hn
  · exact Or.inl hn

/-- The shapes after a claim: the claimed name has the claimed shape, the others have theirs. -/
theorem shape?_of_claim {r r' : Registry} {name shape : String} {fresh : Bool}
    (h : r.claim name shape = .ok (fresh, r')) (n : String) :
    r'.shape? n = if n = name then some shape else r.shape? n := by
  rcases claim_cases h with ⟨-, hnew, rfl⟩ | ⟨-, hold, rfl⟩
  · rw [shape?_concat]
    by_cases hn : n = name
    · rw [if_pos hn, if_pos hn, hn, hnew, Option.none_or]
    · rw [if_neg hn, if_neg hn, Option.or_none]
  · by_cases hn : n = name
    · rw [if_pos hn, hn, hold]
    · rw [if_neg hn]

/-! ## Reserved names -/

/-- Everything that is declared stays declared with its shape. -/
def Extends (r r' : Registry) : Prop := ∀ n s, r.shape? n = some s → r'.shape? n = some s

theorem reserve_of_shape? {r : Registry} {name s : String} (h : r.shape? name = some s)
    (shape : String) : r.reserve name shape = r := by
  rw [reserve]
  rcases register_cases r name shape with ⟨hs, -⟩ | ⟨-, hr⟩ | ⟨other, -, -, hr⟩
  · rw [hs] at h
    cases h
  · rw [hr]
  · rw [hr]

/-- Reserving a name leaves it declared, and keeps what is there. -/
theorem extends_reserve (r : Registry) (name shape : String) :
    r.Extends (r.reserve name shape) ∧ ∃ s, (r.reserve name shape).shape? name = some s := by
  refine ⟨fun n s hn => ?_, ?_⟩
  · rw [reserve, shape?_register, hn, Option.some_or]
  · rw [reserve, shape?_register, if_pos rfl]
    cases r.shape? name with
    | none => exact ⟨shape, rfl⟩
    | some s => exact ⟨s, rfl⟩

/-- Reserving names one after the other, by induction on them. -/
theorem extends_foldl_reserve (names : List String) (shape : String) :
    ∀ r : Registry, r.Extends (names.foldl (fun r name => r.reserve name shape) r) ∧
      ∀ name ∈ names, ∃ s,
        (names.foldl (fun r name => r.reserve name shape) r).shape? name = some s := by
  induction names with
  | nil => exact fun r => ⟨fun _ _ hn => hn, fun _ hname => (nomatch hname)⟩
  | cons name names ih =>
    intro r
    obtain ⟨hextends, hnames⟩ := ih (r.reserve name shape)
    obtain ⟨hstep, s, hname⟩ := r.extends_reserve name shape
    refine ⟨fun n s hn => hextends n s (hstep n s hn), ?_⟩
    rw [List.foldl_cons]
    rintro other hother
    rcases List.mem_cons.mp hother with rfl | hother
    · exact ⟨s, hextends _ s hname⟩
    · exact hnames other hother

/-! ## Registries side by side -/

/-- The two registries have the same shapes for these names. -/
def AgreeOn (names : List String) (r r' : Registry) : Prop := ∀ n ∈ names, r.shape? n = r'.shape? n

/-- Claims of these names do not tell related registries apart, and leave them related. -/
def Indistinct (R : Registry → Registry → Prop) (names : List String) : Prop :=
  ∀ ⦃r r' : Registry⦄, R r r' → ∀ name ∈ names, ∀ shape,
    Matches (fun x y => x.1 = y.1 ∧ R x.2 y.2) (r.claim name shape) (r'.claim name shape)

theorem indistinct_eq (names : List String) : Indistinct Eq names := by
  rintro r _ rfl name - shape
  exact .refl (fun _ => ⟨rfl, rfl⟩) _

/-- The verdict on a claim depends on the shape of the name alone. -/
theorem claim_verdict {r r' : Registry} {name : String} (h : r.shape? name = r'.shape? name)
    (shape : String) :
    Matches (fun x y => x.1 = y.1) (r.claim name shape) (r'.claim name shape) := by
  rw [claim, claim, register, register, ← h]
  cases r.shape? name with
  | none => exact .ok rfl
  | some existing =>
    by_cases he : existing = shape
    · simp only [if_pos he]
      exact .ok rfl
    · simp only [if_neg he]
      exact .error _

theorem indistinct_agreeOn (names : List String) : Indistinct (AgreeOn names) names := by
  intro r r' hagree name hname shape
  have hverdict := claim_verdict (hagree name hname) shape
  rcases hr : r.claim name shape with e | ⟨fresh, r₁⟩ <;>
    rcases hr' : r'.claim name shape with e' | ⟨fresh', r₁'⟩ <;> rw [hr, hr'] at hverdict
  · cases hverdict
    exact .error e
  · cases hverdict
  · cases hverdict
  · cases hverdict with
    | ok hfresh =>
      refine .ok ⟨hfresh, fun n hn => ?_⟩
      rw [shape?_of_claim hr, shape?_of_claim hr', hagree n hn]

/-! ## Lists of claims -/

variable {α : Type} {entry : α → String × String}

/-- The things of a list are claimed one after the other, each with its name and its shape, and
these are the ones that are new. -/
inductive Claims (entry : α → String × String) :
    Registry → List α → (fresh : List α) → Registry → Prop
  | nil (r : Registry) : Claims entry r [] [] r
  | fresh {r r' : Registry} {a : α} {as fresh : List α} :
      r.shape? (entry a).1 = none → Claims entry ⟨r.entries ++ [entry a]⟩ as fresh r' →
      Claims entry r (a :: as) (a :: fresh) r'
  | known {r r' : Registry} {a : α} {as fresh : List α} :
      r.shape? (entry a).1 = some (entry a).2 → Claims entry r as fresh r' →
      Claims entry r (a :: as) fresh r'

namespace Claims

variable {r r' : Registry} {as fresh : List α}

/-- What is new comes last, in order. -/
theorem entries_eq (h : Claims entry r as fresh r') :
    r'.entries = r.entries ++ fresh.map entry := by
  induction h with
  | nil => simp
  | fresh _ _ ih => simp [ih]
  | known _ _ ih => exact ih

theorem names_eq (h : Claims entry r as fresh r') :
    r'.names = r.names ++ fresh.map fun a => (entry a).1 := by
  simp [Registry.names, Table.names, h.entries_eq]

theorem subset (h : Claims entry r as fresh r') : fresh ⊆ as := by
  induction h with
  | nil => exact List.Subset.refl _
  | fresh _ _ ih => exact List.cons_subset_cons _ ih
  | known _ _ ih => exact List.subset_cons_of_subset _ ih

/-- Shapes that are there stay. -/
theorem shape?_mono (h : Claims entry r as fresh r') {n s : String} (hn : r.shape? n = some s) :
    r'.shape? n = some s := by
  rw [shape?, h.entries_eq, Table.get?, List.lookup_append]
  exact hn ▸ Option.some_or

/-- Everything that is claimed has its shape afterwards. -/
theorem shape?_of_mem (h : Claims entry r as fresh r') {a : α} (ha : a ∈ as) :
    r'.shape? (entry a).1 = some (entry a).2 := by
  induction h with
  | nil => cases ha
  | @fresh r r' b as fresh hnew hrest ih =>
    rcases List.mem_cons.mp ha with rfl | ha
    · refine hrest.shape?_mono ?_
      rw [shape?_concat, hnew, if_pos rfl, Option.none_or]
    · exact ih ha
  | known hold hrest ih =>
    rcases List.mem_cons.mp ha with rfl | ha
    · exact hrest.shape?_mono hold
    · exact ih ha

/-- A shape after the claims was there before, or is that of something new. -/
theorem shape?_cases (h : Claims entry r as fresh r') {n s : String} (hn : r'.shape? n = some s) :
    r.shape? n = some s ∨ ∃ a ∈ fresh, entry a = (n, s) := by
  rw [shape?, h.entries_eq, Table.get?, List.lookup_append, Option.or_eq_some_iff] at hn
  rcases hn with hn | ⟨-, hn⟩
  · exact Or.inl hn
  · obtain ⟨a, ha, heq⟩ := List.mem_map.mp (Table.mem_of_get? hn)
    exact Or.inr ⟨a, ha, heq⟩

/-- Names that are not claimed keep their shapes. -/
theorem shape?_of_not_mem (h : Claims entry r as fresh r') {n : String}
    (hn : n ∉ as.map fun a => (entry a).1) : r'.shape? n = r.shape? n := by
  rw [shape?, h.entries_eq, Table.get?, List.lookup_append]
  have hfresh : Table.get? (fresh.map entry) n = none := by
    rw [Table.get?_eq_none_iff, Table.names, List.map_map]
    exact fun hmem => hn (List.map_subset _ h.subset hmem)
  rw [show List.lookup n (fresh.map entry) = none from hfresh, Option.or_none]
  rfl

/-- What is claimed first under its name is new, unless it is there already. -/
theorem mem_fresh (h : Claims entry r as fresh r') {a : α}
    (hfirst : as.find? (fun b => (entry b).1 = (entry a).1) = some a)
    (hr : r.shape? (entry a).1 ≠ some (entry a).2) : a ∈ fresh := by
  induction h with
  | nil => cases hfirst
  | @fresh r r' b as fresh _ _ ih =>
    by_cases hname : (entry b).1 = (entry a).1
    · rw [List.find?_cons_of_pos (by simpa using hname)] at hfirst
      rw [Option.some.inj hfirst]
      exact List.mem_cons_self
    · rw [List.find?_cons_of_neg (by simpa using hname)] at hfirst
      refine List.mem_cons_of_mem b (ih hfirst ?_)
      rw [shape?_concat, if_neg (Ne.symm hname), Option.or_none]
      exact hr
  | @known r r' b as fresh hold _ ih =>
    by_cases hname : (entry b).1 = (entry a).1
    · rw [List.find?_cons_of_pos (by simpa using hname)] at hfirst
      rw [Option.some.inj hfirst] at hold
      exact absurd hold hr
    · rw [List.find?_cons_of_neg (by simpa using hname)] at hfirst
      exact ih hfirst hr

/-- **Names stay distinct.** -/
theorem nodup_names (h : Claims entry r as fresh r') (hr : r.names.Nodup) : r'.names.Nodup := by
  induction h with
  | nil => exact hr
  | @fresh r r' a as fresh hnew _ ih => exact ih (nodup_names_concat hr hnew _)
  | known _ _ ih => exact ih hr

end Claims

end ClientGen.Registry
