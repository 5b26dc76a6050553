import ClientGen.CSharp.Plan
import ClientGen.Proofs.Outcome

/-!
# Plans that have succeeded

* `Plan.Runs` — a plan has given a value, and these are the models it has declared on the way. One
  inversion lemma for each way to build a plan.
* `Plan.RunsAll` — the same of a traversal, member by member; the models of the traversal are those
  of its members, one after the other.
-/

namespace ClientGen.CSharp.Plan

variable {α β : Type}

/-- The plan gives the value, and declares the models. -/
structure Runs (x : Plan α) (a : α) (ms : List Model) : Prop where
  outcome : x.outcome = .ok a
  models : x.models = ms

namespace Runs

theorem pure_inv {a b : α} {ms : List Model} (h : (pure a : Plan α).Runs b ms) :
    a = b ∧ ms = [] :=
  ⟨Except.ok.inj h.outcome, h.models.symm⟩

theorem bind_inv {x : Plan α} {f : α → Plan β} {b : β} {ms : List Model} (h : (x >>= f).Runs b ms) :
    ∃ a ms₁ ms₂, x.Runs a ms₁ ∧ (f a).Runs b ms₂ ∧ ms = ms₁ ++ ms₂ := by
  obtain ⟨houtcome, hmodels⟩ := h
  rw [outcome_bind] at houtcome
  obtain ⟨a, hx, hf⟩ := bind_eq_ok houtcome
  refine ⟨a, x.models, (f a).models, ⟨hx, rfl⟩, ⟨hf, rfl⟩, ?_⟩
  rw [← hmodels]
  show (Plan.bind x f).models = x.models ++ (f a).models
  unfold Plan.bind
  rw [hx]

/-- A plan whose value is only turned into another. -/
theorem bind_pure_inv {x : Plan α} {f : α → β} {b : β} {ms : List Model}
    (h : (x >>= fun a => pure (f a)).Runs b ms) : ∃ a, x.Runs a ms ∧ f a = b := by
  obtain ⟨a, ms₁, ms₂, hx, hpure, rfl⟩ := h.bind_inv
  obtain ⟨hb, rfl⟩ := hpure.pure_inv
  rw [List.append_nil]
  exact ⟨a, hx, hb⟩

theorem ofExcept_inv {x : Except EmitError α} {a : α} {ms : List Model}
    (h : (ofExcept x).Runs a ms) : x = .ok a ∧ ms = [] :=
  ⟨h.outcome, h.models.symm⟩

theorem push_inv {m : Model} {u : Unit} {ms : List Model} (h : (push m).Runs u ms) : ms = [m] :=
  h.models.symm

theorem warnIf_inv {reason : Bool} {w : Warning} {u : Unit} {ms : List Model}
    (h : (warnIf reason w).Runs u ms) : ms = [] :=
  h.models.symm

/-- A declared model comes before those that its making declares. -/
theorem declare_inv {make : Plan Model} {u : Unit} {ms : List Model}
    (h : (declare make).Runs u ms) : ∃ m rest, make.Runs m rest ∧ ms = m :: rest := by
  obtain ⟨houtcome, hmodels⟩ := h
  unfold declare at houtcome hmodels
  rcases hm : make.outcome with e | m
  · rw [hm] at houtcome
    cases houtcome
  · rw [hm] at hmodels
    exact ⟨m, make.models, ⟨hm, rfl⟩, hmodels.symm⟩

/-- A plan runs in one way only. -/
theorem unique {x : Plan α} {a b : α} {ms ns : List Model} (h : x.Runs a ms) (h' : x.Runs b ns) :
    a = b ∧ ms = ns :=
  ⟨Except.ok.inj (h.outcome.symm.trans h'.outcome), h.models.symm.trans h'.models⟩

end Runs

/-! ## Traversals -/

/-- The plans of a list give their values and declare their models, one after the other. -/
inductive RunsAll (f : α → Plan β) : List α → List β → List Model → Prop
  | nil : RunsAll f [] [] []
  | cons {a : α} {b : β} {l : List α} {r : List β} {ms ns : List Model} :
      (f a).Runs b ms → RunsAll f l r ns → RunsAll f (a :: l) (b :: r) (ms ++ ns)

theorem Runs.mapM_inv {f : α → Plan β} {l : List α} :
    ∀ {r : List β} {ms : List Model}, (l.mapM f).Runs r ms → RunsAll f l r ms := by
  induction l with
  | nil =>
    intro r ms h
    rw [List.mapM_nil] at h
    obtain ⟨rfl, rfl⟩ := h.pure_inv
    exact RunsAll.nil
  | cons a l ih =>
    intro r ms h
    rw [List.mapM_cons] at h
    obtain ⟨b, ms₁, ms₂, ha, htail, rfl⟩ := h.bind_inv
    obtain ⟨bs, hl, rfl⟩ := htail.bind_pure_inv
    exact RunsAll.cons ha (ih hl)

theorem Runs.forM_inv {f : α → Plan Unit} {l : List α} :
    ∀ {u : Unit} {ms : List Model}, (l.forM f).Runs u ms → ∃ r, RunsAll f l r ms := by
  induction l with
  | nil =>
    intro u ms h
    obtain ⟨-, rfl⟩ := h.pure_inv
    exact ⟨[], RunsAll.nil⟩
  | cons a l ih =>
    intro u ms h
    obtain ⟨b, ms₁, ms₂, ha, htail, rfl⟩ := h.bind_inv
    obtain ⟨r, hr⟩ := ih htail
    exact ⟨b :: r, RunsAll.cons ha hr⟩

namespace RunsAll

variable {f : α → Plan β} {l : List α} {r : List β} {ms : List Model}

theorem single {a : α} {b : β} (h : (f a).Runs b ms) : RunsAll f [a] [b] ms := by
  have hall := RunsAll.cons h RunsAll.nil
  rwa [List.append_nil] at hall

theorem append {l' : List α} {r' : List β} {ms' : List Model} (h : RunsAll f l r ms)
    (h' : RunsAll f l' r' ms') : RunsAll f (l ++ l') (r ++ r') (ms ++ ms') := by
  induction h with
  | nil => exact h'
  | cons hrun _ ih =>
    rw [List.append_assoc]
    exact RunsAll.cons hrun ih

/-- Every member runs, and the traversal declares what it declares. -/
theorem of_mem (h : RunsAll f l r ms) {a : α} (ha : a ∈ l) :
    ∃ b ms', (f a).Runs b ms' ∧ ms' ⊆ ms := by
  induction h with
  | nil => cases ha
  | cons hb _ ih =>
    rcases List.mem_cons.mp ha with rfl | ha
    · exact ⟨_, _, hb, List.subset_append_left _ _⟩
    · obtain ⟨b, ms', hrun, hsub⟩ := ih ha
      exact ⟨b, ms', hrun, List.subset_append_of_subset_right _ hsub⟩

/-- Every value is that of a member. -/
theorem of_mem_result (h : RunsAll f l r ms) {b : β} (hb : b ∈ r) :
    ∃ a ∈ l, ∃ ms', (f a).Runs b ms' ∧ ms' ⊆ ms := by
  induction h with
  | nil => cases hb
  | cons hrun _ ih =>
    rcases List.mem_cons.mp hb with rfl | hb
    · exact ⟨_, List.mem_cons_self .., _, hrun, List.subset_append_left _ _⟩
    · obtain ⟨a, ha, ms', hrun, hsub⟩ := ih hb
      exact ⟨a, List.mem_cons_of_mem _ ha, ms', hrun, List.subset_append_of_subset_right _ hsub⟩

/-- Every model is declared by a member. -/
theorem of_mem_models (h : RunsAll f l r ms) {m : Model} (hm : m ∈ ms) :
    ∃ a ∈ l, ∃ b ms', (f a).Runs b ms' ∧ m ∈ ms' := by
  induction h with
  | nil => cases hm
  | cons hrun _ ih =>
    rcases List.mem_append.mp hm with hm | hm
    · exact ⟨_, List.mem_cons_self .., _, _, hrun, hm⟩
    · obtain ⟨a, ha, b, ms', hrun, hm⟩ := ih hm
      exact ⟨a, List.mem_cons_of_mem _ ha, b, ms', hrun, hm⟩

theorem forall₂ {R : α → β → Prop} (h : RunsAll f l r ms)
    (hR : ∀ a ∈ l, ∀ {b ms}, (f a).Runs b ms → R a b) : List.Forall₂ R l r := by
  induction h with
  | nil => exact .nil
  | cons hrun _ ih =>
    refine .cons (hR _ (List.mem_cons_self ..) hrun) (ih fun a ha => ?_)
    exact hR a (List.mem_cons_of_mem _ ha)

theorem length_eq (h : RunsAll f l r ms) : r.length = l.length := by
  induction h with
  | nil => rfl
  | cons _ _ ih => rw [List.length_cons, List.length_cons, ih]

/-- What each value has of its member, the values have of the list. -/
theorem map_eq {γ : Type} {g : β → γ} {g' : α → γ} (h : RunsAll f l r ms)
    (hg : ∀ {a b ms}, (f a).Runs b ms → g b = g' a) : r.map g = l.map g' := by
  induction h with
  | nil => rfl
  | cons hrun _ ih => rw [List.map_cons, List.map_cons, hg hrun, ih]

end RunsAll

end ClientGen.CSharp.Plan
