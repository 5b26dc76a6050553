import Mathlib.Data.List.Forall2

/-!
# Outcomes of work

* **Work that has succeeded**: what is known of a sequence, of a mapped value and of a traversal
  once they have given a value. Each step on the way has given one.
* **Work side by side** (`Matches`): two pieces of work fail with the same error, or give values
  that are related. Sequences and traversals of matching steps match.
-/

namespace ClientGen

variable {ε α β : Type}

/-- Inversion for `bind`. -/
theorem bind_eq_ok {x : Except ε α} {f : α → Except ε β} {b : β} (h : x >>= f = .ok b) :
    ∃ a, x = .ok a ∧ f a = .ok b := by
  cases x with
  | error e => cases h
  | ok a => exact ⟨a, rfl, h⟩

/-- Inversion for `map`. -/
theorem map_eq_ok {x : Except ε α} {f : α → β} {b : β} (h : f <$> x = .ok b) :
    ∃ a, x = .ok a ∧ f a = b := by
  cases x with
  | error e => cases h
  | ok a => exact ⟨a, rfl, Except.ok.inj h⟩

/-- Inversion for `pure`. -/
theorem pure_eq_ok {a b : α} (h : (pure a : Except ε α) = .ok b) : a = b := Except.ok.inj h

/-- Inversion for `mapError`. -/
theorem mapError_eq_ok {ε' : Type} {x : Except ε α} {f : ε → ε'} {a : α}
    (h : x.mapError f = .ok a) : x = .ok a := by
  cases x with
  | error e => cases h
  | ok a' => exact congrArg Except.ok (Except.ok.inj h)

theorem mapError_eq_error {ε' : Type} {x : Except ε α} {f : ε → ε'} {e' : ε'}
    (h : x.mapError f = .error e') : ∃ e, x = .error e ∧ f e = e' := by
  cases x with
  | error e => exact ⟨e, rfl, Except.error.inj h⟩
  | ok a => cases h

/-- Inversion for `toOption`. -/
theorem eq_ok_of_toOption {x : Except ε α} {a : α} (h : x.toOption = some a) : x = .ok a := by
  cases x with
  | error e => cases h
  | ok a' => exact congrArg Except.ok (Option.some.inj h)

/-- Inversion for a traversal: member by member. -/
theorem mapM_eq_ok {f : α → Except ε β} {l : List α} :
    ∀ {r : List β}, l.mapM f = .ok r → List.Forall₂ (fun a b => f a = .ok b) l r := by
  induction l with
  | nil =>
    intro r h
    rw [List.mapM_nil] at h
    rw [← pure_eq_ok h]
    exact List.Forall₂.nil
  | cons a l ih =>
    intro r h
    rw [List.mapM_cons] at h
    obtain ⟨b, hb, h⟩ := bind_eq_ok h
    obtain ⟨bs, hbs, h⟩ := bind_eq_ok h
    rw [← pure_eq_ok h]
    exact List.Forall₂.cons hb (ih hbs)

/-- A traversal succeeds when every member does. -/
theorem mapM_of_forall₂ {f : α → Except ε β} {l : List α} {r : List β}
    (h : List.Forall₂ (fun a b => f a = .ok b) l r) : l.mapM f = .ok r := by
  induction h with
  | nil => rfl
  | cons hab _ ih =>
    rw [List.mapM_cons, hab, ih]
    rfl

theorem exists_mapM_eq_ok {f : α → Except ε β} {l : List α} (h : ∀ a ∈ l, ∃ b, f a = .ok b) :
    ∃ r, l.mapM f = .ok r := by
  induction l with
  | nil => exact ⟨[], rfl⟩
  | cons a l ih =>
    obtain ⟨b, hb⟩ := h a List.mem_cons_self
    obtain ⟨r, hr⟩ := ih fun a' ha' => h a' (List.mem_cons_of_mem a ha')
    rw [List.mapM_cons, hb, hr]
    exact ⟨b :: r, rfl⟩

/-- Every member of the result is the value of a member of the list. -/
theorem exists_of_mem_mapM {f : α → Except ε β} {l : List α} {r : List β} (h : l.mapM f = .ok r)
    {b : β} (hb : b ∈ r) : ∃ a ∈ l, f a = .ok b := by
  have hall := mapM_eq_ok h
  clear h
  induction hall with
  | nil => cases hb
  | cons hab _ ih =>
    rcases List.mem_cons.mp hb with rfl | hb
    · exact ⟨_, List.mem_cons_self .., hab⟩
    · obtain ⟨a, ha, hf⟩ := ih hb
      exact ⟨a, List.mem_cons_of_mem _ ha, hf⟩

/-- What each value has of its member, the values have of the list. -/
theorem map_eq_of_mapM {γ : Type} {f : α → Except ε β} {g : β → γ} {g' : α → γ} {l : List α}
    {r : List β} (h : l.mapM f = .ok r) (hg : ∀ {a b}, f a = .ok b → g b = g' a) :
    r.map g = l.map g' := by
  have hall := mapM_eq_ok h
  clear h
  induction hall with
  | nil => rfl
  | cons hab _ ih => rw [List.map_cons, List.map_cons, hg hab, ih]

/-! ## Work side by side -/

/-- Two outcomes match: they are the same error, or values that are related. -/
inductive Matches {γ : Type} (R : α → γ → Prop) : Except ε α → Except ε γ → Prop
  | error (e : ε) : Matches R (.error e) (.error e)
  | ok {a : α} {c : γ} (h : R a c) : Matches R (.ok a) (.ok c)

namespace Matches

variable {γ δ : Type} {R : α → γ → Prop} {S : β → δ → Prop} {x : Except ε α} {y : Except ε γ}

theorem refl {R : α → α → Prop} (h : ∀ a, R a a) (x : Except ε α) : Matches R x x := by
  cases x with
  | error e => exact .error e
  | ok a => exact .ok (h a)

/-- A sequence of matching steps. -/
theorem bind {f : α → Except ε β} {g : γ → Except ε δ} (h : Matches R x y)
    (hfg : ∀ a c, R a c → Matches S (f a) (g c)) : Matches S (x >>= f) (y >>= g) := by
  cases h with
  | error e => exact .error e
  | ok hac => exact hfg _ _ hac

theorem mono {R' : α → γ → Prop} (h : Matches R x y) (hR : ∀ a c, R a c → R' a c) :
    Matches R' x y := by
  cases h with
  | error e => exact .error e
  | ok hac => exact .ok (hR _ _ hac)

end Matches

/-- The same, provided that something holds. -/
def EqIf (P : Prop) (a b : α) : Prop := P → a = b

theorem EqIf.refl {P : Prop} (a : α) : EqIf P a a := fun _ => rfl

/-- A traversal of matching steps. -/
theorem Matches.mapM {P : Prop} {f g : α → Except ε β} {l : List α}
    (h : ∀ a ∈ l, Matches (EqIf P) (f a) (g a)) : Matches (EqIf P) (l.mapM f) (l.mapM g) := by
  induction l with
  | nil => exact .ok (.refl [])
  | cons a l ih =>
    rw [List.mapM_cons, List.mapM_cons]
    apply (h a List.mem_cons_self).bind
    intro b b' hb
    apply (ih fun a' ha' => h a' (List.mem_cons_of_mem a ha')).bind
    intro bs bs' hbs
    exact .ok fun hP => congrArg₂ List.cons (hb hP) (hbs hP)

end ClientGen
