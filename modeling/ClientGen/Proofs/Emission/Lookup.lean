import ClientGen.Emission.Error
import ClientGen.Proofs.Outcome
import ClientGen.Schema.Basic
import ClientGen.Table

/-!
# Names that emission looks up

Emission turns schemas into types, and on the way looks up the definitions that they refer to. A
name without a definition stops it.

* `Schema.Refers` — the names that a schema refers to wherever its type is made from them.
* `FailsOnly` — the errors of a piece of work are all of one kind. Sequences and traversals keep it.
* `LooksUp` — **the names decide**: the work succeeds if all of them are defined, and otherwise its
  error is about one that is not. Sequences and traversals look up what their steps look up.
-/

namespace ClientGen

/-! ## References inside a schema -/

/-- The schema refers to a name. The other members of an object count where it has no properties;
where it has some, they take any value. -/
inductive Schema.Refers : Schema → String → Prop
  | reference (name : String) : Refers (.reference name) name
  | array {items : Schema} {description : Option String} {constraints : Constraints}
      {name : String} : Refers items name → Refers (.array items description constraints) name
  | property {title description : Option String} {properties : List (Property Schema)}
      {additional : Option Schema} {p : Property Schema} {name : String} :
      p ∈ properties → Refers p.schema name →
      Refers (.object title description properties additional) name
  | additional {title description : Option String} {extra : Schema} {name : String} :
      Refers extra name → Refers (.object title description [] (some extra)) name

namespace Schema

variable {name : String}

@[simp] theorem refers_reference {target : String} :
    (Schema.reference target).Refers name ↔ name = target := by
  constructor
  · rintro ⟨⟩
    rfl
  · rintro rfl
    exact .reference name

@[simp] theorem refers_primitive {p : Primitive} : ¬ (Schema.primitive p).Refers name := by
  rintro ⟨⟩

@[simp] theorem refers_array {items : Schema} {description : Option String}
    {constraints : Constraints} :
    (Schema.array items description constraints).Refers name ↔ items.Refers name := by
  constructor
  · rintro ⟨⟩
    assumption
  · exact .array

theorem refers_object {title description : Option String} {properties : List (Property Schema)}
    {additional : Option Schema} :
    (Schema.object title description properties additional).Refers name ↔
      (∃ p ∈ properties, p.schema.Refers name) ∨
        (properties = [] ∧ ∃ extra, additional = some extra ∧ extra.Refers name) := by
  constructor
  · rintro (_ | _ | ⟨hp, h⟩ | h)
    · exact .inl ⟨_, hp, h⟩
    · exact .inr ⟨rfl, _, rfl, h⟩
  · rintro (⟨p, hp, h⟩ | ⟨rfl, extra, rfl, h⟩)
    · exact .property hp h
    · exact .additional h

end Schema

/-! ## Errors of one kind -/

/-- All errors of the work are of a kind. -/
def FailsOnly {ε α : Type} (kind : ε → Prop) (x : Except ε α) : Prop := ∀ e, x = .error e → kind e

namespace FailsOnly

variable {ε α β : Type} {kind : ε → Prop} {x : Except ε α}

theorem ok (a : α) : FailsOnly kind (.ok a : Except ε α) := by
  rintro e ⟨⟩

theorem error {e : ε} (h : kind e) : FailsOnly kind (.error e : Except ε α) := by
  rintro _ ⟨⟩
  exact h

theorem mono {kind' : ε → Prop} (h : FailsOnly kind x) (hkind : ∀ e, kind e → kind' e) :
    FailsOnly kind' x :=
  fun e he => hkind e (h e he)

theorem bind {f : α → Except ε β} (h : FailsOnly kind x) (hf : ∀ a, FailsOnly kind (f a)) :
    FailsOnly kind (x >>= f) := by
  cases x with
  | ok a => exact hf a
  | error e => exact error (h e rfl)

end FailsOnly

/-- The error is about a name without a definition, one of the given names. -/
def Missing (definitions : Table Schema) (names : String → Prop) (e : EmitError) : Prop :=
  ∃ name context, e = .unresolvedReference name context ∧ names name ∧
    definitions.get? name = none

/-! ## Work that looks up names -/

/-- The work looks up exactly these names: it gives a value only if all of them are defined, and an
error only over one that is not. -/
structure LooksUp {α : Type} (definitions : Table Schema) (names : String → Prop)
    (x : Except EmitError α) : Prop where
  found : ∀ a, x = .ok a → ∀ name, names name → definitions.get? name ≠ none
  missing : FailsOnly (Missing definitions names) x

namespace LooksUp

variable {α β : Type} {definitions : Table Schema} {names names' : String → Prop}
  {x : Except EmitError α}

/-- So the names decide whether there is a value. -/
theorem exists_ok_iff (h : LooksUp definitions names x) :
    (∃ a, x = .ok a) ↔ ∀ name, names name → definitions.get? name ≠ none := by
  constructor
  · rintro ⟨a, ha⟩
    exact h.found a ha
  · intro hdefined
    cases hx : x with
    | ok a => exact ⟨a, rfl⟩
    | error e =>
      obtain ⟨name, -, -, hname, hnone⟩ := h.missing e hx
      exact absurd hnone (hdefined name hname)

theorem congr (h : LooksUp definitions names x) (hnames : ∀ name, names name ↔ names' name) :
    LooksUp definitions names' x := by
  obtain rfl : names = names' := funext fun name => propext (hnames name)
  exact h

theorem ok (a : α) (hnames : ∀ name, names name → definitions.get? name ≠ none) :
    LooksUp definitions names (.ok a : Except EmitError α) :=
  ⟨fun _ _ => hnames, .ok a⟩

theorem unresolved {name context : String} (hname : names name)
    (hnone : definitions.get? name = none) : LooksUp definitions names
      (.error (.unresolvedReference name context) : Except EmitError α) where
  found := by
    rintro a ⟨⟩
  missing := .error ⟨name, context, rfl, hname, hnone⟩

/-- A sequence looks up what its steps look up. -/
theorem bind {f : α → Except EmitError β} (h : LooksUp definitions names x)
    (hf : ∀ a, LooksUp definitions names' (f a)) :
    LooksUp definitions (fun name => names name ∨ names' name) (x >>= f) := by
  constructor
  · intro b hb
    obtain ⟨a, ha, hb⟩ := bind_eq_ok hb
    rintro name (hname | hname)
    · exact h.found a ha name hname
    · exact (hf a).found b hb name hname
  · refine (h.missing.mono ?_).bind fun a => (hf a).missing.mono ?_
    · rintro e ⟨name, context, he, hname, hnone⟩
      exact ⟨name, context, he, .inl hname, hnone⟩
    · rintro e ⟨name, context, he, hname, hnone⟩
      exact ⟨name, context, he, .inr hname, hnone⟩

/-- What is done to the value at the end looks up nothing. -/
theorem bind_ok (h : LooksUp definitions names x) (g : α → β) :
    LooksUp definitions names (x >>= fun a => .ok (g a)) := by
  have hnone (a : α) : LooksUp definitions (fun _ => False) (.ok (g a) : Except EmitError β) :=
    ok (g a) fun _ => False.elim
  exact (h.bind hnone).congr fun name => or_iff_left id

/-- A traversal looks up what is looked up for its members. -/
theorem mapM {f : α → Except EmitError β} {names : α → String → Prop} {l : List α}
    (h : ∀ a ∈ l, LooksUp definitions (names a) (f a)) :
    LooksUp definitions (fun name => ∃ a ∈ l, names a name) (l.mapM f) := by
  induction l with
  | nil => exact ok [] (by simp)
  | cons a l ih =>
    rw [List.mapM_cons]
    have htail := ih fun b hb => h b (List.mem_cons_of_mem a hb)
    refine ((h a List.mem_cons_self).bind fun b => htail.bind_ok (b :: ·)).congr fun name => ?_
    simp

end LooksUp

end ClientGen
