import Mathlib.Data.List.Forall2
import ClientGen.Schema.Shape

/-!
# Schemas without documentation

`Schema.erase` removes what is documentation only: titles, descriptions, what is checked of values,
and defaults. Two schemas are the same apart from documentation when they are the same once it is
erased; `Schema.alike_of_erase_eq` takes such an equation apart, constructor by constructor.
-/

namespace ClientGen

/-- The primitive without description, constraints and default. -/
def Primitive.erase (p : Primitive) : Primitive where
  kind := p.kind
  format := p.format
  enum := p.enum

theorem Primitive.isStringEnum_erase (p : Primitive) : p.erase.isStringEnum = p.isStringEnum := rfl

mutual

/-- The schema without titles, descriptions, constraints and defaults. -/
def Schema.erase : Schema → Schema
  | .reference name => .reference name
  | .object _ _ properties additional =>
    .object none none (Schema.eraseProperties properties) (Schema.eraseAdditional additional)
  | .array items _ _ => .array items.erase none {}
  | .primitive p => .primitive p.erase
termination_by structural s => s

/-- Properties without documentation. -/
def Schema.eraseProperties : List (Property Schema) → List (Property Schema)
  | [] => []
  | ⟨name, schema, required⟩ :: properties =>
    ⟨name, schema.erase, required⟩ :: Schema.eraseProperties properties
termination_by structural ps => ps

/-- The schema of other members without documentation. -/
def Schema.eraseAdditional : Option Schema → Option Schema
  | none => none
  | some schema => some schema.erase
termination_by structural a => a

end

/-- Two properties are the same apart from documentation. -/
def Property.Alike (p q : Property Schema) : Prop :=
  p.name = q.name ∧ p.required = q.required ∧ p.schema.erase = q.schema.erase

/-- What two schemas have in common that are the same apart from documentation. -/
inductive Schema.Alike : Schema → Schema → Prop
  | reference (name : String) : Alike (.reference name) (.reference name)
  | object {title title' description description' : Option String}
      {ps qs : List (Property Schema)} {additional additional' : Option Schema} :
      List.Forall₂ Property.Alike ps qs →
      Option.Rel (fun a b => a.erase = b.erase) additional additional' →
      Alike (.object title description ps additional) (.object title' description' qs additional')
  | array {items items' : Schema} {description description' : Option String}
      {constraints constraints' : Constraints} :
      items.erase = items'.erase →
      Alike (.array items description constraints) (.array items' description' constraints')
  | primitive {p q : Primitive} : p.erase = q.erase → Alike (.primitive p) (.primitive q)

namespace Schema

theorem alike_of_eraseAdditional_eq {additional additional' : Option Schema}
    (h : eraseAdditional additional = eraseAdditional additional') :
    Option.Rel (fun a b => a.erase = b.erase) additional additional' := by
  cases additional with
  | none =>
    cases additional' with
    | none => exact Option.Rel.none
    | some b => simp only [eraseAdditional, reduceCtorEq] at h
  | some a =>
    cases additional' with
    | none => simp only [eraseAdditional, reduceCtorEq] at h
    | some b =>
      rw [eraseAdditional, eraseAdditional, Option.some.injEq] at h
      exact Option.Rel.some h

theorem alike_of_eraseProperties_eq {ps : List (Property Schema)} :
    ∀ {qs : List (Property Schema)}, eraseProperties ps = eraseProperties qs →
      List.Forall₂ Property.Alike ps qs := by
  induction ps with
  | nil =>
    intro qs h
    cases qs with
    | nil => exact List.Forall₂.nil
    | cons q qs => simp only [eraseProperties, reduceCtorEq] at h
  | cons p ps ih =>
    intro qs h
    cases qs with
    | nil => simp only [eraseProperties, reduceCtorEq] at h
    | cons q qs =>
      rw [eraseProperties, eraseProperties, List.cons.injEq, Property.mk.injEq] at h
      obtain ⟨⟨hname, hschema, hrequired⟩, hrest⟩ := h
      exact List.Forall₂.cons ⟨hname, hrequired, hschema⟩ (ih hrest)

/-- Inversion for erasure. -/
theorem alike_of_erase_eq {a b : Schema} (h : a.erase = b.erase) : Alike a b := by
  cases a with
  | reference name =>
    cases b with
    | reference name' =>
      rw [erase, erase, Schema.reference.injEq] at h
      rw [h]
      exact Alike.reference name'
    | _ => simp only [erase, reduceCtorEq] at h
  | object title description ps additional =>
    cases b with
    | object title' description' qs additional' =>
      rw [erase, erase, Schema.object.injEq] at h
      obtain ⟨-, -, hproperties, hadditional⟩ := h
      exact Alike.object (alike_of_eraseProperties_eq hproperties)
        (alike_of_eraseAdditional_eq hadditional)
    | _ => simp only [erase, reduceCtorEq] at h
  | array items description constraints =>
    cases b with
    | array items' description' constraints' =>
      rw [erase, erase, Schema.array.injEq] at h
      exact Alike.array h.1
    | _ => simp only [erase, reduceCtorEq] at h
  | primitive p =>
    cases b with
    | primitive q =>
      rw [erase, erase, Schema.primitive.injEq] at h
      exact Alike.primitive h
    | _ => simp only [erase, reduceCtorEq] at h

end Schema

end ClientGen
