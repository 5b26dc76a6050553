import ClientGen.Warning

/-!
# Work that may fail and warn

A `Checked` result is a value or an error, with the warnings that came up on the way; an error keeps
the warnings before it. Warnings never change what comes after them: `outcome_bind` says that the
outcome of a sequence is the sequence of the outcomes.
-/

namespace ClientGen

/-- A value or an error, and the warnings on the way. -/
structure Checked (ε α : Type) where
  /-- the warnings, in order -/
  warnings : List Warning
  /-- the value or the error -/
  outcome : Except ε α

namespace Checked

variable {ε α β γ : Type}

/-- A value without warnings. -/
protected def pure (a : α) : Checked ε α := ⟨[], .ok a⟩

/-- Goes on with the value, if there is one. -/
protected def bind (x : Checked ε α) (f : α → Checked ε β) : Checked ε β :=
  match x.outcome with
  | .ok a => ⟨x.warnings ++ (f a).warnings, (f a).outcome⟩
  | .error e => ⟨x.warnings, .error e⟩

instance : Monad (Checked ε) where
  pure := Checked.pure
  bind := Checked.bind

instance : MonadExceptOf ε (Checked ε) where
  throw e := ⟨[], .error e⟩
  tryCatch x handle :=
    match x.outcome with
    | .ok _ => x
    | .error e => ⟨x.warnings ++ (handle e).warnings, (handle e).outcome⟩

/-- Notes a warning. -/
def warn (w : Warning) : Checked ε Unit := ⟨[w], .ok ()⟩

/-- An outcome without warnings. -/
def ofExcept (x : Except ε α) : Checked ε α := ⟨[], x⟩

@[simp] theorem outcome_pure (a : α) : (pure a : Checked ε α).outcome = .ok a := rfl

@[simp] theorem warnings_pure (a : α) : (pure a : Checked ε α).warnings = [] := rfl

/-- The outcome of a sequence is the sequence of the outcomes. -/
@[simp] theorem outcome_bind (x : Checked ε α) (f : α → Checked ε β) :
    (x >>= f).outcome = x.outcome >>= fun a => (f a).outcome := by
  obtain ⟨ws, _ | a⟩ := x <;> rfl

@[simp] theorem outcome_throw (e : ε) : (throw e : Checked ε α).outcome = .error e := rfl

@[simp] theorem outcome_warn (w : Warning) : (warn w : Checked ε Unit).outcome = .ok () := rfl

@[simp] theorem outcome_ofExcept (x : Except ε α) : (ofExcept x).outcome = x := rfl

instance : LawfulMonad (Checked ε) := LawfulMonad.mk'
  (Checked ε)
  (fun x => by obtain ⟨ws, _ | a⟩ := x <;> simp [Functor.map, Checked.bind, Checked.pure])
  (fun a f => by simp [bind, Checked.bind, pure, Checked.pure])
  (fun x f g => by
    obtain ⟨ws, _ | a⟩ := x
    · rfl
    · simp only [bind, Checked.bind]
      cases (f a).outcome <;> simp)

end Checked

end ClientGen
