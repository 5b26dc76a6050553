import ClientGen.Proofs.Emission.Batch
import ClientGen.Proofs.Outcome

/-!
# Batches one after the other and side by side

For any emitter:

* `emitBatch_append` — a batch of two lists is a batch of the first and then, from the names in use
  after it, a batch of the second.
* `emitBatch_parallel` — two batches of the same specifications, started from names that are
  related, stay **in parallel** if every step keeps them so.
* `Emitter.Local` — what emission of a specification depends on are the names that it claims. Two
  specifications that claim different names then fare as they do alone, in either order
  (`Emitter.Local.joins`, `Emitter.Local.names_swap`).
-/

namespace ClientGen

variable {σ π : Type}

/-! ## One after the other -/

namespace Batch

/-- A batch with another one after it. -/
def append (b c : Batch σ π) : Batch σ π :=
  ⟨c.names, b.emitted ++ c.emitted, b.failed ++ c.failed, b.warnings ++ c.warnings⟩

theorem append_start (b : Batch σ π) : b.append { names := b.names } = b := by
  simp [append]

theorem step_append (e : Emitter σ π) (b c : Batch σ π) (spec : Specification) :
    (b.append c).step e spec = b.append (c.step e spec) := by
  simp only [step, append]
  rcases e.emit spec c.names with ⟨ws, error | ⟨part, names⟩⟩ <;> simp

end Batch

theorem foldl_step_append (e : Emitter σ π) (specs : List Specification) :
    ∀ b c : Batch σ π,
      specs.foldl (Batch.step e) (b.append c) = b.append (specs.foldl (Batch.step e) c) := by
  induction specs with
  | nil => exact fun _ _ => rfl
  | cons spec specs ih =>
    intro b c
    rw [List.foldl_cons, List.foldl_cons, Batch.step_append, ih]

/-- **Two lists** are emitted one after the other. -/
theorem emitBatch_append (e : Emitter σ π) (names : σ) (xs ys : List Specification) :
    emitBatch e names (xs ++ ys) =
      (emitBatch e names xs).append (emitBatch e (emitBatch e names xs).names ys) := by
  have hsecond := foldl_step_append e ys (emitBatch e names xs)
    { names := (emitBatch e names xs).names }
  rw [Batch.append_start] at hsecond
  rw [emitBatch, List.foldl_append]
  exact hsecond

/-- **A failure first**: the others are emitted as if it were not there. -/
theorem emitBatch_cons_of_error {e : Emitter σ π} {names : σ} {spec : Specification}
    {error : EmitError} (h : (e.emit spec names).2 = .error error) (specs : List Specification) :
    (emitBatch e names (spec :: specs)).emitted = (emitBatch e names specs).emitted ∧
      (emitBatch e names (spec :: specs)).failed =
        (spec, error) :: (emitBatch e names specs).failed := by
  simp [emitBatch_emitted, emitBatch_failed, trace, h, List.filterMap_cons, emittedEntry?,
    failedEntry?]

/-! ## Side by side -/

/-- A specification is emitted alike from two states of the names in use: with the same warnings,
and with the same error or with parts and names that are related. -/
structure Emitter.Alike (e : Emitter σ π) (R : σ → σ → Prop) (S : π → π → Prop)
    (spec : Specification) (n n' : σ) : Prop where
  warnings : (e.emit spec n).1 = (e.emit spec n').1
  outcome : Matches (fun x y => S x.1 y.1 ∧ R x.2 y.2) (e.emit spec n).2 (e.emit spec n').2

/-- Two batches are in parallel: the same specifications are emitted, with parts that are related,
and the others have failed with the same errors. -/
structure Batch.Parallel (R : σ → σ → Prop) (S : π → π → Prop) (b c : Batch σ π) : Prop where
  names : R b.names c.names
  emitted : List.Forall₂ (fun x y => x.1 = y.1 ∧ S x.2 y.2) b.emitted c.emitted
  failed : b.failed = c.failed
  warnings : b.warnings = c.warnings

section

variable {e : Emitter σ π} {R : σ → σ → Prop} {S : π → π → Prop}

/-- **One step.** -/
theorem Batch.Parallel.step {b c : Batch σ π} (h : b.Parallel R S c) {spec : Specification}
    (hspec : e.Alike R S spec b.names c.names) : (b.step e spec).Parallel R S (c.step e spec) := by
  obtain ⟨hwarnings, houtcome⟩ := hspec
  simp only [Batch.step]
  generalize e.emit spec b.names = left at *
  generalize e.emit spec c.names = right at *
  obtain ⟨ws, x⟩ := left
  obtain ⟨ws', y⟩ := right
  obtain rfl : ws = ws' := hwarnings
  cases houtcome with
  | error error => exact ⟨h.names, h.emitted, by simp only [h.failed], by simp only [h.warnings]⟩
  | ok hok =>
    refine ⟨hok.2, ?_, h.failed, by simp only [h.warnings]⟩
    exact List.rel_append h.emitted (.cons ⟨rfl, hok.1⟩ .nil)

/-- **A whole run.** -/
theorem emitBatch_parallel {specs : List Specification}
    (hstep : ∀ spec ∈ specs, ∀ n n', R n n' → e.Alike R S spec n n') {n n' : σ} (h : R n n') :
    (emitBatch e n specs).Parallel R S (emitBatch e n' specs) := by
  suffices hrun : ∀ b c : Batch σ π, b.Parallel R S c →
      (specs.foldl (Batch.step e) b).Parallel R S (specs.foldl (Batch.step e) c) from
    hrun { names := n } { names := n' } ⟨h, .nil, rfl, rfl⟩
  induction specs with
  | nil => exact fun _ _ hbc => hbc
  | cons spec specs ih =>
    intro b c hbc
    apply ih fun other hother => hstep other (List.mem_cons_of_mem spec hother)
    exact hbc.step (hstep spec List.mem_cons_self _ _ hbc.names)

end

/-! ## Specifications that claim different names -/

/-- Emission of a specification depends on the names that it claims: `view` is what the names in use
hold of a name. Where they hold the same of all claimed names, the same part comes out, or the same
error; and what they hold of other names stays. -/
structure Emitter.Local {ν : Type} (e : Emitter σ π) (view : σ → String → ν)
    (claims : Specification → List String) : Prop where
  alike : ∀ spec n n', (∀ name ∈ claims spec, view n name = view n' name) →
    e.Alike (fun m m' => ∀ name ∈ claims spec, view m name = view m' name) Eq spec n n'
  frame : ∀ {spec n part n'}, (e.emit spec n).2 = .ok (part, n') →
    ∀ name ∉ claims spec, view n' name = view n name

/-- The parts and the failures of two batches together. -/
structure Batch.Joins (ab a b : Batch σ π) : Prop where
  emitted : ab.emitted = a.emitted ++ b.emitted
  failed : ab.failed = a.failed ++ b.failed

/-- In either order, what a batch of two specifications gives is what each gives alone. -/
def FareAlone {α : Type} (f : List Specification → List α) (a b : Specification) : Prop :=
  f [a, b] = f [a] ++ f [b] ∧ f [b, a] = f [b] ++ f [a]

namespace Emitter.Local

variable {ν : Type} {e : Emitter σ π} {view : σ → String → ν}
  {claims : Specification → List String} {a b : Specification}

/-- What is held of a name that is not claimed stays, whether emission succeeds or fails. -/
theorem frame_emitBatch (h : e.Local view claims) (n : σ) {name : String}
    (hname : name ∉ claims a) : view (emitBatch e n [a]).names name = view n name := by
  rcases Batch.step_cases e { names := n } a with
    ⟨part, n', ws, hemit, hstep⟩ | ⟨error, ws, -, hstep⟩
  · rw [emitBatch, List.foldl_cons, List.foldl_nil, hstep]
    exact h.frame hemit name hname
  · rw [emitBatch, List.foldl_cons, List.foldl_nil, hstep]

/-- The second of two specifications meets the names that it claims as they were before the first.
-/
theorem second_parallel (h : e.Local view claims) (hab : List.Disjoint (claims a) (claims b))
    (n : σ) :
    (emitBatch e (emitBatch e n [a]).names [b]).Parallel
      (fun m m' => ∀ name ∈ claims b, view m name = view m' name) Eq (emitBatch e n [b]) := by
  apply emitBatch_parallel
  · intro spec hspec m m'
    rw [List.mem_singleton.mp hspec]
    exact h.alike b m m'
  · intro name hname
    exact h.frame_emitBatch n fun hclaimed => hab hclaimed hname

/-- **Each fares as it does alone.** -/
theorem joins (h : e.Local view claims) (hab : List.Disjoint (claims a) (claims b)) (n : σ) :
    (emitBatch e n [a, b]).Joins (emitBatch e n [a]) (emitBatch e n [b]) := by
  have hsecond := h.second_parallel hab n
  have hemitted : (emitBatch e (emitBatch e n [a]).names [b]).emitted =
      (emitBatch e n [b]).emitted := by
    apply List.forall₂_eq_eq_eq ▸ hsecond.emitted.imp _
    rintro x y ⟨hspec, hpart⟩
    exact Prod.ext hspec hpart
  rw [show [a, b] = [a] ++ [b] from rfl, emitBatch_append]
  refine ⟨?_, ?_⟩
  · rw [Batch.append, hemitted]
  · rw [Batch.append, hsecond.failed]

theorem fareAlone_emitted (h : e.Local view claims) (hab : List.Disjoint (claims a) (claims b))
    (n : σ) {α : Type} (f : Specification × π → α) :
    FareAlone (fun specs => (emitBatch e n specs).emitted.map f) a b := by
  simp only [FareAlone, (h.joins hab n).emitted, (h.joins (List.disjoint_symm hab) n).emitted,
    List.map_append, and_self]

theorem fareAlone_failed (h : e.Local view claims) (hab : List.Disjoint (claims a) (claims b))
    (n : σ) {α : Type} (f : Specification × EmitError → α) :
    FareAlone (fun specs => (emitBatch e n specs).failed.map f) a b := by
  simp only [FareAlone, (h.joins hab n).failed, (h.joins (List.disjoint_symm hab) n).failed,
    List.map_append, and_self]

/-- The names in use after both: what the second claims is as after the second alone, and the rest
is as after the first alone. -/
theorem names_pair (h : e.Local view claims) (hab : List.Disjoint (claims a) (claims b)) (n : σ) :
    (∀ name ∈ claims b,
      view (emitBatch e n [a, b]).names name = view (emitBatch e n [b]).names name) ∧
    ∀ name ∉ claims b,
      view (emitBatch e n [a, b]).names name = view (emitBatch e n [a]).names name := by
  rw [show [a, b] = [a] ++ [b] from rfl, emitBatch_append]
  exact ⟨(h.second_parallel hab n).names, fun name hname => h.frame_emitBatch _ hname⟩

/-- **The order does not matter** to what is held of any name. -/
theorem names_swap (h : e.Local view claims) (hab : List.Disjoint (claims a) (claims b)) (n : σ)
    (name : String) :
    view (emitBatch e n [a, b]).names name = view (emitBatch e n [b, a]).names name := by
  obtain ⟨hb, hnotb⟩ := h.names_pair hab n
  obtain ⟨ha, hnota⟩ := h.names_pair (List.disjoint_symm hab) n
  by_cases hnameb : name ∈ claims b
  · rw [hb name hnameb, hnota name fun hnamea => hab hnamea hnameb]
  · by_cases hnamea : name ∈ claims a
    · rw [hnotb name hnameb, ha name hnamea]
    · rw [hnotb name hnameb, hnota name hnamea, h.frame_emitBatch n hnamea,
        h.frame_emitBatch n hnameb]

end Emitter.Local

end ClientGen
