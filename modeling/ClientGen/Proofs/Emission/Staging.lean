import ClientGen.Proofs.Emission.Registry
import Mathlib.Data.List.Forall2

/-!
# Registries that are staged

A stack of registries is worked on in steps: names are registered or claimed on the top, a copy is
staged, and the top is committed to the registry below it or discarded. `History` keeps the books in
another way: each level has the registrations that were made since it was staged, a commit appends
them to the level below, and a discarded level takes its own with it. The registrations that count
on a level are its own after those of all levels below it (`History.surviving`).

* **One registry** (`Records`): the shape of each name is that of its first registration, and the
  names are those of the registrations without repetitions. A registration keeps this
  (`Records.register`).
* **Stacks** (`agrees_run`): every registry of a stack records what has survived on its level.
* **Prefixes** (`grows_run`): every registry has the entries of those below it in front.

`registries_firstWins` puts them together for all sequences of steps.
-/

namespace ClientGen

/-! ## One registry -/

/-- The name and the shape of a registration. -/
abbrev Registered := String × String

namespace Registry

/-- The first registration of each name counts, in the order of these. -/
structure Records (r : Registry) (made : List Registered) : Prop where
  shape_eq : ∀ name, r.shape? name = (made.find? (·.1 = name)).map (·.2)
  names_eq : r.names = (made.map (·.1)).eraseDups
  nodup : r.names.Nodup

/-- What a registry answers, and that it changes for a new name only. -/
structure Answers (r : Registry) (name shape : String) : Prop where
  fresh : (r.register name shape).1 = .fresh ↔ name ∉ r.names
  duplicate : (r.register name shape).1 = .duplicate ↔ r.shape? name = some shape
  collision : (r.register name shape).1 = .collision ↔
    ∃ other, r.shape? name = some other ∧ other ≠ shape
  unchanged : (r.register name shape).1 ≠ .fresh → (r.register name shape).2 = r

theorem answers (r : Registry) (name shape : String) : r.Answers name shape := by
  have hnames := shape?_eq_none_iff r name
  rcases register_cases r name shape with ⟨hs, h⟩ | ⟨hs, h⟩ | ⟨other, hs, hne, h⟩
  · constructor <;> simp [h, hs, ← hnames]
  · constructor <;> simp [h, hs, ← hnames]
  · constructor <;> simp [h, hs, hne, ← hnames]

/-- A claim leaves what a registration leaves. -/
theorem claim_eq (r : Registry) (name shape : String) :
    r.claim name shape =
      match (r.register name shape).1 with
      | .fresh => .ok (true, (r.register name shape).2)
      | .duplicate => .ok (false, r)
      | .collision => .error (.nameCollision name) := by
  rw [claim]
  rcases register_cases r name shape with ⟨-, h⟩ | ⟨-, h⟩ | ⟨other, -, -, h⟩ <;> rw [h]

theorem records_empty : Records .empty [] :=
  ⟨fun _ => rfl, rfl, List.nodup_nil⟩

/-- The entries after a registration. -/
theorem entries_register (r : Registry) (name shape : String) :
    (r.register name shape).2.entries =
      if name ∈ r.names then r.entries else r.entries ++ [(name, shape)] := by
  have hnames := shape?_eq_none_iff r name
  rcases register_cases r name shape with ⟨hs, h⟩ | ⟨hs, h⟩ | ⟨other, hs, -, h⟩
  · rw [h, if_neg (hnames.mp hs)]
  · rw [h, if_pos (by simpa [hs] using hnames)]
  · rw [h, if_pos (by simpa [hs] using hnames)]

theorem names_register (r : Registry) (name shape : String) :
    (r.register name shape).2.names = if name ∈ r.names then r.names else r.names ++ [name] := by
  rw [names, entries_register]
  split <;> simp [names, Table.names]

/-- **A registration is recorded.** -/
theorem Records.register {r : Registry} {made : List Registered} (h : r.Records made)
    (name shape : String) : (r.register name shape).2.Records (made ++ [(name, shape)]) := by
  refine ⟨fun n => ?_, ?_, ?_⟩
  · rw [shape?_register, h.shape_eq, List.find?_append, Option.map_or]
    by_cases hn : n = name
    · simp [hn]
    · simp [hn, Ne.symm hn]
  · have hmem : name ∈ r.names ↔ name ∈ made.map (·.1) := by
      rw [h.names_eq, List.mem_eraseDups]
    rw [names_register, List.map_append, List.eraseDups_append, ← h.names_eq]
    by_cases hname : name ∈ r.names
    · have hnone : [name].removeAll (made.map (·.1)) = [] := by
        simpa [List.removeAll] using hmem.mp hname
      rw [if_pos hname, List.map_singleton, hnone]
      exact (List.append_nil _).symm
    · have hsome : [name].removeAll (made.map (·.1)) = [name] := by
        simpa [List.removeAll] using mt hmem.mpr hname
      rw [if_neg hname, List.map_singleton, hsome]
      rfl
  · rcases register_cases r name shape with ⟨hs, hr⟩ | ⟨-, hr⟩ | ⟨other, -, -, hr⟩ <;> rw [hr]
    · exact nodup_names_concat h.nodup hs shape
    · exact h.nodup
    · exact h.nodup

theorem prefix_register (r : Registry) (name shape : String) :
    r.entries <+: (r.register name shape).2.entries := by
  rw [entries_register]
  split
  · exact List.prefix_refl _
  · exact List.prefix_append _ _

end Registry

/-! ## Stacks -/

/-- A step of the work on a stack of registries. -/
inductive RegistryStep where
  | register (name shape : String)
  | claim (name shape : String)
  | stage
  | commit
  | discard
  deriving DecidableEq, Repr

namespace RegistryStack

/-- The registries from the top down. -/
def registries (s : RegistryStack) : List Registry := s.top :: s.below

/-- The stack after a step. With one registry only there is nothing to commit or to discard. -/
def step (s : RegistryStack) : RegistryStep → RegistryStack
  | .register name shape => s.setTop (s.top.register name shape).2
  | .claim name shape =>
    match s.top.claim name shape with
    | .ok (_, r) => s.setTop r
    | .error _ => s
  | .stage => s.stage
  | .commit => s.commit?.getD s
  | .discard => s.discard?.getD s

/-- The stack after steps from an empty registry. -/
def run (steps : List RegistryStep) : RegistryStack := steps.foldl step {}

/-- A claim does to a stack what a registration does. -/
theorem step_claim (s : RegistryStack) (name shape : String) :
    s.step (.claim name shape) = s.step (.register name shape) := by
  rw [step, step, Registry.claim_eq]
  rcases s.top.register_cases name shape with ⟨-, h⟩ | ⟨-, h⟩ | ⟨other, -, -, h⟩
  · rw [h]
  · rw [h]
  · rw [h]
    rfl

end RegistryStack

/-- The registrations of each level of a stack since it was staged. -/
structure History where
  top : List Registered := []
  /-- those of the levels below, from the top down -/
  below : List (List Registered) := []
  deriving DecidableEq, Repr

namespace History

/-- A commit appends the registrations of the top to the level below it; a discarded level takes its
registrations with it. -/
def step (h : History) : RegistryStep → History
  | .register name shape => { h with top := h.top ++ [(name, shape)] }
  | .claim name shape => { h with top := h.top ++ [(name, shape)] }
  | .stage => ⟨[], h.top :: h.below⟩
  | .commit =>
    match h.below with
    | [] => h
    | own :: below => ⟨own ++ h.top, below⟩
  | .discard =>
    match h.below with
    | [] => h
    | own :: below => ⟨own, below⟩

/-- The history of steps. -/
def run (steps : List RegistryStep) : History := steps.foldl step {}

/-- On each level, its own registrations after those of the levels below it. -/
def survivingOf : List (List Registered) → List (List Registered)
  | [] => []
  | own :: below => (below.reverse.flatten ++ own) :: survivingOf below

/-- The registrations that have survived, level by level from the top down. -/
def surviving (h : History) : List (List Registered) := survivingOf (h.top :: h.below)

end History

/-- Every registry records what has survived on its level. -/
def RegistryStack.Agrees (s : RegistryStack) (h : History) : Prop :=
  List.Forall₂ Registry.Records s.registries h.surviving

namespace RegistryStack

theorem agrees_register {s : RegistryStack} {h : History} (ha : s.Agrees h) (name shape : String) :
    (s.step (.register name shape)).Agrees (h.step (.register name shape)) := by
  obtain ⟨htop, hbelow⟩ := List.forall₂_cons.mp ha
  refine List.forall₂_cons.mpr ⟨?_, hbelow⟩
  have hrecords := htop.register name shape
  rw [List.append_assoc] at hrecords
  exact hrecords

/-- A stack and a history that agree have the same height. -/
theorem Agrees.below_cases {s : RegistryStack} {h : History} (ha : s.Agrees h) :
    (s.below = [] ∧ h.below = []) ∨ ∃ r below own outer, s.below = r :: below ∧
      h.below = own :: outer ∧ r.Records (outer.reverse.flatten ++ own) ∧
      List.Forall₂ Registry.Records below (History.survivingOf outer) := by
  obtain ⟨-, hbelow⟩ := List.forall₂_cons.mp ha
  rcases hs : s.below with _ | ⟨r, below⟩ <;> rcases hh : h.below with _ | ⟨own, outer⟩ <;>
    rw [hs, hh] at hbelow
  · exact .inl ⟨rfl, rfl⟩
  · cases hbelow
  · cases hbelow
  · obtain ⟨hr, hrest⟩ := List.forall₂_cons.mp hbelow
    exact .inr ⟨r, below, own, outer, rfl, rfl, hr, hrest⟩

/-- **Step.** One case for each kind of step. -/
theorem agrees_step {s : RegistryStack} {h : History} (ha : s.Agrees h) (op : RegistryStep) :
    (s.step op).Agrees (h.step op) := by
  obtain ⟨htop, -⟩ := List.forall₂_cons.mp ha
  cases op with
  | register name shape => exact agrees_register ha name shape
  | claim name shape =>
    rw [step_claim]
    exact agrees_register ha name shape
  | stage =>
    -- nothing has been registered on the new level
    refine List.forall₂_cons.mpr ⟨?_, ha⟩
    simpa [step, stage, History.step] using htop
  | commit =>
    rcases ha.below_cases with ⟨hs, hh⟩ | ⟨r, below, own, outer, hs, hh, -, hrest⟩
    · simpa [step, commit?, History.step, hs, hh] using ha
    · -- the registrations of the two levels follow each other as they did before
      simp only [step, commit?, History.step, hs, hh, Option.getD_some]
      refine List.forall₂_cons.mpr ⟨?_, hrest⟩
      simpa [hh] using htop
  | discard =>
    rcases ha.below_cases with ⟨hs, hh⟩ | ⟨r, below, own, outer, hs, hh, hr, hrest⟩
    · simpa [step, discard?, History.step, hs, hh] using ha
    · simp only [step, discard?, History.step, hs, hh, Option.getD_some]
      exact List.forall₂_cons.mpr ⟨hr, hrest⟩

/-- **Run.** So it is after all steps. -/
theorem agrees_run (steps : List RegistryStep) : (run steps).Agrees (History.run steps) := by
  have hrun : ∀ (s : RegistryStack) (h : History), s.Agrees h →
      (steps.foldl step s).Agrees (steps.foldl History.step h) := by
    induction steps with
    | nil => exact fun _ _ ha => ha
    | cons op steps ih => exact fun s h ha => ih _ _ (agrees_step ha op)
  exact hrun {} {} (.cons Registry.records_empty .nil)

/-! ## Prefixes -/

/-- Every registry has the entries of those below it in front. -/
def Grows (s : RegistryStack) : Prop :=
  s.registries.Pairwise fun upper lower => lower.entries <+: upper.entries

theorem grows_register {s : RegistryStack} (hg : s.Grows) (name shape : String) :
    (s.step (.register name shape)).Grows := by
  obtain ⟨htop, hbelow⟩ := List.pairwise_cons.mp hg
  refine List.pairwise_cons.mpr ⟨fun r hr => ?_, hbelow⟩
  exact (htop r hr).trans (s.top.prefix_register name shape)

theorem grows_step {s : RegistryStack} (hg : s.Grows) (op : RegistryStep) : (s.step op).Grows := by
  obtain ⟨htop, hbelow⟩ := List.pairwise_cons.mp hg
  cases op with
  | register name shape => exact grows_register hg name shape
  | claim name shape =>
    rw [step_claim]
    exact grows_register hg name shape
  | stage =>
    refine List.pairwise_cons.mpr ⟨fun r hr => ?_, hg⟩
    rcases List.mem_cons.mp hr with rfl | hr
    · exact List.prefix_refl _
    · exact htop r hr
  | commit =>
    rcases hs : s.below with _ | ⟨r, below⟩
    · simpa [step, commit?, hs] using hg
    · rw [hs] at htop hbelow
      simp only [step, commit?, hs, Option.getD_some]
      refine List.pairwise_cons.mpr ⟨fun r' hr' => ?_, (List.pairwise_cons.mp hbelow).2⟩
      exact htop r' (List.mem_cons_of_mem r hr')
  | discard =>
    rcases hs : s.below with _ | ⟨r, below⟩
    · simpa [step, discard?, hs] using hg
    · rw [hs] at hbelow
      simp only [step, discard?, hs, Option.getD_some]
      exact hbelow

theorem grows_run (steps : List RegistryStep) : (run steps).Grows :=
  List.foldlRecOn steps step (List.pairwise_singleton _ _) fun _ hg op _ => grows_step hg op

end RegistryStack

/-! ## All steps -/

/-- **The first registration wins, and registries only grow.** After any steps, every registry of
the stack has for each name the shape of its first registration that was not discarded, and lists
the names once each in the order of these registrations; it answers by what it holds, and is changed
by new names only; and a commit leaves the entries of the registry below in front. -/
theorem registries_firstWins (steps : List RegistryStep) :
    List.Forall₂ Registry.Records (RegistryStack.run steps).registries
      (History.run steps).surviving ∧
    (∀ r ∈ (RegistryStack.run steps).registries, ∀ name shape, r.Answers name shape) ∧
    ∀ r below, (RegistryStack.run steps).below = r :: below → ∃ committed,
      RegistryStack.run (steps ++ [.commit]) = ⟨committed, below⟩ ∧
      r.entries <+: committed.entries := by
  refine ⟨RegistryStack.agrees_run steps, fun r _ => r.answers, fun r below hbelow => ?_⟩
  refine ⟨(RegistryStack.run steps).top, ?_, ?_⟩
  · rw [RegistryStack.run, List.foldl_append]
    change (RegistryStack.run steps).step .commit = _
    rw [RegistryStack.step, RegistryStack.commit?, hbelow]
    rfl
  · obtain ⟨htop, -⟩ := List.pairwise_cons.mp (RegistryStack.grows_run steps)
    exact htop r (hbelow ▸ List.mem_cons_self)

/-- A name that was discarded is registered again, with another shape and in another place. -/
example :
    (RegistryStack.run [.register "Pet" "a", .stage, .register "Order" "b", .stage,
      .register "User" "c", .commit, .discard, .stage, .claim "User" "d", .claim "Order" "e",
      .claim "Pet" "f", .commit]).registries.map (·.entries) =
      [[("Pet", "a"), ("User", "d"), ("Order", "e")]] := by
  decide

end ClientGen
