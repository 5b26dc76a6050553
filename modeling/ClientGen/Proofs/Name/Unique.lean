import ClientGen.Proofs.Name.Identifier
import Mathlib.Data.List.Nodup
import Mathlib.Data.List.Perm.Subperm
import Mathlib.Data.Nat.Find

/-!
# Names made unique

* **One name** (`uniqueName_spec`): a name that is to be unique is numbered with the least number
  that makes it free. The search has as many tries as there are taken names, and that is enough
  (`exists_free`).
* **Many names** (`uniqueNames`): one after the other, each is taken from then on. They are distinct
  (`nodup_uniqueNames`), each has the least number that those before it leave free
  (`leastFree_of_getElem?`), and where no other base runs into the numbers of a base, these are
  given out one by one (`numbered_mem_uniqueNames_iff`).
-/

namespace ClientGen.Name

/-- The base with a number. The first is the base itself, and numbers are written from 2 on. -/
def numbered (base : String) (n : Nat) : String := if n ≤ 1 then base else base ++ toString n

theorem numbered_one (base : String) : numbered base 1 = base := rfl

theorem numbered_of_two_le (base : String) {n : Nat} (h : 2 ≤ n) :
    numbered base n = base ++ toString n := if_neg (by omega)

theorem toList_numbered (base : String) {n : Nat} (h : 2 ≤ n) :
    (numbered base n).toList = base.toList ++ Nat.toDigits 10 n := by
  simp [numbered_of_two_le base h, Nat.toList_repr]

/-- Different numbers make different names. -/
theorem numbered_inj {base : String} {m n : Nat} (hm : 1 ≤ m) (hn : 1 ≤ n)
    (h : numbered base m = numbered base n) : m = n := by
  have hlist := congrArg String.toList h
  rcases Nat.lt_or_ge 1 m with hm' | hm' <;> rcases Nat.lt_or_ge 1 n with hn' | hn'
  · rw [toList_numbered base hm', toList_numbered base hn', List.append_cancel_left_eq] at hlist
    rw [← Nat.ofDigitChars_ten_toDigits (n := m), hlist, Nat.ofDigitChars_ten_toDigits]
  · obtain rfl : n = 1 := by omega
    rw [toList_numbered base hm', numbered_one] at hlist
    simp at hlist
  · obtain rfl : m = 1 := by omega
    rw [toList_numbered base hn', numbered_one] at hlist
    simp at hlist
  · omega

/-- A number behind an identifier leaves it one. -/
theorem isIdentifier_numbered {base : String} (h : isIdentifier base.toList = true) {n : Nat}
    (hn : 1 ≤ n) : isIdentifier (numbered base n).toList = true := by
  rcases Nat.lt_or_eq_of_le hn with htwo | rfl
  · rw [toList_numbered base htwo]
    refine isIdentifier_append h fun d hd => ?_
    have hdigit := Nat.isDigit_of_mem_toDigits (by decide) (Nat.le_refl 10) hd
    simp [isIdentifierChar, Char.isAlphanum, hdigit]
  · exact h

/-! ## One name -/

/-- The search stops at the first free number, if it gets that far. -/
theorem suffixed_eq {base : String} {taken : List String} {m fuel : Nat} :
    ∀ {n : Nat}, 2 ≤ n → n ≤ m → m ≤ n + fuel → numbered base m ∉ taken →
      (∀ i, n ≤ i → i < m → numbered base i ∈ taken) →
      suffixed base taken fuel n = numbered base m := by
  induction fuel with
  | zero =>
    intro n htwo hle hge _ _
    obtain rfl : m = n := by omega
    rw [suffixed, numbered_of_two_le base htwo]
  | succ fuel ih =>
    intro n htwo hle hge hfree hbefore
    simp only [suffixed, ← numbered_of_two_le base htwo]
    rcases Nat.lt_or_eq_of_le hle with hlt | rfl
    · rw [if_pos (hbefore n (Nat.le_refl n) hlt)]
      exact ih (by omega) hlt (by omega) hfree fun i hi => hbefore i (by omega)
    · rw [if_neg hfree]

/-- Of the names with numbers up to one more than there are taken names, one is free. -/
theorem exists_free (base : String) (taken : List String) :
    ∃ m, 1 ≤ m ∧ m ≤ taken.length + 1 ∧ numbered base m ∉ taken := by
  by_contra hnone
  push Not at hnone
  have hnodup : ((List.range' 1 (taken.length + 1)).map (numbered base)).Nodup := by
    refine List.Nodup.map_on ?_ List.nodup_range'
    intro m hm n hn h
    exact numbered_inj (List.mem_range'_1.mp hm).1 (List.mem_range'_1.mp hn).1 h
  have hsub : (List.range' 1 (taken.length + 1)).map (numbered base) ⊆ taken := by
    intro name hname
    obtain ⟨m, hm, rfl⟩ := List.mem_map.mp hname
    obtain ⟨hlow, hhigh⟩ := List.mem_range'_1.mp hm
    exact hnone m hlow (by omega)
  have hlength := (hnodup.subperm hsub).length_le
  rw [List.length_map, List.length_range'] at hlength
  omega

/-- **A unique name** has the least number that makes it free. -/
theorem uniqueName_spec (base : String) (taken : List String) :
    ∃ m, 1 ≤ m ∧ uniqueName base taken = numbered base m ∧ numbered base m ∉ taken ∧
      ∀ i, 1 ≤ i → i < m → numbered base i ∈ taken := by
  have hex : ∃ m, 1 ≤ m ∧ numbered base m ∉ taken := by
    obtain ⟨m, hm, -, hfree⟩ := exists_free base taken
    exact ⟨m, hm, hfree⟩
  obtain ⟨hm, hfree⟩ := Nat.find_spec hex
  have hbefore : ∀ i, 1 ≤ i → i < Nat.find hex → numbered base i ∈ taken := by
    intro i hi hlt
    by_contra hnot
    exact Nat.find_min hex hlt ⟨hi, hnot⟩
  refine ⟨Nat.find hex, hm, ?_, hfree, hbefore⟩
  rw [uniqueName]
  split
  · next hbase =>
    -- the base is taken, so that the number is written, and it is among those that are tried
    have htwo : 2 ≤ Nat.find hex := by
      rcases Nat.lt_or_eq_of_le hm with hlt | heq
      · exact hlt
      · rw [← heq, numbered_one] at hfree
        exact absurd hbase hfree
    obtain ⟨k, hk, hbound, hkfree⟩ := exists_free base taken
    have hle : Nat.find hex ≤ k := Nat.find_min' hex ⟨hk, hkfree⟩
    exact suffixed_eq (Nat.le_refl 2) htwo (by omega) hfree fun i hi => hbefore i (by omega)
  · next hbase =>
    have hone : Nat.find hex = 1 :=
      Nat.le_antisymm (Nat.find_min' hex ⟨Nat.le_refl 1, hbase⟩) hm
    rw [hone, numbered_one]

/-- **A unique name is free.** -/
theorem uniqueName_notMem (base : String) (taken : List String) :
    uniqueName base taken ∉ taken := by
  obtain ⟨m, -, heq, hfree, -⟩ := uniqueName_spec base taken
  rwa [heq]

/-- The base with the least number that makes it none of the earlier names. -/
def LeastFree (base : String) (earlier : List String) (name : String) : Prop :=
  ∃ m, 1 ≤ m ∧ name = numbered base m ∧ name ∉ earlier ∧
    ∀ i, 1 ≤ i → i < m → numbered base i ∈ earlier

theorem leastFree_uniqueName (base : String) (taken : List String) :
    LeastFree base taken (uniqueName base taken) := by
  obtain ⟨m, hm, heq, hfree, hbefore⟩ := uniqueName_spec base taken
  exact ⟨m, hm, heq, heq ▸ hfree, hbefore⟩

/-- A base that is free is kept. -/
theorem LeastFree.eq_base {base name : String} {earlier : List String}
    (h : LeastFree base earlier name) (hfree : base ∉ earlier) : name = base := by
  obtain ⟨m, hm, rfl, -, hbefore⟩ := h
  rcases Nat.lt_or_eq_of_le hm with htwo | rfl
  · exact absurd (hbefore 1 (Nat.le_refl 1) htwo) hfree
  · exact numbered_one base

/-! ## Many names -/

/-- Unique names for bases in their order; each is taken from then on. -/
def uniqueNames : (taken bases : List String) → List String
  | _, [] => []
  | taken, base :: bases =>
    uniqueName base taken :: uniqueNames (taken ++ [uniqueName base taken]) bases

/-- **Unique names are free and distinct**, by induction on the bases: what is given out is taken
from then on. -/
theorem nodup_uniqueNames {bases : List String} :
    ∀ {taken : List String}, (uniqueNames taken bases).Nodup ∧
      ∀ name ∈ uniqueNames taken bases, name ∉ taken := by
  induction bases with
  | nil => simp [uniqueNames]
  | cons base bases ih =>
    intro taken
    obtain ⟨hnodup, hfree⟩ := @ih (taken ++ [uniqueName base taken])
    simp only [List.mem_append, List.mem_singleton, not_or] at hfree
    refine ⟨List.nodup_cons.mpr ⟨fun hmem => (hfree _ hmem).2 rfl, hnodup⟩, fun name hname => ?_⟩
    rcases List.mem_cons.mp hname with rfl | hname
    · exact uniqueName_notMem base taken
    · exact (hfree name hname).1

theorem length_uniqueNames {bases : List String} :
    ∀ {taken : List String}, (uniqueNames taken bases).length = bases.length := by
  induction bases with
  | nil => exact rfl
  | cons base bases ih => simp [uniqueNames, ih]

/-- **Each name has the least number that is free** of what was taken and of the names before it. -/
theorem leastFree_of_getElem? {bases : List String} {base name : String} :
    ∀ {taken : List String} {i : Nat}, bases[i]? = some base →
      (uniqueNames taken bases)[i]? = some name →
      LeastFree base (taken ++ (uniqueNames taken bases).take i) name := by
  induction bases with
  | nil =>
    intro taken i hbase
    simp at hbase
  | cons first bases ih =>
    intro taken i hbase hname
    cases i with
    | zero =>
      obtain rfl : first = base := by simpa using hbase
      obtain rfl : uniqueName first taken = name := by simpa [uniqueNames] using hname
      simpa using leastFree_uniqueName first taken
    | succ i =>
      rw [uniqueNames, List.getElem?_cons_succ] at hname
      simpa [uniqueNames] using ih (by simpa using hbase) hname

/-- Every unique name is a base with a number. -/
theorem exists_of_mem_uniqueNames {bases : List String} {name : String} :
    ∀ {taken : List String}, name ∈ uniqueNames taken bases →
      ∃ base ∈ bases, ∃ n, 1 ≤ n ∧ name = numbered base n := by
  induction bases with
  | nil => intro taken h; cases h
  | cons base bases ih =>
    intro taken h
    rcases List.mem_cons.mp h with rfl | h
    · obtain ⟨n, hn, heq, -⟩ := uniqueName_spec base taken
      exact ⟨base, List.mem_cons_self, n, hn, heq⟩
    · obtain ⟨other, hother, hn⟩ := ih h
      exact ⟨other, List.mem_cons_of_mem base hother, hn⟩

section

variable {α : Type} {base : α → String} {l : List α}

/-- What holds of the bases with all numbers holds of the unique names. -/
theorem forall_mem_uniqueNames {taken : List String} {P : String → Prop}
    (h : ∀ a n, 1 ≤ n → P (numbered (base a) n)) :
    ∀ name ∈ uniqueNames taken (l.map base), P name := by
  intro name hname
  obtain ⟨b, hb, n, hn, rfl⟩ := exists_of_mem_uniqueNames hname
  obtain ⟨a, -, rfl⟩ := List.mem_map.mp hb
  exact h a n hn

theorem leastFree_of_getElem?_map {i : Nat} {a : α} {name : String} (ha : l[i]? = some a)
    (hname : (uniqueNames [] (l.map base))[i]? = some name) :
    LeastFree (base a) ((uniqueNames [] (l.map base)).take i) name := by
  have hbase : (l.map base)[i]? = some (base a) := by rw [List.getElem?_map, ha, Option.map_some]
  simpa using leastFree_of_getElem? hbase hname

end

/-- No numbers make two bases the same name. -/
def Apart (base other : String) : Prop :=
  ∀ m n, 1 ≤ m → 1 ≤ n → numbered base m ≠ numbered other n

/-- **Numbers are given out one by one**: if no other base runs into the numbers of a base, there
are as many of them afterwards as there were before, and one more for each time that the base comes.
By induction on the bases. -/
theorem numbered_mem_uniqueNames_iff {base : String} {bases : List String}
    (hapart : ∀ other ∈ bases, other ≠ base → Apart base other) :
    ∀ {taken : List String} {k : Nat}, (∀ n, 1 ≤ n → (numbered base n ∈ taken ↔ n ≤ k)) →
      ∀ n, 1 ≤ n →
        (numbered base n ∈ taken ++ uniqueNames taken bases ↔ n ≤ k + bases.count base) := by
  induction bases with
  | nil =>
    intro taken k htaken n hn
    simpa [uniqueNames] using htaken n hn
  | cons other bases ih =>
    obtain ⟨hother, hbases⟩ := List.forall_mem_cons.mp hapart
    intro taken k htaken n hn
    obtain ⟨m, hm, heq, hfree, hbefore⟩ := uniqueName_spec other taken
    have hsplit : taken ++ uniqueNames taken (other :: bases) =
        (taken ++ [uniqueName other taken]) ++
          uniqueNames (taken ++ [uniqueName other taken]) bases := by
      rw [uniqueNames, List.append_assoc, List.singleton_append]
    rw [hsplit]
    by_cases hbase : other = base
    · -- the next number is given out
      subst hbase
      obtain rfl : m = k + 1 := by
        have hm' := mt (htaken m hm).mpr hfree
        rcases Nat.lt_or_ge (k + 1) m with hlt | hge
        · have := (htaken (k + 1) (by omega)).mp (hbefore (k + 1) (by omega) hlt)
          omega
        · omega
      have htaken' : ∀ i, 1 ≤ i →
          (numbered other i ∈ taken ++ [uniqueName other taken] ↔ i ≤ k + 1) := by
        intro i hi
        rw [List.mem_append, List.mem_singleton, htaken i hi, heq]
        constructor
        · rintro (hle | hname)
          · omega
          · exact Nat.le_of_eq (numbered_inj hi hm hname)
        · intro hle
          rcases Nat.lt_or_eq_of_le hle with hlt | rfl
          · exact .inl (by omega)
          · exact .inr rfl
      rw [ih hbases htaken' n hn, List.count_cons_self]
      omega
    · have htaken' : ∀ i, 1 ≤ i →
          (numbered base i ∈ taken ++ [uniqueName other taken] ↔ i ≤ k) := by
        intro i hi
        rw [List.mem_append, List.mem_singleton, htaken i hi, heq]
        exact or_iff_left (hother hbase i m hi hm)
      rw [ih hbases htaken' n hn, List.count_cons_of_ne hbase]

end ClientGen.Name
