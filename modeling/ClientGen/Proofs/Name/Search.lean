import ClientGen.Proofs.Name.Unique
import ClientGen.TypeScript.Name
import Mathlib.Data.Int.Interval

/-!
# The search for a free name

`uniqueName` has as many tries as there are taken names, and numbers without a bound. `Finds` is the
search as a loop: it has no bound of its own, it asks any predicate, and it counts in 32 bits.

* **The first free name** (`firstFree_uniqueName`): the base, or the base with the least number from
  2 on that makes it free. Where finitely many names are taken there is one, and `uniqueName` finds
  it in a list of them.
* **The counter** (`finds_skip`): as long as it counts on, the loop goes through the numbers one
  after the other. `InReach` says that it comes to a free name before it overflows.
* **The loop finds the first free name exactly if one is in reach** (`finds_uniqueName_iff`). Fewer
  names than can be numbered always leave one in reach (`inReach_of_length_lt`).

The members of an enum are searched one after the other, each among those before it
(`enumMembers_append`).
-/

namespace ClientGen

namespace Name

/-! ## The first free name -/

/-- The base if it is free, and otherwise the base with the least number from 2 on that makes it
free. -/
structure FirstFree (base : String) (taken : String → Prop) (name : String) : Prop where
  free : ¬ taken name
  kept : ¬ taken base → name = base
  numbered : taken base → ∃ n, 2 ≤ n ∧ name = base ++ toString n ∧
    ∀ m, 2 ≤ m → m < n → taken (base ++ toString m)

theorem LeastFree.firstFree {base name : String} {earlier : List String}
    (h : LeastFree base earlier name) : FirstFree base (· ∈ earlier) name := by
  obtain ⟨n, hn, hname, hfree, hbefore⟩ := id h
  refine ⟨hfree, h.eq_base, fun hbase => ?_⟩
  have htwo : 2 ≤ n := by
    rcases Nat.lt_or_eq_of_le hn with hlt | rfl
    · exact hlt
    · rw [hname, numbered_one] at hfree
      exact absurd hbase hfree
  refine ⟨n, htwo, by rw [hname, numbered_of_two_le base htwo], fun m hm hlt => ?_⟩
  rw [← numbered_of_two_le base hm]
  exact hbefore m (by omega) hlt

theorem firstFree_uniqueName {taken : String → Prop} {names : List String}
    (h : ∀ s, s ∈ names ↔ taken s) (base : String) :
    FirstFree base taken (uniqueName base names) := by
  simpa only [h] using (leastFree_uniqueName base names).firstFree

/-- Finitely many names can be listed. -/
theorem exists_names {taken : String → Prop} (h : {s | taken s}.Finite) :
    ∃ names : List String, ∀ s, s ∈ names ↔ taken s :=
  ⟨h.toFinset.toList, fun s => by simp⟩

/-! ## The counter

The number is put behind the base before it is counted on, and the name is asked for after that. A
counter that stops therefore never asks for the largest number. -/

/-- What a counter of 32 bits does past its largest number. -/
inductive Overflow where
  /-- it stops, and the search with it -/
  | stops
  /-- it goes on with the least number -/
  | wraps
  deriving DecidableEq, Repr

namespace Overflow

/-- The number after a number. -/
def next? : Overflow → Int32 → Option Int32
  | .stops, n => if n = Int32.maxValue then none else some (n + 1)
  | .wraps, n => some (n + 1)

/-- The largest number that names are asked for with, before the counter overflows. -/
def last : Overflow → Nat
  | .stops => 2147483646
  | .wraps => 2147483647

theorem last_lt (overflow : Overflow) : overflow.last < 2 ^ 31 := by
  cases overflow <;> decide

/-- Up to there the counter counts on. -/
theorem next?_ofNat {overflow : Overflow} {n : Nat} (h : n ≤ overflow.last) :
    overflow.next? (Int32.ofNat n) = some (Int32.ofNat (n + 1)) := by
  have hadd : Int32.ofNat n + 1 = Int32.ofNat (n + 1) := (Int32.ofNat_add n 1).symm
  cases overflow with
  | wraps => rw [next?, hadd]
  | stops =>
    have hne : Int32.ofNat n ≠ Int32.maxValue := by
      intro heq
      have hint := congrArg Int32.toInt heq
      rw [Int32.toInt_ofNat_of_lt (Nat.lt_of_le_of_lt h (last_lt .stops)),
        Int32.toInt_maxValue] at hint
      simp only [last] at h
      omega
    rw [next?, if_neg hne, hadd]

end Overflow

/-- The search asks for a name, and then for the base with one number after the other, from `n` on.
It ends with the first name that is free. -/
inductive Finds (overflow : Overflow) (taken : String → Prop) (base : String) :
    (name : String) → (n : Int32) → (found : String) → Prop
  | free {name : String} {n : Int32} : ¬ taken name → Finds overflow taken base name n name
  | next {name found : String} {n n' : Int32} : taken name → overflow.next? n = some n' →
      Finds overflow taken base (base ++ toString n.toInt) n' found →
      Finds overflow taken base name n found

section

variable {overflow : Overflow} {taken : String → Prop} {base found : String}

/-- No search finds two names. -/
theorem Finds.unique {name other : String} {n : Int32} (h : Finds overflow taken base name n found)
    (h' : Finds overflow taken base name n other) : found = other := by
  induction h with
  | free hfree =>
    cases h' with
    | free => rfl
    | next htaken => exact absurd htaken hfree
  | next htaken hnext _ ih =>
    cases h' with
    | free hfree => exact absurd htaken hfree
    | next _ hnext' hrest =>
      rw [hnext] at hnext'
      cases hnext'
      exact ih hrest

theorem Finds.not_taken {name : String} {n : Int32} (h : Finds overflow taken base name n found) :
    ¬ taken found := by
  induction h with
  | free hfree => exact hfree
  | next _ _ _ ih => exact ih

/-- What is found is the name that is asked for first, or the base with a number of 32 bits. -/
theorem Finds.cases_found {name : String} {n : Int32}
    (h : Finds overflow taken base name n found) :
    found = name ∨ ∃ k : Int32, found = base ++ toString k.toInt := by
  induction h with
  | free _ => exact .inl rfl
  | next _ _ _ ih =>
    rcases ih with rfl | hnumber
    · exact .inr ⟨_, rfl⟩
    · exact .inr hnumber

/-- **One step**: where a name is taken, the search goes on with the next number. -/
theorem finds_step {n : Nat} (hn : 1 ≤ n) (hlast : n + 1 ≤ overflow.last)
    (htaken : taken (Name.numbered base n)) :
    Finds overflow taken base (Name.numbered base n) (Int32.ofNat (n + 1)) found ↔
      Finds overflow taken base (Name.numbered base (n + 1)) (Int32.ofNat (n + 2)) found := by
  have hname : base ++ toString (Int32.ofNat (n + 1)).toInt = Name.numbered base (n + 1) := by
    rw [Int32.toInt_ofNat_of_lt (Nat.lt_of_le_of_lt hlast overflow.last_lt),
      numbered_of_two_le base (by omega)]
    rfl
  constructor
  · intro h
    cases h with
    | free hfree => exact absurd htaken hfree
    | next _ hnext hrest =>
      rw [Overflow.next?_ofNat hlast] at hnext
      cases hnext
      rwa [hname] at hrest
  · intro h
    rw [← hname] at h
    exact .next htaken (Overflow.next?_ofNat hlast) h

/-- **All steps**: taken names are gone through one after the other, while the counter lasts. -/
theorem finds_skip (k : Nat) : ∀ {n : Nat}, 1 ≤ n → n + k ≤ overflow.last →
    (∀ i, n ≤ i → i < n + k → taken (Name.numbered base i)) →
    (Finds overflow taken base (Name.numbered base n) (Int32.ofNat (n + 1)) found ↔
      Finds overflow taken base (Name.numbered base (n + k)) (Int32.ofNat (n + k + 1)) found) := by
  induction k with
  | zero => exact fun _ _ _ => Iff.rfl
  | succ k ih =>
    intro n hn hlast htaken
    rw [finds_step hn (by omega) (htaken n (Nat.le_refl n) (by omega)), ← Nat.add_assoc,
      Nat.add_right_comm n k 1]
    exact ih (by omega) (by omega) fun i hi hlt => htaken i (by omega) (by omega)

/-- The search from its beginning on, where all names before a number are taken. -/
theorem finds_from {m : Nat} (hm : 1 ≤ m) (hlast : m ≤ overflow.last)
    (htaken : ∀ i, 1 ≤ i → i < m → taken (Name.numbered base i)) :
    Finds overflow taken base base 2 found ↔
      Finds overflow taken base (Name.numbered base m) (Int32.ofNat (m + 1)) found := by
  obtain ⟨k, rfl⟩ := Nat.exists_eq_add_of_le hm
  -- the base is its own first name, and 2 is the number that comes next
  exact finds_skip k (Nat.le_refl 1) hlast htaken

end

/-! ## Names in reach -/

/-- One of the names that are asked for before the counter overflows is free. -/
def InReach (overflow : Overflow) (taken : String → Prop) (base : String) : Prop :=
  ∃ n, 1 ≤ n ∧ n ≤ overflow.last ∧ ¬ taken (numbered base n)

/-- Fewer names than can be numbered leave one in reach. -/
theorem inReach_of_length_lt {overflow : Overflow} {taken : String → Prop} {names : List String}
    (h : ∀ s, s ∈ names ↔ taken s) (base : String) (hlength : names.length < overflow.last) :
    InReach overflow taken base := by
  obtain ⟨m, hm, hle, hfree⟩ := exists_free base names
  exact ⟨m, hm, by omega, mt (h _).mpr hfree⟩

/-- What stands behind the base in a name with a number are the digits of the number. -/
theorem eq_toDigits_of_append_eq_numbered {base t : String} {n : Nat}
    (h : base ++ t = numbered base n) (ht : t.toList ≠ []) : t.toList = Nat.toDigits 10 n := by
  have hlist := congrArg String.toList h
  rw [String.toList_append] at hlist
  rcases Nat.lt_or_ge 1 n with hn | hn
  · rwa [toList_numbered base hn, List.append_cancel_left_eq] at hlist
  · rw [numbered, if_pos hn] at hlist
    exact absurd (List.append_right_eq_self.mp hlist) ht

/-- An integer behind the base makes a name with a number only if it is that number. -/
theorem eq_of_append_eq_numbered {base : String} {z : Int} {n : Nat}
    (h : base ++ toString z = numbered base n) : z = n := by
  cases z with
  | ofNat k =>
    have hdigits : (toString (Int.ofNat k)).toList = Nat.toDigits 10 k := Nat.toList_repr
    have heq := eq_toDigits_of_append_eq_numbered h (hdigits ▸ Nat.toDigits_ne_nil)
    rw [hdigits] at heq
    rw [← Nat.ofDigitChars_ten_toDigits (n := n), ← heq, Nat.ofDigitChars_ten_toDigits]
    rfl
  | negSucc k =>
    have hdigits : (toString (Int.negSucc k)).toList = '-' :: Nat.toDigits 10 (k + 1) := by
      rw [← Nat.toList_repr]
      exact String.toList_append
    have heq := eq_toDigits_of_append_eq_numbered h (hdigits ▸ List.cons_ne_nil _ _)
    have hminus : '-' ∈ Nat.toDigits 10 n := by
      rw [← heq, hdigits]
      exact List.mem_cons_self
    exact absurd (Nat.isDigit_of_mem_toDigits (by decide) (Nat.le_refl 10) hminus) (by decide)

section

variable {taken : String → Prop} {base : String}

theorem taken_of_not_inReach {overflow : Overflow} (h : ¬ InReach overflow taken base) :
    ∀ i, 1 ≤ i → i ≤ overflow.last → taken (numbered base i) := by
  intro i hi hle
  by_contra hfree
  exact h ⟨i, hi, hle, hfree⟩

/-- Where nothing is in reach, a counter that stops finds nothing. -/
theorem not_finds_stops (h : ¬ InReach .stops taken base) (found : String) :
    ¬ Finds .stops taken base base 2 found := by
  have htaken := taken_of_not_inReach h
  rw [finds_from (m := Overflow.stops.last) (by decide) (Nat.le_refl _) fun i hi hlt =>
    htaken i hi (Nat.le_of_lt hlt)]
  intro hfinds
  cases hfinds with
  | free hfree => exact hfree (htaken _ (by decide) (Nat.le_refl _))
  | next _ hnext => cases hnext

/-- Where nothing is in reach, no name with a later number is found. A counter that wraps may find
another name, or run for ever, but what it finds has a number of 32 bits. -/
theorem not_finds_numbered {overflow : Overflow} (h : ¬ InReach overflow taken base) {m : Nat}
    (hm : overflow.last < m) : ¬ Finds overflow taken base base 2 (numbered base m) := by
  intro hfinds
  cases overflow with
  | stops => exact not_finds_stops h _ hfinds
  | wraps =>
    rcases hfinds.cases_found with hbase | ⟨k, hk⟩
    · have hone := numbered_inj (by omega) (Nat.le_refl 1) (hbase.trans (numbered_one base).symm)
      simp only [Overflow.last] at hm
      omega
    · have hlt := k.toInt_lt
      have heq := eq_of_append_eq_numbered hk.symm
      simp only [Overflow.last] at hm
      omega

/-- **The search finds the first free name exactly if one is in reach.** -/
theorem finds_uniqueName_iff {names : List String} (h : ∀ s, s ∈ names ↔ taken s) (base : String)
    (overflow : Overflow) :
    (∀ found, Finds overflow taken base base 2 found ↔ found = uniqueName base names) ↔
      InReach overflow taken base := by
  obtain ⟨m, hm, hname, hfree, hbefore⟩ := uniqueName_spec base names
  simp only [h] at hfree hbefore
  rw [hname]
  constructor
  · intro hfinds
    -- the first free name is then past all numbers that are counted to
    by_contra hreach
    have hlast : overflow.last < m := by
      by_contra hle
      exact hreach ⟨m, hm, Nat.not_lt.mp hle, hfree⟩
    exact not_finds_numbered hreach hlast ((hfinds _).mpr rfl)
  · rintro ⟨n, hn, hlast, hnfree⟩ found
    have hle : m ≤ n := by
      by_contra hlt
      exact hnfree (hbefore n hn (Nat.not_le.mp hlt))
    have hfound := (finds_from hm (hle.trans hlast) hbefore).mpr (.free hfree)
    exact ⟨fun hfinds => hfinds.unique hfound, fun heq => heq ▸ hfound⟩

end

end Name

namespace TypeScript

/-- The members of further values are named after those of the first ones. -/
theorem enumMembersAfter_append (before after : List String) : ∀ taken : List String,
    enumMembersAfter taken (before ++ after) = enumMembersAfter taken before ++
      enumMembersAfter (taken ++ (enumMembersAfter taken before).map (·.name)) after := by
  induction before with
  | nil =>
    intro taken
    simp [enumMembersAfter]
  | cons value before ih =>
    intro taken
    simp [enumMembersAfter, ih]

theorem enumMembers_append (before after : List String) :
    enumMembers (before ++ after) = enumMembers before ++
      enumMembersAfter ((enumMembers before).map (·.name)) after := by
  simp [enumMembers, enumMembersAfter_append]

theorem length_enumMembersAfter (values : List String) : ∀ taken : List String,
    (enumMembersAfter taken values).length = values.length := by
  induction values with
  | nil => exact fun _ => rfl
  | cons value values ih => exact fun taken => congrArg (· + 1) (ih _)

end TypeScript

open Name (Overflow Finds FirstFree InReach numbered uniqueName sanitize)
open TypeScript (enumMembers stringLiteral)

/-- **The search for a free name.** Where finitely many names are taken, `uniqueName` finds the
first free one in any list of them. A search that counts in 32 bits finds this name, and no other
one, exactly if a free name is in reach of the counter; it is if fewer names are taken than can be
numbered. The name of each member of an enum is found in the same way, among the members before
it. -/
theorem finds_firstFree_iff {taken : String → Prop} (hfinite : {s | taken s}.Finite)
    (base : String) (before : List String) (value : String) (after : List String) :
    (∃ names : List String, ∀ s, s ∈ names ↔ taken s) ∧
    (∀ names : List String, (∀ s, s ∈ names ↔ taken s) →
      FirstFree base taken (uniqueName base names) ∧
      ∀ overflow : Overflow,
        ((∀ found, Finds overflow taken base base 2 found ↔ found = uniqueName base names) ↔
          InReach overflow taken base) ∧
        (names.length < overflow.last → InReach overflow taken base)) ∧
    ∃ name rest,
      enumMembers (before ++ value :: after) =
        enumMembers before ++ ⟨name, stringLiteral value⟩ :: rest ∧
      FirstFree (sanitize value) (· ∈ (enumMembers before).map (·.name)) name ∧
      ∀ overflow : Overflow,
        ((∀ found, Finds overflow (· ∈ (enumMembers before).map (·.name)) (sanitize value)
            (sanitize value) 2 found ↔ found = name) ↔
          InReach overflow (· ∈ (enumMembers before).map (·.name)) (sanitize value)) ∧
        (before.length < overflow.last →
          InReach overflow (· ∈ (enumMembers before).map (·.name)) (sanitize value)) := by
  refine ⟨Name.exists_names hfinite, fun names h => ⟨Name.firstFree_uniqueName h base,
    fun overflow => ⟨Name.finds_uniqueName_iff h base overflow, Name.inReach_of_length_lt h base⟩⟩,
    _, _, TypeScript.enumMembers_append before (value :: after), ?_, fun overflow => ⟨?_, ?_⟩⟩
  · exact Name.firstFree_uniqueName (fun _ => Iff.rfl) (sanitize value)
  · exact Name.finds_uniqueName_iff (fun _ => Iff.rfl) (sanitize value) overflow
  · intro hlength
    refine Name.inReach_of_length_lt (fun _ => Iff.rfl) (sanitize value) ?_
    rwa [List.length_map, enumMembers, TypeScript.length_enumMembersAfter]

/-- The third name of its kind, and a member whose base is the number of another one. -/
theorem finds_firstFree_iff_numbers :
    (∀ overflow found, Finds overflow (· ∈ ["Get", "Get2"]) "Get" "Get" 2 found ↔ found = "Get3") ∧
      ∀ overflow found,
        Finds overflow (· ∈ ["aB", "aB2"]) "aB2" "aB2" 2 found ↔ found = "aB22" := by
  have hfinite : {s | s ∈ ["Get", "Get2"]}.Finite := List.finite_toSet ["Get", "Get2"]
  obtain ⟨-, hsearch, name, rest, hmembers, -, hmember⟩ :=
    finds_firstFree_iff hfinite "Get" ["a-b", "aB"] "aB2" []
  have hlast : ∀ overflow : Overflow, 2 < overflow.last := by
    intro overflow
    cases overflow <;> decide
  have hget : uniqueName "Get" ["Get", "Get2"] = "Get3" := by decide +kernel
  have hbefore : (enumMembers ["a-b", "aB"]).map (·.name) = ["aB", "aB2"] := by decide +kernel
  have hbase : sanitize "aB2" = "aB2" := by decide +kernel
  have hname : name = "aB22" := by
    have hall : (enumMembers ["a-b", "aB", "aB2"]).map (·.name) = ["aB", "aB2", "aB22"] := by
      decide +kernel
    have heq := congrArg (List.map (·.name)) hmembers
    rw [List.map_append, hbefore, List.map_cons] at heq
    have hthree := hall.symm.trans heq
    simp only [List.cons_append, List.nil_append, List.cons.injEq] at hthree
    exact hthree.2.2.1.symm
  rw [hbefore, hbase, hname] at hmember
  constructor
  · intro overflow
    obtain ⟨hfinds, hreach⟩ := (hsearch ["Get", "Get2"] fun _ => Iff.rfl).2 overflow
    rw [hget] at hfinds
    exact hfinds.mpr (hreach (hlast overflow))
  · intro overflow
    obtain ⟨hfinds, hreach⟩ := hmember overflow
    exact hfinds.mpr (hreach (hlast overflow))

/-- A name and the name with any number of 32 bits. -/
def AllNumbered (s : String) : Prop := s = "Get" ∨ ∃ k : Int32, s = "Get" ++ toString k.toInt

/-- **Finitely many names that leave none in reach.** The first free name is `Get2147483648`, but
the search ends with no name at all: the counter stops, or it comes back to where it began. -/
theorem not_finds_allNumbered :
    {s | AllNumbered s}.Finite ∧ FirstFree "Get" AllNumbered "Get2147483648" ∧
      ∀ overflow found, ¬ Finds overflow AllNumbered "Get" "Get" 2 found := by
  have hnext : "Get2147483648" = numbered "Get" 2147483648 := by decide +kernel
  refine ⟨?_, ⟨?_, ?_, fun _ => ⟨2147483648, by decide, by decide +kernel, ?_⟩⟩, ?_⟩
  · refine (((Set.finite_Icc (-2 ^ 31) (2 ^ 31 : Int)).image
      fun z => "Get" ++ toString z).insert "Get").subset ?_
    rintro s (rfl | ⟨k, rfl⟩)
    · exact Set.mem_insert _ _
    · exact Set.mem_insert_of_mem _ ⟨k.toInt, ⟨k.le_toInt, k.toInt_lt.le⟩, rfl⟩
  · rintro (heq | ⟨k, heq⟩)
    · exact absurd heq (by decide)
    · have hk : k.toInt = 2147483648 := Name.eq_of_append_eq_numbered (heq.symm.trans hnext)
      have hlt := k.toInt_lt
      omega
  · exact fun hfree => absurd (.inl rfl) hfree
  · intro m _ hlt
    refine .inr ⟨Int32.ofNat m, ?_⟩
    rw [Int32.toInt_ofNat_of_lt hlt]
    rfl
  · intro overflow found hfinds
    exact hfinds.not_taken hfinds.cases_found

end ClientGen
