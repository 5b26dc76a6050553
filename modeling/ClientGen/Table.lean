/-!
# Ordered tables

A table is a list of named entries in the order in which the names first came. Putting a name that
is already there replaces its value and keeps its place.
-/

namespace ClientGen

/-- Named entries in order. Tables built by `put` name each entry once. -/
abbrev Table (α : Type) := List (String × α)

namespace Table

variable {α : Type}

/-- The entry of a name. -/
def get? (t : Table α) (name : String) : Option α := t.lookup name

/-- Is there an entry of that name? -/
def has (t : Table α) (name : String) : Bool := t.any fun entry => entry.1 == name

/-- The names in order. -/
def names (t : Table α) : List String := t.map (·.1)

/-- Replaces the value of a name, or adds the name at the end. -/
def put : Table α → String → α → Table α
  | [], name, value => [(name, value)]
  | (n, v) :: t, name, value =>
    if n = name then (n, value) :: t else (n, v) :: put t name value

/-- The table with every name put in turn: a name that comes twice keeps its first place and its
last value. -/
def ofEntries (entries : List (String × α)) : Table α :=
  entries.foldl (fun t entry => t.put entry.1 entry.2) []

@[simp] theorem names_nil : names ([] : Table α) = [] := rfl

@[simp] theorem names_cons (entry : String × α) (t : Table α) :
    names (entry :: t) = entry.1 :: names t := rfl

/-- A name that is there already leaves the names as they are; a new one comes last. -/
theorem names_put (t : Table α) (name : String) (value : α) :
    (t.put name value).names = if name ∈ t.names then t.names else t.names ++ [name] := by
  induction t with
  | nil => simp [put]
  | cons entry t ih =>
    obtain ⟨n, v⟩ := entry
    by_cases h : n = name
    · simp [put, h]
    · have h' : ¬ name = n := fun e => h e.symm
      by_cases hm : name ∈ names t <;> simp [put, h, h', hm, ih]

@[simp] theorem get?_nil (name : String) : get? ([] : Table α) name = none := rfl

theorem get?_cons (n : String) (v : α) (t : Table α) (name : String) :
    get? ((n, v) :: t) name = if name = n then some v else t.get? name := by
  unfold get?
  rw [List.lookup_cons]
  by_cases h : name = n
  · rw [if_pos h, beq_iff_eq.mpr h]
  · rw [if_neg h, beq_false_of_ne h]

/-- A name has no entry exactly when it is not among the names. -/
theorem get?_eq_none_iff (t : Table α) (name : String) : t.get? name = none ↔ name ∉ t.names := by
  induction t with
  | nil => simp
  | cons entry t ih =>
    obtain ⟨n, v⟩ := entry
    rw [get?_cons]
    by_cases h : name = n
    · simp [h]
    · simp [h, ih]

/-- The entry of a name is in the table. -/
theorem mem_of_get? {t : Table α} {name : String} {value : α} (h : t.get? name = some value) :
    (name, value) ∈ t := by
  obtain ⟨l₁, l₂, rfl, -⟩ := List.lookup_eq_some_iff.mp h
  exact List.mem_append_right l₁ (List.mem_cons_self ..)

/-- An entry of a table with distinct names is the entry of its name. -/
theorem get?_of_mem {t : Table α} (hnames : t.names.Nodup) {name : String} {value : α}
    (h : (name, value) ∈ t) : t.get? name = some value := by
  induction t with
  | nil => cases h
  | cons entry t ih =>
    obtain ⟨n, v⟩ := entry
    rw [names_cons, List.nodup_cons] at hnames
    rw [get?_cons]
    rcases List.mem_cons.mp h with heq | hmem
    · cases heq
      rw [if_pos rfl]
    · have hne : name ≠ n := by
        rintro rfl
        exact hnames.1 (List.mem_map_of_mem (f := (·.1)) hmem)
      rw [if_neg hne, ih hnames.2 hmem]

/-- A name that was put has its new value, the others keep theirs. -/
theorem get?_put (t : Table α) (name n : String) (value : α) :
    (t.put name value).get? n = if n = name then some value else t.get? n := by
  induction t with
  | nil => rw [put, get?_cons]
  | cons entry t ih =>
    obtain ⟨m, v⟩ := entry
    by_cases hm : m = name
    · rw [put, if_pos hm, get?_cons, get?_cons, hm]
      by_cases h : n = name <;> simp [h]
    · rw [put, if_neg hm, get?_cons, get?_cons, ih]
      by_cases h : n = m
      · have hn : ¬ n = name := fun e => hm (h.symm.trans e)
        rw [if_pos h, if_neg hn, if_pos h]
      · rw [if_neg h, if_neg h]

theorem mem_put {t : Table α} {name : String} {value : α} {entry : String × α}
    (h : entry ∈ t.put name value) : entry = (name, value) ∨ entry ∈ t := by
  induction t with
  | nil => exact .inl (List.mem_singleton.mp h)
  | cons e t ih =>
    obtain ⟨n, v⟩ := e
    rw [put] at h
    split at h
    case isTrue hn => exact hn ▸ (List.mem_cons.mp h).imp_right (List.mem_cons_of_mem _)
    case isFalse =>
      rcases List.mem_cons.mp h with rfl | h
      · exact .inr List.mem_cons_self
      · exact (ih h).imp_right (List.mem_cons_of_mem _)

/-- A new name comes last. -/
theorem put_eq_append {t : Table α} {name : String} (h : name ∉ t.names) (value : α) :
    t.put name value = t ++ [(name, value)] := by
  induction t with
  | nil => rfl
  | cons entry t ih =>
    obtain ⟨n, v⟩ := entry
    rw [names_cons, List.mem_cons, not_or] at h
    rw [put, if_neg (Ne.symm h.1), ih h.2, List.cons_append]

theorem nodup_names_put {t : Table α} (h : t.names.Nodup) (name : String) (value : α) :
    (t.put name value).names.Nodup := by
  rw [names_put]
  split
  · exact h
  case isFalse hname =>
    refine List.nodup_append.mpr ⟨h, by simp, ?_⟩
    intro n hn m hm
    rw [List.mem_singleton.mp hm]
    exact fun e => hname (e ▸ hn)

/-- A table of entries names each of them once. -/
theorem nodup_names_ofEntries (entries : List (String × α)) : (ofEntries entries).names.Nodup :=
  List.foldlRecOn (motive := fun t => (names t).Nodup) entries _ List.nodup_nil
    fun _ h entry _ => nodup_names_put h entry.1 entry.2

theorem mem_ofEntries {entries : List (String × α)} {entry : String × α}
    (h : entry ∈ ofEntries entries) : entry ∈ entries := by
  have step : ∀ (l : List (String × α)) (t : Table α),
      entry ∈ l.foldl (fun t entry => t.put entry.1 entry.2) t → entry ∈ t ∨ entry ∈ l := by
    intro l
    induction l with
    | nil => exact fun t h => .inl h
    | cons e l ih =>
      intro t h
      rcases ih _ h with h | h
      · rcases mem_put h with rfl | h
        · exact .inr List.mem_cons_self
        · exact .inl h
      · exact .inr (List.mem_cons_of_mem e h)
  exact (step entries [] h).resolve_left List.not_mem_nil

/-- Entries with distinct names are a table already. -/
theorem ofEntries_eq_self {t : Table α} (h : t.names.Nodup) : ofEntries t = t := by
  have step : ∀ (l t : Table α), (t ++ l).names.Nodup →
      l.foldl (fun t entry => t.put entry.1 entry.2) t = t ++ l := by
    intro l
    induction l with
    | nil => exact fun t _ => (List.append_nil t).symm
    | cons e l ih =>
      intro t h
      have hname : e.1 ∉ t.names := by
        rw [names, List.map_append, List.map_cons] at h
        exact fun hmem => (List.nodup_append.mp h).2.2 _ hmem _ List.mem_cons_self rfl
      rw [List.foldl_cons, put_eq_append hname, ih, List.append_assoc, List.singleton_append]
      rwa [List.append_assoc, List.singleton_append]
  exact step t [] h

end Table

end ClientGen
