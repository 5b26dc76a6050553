import ClientGen.Proofs.Json.Reader

/-!
# Records that are read back

A record is read field by field and written member by member. A `Slot` puts the two sides of a field
together: where the part of the record is, how it is read, and as which member it is written.

* `Slot.Kept` says that the member of a part is read as this part again. Every read keeps the parts
  of all slots (`kept_of_read`), so a record that was read has all its parts kept
  (`readRecord_kept`), whether it was an object or an array.
* `readMembers_written`: the members of such a record, read in turn, give back part after part.
* `readRecord_faithful` and `readOpenRecord_faithful` put this together. The keywords of an open
  record are read like the fields of a record of their own (`readKeywords_eq`).
-/

namespace ClientGen.Json

/-! ## Slots -/

/-- A field of a record, with the member it is written as. -/
structure Slot (α : Type) where
  /-- the type of this part of the record -/
  Part : Type
  /-- the name of the member -/
  name : String
  /-- may an array leave the part out? -/
  defaulted : Bool
  /-- reads the part -/
  read : Reader Part
  /-- the part of a record -/
  get : α → Part
  /-- puts the part into a record -/
  set : α → Part → α
  /-- the part that has no member -/
  absent : Part
  /-- the member, unless it is left out -/
  member : Part → Option (String × Value)
  member_absent : member absent = none
  eq_absent : ∀ {b : Part}, member b = none → b = absent
  name_eq : ∀ {b : Part} {m : String × Value}, member b = some m → m.1 = name
  /-- what was read is read again from its member -/
  again : ∀ {room : ℕ} {node : Node} {b : Part} {m : String × Value},
    read room node = .ok b → member b = some m → read room m.2.node = .ok b
  fits : ∀ {room : ℕ} {node : Node} {b : Part} {m : String × Value},
    read room node = .ok b → member b = some m → m.2.Fits room

namespace Slot

variable {α β : Type}

/-- The field of a slot. -/
def field (s : Slot α) : RecordField α where
  name := s.name
  defaulted := s.defaulted
  read room node record := return s.set record (← s.read room node)

/-- The member of a record for a slot. -/
def memberOf (a : α) (s : Slot α) : Option (String × Value) := s.member (s.get a)

/-- A part that may be absent or `null`. -/
@[simp] def optional (name : String) {r : Reader β} {write : β → Value} (h : r.Faithful write)
    (get : α → Option β) (set : α → Option β → α) : Slot α where
  Part := Option β
  name
  defaulted := false
  read := .optional r
  get
  set
  absent := none
  member := ClientGen.member name write
  member_absent := rfl
  eq_absent hb := Option.map_eq_none_iff.mp hb
  name_eq hm := by
    obtain ⟨b, -, rfl⟩ := Option.map_eq_some_iff.mp hm
    rfl
  again hread hm := by
    obtain ⟨b, rfl, rfl⟩ := Option.map_eq_some_iff.mp hm
    obtain ⟨hnode, hb⟩ := Reader.optional_eq_some hread
    rw [Reader.optional_of_ne_null (Value.node_ne_null (h.ne_null hb hnode)), h.again hb]
    rfl
  fits hread hm := by
    obtain ⟨b, rfl, rfl⟩ := Option.map_eq_some_iff.mp hm
    exact h.fits (Reader.optional_eq_some hread).2

/-- A part that is left out when it is empty. -/
@[simp] def defaulting (name : String) {r : Reader β} {write : β → Value} (h : r.Faithful write)
    (absent : β) (isEmpty : β → Bool) (hempty : ∀ {b}, isEmpty b = true ↔ b = absent)
    (get : α → β) (set : α → β → α) : Slot α where
  Part := β
  name
  defaulted := true
  read := r
  get
  set
  absent
  member b := if isEmpty b then none else some (name, write b)
  member_absent := if_pos (hempty.mpr rfl)
  eq_absent {b} hb := by
    split at hb
    case isTrue h => exact hempty.mp h
    case isFalse => cases hb
  name_eq {b m} hm := by
    split at hm
    · cases hm
    · cases hm
      rfl
  again hread hm := by
    split at hm
    · cases hm
    · cases hm
      exact h.again hread
  fits hread hm := by
    split at hm
    · cases hm
    · cases hm
      exact h.fits hread

/-- A list that is empty when it is absent. -/
@[simp] def list (name : String) {r : Reader β} {write : β → Value} (h : r.Faithful write)
    (get : α → List β) (set : α → List β → α) : Slot α :=
  defaulting name (Reader.list_faithful h) [] List.isEmpty List.isEmpty_iff get set

/-- A table that is empty when it is absent. -/
@[simp] def table (name : String) {r : Reader β} {write : β → Value} (h : r.Faithful write)
    (get : α → Table β) (set : α → Table β → α) : Slot α :=
  defaulting name (Reader.table_faithful h) [] List.isEmpty List.isEmpty_iff get set

theorem field_read_eq_ok {s : Slot α} {room : ℕ} {node : Node} {a a' : α}
    (h : s.field.read room node a = .ok a') : ∃ b, s.read room node = .ok b ∧ a' = s.set a b := by
  obtain ⟨b, hb, h⟩ := bind_eq_ok h
  exact ⟨b, hb, (pure_eq_ok h).symm⟩

/-- The member of the part, if it has one, is read as the part. -/
def Kept (s : Slot α) (room : ℕ) (a : α) : Prop :=
  ∀ m, s.memberOf a = some m → s.read room m.2.node = .ok (s.get a) ∧ m.2.Fits room

/-- Two slots stand for different parts of the record. -/
@[simp] def Apart (s t : Slot α) : Prop :=
  (∀ a b, s.get (t.set a b) = s.get a) ∧ ∀ a b, t.get (s.set a b) = t.get a

instance : Std.Symm (@Apart α) := ⟨fun _ _ h => ⟨h.2, h.1⟩⟩

end Slot

variable {α κ : Type}

/-! ## Closed records -/

section Members

variable {fields : List (RecordField α)} {field : RecordField α} {room : ℕ} {name : String}
  {node : Node} {members : List (Option String × Node)} {seen : List String} {a a' : α}

/-- A field is found under its name, as no other one has it. -/
theorem find?_recordField (hnames : (fields.map (·.name)).Nodup) (h : field ∈ fields) :
    fields.find? (·.name = field.name) = some field := by
  induction fields with
  | nil => cases h
  | cons first fields ih =>
    rw [List.map_cons, List.nodup_cons] at hnames
    rw [List.find?_cons]
    rcases List.mem_cons.mp h with rfl | h
    · simp
    · have hne : first.name ≠ field.name := fun heq =>
        hnames.1 (heq ▸ List.mem_map_of_mem (f := (·.name)) h)
      simpa [hne] using ih hnames.2 h

theorem readMembers_some :
    readMembers fields room ((some name, node) :: members) seen a =
      match fields.find? (·.name = name) with
      | none => node.skip >>= fun _ => readMembers fields room members seen a
      | some field =>
        if name ∈ seen then .error .mismatch
        else field.read room node a >>= readMembers fields room members (name :: seen) := by
  rw [readMembers]
  change (match fields.find? (·.name = name) with | none => _ | some field => _) = _
  cases fields.find? (·.name = name) with
  | none => rfl
  | some field =>
    by_cases hseen : name ∈ seen
    · simp only [if_pos hseen]
      rfl
    · simp only [if_neg hseen]

/-- Inversion for the members of a record: the first is skipped or read. -/
theorem readMembers_cons {member : Option String × Node}
    (h : readMembers fields room (member :: members) seen a = .ok a') :
    (readMembers fields room members seen a = .ok a') ∨
      ∃ field ∈ fields, ∃ name a₁, field.read room member.2 a = .ok a₁ ∧
        readMembers fields room members (name :: seen) a₁ = .ok a' := by
  obtain ⟨_ | name, node⟩ := member
  · cases h
  · rw [readMembers_some] at h
    split at h
    · obtain ⟨_, _, h⟩ := bind_eq_ok h
      exact .inl h
    case h_2 field hfind =>
      split at h
      · cases h
      · obtain ⟨a₁, ha₁, h⟩ := bind_eq_ok h
        exact .inr ⟨field, List.mem_of_find?_eq_some hfind, name, a₁, ha₁, h⟩

end Members

/-- The slots are parts of a record that are read and written one by one, over a record that has
none of them. -/
structure Describe (slots : List (Slot α)) (initial : α) : Prop where
  names : (slots.map Slot.name).Nodup
  get_set : ∀ s ∈ slots, ∀ a b, s.get (s.set a b) = b
  set_get : ∀ s ∈ slots, ∀ a, s.set a (s.get a) = a
  apart : slots.Pairwise Slot.Apart
  get_initial : ∀ s ∈ slots, s.get initial = s.absent

/-- Copies the parts of `a` into a record. -/
def copyParts (slots : List (Slot α)) (a initial : α) : α :=
  slots.foldl (fun r s => s.set r (s.get a)) initial

namespace Describe

variable {slots : List (Slot α)} {initial : α} (hd : Describe slots initial)
include hd

theorem apart_of_ne {s t : Slot α} (hs : s ∈ slots) (ht : t ∈ slots) (hne : s ≠ t) : s.Apart t :=
  hd.apart.forall hs ht hne

theorem kept_initial (room : ℕ) : ∀ s ∈ slots, s.Kept room initial := by
  intro s hs m hm
  rw [Slot.memberOf, hd.get_initial s hs, s.member_absent] at hm
  cases hm

/-- **Step.** Reading a field keeps the parts of all slots. -/
theorem kept_of_read {field : RecordField α} (hfield : field ∈ slots.map Slot.field) {room : ℕ}
    {node : Node} {a a' : α} (h : field.read room node a = .ok a')
    (ha : ∀ s ∈ slots, s.Kept room a) : ∀ s ∈ slots, s.Kept room a' := by
  obtain ⟨t, ht, rfl⟩ := List.mem_map.mp hfield
  obtain ⟨b, hb, rfl⟩ := Slot.field_read_eq_ok h
  intro s hs m hm
  -- the part that was read is kept by its own reader, all others stay as they were
  by_cases hst : s = t
  · subst hst
    rw [Slot.memberOf, hd.get_set s hs] at hm
    rw [hd.get_set s hs]
    exact ⟨s.again hb hm, s.fits hb hm⟩
  · have hget := (hd.apart_of_ne hs ht hst).1 a b
    rw [Slot.memberOf, hget] at hm
    rw [hget]
    exact ha s hs m hm

/-- **Run.** So does reading the members of an object. -/
theorem kept_of_readMembers {room : ℕ} {members : List (Option String × Node)} {seen : List String}
    {a a' : α} (h : readMembers (slots.map Slot.field) room members seen a = .ok a')
    (ha : ∀ s ∈ slots, s.Kept room a) : ∀ s ∈ slots, s.Kept room a' := by
  induction members generalizing seen a with
  | nil =>
    obtain rfl := Except.ok.inj h
    exact ha
  | cons member members ih =>
    rcases readMembers_cons h with h | ⟨field, hfield, name, a₁, ha₁, h⟩
    · exact ih h ha
    · exact ih h (hd.kept_of_read hfield ha₁ ha)

/-- So does reading the items of an array. -/
theorem kept_of_readItems {room : ℕ} {ending : Ending} {fields : List (RecordField α)}
    (hfields : fields ⊆ slots.map Slot.field) {items : List Node} {a a' : α}
    (h : readItems room ending fields items a = .ok a') (ha : ∀ s ∈ slots, s.Kept room a) :
    ∀ s ∈ slots, s.Kept room a' := by
  induction fields generalizing items a with
  | nil =>
    cases items with
    | nil =>
      obtain ⟨_, _, h⟩ := bind_eq_ok h
      exact pure_eq_ok h ▸ ha
    | cons item items => cases h
  | cons field fields ih =>
    have hrest := (List.cons_subset.mp hfields).2
    cases items with
    | nil =>
      obtain ⟨_, _, h⟩ := bind_eq_ok h
      split at h
      · exact ih hrest h ha
      · cases h
    | cons item items =>
      obtain ⟨a₁, ha₁, h⟩ := bind_eq_ok h
      exact ih hrest h (hd.kept_of_read (hfields List.mem_cons_self) ha₁ ha)

/-- A record that was read has all its parts kept. -/
theorem readRecord_kept {room : ℕ} {node : Node} {a : α}
    (h : readRecord (slots.map Slot.field) initial room node = .ok a) :
    ∃ inner, room = inner + 1 ∧ ∀ s ∈ slots, s.Kept inner a := by
  unfold readRecord at h
  split at h
  · cases h
  · cases h
  case h_3 inner members ending =>
    obtain ⟨a', ha', h⟩ := bind_eq_ok h
    obtain ⟨_, _, h⟩ := bind_eq_ok h
    obtain rfl := pure_eq_ok h
    exact ⟨inner, rfl, hd.kept_of_readMembers ha' (hd.kept_initial inner)⟩
  case h_4 inner items ending =>
    exact ⟨inner, rfl, hd.kept_of_readItems (List.Subset.refl _) h (hd.kept_initial inner)⟩
  · cases h

theorem find?_field {s : Slot α} (hs : s ∈ slots) :
    (slots.map Slot.field).find? (·.name = s.name) = some s.field := by
  have hnames : ((slots.map Slot.field).map (·.name)).Nodup := by
    rw [List.map_map]
    exact hd.names
  exact find?_recordField hnames (List.mem_map_of_mem hs)

/-- The members of a record whose parts are kept give back part after part. -/
theorem readMembers_written {room : ℕ} {a : α} (ha : ∀ s ∈ slots, s.Kept room a)
    {todo : List (Slot α)} (hsub : todo ⊆ slots) (hnames : (todo.map Slot.name).Nodup)
    (hapart : todo.Pairwise Slot.Apart) {seen : List String} (hseen : ∀ s ∈ todo, s.name ∉ seen)
    {r : α} (hr : ∀ s ∈ todo, s.get r = s.absent) :
    readMembers (slots.map Slot.field) room
      (Value.memberNodes (todo.filterMap (Slot.memberOf a))) seen r = .ok (copyParts todo a r) := by
  induction todo generalizing seen r with
  | nil => rfl
  | cons s todo ih =>
    obtain ⟨hs, hsub⟩ := List.cons_subset.mp hsub
    obtain ⟨hname, hnames⟩ := List.nodup_cons.mp hnames
    obtain ⟨hfirst, hapart⟩ := List.pairwise_cons.mp hapart
    rw [copyParts, List.foldl_cons, ← copyParts]
    cases hm : s.memberOf a with
    | none =>
      -- no member: the part is absent in `a`, as it still is in `r`
      have hset : s.set r (s.get a) = r := by
        rw [s.eq_absent hm, ← hr s List.mem_cons_self, hd.set_get s hs]
      rw [hset, List.filterMap_cons_none hm]
      exact ih hsub hnames hapart (fun t ht => hseen t (List.mem_cons_of_mem s ht))
        fun t ht => hr t (List.mem_cons_of_mem s ht)
    | some m =>
      obtain ⟨name, value⟩ := m
      obtain rfl : name = s.name := s.name_eq hm
      have hread : s.field.read room value.node r = .ok (s.set r (s.get a)) := by
        rw [Slot.field]
        dsimp only
        rw [(ha s hs _ hm).1]
        rfl
      rw [List.filterMap_cons_some hm, Value.memberNodes, readMembers_some, hd.find?_field hs]
      dsimp only
      rw [if_neg (hseen s List.mem_cons_self), hread]
      refine ih hsub hnames hapart (fun t ht => ?_) fun t ht => ?_
      · rw [List.mem_cons, not_or]
        exact ⟨fun h => hname (h ▸ List.mem_map_of_mem ht), hseen t (List.mem_cons_of_mem s ht)⟩
      · rw [(hfirst t ht).2, hr t (List.mem_cons_of_mem s ht)]

end Describe

/-- The members of a record whose parts are kept fit. -/
theorem fits_of_kept {slots : List (Slot α)} {room : ℕ} {a : α} (ha : ∀ s ∈ slots, s.Kept room a) :
    ∀ m ∈ slots.filterMap (Slot.memberOf a), m.2.Fits room := by
  intro m hm
  obtain ⟨s, hs, hsm⟩ := List.mem_filterMap.mp hm
  exact (ha s hs m hsm).2

theorem objectOf_map (slots : List (Slot α)) (a : α) :
    objectOf (slots.map (Slot.memberOf a)) = .object (slots.filterMap (Slot.memberOf a)) := by
  rw [objectOf, List.filterMap_map, Function.id_comp]

/-- **Closed records.** A record is read back if its fields and its members are those of its slots,
and the slots are all of its parts. -/
theorem readRecord_faithful {slots : List (Slot α)} {initial : α} {fields : List (RecordField α)}
    {members : α → List (Option (String × Value))} (hd : Describe slots initial)
    (hfields : fields = slots.map Slot.field)
    (hmembers : ∀ a, members a = slots.map (Slot.memberOf a))
    (hwhole : ∀ a, copyParts slots a initial = a) :
    (readRecord fields initial).Faithful fun a => objectOf (members a) := by
  subst hfields
  refine ⟨fun {_ _ a} h => ?_, fun _ _ => nofun, fun {_ _ a} h => ?_⟩
  · obtain ⟨inner, rfl, hkept⟩ := hd.readRecord_kept h
    have hread := hd.readMembers_written hkept (List.Subset.refl slots) hd.names hd.apart
      (fun _ _ => List.not_mem_nil) hd.get_initial
    rw [hmembers, objectOf_map, Value.node, readRecord, hread, hwhole]
    rfl
  · obtain ⟨inner, rfl, hkept⟩ := hd.readRecord_kept h
    rw [hmembers, objectOf_map, Value.Fits]
    exact fits_of_kept hkept

/-! ## Open records -/

/-- Is the member a field? -/
def isField (fields : List (RecordField α)) (name : Option String) : Bool :=
  match name with
  | some name => (fields.find? (·.name = name)).isSome
  | none => false

section OpenMembers

variable {fields : List (RecordField α)} {room : ℕ} {members : List (Option String × Node)}
  {seen : List String} {others rest : List (String × Value)} {a a' : α}

theorem readOpenMembers_some {name : String} {node : Node} :
    readOpenMembers fields room ((some name, node) :: members) seen others a =
      match fields.find? (·.name = name) with
      | none => Value.ofNode room node >>= fun value =>
          readOpenMembers fields room members seen ((name, value) :: others) a
      | some field =>
        if name ∈ seen then .error .mismatch
        else field.read room node a >>=
          readOpenMembers fields room members (name :: seen) others := by
  rw [readOpenMembers]
  change (match fields.find? (·.name = name) with | none => _ | some field => _) = _
  cases fields.find? (·.name = name) with
  | none => rfl
  | some field =>
    by_cases hseen : name ∈ seen
    · simp only [if_pos hseen]
      rfl
    · simp only [if_neg hseen]

/-- The members were read as free values. -/
def ReadAs (room : ℕ) (members : List (Option String × Node)) (values : List (String × Value)) :
    Prop :=
  members.Forall₂ (fun m e => m.1 = some e.1 ∧ Value.ofNode room m.2 = .ok e.2) values

/-- The members of an open record are read apart: the fields as those of a closed record, and the
others as free values. -/
theorem readOpenMembers_eq_ok
    (h : readOpenMembers fields room members seen others a = .ok (a', rest)) :
    readMembers fields room (members.filter fun m => isField fields m.1) seen a = .ok a' ∧
      ∃ more, rest = others.reverse ++ more ∧
        ReadAs room (members.filter fun m => !isField fields m.1) more := by
  induction members generalizing seen others a with
  | nil =>
    obtain ⟨rfl, rfl⟩ := Prod.mk.inj (Except.ok.inj h)
    exact ⟨rfl, [], (List.append_nil _).symm, .nil⟩
  | cons member members ih =>
    obtain ⟨_ | name, node⟩ := member
    · cases h
    rw [readOpenMembers_some] at h
    split at h
    case h_1 hfind =>
      have hfield : isField fields (some name) = false := by rw [isField, hfind]; rfl
      obtain ⟨value, hvalue, h⟩ := bind_eq_ok h
      obtain ⟨hmembers, more, rfl, hmore⟩ := ih h
      rw [List.filter_cons_of_neg (by simp [hfield]), List.filter_cons_of_pos (by simp [hfield])]
      exact ⟨hmembers, (name, value) :: more, by simp, .cons ⟨rfl, hvalue⟩ hmore⟩
    case h_2 field hfind =>
      have hfield : isField fields (some name) = true := by rw [isField, hfind]; rfl
      split at h
      · cases h
      case isFalse hseen =>
        obtain ⟨a₁, ha₁, h⟩ := bind_eq_ok h
        obtain ⟨hmembers, hmore⟩ := ih h
        rw [List.filter_cons_of_pos (by simp [hfield]), List.filter_cons_of_neg (by simp [hfield]),
          readMembers_some, hfind]
        dsimp only
        rw [if_neg hseen, ha₁]
        exact ⟨hmembers, hmore⟩

theorem readOpenMembers_of
    (hfields : readMembers fields room (members.filter fun m => isField fields m.1) seen a = .ok a')
    (hothers : ReadAs room (members.filter fun m => !isField fields m.1) rest) :
    readOpenMembers fields room members seen others a = .ok (a', others.reverse ++ rest) := by
  induction members generalizing seen others rest a with
  | nil =>
    cases hothers
    obtain rfl := Except.ok.inj hfields
    rw [readOpenMembers, List.append_nil]
  | cons member members ih =>
    obtain ⟨_ | name, node⟩ := member
    · rw [List.filter_cons_of_pos (by rfl)] at hothers
      obtain _ | ⟨⟨hkey, -⟩, -⟩ := hothers
      cases hkey
    rw [readOpenMembers_some]
    cases hfind : fields.find? (·.name = name) with
    | none =>
      have hfield : isField fields (some name) = false := by rw [isField, hfind]; rfl
      rw [List.filter_cons_of_neg (by simp [hfield])] at hfields
      rw [List.filter_cons_of_pos (by simp [hfield])] at hothers
      obtain _ | @⟨_, ⟨name', value⟩, _, rest, ⟨hkey, hvalue⟩, hrest⟩ := hothers
      obtain rfl : name = name' := Option.some.inj hkey
      dsimp only
      rw [hvalue]
      have hread : readOpenMembers fields room members seen ((name, value) :: others) a =
          .ok (a', ((name, value) :: others).reverse ++ rest) := ih hfields hrest
      rw [List.reverse_cons, List.append_assoc] at hread
      exact hread
    | some field =>
      have hfield : isField fields (some name) = true := by rw [isField, hfind]; rfl
      rw [List.filter_cons_of_pos (by simp [hfield]), readMembers_some, hfind] at hfields
      rw [List.filter_cons_of_neg (by simp [hfield])] at hothers
      dsimp only at hfields ⊢
      split at hfields
      · cases hfields
      case isFalse hseen =>
        obtain ⟨a₁, ha₁, hfields⟩ := bind_eq_ok hfields
        rw [if_neg hseen, ha₁]
        exact ih hfields hothers

end OpenMembers

/-- Reads a keyword on its own: as a free value first. -/
def Reader.keyword {β : Type} (of? : Value → Option β) : Reader β := fun room node => do
  let value ← Value.ofNode room node
  match of? value with
  | some b => return b
  | none => throw .mismatch

theorem Reader.keyword_of_ofNode {β : Type} {of? : Value → Option β} {room : ℕ} {node : Node}
    {value : Value} (h : Value.ofNode room node = .ok value) :
    Reader.keyword of? room node =
      match of? value with
      | some b => .ok b
      | none => .error .mismatch := by
  rw [Reader.keyword, h]
  rfl

/-- A keyword does to its group what the field does to a record. -/
def Keyword.Like (k : Keyword κ) (f : RecordField κ) : Prop :=
  k.name = f.name ∧ ∀ {room : ℕ} {node : Node} {value : Value} (group : κ),
    Value.ofNode room node = .ok value →
      f.read room node group =
        match k.read value group with
        | some group => .ok group
        | none => .error .mismatch

theorem Keyword.optional_like {β : Type} (name : String) (of? : Value → Option β)
    (set : κ → Option β → κ) :
    (Keyword.optional name of? set).Like (.optional name (.keyword of?) set) := by
  refine ⟨rfl, fun {room node value} group hvalue => ?_⟩
  change (Reader.optional (.keyword of?) room node >>= fun b => pure (set group b)) = _
  by_cases hnull : value = .null
  · subst hnull
    obtain rfl := Value.eq_null_of_ofNode hvalue
    rfl
  · have hnode : node ≠ .null := by
      rintro rfl
      rw [Value.ofNode] at hvalue
      exact hnull (Except.ok.inj hvalue).symm
    have hread : (Keyword.optional name of? set).read value group =
        (of? value).map fun b => set group (some b) := by
      cases value with
      | null => exact absurd rfl hnull
      | bool b => rfl
      | number n => rfl
      | text s => rfl
      | array vs => rfl
      | object ms => rfl
    rw [Reader.optional_of_ne_null hnode, hread, Reader.keyword_of_ofNode hvalue]
    cases of? value <;> rfl

theorem Node.skip_of_ofNode {room : ℕ} {node : Node} {value : Value}
    (h : Value.ofNode room node = .ok value) : node.skip = .ok () := by
  cases node with
  | null => rfl
  | bool b => rfl
  | number n => rfl
  | text content => rfl
  | broken strict lenient => rw [Value.ofNode] at h; cases h
  | array items ending =>
    obtain ⟨_, _, _, rfl, _⟩ := Value.ofNode_array h
    rfl
  | object members ending =>
    obtain ⟨_, _, _, rfl, _⟩ := Value.ofNode_object h
    rfl

/-- Keywords are looked up as fields are. -/
theorem Keyword.find?_like {keywords : List (Keyword κ)} {fields : List (RecordField κ)}
    (h : keywords.Forall₂ Keyword.Like fields) (name : String) :
    match keywords.find? (·.name = name), fields.find? (·.name = name) with
    | none, none => True
    | some k, some f => k.Like f
    | _, _ => False := by
  induction h with
  | nil => trivial
  | @cons k f keywords fields hlike _ ih =>
    rw [List.find?_cons, List.find?_cons, ← hlike.1]
    by_cases hname : k.name = name
    · simpa [hname] using hlike
    · simpa [hname] using ih

/-- The keywords of a group are read as the fields of a closed record are. -/
theorem readKeywords_eq {keywords : List (Keyword κ)} {fields : List (RecordField κ)}
    (hlike : keywords.Forall₂ Keyword.Like fields) {room : ℕ}
    {members : List (Option String × Node)} {values : List (String × Value)}
    (h : ReadAs room members values) (seen : List String) (group : κ) :
    readKeywords keywords values seen group = readMembers fields room members seen group := by
  induction h generalizing seen group with
  | nil => rfl
  | @cons member e members values hm _ ih =>
    obtain ⟨key, node⟩ := member
    obtain ⟨name, value⟩ := e
    obtain ⟨rfl, hvalue⟩ : key = some name ∧ Value.ofNode room node = .ok value := hm
    have hfind := Keyword.find?_like hlike name
    rw [readKeywords, readMembers_some]
    revert hfind
    cases keywords.find? (·.name = name) with
    | none =>
      cases fields.find? (·.name = name) with
      | none =>
        intro _
        dsimp only
        rw [Node.skip_of_ofNode hvalue]
        exact ih seen group
      | some f => exact False.elim
    | some k =>
      cases fields.find? (·.name = name) with
      | none => exact False.elim
      | some f =>
        intro hkf
        by_cases hseen : name ∈ seen
        · simp only [if_pos hseen]
          rfl
        · simp only [if_neg hseen, hkf.2 group hvalue]
          cases k.read value group with
          | none => rfl
          | some group' => exact ih (name :: seen) group'

theorem memberNodes_filter (ms : List (String × Value)) (p : Option String → Bool) :
    (Value.memberNodes ms).filter (fun m => p m.1) =
      Value.memberNodes (ms.filter fun m => p (some m.1)) := by
  rw [Value.memberNodes_eq, Value.memberNodes_eq, List.filter_map]
  rfl

theorem isField_of_mem {slots : List (Slot α)} {a : α} {m : String × Value}
    (h : m ∈ slots.filterMap (Slot.memberOf a)) :
    isField (slots.map Slot.field) (some m.1) = true := by
  obtain ⟨s, hs, hm⟩ := List.mem_filterMap.mp h
  rw [isField, List.find?_isSome]
  exact ⟨s.field, List.mem_map_of_mem hs, decide_eq_true (s.name_eq hm).symm⟩

/-- The parts of an open record: slots, and a group of keywords that are slots of their own. The
keywords are written between the first slots and the last ones. -/
structure OpenLayout (first last : List (Slot α)) (initial : α) (keywords : List (Keyword κ))
    (group : List (Slot κ)) (empty : κ) (join : α → κ → α) (part : α → κ) : Prop where
  describe : Describe (first ++ last) initial
  describe_group : Describe group empty
  like : keywords.Forall₂ Keyword.Like (group.map Slot.field)
  /-- the names of the keywords are no names of fields -/
  apart : ∀ s ∈ group, s.name ∉ (first ++ last).map Slot.name
  get_join : ∀ s ∈ first ++ last, ∀ a k, s.get (join a k) = s.get a
  part_join : ∀ a k, part (join a k) = k
  whole : ∀ a, join (copyParts (first ++ last) a initial) (part a) = a
  whole_group : ∀ k, copyParts group k empty = k

/-- The members of an open record. -/
def openMembers (first last : List (Slot α)) (group : List (Slot κ)) (part : α → κ) (a : α) :
    List (Option (String × Value)) :=
  first.map (Slot.memberOf a) ++ group.map (Slot.memberOf (part a)) ++ last.map (Slot.memberOf a)

section Open

variable {first last : List (Slot α)} {initial : α} {keywords : List (Keyword κ)}
  {group : List (Slot κ)} {empty : κ} {join : α → κ → α} {part : α → κ}
  (hl : OpenLayout first last initial keywords group empty join part)
include hl

/-- An open record that was read has all its parts kept, and its keywords as well. -/
theorem OpenLayout.kept {room : ℕ} {node : Node} {a : α}
    (h : readOpenRecord ((first ++ last).map Slot.field) keywords initial empty join room node =
      .ok a) :
    ∃ inner, room = inner + 1 ∧ (∀ s ∈ first ++ last, s.Kept inner a) ∧
      ∀ s ∈ group, s.Kept inner (part a) := by
  unfold readOpenRecord at h
  split at h
  · cases h
  case h_2 inner members ending =>
    obtain ⟨⟨a', others⟩, ha', h⟩ := bind_eq_ok h
    obtain ⟨_, _, h⟩ := bind_eq_ok h
    obtain ⟨k, hk, h⟩ := bind_eq_ok h
    obtain rfl := pure_eq_ok h
    obtain ⟨hmembers, more, rfl, hmore⟩ := readOpenMembers_eq_ok ha'
    rw [readKeywords_eq hl.like hmore] at hk
    refine ⟨inner, rfl, fun s hs m hm => ?_, ?_⟩
    · rw [Slot.memberOf, hl.get_join s hs] at hm
      rw [hl.get_join s hs]
      exact hl.describe.kept_of_readMembers hmembers (hl.describe.kept_initial inner) s hs m hm
    · rw [hl.part_join]
      exact hl.describe_group.kept_of_readMembers hk (hl.describe_group.kept_initial inner)
  · cases h

theorem OpenLayout.not_isField {k : κ} {m : String × Value}
    (h : m ∈ group.filterMap (Slot.memberOf k)) :
    isField ((first ++ last).map Slot.field) (some m.1) = false := by
  obtain ⟨s, hs, hm⟩ := List.mem_filterMap.mp h
  rw [isField, Option.isSome_eq_false_iff, Option.isNone_iff_eq_none, List.find?_eq_none]
  intro field hfield hname
  obtain ⟨t, ht, rfl⟩ := List.mem_map.mp hfield
  have hname : t.name = m.1 := of_decide_eq_true hname
  exact hl.apart s hs (s.name_eq hm ▸ hname ▸ List.mem_map_of_mem ht)

/-- The written members fall apart into those of the slots and those of the keywords. -/
theorem OpenLayout.filter_members (a : α) :
    ((openMembers first last group part a).filterMap id).filter
        (fun m => isField ((first ++ last).map Slot.field) (some m.1)) =
        (first ++ last).filterMap (Slot.memberOf a) ∧
      ((openMembers first last group part a).filterMap id).filter
        (fun m => !isField ((first ++ last).map Slot.field) (some m.1)) =
        group.filterMap (Slot.memberOf (part a)) := by
  have hfields : ∀ m ∈ (first ++ last).filterMap (Slot.memberOf a),
      isField ((first ++ last).map Slot.field) (some m.1) = true := fun m => isField_of_mem
  have hgroup : ∀ m ∈ group.filterMap (Slot.memberOf (part a)),
      isField ((first ++ last).map Slot.field) (some m.1) = false := fun m => hl.not_isField
  rw [List.filterMap_append, List.forall_mem_append] at hfields
  simp only [openMembers, List.filterMap_append, List.filterMap_map, Function.id_comp,
    List.filter_append]
  constructor
  · rw [List.filter_eq_self.mpr hfields.1, List.filter_eq_self.mpr hfields.2,
      List.filter_eq_nil_iff.mpr fun m hm => by rw [hgroup m hm]; exact Bool.false_ne_true,
      List.append_nil]
  · rw [List.filter_eq_nil_iff.mpr fun m hm => by rw [hfields.1 m hm]; exact Bool.false_ne_true,
      List.filter_eq_self.mpr fun m hm => by rw [hgroup m hm]; rfl,
      List.filter_eq_nil_iff.mpr fun m hm => by rw [hfields.2 m hm]; exact Bool.false_ne_true,
      List.nil_append, List.append_nil]

omit hl in
/-- Members that fit can be read as free values. -/
theorem exists_readAs {room : ℕ} {ms : List (String × Value)} (h : ∀ m ∈ ms, m.2.Fits room) :
    ∃ values, ReadAs room (Value.memberNodes ms) values := by
  induction ms with
  | nil => exact ⟨[], .nil⟩
  | cons m ms ih =>
    obtain ⟨value, hvalue⟩ := Value.exists_ofNode (h m List.mem_cons_self)
    obtain ⟨values, hvalues⟩ := ih fun m' hm' => h m' (List.mem_cons_of_mem m hm')
    exact ⟨(m.1, value) :: values, .cons ⟨rfl, hvalue⟩ hvalues⟩

/-- **Open records.** A record with keywords is read back if its members are those of its slots and
keywords, and these are all of its parts. -/
theorem readOpenRecord_faithful {fields : List (RecordField α)}
    {members : α → List (Option (String × Value))}
    (hfields : fields = (first ++ last).map Slot.field)
    (hmembers : ∀ a, members a = openMembers first last group part a) :
    (readOpenRecord fields keywords initial empty join).Faithful fun a => objectOf (members a) := by
  subst hfields
  refine ⟨fun {_ _ a} h => ?_, fun _ _ => nofun, fun {_ _ a} h => ?_⟩
  · obtain ⟨inner, rfl, hkept, hgroup⟩ := hl.kept h
    -- the members of slots and of keywords are read apart, each kind in its own order
    obtain ⟨hslots, hothers⟩ := hl.filter_members a
    have hrecord := hl.describe.readMembers_written hkept (List.Subset.refl _) hl.describe.names
      hl.describe.apart (fun _ _ => List.not_mem_nil) hl.describe.get_initial
    have hkeywords := hl.describe_group.readMembers_written hgroup (List.Subset.refl _)
      hl.describe_group.names hl.describe_group.apart (fun _ _ => List.not_mem_nil)
      hl.describe_group.get_initial
    obtain ⟨values, hvalues⟩ := exists_readAs (fits_of_kept hgroup)
    rw [← readKeywords_eq hl.like hvalues, hl.whole_group] at hkeywords
    rw [← hslots, ← memberNodes_filter] at hrecord
    rw [← hothers, ← memberNodes_filter _ fun name => !isField _ name] at hvalues
    rw [hmembers, objectOf, Value.node, readOpenRecord, readOpenMembers_of hrecord hvalues]
    change (readKeywords keywords ([] ++ values) [] empty >>= fun k => pure (join _ k)) = _
    rw [List.nil_append, hkeywords]
    exact congrArg Except.ok (hl.whole a)
  · obtain ⟨inner, rfl, hkept, hgroup⟩ := hl.kept h
    have hslots := fits_of_kept hkept
    rw [List.filterMap_append, List.forall_mem_append] at hslots
    rw [hmembers, objectOf, Value.Fits]
    simp only [openMembers, List.filterMap_append, List.filterMap_map, Function.id_comp,
      List.forall_mem_append]
    exact ⟨⟨hslots.1, fits_of_kept hgroup⟩, hslots.2⟩

end Open

end ClientGen.Json
