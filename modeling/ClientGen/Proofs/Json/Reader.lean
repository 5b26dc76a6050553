import ClientGen.Document.Printer
import ClientGen.Proofs.Json.Value

/-!
# Reading what was written

`Reader.Faithful r write` says that the reader `r` and the writer `write` belong together: whatever
`r` has read is written as a value that `r` reads as the same again. The reader need not accept
everything that is written; nor need a text be written as it was read.

Faithfulness passes from the readers of the parts to the readers of lists and tables, and from the
reader of a value to whole texts (`decode_compact`).
-/

namespace ClientGen.Json

variable {α : Type}

/-- **Reading back.** What the reader has read is written as a value that it reads as the same
again, with the same room. -/
structure Reader.Faithful (r : Reader α) (write : α → Value) : Prop where
  /-- what was read is read again from what is written -/
  again : ∀ {room : ℕ} {node : Node} {a : α}, r room node = .ok a → r room (write a).node = .ok a
  /-- `null` is written only for what was read from it -/
  ne_null : ∀ {room : ℕ} {node : Node} {a : α}, r room node = .ok a → node ≠ .null →
    write a ≠ .null
  /-- what is written can be read as a free value, too -/
  fits : ∀ {room : ℕ} {node : Node} {a : α}, r room node = .ok a → (write a).Fits room

theorem Value.node_ne_null {v : Value} (h : v ≠ .null) : v.node ≠ .null := by
  cases v with
  | null => exact absurd rfl h
  | bool b => exact nofun
  | number n => exact nofun
  | text s => exact nofun
  | array vs => exact nofun
  | object ms => exact nofun

namespace Reader

theorem text_faithful : Faithful .text Value.text where
  again _ := by rw [Value.node, Reader.text]
  ne_null _ _ := nofun
  fits _ := by rw [Value.Fits]; trivial

theorem bool_faithful : Faithful .bool Value.bool where
  again _ := by rw [Value.node, Reader.bool]
  ne_null _ _ := nofun
  fits _ := by rw [Value.Fits]; trivial

theorem value_faithful : Faithful .value id where
  again h := (Value.ofNode_eq_ok h).1
  fits h := (Value.ofNode_eq_ok h).2
  ne_null h hnode hv := by
    obtain rfl : _ = Value.null := hv
    exact hnode (Value.eq_null_of_ofNode h)

/-- Inversion for what may be `null`. -/
theorem optional_eq_some {r : Reader α} {room : ℕ} {node : Node} {a : α}
    (h : Reader.optional r room node = .ok (some a)) : node ≠ .null ∧ r room node = .ok a := by
  unfold Reader.optional at h
  split at h
  · cases h
  case h_2 hnode =>
    obtain ⟨a', ha, heq⟩ := map_eq_ok h
    obtain rfl := Option.some.inj heq
    exact ⟨hnode, ha⟩

theorem optional_of_ne_null {r : Reader α} {room : ℕ} {node : Node} (h : node ≠ .null) :
    Reader.optional r room node = some <$> r room node := by
  unfold Reader.optional
  split
  · exact absurd rfl h
  · rfl

/-- Inversion for lists. -/
theorem list_eq_ok {r : Reader α} {room : ℕ} {node : Node} {values : List α}
    (h : list r room node = .ok values) : ∃ inner items, room = inner + 1 ∧
      node = .array items .closed ∧ items.mapM (r inner) = .ok values := by
  unfold Reader.list at h
  split at h
  · cases h
  case h_2 inner items ending =>
    obtain ⟨vs, hvs, h⟩ := bind_eq_ok h
    obtain ⟨⟨⟩, hending, h⟩ := bind_eq_ok h
    rw [Ending.check_eq_ok hending, ← pure_eq_ok h]
    exact ⟨inner, items, rfl, rfl, hvs⟩
  · cases h

theorem list_of_mapM {r : Reader α} {room : ℕ} {items : List Node} {values : List α}
    (h : items.mapM (r room) = .ok values) :
    list r (room + 1) (.array items .closed) = .ok values := by
  rw [Reader.list, h]
  rfl

theorem list_faithful {r : Reader α} {write : α → Value} (hr : r.Faithful write) :
    Faithful (.list r) fun values => .array (values.map write) where
  again h := by
    obtain ⟨inner, items, rfl, rfl, hvalues⟩ := list_eq_ok h
    rw [Value.node, Value.itemNodes_eq, List.map_map]
    refine list_of_mapM (mapM_of_forall₂ (List.forall₂_map_left_iff.mpr
      (List.forall₂_same.mpr fun a ha => ?_)))
    obtain ⟨item, -, hitem⟩ := exists_of_mem_mapM hvalues ha
    exact hr.again hitem
  ne_null _ _ := nofun
  fits h := by
    obtain ⟨inner, items, rfl, rfl, hvalues⟩ := list_eq_ok h
    rw [Value.Fits, List.forall_mem_map]
    intro a ha
    obtain ⟨item, -, hitem⟩ := exists_of_mem_mapM hvalues ha
    exact hr.fits hitem

/-- Inversion for tables. -/
theorem table_eq_ok {r : Reader α} {room : ℕ} {node : Node} {t : Table α}
    (h : table r room node = .ok t) : ∃ inner members entries, room = inner + 1 ∧
      node = .object members .closed ∧ members.mapM (r.entry inner) = .ok entries ∧
      t = Table.ofEntries entries := by
  unfold Reader.table at h
  split at h
  · cases h
  case h_2 inner members ending =>
    obtain ⟨entries, hentries, h⟩ := bind_eq_ok h
    obtain ⟨⟨⟩, hending, h⟩ := bind_eq_ok h
    rw [Ending.check_eq_ok hending, ← pure_eq_ok h]
    exact ⟨inner, members, entries, rfl, rfl, hentries, rfl⟩
  · cases h

theorem table_of_mapM {r : Reader α} {room : ℕ} {members : List (Option String × Node)}
    {entries : List (String × α)} (h : members.mapM (r.entry room) = .ok entries) :
    table r (room + 1) (.object members .closed) = .ok (Table.ofEntries entries) := by
  change members.mapM (r.entry room) >>= _ = _
  rw [h]
  rfl

/-- A table has distinct names, and each of its entries was read. -/
theorem table_entries {r : Reader α} {room : ℕ} {node : Node} {t : Table α}
    (h : table r room node = .ok t) : t.names.Nodup ∧
      ∃ inner, room = inner + 1 ∧ ∀ e ∈ t, ∃ node, r inner node = .ok e.2 := by
  obtain ⟨inner, members, entries, rfl, rfl, hentries, rfl⟩ := table_eq_ok h
  refine ⟨Table.nodup_names_ofEntries entries, inner, rfl, fun e he => ?_⟩
  obtain ⟨member, -, hmember⟩ := exists_of_mem_mapM hentries (Table.mem_ofEntries he)
  exact ⟨member.2, (entry_eq_ok.mp hmember).2⟩

theorem table_faithful {r : Reader α} {write : α → Value} (hr : r.Faithful write) :
    Faithful (.table r) (tableValue write) where
  again {_ _ t} h := by
    obtain ⟨hnames, inner, rfl, hall⟩ := table_entries h
    have hentries : (Value.memberNodes (t.map fun e => (e.1, write e.2))).mapM (r.entry inner) =
        .ok t := by
      refine Value.mapM_memberNodes (List.forall₂_map_left_iff.mpr
        (List.forall₂_same.mpr fun e he => ⟨rfl, ?_⟩))
      obtain ⟨node, hnode⟩ := hall e he
      exact hr.again hnode
    -- the names are distinct by now, so no entry takes the place of another
    have hagain := table_of_mapM hentries
    rwa [Table.ofEntries_eq_self hnames] at hagain
  ne_null _ _ := nofun
  fits {_ _ t} h := by
    obtain ⟨-, inner, rfl, hall⟩ := table_entries h
    rw [tableValue, Value.Fits, List.forall_mem_map]
    intro e he
    obtain ⟨node, hnode⟩ := hall e he
    exact hr.fits hnode

end Reader

theorem decode_eq_ok {r : Reader α} {text : String} {a : α} (h : decode r text = .ok a) :
    r maxDepth (parse text).1 = .ok a := by
  obtain ⟨a', ha, h⟩ := bind_eq_ok h
  split at h
  · exact pure_eq_ok h ▸ ha
  · cases h

/-- **Texts.** What was read from a text is read again from its compact text. -/
theorem decode_compact {r : Reader α} {write : α → Value} (hr : r.Faithful write) {text : String}
    {a : α} (h : decode r text = .ok a) : decode r (write a).compact = .ok a := by
  have hread := decode_eq_ok h
  rw [decode, parse_compact (hr.fits hread)]
  dsimp only
  rw [hr.again hread]
  rfl

end ClientGen.Json
