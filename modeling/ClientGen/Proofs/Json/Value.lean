import Mathlib.Data.String.Basic
import ClientGen.Json.Reader
import ClientGen.Proofs.Json.Token
import ClientGen.Proofs.Outcome

/-!
# Reading written values

* `parse_compact`: the text of a value says exactly the node of the value, and nothing follows it.
* `Value.ofNode_eq_ok`: reading a free value gives a value that reads back as itself, from its own
  node and with the same room. Members are in the order of their names by then, and putting them in
  order again changes nothing.
-/

namespace ClientGen.Json

/-! ## Nodes -/

mutual

/-- What the text of a value says. -/
def Value.node : Value → Node
  | .null => .null
  | .bool b => .bool b
  | .number n => .number n.numeral
  | .text s => .text (some s)
  | .array vs => .array (Value.itemNodes vs) .closed
  | .object ms => .object (Value.memberNodes ms) .closed
termination_by structural v => v

/-- What the texts of several values say. -/
def Value.itemNodes : List Value → List Node
  | [] => []
  | v :: vs => v.node :: Value.itemNodes vs
termination_by structural vs => vs

/-- What the texts of several members say. -/
def Value.memberNodes : List (String × Value) → List (Option String × Node)
  | [] => []
  | (k, v) :: ms => (some k, v.node) :: Value.memberNodes ms
termination_by structural ms => ms

end

theorem Value.itemNodes_eq (vs : List Value) : Value.itemNodes vs = vs.map Value.node := by
  induction vs with
  | nil => rfl
  | cons v vs ih => rw [Value.itemNodes, ih, List.map_cons]

theorem Value.memberNodes_eq (ms : List (String × Value)) :
    Value.memberNodes ms = ms.map fun m => (some m.1, m.2.node) := by
  induction ms with
  | nil => rfl
  | cons m ms ih => rw [Value.memberNodes, ih, List.map_cons]

/-- Goes on with the tokens after a move. -/
def Move.resume (rest : List Token) : Move → Node × List Token
  | .go stack expected => build stack expected rest
  | .done node => (node, rest)

/-- No value begins with a closing bracket. -/
theorem build_firstItem (v : Value) (stack : List Frame) (rest : List Token) :
    build stack .firstItem (v.tokens ++ rest) = build stack .value (v.tokens ++ rest) := by
  cases v with
  | null => rfl
  | bool b => rfl
  | number n => rfl
  | text s => rfl
  | array vs => cases vs <;> rfl
  | object ms => cases ms <;> rfl

mutual

/-- The tokens of a value complete its node. -/
theorem build_tokens (v : Value) (stack : List Frame) (rest : List Token) :
    build stack .value (v.tokens ++ rest) = (Move.complete v.node stack).resume rest := by
  match v with
  | .null => cases stack <;> rfl
  | .bool b => cases stack <;> rfl
  | .number n => cases stack <;> rfl
  | .text s => cases stack <;> rfl
  | .array [] => cases stack <;> rfl
  | .array (v :: vs) =>
    simp only [Value.tokens, List.cons_append, List.append_assoc, List.nil_append]
    change build (.array [] :: stack) .firstItem _ = _
    rw [build_firstItem, build_tokens v]
    exact build_itemTokens vs [v.node] stack rest
  | .object [] => cases stack <;> rfl
  | .object ((k, v) :: ms) =>
    simp only [Value.tokens, List.cons_append, List.append_assoc, List.nil_append]
    change build (.object [] (some k) :: stack) .value _ = _
    rw [build_tokens v]
    exact build_memberTokens ms [(some k, v.node)] stack rest
termination_by structural v

/-- The items after the first complete the array. -/
theorem build_itemTokens (vs : List Value) (items : List Node) (stack : List Frame)
    (rest : List Token) :
    build (.array items :: stack) .next (Value.itemTokens vs ++ .closeArray :: rest) =
      (Move.complete (.array (items.reverse ++ Value.itemNodes vs) .closed) stack).resume rest := by
  match vs with
  | [] =>
    rw [Value.itemNodes, List.append_nil]
    cases stack <;> rfl
  | v :: vs =>
    simp only [Value.itemTokens, List.cons_append, List.append_assoc]
    change build (.array items :: stack) .value _ = _
    rw [build_tokens v]
    change build (.array (v.node :: items) :: stack) .next _ = _
    rw [build_itemTokens vs, List.reverse_cons, List.append_assoc]
    rfl
termination_by structural vs

/-- The members after the first complete the object. -/
theorem build_memberTokens (ms : List (String × Value)) (members : List (Option String × Node))
    (stack : List Frame) (rest : List Token) :
    build (.object members none :: stack) .next (Value.memberTokens ms ++ .closeObject :: rest) =
      (Move.complete (.object (members.reverse ++ Value.memberNodes ms) .closed) stack).resume
        rest := by
  match ms with
  | [] =>
    rw [Value.memberNodes, List.append_nil]
    cases stack <;> rfl
  | (k, v) :: ms =>
    simp only [Value.memberTokens, List.cons_append, List.append_assoc]
    change build (.object members (some k) :: stack) .value _ = _
    rw [build_tokens v]
    change build (.object ((some k, v.node) :: members) none :: stack) .next _ = _
    rw [build_memberTokens ms, List.reverse_cons, List.append_assoc]
    rfl
termination_by structural ms

end

/-- The text of a value says its node, and nothing after it. -/
theorem parse_compact {room : ℕ} {v : Value} (h : v.Fits room) :
    parse v.compact = (v.node, []) := by
  have hbuild := build_tokens v [] []
  rw [List.append_nil] at hbuild
  rw [parse, tokenize_compact h, hbuild]
  rfl

/-! ## Members in order -/

/-- The names of the members grow. -/
def SortedMembers (ms : List (String × Value)) : Prop := ms.Pairwise fun m m' => m.1 < m'.1

theorem mem_putSorted {name : String} {value : Value} {ms : List (String × Value)}
    {m : String × Value} (h : m ∈ putSorted name value ms) : m = (name, value) ∨ m ∈ ms := by
  fun_induction putSorted name value ms with
  | case1 => exact .inl (List.mem_singleton.mp h)
  | case2 v ms => exact (List.mem_cons.mp h).imp_right (List.mem_cons_of_mem _)
  | case3 n v ms => exact List.mem_cons.mp h
  | case4 n v ms _ _ ih =>
    rcases List.mem_cons.mp h with rfl | h
    · exact .inr List.mem_cons_self
    · exact (ih h).imp_right (List.mem_cons_of_mem _)

theorem sortedMembers_putSorted (name : String) (value : Value) {ms : List (String × Value)}
    (h : SortedMembers ms) : SortedMembers (putSorted name value ms) := by
  fun_induction putSorted name value ms with
  | case1 => exact List.pairwise_singleton _ _
  | case2 v ms => exact List.pairwise_cons.mpr (List.pairwise_cons.mp h)
  | case3 n v ms _ hlt =>
    refine List.pairwise_cons.mpr ⟨fun m hm => ?_, h⟩
    rcases List.mem_cons.mp hm with rfl | hm
    · exact hlt
    · exact hlt.trans ((List.pairwise_cons.mp h).1 m hm)
  | case4 n v ms hne hle ih =>
    obtain ⟨hfirst, hrest⟩ := List.pairwise_cons.mp h
    refine List.pairwise_cons.mpr ⟨fun m hm => ?_, ih hrest⟩
    rcases mem_putSorted hm with rfl | hm
    · exact lt_of_le_of_ne (not_lt.mp hle) (Ne.symm hne)
    · exact hfirst m hm

/-- A name after all others comes last. -/
theorem putSorted_eq_append {name : String} (value : Value) {ms : List (String × Value)}
    (h : ∀ m ∈ ms, m.1 < name) : putSorted name value ms = ms ++ [(name, value)] := by
  induction ms with
  | nil => rfl
  | cons m ms ih =>
    have hlt := h m List.mem_cons_self
    rw [putSorted, if_neg hlt.ne', if_neg hlt.asymm,
      ih fun m' hm' => h m' (List.mem_cons_of_mem m hm'), List.cons_append]

theorem mem_sortMembers {l : List (String × Value)} {m : String × Value} (h : m ∈ sortMembers l) :
    m ∈ l := by
  have step : ∀ (l acc : List (String × Value)),
      m ∈ l.foldl (fun ms member => putSorted member.1 member.2 ms) acc → m ∈ acc ∨ m ∈ l := by
    intro l
    induction l with
    | nil => exact fun acc h => .inl h
    | cons m' l ih =>
      intro acc h
      rcases ih _ h with h | h
      · rcases mem_putSorted h with rfl | h
        · exact .inr List.mem_cons_self
        · exact .inl h
      · exact .inr (List.mem_cons_of_mem m' h)
  exact (step l [] h).resolve_left List.not_mem_nil

theorem sortedMembers_sortMembers (l : List (String × Value)) : SortedMembers (sortMembers l) := by
  unfold sortMembers
  exact List.foldlRecOn l _ List.Pairwise.nil fun ms h m _ => sortedMembers_putSorted m.1 m.2 h

/-- Members in order are left as they are. -/
theorem sortMembers_of_sorted {l : List (String × Value)} (h : SortedMembers l) :
    sortMembers l = l := by
  induction l using List.reverseRecOn with
  | nil => rfl
  | append_singleton l m ih =>
    obtain ⟨hl, -, hlast⟩ := List.pairwise_append.mp h
    rw [sortMembers, List.foldl_append, ← sortMembers, ih hl]
    exact putSorted_eq_append m.2 fun m' hm' => hlast m' hm' m (List.mem_singleton_self m)

/-! ## Free values -/

/-- Reads a member with its key. -/
def Reader.entry {α : Type} (r : Reader α) (room : ℕ) (m : Option String × Node) :
    Except Fault (String × α) := do
  let key ← checkKey m.1
  return (key, ← r room m.2)

theorem Reader.entry_eq_ok {α : Type} {r : Reader α} {room : ℕ} {m : Option String × Node}
    {e : String × α} : r.entry room m = .ok e ↔ m.1 = some e.1 ∧ r room m.2 = .ok e.2 := by
  obtain ⟨key, node⟩ := m
  obtain ⟨name, a⟩ := e
  constructor
  · intro h
    obtain ⟨k, hk, h⟩ := bind_eq_ok h
    obtain ⟨b, hb, h⟩ := bind_eq_ok h
    obtain ⟨rfl, rfl⟩ := Prod.mk.inj (pure_eq_ok h)
    cases key with
    | none => cases hk
    | some key => exact ⟨congrArg some (Except.ok.inj hk), hb⟩
  · rintro ⟨rfl, ha⟩
    dsimp only at ha
    rw [Reader.entry, ha]
    rfl

theorem Ending.check_eq_ok {ending : Ending} (h : ending.check = .ok ()) : ending = .closed := by
  cases ending with
  | closed => rfl
  | cut strict lenient => cases h

/-- Inversion for arrays. -/
theorem Value.ofNode_array {room : ℕ} {items : List Node} {ending : Ending} {v : Value}
    (h : Value.ofNode room (.array items ending) = .ok v) : ∃ inner values, room = inner + 1 ∧
      ending = .closed ∧ v = .array values ∧ items.mapM (Value.ofNode inner) = .ok values := by
  obtain _ | inner := room
  · cases h
  · obtain ⟨values, hvalues, h⟩ := bind_eq_ok h
    obtain ⟨⟨⟩, hending, h⟩ := bind_eq_ok h
    exact ⟨inner, values, rfl, Ending.check_eq_ok hending, (pure_eq_ok h).symm, hvalues⟩

/-- Inversion for objects. -/
theorem Value.ofNode_object {room : ℕ} {members : List (Option String × Node)} {ending : Ending}
    {v : Value} (h : Value.ofNode room (.object members ending) = .ok v) : ∃ inner entries,
      room = inner + 1 ∧ ending = .closed ∧ v = .object (sortMembers entries) ∧
      members.mapM (Reader.entry Value.ofNode inner) = .ok entries := by
  obtain _ | inner := room
  · cases h
  · obtain ⟨entries, hentries, h⟩ := bind_eq_ok h
    obtain ⟨⟨⟩, hending, h⟩ := bind_eq_ok h
    exact ⟨inner, entries, rfl, Ending.check_eq_ok hending, (pure_eq_ok h).symm, hentries⟩

/-- An array of values that read back as themselves does so too. -/
theorem Value.ofNode_array_node {room : ℕ} {vs : List Value}
    (h : ∀ v ∈ vs, Value.ofNode room v.node = .ok v) :
    Value.ofNode (room + 1) (Value.array vs).node = .ok (.array vs) := by
  have hitems : (Value.itemNodes vs).mapM (Value.ofNode room) = .ok vs := by
    rw [Value.itemNodes_eq]
    exact mapM_of_forall₂ (List.forall₂_map_left_iff.mpr (List.forall₂_same.mpr h))
  rw [Value.node, Value.ofNode, hitems]
  rfl

/-- The members of an object of values that can be read are read. -/
theorem Value.mapM_memberNodes {α : Type} {r : Reader α} {room : ℕ} {ms : List (String × Value)}
    {es : List (String × α)}
    (h : List.Forall₂ (fun m e => m.1 = e.1 ∧ r room m.2.node = .ok e.2) ms es) :
    (Value.memberNodes ms).mapM (r.entry room) = .ok es := by
  rw [Value.memberNodes_eq]
  refine mapM_of_forall₂ (List.forall₂_map_left_iff.mpr (h.imp fun m e hm => ?_))
  exact Reader.entry_eq_ok.mpr ⟨congrArg some hm.1, hm.2⟩

theorem Value.ofNode_object_eq (room : ℕ) (members : List (Option String × Node)) :
    Value.ofNode (room + 1) (.object members .closed) =
      (members.mapM (Reader.entry Value.ofNode room)).map fun entries =>
        .object (sortMembers entries) := by
  change (members.mapM (Reader.entry Value.ofNode room) >>= _) = _
  cases members.mapM (Reader.entry Value.ofNode room) <;> rfl

/-- A number that is the value of some numeral is read from its own spelling. -/
theorem Value.ofNode_number {n : Number} (h : n.Sound) (room : ℕ) :
    (Value.number n).Fits room ∧ Value.ofNode room (Value.number n).node = .ok (.number n) := by
  obtain ⟨-, -, -, hvalue⟩ := Number.reads_render h
  exact ⟨by rwa [Value.Fits], by rw [Value.node, Value.ofNode, hvalue]⟩

/-- A free value that was read is read again from its own node, as the same value. -/
theorem Value.ofNode_eq_ok {room : ℕ} {node : Node} {v : Value}
    (h : Value.ofNode room node = .ok v) :
    Value.ofNode room v.node = .ok v ∧ v.Fits room := by
  induction room using Nat.strongRecOn generalizing node v with
  | ind room ih =>
    cases node with
    | null =>
      rw [Value.ofNode] at h
      cases h
      exact ⟨by rw [Value.node, Value.ofNode], by rw [Value.Fits]; trivial⟩
    | bool b =>
      rw [Value.ofNode] at h
      cases h
      exact ⟨by rw [Value.node, Value.ofNode], by rw [Value.Fits]; trivial⟩
    | number n =>
      rw [Value.ofNode] at h
      split at h
      case h_1 number hnumber =>
        cases h
        exact (Value.ofNode_number (Number.sound_of_value? hnumber) room).symm
      case h_2 => cases h
    | text content =>
      cases content with
      | none =>
        rw [Value.ofNode] at h
        cases h
      | some s =>
        rw [Value.ofNode] at h
        cases h
        exact ⟨by rw [Value.node, Value.ofNode], by rw [Value.Fits]; trivial⟩
    | broken strict lenient =>
      rw [Value.ofNode] at h
      cases h
    | array items ending =>
      obtain ⟨inner, values, rfl, rfl, rfl, hvalues⟩ := Value.ofNode_array h
      have hall : ∀ v ∈ values, Value.ofNode inner v.node = .ok v ∧ v.Fits inner := by
        intro v hv
        obtain ⟨item, -, hitem⟩ := exists_of_mem_mapM hvalues hv
        exact ih inner (Nat.lt_succ_self inner) hitem
      exact ⟨Value.ofNode_array_node fun v hv => (hall v hv).1, fun v hv => (hall v hv).2⟩
    | object members ending =>
      obtain ⟨inner, entries, rfl, rfl, rfl, hentries⟩ := Value.ofNode_object h
      have hall : ∀ m ∈ sortMembers entries,
          Value.ofNode inner m.2.node = .ok m.2 ∧ m.2.Fits inner := by
        intro m hm
        obtain ⟨member, -, hmember⟩ := exists_of_mem_mapM hentries (mem_sortMembers hm)
        exact ih inner (Nat.lt_succ_self inner) (Reader.entry_eq_ok.mp hmember).2
      -- the members were put in order when they were read, so this is done again to no effect
      refine ⟨?_, fun m hm => (hall m hm).2⟩
      rw [Value.node, Value.ofNode_object_eq, Value.mapM_memberNodes
        (List.forall₂_same.mpr fun m hm => ⟨rfl, (hall m hm).1⟩)]
      rw [Except.map, sortMembers_of_sorted (sortedMembers_sortMembers entries)]

/-- Only `null` is read as `null`. -/
theorem Value.eq_null_of_ofNode {room : ℕ} {node : Node} (h : Value.ofNode room node = .ok .null) :
    node = .null := by
  cases node with
  | null => rfl
  | bool b => rw [Value.ofNode] at h; cases h
  | number n =>
    rw [Value.ofNode] at h
    split at h <;> cases h
  | text content => cases content <;> (rw [Value.ofNode] at h; cases h)
  | broken strict lenient => rw [Value.ofNode] at h; cases h
  | array items ending =>
    obtain ⟨_, _, _, _, hnull, _⟩ := Value.ofNode_array h
    cases hnull
  | object members ending =>
    obtain ⟨_, _, _, _, hnull, _⟩ := Value.ofNode_object h
    cases hnull

/-- A value that fits can be read, though its members may be put in another order. -/
theorem Value.exists_ofNode : ∀ {room : ℕ} {v : Value}, v.Fits room →
    ∃ w, Value.ofNode room v.node = .ok w
  | _, .null, _ => ⟨.null, by rw [Value.node, Value.ofNode]⟩
  | _, .bool b, _ => ⟨.bool b, by rw [Value.node, Value.ofNode]⟩
  | _, .text s, _ => ⟨.text s, by rw [Value.node, Value.ofNode]⟩
  | _, .number n, h => by
    rw [Value.Fits] at h
    exact ⟨.number n, (Value.ofNode_number h _).2⟩
  | room + 1, .array vs, h => by
    obtain ⟨ws, hws⟩ : ∃ ws, (Value.itemNodes vs).mapM (Value.ofNode room) = .ok ws := by
      rw [Value.itemNodes_eq]
      exact exists_mapM_eq_ok (List.forall_mem_map.mpr fun v hv => exists_ofNode (h v hv))
    exact ⟨.array ws, by rw [Value.node, Value.ofNode, hws]; rfl⟩
  | room + 1, .object ms, h => by
    obtain ⟨es, hes⟩ : ∃ es,
        (Value.memberNodes ms).mapM (Reader.entry Value.ofNode room) = .ok es := by
      rw [Value.memberNodes_eq]
      refine exists_mapM_eq_ok (List.forall_mem_map.mpr fun m hm => ?_)
      obtain ⟨w, hw⟩ := exists_ofNode (h m hm)
      exact ⟨(m.1, w), Reader.entry_eq_ok.mpr ⟨rfl, hw⟩⟩
    exact ⟨.object (sortMembers es), by rw [Value.node, Value.ofNode_object_eq, hes, Except.map]⟩

end ClientGen.Json
