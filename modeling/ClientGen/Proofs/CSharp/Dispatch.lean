import ClientGen.CSharp.Client
import ClientGen.Proofs.CSharp.CodeBlock
import ClientGen.Proofs.CSharp.Plan
import ClientGen.Proofs.Number.Natural
import ClientGen.Proofs.Resolve.WellFormed
import Mathlib.Data.List.Nodup

/-!
# Cases of status codes

A method answers a response with a switch over its status code. Three layers:

* **Keys** (`responseKeys_of_parse`): the responses of an operation are declared under keys that
  are distinct as texts, and their codes are what these keys are read as.
* **Cases** (`responseCases_codes`): there is one case for each response with a code, in order.
* **Lines** (`switchLabels_dispatch`): the labels of the switch are those of the cases, in order,
  and one for all other codes.

The cases have distinct codes exactly when the keys differ in their significant digits
(`dispatchesOnce_iff`). A document can declare one code twice: `200` and `+200` are two keys.
-/

namespace ClientGen

/-! ## Keys -/

/-- The keys of the responses that a document declares for a method of a path. -/
def Document.responseKeys? (doc : Document) (path : String) (method : Method) :
    Option (List String) := do
  let items ← doc.paths
  let item ← Table.get? items path
  let operation ← item.operation? method
  let responses ← operation.responses
  return responses.names

/-- The significant digits of the keys that stand for a code. -/
def significantKeys (keys : List String) : List (List Char) :=
  (keys.filter (· ≠ "default")).map fun key => Natural.significant key.toList

/-- A key is read as a status. -/
def ReadsAs (key : String) (status : Status) : Prop :=
  (key = "default" ∧ status = .default) ∨
    (key ≠ "default" ∧ ∃ code, Natural.parse? Natural.bound16 key.toList = some code ∧
      status = .code code)

theorem readsAs_of_resolveStatus {path key : String} {status : Status}
    (h : (resolveStatus path key).outcome = .ok status) : ReadsAs key status := by
  unfold resolveStatus at h
  split at h
  case isTrue hkey => exact .inl ⟨hkey, (pure_eq_ok h).symm⟩
  case isFalse hkey =>
    split at h
    case h_1 code hcode => exact .inr ⟨hkey, code, hcode, (pure_eq_ok h).symm⟩
    case h_2 => cases h

/-- A response has the status that it was resolved with, also when it is a shared one. -/
theorem ResponseObject.status_of_resolve {r : ResponseObject} {status : Status}
    {pool : Table Response} {path : String} {made : Response}
    (h : (r.resolve status pool path).outcome = .ok made) : made.status = status := by
  unfold resolve at h
  split at h
  · split at h
    · rw [← pure_eq_ok h]
    · cases h
  · simp only [resolveOwn, Checked.outcome_bind] at h
    obtain ⟨description, -, h⟩ := bind_eq_ok h
    obtain ⟨schema, -, h⟩ := bind_eq_ok h
    obtain ⟨headers, -, h⟩ := bind_eq_ok h
    rw [← pure_eq_ok h]

/-- Each response has the status that its key is read as. -/
theorem resolveResponses_statuses {pool : Table Response} {path : String}
    {rs : Table ResponseObject} {made : List Response}
    (h : (resolveResponses pool path rs).outcome = .ok made) :
    List.Forall₂ (fun key r => ReadsAs key r.status) rs.names made := by
  rw [resolveResponses, Checked.outcome_mapM] at h
  rw [Table.names, List.forall₂_map_left_iff]
  refine (mapM_eq_ok h).imp fun entry r hentry => ?_
  rw [Checked.outcome_bind] at hentry
  obtain ⟨status, hstatus, hresponse⟩ := bind_eq_ok hentry
  rw [ResponseObject.status_of_resolve hresponse]
  exact readsAs_of_resolveStatus hstatus

/-- **Keys.** An operation of a text has keys of its own, which are distinct as texts, and one
response for each of them. -/
theorem Specification.responseKeys_of_parse {sourceId text : String} {spec : Specification}
    (h : (Specification.parse sourceId text).outcome = .ok spec) {item : PathItem} {op : Operation}
    (hop : (item, op) ∈ spec.operations) :
    ∃ doc keys, Document.ofJson text = .ok doc ∧
      doc.responseKeys? item.path op.method = some keys ∧ keys.Nodup ∧
      List.Forall₂ (fun key r => ReadsAs key r.status) keys op.responses := by
  rw [Specification.parse, Checked.outcome_bind] at h
  obtain ⟨doc, hread, hresolve⟩ := bind_eq_ok h
  obtain ⟨_, hitem, hop⟩ := List.mem_flatMap.mp hop
  obtain ⟨_, hmem, heq⟩ := List.mem_map.mp hop
  obtain ⟨rfl, rfl⟩ := Prod.mk.inj heq
  obtain ⟨items, hitems, raw, hraw, hparts⟩ := (Document.resolve_parts hresolve).item_entry hitem
  obtain ⟨entry, hentry, hop⟩ := exists_left_of_forall₂ hparts.operations_made hmem
  obtain ⟨responses, hresponses, hmade⟩ := hop.responses
  obtain ⟨method, -, hmethod⟩ := List.mem_filterMap.mp hentry
  obtain ⟨o, ho, rfl⟩ := Option.map_eq_some_iff.mp hmethod
  -- the paths of a text are distinct, so that the item is the one that is found under its path
  obtain ⟨hnames, hkeys⟩ := Document.keyedPaths_of_ofJson hread items hitems
  refine ⟨doc, responses.names, hread, ?_, hkeys _ hraw method o ho responses hresponses,
    resolveResponses_statuses hmade⟩
  simp only at hresponses
  simp [Document.responseKeys?, hitems, Table.get?_of_mem hnames hraw, hop.method_eq, ho,
    hresponses]

/-- Two lists that are related member by member have distinct members together, if the relation
keeps members apart. -/
theorem nodup_iff_of_forall₂ {α β γ : Type} {R : α → β → Prop} {f : α → γ} {l : List α}
    {r : List β} (h : List.Forall₂ R l r)
    (hR : ∀ {a a' b b'}, R a b → R a' b' → (b = b' ↔ f a = f a')) : r.Nodup ↔ (l.map f).Nodup := by
  induction h with
  | nil => simp
  | @cons a b l r hab hall ih =>
    rw [List.map_cons, List.nodup_cons, List.nodup_cons, ih]
    refine and_congr_left fun _ => not_congr ⟨fun hb => ?_, fun ha => ?_⟩
    · obtain ⟨a', ha', hab'⟩ := exists_left_of_forall₂ hall hb
      exact List.mem_map.mpr ⟨a', ha', ((hR hab hab').mp rfl).symm⟩
    · obtain ⟨a', ha', heq⟩ := List.mem_map.mp ha
      obtain ⟨b', hb', hab'⟩ := exists_right_of_forall₂ hall ha'
      exact (hR hab hab').mpr heq.symm ▸ hb'

/-- The codes are read from the keys that stand for one. -/
theorem codes_of_readsAs {keys : List String} {responses : List Response}
    (h : List.Forall₂ (fun key r => ReadsAs key r.status) keys responses) :
    List.Forall₂ (fun key code => Natural.parse? Natural.bound16 key.toList = some code)
      (keys.filter (· ≠ "default")) (responses.filterMap (·.status.code?)) := by
  induction h with
  | nil => simp
  | @cons key r keys responses hreads _ ih =>
    rcases hreads with ⟨hkey, hstatus⟩ | ⟨hkey, code, hcode, hstatus⟩
    · rw [List.filter_cons_of_neg (by simpa using hkey),
        List.filterMap_cons_none (by rw [hstatus]; rfl)]
      exact ih
    · rw [List.filter_cons_of_pos (by simpa using hkey),
        List.filterMap_cons_some (by rw [hstatus]; rfl)]
      exact .cons hcode ih

/-- **Codes are distinct** exactly when the keys differ in their significant digits. -/
theorem nodup_codes_iff {keys : List String} {responses : List Response}
    (h : List.Forall₂ (fun key r => ReadsAs key r.status) keys responses) :
    (responses.filterMap (·.status.code?)).Nodup ↔ (significantKeys keys).Nodup :=
  nodup_iff_of_forall₂ (codes_of_readsAs h) Natural.parse?_eq_iff

namespace CSharp

/-! ## Cases -/

/-- **One case for each response with a code**, in order. -/
theorem responseCases_codes {spec : Specification} {op : Operation} {stem : String}
    {success : TypeRef} {cases : List ResponseCase}
    (h : (responseCases spec op stem success).outcome = .ok cases) :
    cases.map (·.code) = op.responses.filterMap (·.status.code?) := by
  have hcoded : op.codedResponses.map (·.1) = op.responses.filterMap (·.status.code?) := by
    rw [Operation.codedResponses, List.map_filterMap]
    congr 1
    funext r
    cases r.status <;> rfl
  rw [← hcoded]
  refine (Plan.Runs.mapM_inv ⟨h, rfl⟩).map_eq fun hcase => ?_
  obtain ⟨payload, -, rfl⟩ := Plan.Runs.bind_pure_inv hcase
  rfl

/-! ## Lines -/

/-- The label of the case of a code. -/
def caseLabel (code : ℕ) : String := "case " ++ toString code ++ ":"

/-- The label of the case of all other codes. -/
def defaultLabel : String := "default:"

/-- Does text open a case of a switch? -/
def isLabel (text : List Char) : Bool := "case ".toList <+: text ∨ text = defaultLabel.toList

/-- The labels of the cases that lines open, in order. -/
def switchLabels (lines : List String) : List (List Char) := (lines.map bareText).filter isLabel

theorem caseLabel_inj {code code' : ℕ} (h : (caseLabel code).toList = (caseLabel code').toList) :
    code = code' := by
  have hdigits : Nat.toDigits 10 code = Nat.toDigits 10 code' := by
    simpa [caseLabel, Nat.toList_repr] using h
  rw [← Nat.ofDigitChars_ten_toDigits (n := code), hdigits, Nat.ofDigitChars_ten_toDigits]

theorem isLabel_caseLabel (code : ℕ) : isLabel (caseLabel code).toList = true := by
  simp [isLabel, caseLabel]

theorem caseLabel_ne_defaultLabel (code : ℕ) :
    (caseLabel code).toList ≠ defaultLabel.toList := by
  simp [caseLabel, defaultLabel]

theorem isLabel_of_head? {text : List Char} {c : Char} (h : text.head? = some c)
    (hcase : c ≠ 'c') (hdefault : c ≠ 'd') : isLabel text = false := by
  cases text with
  | nil => cases h
  | cons d text =>
    obtain rfl : d = c := by simpa using h
    simp [isLabel, defaultLabel, Ne.symm hcase, hdefault]

/-- A line with other text opens no case. -/
theorem switchLabels_line {depth : ℕ} {text : String} {c : Char} (h : text.toList.head? = some c)
    (hblank : c ≠ ' ') (hcase : c ≠ 'c') (hdefault : c ≠ 'd') :
    switchLabels [indentation depth ++ text] = [] := by
  have hbare := bareText_indentation depth text (by simpa [h] using hblank)
  simp [switchLabels, hbare, isLabel_of_head? h hcase hdefault]

@[simp] theorem switchLabels_nil : switchLabels [] = [] := rfl

theorem switchLabels_append (lines lines' : List String) :
    switchLabels (lines ++ lines') = switchLabels lines ++ switchLabels lines' := by
  simp [switchLabels]

theorem switchLabels_cons (line : String) (lines : List String) :
    switchLabels (line :: lines) = switchLabels [line] ++ switchLabels lines :=
  switchLabels_append [line] lines

/-- A block in braces opens the case of its heading, and those of its body. -/
theorem switchLabels_braced (heading : String) (body : List Code) (depth : ℕ) :
    switchLabels ((Code.braced heading body).linesAt depth) =
      switchLabels [indentation depth ++ heading] ++
        switchLabels (Code.allLinesAt body (depth + 1)) := by
  have hopen : switchLabels [indentation depth ++ openBrace] = [] :=
    switchLabels_line (c := '{') rfl (by decide) (by decide) (by decide)
  have hclose : switchLabels [indentation depth ++ closeBrace] = [] :=
    switchLabels_line (c := '}') rfl (by decide) (by decide) (by decide)
  rw [Code.braced, Code.linesAt, switchLabels_append, switchLabels_append, switchLabels_cons,
    hopen, hclose, List.append_nil, List.append_nil]

/-- A line that returns an answer opens no case. -/
theorem switchLabels_return (depth : ℕ) (rest : String) :
    switchLabels [indentation depth ++ ("return APIResponse<" ++ rest)] = [] :=
  switchLabels_line (c := 'r') (by simp) (by decide) (by decide) (by decide)

theorem switchLabels_case (result : String) (c : ResponseCase) (depth : ℕ) :
    switchLabels ((caseCode result c).linesAt depth) = [(caseLabel c.code).toList] := by
  have hheading : switchLabels [indentation depth ++ caseLabel c.code] =
      [(caseLabel c.code).toList] := by
    have hbare := bareText_indentation depth (caseLabel c.code) (by simp [caseLabel])
    simp [switchLabels, hbare, isLabel_caseLabel]
  have hdata (depth : ℕ) (rest : String) :
      switchLabels [indentation depth ++
        ("var _data = JsonConvert.DeserializeObject<" ++ rest)] = [] :=
    switchLabels_line (c := 'v') (by simp) (by decide) (by decide) (by decide)
  unfold caseCode
  rw [switchLabels_braced, ← caseLabel, hheading]
  cases c.payload with
  | none => simp [Code.allLinesAt, Code.linesAt, String.append_assoc, switchLabels_return]
  | some payload =>
    simp only [Code.allLinesAt, Code.linesAt, String.append_assoc, List.append_nil,
      switchLabels_append, switchLabels_return, hdata]

/-- **The labels of a switch**: those of its cases in order, and the one of all other codes. -/
theorem switchLabels_dispatch (result : String) (cases : List ResponseCase) (depth : ℕ) :
    switchLabels ((dispatchCode result cases).linesAt depth) =
      cases.map (fun c => (caseLabel c.code).toList) ++ [defaultLabel.toList] := by
  have hswitch : switchLabels [indentation depth ++ "switch ((int)_response.StatusCode)"] = [] :=
    switchLabels_line (c := 's') (by simp) (by decide) (by decide) (by decide)
  have hcases : switchLabels (Code.allLinesAt (cases.map (caseCode result)) (depth + 1)) =
      cases.map fun c => (caseLabel c.code).toList := by
    induction cases with
    | nil => rfl
    | cons c cases ih =>
      rw [List.map_cons, Code.allLinesAt, switchLabels_append, switchLabels_case, ih,
        List.map_cons, List.singleton_append]
  have hdefault (depth : ℕ) : switchLabels [indentation depth ++ "default:"] =
      [defaultLabel.toList] := by
    have hbare := bareText_indentation depth "default:" (by simp)
    simp [switchLabels, hbare, isLabel, defaultLabel]
  unfold dispatchCode
  rw [switchLabels_braced, hswitch, List.nil_append, Code.allLinesAt_append, switchLabels_append,
    hcases, Code.allLinesAt, Code.allLinesAt, List.append_nil, switchLabels_braced, hdefault,
    Code.allLinesAt, Code.allLinesAt, Code.linesAt, List.append_nil, String.append_assoc,
    String.append_assoc, switchLabels_return, List.append_nil]

/-! ## One case for each code -/

/-- Lines open one case for each code, no case of another code, and one case for the rest. -/
structure OpensEach (codes : List ℕ) (lines : List String) : Prop where
  each : ∀ code ∈ codes, (lines.map bareText).count (caseLabel code).toList = 1
  others : ∀ text ∈ lines.map bareText, "case ".toList <+: text →
    ∃ code ∈ codes, text = (caseLabel code).toList
  rest : (lines.map bareText).count defaultLabel.toList = 1

/-- The cases of an operation have distinct codes, which are the declared ones, and the switch is
written with one case for each of them and one for the rest. -/
structure DispatchesOnce (op : Operation) (cases : List ResponseCase) : Prop where
  distinct : (cases.map (·.code)).Nodup
  declared : ∀ code, code ∈ cases.map (·.code) ↔ Status.code code ∈ op.responses.map (·.status)
  written : ∀ (result : String) (b : CodeBlock), ∃ lines,
    (CodeBlock.add (dispatchCode result cases) b).lines = b.lines ++ lines ∧
      OpensEach (cases.map (·.code)) lines

theorem mem_codes_iff (responses : List Response) (code : ℕ) :
    code ∈ responses.filterMap (·.status.code?) ↔ Status.code code ∈ responses.map (·.status) := by
  rw [List.mem_filterMap, List.mem_map]
  refine exists_congr fun r => and_congr_right fun _ => ?_
  cases r.status <;> simp [Status.code?]

/-- Labels with distinct codes open each case once. -/
theorem opensEach_of_switchLabels {cases : List ResponseCase} {lines : List String}
    (hlabels : switchLabels lines =
      cases.map (fun c => (caseLabel c.code).toList) ++ [defaultLabel.toList])
    (hdistinct : (cases.map (·.code)).Nodup) : OpensEach (cases.map (·.code)) lines := by
  have hmap : cases.map (fun c => (caseLabel c.code).toList) =
      (cases.map (·.code)).map fun code => (caseLabel code).toList := by
    rw [List.map_map]
    rfl
  rw [hmap] at hlabels
  have hnotDefault : defaultLabel.toList ∉
      (cases.map (·.code)).map fun code => (caseLabel code).toList := by
    intro hmem
    obtain ⟨code, -, heq⟩ := List.mem_map.mp hmem
    exact caseLabel_ne_defaultLabel code heq
  have hcount (label : List Char) (hlabel : isLabel label = true) :
      (lines.map bareText).count label = (switchLabels lines).count label :=
    (List.count_filter hlabel).symm
  have hnodup : (switchLabels lines).Nodup := by
    rw [hlabels, List.nodup_append]
    refine ⟨hdistinct.map fun code code' => caseLabel_inj, List.nodup_singleton _, ?_⟩
    intro label hlabel other hother heq
    exact hnotDefault (List.mem_singleton.mp hother ▸ heq ▸ hlabel)
  refine ⟨fun code hcode => ?_, fun text htext hcase => ?_, ?_⟩
  · rw [hcount _ (isLabel_caseLabel code)]
    refine List.count_eq_one_of_mem hnodup ?_
    rw [hlabels]
    exact List.mem_append_left _ (List.mem_map_of_mem hcode)
  · have hlabel : isLabel text = true := decide_eq_true (.inl hcase)
    have hmem : text ∈ switchLabels lines := List.mem_filter.mpr ⟨htext, hlabel⟩
    rw [hlabels, List.mem_append, List.mem_singleton] at hmem
    rcases hmem with hmem | rfl
    · obtain ⟨code, hcode, rfl⟩ := List.mem_map.mp hmem
      exact ⟨code, hcode, rfl⟩
    · simp [defaultLabel] at hcase
  · rw [hcount _ (by simp [isLabel])]
    refine List.count_eq_one_of_mem hnodup ?_
    rw [hlabels]
    exact List.mem_append_right _ (List.mem_singleton_self _)

/-- **One case for each code.** Whatever text is parsed, the cases of an operation have the codes of
its responses, in order, and so have the labels of the switch, with one for the rest at the end.
The codes are distinct, and the switch has one case for each of them, exactly when no two keys of
the responses agree once a plus sign and zeros in front are dropped; that they differ as texts is
not enough. -/
theorem dispatchesOnce_iff (sourceId text : String) (spec : Specification)
    (hparse : (Specification.parse sourceId text).outcome = .ok spec) (item : PathItem)
    (op : Operation) (hop : (item, op) ∈ spec.operations) (stem : String) (success : TypeRef)
    (cases : List ResponseCase)
    (hcases : (responseCases spec op stem success).outcome = .ok cases) :
    cases.map (·.code) = op.responses.filterMap (·.status.code?) ∧
      (∀ (result : String) (b : CodeBlock), ∃ lines,
        (CodeBlock.add (dispatchCode result cases) b).lines = b.lines ++ lines ∧
          switchLabels lines =
            cases.map (fun c => (caseLabel c.code).toList) ++ [defaultLabel.toList]) ∧
      ∃ doc keys, Document.ofJson text = .ok doc ∧
        doc.responseKeys? item.path op.method = some keys ∧ keys.Nodup ∧
        (DispatchesOnce op cases ↔ (significantKeys keys).Nodup) := by
  have hcodes := responseCases_codes hcases
  have hlines (result : String) (b : CodeBlock) : ∃ lines,
      (CodeBlock.add (dispatchCode result cases) b).lines = b.lines ++ lines ∧
        switchLabels lines =
          cases.map (fun c => (caseLabel c.code).toList) ++ [defaultLabel.toList] :=
    ⟨_, by rw [CodeBlock.add_eq], switchLabels_dispatch result cases b.depth⟩
  obtain ⟨doc, keys, hread, hkeys, hdistinct, hreads⟩ :=
    Specification.responseKeys_of_parse hparse hop
  refine ⟨hcodes, hlines, doc, keys, hread, hkeys, hdistinct, fun h => ?_, fun h => ?_⟩
  · rw [← nodup_codes_iff hreads, ← hcodes]
    exact h.distinct
  · rw [← nodup_codes_iff hreads, ← hcodes] at h
    refine ⟨h, fun code => ?_, fun result b => ?_⟩
    · rw [hcodes, mem_codes_iff]
    · obtain ⟨lines, hwritten, hlabels⟩ := hlines result b
      exact ⟨lines, hwritten, opensEach_of_switchLabels hlabels h⟩

/-- A text with one operation, whose responses have the given keys. -/
def textWithKeys (key key' : String) : String :=
  "\x7b\"swagger\":\"2.0\",\"info\":\x7b\"title\":\"T\",\"version\":\"1\"\x7d," ++
  "\"paths\":\x7b\"/\":\x7b\"get\":\x7b\"responses\":\x7b\"" ++ key ++
  "\":\x7b\"description\":\"\"\x7d,\"" ++ key' ++
  "\":\x7b\"description\":\"\"\x7d\x7d\x7d\x7d\x7d\x7d"

/-- The operations of a text, each with the keys of its responses and the codes of its cases. -/
def caseCodes (text : String) : Option (List (Option (List String) × Option (List ℕ))) := do
  let doc ← (Document.ofJson text).toOption
  let spec ← (doc.resolve "t.json").outcome.toOption
  return spec.operations.map fun entry =>
    (doc.responseKeys? entry.1.path entry.2.method,
      (responseCases spec entry.2 "Get" (.reference noContent)).outcome.toOption.map
        (·.map (·.code)))

/-- The one operation of a text with its cases. -/
theorem exists_of_caseCodes {text : String} {keys : List String} {codes : List ℕ}
    (h : caseCodes text = some [(some keys, some codes)]) :
    ∃ doc spec item op cases, Document.ofJson text = .ok doc ∧
      (Specification.parse "t.json" text).outcome = .ok spec ∧ (item, op) ∈ spec.operations ∧
      doc.responseKeys? item.path op.method = some keys ∧
      (responseCases spec op "Get" (.reference noContent)).outcome = .ok cases ∧
      cases.map (·.code) = codes := by
  obtain ⟨doc, hread, h⟩ := Option.bind_eq_some_iff.mp h
  obtain ⟨spec, hspec, h⟩ := Option.bind_eq_some_iff.mp h
  obtain ⟨⟨item, op⟩, hop, hentry⟩ := List.map_eq_singleton_iff.mp (Option.some.inj h)
  obtain ⟨hkeys, hcodes⟩ := Prod.mk.inj hentry
  obtain ⟨cases, hcases, hcodes⟩ := Option.map_eq_some_iff.mp hcodes
  have hread := eq_ok_of_toOption hread
  have hparse : (Specification.parse "t.json" text).outcome = .ok spec := by
    rw [Specification.parse, Checked.outcome_bind, Checked.outcome_ofExcept, hread]
    exact eq_ok_of_toOption hspec
  exact ⟨doc, spec, item, op, cases, hread, hparse, hop ▸ List.mem_singleton_self _, hkeys,
    eq_ok_of_toOption hcases, hcodes⟩

/-- A key with a zero in front, and the rest: there is one case for the code. -/
theorem dispatchesOnce_iff_padded :
    ∃ spec item op cases,
      (Specification.parse "t.json" (textWithKeys "0200" "default")).outcome = .ok spec ∧
      (item, op) ∈ spec.operations ∧
      (responseCases spec op "Get" (.reference noContent)).outcome = .ok cases ∧
      cases.map (·.code) = [200] ∧ DispatchesOnce op cases := by
  have hcodes : caseCodes (textWithKeys "0200" "default") =
      some [(some ["0200", "default"], some [200])] := by
    decide +kernel
  obtain ⟨doc, spec, item, op, cases, hread, hparse, hop, hkeys, hcases, hcodes⟩ :=
    exists_of_caseCodes hcodes
  obtain ⟨-, -, doc', keys, hread', hkeys', -, honce⟩ :=
    dispatchesOnce_iff "t.json" _ spec hparse item op hop "Get" (.reference noContent) cases hcases
  obtain rfl := Except.ok.inj (hread.symm.trans hread')
  obtain rfl := Option.some.inj (hkeys.symm.trans hkeys')
  exact ⟨spec, item, op, cases, hparse, hop, hcases, hcodes, honce.mpr (by decide)⟩

/-- **One code under two keys**: the text is accepted, and there are two cases for the code. -/
theorem not_dispatchesOnce_signed :
    ∃ spec item op cases,
      (Specification.parse "t.json" (textWithKeys "200" "+200")).outcome = .ok spec ∧
      (item, op) ∈ spec.operations ∧
      (responseCases spec op "Get" (.reference noContent)).outcome = .ok cases ∧
      cases.map (·.code) = [200, 200] ∧ ¬ DispatchesOnce op cases := by
  have hcodes : caseCodes (textWithKeys "200" "+200") =
      some [(some ["200", "+200"], some [200, 200])] := by
    decide +kernel
  obtain ⟨-, spec, item, op, cases, -, hparse, hop, -, hcases, hcodes⟩ := exists_of_caseCodes hcodes
  refine ⟨spec, item, op, cases, hparse, hop, hcases, hcodes, fun h => ?_⟩
  have hdistinct := h.distinct
  rw [hcodes] at hdistinct
  exact absurd hdistinct (by decide)

end CSharp

end ClientGen
