import ClientGen.Proofs.CSharp.CodeBlock
import ClientGen.Proofs.CSharp.Scope
import Mathlib.Data.List.Infix

/-!
# Nesting of code

The lines of a method are a block structure, and their indentation says how deep each line stands.

* `WellNested` — **what is said of lines**, as texts: of all beginnings of them, of all of them, and
  of the indentation of each.
* `scan` — reads lines one after the other and keeps the depth: one line (`scanLine_eq_some`), and
  then all of them (`nestedFrom_of_scan`). Lines that it reads from zero to zero are well nested.
* `Code.Tidy` — code whose own texts cannot be taken for braces. Written at a depth, it is read at
  this depth and back to it (`Code.Tidy.scan_linesAt`), whatever its blocks are.
* The code of a method is tidy, piece by piece (`methodCode_tidy`).
-/

namespace ClientGen.CSharp

/-! ## Lines -/

/-- Does a line open a block? -/
def opens (line : String) : Bool := bareText line = ['{']

/-- Does a line close a block? -/
def closes (line : String) : Bool :=
  bareText line = ['}'] ∨ bareText line = ['}', ';']

/-- How many blanks a line begins with. -/
def blanks (line : String) : Nat := (line.toList.takeWhile (· = ' ')).length

/-- How many blocks more lines open than they close. -/
def openBlocks (lines : List String) : Int := lines.countP opens - lines.countP closes

/-- The lines that say how deep a line stands: those before it, and itself if it closes a block. -/
def upTo (before : List String) (line : String) : List String :=
  if closes line then before ++ [line] else before

/-- Lines that are a block structure: blocks are closed after they are opened, and all of them are;
each line begins with four blanks for every block that is open, where a closing line counts the
blocks that are open after it. -/
structure WellNested (lines : List String) : Prop where
  nonneg : ∀ before, before <+: lines → 0 ≤ openBlocks before
  closed : openBlocks lines = 0
  indented : ∀ before line rest, lines = before ++ line :: rest →
    (blanks line : Int) = 4 * openBlocks (upTo before line)

theorem openBlocks_nil : openBlocks [] = 0 := rfl

theorem openBlocks_cons (line : String) (lines : List String) :
    openBlocks (line :: lines) = openBlocks [line] + openBlocks lines := by
  simp only [openBlocks, List.countP_cons, List.countP_nil]
  omega

theorem upTo_cons (first : String) (before : List String) (line : String) :
    upTo (first :: before) line = first :: upTo before line := by
  unfold upTo
  split
  · rw [List.cons_append]
  · rfl

/-! ## Reading lines -/

/-- The depth after a line, if the line is indented as it should be. -/
def scanLine (depth : Nat) (line : String) : Option Nat :=
  if opens line then if blanks line = 4 * depth then some (depth + 1) else none
  else if closes line then
    if 0 < depth ∧ blanks line = 4 * (depth - 1) then some (depth - 1) else none
  else if blanks line = 4 * depth then some depth else none

/-- The depth after lines. -/
def scan (depth : Nat) (lines : List String) : Option Nat := lines.foldlM scanLine depth

theorem scan_nil (depth : Nat) : scan depth [] = some depth := rfl

theorem scan_cons (depth : Nat) (line : String) (lines : List String) :
    scan depth (line :: lines) = (scanLine depth line).bind (scan · lines) := by
  simp [scan]

theorem scan_append (depth : Nat) (lines lines' : List String) :
    scan depth (lines ++ lines') = (scan depth lines).bind (scan · lines') := by
  simp [scan]

/-- No line does both. -/
theorem closes_of_opens {line : String} (h : opens line = true) : closes line = false := by
  have hbare : bareText line = ['{'] := of_decide_eq_true h
  rw [closes, hbare]
  decide

theorem openBlocks_single (line : String) : openBlocks [line] =
    (if opens line then 1 else 0) - (if closes line then 1 else 0) := by
  simp only [openBlocks, List.countP_singleton]
  cases opens line <;> cases closes line <;> rfl

/-- **One line**: the depth goes with the blocks, and the line is indented as it should be. -/
theorem scanLine_eq_some {depth next : Nat} {line : String} (h : scanLine depth line = some next) :
    (next : Int) = depth + openBlocks [line] ∧
      (blanks line : Int) = 4 * (depth + openBlocks (upTo [] line)) := by
  unfold scanLine at h
  by_cases hopens : opens line = true
  · have hcloses := closes_of_opens hopens
    rw [if_pos hopens] at h
    obtain ⟨hblanks, hnext⟩ := Option.ite_none_right_eq_some.mp h
    obtain rfl := Option.some.inj hnext
    simp [upTo, openBlocks_single, openBlocks_nil, hopens, hcloses, hblanks]
  · rw [if_neg hopens] at h
    by_cases hcloses : closes line = true
    · rw [if_pos hcloses] at h
      obtain ⟨⟨hdepth, hblanks⟩, hnext⟩ := Option.ite_none_right_eq_some.mp h
      obtain rfl := Option.some.inj hnext
      simp only [upTo, hcloses, if_true, List.nil_append, openBlocks_single, hopens,
        Bool.false_eq_true, if_false]
      omega
    · rw [if_neg hcloses] at h
      obtain ⟨hblanks, hnext⟩ := Option.ite_none_right_eq_some.mp h
      obtain rfl := Option.some.inj hnext
      simp [upTo, openBlocks_single, openBlocks_nil, hopens, hcloses, hblanks]

/-- Lines that are a block structure inside some blocks that are open, and leave some open. -/
structure NestedFrom (depth final : Nat) (lines : List String) : Prop where
  nonneg : ∀ before, before <+: lines → 0 ≤ depth + openBlocks before
  closed : depth + openBlocks lines = final
  indented : ∀ before line rest, lines = before ++ line :: rest →
    (blanks line : Int) = 4 * (depth + openBlocks (upTo before line))

theorem nestedFrom_nil (depth : Nat) : NestedFrom depth depth [] where
  nonneg before hbefore := by
    rw [List.prefix_nil.mp hbefore, openBlocks_nil]
    omega
  closed := by rw [openBlocks_nil, Int.add_zero]
  indented before line rest heq := by
    have hne := List.append_ne_nil_of_right_ne_nil before (List.cons_ne_nil line rest)
    exact absurd heq hne.symm

/-- A line that can be read goes in front. That no beginning closes too much is because the depth
after the line is a natural number. -/
theorem NestedFrom.cons {depth next final : Nat} {first : String} {lines : List String}
    (hfirst : scanLine depth first = some next) (h : NestedFrom next final lines) :
    NestedFrom depth final (first :: lines) := by
  obtain ⟨hnext, hblanks⟩ := scanLine_eq_some hfirst
  refine ⟨fun before hbefore => ?_, ?_, fun before line rest heq => ?_⟩
  · rcases List.prefix_cons_iff.mp hbefore with rfl | ⟨before, rfl, htail⟩
    · rw [openBlocks_nil]
      omega
    · have hrest := h.nonneg before htail
      rw [openBlocks_cons]
      omega
  · have hrest := h.closed
    rw [openBlocks_cons]
    omega
  · cases before with
    | nil =>
      obtain ⟨rfl, rfl⟩ := List.cons.inj heq
      exact hblanks
    | cons _ before =>
      obtain ⟨rfl, htail⟩ := List.cons.inj heq
      rw [h.indented before line rest htail, hnext, Int.add_assoc, ← openBlocks_cons, upTo_cons]

/-- **All lines.** -/
theorem nestedFrom_of_scan {lines : List String} : ∀ {depth final : Nat},
    scan depth lines = some final → NestedFrom depth final lines := by
  induction lines with
  | nil =>
    intro depth final h
    obtain rfl : depth = final := Option.some.inj h
    exact nestedFrom_nil depth
  | cons first lines ih =>
    intro depth final h
    rw [scan_cons] at h
    obtain ⟨next, hfirst, hlines⟩ := Option.bind_eq_some_iff.mp h
    exact .cons hfirst (ih hlines)

/-- Lines that are read from zero to zero are well nested. -/
theorem wellNested_of_scan {lines : List String} (h : scan 0 lines = some 0) :
    WellNested lines := by
  obtain ⟨hnonneg, hclosed, hindented⟩ := nestedFrom_of_scan h
  simp only [Int.natCast_zero, Int.zero_add] at hnonneg hclosed hindented
  exact ⟨hnonneg, hclosed, hindented⟩

/-! ## Code

A line that is written at a depth is found again behind its indentation, so that reading it depends
on the first character of its text only. -/

/-- Text that begins with something else than a blank or a brace. -/
def Plain (text : String) : Prop := ∃ c, text.toList.head? = some c ∧ c ∉ [' ', '{', '}']

/-- What text begins with is seen from its first character. -/
theorem plain_ofList {c : Char} {s : List Char} (h : c ∉ [' ', '{', '}']) :
    Plain (String.ofList (c :: s)) := by
  refine ⟨c, ?_, h⟩
  rw [String.toList_ofList, List.head?_cons]

/-- Text is plain if the word that it begins with is. -/
theorem Plain.append {word : String} (h : Plain word) (rest : String) : Plain (word ++ rest) := by
  obtain ⟨c, hhead, hc⟩ := h
  refine ⟨c, ?_, hc⟩
  rw [String.toList_append, List.head?_append, hhead, Option.some_or]

/-- Code whose lines and headings are plain, and whose blocks are closed with a brace. -/
inductive Code.Tidy : Code → Prop
  | line {text : String} : Plain text → Tidy (.line text)
  | block {heading closing : String} {body : List Code} : Plain heading →
      (∀ code ∈ body, Tidy code) → closing = closeBrace ∨ closing = closeBrace ++ ";" →
      Tidy (.block heading body closing)

/-- The indentation of a line is found again. -/
theorem blanks_indentation (depth : Nat) (text : String) (h : text.toList.head? ≠ some ' ') :
    blanks (indentation depth ++ text) = 4 * depth := by
  rw [blanks, indentation, String.toList_append, String.toList_ofList,
    List.takeWhile_append_of_pos (by simp), List.length_append, List.length_replicate]
  cases htext : text.toList with
  | nil => rfl
  | cons c s =>
    have hc : c ≠ ' ' := fun hc => h (by rw [htext, hc, List.head?_cons])
    simp [hc]

theorem scanLine_plain {text : String} (h : Plain text) (depth : Nat) :
    scanLine depth (indentation depth ++ text) = some depth := by
  obtain ⟨c, hhead, hc⟩ := h
  have hblank : text.toList.head? ≠ some ' ' := by
    rw [hhead]
    rintro ⟨⟩
    exact hc (by decide)
  have hne (d : Char) (s : List Char) (hd : d ∈ [' ', '{', '}']) : text.toList ≠ d :: s := by
    intro htext
    rw [htext] at hhead
    exact hc (Option.some.inj hhead ▸ hd)
  have hbare := bareText_indentation depth text hblank
  have hopens : opens (indentation depth ++ text) = false := by
    rw [opens, hbare]
    exact decide_eq_false (hne _ _ (by decide))
  have hcloses : closes (indentation depth ++ text) = false := by
    rw [closes, hbare]
    exact decide_eq_false (not_or.mpr ⟨hne _ _ (by decide), hne _ _ (by decide)⟩)
  simp [scanLine, hopens, hcloses, blanks_indentation depth text hblank]

theorem scanLine_open (depth : Nat) :
    scanLine depth (indentation depth ++ openBrace) = some (depth + 1) := by
  have hblank : openBrace.toList.head? ≠ some ' ' := by decide
  have hopens : opens (indentation depth ++ openBrace) = true := by
    rw [opens, bareText_indentation depth _ hblank]
    exact decide_eq_true rfl
  simp [scanLine, hopens, blanks_indentation depth _ hblank]

theorem scanLine_close {closing : String}
    (h : closing = closeBrace ∨ closing = closeBrace ++ ";") (depth : Nat) :
    scanLine (depth + 1) (indentation depth ++ closing) = some depth := by
  have hblank : closing.toList.head? ≠ some ' ' := by
    rcases h with rfl | rfl <;> decide
  have hbare := bareText_indentation depth closing hblank
  have hcloses : closes (indentation depth ++ closing) = true := by
    rw [closes, hbare]
    rcases h with rfl | rfl <;> decide
  have hopens : opens (indentation depth ++ closing) = false := by
    rw [opens, hbare]
    rcases h with rfl | rfl <;> decide
  simp [scanLine, hopens, hcloses, blanks_indentation depth closing hblank]

/-- Pieces of code that are each read back to the depth they are written at, are so together. -/
theorem scan_allLinesAt {codes : List Code} {depth : Nat}
    (h : ∀ code ∈ codes, scan depth (code.linesAt depth) = some depth) :
    scan depth (Code.allLinesAt codes depth) = some depth := by
  induction codes with
  | nil => rw [Code.allLinesAt, scan_nil]
  | cons code codes ih =>
    rw [Code.allLinesAt, scan_append, h code (List.mem_cons_self ..), Option.bind_some]
    exact ih fun code' hcode' => h code' (List.mem_cons_of_mem _ hcode')

/-- **Tidy code is read back to the depth it is written at.** -/
theorem Code.Tidy.scan_linesAt {code : Code} (h : code.Tidy) : ∀ depth : Nat,
    scan depth (code.linesAt depth) = some depth := by
  induction h with
  | line htext =>
    intro depth
    rw [Code.linesAt, scan_cons, scanLine_plain htext, Option.bind_some, scan_nil]
  | block hheading _ hclosing ih =>
    intro depth
    have hbody := scan_allLinesAt fun code hcode => ih code hcode (depth + 1)
    rw [Code.linesAt, scan_append, scan_append, scan_cons, scanLine_plain hheading,
      Option.bind_some, scan_cons, scanLine_open, Option.bind_some, scan_nil, Option.bind_some,
      hbody, Option.bind_some, scan_cons, scanLine_close hclosing, Option.bind_some, scan_nil]

/-! ## Methods

One statement for each piece of code. The texts all begin with a fixed word; what comes from a
document stands behind it. -/

/-- Pieces of code that are all tidy. -/
def AllTidy (codes : List Code) : Prop := ∀ code ∈ codes, code.Tidy

@[simp] theorem allTidy_nil : AllTidy [] := fun _ h => absurd h List.not_mem_nil

@[simp] theorem allTidy_cons {code : Code} {codes : List Code} :
    AllTidy (code :: codes) ↔ code.Tidy ∧ AllTidy codes := List.forall_mem_cons

@[simp] theorem allTidy_append {codes codes' : List Code} :
    AllTidy (codes ++ codes') ↔ AllTidy codes ∧ AllTidy codes' := List.forall_mem_append

theorem allTidy_flatMap {α : Type} {f : α → List Code} (l : List α) (h : ∀ a, AllTidy (f a)) :
    AllTidy (l.flatMap f) := by
  intro code hcode
  obtain ⟨a, -, hmem⟩ := List.mem_flatMap.mp hcode
  exact h a code hmem

theorem allTidy_map {α : Type} {f : α → Code} (l : List α) (h : ∀ a, (f a).Tidy) :
    AllTidy (l.map f) := by
  intro code hcode
  obtain ⟨a, -, rfl⟩ := List.mem_map.mp hcode
  exact h a

@[simp] theorem tidy_line {text : String} : (Code.line text).Tidy ↔ Plain text := by
  constructor
  · rintro ⟨h⟩
    assumption
  · exact .line

@[simp] theorem tidy_braced {heading : String} {body : List Code} :
    (Code.braced heading body).Tidy ↔ Plain heading ∧ AllTidy body := by
  constructor
  · intro h
    cases h with
    | block hheading hbody _ => exact ⟨hheading, hbody⟩
  · rintro ⟨hheading, hbody⟩
    exact .block hheading hbody (.inl rfl)

theorem guarded_tidy (a : Argument) {body : List Code} (h : AllTidy body) :
    AllTidy (guarded a body) := by
  have hif : Plain "if (" := plain_ofList (by decide)
  unfold guarded
  split
  · exact h
  · simp [hif.append, String.append_assoc, h]

theorem queryCode_tidy (a : Argument) : AllTidy (queryCode a) := by
  have hforeach : Plain "foreach (var _item in " := plain_ofList (by decide)
  have hadd : Plain "_query.Add(" := plain_ofList (by decide)
  unfold queryCode
  split
  case h_1 =>
    exact guarded_tidy a (by simp [hforeach.append, hadd.append, String.append_assoc])
  case h_2 => exact guarded_tidy a (by simp [hadd.append, String.append_assoc])
  case h_3 => exact guarded_tidy a (by simp [hadd.append, String.append_assoc])

theorem queryBlock_tidy (arguments : List Argument) : AllTidy (queryBlock arguments) := by
  have hquery : Plain "var _query = new List<string>();" := plain_ofList (by decide)
  have hif : Plain "if (_query.Count > 0)" := plain_ofList (by decide)
  have huri : Plain "_uri += \"?\" + string.Join(\"&\", _query);" := plain_ofList (by decide)
  unfold queryBlock
  dsimp only
  split
  · exact allTidy_nil
  · simp [hquery, hif, huri, allTidy_flatMap _ queryCode_tidy]

theorem headerCode_tidy (a : Argument) : AllTidy (headerCode a) := by
  have hheaders : Plain "_options.Headers[" := plain_ofList (by decide)
  exact guarded_tidy a (by simp [hheaders.append, String.append_assoc])

theorem contentCode_tidy (op : Operation) (payload : String) : (contentCode op payload).Tidy := by
  have hcontent : Plain "var _content = new StringContent(JsonConvert.SerializeObject(" :=
    plain_ofList (by decide)
  simp [contentCode, hcontent.append, String.append_assoc]

/-- A form is closed with a brace and a semicolon. -/
theorem formCode_tidy (fields : List Argument) :
    (Code.block "var _form = new Dictionary<string, object>" (fields.map formEntry)
      (closeBrace ++ ";")).Tidy := by
  have hbracket : Plain "[" := plain_ofList (by decide)
  refine .block (plain_ofList (by decide)) (allTidy_map fields fun a => ?_) (.inr rfl)
  simp [formEntry, hbracket.append, String.append_assoc]

theorem contentBlock_tidy (op : Operation) (arguments : List Argument) :
    AllTidy (contentBlock op arguments).1 := by
  unfold contentBlock
  split
  · simp [contentCode_tidy]
  · exact allTidy_nil
  · simp [contentCode_tidy]
  · simp [contentCode_tidy, formCode_tidy]

theorem requestBlock_tidy (op : Operation) (arguments : List Argument) :
    AllTidy (requestBlock op arguments) := by
  have hresponse : Plain "var _response = await this.http." := plain_ofList (by decide)
  unfold requestBlock
  dsimp only
  split
  · simp [contentBlock_tidy, hresponse.append, String.append_assoc]
  · simp [hresponse.append, String.append_assoc]

theorem caseCode_tidy (result : String) (c : ResponseCase) : (caseCode result c).Tidy := by
  have hcase : Plain "case " := plain_ofList (by decide)
  have hdata : Plain "var _data = JsonConvert.DeserializeObject<" := plain_ofList (by decide)
  have hreturn : Plain "return APIResponse<" := plain_ofList (by decide)
  unfold caseCode
  cases c.payload with
  | none => simp [hcase.append, hreturn.append, String.append_assoc]
  | some payload => simp [hcase.append, hdata.append, hreturn.append, String.append_assoc]

theorem dispatchCode_tidy (result : String) (cases : List ResponseCase) :
    (dispatchCode result cases).Tidy := by
  have hswitch : Plain "switch ((int)_response.StatusCode)" := plain_ofList (by decide)
  have hdefault : Plain "default:" := plain_ofList (by decide)
  have hreturn : Plain "return APIResponse<" := plain_ofList (by decide)
  simp [dispatchCode, hswitch, hdefault, hreturn.append, String.append_assoc,
    allTidy_map cases (caseCode_tidy result)]

/-- **The code of a method is tidy**, whatever it takes and gives. -/
theorem methodCode_tidy (op : Operation) (options : EmitOptions) (signature : Signature) :
    AllTidy (methodCode op options signature) := by
  have huri : Plain "var _uri = " := plain_ofList (by decide)
  have hoptions : Plain "var _options = new HTTPOptions(TimeSpan.FromSeconds(" :=
    plain_ofList (by decide)
  have hif : Plain "if (_response == null)" := plain_ofList (by decide)
  have hreturn : Plain "return APIResponse<" := plain_ofList (by decide)
  have htoken (rest : String) : AllTidy
      (if op.oauthSecured then [.line ("_options.Token = " ++ rest)] else []) := by
    have hassign : Plain "_options.Token = " := plain_ofList (by decide)
    split
    · simp [hassign.append]
    · exact allTidy_nil
  simp [methodCode, huri.append, queryBlock_tidy, hoptions.append, htoken,
    allTidy_flatMap _ headerCode_tidy, requestBlock_tidy, hif, hreturn.append, dispatchCode_tidy,
    String.append_assoc]

/-- Tidy code is written as lines that are well nested. -/
theorem wellNested_codeLines {codes : List Code} (h : AllTidy codes) :
    WellNested (codeLines codes) := by
  apply wellNested_of_scan
  -- every block is closed at the depth where it was opened, so the depth is never cut off at zero
  rw [codeLines, CodeBlock.addAll_eq]
  exact scan_allLinesAt fun code hcode => (h code hcode).scan_linesAt 0

/-- **Methods are well nested.** Whatever the specification, the operation and the options are, if
the operation is planned, the lines of its method are a block structure: no block is closed that is
not open, none is left open, and each line is indented by four blanks for every block around it. -/
theorem method_wellNested (spec : Specification) (options : EmitOptions) (item : PathItem)
    (op : Operation) (name : String) (m : ClientMethod)
    (h : (planMethod spec options item op name).outcome = .ok m) : WellNested m.body := by
  rw [planMethod, Plan.outcome_bind] at h
  obtain ⟨signature, -, h⟩ := bind_eq_ok h
  obtain rfl := Except.ok.inj h
  exact wellNested_codeLines (methodCode_tidy op options signature)

/-- An operation of the shop that opens blocks in every way: it takes a token, a repeated query
parameter and a header that are optional, and a form with two fields. -/
def sendItem : Operation :=
  { listItems with
    method := .post
    parameters :=
      [⟨"tag", none, false, .query (.array .string none {} .multi)⟩,
       ⟨"X-Trace", none, false, .header (.primitive { kind := .string })⟩,
       ⟨"name", none, true, .formData .string⟩, ⟨"size", none, true, .formData .string⟩]
    oauthSecured := true }

/-- The operation is planned, and its lines are well nested. -/
theorem method_wellNested_sendItem :
    ∃ m, (planMethod paintShop {} ⟨"/items", [], [sendItem]⟩ sendItem "SendItem").outcome = .ok m ∧
      m.body.length = 42 ∧ WellNested m.body := by
  have hlength : (planMethod paintShop {} ⟨"/items", [], [sendItem]⟩ sendItem
      "SendItem").outcome.toOption.map (·.body.length) = some 42 := by
    decide +kernel
  obtain ⟨m, hm, hbody⟩ := Option.map_eq_some_iff.mp hlength
  have hm := eq_ok_of_toOption hm
  exact ⟨m, hm, hbody, method_wellNested paintShop {} _ sendItem "SendItem" m hm⟩

end ClientGen.CSharp
