import SmallScript.Proofs.Inspect.Layout
import SmallScript.Proofs.Syntax.Faults

/-!
# Trees told by their layout

The layout of a tree shows the kind and all the parts of each node. So two sources with one layout have one tree:
`tree_of_layout`.
-/

namespace SmallScript.Inspect

open Number Syntax Text
open Evaluate (compoundOperators)

/-! ## Trees can be read -/

/-- What no name, operator or label has inside. -/
def marks : List Char := ['"', '\x1b']

variable {c : Char}

theorem not_mem_of_isName (hc : continuesWord c = false) {text} (h : IsName text) : c ∉ text.toList := by
  obtain ⟨n, rfl⟩ := h
  have hword : ∀ c ∈ n.letters, continuesWord c = true :=
    List.forall_mem_cons.2 ⟨continuesWord_of_startsWord (startsWord_iff.2 n.begins), n.continues⟩
  rw [Name.text, String.toList_ofList]
  intro hmem
  rw [hword c hmem] at hc
  cases hc

theorem marks_end_words : ∀ c ∈ marks, continuesWord c = false := by
  simp only [marks, List.forall_mem_cons, List.not_mem_nil, false_implies, implies_true]
  decide

theorem marks_not_operators : ∀ c ∈ marks, ∀ op ∈ binaryOperators ++ compoundOperators, c ∉ op.toList := by
  simp only [marks, List.forall_mem_cons, List.not_mem_nil, false_implies, implies_true]
  decide

/-- The text can stand in front of a colon or a bracket. -/
def isLabel (s : String) : Bool := s != "" && s.toList.all fun c => c ∉ '\x1b' :: ':' :: stops

theorem clear_record (hc : c ∈ marks) {kind fields}
    (hlabels : (kind :: fields.map Prod.fst).all isLabel = true) (h : ∀ f ∈ fields, Clear c f.2) :
    Clear c (.record kind fields) := by
  have hlabel : ∀ s ∈ kind :: fields.map Prod.fst, s ≠ "" ∧ ∀ c ∈ s.toList, c ∉ '\x1b' :: ':' :: stops := by
    intro s hs
    simpa [isLabel] using List.all_eq_true.1 hlabels s hs
  have hmark : marks ⊆ '\x1b' :: ':' :: stops := by simp [marks, stops]
  obtain ⟨⟨hne, hkind⟩, hnames⟩ := List.forall_mem_cons.1 hlabel
  refine .record hne (fun x hx hstop => hkind x hx (.tail _ (.tail _ hstop)))
    (fun f hf hcolon => (hnames f.1 (List.mem_map_of_mem hf)).2 ':' hcolon (by decide)) (fun s hs hmem => ?_) h
  exact (hlabel s hs).2 c hmem (hmark hc)

theorem clear_pos (p : Pos) : Clear c (posDatum p) := by
  refine .tuple fun d hd => ?_
  simp only [List.mem_cons, List.not_mem_nil, or_false] at hd
  rcases hd with rfl | rfl | rfl <;> exact .number trivial

theorem clear_names {names} (h : ∀ name ∈ names, c ∉ name.toList) : Clear c (namesDatum names) := by
  refine .list fun d hd => ?_
  obtain ⟨name, hname, rfl⟩ := List.mem_map.1 hd
  exact .string (h name hname)

theorem clear_option {text} (h : ∀ s ∈ text, c ∉ s.toList) : Clear c (optionDatum text) := by
  cases text with
  | none => exact .none
  | some s => exact .string (h s rfl)

theorem clear_optionNames {names} (h : ∀ ns ∈ names, ∀ name ∈ ns, c ∉ name.toList) :
    Clear c (optionNamesDatum names) := by
  cases names with
  | none => exact .none
  | some ns => exact clear_names (h ns rfl)

theorem genuine_of_isIdentifier {n : Node} (h : n.IsIdentifier) : n.Genuine := by
  obtain ⟨_, _, rfl, hname⟩ := h
  exact hname

theorem allGenuine_of_identifiers {ns} (h : ∀ n ∈ ns, n.IsIdentifier) : AllGenuine ns := by
  induction ns with
  | nil => trivial
  | cons n ns ih =>
    rw [List.forall_mem_cons] at h
    exact ⟨genuine_of_isIdentifier h.1, ih h.2⟩

theorem clear_string {text} : Clear c (.string text) ↔ c ∉ text.toList := ⟨fun h => by cases h; assumption, .string⟩

theorem clear_number {x} : Clear c (.number x) ↔ x.Plain := ⟨fun h => by cases h; assumption, .number⟩

/-- A tree whose strings are without a mark. -/
theorem clear_node (hc : c ∈ marks) {n} (h : n.Genuine) (ht : ∀ s ∈ n.texts, c ∉ s.toList) : Clear c (nodeDatum n) := by
  have hname : ∀ {text}, IsName text → c ∉ text.toList := not_mem_of_isName (marks_end_words c hc)
  have hoperator := marks_not_operators c hc
  induction n using @Node.rec _ fun ns => AllGenuine ns → (∀ s ∈ textsOf ns, c ∉ s.toList) → Clear c (.list (nodeData ns)) with
  | absent => exact .none
  | nil _ _ => exact .list (by simp [nodeData])
  | cons n ns ihn ihns h ht =>
    rw [textsOf, List.forall_mem_append] at ht
    cases ihns h.2 ht.2 with
    | list hns => exact .list (List.forall_mem_cons.2 ⟨ihn h.1 ht.1, hns⟩)
  | assignment pos target value operator iht ihv =>
    rw [Node.texts, List.forall_mem_append] at ht
    have hop : Clear c (optionDatum operator) := clear_option fun o ho =>
      hoperator o (List.mem_append_right _ (h.2.2 o ho))
    exact clear_record hc (by simp only [List.map_cons]; decide +kernel)
      (by simp [clear_pos, iht h.1 ht.1, ihv h.2.1 ht.2, hop])
  | function pos name params body ih =>
    have hparams : Clear c (namesDatum params) := clear_names fun p hp => hname (h.1 p hp)
    exact clear_record hc (by simp only [List.map_cons, List.map_nil]; decide +kernel)
      (by simp [clear_pos, clear_string, hname h.2.2, hparams, ih h.2.1 ht])
  | «class» pos name members params ih =>
    have hparams : Clear c (optionNamesDatum params) := clear_optionNames fun ps hps p hp => hname (h.2.2.1 ps hps p hp)
    exact clear_record hc (by simp only [List.map_cons, List.map_nil]; decide +kernel)
      (by simp [clear_pos, clear_string, hname h.2.2.2, hparams, ih h.1 ht])
  | _ =>
    refine clear_record hc (by simp only [List.map_cons, List.map_nil]; decide +kernel) ?_
    simp_all [clear_pos, clear_option, clear_optionNames, clear_string, clear_number, Clear.bool,
      genuine_of_isIdentifier, allGenuine_of_identifiers, or_imp, forall_and]

/-- The strings of a tree can stand between quotes. -/
theorem unquoted_texts {n : Node} (h : n.Genuine) : ∀ s ∈ n.texts, Unquoted s := by
  induction n using @Node.rec _ fun ns => AllGenuine ns → ∀ s ∈ textsOf ns, Unquoted s with
  | cons n ns ihn ihns h s hs => exact (List.mem_append.1 hs).elim (ihn h.1 s) (ihns h.2 s)
  | importing pos module names newName => cases names <;> simp_all [or_imp]
  | _ => simp_all [or_imp, genuine_of_isIdentifier, allGenuine_of_identifiers]

theorem legible_node {n} (h : n.Genuine) : Legible (nodeDatum n) := clear_node (by decide) h (unquoted_texts h)

/-! ## Trees are told by their data -/

/-- Fields under the same names in the same order, in two arrangements of one list. -/
theorem fields_of_perm {fs gs : List (String × Datum)} (hnodup : (fs.map Prod.fst).Nodup)
    (hnames : fs.map Prod.fst = gs.map Prod.fst) (h : fs.Perm gs) : fs = gs := by
  induction fs generalizing gs with
  | nil => exact h.nil_eq
  | cons f fs ih =>
    cases gs with
    | nil => cases hnames
    | cons g gs =>
      rw [List.map_cons, List.map_cons, List.cons.injEq] at hnames
      rw [List.map_cons, List.nodup_cons] at hnodup
      have hmem : f ∈ g :: gs := h.mem_iff.1 (.head _)
      rcases List.mem_cons.1 hmem with rfl | hmem
      · rw [ih hnodup.2 hnames.2 h.cons_inv]
      · exact absurd (hnames.2 ▸ List.mem_map_of_mem hmem) hnodup.1

theorem record_inj {kind kind' fs gs}
    (h : (Datum.record kind fs).sorted = (Datum.record kind' gs).sorted) (hnodup : (fs.map Prod.fst).Nodup)
    (hnames : fs.map Prod.fst = gs.map Prod.fst) : sortedFields fs = sortedFields gs := by
  have hsame : ∀ hs : List (String × Datum), (sortedFields hs).map Prod.fst = hs.map Prod.fst := by
    intro hs
    rw [sortedFields_eq, List.map_map]
    rfl
  rw [Datum.sorted, Datum.sorted, Datum.record.injEq] at h
  refine fields_of_perm (by rwa [hsame]) (by rwa [hsame, hsame]) ?_
  exact ((List.mergeSort_perm ..).symm.trans (.of_eq h.2)).trans (List.mergeSort_perm ..)

/-- The kinds of nodes. -/
def kinds : List String := ["NoneType", "Statement", "Expression", "Program", "AssignmentExpression", "BinaryExpression",
  "Identifier", "VariableDeclaration", "NumericLiteral", "StringLiteral", "Property", "ObjectLiteral", "ArrayLiteral",
  "CallExpression", "MemberExpression", "FunctionDeclaration", "IfStatement", "ReturnStatement", "ImportStatement",
  "LoopStatement", "WhileStatement", "ForStatement", "BreakLiteral", "ContinueLiteral", "DelStatement",
  "ClassDeclaration", "EnumDeclaration", "AssertStatement"]

theorem ctorIdx_eq (n : Node) : n.ctorIdx = kinds.idxOf (nodeKind n) := by
  cases n <;> rfl

theorem nodeKind_of_sorted {n m} (h : (nodeDatum n).sorted = (nodeDatum m).sorted) : nodeKind n = nodeKind m := by
  unfold nodeKind
  cases hn : nodeDatum n <;> cases hm : nodeDatum m <;> simp_all [Datum.sorted]

theorem pos_inj {p q} : (posDatum p).sorted = (posDatum q).sorted ↔ p = q := by
  cases p; cases q
  simp [posDatum, Datum.sorted, sortedAll]

theorem option_inj {s t} : (optionDatum s).sorted = (optionDatum t).sorted ↔ s = t := by
  cases s <;> cases t <;> simp [optionDatum, Datum.sorted]

theorem names_inj {ns ms} : (namesDatum ns).sorted = (namesDatum ms).sorted ↔ ns = ms := by
  simp only [namesDatum, Datum.sorted, sortedAll_eq, Datum.list.injEq, List.map_map]
  refine (List.map_injective_iff.2 fun a b hab => ?_).eq_iff
  simpa [Datum.sorted] using hab

theorem optionNames_inj {ns ms} : (optionNamesDatum ns).sorted = (optionNamesDatum ms).sorted ↔ ns = ms := by
  cases ns <;> cases ms <;> simp only [optionNamesDatum, names_inj] <;>
    simp [namesDatum, Datum.sorted]

theorem node_inj {n m} (h : (nodeDatum n).sorted = (nodeDatum m).sorted) : n = m := by
  induction n using @Node.rec _ (fun ns => ∀ ms, sortedAll (nodeData ns) = sortedAll (nodeData ms) → ns = ms) generalizing m with
  | nil ms h =>
    cases ms with
    | nil => rfl
    | cons m ms => cases h
  | cons n ns ihn ihns ms h =>
    cases ms with
    | nil => cases h
    | cons m ms =>
      obtain ⟨hn, hns⟩ := List.cons.inj h
      rw [ihn hn, ihns ms hns]
  | absent =>
    have hidx := (ctorIdx_eq _).trans ((nodeKind_of_sorted h) ▸ (ctorIdx_eq m).symm)
    cases m <;> try cases hidx
    rfl
  | _ =>
    have hidx := (ctorIdx_eq _).trans ((nodeKind_of_sorted h) ▸ (ctorIdx_eq m).symm)
    cases m <;> try cases hidx
    have hfields := record_inj h (by simp only [List.map_cons]; decide +kernel) rfl
    simp only [sortedFields, List.cons.injEq, Prod.mk.injEq, pos_inj, option_inj, names_inj, optionNames_inj,
      Datum.sorted] at hfields
    grind

/-- Sources whose trees have one layout have one tree, positions and kinds of numbers included, if the floats in them are
told by their texts. -/
theorem tree_of_layout {source source' text : String} {tree tree' : Node} (hparse : parse source = .ok tree)
    (hparse' : parse source' = .ok tree') (hfloats : FloatsTold (nodeDatum tree).numbers (nodeDatum tree').numbers)
    (htext : pretty .plain (nodeDatum tree) = .ok text) (htext' : pretty .plain (nodeDatum tree') = .ok text) :
    tree = tree' := by
  have hlegible := legible_node (genuine_of_parse hparse)
  have hlegible' := legible_node (genuine_of_parse hparse')
  obtain ⟨body, rfl⟩ := program_of_parse hparse
  obtain ⟨body', rfl⟩ := program_of_parse hparse'
  have hshown : shown 0 (nodeDatum (.program .zero body)) = text.toList := shown_of_ok htext
  have hshown' : shown 0 (nodeDatum (.program .zero body')) = text.toList := shown_of_ok htext'
  have hcut : Cut ['\n'] := ⟨_, _, rfl, .inr rfl⟩
  exact node_inj (shown_inj hlegible hlegible' ⟨text, htext⟩ ⟨text, htext'⟩ hcut hcut hfloats (by rw [hshown, hshown'])).1

/-- A blank behind a source is not seen in the layout of its tree. -/
theorem tree_of_layout_blank : ∃ tree tree' text, parse "[b]" = .ok tree ∧ parse "[b] " = .ok tree' ∧
    pretty .plain (nodeDatum tree) = .ok text ∧ pretty .plain (nodeDatum tree') = .ok text ∧ tree = tree' := by
  have htokens : tokenize "[b]" = .ok [⟨"[", .openBracket, ⟨1, 1, 1⟩⟩, ⟨"b", .identifier, ⟨1, 2, 1⟩⟩,
      ⟨"]", .closeBracket, ⟨1, 3, 1⟩⟩, ⟨"EOF", .eof, ⟨1, 3, 1⟩⟩] := by decide +kernel
  have htokens' : tokenize "[b] " = .ok [⟨"[", .openBracket, ⟨1, 1, 1⟩⟩, ⟨"b", .identifier, ⟨1, 2, 1⟩⟩,
      ⟨"]", .closeBracket, ⟨1, 3, 1⟩⟩, ⟨"EOF", .eof, ⟨1, 4, 1⟩⟩] := by decide +kernel
  have hparse : parse "[b]" = .ok (.program .zero [.array ⟨1, 1, 1⟩ [.identifier ⟨1, 2, 1⟩ "b"]]) := by
    rw [parse, htokens]
    rfl
  have hparse' : parse "[b] " = .ok (.program .zero [.array ⟨1, 1, 1⟩ [.identifier ⟨1, 2, 1⟩ "b"]]) := by
    rw [parse, htokens']
    rfl
  refine ⟨_, _, _, hparse, hparse', rfl, rfl, tree_of_layout hparse hparse' ?_ rfl rfl⟩
  simp [FloatsTold, nodeDatum, nodeData, posDatum, Datum.numbers, numbersOf, fieldNumbers]

end SmallScript.Inspect
