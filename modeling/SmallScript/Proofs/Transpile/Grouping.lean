import SmallScript.Proofs.Syntax.Precedence
import SmallScript.Transpile.Convert

/-!
# What becomes of grouping

An expression is written without parentheses, so only the order of its operands and operators is left of it. Reading the
text groups these anew by the levels of the operators, `OperatorTree.regroup`, one operator and operand after the other:
`OperatorTree.extend`. A tree comes back just if it is grouped that way itself, `OperatorTree.WellGrouped`, and two trees
are written alike just if they have the same operands and operators in the same order:
`transpiled_expression_regrouped`.
-/

namespace SmallScript.Transpile

open Syntax List
open Text (isLetter)

/-- A name that is no constant. -/
structure Variable where
  name : Name
  notTrue : name.text ≠ "true"
  notFalse : name.text ≠ "false"
  notNull : name.text ≠ "null"

theorem ofList_singleton_ne {c s} (h : s.length ≠ 1) : String.ofList [c] ≠ s := by
  intro heq
  apply h
  rw [← heq, String.length_ofList]
  rfl

/-- The variable of one letter. -/
def Variable.ofLetter (c : Char) (h : isLetter c = true) : Variable where
  name :=
    { first := c
      more := []
      begins := .inl h
      continues := by simp [AllOf]
      notKeyword := fun k hk heq => by
        have hlong : ∀ k ∈ keywords, k.1.length ≠ 1 := by decide
        exact ofList_singleton_ne (hlong k hk) heq.symm }
  notTrue := ofList_singleton_ne (by decide)
  notFalse := ofList_singleton_ne (by decide)
  notNull := ofList_singleton_ne (by decide)

/-- An expression of variables and operators. -/
inductive OperatorTree where
  | leaf (v : Variable)
  | node (left : OperatorTree) (op : Operator) (right : OperatorTree)

theorem nameText_variable (v : Variable) : nameText v.name.text = v.name.text := by
  simp [nameText, v.notTrue, v.notFalse, v.notNull]

namespace OperatorTree

def expression : OperatorTree → Expression
  | .leaf v => .name v.name
  | .node l op r => .binary l.expression op r.expression

/-- How the tree is written. -/
def text : OperatorTree → String
  | .leaf v => v.name.text
  | .node l op r => l.text ++ " " ++ op.text ++ " " ++ r.text

/-- The level of the operator at the top. -/
def level : OperatorTree → Nat
  | .leaf _ => 8
  | .node _ op _ => op.level

/-- The first operand. -/
def first : OperatorTree → Variable
  | .leaf v => v
  | .node l _ _ => l.first

/-- The operators in order, each with the operand behind it. -/
def rest : OperatorTree → List (Operator × Variable)
  | .leaf _ => []
  | .node l op r => l.rest ++ (op, r.first) :: r.rest

/-- Left operands are not looser than the operator, and right operands are tighter. -/
def WellGrouped : OperatorTree → Prop
  | .leaf _ => True
  | .node l op r => l.WellGrouped ∧ r.WellGrouped ∧ op.level ≤ l.level ∧ op.level < r.level

/-- An operator and an operand behind a tree. They go to the right operand if the operator is tighter than the one at the
top. -/
def extend : OperatorTree → Operator → Variable → OperatorTree
  | .leaf u, op, v => .node (.leaf u) op (.leaf v)
  | .node l o r, op, v => if o.level < op.level then .node l o (r.extend op v) else .node (.node l o r) op (.leaf v)

/-- Operators and operands behind a tree, one after the other. -/
def extendAll (t : OperatorTree) (xs : List (Operator × Variable)) : OperatorTree :=
  xs.foldl (fun t x => t.extend x.1 x.2) t

/-- The operands and operators of a tree, grouped by the levels of the operators. -/
def regroup (t : OperatorTree) : OperatorTree := (leaf t.first).extendAll t.rest

variable {t l r : OperatorTree} {op : Operator} {v : Variable}

/-! ## Grouping by levels -/

theorem level_extend (t : OperatorTree) (op : Operator) (v : Variable) :
    (t.extend op v).level = min t.level op.level := by
  have hop := op.level_bounds
  cases t with
  | leaf u =>
    simp only [extend, level]
    omega
  | node l o r =>
    simp only [extend]
    split <;> simp only [level] <;> omega

theorem first_extend (t : OperatorTree) (op : Operator) (v : Variable) : (t.extend op v).first = t.first := by
  cases t with
  | leaf u => rfl
  | node l o r =>
    simp only [extend]
    split <;> rfl

theorem rest_extend : ∀ (t : OperatorTree) (op : Operator) (v : Variable), (t.extend op v).rest = t.rest ++ [(op, v)]
  | .leaf u, op, v => rfl
  | .node l o r, op, v => by
    simp only [extend]
    split
    · simp [rest, first_extend, rest_extend r op v]
    · simp [rest, first]

theorem WellGrouped.extend : ∀ {t : OperatorTree}, t.WellGrouped → ∀ op v, (t.extend op v).WellGrouped
  | .leaf u, _, op, v => by
    have hop := op.level_bounds
    simp only [OperatorTree.extend, WellGrouped, level, true_and]
    omega
  | .node l o r, ⟨hl, hr, hleft, hright⟩, op, v => by
    have hop := op.level_bounds
    simp only [OperatorTree.extend]
    split
    · refine ⟨hl, hr.extend op v, hleft, ?_⟩
      rw [level_extend]
      omega
    · simp only [WellGrouped, level]
      exact ⟨⟨hl, hr, hleft, hright⟩, trivial, by omega, by omega⟩

/-- Grouping by levels keeps the order and is by levels. -/
theorem extendAll_spec (ht : t.WellGrouped) (xs : List (Operator × Variable)) :
    (t.extendAll xs).WellGrouped ∧ (t.extendAll xs).first = t.first ∧ (t.extendAll xs).rest = t.rest ++ xs := by
  induction xs generalizing t with
  | nil => exact ⟨ht, rfl, (append_nil _).symm⟩
  | cons x xs ih =>
    obtain ⟨hgrouped, hfirst, hrest⟩ := ih (ht.extend x.1 x.2)
    refine ⟨hgrouped, hfirst.trans (first_extend t x.1 x.2), hrest.trans ?_⟩
    rw [rest_extend, append_assoc]
    rfl

theorem regroup_spec (t : OperatorTree) : t.regroup.WellGrouped ∧ t.regroup.first = t.first ∧ t.regroup.rest = t.rest :=
  extendAll_spec (t := leaf t.first) trivial t.rest

/-- An operator that is not tighter than a tree goes above it. -/
theorem extend_of_le (h : op.level ≤ t.level) : t.extend op v = node t op (leaf v) := by
  cases t with
  | leaf u => rfl
  | node l o r =>
    rw [level] at h
    rw [extend, if_neg (by omega)]

/-- Operators that are tighter than the one at the top go to its right operand. -/
theorem extendAll_node {xs} (h : ∀ x ∈ xs, op.level < x.1.level) :
    (node l op r).extendAll xs = node l op (r.extendAll xs) := by
  induction xs generalizing r with
  | nil => rfl
  | cons x xs ih =>
    show ((node l op r).extend x.1 x.2).extendAll xs = _
    rw [extend, if_pos (h x (.head _))]
    exact ih fun y hy => h y (.tail _ hy)

theorem WellGrouped.level_le : ∀ {t : OperatorTree}, t.WellGrouped → ∀ x ∈ t.rest, t.level ≤ x.1.level
  | .leaf _, _, x, hx => absurd hx not_mem_nil
  | .node l op r, ⟨hl, hr, hleft, hright⟩, x, hx => by
    rw [level]
    rcases mem_append.1 hx with hx | hx
    · have := hl.level_le x hx
      omega
    · rcases mem_cons.1 hx with rfl | hx
      · exact le_refl _
      · have := hr.level_le x hx
        omega

/-- Trees that are grouped by levels are up to the order of operands and operators alone. -/
theorem WellGrouped.regroup_eq : ∀ {t : OperatorTree}, t.WellGrouped → t.regroup = t
  | .leaf v, _ => rfl
  | .node l op r, ⟨hl, hr, hleft, hright⟩ => by
    have htighter : ∀ x ∈ r.rest, op.level < x.1.level := fun x hx => lt_of_lt_of_le hright (hr.level_le x hx)
    calc (node l op r).regroup = ((l.regroup).extend op r.first).extendAll r.rest := by
          simp only [regroup, extendAll, first, rest, foldl_append, foldl_cons]
      _ = (node l op (leaf r.first)).extendAll r.rest := by rw [hl.regroup_eq, extend_of_le hleft]
      _ = node l op r.regroup := extendAll_node htighter
      _ = node l op r := by rw [hr.regroup_eq]

theorem regroup_eq_iff : t.regroup = t ↔ t.WellGrouped := by
  constructor
  · intro h
    rw [← h]
    exact t.regroup_spec.1
  · exact WellGrouped.regroup_eq

/-! ## Texts -/

def words (t : OperatorTree) : List Word := .name t.first.name :: t.rest.flatMap fun x => [.operator x.1, .name x.2.name]

theorem words_node : (node l op r).words = l.words ++ .operator op :: r.words := by
  simp [words, first, rest]

theorem level_expression : ∀ t : OperatorTree, t.expression.level = t.level
  | .leaf _ => rfl
  | .node _ _ _ => rfl

/-- An expression that is grouped by levels needs no parentheses. -/
theorem WellGrouped.words_expression : ∀ {t : OperatorTree}, t.WellGrouped → t.expression.words = t.words
  | .leaf _, _ => by simp [expression, words, first, rest]
  | .node l op r, ⟨hl, hr, hleft, hright⟩ => by
    rw [expression, Expression.words, place, level_expression, if_neg (by omega), place, level_expression,
      if_neg (by omega), hl.words_expression, hr.words_expression, words_node]

theorem intercalate_append (sep : List Char) : ∀ {xs ys : List (List Char)}, xs ≠ [] → ys ≠ [] →
    sep.intercalate (xs ++ ys) = sep.intercalate xs ++ (sep ++ sep.intercalate ys)
  | [], _, h, _ => absurd rfl h
  | _ :: _, [], _, h => absurd rfl h
  | [x], y :: ys, _, _ => by simp [intercalate]
  | x :: x' :: xs, y :: ys, _, hys => by
    have ih := intercalate_append sep (cons_ne_nil x' xs) hys
    simp only [intercalate, cons_append, intersperse_cons_cons, flatten_cons, append_assoc] at ih ⊢
    rw [ih]

/-- A blank stands between every two words. -/
theorem text_eq (t : OperatorTree) : t.text = String.ofList ([' '].intercalate (t.words.map Word.letters)) := by
  induction t with
  | leaf v => simp [text, words, first, rest, intercalate, Word.letters, Name.text]
  | node l op r ihl ihr =>
    have hwords : ∀ t : OperatorTree, t.words.map Word.letters ≠ [] := fun t => by simp [words]
    have hright : [' '].intercalate (op.text.toList :: r.words.map Word.letters) =
        op.text.toList ++ ' ' :: [' '].intercalate (r.words.map Word.letters) := by
      have happend := intercalate_append [' '] (cons_ne_nil op.text.toList []) (hwords r)
      simpa [intercalate] using happend
    rw [words_node, map_append, map_cons, Word.letters, intercalate_append _ (hwords l) (cons_ne_nil _ _),
      hright, text, ihl, ihr]
    apply String.toList_inj.1
    simp

theorem bare_node (t : OperatorTree) : t.expression.node.bare = t.expression.node := by
  induction t with
  | leaf v => rfl
  | node l op r ihl ihr => rw [expression, Expression.node, Node.bare, ihl, ihr]

theorem convert_eq : ∀ (t : OperatorTree) {n : Node}, n.bare = t.expression.node → convert n = .ok t.text
  | .leaf v, n, h => by
    obtain ⟨pos, rfl⟩ := Node.bare_eq_identifier h
    rw [convert, nameText_variable]
    rfl
  | .node l op r, n, h => by
    obtain ⟨pos, left, right, rfl, hl, hr⟩ := Node.bare_eq_binary h
    rw [convert, convert_eq l hl, convert_eq r hr]
    rfl

/-- The text is read as the tree that is grouped by levels. -/
theorem parse_text (t : OperatorTree) :
    ∃ m, parse t.text = .ok (.program .zero [m]) ∧ m.bare = t.regroup.expression.node := by
  obtain ⟨hgrouped, hfirst, hrest⟩ := t.regroup_spec
  have hsource : t.regroup.expression.source = t.text := by
    rw [Expression.source, hgrouped.words_expression, text_eq, words, words, hfirst, hrest]
  obtain ⟨ts, q, htokens, hts⟩ := tokenize_source t.regroup.expression
  rw [hsource] at htokens
  exact parse_of_words t.regroup.expression htokens hts

theorem operator_text_injective {op op' : Operator} (h : op.text = op'.text) : op = op' := by
  cases op <;> cases op' <;> first | rfl | exact absurd h (by decide)

theorem variable_text_injective {u v : Variable} (h : u.name.text = v.name.text) : u = v := by
  obtain ⟨⟨d, ds, _, _, _⟩, _, _, _⟩ := v
  have hletters := String.ofList_injective h
  cases hletters
  rfl

theorem node_injective : ∀ {t t' : OperatorTree}, t.expression.node = t'.expression.node → t = t'
  | .leaf u, .leaf v, h => by
    injection h with _ htext
    rw [variable_text_injective htext]
  | .leaf _, .node _ _ _, h => by cases h
  | .node _ _ _, .leaf _, h => by cases h
  | .node l op r, .node l' op' r', h => by
    injection h with _ hl hop hr
    rw [node_injective hl, operator_text_injective hop, node_injective hr]

/-- Trees are written alike just if their operands and operators are in the same order. -/
theorem text_eq_iff (t t' : OperatorTree) : t.text = t'.text ↔ t.first = t'.first ∧ t.rest = t'.rest := by
  constructor
  · intro h
    -- the text is read as one tree, which has the operands and operators of both
    obtain ⟨m, hparse, hm⟩ := t.parse_text
    obtain ⟨m', hparse', hm'⟩ := t'.parse_text
    rw [h, hparse'] at hparse
    cases hparse
    have hregroup := node_injective (hm.symm.trans hm')
    obtain ⟨-, hfirst, hrest⟩ := t.regroup_spec
    obtain ⟨-, hfirst', hrest'⟩ := t'.regroup_spec
    rw [← hfirst, ← hrest, hregroup]
    exact ⟨hfirst', hrest'⟩
  · rintro ⟨hfirst, hrest⟩
    rw [text_eq, text_eq, words, words, hfirst, hrest]

end OperatorTree

open OperatorTree

/-- An expression is written in such a way that reading it gives its operands and operators in the same order, grouped by
the levels of the operators. So it comes back just if it is grouped that way itself, and two expressions are written alike
just if they have the same operands and operators in the same order. -/
theorem transpiled_expression_regrouped (t : OperatorTree) : (∀ n : Node, n.bare = t.expression.node →
      ∃ text m, convert n = .ok text ∧ parse text = .ok (.program .zero [m]) ∧ m.bare = t.regroup.expression.node ∧
        (m.bare = t.expression.node ↔ t.WellGrouped)) ∧
    ∀ (t' : OperatorTree) (n n' : Node), n.bare = t.expression.node → n'.bare = t'.expression.node →
      (convert n = convert n' ↔ t.first = t'.first ∧ t.rest = t'.rest) := by
  constructor
  · intro n hn
    obtain ⟨m, hparse, hm⟩ := t.parse_text
    refine ⟨t.text, m, t.convert_eq hn, hparse, hm, ?_⟩
    rw [hm, ← regroup_eq_iff]
    constructor
    · exact node_injective
    · intro h
      rw [h]
  · intro t' n n' hn hn'
    rw [t.convert_eq hn, t'.convert_eq hn', ← text_eq_iff, Except.ok.injEq]

/-- A product with a sum on its left is written like a sum with a product on its right, and is not read back. -/
theorem grouping_of_product_lost : ∃ (t t' : OperatorTree) (m : Node), convert t.expression.node = .ok "a + b * c" ∧
      convert t'.expression.node = .ok "a + b * c" ∧ t ≠ t' ∧
      parse "a + b * c" = .ok (.program .zero [m]) ∧ m.bare = t'.expression.node ∧ m.bare ≠ t.expression.node := by
  let a : OperatorTree := .leaf (.ofLetter 'a' (by decide))
  let b : OperatorTree := .leaf (.ofLetter 'b' (by decide))
  let c : OperatorTree := .leaf (.ofLetter 'c' (by decide))
  have htext : (node (node a .add b) .multiply c).text = "a + b * c" := by decide
  have htext' : (node a .add (node b .multiply c)).text = "a + b * c" := by decide
  have hne : node (node a .add b) .multiply c ≠ node a .add (node b .multiply c) := by
    intro h
    injection h with _ hop
    cases hop
  obtain ⟨m, hparse, hm⟩ := (node a .add (node b .multiply c)).parse_text
  have hm' : m.bare = (node a .add (node b .multiply c)).expression.node := hm
  refine ⟨_, _, m, htext ▸ convert_eq _ (bare_node _), htext' ▸ convert_eq _ (bare_node _), hne, hparse, hm', ?_⟩
  rw [hm']
  exact fun h => hne (node_injective h).symm

end SmallScript.Transpile
