import SmallScript.Proofs.Syntax.Literal
import SmallScript.Proofs.Syntax.Precedence

/-!
# Printed literals are parsed back

A printed literal without empty arrays and objects is parsed as one statement, and its tree is that of the literal,
positions apart: `parse_literal`.
-/

namespace SmallScript.Syntax

open Parse List

/-! ## Syntax trees -/

mutual

def Literal.node : Literal → Node
  | .null => .identifier .zero Name.null.text
  | .bool b => .identifier .zero (Name.ofBool b).text
  | .whole n => .number .zero (.float n.float)
  | .string s => .string .zero (String.ofList s.letters)
  | .array items => .array .zero (itemNodes items)
  | .object fields => .object .zero (fieldNodes fields)

def itemNodes : List Literal → List Node
  | [] => []
  | x :: xs => x.node :: itemNodes xs

def fieldNodes : List (Name × Literal) → List Node
  | [] => []
  | (key, x) :: fs => .property .zero key.text x.node :: fieldNodes fs

end

attribute [simp] Literal.node itemNodes fieldNodes

mutual

theorem Literal.bare_node : ∀ l : Literal, l.node.bare = l.node
  | .null | .bool _ | .whole _ | .string _ => by simp
  | .array items => by simp [bare_itemNodes items]
  | .object fields => by simp [bare_fieldNodes fields]

theorem bare_itemNodes : ∀ xs : List Literal, bareList (itemNodes xs) = itemNodes xs
  | [] => by simp
  | x :: xs => by simp [x.bare_node, bare_itemNodes xs]

theorem bare_fieldNodes : ∀ fs : List (Name × Literal), bareList (fieldNodes fs) = fieldNodes fs
  | [] => by simp
  | (_, x) :: fs => by simp [x.bare_node, bare_fieldNodes fs]

end

/-! ## Tokens -/

def Literal.tokens (l : Literal) : List Token := l.faces.map Token.ofFace

def Literal.item (l : Literal) : List Token × Node := (l.tokens, l.node)

def fieldEntry (f : Name × Literal) : KeyItem := (f.1.text, some f.2.item)

theorem itemNodes_eq (xs : List Literal) : itemNodes xs = (xs.map Literal.item).map (·.2) := by
  induction xs with
  | nil => rfl
  | cons x xs ih => rw [itemNodes, ih]; rfl

theorem fieldNodes_eq (fs : List (Name × Literal)) : fieldNodes fs = (fs.map fieldEntry).map KeyItem.node := by
  induction fs with
  | nil => rfl
  | cons f fs ih => rw [fieldNodes, ih]; rfl

/-- Parts with a comma in front of each. -/
theorem moreFaces_tokens {α : Type} (faces : α → List (String × TokenKind)) (xs : List α) :
    (moreFaces (xs.map faces)).map Token.ofFace =
      xs.flatMap fun x => Mark.comma.token :: (faces x).map Token.ofFace := by
  rw [moreFaces, flatMap_map, map_flatMap]
  rfl

namespace Literal

theorem tokens_array_cons (x : Literal) (xs : List Literal) : (Literal.array (x :: xs)).tokens =
    Mark.openBracket.token :: (x.tokens ++ (moreTokens (xs.map item) ++ [Mark.closeBracket.token])) := by
  rw [tokens, faces_array_cons, map_cons, map_append, map_append, moreFaces_tokens, moreTokens, flatMap_map]
  rfl

theorem tokens_object_cons (f : Name × Literal) (fs : List (Name × Literal)) : (Literal.object (f :: fs)).tokens =
    Mark.openBrace.token :: ((fieldEntry f).tokens ++
      (((fs.map fieldEntry).flatMap fun q => Mark.comma.token :: q.tokens) ++ [Mark.closeBrace.token])) := by
  rw [tokens, faces_object_cons, map_cons, map_append, map_append, moreFaces_tokens, flatMap_map]
  rfl

/-- A literal begins with a token that opens an expression, unless it is empty. -/
theorem faces_head {l : Literal} (hl : l.isEmpty = false) : ∃ f fs, l.faces = f :: fs ∧ f.2.opensExpression = true := by
  cases l with
  | null => exact ⟨_, _, faces_null, rfl⟩
  | bool b => exact ⟨_, _, faces_bool b, rfl⟩
  | whole n => exact ⟨_, _, faces_whole n, rfl⟩
  | string s => exact ⟨_, _, faces_string s, rfl⟩
  | array items =>
    cases items with
    | nil => cases hl
    | cons x xs => exact ⟨_, _, faces_array_cons x xs, rfl⟩
  | object fields =>
    cases fields with
    | nil => cases hl
    | cons p fs => exact ⟨_, _, faces_object_cons p fs, rfl⟩

theorem exists_opener {l : Literal} (hl : l.isEmpty = false) :
    ∃ t us, l.tokens = t :: us ∧ t.kind.opensExpression = true := by
  obtain ⟨f, fs, hfaces, hopens⟩ := faces_head hl
  exact ⟨.ofFace f, fs.map .ofFace, by rw [tokens, hfaces, map_cons], hopens⟩

/-! ## Literals -/

/-- A literal without empty arrays and objects is read. -/
theorem parsed (l : Literal) (h : l.empties = 0) : ReadsWhole l.tokens l.node := by
  induction l using induct with
  | null | bool b =>
    refine .of_primary fun rest => ?_
    first | rw [tokens, faces_null] | rw [tokens, faces_bool, node]
    exact parsePrimary_name rfl
  | whole n =>
    refine .of_primary fun rest => ?_
    rw [tokens, faces_whole, node]
    refine parsePrimary_number rfl ?_
    rw [show (Token.ofFace n.face).value = _ from n.text_lexeme.symm]
    exact numberValue?_signed n.isNegative n.numeral
  | string s =>
    refine .of_primary fun rest => ?_
    exact parsePrimary_string rfl
  | array items ih =>
    cases items with
    | nil => cases h
    | cons x xs =>
      have hitems : ∀ y ∈ x :: xs, ReadsWhole y.tokens y.node := fun y hy => ih y hy (empties_item h hy)
      obtain ⟨v, vs, hi, hv⟩ := exists_opener (not_isEmpty (empties_item h (.head _)))
      refine .of_primary fun rest => ?_
      rw [tokens_array_cons, node, itemNodes_eq]
      simp only [append_assoc, cons_append]
      exact array_reads (i := x.item) (forall_mem_map (l := x :: xs).2 hitems) hi (kind_ne_of_opens hv rfl) rest
  | object fields ih =>
    cases fields with
    | nil => cases h
    | cons f fs =>
      have hfields : ∀ g ∈ f :: fs, ∀ v ∈ (fieldEntry g).2, ReadsWhole v.1 v.2 := fun g hg v hv =>
        Option.some.inj hv ▸ ih g hg (empties_field h hg)
      refine .of_primary fun rest => ?_
      rw [tokens_object_cons, node, fieldNodes_eq]
      simp only [append_assoc, cons_append, nil_append]
      exact object_reads (forall_mem_map (l := f :: fs).2 hfields) rest

end Literal

/-- A printed literal without empty arrays and objects is parsed as one statement, which is the literal up to
positions. -/
theorem parse_literal (l : Literal) (hl : l.empties = 0) :
    ∃ m, parse l.source = .ok (.program .zero [m]) ∧ m.bare = l.node := by
  obtain ⟨ts, q, htokens, hts⟩ := tokenize_literal l
  have hfaces : l.tokens.map Token.face = ts.map Token.face := by
    rw [hts, Literal.tokens, map_map]
    exact map_id _
  have hkeep : keepStatement l.node [] = [l.node] := by
    cases l <;> rw [Literal.node] <;> rfl
  have hparse := parse_of_expression htokens hfaces (Literal.exists_opener (Literal.not_isEmpty hl)) hkeep (l.parsed hl)
  rwa [l.bare_node] at hparse

end SmallScript.Syntax
