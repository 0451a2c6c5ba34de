import SmallScript.Proofs.Syntax.Formed

/-!
# The contents of strings

A content of a string token may end up in a tree: as a literal, as the module, a name or the new name of an import, or as
the message of an assertion. `Node.mapText` and `Token.mapText` exchange the contents in a tree and in a token, and
`Node.texts` are those of a tree. The texts of binary operators have to be left alone, `Spares`, since an operator is
recognised by its text.
-/

namespace SmallScript.Syntax

open List

variable {kind : TokenKind}

/-! ## Contents of trees -/

mutual

/-- The tree with other contents of its strings. -/
def Node.mapText (f : String → String) : Node → Node
  | .absent => .absent
  | .emptyStatement pos => .emptyStatement pos
  | .emptyExpression pos => .emptyExpression pos
  | .program pos body => .program pos (mapTexts f body)
  | .assignment pos t v op => .assignment pos (t.mapText f) (v.mapText f) op
  | .binary pos l op r => .binary pos (l.mapText f) op (r.mapText f)
  | .identifier pos n => .identifier pos n
  | .variable pos c t v => .variable pos c (t.mapText f) (v.mapText f)
  | .number pos x => .number pos x
  | .string pos s => .string pos (f s)
  | .property pos k v => .property pos k (v.mapText f)
  | .object pos ps => .object pos (mapTexts f ps)
  | .array pos es => .array pos (mapTexts f es)
  | .call pos args callee => .call pos (mapTexts f args) (callee.mapText f)
  | .member pos o p c => .member pos (o.mapText f) (p.mapText f) c
  | .function pos n ps body => .function pos n ps (mapTexts f body)
  | .conditional pos c yes no => .conditional pos (c.mapText f) (mapTexts f yes) (mapTexts f no)
  | .ret pos v => .ret pos (v.mapText f)
  | .importing pos m ns a => .importing pos (f m) (ns.map (·.map f)) (a.map f)
  | .loop pos body => .loop pos (mapTexts f body)
  | .while pos c body => .while pos (c.mapText f) (mapTexts f body)
  | .for pos t i body => .for pos (t.mapText f) (i.mapText f) (mapTexts f body)
  | .brk pos => .brk pos
  | .cont pos => .cont pos
  | .del pos t => .del pos (t.mapText f)
  | .class pos n ms ps => .class pos n (mapTexts f ms) ps
  | .enum pos n vs => .enum pos n (mapTexts f vs)
  | .assertion pos c m => .assertion pos (c.mapText f) (m.map f)

/-- The trees with other contents of their strings. -/
def mapTexts (f : String → String) : List Node → List Node
  | [] => []
  | n :: ns => n.mapText f :: mapTexts f ns

end

mutual

/-- The contents of the strings of a tree. -/
def Node.texts : Node → List String
  | .absent | .emptyStatement _ | .emptyExpression _ | .identifier .. | .number .. | .brk _ | .cont _ => []
  | .string _ s => [s]
  | .importing _ m ns a => [m] ++ ns.getD [] ++ a.toList
  | .assertion _ c m => c.texts ++ m.toList
  | .program _ body | .function _ _ _ body | .loop _ body => textsOf body
  | .object _ ns | .array _ ns | .class _ _ ns _ | .enum _ _ ns => textsOf ns
  | .assignment _ l r _ | .binary _ l _ r | .variable _ _ l r | .member _ l r _ => l.texts ++ r.texts
  | .property _ _ v | .ret _ v | .del _ v => v.texts
  | .call _ args callee => textsOf args ++ callee.texts
  | .conditional _ c yes no => c.texts ++ textsOf yes ++ textsOf no
  | .while _ c body => c.texts ++ textsOf body
  | .for _ t i body => t.texts ++ i.texts ++ textsOf body

/-- The contents of the strings of some trees. -/
def textsOf : List Node → List String
  | [] => []
  | n :: ns => n.texts ++ textsOf ns

end

attribute [simp] Node.mapText mapTexts Node.texts textsOf

section Trees

variable (f : String → String) (n : Node) (ns : List Node)

@[simp] theorem Node.mapText_pos : (n.mapText f).pos = n.pos := by
  cases n <;> rfl

@[simp] theorem Node.mapText_name? : (n.mapText f).name? = n.name? := by
  cases n <;> rfl

@[simp] theorem Node.mapText_string? : (n.mapText f).string? = n.string?.map f := by
  cases n <;> rfl

theorem count_keepStatement (x : String) :
    (textsOf (keepStatement n ns)).count x ≤ n.texts.count x + (textsOf ns).count x := by
  unfold keepStatement
  split
  · exact Nat.le_add_left _ _
  · rw [textsOf, count_append]

theorem texts_of_string? {text} (h : n.string? = some text) : n.texts = [text] := by
  cases n with
  | string pos s =>
    cases h
    rfl
  | _ => cases h

theorem textsOf_of_mapM {names} (h : ns.mapM Node.string? = some names) : textsOf ns = names := by
  induction ns generalizing names with
  | nil =>
    cases h
    rfl
  | cons n ns ih =>
    rw [mapM_cons] at h
    obtain ⟨text, htext, h⟩ := Option.bind_eq_some_iff.1 h
    obtain ⟨more, hmore, h⟩ := Option.bind_eq_some_iff.1 h
    cases h
    rw [textsOf, texts_of_string? n htext, ih hmore]
    rfl

end Trees

/-! ## Contents of tokens -/

/-- The token with another content, if it is a string. -/
def Token.mapText (f : String → String) (t : Token) : Token :=
  if t.kind = .string then { t with value := f t.value } else t

/-- How often the text is the content of a string among the tokens. -/
def copies (x : String) (ts : List Token) : Nat := ts.countP fun t => t.kind = .string ∧ t.value = x

section Tokens

variable {f : String → String} {t : Token}

@[simp] theorem Token.mapText_kind : (t.mapText f).kind = t.kind := by
  unfold Token.mapText
  split <;> rfl

@[simp] theorem Token.mapText_pos : (t.mapText f).pos = t.pos := by
  unfold Token.mapText
  split <;> rfl

theorem Token.mapText_of_string (h : t.kind = .string) : (t.mapText f).value = f t.value := by
  rw [mapText, if_pos h]

theorem Token.mapText_of_ne (h : t.kind = kind) (hne : kind ≠ .string) : t.mapText f = t := by
  rw [mapText, if_neg (h ▸ hne)]

theorem copies_string (x : String) (h : t.kind = .string) (ts : List Token) :
    copies x (t :: ts) = [t.value].count x + copies x ts := by
  rw [copies, copies, countP_cons, count_singleton, Nat.add_comm]
  simp [h]

theorem copies_append (x : String) (ts us : List Token) : copies x (ts ++ us) = copies x ts + copies x us :=
  countP_append

/-- The texts of some operators are left alone, and no other text becomes one of them. -/
structure Spares (f : String → String) (ops : List String) : Prop where
  operator : ∀ op ∈ ops, f op = op
  other : ∀ text ∉ ops, f text ∉ ops

section Operators

variable {ops ops' : List String} (hf : Spares f ops)

include hf in
theorem Spares.mono (hsub : ∀ op ∈ ops', op ∈ ops) : Spares f ops' where
  operator op hop := hf.operator op (hsub op hop)
  other text htext hmem := by
    by_cases hin : text ∈ ops
    · exact htext (hf.operator text hin ▸ hmem)
    · exact hf.other text hin (hsub _ hmem)

include hf in
theorem Spares.value_eq (ht : t.value ∈ ops) : (t.mapText f).value = t.value := by
  unfold Token.mapText
  split
  · exact hf.operator _ ht
  · rfl

include hf in
theorem Spares.mem_iff : (t.mapText f).value ∈ ops ↔ t.value ∈ ops := by
  by_cases ht : t.value ∈ ops
  · rw [hf.value_eq ht]
  · refine ⟨fun hmem => absurd hmem ?_, fun hmem => absurd hmem ht⟩
    unfold Token.mapText
    split
    · exact hf.other _ ht
    · exact ht

end Operators

end Tokens

end SmallScript.Syntax
