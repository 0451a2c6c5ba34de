import SmallScript.Proofs.Number.Texts
import SmallScript.Proofs.Syntax.Expression
import SmallScript.Evaluate.Operator

/-!
# Well-formed trees

The type of syntax trees is looser than what the parser makes. `Node.Formed` says what holds of its trees at
every depth: the operators are those that the evaluator knows, a member that is not computed has a name, and the
places where only a name, or only a member of a class, has a meaning hold nothing else. `Node.Genuine` says more, of
parts that the evaluator takes as they are: what is declared has a name, numbers are integers or floats, and there is no
quote in a string.
-/

namespace SmallScript.Syntax

open Evaluate (compoundOperators)

/-- The text is a name: it is read as a word, and that is no keyword. -/
def IsName (text : String) : Prop := ∃ n : Name, n.text = text

/-- The binary operators that have a meaning. -/
def binaryOperators : List String :=
  ["+", "-", "*", "/", "%", "==", "!=", "<", ">", "<=", ">=", "**", "^", "&", "|", "<<", ">>", "&&", "||"]

def Node.IsIdentifier (n : Node) : Prop := ∃ pos name, n = .identifier pos name ∧ IsName name

/-- The node has a place in a class: an assignment or a function. -/
def Node.IsClassMember : Node → Prop
  | .assignment .. | .function .. => True
  | _ => False

/-- An import takes a whole module, maybe under another name, or some of its names under their own. -/
def WellImported (names : Option (List String)) (newName : Option String) : Prop :=
  names = none ∨ (∃ name rest, names = some (name :: rest)) ∧ newName = none

mutual

/-- The tree is well-formed at every depth. -/
def Node.Formed : Node → Prop
  | .absent | .emptyStatement _ | .emptyExpression _ | .number .. | .string .. | .brk _ | .cont _ => True
  | .identifier _ name => IsName name
  | .program _ body | .loop _ body => AllFormed body
  | .assignment _ target value op => target.Formed ∧ value.Formed ∧ ∀ o ∈ op, o ∈ compoundOperators
  | .binary _ left op right => left.Formed ∧ right.Formed ∧ op ∈ binaryOperators
  | .variable _ _ target value => target.Formed ∧ value.Formed
  | .property _ _ value => value.Formed
  | .object _ parts | .array _ parts => AllFormed parts
  | .call _ args callee => AllFormed args ∧ callee.Formed
  | .member _ object property computed =>
    object.Formed ∧ property.Formed ∧ (computed = false → property.IsIdentifier)
  | .function _ _ params body => (∀ p ∈ params, IsName p) ∧ AllFormed body
  | .conditional _ condition yes no => condition.Formed ∧ AllFormed yes ∧ AllFormed no
  | .ret _ value => value.Formed
  | .importing _ _ names newName => WellImported names newName
  | .while _ condition body => condition.Formed ∧ AllFormed body
  | .for _ target iterator body => target.IsIdentifier ∧ iterator.Formed ∧ AllFormed body
  | .del _ target => target.IsIdentifier
  | .class _ _ members params =>
    AllFormed members ∧ (∀ m ∈ members, m.IsClassMember) ∧ ∀ ps ∈ params, ∀ p ∈ ps, IsName p
  | .enum _ _ values => ∀ v ∈ values, v.IsIdentifier
  | .assertion _ condition _ => condition.Formed

def AllFormed : List Node → Prop
  | [] => True
  | n :: ns => n.Formed ∧ AllFormed ns

end

attribute [simp] Node.Formed AllFormed

theorem AllFormed.filter {ns} (h : AllFormed ns) (p : Node → Bool) : AllFormed (ns.filter p) := by
  induction ns with
  | nil => exact h
  | cons n ns ih =>
    rw [List.filter_cons]
    split
    · exact ⟨h.1, ih h.2⟩
    · exact ih h.2

/-- The text can stand between quotes. -/
def Unquoted (text : String) : Prop := '"' ∉ text.toList

mutual

/-- The tree is as the parser makes it, at every depth. -/
def Node.Genuine : Node → Prop
  | .absent | .emptyStatement _ | .emptyExpression _ | .brk _ | .cont _ => True
  | .number _ x => x.Plain
  | .string _ text => Unquoted text
  | .identifier _ name => IsName name
  | .program _ body | .loop _ body => AllGenuine body
  | .assignment _ target value op => target.Genuine ∧ value.Genuine ∧ ∀ o ∈ op, o ∈ compoundOperators
  | .binary _ left op right => left.Genuine ∧ right.Genuine ∧ op ∈ binaryOperators
  | .variable _ _ target value => target.Genuine ∧ value.Genuine
  | .property _ key value => value.Genuine ∧ IsName key
  | .object _ parts | .array _ parts => AllGenuine parts
  | .call _ args callee => AllGenuine args ∧ callee.Genuine
  | .member _ object property computed =>
    object.Genuine ∧ property.Genuine ∧ (computed = false → property.IsIdentifier)
  | .function _ name params body => (∀ p ∈ params, IsName p) ∧ AllGenuine body ∧ IsName name
  | .conditional _ condition yes no => condition.Genuine ∧ AllGenuine yes ∧ AllGenuine no
  | .ret _ value => value.Genuine
  | .importing _ module names newName =>
    WellImported names newName ∧ Unquoted module ∧ (∀ ns ∈ names, ∀ name ∈ ns, Unquoted name) ∧
      ∀ name ∈ newName, Unquoted name
  | .while _ condition body => condition.Genuine ∧ AllGenuine body
  | .for _ target iterator body => target.IsIdentifier ∧ iterator.Genuine ∧ AllGenuine body
  | .del _ target => target.IsIdentifier
  | .class _ name members params =>
    AllGenuine members ∧ (∀ m ∈ members, m.IsClassMember) ∧ (∀ ps ∈ params, ∀ p ∈ ps, IsName p) ∧ IsName name
  | .enum _ name values => (∀ v ∈ values, v.IsIdentifier) ∧ IsName name
  | .assertion _ condition message => condition.Genuine ∧ ∀ text ∈ message, Unquoted text

def AllGenuine : List Node → Prop
  | [] => True
  | n :: ns => n.Genuine ∧ AllGenuine ns

end

attribute [simp] Node.Genuine AllGenuine

theorem Node.Genuine.formed {n : Node} (h : n.Genuine) : n.Formed := by
  induction n using @rec _ (fun ns => AllGenuine ns → AllFormed ns) <;> simp_all

/-- A node with a name is that name. -/
theorem Node.Genuine.isIdentifier {n : Node} (h : n.Genuine) (hn : n.name?.isNone = false) : n.IsIdentifier := by
  cases n with
  | identifier pos name => exact ⟨pos, name, rfl, h⟩
  | _ => cases hn

theorem precedence_known : ∀ ops ∈ precedence, ∀ op ∈ ops, op ∈ binaryOperators := by decide

end SmallScript.Syntax
