import SmallScript.Proofs.Syntax.Grammar
import SmallScript.Syntax.Parse

/-!
# Expressions and how they are written

An `Expression` is a tree of operators, accesses, calls and literals. `Expression.words` writes it down with
as few parentheses as the levels of its operators allow: around an operand, a callee or the object of a member
whose own level is looser than its place requires. `Expression.source` puts a blank between every two words.

`Expression.node` is the syntax tree that the expression stands for, with all positions zero, and `Node.bare`
takes the positions off a syntax tree.
-/

namespace SmallScript.Syntax

open Text Number Node

/-! ## Literals and names -/

/-- A name: a letter or low line, then letters, digits and low lines, and no keyword. -/
structure Name where
  first : Char
  more : List Char
  begins : isLetter first = true ∨ first = '_'
  continues : AllOf continuesWord more
  notKeyword : ∀ k ∈ keywords, k.1 ≠ String.ofList (first :: more)

def Name.letters (n : Name) : List Char := n.first :: n.more

def Name.text (n : Name) : String := String.ofList n.letters

/-- An unsigned decimal number: digits, and maybe a point and further digits. -/
structure Numeral where
  first : Char
  more : List Char
  fraction : Option (List Char)
  whole_digits : AllOf isDecimalDigit (first :: more)
  fraction_digits : ∀ ds ∈ fraction, AllOf isDecimalDigit ds

/-- A point and the digits behind it. -/
def Numeral.tail (n : Numeral) : List Char :=
  match n.fraction with
  | none => []
  | some ds => '.' :: ds

def Numeral.letters (n : Numeral) : List Char := n.first :: (n.more ++ n.tail)

/-- The number that decimal digits stand for. -/
def digitsNumber (ds : List Char) : Nat := ds.foldl (fun acc d => acc * 10 + (decimalValue? d).getD 0) 0

/-- The digits behind the point. -/
def Numeral.places (n : Numeral) : List Char := n.fraction.getD []

/-- The float nearest to the number that a numeral stands for. -/
def Numeral.value (n : Numeral) : Float :=
  floatOfParts (digitsNumber (n.first :: n.more ++ n.places)) (-n.places.length)

/-- The content of a string: any text without a quote. -/
structure Content where
  letters : List Char
  unquoted : '"' ∉ letters

/-! ## Operators -/

inductive Operator where
  | equal | notEqual | greater | greaterEqual | less | lessEqual
  | and | or
  | bitAnd | bitOr | bitXor | shiftLeft | shiftRight
  | add | subtract
  | multiply | divide | modulo
  | power
deriving DecidableEq

def Operator.text : Operator → String
  | .equal => "==" | .notEqual => "!=" | .greater => ">" | .greaterEqual => ">=" | .less => "<"
  | .lessEqual => "<="
  | .and => "&&" | .or => "||"
  | .bitAnd => "&" | .bitOr => "|" | .bitXor => "^" | .shiftLeft => "<<" | .shiftRight => ">>"
  | .add => "+" | .subtract => "-"
  | .multiply => "*" | .divide => "/" | .modulo => "%"
  | .power => "**"

/-- The level of an operator, loosest first. -/
def Operator.level : Operator → Nat
  | .equal | .notEqual | .greater | .greaterEqual | .less | .lessEqual => 1
  | .and | .or => 2
  | .bitAnd | .bitOr | .bitXor | .shiftLeft | .shiftRight => 3
  | .add | .subtract => 4
  | .multiply | .divide | .modulo => 5
  | .power => 6

/-- The operators of compound assignments. -/
inductive Compound where
  | add | subtract | multiply | divide | modulo | bitXor | bitAnd | bitOr | shiftLeft | shiftRight
deriving DecidableEq

def Compound.text : Compound → String
  | .add => "+=" | .subtract => "-=" | .multiply => "*=" | .divide => "/=" | .modulo => "%="
  | .bitXor => "^=" | .bitAnd => "&=" | .bitOr => "|=" | .shiftLeft => "<<=" | .shiftRight => ">>="

/-! ## Expressions -/

mutual

inductive Expression where
  | name (n : Name)
  | numeral (n : Numeral)
  | string (s : Content)
  | array (elements : List Expression)
  | object (properties : List Property)
  /-- an access to a member by its name -/
  | member (object : Expression) (property : Name)
  /-- an access to a member by a computed key -/
  | index (object key : Expression)
  | call (callee : Expression) (arguments : List Expression)
  | binary (left : Expression) (op : Operator) (right : Expression)
  /-- an assignment, plain or compound -/
  | assign (target : Expression) (op : Option Compound) (value : Expression)

/-- A property of an object literal. -/
inductive Property where
  | short (key : Name)
  | full (key : Name) (value : Expression)

end

/-- The level of an expression, loosest first: assignments, six levels of operators, calls, all the rest. -/
def Expression.level : Expression → Nat
  | .assign .. => 0
  | .binary _ op _ => op.level
  | .call .. => 7
  | _ => 8

/-! ## Words -/

/-- Brackets and separators. -/
inductive Mark where
  | openParen | closeParen | openBracket | closeBracket | openBrace | closeBrace | comma | colon | dot
deriving DecidableEq

def Mark.text : Mark → String
  | .openParen => "(" | .closeParen => ")" | .openBracket => "[" | .closeBracket => "]"
  | .openBrace => "\x7b" | .closeBrace => "\x7d" | .comma => "," | .colon => ":" | .dot => "."

/-- What stands between blanks. -/
inductive Word where
  | name (n : Name)
  | numeral (n : Numeral)
  | string (s : Content)
  | operator (op : Operator)
  | assign (op : Option Compound)
  | mark (m : Mark)

/-- How a word is written. -/
def Word.letters : Word → List Char
  | .name n => n.letters
  | .numeral n => n.letters
  | .string s => '"' :: s.letters ++ ['"']
  | .operator op => op.text.toList
  | .assign none => ['=']
  | .assign (some op) => op.text.toList
  | .mark m => m.text.toList

/-- Parentheses around words. -/
def group (words : List Word) : List Word := .mark .openParen :: words ++ [.mark .closeParen]

/-- Parentheses around the words of an expression that is looser than its place requires. -/
def place (required level : Nat) (words : List Word) : List Word :=
  if level < required then group words else words

mutual

def Expression.words : Expression → List Word
  | .name n => [.name n]
  | .numeral n => [.numeral n]
  | .string s => [.string s]
  | .array es => .mark .openBracket :: listWords es ++ [.mark .closeBracket]
  | .object ps => .mark .openBrace :: propertyWords ps ++ [.mark .closeBrace]
  | .member o p => place 8 o.level o.words ++ [.mark .dot, .name p]
  | .index o k => place 8 o.level o.words ++ .mark .openBracket :: k.words ++ [.mark .closeBracket]
  | .call f args => place 7 f.level f.words ++ .mark .openParen :: listWords args ++ [.mark .closeParen]
  -- all operators associate to the left
  | .binary l op r =>
    place op.level l.level l.words ++ .operator op :: place (op.level + 1) r.level r.words
  | .assign t op v => place 1 t.level t.words ++ .assign op :: v.words

/-- Expressions with commas between them. -/
def listWords : List Expression → List Word
  | [] => []
  | e :: es => e.words ++ moreWords es

/-- Expressions with a comma in front of each. -/
def moreWords : List Expression → List Word
  | [] => []
  | e :: es => .mark .comma :: e.words ++ moreWords es

def Property.words : Property → List Word
  | .short key => [.name key]
  | .full key value => .name key :: .mark .colon :: value.words

/-- Properties with commas between them. -/
def propertyWords : List Property → List Word
  | [] => []
  | p :: ps => p.words ++ morePropertyWords ps

/-- Properties with a comma in front of each. -/
def morePropertyWords : List Property → List Word
  | [] => []
  | p :: ps => .mark .comma :: p.words ++ morePropertyWords ps

end

attribute [simp] Expression.words listWords moreWords Property.words propertyWords morePropertyWords

def Expression.source (e : Expression) : String :=
  String.ofList ([' '].intercalate (e.words.map Word.letters))

/-! ## Syntax trees -/

mutual

def Expression.node : Expression → Node
  | .name n => .identifier .zero n.text
  | .numeral n => .number .zero (.float n.value)
  | .string s => .string .zero (String.ofList s.letters)
  | .array es => .array .zero (nodes es)
  | .object ps => .object .zero (propertyNodes ps)
  | .member o p => .member .zero o.node (.identifier .zero p.text) false
  | .index o k => .member .zero o.node k.node true
  | .call f args => .call .zero (nodes args) f.node
  | .binary l op r => .binary .zero l.node op.text r.node
  | .assign t op v => .assignment .zero t.node v.node (op.map Compound.text)

def nodes : List Expression → List Node
  | [] => []
  | e :: es => e.node :: nodes es

def Property.node : Property → Node
  | .short key => .property .zero key.text .absent
  | .full key value => .property .zero key.text value.node

def propertyNodes : List Property → List Node
  | [] => []
  | p :: ps => p.node :: propertyNodes ps

end

attribute [simp] Expression.node nodes Property.node propertyNodes

mutual

/-- A syntax tree without its positions. -/
def Node.bare : Node → Node
  | .absent => .absent
  | .emptyStatement _ => .emptyStatement .zero
  | .emptyExpression _ => .emptyExpression .zero
  | .program _ body => .program .zero (bareList body)
  | .assignment _ t v op => .assignment .zero t.bare v.bare op
  | .binary _ l op r => .binary .zero l.bare op r.bare
  | .identifier _ n => .identifier .zero n
  | .variable _ c t v => .variable .zero c t.bare v.bare
  | .number _ x => .number .zero x
  | .string _ s => .string .zero s
  | .property _ k v => .property .zero k v.bare
  | .object _ ps => .object .zero (bareList ps)
  | .array _ es => .array .zero (bareList es)
  | .call _ args f => .call .zero (bareList args) f.bare
  | .member _ o p c => .member .zero o.bare p.bare c
  | .function _ n ps body => .function .zero n ps (bareList body)
  | .conditional _ c yes no => .conditional .zero c.bare (bareList yes) (bareList no)
  | .ret _ v => .ret .zero v.bare
  | .importing _ m ns a => .importing .zero m ns a
  | .loop _ body => .loop .zero (bareList body)
  | .while _ c body => .while .zero c.bare (bareList body)
  | .for _ t i body => .for .zero t.bare i.bare (bareList body)
  | .brk _ => .brk .zero
  | .cont _ => .cont .zero
  | .del _ t => .del .zero t.bare
  | .class _ n ms ps => .class .zero n (bareList ms) ps
  | .enum _ n vs => .enum .zero n (bareList vs)
  | .assertion _ c m => .assertion .zero c.bare m

/-- Syntax trees without their positions. -/
def bareList : List Node → List Node
  | [] => []
  | n :: ns => n.bare :: bareList ns

end

attribute [simp] bare bareList

namespace Node

variable {n : Node}

theorem bare_eq_identifier {name} (h : n.bare = .identifier .zero name) : ∃ pos, n = .identifier pos name := by
  cases n with
  | identifier pos name' =>
    cases h
    exact ⟨pos, rfl⟩
  | _ =>
    rw [bare] at h
    cases h

theorem bare_eq_number {x} (h : n.bare = .number .zero x) : ∃ pos, n = .number pos x := by
  cases n with
  | number pos x' =>
    cases h
    exact ⟨pos, rfl⟩
  | _ =>
    rw [bare] at h
    cases h

theorem bare_eq_string {text} (h : n.bare = .string .zero text) : ∃ pos, n = .string pos text := by
  cases n with
  | string pos text' =>
    cases h
    exact ⟨pos, rfl⟩
  | _ =>
    rw [bare] at h
    cases h

theorem bare_eq_array {ns} (h : n.bare = .array .zero ns) :
    ∃ pos parts, n = .array pos parts ∧ bareList parts = ns := by
  cases n with
  | array pos parts =>
    cases h
    exact ⟨pos, parts, rfl, rfl⟩
  | _ =>
    rw [bare] at h
    cases h

theorem bare_eq_object {ns} (h : n.bare = .object .zero ns) :
    ∃ pos parts, n = .object pos parts ∧ bareList parts = ns := by
  cases n with
  | object pos parts =>
    cases h
    exact ⟨pos, parts, rfl, rfl⟩
  | _ =>
    rw [bare] at h
    cases h

theorem bare_eq_property {key value} (h : n.bare = .property .zero key value) :
    ∃ pos part, n = .property pos key part ∧ part.bare = value := by
  cases n with
  | property pos key' part =>
    cases h
    exact ⟨pos, part, rfl, rfl⟩
  | _ =>
    rw [bare] at h
    cases h

theorem bare_eq_assignment {target value operator} (h : n.bare = .assignment .zero target value operator) :
    ∃ pos part part', n = .assignment pos part part' operator ∧ part.bare = target ∧ part'.bare = value := by
  cases n with
  | assignment pos part part' operator' =>
    cases h
    exact ⟨pos, part, part', rfl, rfl, rfl⟩
  | _ =>
    rw [bare] at h
    cases h

theorem bare_eq_binary {left right operator} (h : n.bare = .binary .zero left operator right) :
    ∃ pos part part', n = .binary pos part operator part' ∧ part.bare = left ∧ part'.bare = right := by
  cases n with
  | binary pos part operator' part' =>
    cases h
    exact ⟨pos, part, part', rfl, rfl, rfl⟩
  | _ =>
    rw [bare] at h
    cases h

theorem bare_eq_function {name params ns} (h : n.bare = .function .zero name params ns) :
    ∃ pos parts, n = .function pos name params parts ∧ bareList parts = ns := by
  cases n with
  | function pos name' params' parts =>
    cases h
    exact ⟨pos, parts, rfl, rfl⟩
  | _ =>
    rw [bare] at h
    cases h

end Node

end SmallScript.Syntax
