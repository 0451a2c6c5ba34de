import SmallScript.Syntax.Token
import SmallScript.Number.Arith

/-!
# Syntax trees

One type of node serves statements and expressions. Trees are as loose as the evaluator accepts
them: an operator is kept as it is written, and a target may be any node. `Node.absent` stands for a
part that is left out.
-/

namespace SmallScript.Syntax

open Number

inductive Node where
  /-- a part that is left out -/
  | absent
  /-- a statement without content -/
  | emptyStatement (pos : Pos)
  /-- an expression without content, such as a lone semicolon -/
  | emptyExpression (pos : Pos)
  | program (pos : Pos) (body : List Node)
  /-- an assignment, plain or with a compound operator -/
  | assignment (pos : Pos) (target value : Node) (operator : Option String)
  | binary (pos : Pos) (left : Node) (operator : String) (right : Node)
  | identifier (pos : Pos) (name : String)
  | variable (pos : Pos) (constant : Bool) (target value : Node)
  | number (pos : Pos) (value : Numeric)
  | string (pos : Pos) (value : String)
  /-- a property of an object literal; without value it stands for the variable of that name -/
  | property (pos : Pos) (key : String) (value : Node)
  | object (pos : Pos) (properties : List Node)
  | array (pos : Pos) (elements : List Node)
  | call (pos : Pos) (arguments : List Node) (callee : Node)
  /-- an access to a member, by name or by a computed key -/
  | member (pos : Pos) (object property : Node) (computed : Bool)
  | function (pos : Pos) (name : String) (params : List String) (body : List Node)
  | conditional (pos : Pos) (condition : Node) (yes no : List Node)
  | ret (pos : Pos) (value : Node)
  | importing (pos : Pos) (module : String) (names : Option (List String)) (newName : Option String)
  | loop (pos : Pos) (body : List Node)
  | while (pos : Pos) (condition : Node) (body : List Node)
  /-- a loop over an array -/
  | for (pos : Pos) (target iterator : Node) (body : List Node)
  /-- leaving a loop -/
  | brk (pos : Pos)
  /-- going on with the next round of a loop -/
  | cont (pos : Pos)
  /-- removal of a variable -/
  | del (pos : Pos) (target : Node)
  | class (pos : Pos) (name : String) (members : List Node) (params : Option (List String))
  | enum (pos : Pos) (name : String) (values : List Node)
  | assertion (pos : Pos) (condition : Node) (message : Option String)
deriving Inhabited

def Node.pos : Node → Pos
  | .absent => .zero
  | .emptyStatement p | .emptyExpression p | .program p _ | .assignment p .. | .binary p ..
  | .identifier p _ | .variable p .. | .number p _ | .string p _ | .property p .. | .object p _
  | .array p _ | .call p .. | .member p .. | .function p .. | .conditional p .. | .ret p _
  | .importing p .. | .loop p _ | .while p .. | .for p .. | .brk p | .cont p | .del p _
  | .class p .. | .enum p .. | .assertion p .. => p

def Node.isAbsent : Node → Bool
  | .absent => true
  | _ => false

/-- The expression that a lone semicolon stands for; it is dropped from bodies. -/
def Node.isSemicolon : Node → Bool
  | .emptyExpression p => p == .zero
  | _ => false

def Node.name? : Node → Option String
  | .identifier _ n => some n
  | _ => none

def Node.string? : Node → Option String
  | .string _ s => some s
  | _ => none

mutual

/-- Equality of trees, positions included. -/
def Node.same : Node → Node → Bool
  | .absent, .absent => true
  | .emptyStatement p, .emptyStatement q => p == q
  | .emptyExpression p, .emptyExpression q => p == q
  | .program p xs, .program q ys => p == q && Node.sameList xs ys
  | .assignment p t v o, .assignment q t' v' o' => p == q && t.same t' && v.same v' && o == o'
  | .binary p l o r, .binary q l' o' r' => p == q && l.same l' && o == o' && r.same r'
  | .identifier p n, .identifier q n' => p == q && n == n'
  | .variable p c t v, .variable q c' t' v' => p == q && c == c' && t.same t' && v.same v'
  | .number p n, .number q n' => p == q && n.eq n'
  | .string p s, .string q s' => p == q && s == s'
  | .property p k v, .property q k' v' => p == q && k == k' && v.same v'
  | .object p xs, .object q ys => p == q && Node.sameList xs ys
  | .array p xs, .array q ys => p == q && Node.sameList xs ys
  | .call p xs f, .call q ys f' => p == q && Node.sameList xs ys && f.same f'
  | .member p o k c, .member q o' k' c' => p == q && o.same o' && k.same k' && c == c'
  | .function p n ps b, .function q n' ps' b' => p == q && n == n' && ps == ps' && Node.sameList b b'
  | .conditional p c y n, .conditional q c' y' n' =>
    p == q && c.same c' && Node.sameList y y' && Node.sameList n n'
  | .ret p v, .ret q v' => p == q && v.same v'
  | .importing p m ns a, .importing q m' ns' a' => p == q && m == m' && ns == ns' && a == a'
  | .loop p b, .loop q b' => p == q && Node.sameList b b'
  | .while p c b, .while q c' b' => p == q && c.same c' && Node.sameList b b'
  | .for p t i b, .for q t' i' b' => p == q && t.same t' && i.same i' && Node.sameList b b'
  | .brk p, .brk q => p == q
  | .cont p, .cont q => p == q
  | .del p t, .del q t' => p == q && t.same t'
  | .class p n ms ps, .class q n' ms' ps' => p == q && n == n' && Node.sameList ms ms' && ps == ps'
  | .enum p n vs, .enum q n' vs' => p == q && n == n' && Node.sameList vs vs'
  | .assertion p c m, .assertion q c' m' => p == q && c.same c' && m == m'
  | _, _ => false

def Node.sameList : List Node → List Node → Bool
  | [], [] => true
  | x :: xs, y :: ys => x.same y && Node.sameList xs ys
  | _, _ => false

end

end SmallScript.Syntax
