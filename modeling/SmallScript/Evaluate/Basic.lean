import SmallScript.Evaluate.Operator
import SmallScript.Evaluate.Member
import SmallScript.Evaluate.Import
import SmallScript.Library.Call

/-!
# Evaluation

`eval` gives a syntax tree its meaning in a scope. All functions here have a bound on the depth of
the recursion as their first argument; when it is used up, evaluation fails with
`Failure.outOfFuel`.

A call evaluates its arguments before the function. A body that a `return`, `break` or `continue`
leaves early is left by a signal, which the function call or the loop around it takes.

An evaluation can be looked on. An observer is told of every node before and after it is evaluated and of every native
function before it is called, and may act on the machine. Programs are run with the observer that does nothing.
-/

namespace SmallScript.Evaluate

open Machine
open Value (ScopeRef ObjectRef Native guardedModules)
open Syntax
open Data (Table)
open Inspect (nodeDatum nodeKind pretty Layout)

inductive Event where
  /-- a node is about to be evaluated in a scope -/
  | enter (n : Node) (s : ScopeRef)
  /-- a node has been evaluated in a scope and has this value -/
  | leave (n : Node) (s : ScopeRef) (v : Value)
  /-- a native function is about to be called from a scope -/
  | call (f : Native) (args : List Value) (s : ScopeRef)

/-- One that looks on: what is done at every event. -/
class Observer where
  notice : Event → Action Unit

/-- Nobody looks on. -/
instance Observer.silent : Observer := ⟨fun _ => pure ()⟩

inductive CompoundTarget where
  | variable (name : String)
  | value (v : Value)
  /-- something that cannot be changed so -/
  | other

def CompoundTarget.current (t : CompoundTarget) (s : ScopeRef) (pos : Pos) : Action Value :=
  match t with
  | .variable name => Action.consult (·.lookup s name)
  | .value (.num n stamp) => return .num n stamp
  | _ => Action.problem (.compoundTarget pos)

def declare (s : ScopeRef) (name : String) (v : Value) (constant overwrite : Bool) : Action Value := do
  Action.scoping (·.declare s name v constant overwrite)
  return v

def assign (s : ScopeRef) (name : String) (v : Value) : Action Value := do
  Action.scoping (·.assign s name v false)
  return v

/-- Gives the variable of a loop its former value, or removes it if it had none. -/
def restore (s : ScopeRef) (name : String) (saved : Option Value) : Action Unit :=
  match saved with
  | some v => Action.scoping (·.assign s name v true)
  | none => Action.scoping (·.delete s name)

/-- Declares the parameters of a function; missing arguments are null. -/
def declareParams (s : ScopeRef) : List String → List Value → Action Unit
  | [], _ => pure ()
  | p :: ps, args => do
    Action.scoping (·.declare s p (args.headD .null) false false)
    declareParams s ps args.tail

def importNames (s : ScopeRef) (module : String) (pos : Pos) (source : Heap → Table Value) :
    List String → Action Unit
  | [] => pure ()
  | name :: rest => do
    match (source (← Action.heap)).get? name with
    | some v => Action.scoping (·.declare s name v true true)
    | none => Action.problem (.notInModule name module pos)
    importNames s module pos source rest

def importObject (s : ScopeRef) (module : String) (pos : Pos) (ref : ObjectRef)
    (names : Option (List String)) (newName : Option String) : Action Unit :=
  match names.getD [] with
  | [] =>
    let name := match newName with
      | some a => if a.isEmpty then module else a
      | none => module
    Action.scoping (·.declare s name (.object ref) true false)
  | names => importNames s module pos (·.fields ref) names

def construct (pos : Pos) (c : ClassDef) (args : List Value) : Action Value :=
  match c.params.getD [] with
  | [] => Action.problem (.notCallable pos)
  | params =>
    if params.length = args.length then
      Action.onHeap (·.newObject ((Table.ofList (params.zip args)).insertAll c.members.entries) false)
    else Action.problem (.argumentCount params args.length pos)

/-- Reports a node without meaning: it is printed first. -/
def unknownNode (n : Node) : Action Value := do
  Action.printLine "=== AST node ERROR ==="
  match pretty .standard (nodeDatum n) with
  | .ok text => Action.printLine text
  | .error f => Action.fail (.pretty f)
  Action.problem (.unknownNode n.pos)

def enumEntries (pos : Pos) : List Node → Except Problem (List (String × Value))
  | [] => .ok []
  | .identifier _ name :: rest => return (name, .str name) :: (← enumEntries pos rest)
  | _ :: _ => .error (.enumMember pos)

/-- A member of an object may be assigned to: the object is no constant of that name and not frozen. -/
def checkAssignable (s : ScopeRef) (pos : Pos) (holder : Node) (ref : ObjectRef) (key : String) :
    Action Unit := do
  match holder.name? with
  | some name =>
    let found ← Action.consult (·.resolve s name)
    if (← Action.heap).isConstant found name then Action.problem (.constantObject name pos)
  | none => pure ()
  if (← Action.heap).isFrozen ref then Action.problem (.frozenObject key pos)

def outsideProblem (pos : Pos) : Signal → Signal
  | .ret _ => .failure (.problem (.returnOutside pos))
  | .brk => .failure (.problem (.breakOutside pos))
  | .cont => .failure (.problem (.continueOutside pos))
  | e => e

section

variable [Observer]

mutual

/-- The value of a node in a scope, with an observer told before and after. -/
def eval : Nat → Node → ScopeRef → Action Value
  | 0, _, _ => Action.fail .outOfFuel
  | fuel + 1, n, s => do
    Observer.notice (.enter n s)
    let v ← evalNode fuel n s
    Observer.notice (.leave n s v)
    return v

def evalNode : Nat → Node → ScopeRef → Action Value
  | 0, _, _ => Action.fail .outOfFuel
  | _ + 1, .absent, _ => return .null
  | _ + 1, .number _ n, _ => Action.number n
  | _ + 1, .string _ text, _ => return .str text
  | fuel + 1, .array _ elements, s => do Action.array (← evalAll fuel elements s)
  | _ + 1, .identifier _ name, s => Action.consult (·.lookup s name)
  | fuel + 1, .binary pos left op right, s => do
    let a ← eval fuel left s
    let b ← eval fuel right s
    binary pos op a b
  | fuel + 1, .assignment pos target value op, s => evalAssignment fuel pos target value op s
  | fuel + 1, .call pos args callee, s => do
    let args ← evalAll fuel args s
    let f ← eval fuel callee s
    evalCall fuel pos f args s
  | fuel + 1, .program pos body, s => do
    match ← Action.attempt (evalBody fuel .null body s) with
    | .ok v => return v
    | .error e => throw (outsideProblem pos e)
  | fuel + 1, .class pos name members params, s => do
    let members ← evalMembers fuel pos .empty members s
    let c ← Action.onHeap (·.newClass ⟨name, members, params⟩)
    Action.scoping (·.declare s name c false false)
    return .null
  | _ + 1, .enum pos name values, s => do
    match enumEntries pos values with
    | .error p => Action.problem p
    | .ok entries =>
      let e ← Action.onHeap (·.newEnum ⟨name, Table.ofList entries⟩)
      Action.scoping (·.declare s name e false false)
      return .null
  | fuel + 1, .variable _ constant target value, s => do
    let v ← eval fuel value s
    match target.name? with
    | some name => declare s name v constant false
    | none => Action.fail (.attribute (nodeKind target) "symbol")
  | _ + 1, .function _ name params body, s => do
    let f ← Action.onHeap (·.newClosure ⟨name, params, s, body⟩)
    declare s name f false false
  | fuel + 1, .member pos object property computed, s => evalMember fuel pos object property computed s
  | fuel + 1, .object _ properties, s => do
    let fields ← evalFields fuel .empty properties s
    Action.onHeap (·.newObject fields false)
  | fuel + 1, .conditional _ condition yes no, s => do
    match (← eval fuel condition s).truth? with
    | some true => evalBody fuel .null yes s
    | some false => evalBody fuel .null (no.filter (!·.isAbsent)) s
    | none => return .null
  | fuel + 1, .assertion pos condition message, s => do
    match ← eval fuel condition s with
    | .bool true => return .null
    | .bool false => Action.problem (.assertionFailed message pos)
    | _ => Action.problem (.assertNotBool pos)
  | _ + 1, .del pos target, s => do
    match target.name? with
    | some name => Action.scoping (·.delete s name)
    | none => Action.problem (.delTarget pos)
    return .null
  | fuel + 1, .loop _ body, s => evalLoop fuel body s
  | fuel + 1, .while _ condition body, s => evalWhile fuel condition body s
  | fuel + 1, .for pos target iterator body, s => do
    match target.name? with
    | some name => evalFor fuel pos name iterator body s
    | none => Action.problem (.forTarget pos)
  | _ + 1, .brk _, _ => throw .brk
  | _ + 1, .cont _, _ => throw .cont
  | fuel + 1, .ret _ value, s => do throw (.ret (← eval fuel value s))
  | fuel + 1, .importing pos module names newName, s => evalImport fuel pos module names newName s
  | _ + 1, n@(.emptyStatement _), _ => unknownNode n
  | _ + 1, n@(.emptyExpression _), _ => unknownNode n
  | _ + 1, n@(.property ..), _ => unknownNode n

def evalAll : Nat → List Node → ScopeRef → Action (List Value)
  | 0, _, _ => Action.fail .outOfFuel
  | _ + 1, [], _ => return []
  | fuel + 1, n :: rest, s => do
    let v ← eval fuel n s
    return v :: (← evalAll fuel rest s)

/-- Evaluates statements in order; the value is that of the last one, or the given one if there is
none. -/
def evalBody : Nat → Value → List Node → ScopeRef → Action Value
  | 0, _, _, _ => Action.fail .outOfFuel
  | _ + 1, last, [], _ => return last
  | fuel + 1, _, n :: rest, s => do
    let v ← eval fuel n s
    evalBody fuel v rest s

def evalFields : Nat → Table Value → List Node → ScopeRef → Action (Table Value)
  | 0, _, _, _ => Action.fail .outOfFuel
  | _ + 1, fields, [], _ => return fields
  | fuel + 1, fields, .property _ key value :: rest, s => do
    let v ← if value.isAbsent then Action.consult (·.lookup s key) else eval fuel value s
    evalFields fuel (fields.insert key v) rest s
  | _ + 1, _, n :: _, _ => Action.fail (.attribute (nodeKind n) "value")

def evalMembers : Nat → Pos → Table Value → List Node → ScopeRef → Action (Table Value)
  | 0, _, _, _, _ => Action.fail .outOfFuel
  | _ + 1, _, members, [], _ => return members
  | fuel + 1, pos, members, .function _ name params body :: rest, s => do
    let inner ← Action.onHeap (·.newScope s)
    let f ← Action.onHeap (·.newClosure ⟨name, params, inner, body⟩)
    evalMembers fuel pos (members.insert name f) rest s
  | fuel + 1, pos, members, .assignment _ target value _ :: rest, s => do
    let v ← eval fuel value s
    match target.name? with
    | some name => evalMembers fuel pos (members.insert name v) rest s
    | none => Action.problem (.classProperty pos)
  | _ + 1, _, _, .absent :: _, _ => Action.fail (.attribute (nodeKind .absent) "position")
  | _ + 1, _, _, n :: _, _ => Action.problem (.classMember n.pos)

def evalMember : Nat → Pos → Node → Node → Bool → ScopeRef → Action Value
  | 0, _, _, _, _, _ => Action.fail .outOfFuel
  | fuel + 1, pos, object, property, computed, s => do
    let v ← eval fuel object s
    if !hasMembers v then Action.problem (.noMembers pos)
    if computed then
      let key ← eval fuel property s
      match holder? (← Action.heap) v with
      | some holder => computedMember pos holder key
      | none => Action.problem (.noMembers pos)
    else
      match holder? (← Action.heap) v with
      | some holder => writtenMember pos holder property.name?
      | none => Action.problem (.noMembers pos)

def evalAssignment : Nat → Pos → Node → Node → Option String → ScopeRef → Action Value
  | 0, _, _, _, _, _ => Action.fail .outOfFuel
  | fuel + 1, pos, target, value, op, s => do
    let v ← eval fuel value s
    let compoundOp := op.getD ""
    if !compoundOp.isEmpty && !compoundOperators.contains compoundOp then
      Action.problem (.unknownAssignment s!"'{compoundOp}'" pos)
    match target with
    | .identifier _ name =>
      let v ← if compoundOp.isEmpty then pure v
        else evalCompound fuel pos (.variable name) value op s
      assign s name v
    | .member _ object property _ =>
      let (holder, key) ← resolveMember fuel true object property s
      match holder with
      | .object ref =>
        checkAssignable s pos object ref key
        let v ← if compoundOp.isEmpty then pure v
          else match ((← Action.heap).fields ref).get? key with
            | some old => evalCompound fuel pos (.value old) value op s
            | none => Action.fail (.lookup (.key key))
        Action.modifyHeap (·.setField ref key v)
        return v
      | other => Action.problem (.assignNonObject other.kind pos)
    | _ => Action.problem (.assignTarget pos)

/-- The new value in a compound assignment; the right side is evaluated anew. -/
def evalCompound : Nat → Pos → CompoundTarget → Node → Option String → ScopeRef → Action Value
  | 0, _, _, _, _, _ => Action.fail .outOfFuel
  | fuel + 1, pos, target, value, op, s => do
    let new ← eval fuel value s
    let old ← target.current s pos
    compoundValue pos op old new

/-- The object and the key that a member stands for. With `create`, anything that is no object is
replaced by a new empty one. -/
def resolveMember : Nat → Bool → Node → Node → ScopeRef → Action (Value × String)
  | 0, _, _, _, _ => Action.fail .outOfFuel
  | fuel + 1, create, object, property, s => do
    let plain ← eval fuel object s
    let holder ← match object with
      | .member _ outer inner _ => do
        let (parent, key) ← resolveMember fuel create outer inner s
        match parent with
        | .object ref => pure ((((← Action.heap).fields ref).get? key).getD .null)
        | _ => if create then Action.object [] else pure .null
      | _ => pure plain
    let holder ← match holder with
      | .object ref => pure (.object ref)
      | v => if create then Action.object [] else pure v
    match property.name? with
    | some name => return (holder, name)
    | none =>
      let key ← eval fuel property s
      return (holder, ← Action.inspect key)

def evalCall : Nat → Pos → Value → List Value → ScopeRef → Action Value
  | 0, _, _, _, _ => Action.fail .outOfFuel
  | fuel + 1, pos, f, args, s => do
    match f with
    | .native f => do
      Observer.notice (.call f args s)
      Library.call f args s pos
    | .cls ref =>
      match (← Action.heap).classes[ref]? with
      | some c => construct pos c args
      | none => Action.problem (.notCallable pos)
    | .func ref =>
      match (← Action.heap).closures[ref]? with
      | some c =>
        let inner ← Action.onHeap (·.newScope c.scope)
        declareParams inner c.params args
        match ← Action.attempt (evalBody fuel .null c.body inner) with
        | .ok _ => return .null
        | .error (.ret v) => return v
        | .error e => throw e
      | none => Action.problem (.notCallable pos)
    | _ => Action.problem (.notCallable pos)

def evalLoop : Nat → List Node → ScopeRef → Action Value
  | 0, _, _ => Action.fail .outOfFuel
  | fuel + 1, body, s => do
    match ← Action.attempt (evalBody fuel .null body s) with
    | .ok _ | .error .cont => evalLoop fuel body s
    | .error .brk => return .null
    | .error e => throw e

/-- Repeats a body as long as a condition counts as true. A condition that does not count at all is
evaluated again. -/
def evalWhile : Nat → Node → List Node → ScopeRef → Action Value
  | 0, _, _, _ => Action.fail .outOfFuel
  | fuel + 1, condition, body, s => do
    match ← Action.attempt (eval fuel condition s) with
    | .error .brk => return .null
    | .error e => throw e
    | .ok v =>
      match v.truth? with
      | some false => return .null
      | none => evalWhile fuel condition body s
      | some true =>
        match ← Action.attempt (evalBody fuel .null body s) with
        | .ok _ | .error .cont => evalWhile fuel condition body s
        | .error .brk => return .null
        | .error e => throw e

def evalFor : Nat → Pos → String → Node → List Node → ScopeRef → Action Value
  | 0, _, _, _, _, _ => Action.fail .outOfFuel
  | fuel + 1, pos, name, iterator, body, s => do
    match ← Action.attempt (eval fuel iterator s) with
    | .error .brk => restore s name none
    | .error e => throw e
    | .ok (.array ref) =>
      let saved := (← Action.heap).lookup? s name
      evalRounds fuel name ref 0 body s
      restore s name saved
    | .ok _ => Action.problem (.forIterator pos)
    return .null

/-- Runs a body for the elements of an array from an index on. The array may change on the way. -/
def evalRounds : Nat → String → Nat → Nat → List Node → ScopeRef → Action Unit
  | 0, _, _, _, _, _ => Action.fail .outOfFuel
  | fuel + 1, name, ref, i, body, s => do
    match ((← Action.heap).elements ref)[i]? with
    | none => pure ()
    | some v =>
      Action.scoping (·.declare s name v false true)
      match ← Action.attempt (evalBody fuel .null body s) with
      | .ok _ | .error .cont => evalRounds fuel name ref (i + 1) body s
      | .error .brk => pure ()
      | .error e => throw e

def evalImport :
    Nat → Pos → String → Option (List String) → Option String → ScopeRef → Action Value
  | 0, _, _, _, _, _ => Action.fail .outOfFuel
  | fuel + 1, pos, module, names, newName, s => do
    match Heap.module? module with
    | some ref =>
      if guardedModules.contains module && (← Action.heap).isGuarded s then
        Action.problem (.importGuarded module pos)
      importObject s module pos ref names newName
    | none =>
      let source ← moduleSource module pos
      match parse source with
      | .error f => Action.fail (.parse source f)
      | .ok program =>
        let inner ← Action.onHeap (·.newScope s)
        let _ ← eval fuel program inner
        importObject s module pos (.scope inner) names newName
    return .null

end

/-- A bound that no program of practical size uses up. -/
def fuelBound : Nat := 1000000000

def evaluate (n : Node) (s : ScopeRef) : Action Value := eval fuelBound n s

end

end SmallScript.Evaluate
