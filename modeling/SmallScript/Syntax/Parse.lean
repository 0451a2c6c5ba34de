import SmallScript.Syntax.Fault
import SmallScript.Syntax.Node

/-!
# From tokens to syntax trees

A recursive descent over the list of tokens. Binary operators have six levels, from comparisons
(loosest) to powers (tightest), all associating to the left; assignments associate to the right and
bind loosest of all. A type hint (a colon and one token) is skipped.

Every function takes a bound on the depth of the recursion first; `parse` gives one that grows with
the number of tokens, so that it is never reached.
-/

namespace SmallScript.Syntax

open Number

/-- A parser of some kind of phrase: it takes tokens off the front of a list. -/
abbrev Parse (α : Type) := StateT (List Token) (Except ParseFault) α

def Parse.fail {α : Type} (f : ParseFault) : Parse α := fun _ => .error f

def peek : Parse Token := fun ts =>
  match ts with
  | [] => .error .cutOff
  | t :: _ => .ok (t, ts)

def advance : Parse Token := fun ts =>
  match ts with
  | [] => .error .cutOff
  | t :: rest => .ok (t, rest)

def failHere {α : Type} (cause : SyntaxCause) : Parse α := do
  let t ← peek
  Parse.fail (.at t.pos cause)

def expect (kind : TokenKind) (e : Expectation) : Parse Token := do
  let t ← advance
  if t.kind = kind then return t else Parse.fail (.at t.pos (.expected e))

def atKind (kind : TokenKind) : Parse Bool := do
  let t ← peek
  return t.kind = kind

/-- Whether a body ends here: at a closing brace or the end of the source. -/
def atBodyEnd : Parse Bool := do
  let t ← peek
  return t.kind = .eof || t.kind = .closeBrace

def skipTypeHint : Parse Unit := do
  if ← atKind .colon then
    let _ ← advance
    let _ ← advance

/-- The value of a number token: a decimal fraction with digits of any script. -/
def numberValue? (text : String) : Option Float := decimal? text.toList

/-- The binary operators by level, loosest first. -/
def precedence : List (List String) := [
  ["==", "!=", ">", ">=", "<", "<="],
  ["&&", "||"],
  ["&", "|", "^", "<<", ">>"],
  ["+", "-"],
  ["/", "*", "%"],
  ["**"]]

def parameterNames : List Node → Parse (List String)
  | [] => return []
  | .identifier _ name :: rest => return name :: (← parameterNames rest)
  | _ :: _ => failHere .parameterNotName

/-- Puts a statement in front of a body, unless it is a lone semicolon. -/
def keepStatement (s : Node) (body : List Node) : List Node :=
  if s.isSemicolon then body else s :: body

mutual

def parseExpression : Nat → Parse Node
  | 0 => Parse.fail .tooDeep
  | fuel + 1 => do
    let left ← parseLevel fuel precedence
    skipTypeHint
    let t ← peek
    if t.kind = .equals then
      let _ ← advance
      -- two equals signs in a row are no assignment
      let second ← peek
      if second.kind = .equals then fun rest => .ok (left, t :: rest)
      else
        let value ← parseExpression fuel
        return .assignment left.pos left value none
    else if t.kind = .assignmentOperator then
      let _ ← advance
      let value ← parseExpression fuel
      return .assignment left.pos left value (some t.value)
    else return left

/-- An expression whose operators are of the given levels only. -/
def parseLevel : Nat → List (List String) → Parse Node
  | 0, _ => Parse.fail .tooDeep
  | fuel + 1, [] => parseCallMember fuel
  | fuel + 1, ops :: tighter => do
    let left ← parseLevel fuel tighter
    parseOperators fuel ops tighter left

/-- Goes on with operators of one level and operands of the tighter levels. -/
def parseOperators : Nat → List String → List (List String) → Node → Parse Node
  | 0, _, _, _ => Parse.fail .tooDeep
  | fuel + 1, ops, tighter, left => do
    let t ← peek
    if t.value ∈ ops then
      let _ ← advance
      let right ← parseLevel fuel tighter
      parseOperators fuel ops tighter (.binary left.pos left t.value right)
    else return left

def parseCallMember : Nat → Parse Node
  | 0 => Parse.fail .tooDeep
  | fuel + 1 => do
    let first ← parsePrimary fuel
    let callee ← parseMembers fuel first
    parseCalls fuel callee

def parseMembers : Nat → Node → Parse Node
  | 0, _ => Parse.fail .tooDeep
  | fuel + 1, object => do
    let t ← peek
    if t.kind = .dot then
      let _ ← advance
      let property ← parsePrimary fuel
      if property.name?.isNone then failHere .propertyNotName
      else parseMembers fuel (.member object.pos object property false)
    else if t.kind = .openBracket then
      let _ ← advance
      let property ← parseExpression fuel
      let _ ← expect .closeBracket .keyClose
      parseMembers fuel (.member object.pos object property true)
    else return object

def parseCalls : Nat → Node → Parse Node
  | 0, _ => Parse.fail .tooDeep
  | fuel + 1, callee => do
    if ← atKind .openParen then
      let arguments ← parseArguments fuel
      parseCalls fuel (.call callee.pos arguments callee)
    else return callee

def parseArguments : Nat → Parse (List Node)
  | 0 => Parse.fail .tooDeep
  | fuel + 1 => do
    let _ ← expect .openParen .argumentsOpen
    let arguments ←
      if ← atKind .closeParen then pure []
      else do
        let first ← parseExpression fuel
        let rest ← parseMoreArguments fuel
        pure (first :: rest)
    let _ ← expect .closeParen .argumentsClose
    return arguments

/-- Goes on with arguments behind commas; a type hint behind an argument is skipped. -/
def parseMoreArguments : Nat → Parse (List Node)
  | 0 => Parse.fail .tooDeep
  | fuel + 1 => do
    let t ← peek
    if t.kind = .comma then
      let _ ← advance
      let argument ← parseExpression fuel
      let rest ← parseMoreArguments fuel
      return argument :: rest
    else if t.kind = .colon then
      let _ ← advance
      let _ ← advance
      parseMoreArguments fuel
    else return []

def parsePrimary : Nat → Parse Node
  | 0 => Parse.fail .tooDeep
  | fuel + 1 => do
    let t ← peek
    match t.kind with
    | .identifier => do
      let _ ← advance
      return .identifier t.pos t.value
    | .number => do
      let _ ← advance
      match numberValue? t.value with
      | some x => return .number t.pos (.float x)
      | none => Parse.fail (.badNumber t.value)
    | .string => do
      let _ ← advance
      return .string t.pos t.value
    | .break_ => do
      let _ ← advance
      return .brk t.pos
    | .continue_ => do
      let _ ← advance
      return .cont t.pos
    | .binaryOperator => do
      if t.value = "++" || t.value = "--" then
        let _ ← advance
        let name ← peek
        if name.kind = .identifier then
          let _ ← advance
          let next ← peek
          return .assignment name.pos (.identifier name.pos name.value) (.number next.pos (.int 1))
            (some (if t.value = "++" then "+=" else "-="))
        else Parse.fail (.at t.pos .unexpectedOperator)
      else Parse.fail (.at t.pos .unexpectedOperator)
    | .openBracket => parseArray fuel
    | .openBrace => do
      let _ ← advance
      let properties ← parseProperties fuel
      let _ ← expect .closeBrace .objectClose
      return .object t.pos properties
    | .openParen => do
      let _ ← advance
      let inner ← parseExpression fuel
      let _ ← expect .closeParen .groupClose
      return inner
    | .semicolon => do
      let _ ← advance
      return .emptyExpression .zero
    | _ => Parse.fail (.at t.pos (.unexpectedToken t))

def parseArray : Nat → Parse Node
  | 0 => Parse.fail .tooDeep
  | fuel + 1 => do
    let start ← expect .openBracket .arrayOpen
    let elements ←
      if ← atKind .closeBracket then pure []
      else do
        let first ← parseExpression fuel
        let rest ← parseMoreElements fuel
        pure (first :: rest)
    let _ ← expect .closeBracket .arrayClose
    return .array start.pos elements

def parseMoreElements : Nat → Parse (List Node)
  | 0 => Parse.fail .tooDeep
  | fuel + 1 => do
    if ← atKind .comma then
      let _ ← advance
      let element ← parseExpression fuel
      let rest ← parseMoreElements fuel
      return element :: rest
    else return []

/-- The properties of an object literal, up to its closing brace. -/
def parseProperties : Nat → Parse (List Node)
  | 0 => Parse.fail .tooDeep
  | fuel + 1 => do
    if ← atBodyEnd then return []
    else
      let key ← expect .identifier .objectKey
      let t ← peek
      if t.kind = .comma then
        let _ ← advance
        let next ← peek
        let rest ← parseProperties fuel
        return .property next.pos key.value .absent :: rest
      else if t.kind = .closeBrace then
        let rest ← parseProperties fuel
        return .property t.pos key.value .absent :: rest
      else
        let _ ← expect .colon .keyColon
        let value ← parseExpression fuel
        let next ← peek
        if next.kind ≠ .closeBrace then
          let _ ← expect .comma .commaOrBrace
        let rest ← parseProperties fuel
        return .property next.pos key.value value :: rest

end

mutual

def parseStatement : Nat → Parse Node
  | 0 => Parse.fail .tooDeep
  | fuel + 1 => do
    let t ← peek
    match t.kind with
    | .let | .const => do
      let _ ← advance
      let name ← expect .identifier .declaredName
      let target := Node.identifier name.pos name.value
      let constant := decide (t.kind = .const)
      if ← atKind .semicolon then
        let _ ← advance
        if constant then failHere .constantWithoutValue
        else return .variable t.pos constant target .absent
      else
        let _ ← expect .equals .declaredEquals
        let value ← parseExpression fuel
        let _ ← expect .semicolon .declaredEnd
        return .variable t.pos constant target value
    | .func => do
      let _ ← advance
      let name ← expect .identifier .functionName
      let arguments ← parseArguments fuel
      let params ← parameterNames arguments
      let _ ← expect .openBrace .functionOpen
      let body ← parseBody fuel
      let _ ← expect .closeBrace .functionClose
      return .function t.pos name.value params body
    | .if => do
      let _ ← advance
      let _ ← expect .openParen .ifOpen
      let condition ← parseExpression fuel
      let _ ← expect .closeParen .ifClose
      let _ ← expect .openBrace .thenOpen
      let yes ← parseBody fuel
      let _ ← expect .closeBrace .thenClose
      if ← atKind .else_ then
        let _ ← advance
        let _ ← expect .openBrace .elseOpen
        let no ← parseBody fuel
        let _ ← expect .closeBrace .elseClose
        return .conditional t.pos condition yes no
      else return .conditional t.pos condition yes []
    | .assert => do
      let _ ← advance
      let condition ← parseExpression fuel
      if ← atKind .comma then
        let _ ← advance
        let message ← parseExpression fuel
        match message.string? with
        | some text => return .assertion condition.pos condition (some text)
        | none => failHere .messageNotString
      else
        let _ ← expect .semicolon .assertEnd
        return .assertion condition.pos condition none
    | .return => do
      let _ ← advance
      if ← atKind .semicolon then
        let _ ← advance
        return .ret t.pos .absent
      else
        let value ← parseExpression fuel
        let _ ← expect .semicolon .returnEnd
        return .ret t.pos value
    | .import_ => do
      let _ ← advance
      let module ← expect .string .importModule
      if ← atKind .as_ then
        let _ ← advance
        let newName ← expect .string .importAlias
        return .importing t.pos module.value none (some newName.value)
      else return .importing t.pos module.value none none
    | .from_ => do
      let _ ← advance
      let module ← expect .string .fromModule
      if !(← atKind .import_) then failHere .importMissing
      else
        let _ ← advance
        match ← parseArray fuel with
        | .array _ [] => failHere .importNothing
        | .array _ elements =>
          match elements.mapM Node.string? with
          | some names => return .importing t.pos module.value (some names) none
          | none => failHere .importNotString
        | _ => failHere .importNotString
    | .while_ => do
      let _ ← advance
      let _ ← expect .openParen .whileOpen
      let condition ← parseExpression fuel
      let _ ← expect .closeParen .whileClose
      let _ ← expect .openBrace .whileBodyOpen
      let body ← parseBody fuel
      let _ ← expect .closeBrace .whileBodyClose
      return .while t.pos condition body
    | .loop => do
      let _ ← advance
      let _ ← expect .openBrace .loopOpen
      let body ← parseBody fuel
      let _ ← expect .closeBrace .loopClose
      return .loop t.pos body
    | .for_ => do
      let _ ← advance
      let name ← expect .identifier .forName
      let _ ← expect .in_ .forIn
      let iterator ← parseExpression fuel
      let _ ← expect .openBrace .forOpen
      let body ← parseBody fuel
      let _ ← expect .closeBrace .forClose
      return .for t.pos (.identifier name.pos name.value) iterator body
    | .del => do
      let _ ← advance
      let name ← expect .identifier .delName
      return .del t.pos (.identifier name.pos name.value)
    | .class_ => do
      let _ ← advance
      let name ← expect .identifier .className
      let _ ← expect .openBrace .classOpen
      let (members, params) ← parseClassMembers fuel
      let _ ← expect .closeBrace .classClose
      return .class t.pos name.value members (some params)
    | .enum => do
      let _ ← advance
      let name ← expect .identifier .className
      let _ ← expect .openBrace .classOpen
      let values ← parseEnumMembers fuel
      let _ ← expect .closeBrace .classClose
      return .enum t.pos name.value values
    | _ => parseExpression fuel

/-- The statements of a body, up to its closing brace or the end of the source. -/
def parseBody : Nat → Parse (List Node)
  | 0 => Parse.fail .tooDeep
  | fuel + 1 => do
    if ← atBodyEnd then return []
    else
      let s ← parseStatement fuel
      let rest ← parseBody fuel
      return keepStatement s rest

/-- The members of a class: assignments and functions; names are its parameters. -/
def parseClassMembers : Nat → Parse (List Node × List String)
  | 0 => Parse.fail .tooDeep
  | fuel + 1 => do
    if ← atBodyEnd then return ([], [])
    else
      let s ← parseStatement fuel
      if s.isSemicolon then parseClassMembers fuel
      else match s with
        | .assignment .. | .function .. => do
          let (members, params) ← parseClassMembers fuel
          return (s :: members, params)
        | .identifier _ name => do
          let (members, params) ← parseClassMembers fuel
          return (members, name :: params)
        | _ => failHere .badClassMember

def parseEnumMembers : Nat → Parse (List Node)
  | 0 => Parse.fail .tooDeep
  | fuel + 1 => do
    if ← atBodyEnd then return []
    else
      let s ← parseStatement fuel
      if s.isSemicolon then parseEnumMembers fuel
      else match s with
        | .identifier _ _ => return s :: (← parseEnumMembers fuel)
        | _ => failHere .badEnumMember

end

def parseStatements : Nat → Parse (List Node)
  | 0 => Parse.fail .tooDeep
  | fuel + 1 => do
    if ← atKind .eof then return []
    else
      let s ← parseStatement fuel
      let rest ← parseStatements fuel
      return keepStatement s rest

/-- A bound on the depth of the recursion that no list of tokens of that length reaches. -/
def depthBound (tokens : List Token) : Nat := 16 * (tokens.length + 1)

def parseTokens (tokens : List Token) : Except ParseFault (List Node) :=
  (parseStatements (depthBound tokens) tokens).map (·.1)

def parse (source : String) : Except ParseFault Node :=
  match tokenize source with
  | .error f => .error f.toParseFault
  | .ok tokens => (parseTokens tokens).map (.program .zero ·)

end SmallScript.Syntax
