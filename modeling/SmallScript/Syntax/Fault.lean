import SmallScript.Syntax.Lexer
import SmallScript.Text.Colour

/-!
# Syntax faults

What can be wrong with a source text, and the report that is made of it: the line in question, a
marker below the place, and the message.
-/

namespace SmallScript.Syntax

open Text

inductive Expectation where
  | argumentsOpen | argumentsClose
  | keyClose
  | arrayOpen | arrayClose
  | groupClose
  | objectKey | keyColon | commaOrBrace | objectClose
  | assertEnd
  | ifOpen | ifClose | thenOpen | thenClose | elseOpen | elseClose
  | returnEnd
  | functionName | functionOpen | functionClose
  | className | classOpen | classClose
  | declaredName | declaredEquals | declaredEnd
  | importModule | importAlias | fromModule
  | loopOpen | loopClose
  | forName | forIn | forOpen | forClose
  | delName
  | whileOpen | whileClose | whileBodyOpen | whileBodyClose
deriving DecidableEq, Repr

def Expectation.message : Expectation → String
  | .argumentsOpen => "Expected an open parenthesis."
  | .argumentsClose => "Expected a closing parenthesis."
  | .keyClose => "Expected a closing bracket."
  | .arrayOpen => "Expected an opening bracket '[' for array."
  | .arrayClose => "Expected a closing bracket ']' for array."
  | .groupClose =>
    "Unexpected token found inside parenthesised expression, expected closing parenthesis."
  | .objectKey => "Expected an identifier as a key."
  | .keyColon => "Expected a colon after the key."
  | .commaOrBrace => "Expected a comma or closing brace after the value."
  | .objectClose => "Expected a closing brace after the object."
  | .assertEnd => "Expected a semicolon after the assert."
  | .ifOpen => "Expected an opening parenthesis for the if condition."
  | .ifClose => "Expected a closing parenthesis after the if condition."
  | .thenOpen => "Expected an opening brace for the if body."
  | .thenClose => "Expected a closing brace after the if body."
  | .elseOpen => "Expected an opening brace for the else body."
  | .elseClose => "Expected a closing brace after the else body."
  | .returnEnd => "Expected a semicolon after the return."
  | .functionName => "Expected an function name after the function keyword."
  | .functionOpen => "Expected an opening brace."
  | .functionClose => "Expected a closing brace after the function body."
  | .className => "Expected a class name after the class keyword."
  | .classOpen => "Expected an opening brace for the class body."
  | .classClose => "Expected a closing brace after the class body."
  | .declaredName => "Expected an identifier after a declaration."
  | .declaredEquals => "Expected an equals sign after the identifier."
  | .declaredEnd => "Expected a semicolon after the declaration."
  | .importModule => "Expected a string after the import keyword."
  | .importAlias => "Expected a string for the import alias."
  | .fromModule => "Expected a string after the from keyword."
  | .loopOpen => "Expected opening brace for the loop statement."
  | .loopClose => "Expected closing brace for the loop statement."
  | .forName => "Expected an identifier for the loop variable."
  | .forIn => "Expected the 'in' keyword for the for loop."
  | .forOpen => "Expected opening brace for the for statement."
  | .forClose => "Expected closing brace for the for statement."
  | .delName => "Expected an identifier after the del keyword."
  | .whileOpen => "Expected an opening parenthesis for the while condition."
  | .whileClose => "Expected a closing parenthesis after the while condition."
  | .whileBodyOpen => "Expected opening brace for the while statement."
  | .whileBodyClose => "Expected closing brace for the while statement."

inductive SyntaxCause where
  | unknownCharacter (c : Char)
  | unexpectedToken (t : Token)
  | unexpectedOperator
  | expected (e : Expectation)
  | propertyNotName
  | messageNotString
  | parameterNotName
  | badEnumMember
  | badClassMember
  | constantWithoutValue
  | importMissing
  | importNothing
  | importNotString
deriving DecidableEq

def SyntaxCause.message : SyntaxCause → String
  | .unknownCharacter c => s!"Unknown character found in source '{Colour.magenta.paint c.toString}'"
  | .unexpectedToken t => s!"Unexpected token. {t.text}"
  | .unexpectedOperator => "Unexpected binary operator found."
  | .expected e => e.message
  | .propertyNotName => "Expected an identifier as a property."
  | .messageNotString => "Assert message must be a string."
  | .parameterNotName => "Function arguments must be identifiers."
  | .badEnumMember => "Invalid statement in enum body."
  | .badClassMember => "Invalid statement in class body."
  | .constantWithoutValue => "Constant declaration must have an initial value."
  | .importMissing => "Expected an import keyword after the from keyword."
  | .importNothing => "Import properties must not be empty."
  | .importNotString => "Import properties must be strings."

def linesOf (cs : List Char) : List (List Char) :=
  match cs with
  | [] => [[]]
  | c :: rest =>
    match c == '\n', linesOf rest with
    | true, ls => [] :: ls
    | false, l :: ls => (c :: l) :: ls
    | false, [] => [[c]]

/-- The line with the given number, counted from 1; zero and negative numbers count from the end. -/
def lineOf? (source : String) (line : Int) : Option String :=
  let ls := linesOf source.toList
  let i := line - 1
  let i := if i < 0 then i + ls.length else i
  if i < 0 then none else (ls[i.toNat]?).map String.ofList

def padLeft (width : Int) (s : String) : String :=
  "".pushn ' ' (width - s.length).toNat ++ s

/-- The report of a fault: the line, a marker under the place, the message. There is none if the
source has no such line. -/
def report? (source : String) (pos : Pos) (message : String) : Option String := do
  let text ← lineOf? source pos.line
  let number := padLeft 3 (toString pos.line)
  let marker := "".pushn '^' pos.len.toNat
  let col := pos.col - (pos.len - 1)
  let placed := padLeft (col + number.length + 2 + marker.length) marker
  return Colour.cyan.paint (number ++ " |") ++ " " ++ text ++ "\n" ++ Colour.yellow.paint placed ++ "\n"
    ++ Colour.red.paint "SyntaxError" ++ ": " ++ message

inductive ParseFault where
  /-- a fault at a place in the source -/
  | at (pos : Pos) (cause : SyntaxCause)
  /-- a string without closing quote -/
  | unclosedString
  /-- a minus sign at the very end of the source -/
  | lastMinus
  /-- a type hint at the very end of the source -/
  | cutOff
  /-- a number with a digit that has no decimal value -/
  | badNumber (text : String)
  /-- the nesting is deeper than the bound on the recursion -/
  | tooDeep
deriving DecidableEq

def LexFault.toParseFault (f : LexFault) : ParseFault :=
  match f.cause with
  | .lastMinus => .lastMinus
  | .unclosedString => .unclosedString
  | .unknown c => .at (f.place.pos 1) (.unknownCharacter c)

end SmallScript.Syntax
