import SmallScript.Machine.Failure

/-!
# Coloured source texts

Every token gets its colour put in front of it and the plain colour behind it. The places are counted
in characters from the line and the column of the token, each moved by two for every token before.
-/

namespace SmallScript.Markup

open Syntax Text

def kindColour : TokenKind → Colour
  | .openParen | .closeParen | .openBrace | .closeBrace | .openBracket | .closeBracket => .blue
  | .binaryOperator | .equals | .semicolon | .comma | .colon | .dot => .yellow
  | .number | .string | .doubleQuote => .green
  | .let | .const | .func => .red
  | _ => .plain

def functionWords : List String := [
  "print", "time", "input", "readfile", "len", "exit", "str", "int", "bool", "array", "type", "sum",
  "min", "max"]

def tokenColour (t : Token) : Colour :=
  if functionWords.contains t.value then .cyan else kindColour t.kind

/-- Puts an item in front of the item at an index. Beyond the end it goes to the end; a negative index
counts from the end. -/
def insertAt {α : Type} (xs : List α) (i : Int) (x : α) : List α :=
  let i := if i < 0 then i + xs.length else i
  let n := i.toNat
  xs.take n ++ x :: xs.drop n

/-- Colours the tokens from some point on, with the offset of the next one. -/
def colourTokens (offset : Int) (parts : List String) : List Token → List String
  | [] => parts
  | t :: rest =>
    let parts := insertAt parts (t.pos.line + offset) (tokenColour t).code
    let parts := insertAt parts (t.pos.col + offset + 2) Colour.plain.code
    colourTokens (offset + 2) parts rest

def highlight (source : String) : Except LexFault String := do
  let tokens ← tokenize source
  return String.join (colourTokens 0 (source.toList.map (·.toString)) tokens)

end SmallScript.Markup
