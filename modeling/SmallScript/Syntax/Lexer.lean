import SmallScript.Syntax.Lexeme

/-!
# From source text to tokens

`tokenize` reads a source text lexeme by lexeme and gives each token the place where its lexeme ends.
Columns count the characters of a line; behind a line break they start at one.

A minus sign that touches a name stands for a difference from zero: `-x` gives the tokens of
`(0 - x)`, all with the position of the name. In front of a keyword it has no effect.
-/

namespace SmallScript.Syntax

/-- Line and column behind the last character read. -/
structure Place where
  line : Nat
  col : Nat
deriving DecidableEq, Repr

def Place.start : Place := ⟨1, 0⟩

def Place.after (p : Place) : Lexeme → Place
  | .newline | .comment _ (some '\n') => ⟨p.line + 1, 1⟩
  | l => ⟨p.line, p.col + l.source.length⟩

/-- The position of something of the given length that ends at a place. -/
def Place.pos (p : Place) (len : Nat) : Pos := ⟨p.line, p.col, len⟩

def wordToken (p : Place) (letters : List Char) : Token :=
  let text := String.ofList letters
  ⟨text, ((keywords.find? (·.1 == text)).map (·.2)).getD .identifier, p.pos letters.length⟩

def Lexeme.tokens (p : Place) : Lexeme → List Token
  | .space _ | .newline | .comment _ _ => []
  | .operator text kind => [⟨text, kind, p.pos text.length⟩]
  | .minus => [⟨"-", .binaryOperator, p.pos 1⟩]
  | .number neg digits =>
    let text := minusSign neg ++ digits
    [⟨String.ofList text, .number, p.pos (if neg then text.length + 1 else text.length)⟩]
  | .word neg letters =>
    let word := wordToken p letters
    if neg && word.kind == .identifier then
      [⟨"(", .openParen, p.pos 1⟩, ⟨"0", .number, p.pos 1⟩, ⟨"-", .binaryOperator, p.pos 1⟩,
        word, ⟨")", .closeParen, p.pos 1⟩]
    else [word]
  | .string content => [⟨String.ofList content, .string, p.pos (content.length + 2)⟩]

def endToken (p : Place) : Token := ⟨"EOF", .eof, p.pos 1⟩

structure LexFault where
  cause : LexemeFault
  place : Place
deriving DecidableEq

def tokensFrom (p : Place) : List Char → Except LexFault (List Token)
  | [] => .ok [endToken p]
  | c :: cs =>
    match h : Lexeme.read c cs with
    | .error cause => .error ⟨cause, p⟩
    | .ok (l, rest) =>
      have : rest.length < (c :: cs).length := Lexeme.read_rest_lt h
      let q := p.after l
      match tokensFrom q rest with
      | .error e => .error e
      | .ok ts => .ok (l.tokens q ++ ts)
termination_by cs => cs.length
decreasing_by exact this

def tokenize (source : String) : Except LexFault (List Token) :=
  tokensFrom .start source.toList

end SmallScript.Syntax
