import SmallScript.Text.Quoted

/-!
# Tokens

A token has a kind, a text and a position: the line, the column just behind its last character, and
its length.
-/

namespace SmallScript.Syntax

open Text

/-- A place in a source text: line, column of the last character, length. -/
structure Pos where
  line : Int
  col : Int
  len : Int
deriving DecidableEq, Repr, Inhabited

def Pos.zero : Pos := ⟨0, 0, 0⟩

inductive TokenKind where
  | number | identifier | string
  | assignmentOperator
  | openParen | closeParen | openBrace | closeBrace | openBracket | closeBracket
  | doubleQuote
  | binaryOperator
  | «let» | const | func | «if» | else_ | «return» | assert
  | class_ | enum
  | loop | while_ | for_ | in_ | break_ | continue_
  | import_ | from_ | as_
  | equals
  | del
  | comma | colon | semicolon | dot
  | eof
deriving DecidableEq, Repr, Inhabited

def TokenKind.names : List (TokenKind × String) := [
  (.number, "NUMBER"), (.identifier, "IDENTIFIER"), (.string, "STRING"),
  (.assignmentOperator, "ASSIGNMENT_OPERATOR"),
  (.openParen, "OPEN_PAREN"), (.closeParen, "CLOSE_PAREN"),
  (.openBrace, "OPEN_BRACE"), (.closeBrace, "CLOSE_BRACE"),
  (.openBracket, "OPEN_BRACKET"), (.closeBracket, "CLOSE_BRACKET"),
  (.doubleQuote, "DOUBLE_QUOTE"), (.binaryOperator, "BINARY_OPERATOR"),
  (.let, "LET"), (.const, "CONST"), (.func, "FUNC"), (.if, "IF"), (.else_, "ELSE"),
  (.return, "RETURN"), (.assert, "ASSERT"), (.class_, "CLASS"), (.enum, "ENUM"),
  (.loop, "LOOP"), (.while_, "WHILE"), (.for_, "FOR"), (.in_, "IN"), (.break_, "BREAK"),
  (.continue_, "CONTINUE"), (.import_, "IMPORT"), (.from_, "FROM"), (.as_, "AS"),
  (.equals, "EQUALS"), (.del, "DEL"), (.comma, "COMMA"), (.colon, "COLON"),
  (.semicolon, "SEMICOLON"), (.dot, "DOT"), (.eof, "EOF")]

def TokenKind.name (k : TokenKind) : String := ((names.find? (·.1 == k)).map (·.2)).getD ""

def TokenKind.ordinal (k : TokenKind) : Nat := names.findIdx (·.1 == k) + 1

structure Token where
  value : String
  kind : TokenKind
  pos : Pos
deriving DecidableEq, Repr, Inhabited

def Pos.text (p : Pos) : String := s!"({p.line}, {p.col}, {p.len})"

def Token.text (t : Token) : String :=
  s!"Token(value={quoted t.value}, type=<TokenType.{t.kind.name}: {t.kind.ordinal}>, position={t.pos.text})"

def keywords : List (String × TokenKind) := [
  ("let", .let), ("const", .const), ("func", .func), ("if", .if), ("else", .else_),
  ("return", .return), ("import", .import_), ("from", .from_), ("as", .as_), ("loop", .loop),
  ("while", .while_), ("for", .for_), ("in", .in_), ("break", .break_), ("continue", .continue_),
  ("del", .del), ("class", .class_), ("enum", .enum), ("assert", .assert)]

/-- The operators and brackets, longer ones before shorter ones. -/
def operators : List (String × TokenKind) := [
  ("<<=", .assignmentOperator), (">>=", .assignmentOperator),
  ("==", .binaryOperator), ("!=", .binaryOperator), ("<=", .binaryOperator),
  (">=", .binaryOperator), ("&&", .binaryOperator), ("||", .binaryOperator),
  ("<<", .binaryOperator), (">>", .binaryOperator), ("**", .binaryOperator),
  ("+=", .assignmentOperator), ("-=", .assignmentOperator), ("*=", .assignmentOperator),
  ("/=", .assignmentOperator), ("%=", .assignmentOperator), ("^=", .assignmentOperator),
  ("&=", .assignmentOperator), ("|=", .assignmentOperator),
  ("++", .binaryOperator), ("--", .binaryOperator),
  ("(", .openParen), (")", .closeParen), ("\x7b", .openBrace), ("\x7d", .closeBrace),
  ("[", .openBracket), ("]", .closeBracket),
  ("+", .binaryOperator), ("*", .binaryOperator), ("/", .binaryOperator), ("%", .binaryOperator),
  ("^", .binaryOperator), (";", .semicolon), (",", .comma), (":", .colon), (".", .dot),
  ("=", .equals), ("<", .binaryOperator), (">", .binaryOperator), ("&", .binaryOperator),
  ("|", .binaryOperator)]

end SmallScript.Syntax
