import SmallScript.Text.Digit

/-!
# Terminal sequences

Sequences that tell a terminal how to show what follows: an escape and a bracket, numbers with
semicolons between them, and a letter; or an escape, a closing bracket and a text up to a bell.
-/

namespace SmallScript.Text

def skipIf (c : Char) : List Char → List Char
  | d :: cs => if d == c then cs else d :: cs
  | [] => []

/-- The text behind a sequence with a letter at its end; the escape is already read. -/
def behindControl? : List Char → Option (List Char)
  | '[' :: cs =>
    match cs.dropWhile fun c => isDecimalDigit c || c == ';' with
    | c :: rest => if c.isAlpha then some (skipIf '\x02' rest) else none
    | [] => none
  | _ => none

/-- The text behind a sequence with a bell at its end; the escape is already read. -/
def behindCommand? : List Char → Option (List Char)
  | ']' :: cs =>
    match cs.dropWhile (· != '\x07') with
    | _ :: rest => some (skipIf '\x02' rest)
    | [] => none
  | _ => none

/-- A text without the sequences of one kind; the first argument bounds the number of steps. -/
def dropSequences (behind? : List Char → Option (List Char)) : Nat → List Char → List Char
  | 0, cs => cs
  | _ + 1, [] => []
  | bound + 1, c :: cs =>
    let escape := if c == '\x01' then (match cs with | '\x1b' :: r => some r | _ => none)
      else if c == '\x1b' then some cs else none
    match escape.bind behind? with
    | some rest => dropSequences behind? bound rest
    | none => c :: dropSequences behind? bound cs

def plainText (s : String) : String :=
  let cs := s.toList
  let cs := dropSequences behindCommand? (cs.length + 1) cs
  String.ofList (dropSequences behindControl? (cs.length + 1) cs)

end SmallScript.Text
