import SmallScript.Inspect.Datum
import SmallScript.Text.Colour

/-!
# Pretty printing

A record is laid out with its fields in alphabetical order, one to a line and indented by nesting,
or all on one line; with or without colours.
-/

namespace SmallScript.Inspect

open Number Syntax Text

structure Layout where
  coloured : Bool
  newlines : Bool
  indent : Int
deriving DecidableEq, Repr

def Layout.standard : Layout := ⟨true, true, 2⟩

inductive PrettyFault where
  /-- only records are laid out -/
  | notRecord
  /-- a function stands directly in a collection of the given kind -/
  | functionInside (kind : String)
  | number (f : NumberFault)
deriving DecidableEq

def PrettyFault.message : PrettyFault → String
  | .notRecord => "Argument must be a class instance."
  | .functionInside kind => s!"'{kind}' object has no attribute '__name__'"
  | .number f => f.message

namespace Layout

def blanks (l : Layout) (depth : Nat) : String := "".pushn ' ' (l.indent * depth).toNat

def lineBreak (l : Layout) (depth : Nat) : String := if l.newlines then "\n" ++ l.blanks depth else ""

def code (l : Layout) (c : Colour) : String := if l.coloured then c.code else ""

def paint (l : Layout) (c : Colour) (text : String) : String :=
  l.code c ++ text ++ l.code .plain

def comma (l : Layout) : String := if l.newlines then "," else ", "

end Layout

def Datum.colour : Datum → Colour
  | .none | .bool _ => .red
  | .number (.int _) | .number (.float _) => .yellow
  | .number (.bool _) => .red
  | .string _ => .green
  | .function _ | .tokenKind _ => .cyan
  | _ => .plain

def sortFields {α : Type} (fields : List (String × α)) : List (String × α) :=
  fields.mergeSort fun a b => decide (a.1 ≤ b.1)

def prettyAtom (l : Layout) (d : Datum) : Except PrettyFault String :=
  match d.plainText with
  | .ok t => .ok (l.paint d.colour t)
  | .error f => .error (.number f)

def prettyString (l : Layout) (s : String) : String := l.paint .green ("\"" ++ s ++ "\"")

def joinFields (l : Layout) : List String → String
  | [] => ""
  | [x] => x
  | x :: xs => x ++ l.comma ++ joinFields l xs

/-- Puts the colour of a datum around its layout, on top of what the layout has. -/
def around (l : Layout) (d : Datum) (inner : String) : String :=
  l.code d.colour ++ inner ++ l.code .plain

def fieldName (l : Layout) (depth : Nat) (name : String) : String :=
  l.lineBreak depth ++ l.paint .blue name ++ ": "

def opening (l : Layout) (depth : Nat) (bracket : String) : String :=
  bracket ++ (if l.newlines then l.blanks (depth + 1) else "")

def wrapRecord (l : Layout) (depth : Nat) (kind : String) (fields : List (String × String)) : String :=
  l.paint .magenta kind ++ "(" ++ joinFields l ((sortFields fields).map (·.2)) ++ l.lineBreak depth ++ ")"

def wrapItems (l : Layout) (depth : Nat) (left right items : String) : String :=
  opening l depth left ++ items ++ l.lineBreak depth ++ right

/-- A dictionary at a depth, from its laid out entries. The closing brace always has a line of its
own. -/
def wrapDict (l : Layout) (depth : Nat) (entries : List String) : String :=
  opening l depth "\x7b" ++ joinFields l entries ++ "\n" ++ l.blanks depth ++ "\x7d"

inductive Holder where
  | field
  | entry
  /-- in a collection of the given kind -/
  | item (kind : String)

/-- A function, by where it stands: its name, a fault, or its full text. -/
def prettyFunction (l : Layout) (h : Holder) (name : String) : Except PrettyFault String :=
  match h with
  | .field => .ok (if l.coloured then l.paint .cyan name else "()")
  | .item kind => if l.coloured then .error (.functionInside kind) else .ok "()"
  | .entry => .ok (l.paint .cyan (functionText name))

/-- What stands in front of an item: a comma behind the item before, and a new line. -/
def itemLead (l : Layout) (depth : Nat) (first : Bool) : Datum → String
  | .record .. => (if first then "" else "," ++ l.lineBreak depth) ++ l.lineBreak depth
  | _ => (if first then "" else l.comma) ++ l.lineBreak depth

mutual

def prettyAt (l : Layout) (depth : Nat) (h : Holder) : Datum → Except PrettyFault String
  | .record kind fields => return wrapRecord l depth kind (← prettyFields l (depth + 1) fields)
  | .list items => return wrapItems l depth "[" "]" (← prettyItems l (depth + 1) "list" true items)
  | .tuple items => return wrapItems l depth "(" ")" (← prettyItems l (depth + 1) "tuple" true items)
  | .set items => return wrapItems l depth "\x7b" "\x7d" (← prettyItems l (depth + 1) "set" true items)
  | .dict entries => return wrapDict l depth (← prettyEntries l (depth + 1) entries)
  | .string s => .ok (prettyString l s)
  | .function name => prettyFunction l h name
  | d => prettyAtom l d

def prettyFields (l : Layout) (depth : Nat) :
    List (String × Datum) → Except PrettyFault (List (String × String))
  | [] => .ok []
  | (name, d) :: rest => do
    let inner ← prettyAt l depth .field d
    let others ← prettyFields l depth rest
    return (name, fieldName l depth name ++ around l d inner) :: others

def prettyItems (l : Layout) (depth : Nat) (kind : String) (first : Bool) :
    List Datum → Except PrettyFault String
  | [] => .ok ""
  | d :: rest => do
    let inner ← prettyAt l depth (.item kind) d
    let others ← prettyItems l depth kind false rest
    return itemLead l depth first d ++ inner ++ others

def prettyEntries (l : Layout) (depth : Nat) : List (Datum × Datum) → Except PrettyFault (List String)
  | [] => .ok []
  | (k, d) :: rest => do
    let name ← k.plainText.mapError .number
    let inner ← prettyAt l depth .entry d
    let others ← prettyEntries l depth rest
    return (fieldName l depth name ++ around l d inner) :: others

end

def pretty (l : Layout) (d : Datum) : Except PrettyFault String :=
  match d with
  | .record .. => prettyAt l 0 .field d
  | _ => .error .notRecord

def tokensDatum (tokens : List Token) : Datum :=
  .record "TokenList" [("tokens", .list (tokens.map tokenDatum))]

end SmallScript.Inspect
