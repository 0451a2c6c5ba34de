import SmallScript.Inspect.Datum
import SmallScript.Json.Basic
import SmallScript.Data.KindFault

/-!
# TOML values

A TOML document is a table: names with values, in the order in which they were set. What can be wrong
with a text is a `Cause`, with the offset of the character where reading stopped.
-/

namespace SmallScript.Toml

open Inspect (Datum)
open Data (KindFault Table)
open Number (Numeric NumberFault)
open Text (quoted)

inductive Value where
  | bool (b : Bool)
  | int (n : Int)
  | float (x : Float)
  | str (s : String)
  /-- a date, a time of day, or both, in words of the calendar -/
  | stamp (kind text : String)
  | array (items : List Value)
  /-- a table, which may have been written between braces -/
  | table (fields : List (String × Value)) (inline : Bool)
deriving Inhabited

namespace Value

def empty : Value := .table [] false

def kind : Value → String
  | .bool _ => "bool"
  | .int _ => "int"
  | .float _ => "float"
  | .str _ => "str"
  | .stamp kind _ => kind
  | .array _ => "list"
  | .table _ inline => if inline then "DynamicInlineTableDict" else "dict"

/-- A value that counts as empty: false, zero, or without parts. -/
def isEmpty : Value → Bool
  | .bool b => !b
  | .int n => n == 0
  | .float x => x == 0.0
  | .str s => s.isEmpty
  | .stamp _ _ => false
  | .array items => items.isEmpty
  | .table fields _ => fields.isEmpty

def field? (v : Value) (name : String) : Option Value :=
  match v with
  | .table fields _ => fields.lookup name
  | _ => none

mutual

def datum : Value → Datum
  | .bool b => .bool b
  | .int n => .number (.int n)
  | .float x => .number (.float x)
  | .str s => .string s
  | .stamp _ text => .thing text
  | .array items => .list (itemData items)
  | .table fields _ => .dict (fieldData fields)

def itemData : List Value → List Datum
  | [] => []
  | x :: xs => datum x :: itemData xs

def fieldData : List (String × Value) → List (Datum × Datum)
  | [] => []
  | (k, x) :: xs => (.string k, datum x) :: fieldData xs

end

mutual

/-- A value as a JSON document; a point in time becomes its text. -/
def toJson : Value → Json
  | .bool b => .bool b
  | .int n => .num (.int n)
  | .float x => .num (.float x)
  | .str s => .str s
  | .stamp _ text => .str text
  | .array items => .arr (itemsToJson items)
  | .table fields _ => .obj (fieldsToJson fields)

def itemsToJson : List Value → List Json
  | [] => []
  | x :: xs => toJson x :: itemsToJson xs

def fieldsToJson : List (String × Value) → List (String × Json)
  | [] => []
  | (k, x) :: xs => (k, toJson x) :: fieldsToJson xs

end

def text (v : Value) : Except NumberFault String := v.datum.plainText

end Value

inductive Cause where
  | keyAtLineEnd
  | keyAtEnd
  | keyCharacter (c : Char)
  | noKey
  | unbalancedQuotes
  | unterminatedString
  | loneBracket
  | groupLine
  | groupQuote (name : String)
  | groupName (name : String)
  | groupEmpty
  | groupImplicit
  /-- a table that is there already, with the table that holds it -/
  | groupTwice (name shown : String)
  | inlineBreak
  | inlineTable
  | inlineValue
  | noValue
  | capitalBool
  | behindString
  | reservedEscape
  | badEscape (written : String)
  | halfEscape (written : String)
  | hugeEscape
  | dateOrNumber
  | oddNumber
  | floatTail
  | floatHead
  | badFloat (written : String)
  | badInteger (written : String)
  | timePart (name : String) (last : Nat)
  | mixedArray
  | keyTwice
deriving DecidableEq, Repr

def Cause.message : Cause → String
  | .keyAtLineEnd => "Key name found without value. Reached end of line."
  | .keyAtEnd => "Key name found without value. Reached end of file."
  | .keyCharacter c => s!"Found invalid character in key name: '{c}'. Try quoting the key name."
  | .noKey => "Found empty keyname. "
  | .unbalancedQuotes => "Unbalanced quotes"
  | .unterminatedString => "Unterminated string found. Reached end of file."
  | .loneBracket => "Opening key group bracket on line by itself."
  | .groupLine => "Key group not on a line by itself."
  | .groupQuote name => s!"Invalid group name '{name}' Something went wrong."
  | .groupName name => s!"Invalid group name '{name}'. Try quoting it."
  | .groupEmpty => "Can't have a keygroup with an empty name"
  | .groupImplicit => "An implicitly defined table can't be an array"
  | .groupTwice name shown => s!"What? {name} already exists?{shown}"
  | .inlineBreak => "Line breaks are not allowed in inlineobjects"
  | .inlineTable => "Invalid inline table encountered"
  | .inlineValue => "Invalid inline table value encountered"
  | .noValue => "Empty value is invalid"
  | .capitalBool => "Only all lowercase booleans allowed"
  | .behindString => "Found tokens after a closed string. Invalid TOML."
  | .reservedEscape => "Reserved escape sequence used"
  | .badEscape w => s!"Invalid escape sequence: {w}"
  | .halfEscape w => s!"Invalid escape sequence: {w}. Only scalar unicode points are allowed."
  | .hugeEscape => "chr() arg not in range(0x110000)"
  | .dateOrNumber => "Invalid date or number"
  | .oddNumber => "Weirdness with leading zeroes or underscores in your number."
  | .floatTail => "This float is missing digits after the point"
  | .floatHead => "This float doesn't have a leading digit"
  | .badFloat w => s!"could not convert string to float: {quoted w}"
  | .badInteger w => s!"invalid literal for int() with base 0: {quoted w}"
  | .timePart name last => s!"{name} must be in 0..{last}"
  | .mixedArray => "Not a homogeneous array"
  | .keyTwice => "Duplicate keys!"

/-- What keeps a text from being read that is not wrong with the text in one place. -/
inductive Obstacle where
  /-- a text ends where a character is needed -/
  | textEnd
  /-- a list ends where an item is needed -/
  | listEnd
  /-- a value of the wrong kind is in the way -/
  | kind (f : KindFault)
  /-- an array of tables under the name of a value of the given kind -/
  | noArray (kind : String)
deriving DecidableEq, Repr

inductive ValueFault where
  /-- something is wrong with its text -/
  | cause (c : Cause)
  | other (o : Obstacle)
deriving DecidableEq, Repr

inductive Fault where
  /-- something is wrong with its text, at an offset -/
  | at (c : Cause) (offset : Nat)
  | other (o : Obstacle)
deriving DecidableEq, Repr

def Cause.report (c : Cause) (source : List Char) (offset : Nat) : String :=
  let before := source.take offset
  let line := before.count '\n' + 1
  let column := (before.reverse.takeWhile (· != '\n')).length + 1
  s!"{c.message} (line {line} column {column} char {offset})"

end SmallScript.Toml
