import SmallScript.Number.Arith
import SmallScript.Data.Table
import SmallScript.Text.Quoted

/-!
# JSON documents

`Json.parse` reads a document, `Json.render` writes one on a single line in plain ASCII and
`Json.renderIndented` over several lines. Beyond the standard, the names `NaN`, `Infinity` and
`-Infinity` stand for floats, and an integer is read exactly, whatever its size.
-/

namespace SmallScript

open Number (Numeric)

inductive Json where
  | null
  | bool (b : Bool)
  | num (n : Numeric)
  | str (s : String)
  | arr (items : List Json)
  | obj (fields : List (String × Json))
deriving Inhabited

namespace Json

open Number Data Text

/-! ## Reading -/

def isSpace (c : Char) : Bool := c == ' ' || c == '\t' || c == '\n' || c == '\r'

def skipSpace (cs : List Char) : List Char := cs.dropWhile isSpace

def hex4? : List Char → Option (Nat × List Char)
  | a :: b :: c :: d :: rest => do
    let n := (((← hexValue? a) * 16 + (← hexValue? b)) * 16 + (← hexValue? c)) * 16 + (← hexValue? d)
    return (n, rest)
  | _ => none

/-- A character by the four digits of an escape; two halves of a pair make one character. -/
def unicodeEscape? (cs : List Char) : Option (Char × List Char) := do
  let (n, rest) ← hex4? cs
  if 0xD800 ≤ n && n < 0xDC00 then
    match rest with
    | '\\' :: 'u' :: more => match hex4? more with
      | some (m, rest') =>
        if 0xDC00 ≤ m && m < 0xE000 then
          return (Char.ofNat (0x10000 + (n - 0xD800) * 1024 + (m - 0xDC00)), rest')
        else return ('�', rest)
      | none => return ('�', rest)
    | _ => return ('�', rest)
  else if 0xDC00 ≤ n && n < 0xE000 then return ('�', rest)
  else return (Char.ofNat n, rest)

/-- The rest of a string behind its opening quote, with a bound on its length. -/
def stringTail? : Nat → List Char → Option (List Char × List Char)
  | 0, _ => none
  | _ + 1, [] => none
  | fuel + 1, c :: cs =>
    if c == '"' then some ([], cs)
    else if c == '\\' then
      match cs with
      | 'u' :: rest => do
        let (d, rest) ← unicodeEscape? rest
        let (ds, rest) ← stringTail? fuel rest
        return (d :: ds, rest)
      | e :: rest => do
        let d ← match e with
          | '"' => some '"'
          | '\\' => some '\\'
          | '/' => some '/'
          | 'b' => some '\x08'
          | 'f' => some '\x0c'
          | 'n' => some '\n'
          | 'r' => some '\r'
          | 't' => some '\t'
          | _ => none
        let (ds, rest) ← stringTail? fuel rest
        return (d :: ds, rest)
      | [] => none
    else if c.toNat < 32 then none
    else do
      let (ds, rest) ← stringTail? fuel cs
      return (c :: ds, rest)

def string? (cs : List Char) : Option (String × List Char) :=
  (stringTail? (cs.length + 1) cs).map fun r => (String.ofList r.1, r.2)

def isAsciiDigit (c : Char) : Bool := '0' ≤ c && c ≤ '9'

/-- A number in front of a text: no leading zeros, and digits behind a point and an exponent mark. -/
def number? (cs : List Char) : Option (Numeric × List Char) := do
  let (sign, body) := match cs with
    | '-' :: r => (['-'], r)
    | r => ([], r)
  let whole := match body with
    | '0' :: _ => ['0']
    | _ => body.takeWhile isAsciiDigit
  guard (!whole.isEmpty)
  let rest := body.drop whole.length
  let (fraction, rest) := match rest with
    | '.' :: r =>
      let ds := r.takeWhile isAsciiDigit
      if ds.isEmpty then ([], rest) else ('.' :: ds, r.drop ds.length)
    | _ => ([], rest)
  let (exponent, rest) := match rest with
    | e :: r =>
      if e == 'e' || e == 'E' then
        let (mark, r) := match r with
          | '-' :: r' => (['-'], r')
          | '+' :: r' => (['+'], r')
          | r' => ([], r')
        let ds := r.takeWhile isAsciiDigit
        if ds.isEmpty then ([], rest) else ('e' :: mark ++ ds, r.drop ds.length)
      else ([], rest)
    | [] => ([], rest)
  if fraction.isEmpty && exponent.isEmpty then
    match integer (String.ofList (sign ++ whole)) with
    | .ok n => return (.int n, rest)
    | .error _ => none
  else do
    let x ← decimal? (sign ++ whole ++ fraction ++ exponent)
    return (.float x, rest)

def constant? (cs : List Char) : Option (Json × List Char) :=
  let table : List (String × Json) := [
    ("null", .null), ("true", .bool true), ("false", .bool false), ("NaN", .num (.float nanFloat)),
    ("Infinity", .num (.float infinity)), ("-Infinity", .num (.float (-infinity)))]
  (table.find? fun e => e.1.toList.isPrefixOf cs).map fun e => (e.2, cs.drop e.1.length)

/-- Sets a field; a later one of the same name replaces it in its place. -/
def setField (fields : List (String × Json)) (name : String) (value : Json) : List (String × Json) :=
  Table.insertEntry name value fields

mutual

/-- A document in front of a text, with a bound on the depth and the number of items. -/
def value? : Nat → List Char → Option (Json × List Char)
  | 0, _ => none
  | fuel + 1, cs =>
    match cs with
    | '"' :: rest => (string? rest).map fun r => (.str r.1, r.2)
    | '[' :: rest =>
      match skipSpace rest with
      | ']' :: rest => some (.arr [], rest)
      | rest => do
        let (items, rest) ← items? fuel rest
        return (.arr items, rest)
    | '\x7b' :: rest =>
      match skipSpace rest with
      | '\x7d' :: rest => some (.obj [], rest)
      | rest => do
        let (fields, rest) ← fields? fuel [] rest
        return (.obj fields, rest)
    | _ => match constant? cs with
      | some r => some r
      | none => (number? cs).map fun r => (.num r.1, r.2)

def items? : Nat → List Char → Option (List Json × List Char)
  | 0, _ => none
  | fuel + 1, cs => do
    let (item, rest) ← value? fuel (skipSpace cs)
    match skipSpace rest with
    | ']' :: rest => return ([item], rest)
    | ',' :: rest =>
      let (items, rest) ← items? fuel rest
      return (item :: items, rest)
    | _ => none

/-- The fields of an object up to its closing brace, behind those read already. -/
def fields? : Nat → List (String × Json) → List Char → Option (List (String × Json) × List Char)
  | 0, _, _ => none
  | fuel + 1, done, cs => do
    match skipSpace cs with
    | '"' :: rest =>
      let (name, rest) ← string? rest
      match skipSpace rest with
      | ':' :: rest =>
        let (value, rest) ← value? fuel (skipSpace rest)
        let done := setField done name value
        match skipSpace rest with
        | '\x7d' :: rest => return (done, rest)
        | ',' :: rest => fields? fuel done rest
        | _ => none
      | _ => none
    | _ => none

end

def parse (text : String) : Option Json := do
  let cs := text.toList
  let (doc, rest) ← value? (cs.length + 1) (skipSpace cs)
  guard (skipSpace rest).isEmpty
  return doc

/-! ## Writing -/

def escaped (c : Char) : List Char :=
  if c == '"' then ['\\', '"']
  else if c == '\\' then ['\\', '\\']
  else if c == '\n' then ['\\', 'n']
  else if c == '\r' then ['\\', 'r']
  else if c == '\t' then ['\\', 't']
  else if c == '\x08' then ['\\', 'b']
  else if c == '\x0c' then ['\\', 'f']
  else if 32 ≤ c.toNat && c.toNat < 127 then [c]
  else if c.toNat < 0x10000 then '\\' :: 'u' :: hex 4 c.toNat
  else
    let n := c.toNat - 0x10000
    '\\' :: 'u' :: hex 4 (0xD800 + n / 1024) ++ '\\' :: 'u' :: hex 4 (0xDC00 + n % 1024)

def stringText (s : String) : String := String.ofList ('"' :: s.toList.flatMap escaped ++ ['"'])

/-- A number; a complex one has no text. -/
def numberText : Numeric → Except NumberFault String
  | .float x => .ok (jsonStyle.render x)
  | .bool b => .ok (if b then "true" else "false")
  | .int n => Numeric.text (.int n)
  | .complex _ _ => .error .notReal

mutual

def render : Json → Except NumberFault String
  | .null => .ok "null"
  | .bool b => .ok (if b then "true" else "false")
  | .num n => numberText n
  | .str s => .ok (stringText s)
  | .arr items => return "[" ++ ", ".intercalate (← renderItems items) ++ "]"
  | .obj fields => return "\x7b" ++ ", ".intercalate (← renderFields fields) ++ "\x7d"

def renderItems : List Json → Except NumberFault (List String)
  | [] => .ok []
  | x :: xs => return (← x.render) :: (← renderItems xs)

def renderFields : List (String × Json) → Except NumberFault (List String)
  | [] => .ok []
  | (k, x) :: xs => return (stringText k ++ ": " ++ (← x.render)) :: (← renderFields xs)

end

def lineStart (width depth : Nat) : String := "\n" ++ "".pushn ' ' (width * depth)

def bracketLines (width depth : Nat) (left right : String) (parts : List String) : String :=
  let inner := lineStart width (depth + 1)
  left ++ inner ++ ("," ++ inner).intercalate parts ++ lineStart width depth ++ right

mutual

def renderIndented (width depth : Nat) : Json → Except NumberFault String
  | .arr [] => .ok "[]"
  | .obj [] => .ok "\x7b\x7d"
  | .arr items => do
    let parts ← indentedItems width (depth + 1) items
    return bracketLines width depth "[" "]" parts
  | .obj fields => do
    let parts ← indentedFields width (depth + 1) fields
    return bracketLines width depth "\x7b" "\x7d" parts
  | .null => .ok "null"
  | .bool b => .ok (if b then "true" else "false")
  | .num n => numberText n
  | .str s => .ok (stringText s)

def indentedItems (width depth : Nat) : List Json → Except NumberFault (List String)
  | [] => .ok []
  | x :: xs => return (← x.renderIndented width depth) :: (← indentedItems width depth xs)

def indentedFields (width depth : Nat) : List (String × Json) → Except NumberFault (List String)
  | [] => .ok []
  | (k, x) :: xs =>
    return (stringText k ++ ": " ++ (← x.renderIndented width depth)) :: (← indentedFields width depth xs)

end

def kind : Json → String
  | .null => "NoneType"
  | .bool _ => "bool"
  | .num n => n.kind
  | .str _ => "str"
  | .arr _ => "list"
  | .obj _ => "dict"

/-- A document that counts as empty: null, false, zero, or without parts. -/
def isEmpty : Json → Bool
  | .null => true
  | .bool b => !b
  | .num n => !n.truthy
  | .str s => s.isEmpty
  | .arr items => items.isEmpty
  | .obj fields => fields.isEmpty

def field? (doc : Json) (name : String) : Option Json :=
  match doc with
  | .obj fields => fields.lookup name
  | _ => none

end Json

end SmallScript
