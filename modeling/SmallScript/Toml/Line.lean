import SmallScript.Toml.Scalar

/-!
# Lines of TOML

A line with an equals sign sets a key of a table. The value may be an array or a table between braces,
with values and lines inside, so the functions here call each other; the first argument bounds how
deep they do so, and the length of the line is enough for it.

A string of several lines is not closed on the line that it begins on. Such a line yields a
`LongString`, which the following lines complete.
-/

namespace SmallScript.Toml

open Text

/-- The pieces of a text between the first `count` occurrences of a character. -/
def splitFirst (c : Char) : Nat → List Char → List (List Char)
  | 0, cs => [cs]
  | count + 1, cs =>
    match cs.dropWhile (· != c) with
    | [] => [cs]
    | _ :: rest => cs.takeWhile (· != c) :: splitFirst c count rest

def splitAll (c : Char) (cs : List Char) : List (List Char) := pieces [c] cs

def joinWith (c : Char) (ps : List (List Char)) : List Char := joinPieces [c] ps

/-- Adds pieces between double quotes to an open piece in single quotes until a single quote closes
it. -/
def closeSingle : Nat → List (List Char) → List (List Char) → List (List Char) × List (List Char)
  | 0, singles, doubles => (singles, doubles)
  | bound + 1, singles, doubles =>
    if singles.length % 2 == 0 then
      match doubles with
      | [] => (singles, doubles)
      | d :: rest =>
        let last := singles.getLast?.getD [] ++ '"' :: d
        closeSingle bound (singles.dropLast ++ if last.contains '\'' then splitAll '\'' last else [last]) rest
    else (singles, doubles)

/-- The pieces of a line between quotes of both kinds; every second one is meant to stand inside
quotes. -/
def quotePieces (line : List Char) : List (List Char) :=
  let doubles := splitAll '"' line
  let (front, doubles) := match doubles with
    | d :: rest =>
      if !rest.isEmpty && d.contains '\'' then closeSingle (rest.length + 1) (splitAll '\'' d) rest
      else ([], doubles)
    | [] => ([], [])
  let (pieces, _) := doubles.foldl (fun (acc, quoted) d =>
    if quoted then (acc ++ [d], quoted) else (acc ++ splitAll '\'' d, true)) (front, false)
  pieces

/-- One more than the number of separators that stand inside quotes before the first one outside. -/
def skipQuoted (sep : List Char) : Bool → Nat → List (List Char) → Nat
  | _, n, [] => n
  | quoted, n, p :: rest =>
    if !quoted && occursIn sep p then n else skipQuoted sep (!quoted) (n + (pieces sep p).length - 1) rest

structure LongString where
  key : String
  text : List Char
  /-- the last line ends in a backslash, which joins it to the next one -/
  joined : Bool

def startsWithString (cs : List Char) : Bool :=
  match stripBlanks (trimBoth 1 cs) with
  | c :: _ => c == '"' || c == '\''
  | [] => false

def lastItem : Nat → List (List Char) → Except ValueFault (List Char)
  | 0, _ => .error (.other .listEnd)
  | bound + 1, ps =>
    match ps.reverse with
    | [] => .error (.other .listEnd)
    | [p] => .ok p
    | p :: q :: rest =>
      match p with
      | [] => .error (.other .textEnd)
      | c :: _ => if c == '"' || c == '\'' then .ok p
          else lastItem bound (rest.reverse ++ [q ++ ',' :: p])

/-- The string that a value leaves open at the end of its line; it is the value itself or the last item
of an array. -/
def openString? (cs : List Char) : Except ValueFault (Option (List Char)) := do
  if cs.length < 3 then return none
  let p ← if cs.head? == some '[' && (stripBlanks cs).getLast? != some ']' && startsWithString cs then
      let items := splitAll ',' (stripBlanks (cs.drop 1))
      lastItem (items.length + 1) items
    else pure cs
  match p with
  | a :: b :: c :: _ =>
    if a != '"' && a != '\'' then return none
    else if b != a || c != a then return none
    else if p.length > 5 && (p.reverse.take 3).all (· == a) then return none
    else return some p
  | a :: rest =>
    if (a != '"' && a != '\'') || rest.head?.any (· != a) then return none else .error (.other .textEnd)
  | [] => .error (.other .textEnd)

def isWholeItem (cs : List Char) : Bool :=
  let bounded := cs.isEmpty || (cs.getLast? == cs.head?
    && ((cs.drop 1).dropLast.reverse.takeWhile (· == '\\')).length % 2 == 0)
  let openThree := match cs with
    | a :: b :: c :: _ => a == b && b == c && !((cs.reverse.drop 1).take 2).contains a
    | _ => false
  bounded && !openThree

/-- Joins an item with those behind it until it is whole. -/
def completeItem : List Char → List (List Char) → Except ValueFault (List Char × List (List Char))
  | p, rest =>
    if isWholeItem (stripBlanks p) then .ok (p, rest)
    else match rest with
      | [] => .error (.other .listEnd)
      | q :: rest => completeItem (p ++ ',' :: q) rest
termination_by _ rest => rest.length

/-- Joins the items of an array of strings that were split at commas inside strings; the last item
stays as it is. -/
def completeItems : Nat → List (List Char) → Except ValueFault (List (List Char))
  | 0, ps => .ok ps
  | _ + 1, [] => .ok []
  | _ + 1, [p] => .ok [p]
  | bound + 1, p :: rest => do
    let (p, rest) ← completeItem p rest
    return p :: (← completeItems bound rest)

/-- The tables of an array of tables between braces. `depth` counts the braces that are open, and the
text is that up to the closing bracket. -/
def bracedItems : Nat → Nat → Bool → List Char → List Char → List (List Char)
  | 0, _, _, _, _ => []
  | _ + 1, _, _, _, [] => []
  | bound + 1, depth, inString, done, c :: rest =>
    let inString := if c == '"' || c == '\'' then
        if inString then (done.takeWhile (· == '\\')).length % 2 == 1 else true
      else inString
    let depth := if !inString && c == '\x7b' then depth + 1 else depth
    if inString || c != '\x7d' then bracedItems bound depth inString (c :: done) rest
    else if depth > 1 then bracedItems bound (depth - 1) inString (c :: done) rest
    else
      let next := (rest.drop 1).dropWhile (· != '\x7b')
      (c :: done).reverse :: bracedItems bound depth inString (next.take 1) (next.drop 1)

def nestedItems : Int → List Char → List Char → List (List Char)
  | _, done, [] => [done.reverse]
  | depth, done, c :: rest =>
    if c == ',' && depth == 0 then done.reverse :: nestedItems depth [] rest
    else nestedItems (if c == '[' then depth + 1 else if c == ']' then depth - 1 else depth) (c :: done) rest

def arrayItems (cs : List Char) : Except ValueFault (List (List Char)) := do
  let a := stripBlanks cs
  let body := trimBoth 1 a
  if !body.contains '[' || !(stripBlanks (body.takeWhile (· != '['))).isEmpty then
    let items := if (stripBlanks body).head? == some '\x7b' then
        bracedItems a.length (if body.head? == some '\x7b' then 1 else 0) false (body.take 1) (body.drop 1)
      else splitAll ',' body
    if startsWithString a then completeItems (items.length + 1) items else return items
  else return nestedItems 0 [] body

def arrayKind : Value → String
  | .stamp "datetime" _ => "date"
  | v => v.kind

/-- The parts of an inline table: pieces between commas, put together until each has a value with an
end. -/
def inlineParts : Nat → List (List Char) → Except ValueFault (List (List Char))
  | 0, _ => .ok []
  | _ + 1, [] => .ok []
  | bound + 1, p :: rest =>
    match splitFirst '=' 1 p with
    | [_, value] =>
      let value := stripBlanks value
      match value.head?, value.getLast? with
      | some a, some z =>
        let whole := (a == z && (a == '"' || a == '\'')) || a == '-' || a.isDigit
          || value == "true".toList || value == "false".toList || (a == '[' && z == ']')
          || (a == '\x7b' && z == '\x7d')
        if whole then return p :: (← inlineParts bound rest)
        else match rest with
          | q :: rest => inlineParts bound ((p ++ ',' :: q) :: rest)
          | [] => .error (.cause .inlineValue)
      | _, _ => .error (.other .textEnd)
    | _ => .error (.cause .inlineTable)

/-- The value is one that can stand behind an equals sign without a blank between them. -/
def isSettled (value : List Char) : Bool :=
  match value with
  | [] => true
  | c :: _ =>
    c == ' ' || c == '\t' || c == '\'' || c == '"' || c == '[' || c == '\x7b'
      || stripBlanks value == "true".toList || stripBlanks value == "false".toList
      || (floatOf? value).isSome || (dateOf? value).isSome || (timeFront? value).isSome

/-- Moves the equals sign between key and value to the right until the value is settled. `strict` says
that the values met so far are well formed as numbers. -/
def settle (line : List Char) : Nat → Nat → List Char → Bool → Except ValueFault (List Char × List Char × Bool)
  | 0, _, _, _ => .error (.cause .dateOrNumber)
  | bound + 1, i, value, strict =>
    if isSettled value then
      .ok (stripBlanks (joinWith '=' (splitFirst '=' i line).dropLast), stripBlanks value, strict)
    else
      let next := (splitFirst '=' (i + 1) line).getLast?.getD []
      if next == value then .error (.cause .dateOrNumber)
      else settle line bound (i + 1) next (strict && wellFormedNumber next)

/-- The key and the value of a line, as they are written, and whether the value is well formed as a
number. Key and value are divided by the first equals sign outside of quotes, if the value is settled
then. -/
def splitLine (line : List Char) : Except ValueFault (List Char × List Char × Bool) :=
  let first := skipQuoted ['='] false 1 (quotePieces line)
  let written := (splitFirst '=' first line).getLast?.getD []
  let value := if written.head?.any Char.isDigit then written.filter (· != '_') else written
  settle line (line.length + 2) first value (wellFormedNumber written)

def keyLevels (key : List Char) : Except ValueFault (List (List Char)) := do
  let levels :=
    if key.contains '"' || key.contains '\'' then
      ((quotePieces key).foldl (fun (acc, quoted) p =>
        (acc ++ (if quoted then [p] else (splitAll '.' p).map stripBlanks), !quoted)) (([] : List (List Char)), false)).1
    else splitAll '.' key
  match (levels.reverse.dropWhile (·.isEmpty)).reverse with
  | [] => .error (.other .listEnd)
  | levels => return levels

def setKey (table : Value) (key : String) (value : Value) : Except ValueFault Value :=
  match table with
  | .table fields inline =>
    if fields.any (·.1 == key) then .error (.cause .keyTwice) else .ok (.table (fields ++ [(key, value)]) inline)
  | _ => .error (.cause .keyTwice)

def replaceKey (table : Value) (key : String) (value : Value) : Value :=
  match table with
  | .table fields inline => .table (Data.Table.insertEntry key value fields) inline
  | v => v

/-- Works on the table that some levels lead to; tables that are missing on the way are made. -/
def atLevels {α : Type} (f : Value → Except ValueFault (Value × α)) :
    List String → Value → Except ValueFault (Value × α)
  | [], table => f table
  | level :: rest, table =>
    if level.isEmpty then atLevels f rest table
    else match table with
      | .table fields inline => do
        let (inner, a) ← atLevels f rest ((fields.lookup level).getD .empty)
        return (.table (Data.Table.insertEntry level inner fields) inline, a)
      | .str s => if occursIn level.toList s.toList then .error (.other (.kind .textByName))
          else .error (.other (.kind (.setPart "str")))
      | .array _ => .error (.other (.kind (.listIndex "str")))
      | v => .error (.other (.kind (.search v.kind)))

mutual

def valueOf : Nat → List Char → Bool → Except ValueFault Value
  | 0, _, _ => .error (.other .textEnd)
  | depth + 1, cs, strict =>
    match cs with
    | [] => .error (.cause .noValue)
    | c :: _ =>
      let small := cs.map Char.toLower
      if cs == "true".toList then .ok (.bool true)
      else if cs == "false".toList then .ok (.bool false)
      else if small == "true".toList || small == "false".toList then .error (.cause .capitalBool)
      else if c == '"' || c == '\'' then stringOf c cs
      else if c == '[' then do
        let items ← arrayItems cs
        return .array (← itemsOf depth none items)
      else if c == '\x7b' then return (← inlineTable depth cs (.table [] true))
      else match timeFront? cs with
        | some t => timeOf t
        | none => match dateOf? cs with
          | some d => .ok d
          | none => if strict then numberOf cs else .error (.cause .oddNumber)

def itemsOf : Nat → Option String → List (List Char) → Except ValueFault (List Value)
  | 0, _, _ => .error (.other .textEnd)
  | _ + 1, _, [] => .ok []
  | depth + 1, kind, p :: rest => do
    let text := stripBlanks p
    if text.isEmpty then itemsOf depth kind rest
    else
      let v ← valueOf depth text true
      match kind with
      | some k => if k != arrayKind v then .error (.cause .mixedArray) else pure ()
      | none => pure ()
      return v :: (← itemsOf depth (some (arrayKind v)) rest)

def inlineTable : Nat → List Char → Value → Except ValueFault Value
  | 0, _, _ => .error (.other .textEnd)
  | depth + 1, cs, table => do
    let ps := splitAll ',' (trimBoth 1 cs)
    let ps ← match ps with
      | [p] => if (stripBlanks p).isEmpty then pure [] else inlineParts (ps.length + 1) ps
      | _ => inlineParts (ps.length + 1) ps
    inlineLines depth ps table

/-- Sets keys by the parts of an inline table, up to one that is not closed. -/
def inlineLines : Nat → List (List Char) → Value → Except ValueFault Value
  | 0, _, _ => .error (.other .textEnd)
  | _ + 1, [], table => .ok table
  | depth + 1, p :: rest, table => do
    match ← setLine depth p table with
    | (table, none) => inlineLines depth rest table
    | (table, some _) => return table

/-- Sets a key of a table by a line, or begins a string of several lines. -/
def setLine : Nat → List Char → Value → Except ValueFault (Value × Option LongString)
  | 0, _, _ => .error (.other .textEnd)
  | depth + 1, line, table => do
    let (key, written, strict) ← splitLine line
    let (levels, key) ← if key.contains '.' then do
        let levels ← keyLevels key
        pure (levels.dropLast.map String.ofList, String.ofList (stripBlanks (levels.getLast?.getD [])))
      else match key with
        | [] => .error (.other .textEnd)
        | c :: _ =>
          if key.getLast? == some c && (c == '"' || c == '\'') then do
            pure ([], String.ofList (← unescape (trimBoth 1 key)))
          else pure ([], String.ofList key)
    atLevels (fun table => do
      match ← openString? written with
      | some p =>
        let joined := endsEscaped p
        let text := if joined then written.dropLast else written ++ ['\n']
        let _ ← setKey table key (.bool false)
        return (table, some ⟨key, text, joined⟩)
      | none =>
        let v ← valueOf depth written strict
        return (← setKey table key v, none)) levels table

end

end SmallScript.Toml
