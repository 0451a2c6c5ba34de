import SmallScript.Toml.Value
import SmallScript.Text.Search

/-!
# Scalars of TOML

Numbers, points in time and strings. A number may have low lines between its digits and a sign; an
integer may be written in base 16, 8 or 2. A string in double quotes has escapes, one in single quotes
has none.
-/

namespace SmallScript.Toml

open Text Number

/-! ## Numbers -/

def lowLinesInside : List Char → Bool
  | a :: '_' :: b :: rest => isDecimalDigit a && isDecimalDigit b && lowLinesInside (b :: rest)
  | '_' :: _ | [_, '_'] => false
  | _ :: rest => lowLinesInside rest
  | [] => true

/-- A text as a float: blanks around it, low lines between digits and capital letters do not matter. -/
def floatOf? (cs : List Char) : Option Float :=
  let body := (stripBlanks cs).map Char.toLower
  if !lowLinesInside body then none
  else
    let body := body.filter (· != '_')
    let unsigned := body.dropWhile fun c => c == '-' || c == '+'
    if unsigned == "infinity".toList then decimal? (body.take (body.length - 5)) else decimal? body

def digitIn? (base : Nat) (c : Char) : Option Nat :=
  let value? := if 'a' ≤ c && c ≤ 'f' then some (c.toNat - 87) else decimalValue? c
  value?.filter (· < base)

def digitsIn? (base : Nat) (cs : List Char) : Option Nat :=
  if cs.isEmpty then none else cs.foldlM (fun n c => (digitIn? base c).map (n * base + ·)) 0

/-- A text as an integer, with the base in front; a decimal number has no leading zeros. -/
def integerOf? (cs : List Char) : Option Int := do
  let body := (stripBlanks cs).map Char.toLower
  let (negative, body) := match body with
    | '-' :: r => (true, r)
    | '+' :: r => (false, r)
    | r => (false, r)
  let n ← match body with
    | '0' :: 'x' :: ds => digitsIn? 16 ds
    | '0' :: 'o' :: ds => digitsIn? 8 ds
    | '0' :: 'b' :: ds => digitsIn? 2 ds
    | '0' :: ds => if ds.all (· == '0') then some 0 else none
    | ds => digitsIn? 10 ds
  return if negative then -(n : Int) else n

def wellFormedNumber (cs : List Char) : Bool :=
  let n := stripBlanks cs
  let zeroLed (allowed : List Char) (n : List Char) : Bool :=
    match n with
    | '0' :: c :: _ => !allowed.contains c
    | _ => false
  if n.isEmpty || n.head? == some '_' || n.getLast? == some '_' then false
  else if occursIn "_.".toList n || occursIn "._".toList n then false
  else if n.length == 1 then true
  else if zeroLed ['.', 'o', 'b', 'x'] n then false
  else
    let unsigned := match n with
      | '+' :: r | '-' :: r => r
      | r => r
    if unsigned.length != n.length && zeroLed ['.'] unsigned then false
    else !occursIn "__".toList unsigned

def numberOf (cs : List Char) : Except ValueFault Value := do
  let (negative, body) := match cs with
    | '-' :: r => (true, r)
    | '+' :: r => (false, r)
    | r => (false, r)
  let body := body.filter (· != '_')
  let has (c : Char) : Bool := body.contains c
  let float : Except ValueFault Value :=
    match floatOf? body with
    | some x => .ok (.float (if negative then 0.0 - x else x))
    | none => .error (.cause (.badFloat (String.ofList body)))
  if has '.' || (!has 'x' && (has 'e' || has 'E')) then
    if has '.' && (body.dropWhile (· != '.')).length == 1 then .error (.cause .floatTail)
    else match body.head? with
      | none => .error (.other .textEnd)
      | some c => if c.isDigit then float else .error (.cause .floatHead)
  else if body.map Char.toLower == "inf".toList || body.map Char.toLower == "nan".toList then float
  else match integerOf? body with
    | some n => .ok (.int (if negative then -n else n))
    | none => .error (.cause (.badInteger (String.ofList body)))

/-! ## Points in time -/

def numberAt? (cs : List Char) (start count : Nat) : Option Int :=
  (integer (String.ofList ((cs.drop start).take count))).toOption

def isLeapYear (y : Int) : Bool := y % 4 == 0 && (y % 100 != 0 || y % 400 == 0)

def daysIn (y m : Int) : Int :=
  if m == 2 then (if isLeapYear y then 29 else 28)
  else if m == 4 || m == 6 || m == 9 || m == 11 then 30 else 31

def padded (width : Nat) (n : Int) : String :=
  let digits := toString n.natAbs
  "".pushn '0' (width - digits.length) ++ digits

def offsetOf? (cs : List Char) : Option String := do
  if cs == ['Z'] then return "+00:00"
  let hours ← numberAt? cs 1 2
  let minutes ← numberAt? cs 4 2
  return (if cs.head? == some '-' then "-" else "+") ++ padded 2 hours ++ ":" ++ padded 2 minutes

/-- The fraction of a second and the distance to universal time behind the seconds. -/
def secondsTail (cs : List Char) : Int × Option String :=
  let tail := cs.drop 20
  let (fraction, zone) :=
    if cs.getLast?.any fun c => c == 'Z' || c == 'z' then (tail.dropLast, ['Z'])
    else
      let mark := if tail.contains '+' then '+' else '-'
      (tail.takeWhile (· != mark), tail.dropWhile (· != mark))
  match if zone.isEmpty then some none else (offsetOf? zone).map some with
  | none => (0, none)
  | some zone =>
    match integer (String.ofList fraction) with
    | .ok n => if fraction.length ≤ 6 then (n * tenPow (6 - fraction.length), zone)
        else (n / tenPow (fraction.length - 6), zone)
    | .error _ => (0, none)

def dateOf? (cs : List Char) : Option Value := do
  guard ((cs.drop 1).contains '-')
  let year ← numberAt? cs 0 4
  let month ← numberAt? cs 5 2
  let day ← numberAt? cs 8 2
  guard (1 ≤ year && year ≤ 9999 && 1 ≤ month && month ≤ 12 && 1 ≤ day && day ≤ daysIn year month)
  let date := padded 4 year ++ "-" ++ padded 2 month ++ "-" ++ padded 2 day
  if cs.length == 10 then return .stamp "date" date
  let hour ← numberAt? cs 11 2
  let minute ← numberAt? cs 14 2
  let second ← numberAt? cs 17 2
  guard (0 ≤ hour && hour < 24 && 0 ≤ minute && minute < 60 && 0 ≤ second && second < 60)
  let (micro, zone) := if cs.length ≤ 19 then (0, none)
    else if cs.drop 19 |>.head? |> (· == some '.') then secondsTail cs
    else (0, offsetOf? (cs.drop 19))
  guard (0 ≤ micro && micro < 1000000)
  return .stamp "datetime" (date ++ " " ++ padded 2 hour ++ ":" ++ padded 2 minute ++ ":" ++ padded 2 second
    ++ (if micro == 0 then "" else "." ++ padded 6 micro) ++ zone.getD "")

/-- Two digits with a colon behind them in front of a text. -/
def twoDigits? : List Char → Option (Nat × List Char)
  | a :: b :: rest => if a.isDigit && b.isDigit then some ((a.toNat - 48) * 10 + (b.toNat - 48), rest) else none
  | _ => none

/-- The time of day in front of a text: hour, minute, second and the digits of a fraction. -/
def timeFront? (cs : List Char) : Option (Nat × Nat × Nat × Nat) := do
  let (h, rest) ← twoDigits? cs
  guard (rest.head? == some ':')
  let (m, rest) ← twoDigits? (rest.drop 1)
  guard (rest.head? == some ':')
  let (s, rest) ← twoDigits? (rest.drop 1)
  let fraction := ((rest.drop 1).takeWhile Char.isDigit).take 6
  let micro := if rest.head? == some '.' && 3 ≤ fraction.length then
    fraction.foldl (fun n c => n * 10 + (c.toNat - 48)) 0 else 0
  return (h, m, s, micro)

def timeOf (t : Nat × Nat × Nat × Nat) : Except ValueFault Value :=
  let (h, m, s, micro) := t
  if h > 23 then .error (.cause (.timePart "hour" 23))
  else if m > 59 then .error (.cause (.timePart "minute" 59))
  else if s > 59 then .error (.cause (.timePart "second" 59))
  else .ok (.stamp "time" (padded 2 h ++ ":" ++ padded 2 m ++ ":" ++ padded 2 s
    ++ (if micro == 0 then "" else "." ++ padded 6 micro)))

/-! ## Strings -/

def endsEscaped (cs : List Char) : Bool := (cs.reverse.takeWhile (· == '\\')).length % 2 == 1

def escapeOf? : Char → Option Char
  | '0' => some '\x00'
  | 'b' => some '\x08'
  | 'f' => some '\x0c'
  | 'n' => some '\n'
  | 'r' => some '\r'
  | 't' => some '\t'
  | '"' => some '"'
  | _ => none

/-- A text with its escapes replaced; escapes by number stay. -/
def unescape : List Char → Except ValueFault (List Char)
  | '\\' :: c :: rest =>
    match escapeOf? c with
    | some d => return d :: (← unescape rest)
    | none =>
      if c == '\\' then return '\\' :: (← unescape rest)
      else if c == 'u' || c == 'U' then return '\\' :: c :: (← unescape rest)
      else .error (.cause .reservedEscape)
  | c :: rest => return c :: (← unescape rest)
  | [] => .ok []

def checkEscapes (cs : List Char) : Except ValueFault Unit := do
  let _ ← ((pieces ['\\'] cs).drop 1).foldlM (fun escaped p =>
    match p with
    | [] => .ok !escaped
    | c :: _ =>
      if (escapeOf? c).isNone && c != 'u' && c != 'U' && !escaped then .error (.cause .reservedEscape)
      else .ok false) false
  return ()

def isHexDigit (c : Char) : Bool := c.isDigit || ('a' ≤ c && c ≤ 'f')

def numberedEscape (mark : List Char) (digits : Nat) (cs : List Char) : Except ValueFault (Char × List Char) := do
  let number := (cs.take digits).map Char.toLower
  let written := String.ofList (mark ++ number)
  if !number.all isHexDigit then .error (.cause (.badEscape written))
  else match number with
    | [] => .error (.other .textEnd)
    | ['d'] => .error (.other .textEnd)
    | 'd' :: c :: _ =>
      if '0' ≤ c && c ≤ '7' then decodeNumber number else .error (.cause (.halfEscape written))
    | _ => decodeNumber number
where
  decodeNumber (number : List Char) : Except ValueFault (Char × List Char) :=
    match digitsIn? 16 number with
    | some n => if n < 0x110000 then .ok (Char.ofNat n, cs.drop number.length) else .error (.cause .hugeEscape)
    | none => .error (.other .textEnd)

/-- A text with the escapes by number of one kind replaced. An escape whose backslash is itself escaped
stays. -/
def replaceNumbered (mark : List Char) (digits : Nat) (cs : List Char) : Except ValueFault (List Char) := do
  match pieces mark cs with
  | [] => return []
  | first :: rest =>
    let start : List Char × Bool := (first, endsEscaped first)
    let (text, _) ← rest.foldlM (fun (text, skip) p => do
      if skip then return (text ++ mark ++ p, endsEscaped p)
      else
        let (c, tail) ← numberedEscape mark digits p
        return (text ++ c :: tail, false)) start
    return text

/-- Nothing stands behind the closing quote. The argument is the text between quotes, `three` says
whether the string has three quotes at each end. -/
def checkClosed (three : Bool) : Bool → Nat → List (List Char) → Except ValueFault Unit
  | _, _, [] => .ok ()
  | closed, count, p :: rest =>
    if p.isEmpty then
      if three then checkClosed three closed (count + 1) rest else checkClosed three true count rest
    else if endsEscaped p then checkClosed three closed count rest
    else if closed then .error (.cause .behindString)
    else if !three || count > 1 then checkClosed three true count rest
    else checkClosed three closed 0 rest

def trimBoth (n : Nat) (cs : List Char) : List Char := (cs.drop n).take (cs.length - 2 * n)

def stringOf (quote : Char) (cs : List Char) : Except ValueFault Value := do
  let parts := pieces [quote] (cs.drop 1)
  match parts with
  | [] :: [] :: rest => checkClosed true false 0 rest
  | _ => checkClosed false false 0 parts
  let text ← if quote == '"' then do
      checkEscapes cs
      unescape (← replaceNumbered ['\\', 'U'] 8 (← replaceNumbered ['\\', 'u'] 4 cs))
    else pure cs
  let text := match text with
    | [_, b] => if b == quote then trimBoth 2 text else text
    | _ :: b :: c :: _ => if b == quote && b == c then trimBoth 2 text else text
    | _ => text
  return .str (String.ofList (trimBoth 1 text))

end SmallScript.Toml
