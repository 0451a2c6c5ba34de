import SmallScript.Toml.Value
import SmallScript.Text.Letter

/-!
# The first pass over a TOML text

The first pass goes through the characters once. It follows quotes, brackets and keys, finds what is
wrong with them, and *cleans* the text: comments become blanks, an array that goes over several lines
is put on one line, and a carriage return at the end of a line becomes a blank. The cleaned text has
as many characters as the text, so that offsets stay valid.
-/

namespace SmallScript.Toml

open Text

inductive KeyPart where
  | outside
  | inside
  /-- behind a part of a key -/
  | behind
deriving DecidableEq, Repr

structure Scan where
  /-- the characters, cleaned up to the present one -/
  text : Array Char
  openArrays : Int
  inString : Bool
  /-- the quote of the string, inside one -/
  quote : Option Char
  /-- inside a string of several lines -/
  inLongString : Bool
  /-- inside the brackets of an array of tables -/
  inTables : Bool
  /-- nothing but blanks on this line so far -/
  lineStart : Bool
  /-- inside the brackets of a table's name -/
  inGroup : Bool
  /-- the key has a dot -/
  dotted : Bool
  key : KeyPart

namespace Scan

def start (cs : List Char) : Scan :=
  ⟨cs.toArray, 0, false, none, false, false, true, false, false, .outside⟩

/-- The character at an index; a negative index counts from the end. -/
def charAt? (s : Scan) (i : Int) : Option Char :=
  if 0 ≤ i then s.text[i.toNat]? else if -i ≤ s.text.size then s.text[(s.text.size + i).toNat]? else none

def setChar (s : Scan) (i : Int) (c : Char) : Scan :=
  { s with text := s.text.setIfInBounds (if 0 ≤ i then i.toNat else (s.text.size + i).toNat) c }

/-- The number of characters `c` in a row that end before an index, at most `bound` of them. -/
def runBefore (s : Scan) (c : Char) (i : Int) : Nat → Nat
  | 0 => 0
  | bound + 1 => if s.charAt? (i - 1) == some c then s.runBefore c (i - 1) bound + 1 else 0

def escapedAt (s : Scan) (i : Int) : Bool := s.runBefore '\\' i s.text.size % 2 == 1

inductive Turn where
  /-- go on with the checks for this character -/
  | go (s : Scan)
  /-- the character is dealt with -/
  | next (s : Scan)
  /-- the text is dealt with -/
  | stop (s : Scan)

def isKeyChar (c : Char) : Bool := isLetter c || isDigit c || c == '_' || c == '-'

/-- Behind a part of a dotted key: inside the next part, if that begins with the next character. -/
def enterPart (s : Scan) (i : Nat) : Except Fault Scan :=
  match s.text[i + 1]? with
  | none => .error (.other .listEnd)
  | some c => .ok (if !isBlank c && c != '.' then { s with key := .inside } else s)

/-- A character that cannot go on a key has to be the equals sign. -/
def endKey (s : Scan) (i : Nat) (c : Char) : Except Fault Turn :=
  if c == '=' then .ok (.go { s with key := .outside, dotted := false })
  else .error (.at (.keyCharacter c) i)

def keyChar (s : Scan) (i : Nat) (c : Char) : Except Fault Turn :=
  if c == '\n' then .error (.at .keyAtLineEnd i)
  else if s.inString then
    if s.quote == some c && s.runBefore '\\' i i % 2 == 0 then
      .ok (.next { s with key := .behind, inString := false, quote := none })
    else .ok (.next s)
  else if s.key = .inside then
    if isBlank c then .ok (.next { s with key := .behind })
    else if c == '.' then .ok (.next { s with dotted := true })
    else if isKeyChar c then .ok (.next s)
    else if s.dotted && s.charAt? (i - 1) == some '.' && (c == '"' || c == '\'') then
      .ok (.next { s with inString := true, quote := some c })
    else s.endKey i c
  else if isBlank c then
    if s.dotted then return .next (← s.enterPart i) else .ok (.next s)
  else if c == '.' then return .next (← { s with dotted := true }.enterPart i)
  else s.endKey i c

/-- Opens or closes a string at a quote; three quotes in a row do so for a string of several lines. -/
def toggle (s : Scan) (c : Char) (three : Bool) : Scan :=
  let s := if three then { s with inLongString := !s.inLongString, inString := !s.inLongString }
    else { s with inString := !s.inString }
  { s with quote := if s.inString then some c else none }

def quoteChar (s : Scan) (i : Nat) (c : Char) : Scan :=
  if c == '\'' && s.quote != some '"' then s.toggle c (s.runBefore c i 2 == 2)
  else if c == '"' && s.quote != some '\'' then
    let run := s.runBefore c i 2
    let escaped := run != 1 && s.escapedAt (i - run)
    if escaped then { s with quote := if s.inString then some c else none }
    else s.toggle c (run == 2)
  else s

/-- The text with blanks from an index to the end of its line; also whether the line has an end. -/
def blankLine (s : Scan) (i : Nat) : Scan × Bool :=
  let rest := (s.text.toList.drop i).takeWhile (· != '\n')
  let stop := i + rest.length
  ({ s with text := s.text.mapIdx fun j c => if i ≤ j && j < stop then ' ' else c }, stop < s.text.size)

/-- A number sign outside of strings and names starts a comment. -/
def commentChar (s : Scan) (i : Nat) (c : Char) : Turn :=
  if c == '#' && !s.inString && !s.inGroup && !s.inTables then
    let (s, more) := s.blankLine i
    if more then .go s else .stop s
  else .go s

def bracketChar (s : Scan) (i : Nat) (c : Char) : Scan :=
  if c == '[' && !s.inString && !s.inGroup && !s.inTables then
    if s.lineStart then
      if s.text[i + 1]? == some '[' then { s with inTables := true } else { s with inGroup := true }
    else { s with openArrays := s.openArrays + 1 }
  else if c == ']' && !s.inString then
    if s.inGroup then { s with inGroup := false }
    else if s.inTables then if s.charAt? (i - 1) == some ']' then { s with inTables := false } else s
    else { s with openArrays := s.openArrays - 1 }
  else s

/-- The end of a line inside a string of several lines. Behind two quotes it becomes a quote itself,
and of three the first becomes a blank. -/
def longStringLine (s : Scan) (i : Nat) : Scan :=
  let last := s.charAt? (i - 1)
  match last with
  | some q =>
    if (q == '\'' || q == '"') && s.charAt? ((i : Int) - 2) == last then
      let s := s.setChar i q
      if s.charAt? ((i : Int) - 3) == last then s.setChar ((i : Int) - 3) ' ' else s
    else s
  | none => s

/-- The end of a line, or the first character of one. -/
def lineChar (s : Scan) (i : Nat) (c : Char) : Except Fault Scan :=
  let now := (s.text[i]?).getD ' '
  if c == '\n' then
    if s.inString || s.inLongString then
      if s.inLongString then .ok (s.longStringLine i) else .error (.at .unbalancedQuotes i)
    else if s.openArrays != 0 then .ok (s.setChar i ' ')
    else .ok { s with lineStart := true }
  else if s.lineStart && now != ' ' && now != '\t' then
    let s := { s with lineStart := false }
    if s.inGroup || s.inTables then .ok s
    else if now == '=' then .error (.at .noKey i)
    else .ok { s with key := .inside }
  else .ok s

def step (s : Scan) (i : Nat) : Except Fault Turn := do
  let c := (s.text[i]?).getD ' '
  if c == '\r' then
    match s.text[i + 1]? with
    | none => .error (.other .listEnd)
    | some '\n' => return .next (s.setChar i ' ')
    | some _ => pure ()
  let turn ← if s.key = .outside then pure (.go s) else s.keyChar i c
  match turn with
  | .go s =>
    match (s.quoteChar i c).commentChar i c with
    | .go s => return .next (← (s.bracketChar i c).lineChar i c)
    | t => return t
  | t => return t

/-- The characters from an index on, as many as the first argument says. -/
def steps : Nat → Nat → Scan → Except Fault Scan
  | 0, _, s => .ok s
  | count + 1, i, s => do
    match ← s.step i with
    | .go s | .next s => steps count (i + 1) s
    | .stop s => return s

end Scan

def cleaned (cs : List Char) : Except Fault (List Char) := do
  let s ← Scan.steps cs.length 0 (Scan.start cs)
  if s.key ≠ .outside then .error (.at .keyAtEnd cs.length)
  else if s.inString then .error (.at .unterminatedString cs.length)
  else return s.text.toList

end SmallScript.Toml
