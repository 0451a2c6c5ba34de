import SmallScript.Number.Decimal

/-!
# Versions

A version has an epoch, the numbers of its release, and marks for pre-releases, post-releases,
development releases and local builds. `Version.parse?` reads all spellings,
`Version.text` writes the normal form, and versions are ordered by `Version.key`.

Zeros at the end of the release do not count in the order. A development release comes before the
pre-releases, these before the release itself, and post-releases after it.
-/

namespace SmallScript.Packages

open Text Number

inductive Stage where
  | alpha | beta | candidate
deriving DecidableEq, Repr

inductive LocalPart where
  | number (n : Nat)
  | text (s : String)
deriving DecidableEq, Repr

structure Version where
  epoch : Nat
  release : List Nat
  pre : Option (Stage × Nat)
  post : Option Nat
  dev : Option Nat
  /-- the parts of the local mark; none without one -/
  build : List LocalPart
deriving DecidableEq, Repr

/-! ## Reading -/

/-- The number of a run of digits; an empty run is zero. -/
def numeral (cs : List Char) : Nat := cs.foldl (fun n c => n * 10 + (c.toNat - 48)) 0

def digitsFront (cs : List Char) : List Char × List Char := (cs.takeWhile Char.isDigit, cs.dropWhile Char.isDigit)

def isSeparator (c : Char) : Bool := c == '-' || c == '_' || c == '.'

def skipSeparator : List Char → List Char
  | c :: cs => if isSeparator c then cs else c :: cs
  | [] => []

/-- One of several words in front of a text, the earlier ones first. -/
def wordFront? {α : Type} (words : List (String × α)) (cs : List Char) : Option (α × List Char) :=
  (words.find? fun w => w.1.toList.isPrefixOf cs).map fun w => (w.2, cs.drop w.1.length)

/-- A mark in front of a text: a word and a number, which may be missing, with optional separators
before each. -/
def markFront? {α : Type} (words : List (String × α)) (cs : List Char) : Option ((α × Nat) × List Char) := do
  let (a, rest) ← wordFront? words (skipSeparator cs)
  let (digits, rest) := digitsFront (skipSeparator rest)
  return ((a, numeral digits), rest)

def stageWords : List (String × Stage) := [
  ("alpha", .alpha), ("a", .alpha), ("beta", .beta), ("b", .beta), ("preview", .candidate),
  ("pre", .candidate), ("c", .candidate), ("rc", .candidate)]

def postWords : List (String × Unit) := [("post", ()), ("rev", ()), ("r", ())]

def devWords : List (String × Unit) := [("dev", ())]

/-- Numbers with dots between them in front of a text. The first argument bounds their count. -/
def releaseFront? : Nat → List Char → Option (List Nat × List Char)
  | 0, _ => none
  | bound + 1, cs =>
    match digitsFront cs with
    | ([], _) => none
    | (digits, '.' :: rest) =>
      match releaseFront? bound rest with
      | some (more, rest) => some (numeral digits :: more, rest)
      | none => some ([numeral digits], '.' :: rest)
    | (digits, rest) => some ([numeral digits], rest)

/-- The mark of a post-release in front of a text: a number behind a dash, or a mark with a word. -/
def postFront? (cs : List Char) : Option (Nat × List Char) :=
  let marked := (markFront? postWords cs).map fun r => (r.1.2, r.2)
  match cs with
  | '-' :: rest =>
    match digitsFront rest with
    | ([], _) => marked
    | (digits, rest) => some (numeral digits, rest)
  | _ => marked

def localParts? (cs : List Char) : Option (List LocalPart) :=
  let parts := cs.splitBy fun a b => !isSeparator a && !isSeparator b
  let words := parts.filter fun p => !p.any isSeparator
  -- words and separators take turns, with words at both ends
  if parts.length = 2 * words.length - 1 && !words.isEmpty && cs.all (fun c => isSeparator c || c.isAlphanum)
      && !(cs.head?.any isSeparator) then
    some (words.map fun w => if w.all Char.isDigit then .number (numeral w) else .text (String.ofList w))
  else none

def optional {α : Type} (front : List Char → Option (α × List Char)) (cs : List Char) : Option α × List Char :=
  match front cs with
  | some (a, rest) => (some a, rest)
  | none => (none, cs)

def epochFront (cs : List Char) : Nat × List Char :=
  match digitsFront cs with
  | (d :: ds, '!' :: rest) => (numeral (d :: ds), rest)
  | _ => (0, cs)

/-- Reads a version; blanks around it, a leading `v` and capital letters do not matter. -/
def Version.parse? (text : String) : Option Version := do
  let cs := (stripBlanks text.toList).map Char.toLower
  let cs := if cs.head? == some 'v' then cs.drop 1 else cs
  let (epoch, cs) := epochFront cs
  let (release, cs) ← releaseFront? (cs.length + 1) cs
  let (pre, cs) := optional (markFront? stageWords) cs
  let (post, cs) := optional postFront? cs
  let (dev, cs) := optional (markFront? devWords) cs
  let version : Version := ⟨epoch, release, pre, post, dev.map (·.2), []⟩
  match cs with
  | [] => return version
  | '+' :: rest => return { version with build := ← localParts? rest }
  | _ => none

/-! ## Writing -/

def Stage.text : Stage → String
  | .alpha => "a"
  | .beta => "b"
  | .candidate => "rc"

def LocalPart.render : LocalPart → String
  | .number n => toString n
  | .text s => s

def Version.text (v : Version) : String :=
  (if v.epoch = 0 then "" else s!"{v.epoch}!")
    ++ ".".intercalate (v.release.map toString)
    ++ (match v.pre with | some (stage, n) => stage.text ++ toString n | none => "")
    ++ (match v.post with | some n => s!".post{n}" | none => "")
    ++ (match v.dev with | some n => s!".dev{n}" | none => "")
    ++ (if v.build.isEmpty then "" else "+" ++ ".".intercalate (v.build.map (·.render)))

/-! ## Order -/

def Stage.rank : Stage → Nat
  | .alpha => 0
  | .beta => 1
  | .candidate => 2

def dropTrailingZeros (ns : List Nat) : List Nat := (ns.reverse.dropWhile (· == 0)).reverse

/-- What counts of a part of a local mark: texts come before numbers. -/
def LocalPart.key : LocalPart → List Nat
  | .text s => 0 :: s.toList.map Char.toNat
  | .number n => [1, n]

/-- What counts of a pre-release: a mere development release comes before all of them, anything else
that is no pre-release after them. -/
def Version.preKey (v : Version) : List Nat :=
  match v.pre, v.post, v.dev with
  | some (stage, n), _, _ => [1, stage.rank, n]
  | none, none, some _ => [0]
  | none, _, _ => [2]

def Version.key (v : Version) : List (List Nat) :=
  [[v.epoch], dropTrailingZeros v.release, v.preKey,
    (match v.post with | some n => [1, n] | none => [0]),
    (match v.dev with | some n => [0, n] | none => [1])] ++ v.build.map LocalPart.key

instance : LT Version := ⟨fun a b => a.key < b.key⟩

instance (a b : Version) : Decidable (a < b) := inferInstanceAs (Decidable (a.key < b.key))

end SmallScript.Packages
