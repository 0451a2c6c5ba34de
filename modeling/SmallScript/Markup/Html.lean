import SmallScript.Text.Digit
import SmallScript.Text.Quoted

/-!
# Coloured output as HTML

`[` digits `m` is a colour code: 39 ends a coloured span and the other ones begin one. The escape
character in front of codes is dropped wherever it stands, and characters with a meaning in HTML are
written as entities.
-/

namespace SmallScript.Markup

open Text

def entity (c : Char) : List Char :=
  match c with
  | '&' => "&amp;".toList
  | '<' => "&lt;".toList
  | '>' => "&gt;".toList
  | '"' => "&quot;".toList
  | '\'' => "&apos;".toList
  | c => [c]

def codeColours : List (String × String) := [
  ("31", "hotpink"), ("32", "limegreen"), ("33", "gold"), ("34", "cyan"), ("35", "hotpink"),
  ("36", "cyan"), ("37", "white")]

def endCode : String := "39"

/-- The tag of a code. A code that is not known is a fault. -/
def tagOf (code : String) : Except String String :=
  if code == endCode then .ok "</span>"
  else match codeColours.lookup code with
    | some c => .ok s!"<span style=\"color: {c}\">"
    | none => .error code

/-- A colour code at the front of a text, without its opening bracket: the digits and what follows the
`m`. -/
def codeAfter? (cs : List Char) : Option (List Char × List Char) :=
  match cs.takeWhile isDecimalDigit, cs.dropWhile isDecimalDigit with
  | d :: digits, 'm' :: rest => some (d :: digits, rest)
  | _, _ => none

/-- What follows a colour code is shorter than the text with the code. -/
theorem length_of_codeAfter? {cs digits rest : List Char} (h : codeAfter? cs = some (digits, rest)) :
    rest.length < cs.length := by
  have hsplit := List.takeWhile_append_dropWhile (p := isDecimalDigit) (l := cs)
  unfold codeAfter? at h
  split at h
  · rename_i ht hd
    cases h
    rw [ht, hd] at hsplit
    rw [← hsplit]
    simp
    omega
  · cases h

def escapeMark : Char := '\x1b'

def codeAt? (c : Char) (rest : List Char) : Option (List Char × List Char) :=
  if c = '[' then codeAfter? rest else none

theorem length_of_codeAt? {c : Char} {cs digits rest : List Char}
    (h : codeAt? c cs = some (digits, rest)) : rest.length < cs.length := by
  unfold codeAt? at h
  split at h
  · exact length_of_codeAfter? h
  · cases h

def escaped (cs : List Char) : List Char := cs.flatMap entity

/-- A text with tags in place of its colour codes; the fault is the first code that is not known. -/
def tagged (cs : List Char) : Except String (List Char) :=
  match cs with
  | [] => .ok []
  | c :: rest =>
    match h : codeAt? c rest with
    | some (digits, rest') => do
      have := length_of_codeAt? h
      let tag ← tagOf (String.ofList digits)
      return tag.toList ++ (← tagged rest')
    | none => do
      return c :: (← tagged rest)
termination_by cs.length
decreasing_by
  · simp
    omega
  · simp

/-- A coloured text as HTML: with entities, then with tags, then without escape characters. -/
def toHtml (text : String) : Except String String := do
  let chars ← tagged (escaped text.toList)
  return String.ofList (chars.filter (· != escapeMark))

end SmallScript.Markup
