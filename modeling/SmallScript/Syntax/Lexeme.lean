import SmallScript.Syntax.Token
import SmallScript.Text.Letter
import SmallScript.Text.Digit

/-!
# Lexemes

A source text is read from the left as a sequence of lexemes: blanks, line breaks, comments,
operators, numbers, words and strings. `Lexeme.read` splits the first lexeme off a text that is not
empty; `Lexeme.source_append_rest` says that nothing is lost, and so the rest is shorter.

A minus sign that touches a digit, a letter or a low line belongs to the number or word behind it.
-/

namespace SmallScript.Syntax

open Text

inductive Lexeme where
  /-- a blank, tab or carriage return -/
  | space (c : Char)
  /-- a line break -/
  | newline
  /-- a comment, from `#` through the closing `;` or line break, if there is one -/
  | comment (body : List Char) (close : Option Char)
  /-- an entry of the table of operators -/
  | operator (text : String) (kind : TokenKind)
  /-- a minus sign on its own -/
  | minus
  /-- a number, maybe with a minus sign -/
  | number (neg : Bool) (digits : List Char)
  /-- a word, maybe with a minus sign -/
  | word (neg : Bool) (letters : List Char)
  /-- a string, without its quotes -/
  | string (content : List Char)
deriving DecidableEq

inductive LexemeFault where
  /-- a minus sign at the very end -/
  | lastMinus
  /-- a string without closing quote -/
  | unclosedString
  /-- a character that no lexeme begins with -/
  | unknown (c : Char)
deriving DecidableEq

def minusSign (neg : Bool) : List Char := if neg then ['-'] else []

def Lexeme.source : Lexeme → List Char
  | .space c => [c]
  | .newline => ['\n']
  | .comment body close => '#' :: body ++ close.toList
  | .operator text _ => text.toList
  | .minus => ['-']
  | .number neg digits => minusSign neg ++ digits
  | .word neg letters => minusSign neg ++ letters
  | .string content => '"' :: content ++ ['"']

def startsWord (c : Char) : Bool := isLetter c || c == '_'

def continuesWord (c : Char) : Bool := isLetter c || isDigit c || c == '_'

/-- The longest run of digits with at most one point, and what follows it. -/
def numberRun : Bool → List Char → List Char × List Char
  | _, [] => ([], [])
  | pointSeen, c :: cs =>
    if isDigit c then
      let (run, rest) := numberRun pointSeen cs
      (c :: run, rest)
    else if c == '.' && !pointSeen then
      let (run, rest) := numberRun true cs
      (c :: run, rest)
    else ([], c :: cs)

/-- The operator that a text begins with, the longest if there are several. -/
def operatorAt? (cs : List Char) : Option (String × TokenKind) :=
  operators.find? fun o => o.1.toList.isPrefixOf cs

def insideComment (c : Char) : Bool := c != ';' && c != '\n'

def numberOrWord? (neg : Bool) : List Char → Option (Lexeme × List Char)
  | [] => none
  | c :: cs =>
    if isDigit c then
      let (run, rest) := numberRun false cs
      some (.number neg (c :: run), rest)
    else if startsWord c then
      some (.word neg (c :: cs.takeWhile continuesWord), cs.dropWhile continuesWord)
    else none

/-- The first lexeme of the text `c :: cs`, and the rest of the text. -/
def Lexeme.read (c : Char) (cs : List Char) : Except LexemeFault (Lexeme × List Char) :=
  if c == '\n' then .ok (.newline, cs)
  else if c == ' ' || c == '\t' || c == '\r' then .ok (.space c, cs)
  else match operatorAt? (c :: cs) with
    | some (text, kind) => .ok (.operator text kind, (c :: cs).drop text.length)
    | none =>
      if c == '#' then
        match cs.dropWhile insideComment with
        | [] => .ok (.comment cs none, [])
        | d :: rest => .ok (.comment (cs.takeWhile insideComment) (some d), rest)
      else if c == '-' then
        match cs with
        | [] => .error .lastMinus
        | _ => .ok ((numberOrWord? true cs).getD (.minus, cs))
      else if c == '"' then
        match cs.dropWhile (· != '"') with
        | [] => .error .unclosedString
        | _ :: rest => .ok (.string (cs.takeWhile (· != '"')), rest)
      else match numberOrWord? false (c :: cs) with
        | some r => .ok r
        | none => .error (.unknown c)

/-! ## Nothing is lost -/

theorem numberRun_append (pointSeen : Bool) (cs : List Char) :
    (numberRun pointSeen cs).1 ++ (numberRun pointSeen cs).2 = cs := by
  induction cs generalizing pointSeen with
  | nil => rfl
  | cons c cs ih =>
    simp only [numberRun]
    split
    · simp [ih]
    · split <;> simp [ih]

theorem operators_nonempty : ∀ o ∈ operators, o.1.toList ≠ [] := by decide +kernel

theorem numberOrWord?_source {neg : Bool} {cs : List Char} {l : Lexeme} {rest : List Char}
    (h : numberOrWord? neg cs = some (l, rest)) : l.source ++ rest = minusSign neg ++ cs ∧ l.source ≠ [] := by
  match cs with
  | [] => cases h
  | c :: cs =>
    simp only [numberOrWord?] at h
    split at h
    · cases h
      simp [Lexeme.source, numberRun_append]
    · split at h
      · cases h
        simp [Lexeme.source]
      · cases h

theorem Lexeme.source_of_read {c : Char} {cs : List Char} {l : Lexeme} {rest : List Char}
    (h : Lexeme.read c cs = .ok (l, rest)) : l.source ++ rest = c :: cs ∧ l.source ≠ [] := by
  unfold Lexeme.read at h
  split at h
  · next hc =>
    cases h
    simp_all [Lexeme.source]
  split at h
  · cases h
    simp [Lexeme.source]
  split at h
  · next text kind ho =>
    cases h
    have hp := List.find?_some ho
    simp only [List.isPrefixOf_iff_prefix] at hp
    obtain ⟨t, ht⟩ := hp
    rw [← ht]
    refine ⟨?_, operators_nonempty _ (List.mem_of_find?_eq_some ho)⟩
    simp [Lexeme.source, ← String.length_toList]
  split at h
  · next hc =>
    have hc : c = '#' := by simpa using hc
    split at h
    · next hd =>
      cases h
      simp [Lexeme.source, hc]
    · next d r hd =>
      cases h
      have := List.takeWhile_append_dropWhile (p := insideComment) (l := cs)
      rw [hd] at this
      simp [Lexeme.source, hc, this]
  split at h
  · next hc =>
    have hc : c = '-' := by simpa using hc
    split at h
    · cases h
    · cases hn : numberOrWord? true cs with
      | none =>
        rw [hn] at h
        cases h
        simp [Lexeme.source, hc]
      | some r =>
        rw [hn] at h
        cases h
        have := numberOrWord?_source hn
        simpa [minusSign, hc] using this
  split at h
  · next hc =>
    have hc : c = '"' := by simpa using hc
    split at h
    · cases h
    · next d r hd =>
      cases h
      have := List.takeWhile_append_dropWhile (p := (· != '"')) (l := cs)
      rw [hd] at this
      have hq : d = '"' := by
        have := List.head_dropWhile_not (p := (· != '"')) (l := cs) (by simp [hd])
        simpa [hd] using this
      subst hq
      simp [Lexeme.source, hc, this]
  · split at h
    · next r hr =>
      cases h
      simpa [minusSign] using numberOrWord?_source hr
    · cases h

theorem Lexeme.source_append_rest {c : Char} {cs : List Char} {l : Lexeme} {rest : List Char}
    (h : Lexeme.read c cs = .ok (l, rest)) : l.source ++ rest = c :: cs := (source_of_read h).1

theorem Lexeme.read_rest_lt {c : Char} {cs : List Char} {l : Lexeme} {rest : List Char}
    (h : Lexeme.read c cs = .ok (l, rest)) : rest.length < (c :: cs).length := by
  obtain ⟨happend, hne⟩ := source_of_read h
  have hpos := List.length_pos_iff.2 hne
  rw [← happend, List.length_append]
  omega

end SmallScript.Syntax
