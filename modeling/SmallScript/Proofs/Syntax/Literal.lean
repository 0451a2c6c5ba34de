import SmallScript.Proofs.Number.Whole
import SmallScript.Proofs.Syntax.Faults

/-!
# Literals and how they are printed

A `Literal` is a piece of data: null, a truth value, a whole number that a float holds exactly, a string without
quotes, or an array or an object of such. `Literal.lexemes` says how it is printed. An array or an object without
contents lacks its opening bracket, which makes the text unreadable; `Literal.empties` counts these.

The printed lexemes keep apart: in front of a blank, a comma, a colon or the end of the text, the lexical grammar
reads them back, `Literal.splits`. So `tokenize` finds their tokens, `tokenize_literal`.
-/

namespace SmallScript.Syntax

open Text Number List

/-! ## Literals -/

/-- A whole number that a float holds exactly. -/
structure Whole where
  value : Int
  small : value.natAbs ≤ 2 ^ 53

/-- A piece of data. -/
inductive Literal where
  | null
  | bool (b : Bool)
  | whole (n : Whole)
  | string (s : Content)
  | array (items : List Literal)
  | object (fields : List (Name × Literal))

/-- Induction over literals, with a hypothesis for each item and each field. -/
@[elab_as_elim]
theorem Literal.induct {motive : Literal → Prop} (null : motive .null) (bool : ∀ b, motive (.bool b))
    (whole : ∀ n, motive (.whole n)) (string : ∀ s, motive (.string s))
    (array : ∀ items, (∀ x ∈ items, motive x) → motive (.array items))
    (object : ∀ fields, (∀ f ∈ fields, motive f.2) → motive (.object fields)) (l : Literal) : motive l := by
  refine @rec motive (fun xs => ∀ x ∈ xs, motive x) (fun fs => ∀ f ∈ fs, motive f.2)
    (fun f => motive f.2) null bool whole string array object ?_ ?_ ?_ ?_ (fun _ _ h => h) l
  · exact fun _ h => absurd h not_mem_nil
  · exact fun _ _ hx hxs => forall_mem_cons.2 ⟨hx, hxs⟩
  · exact fun _ h => absurd h not_mem_nil
  · exact fun _ _ hf hfs => forall_mem_cons.2 ⟨hf, hfs⟩

/-- The literal is an array or an object without contents. -/
def Literal.isEmpty : Literal → Bool
  | .array items => items.isEmpty
  | .object fields => fields.isEmpty
  | _ => false

mutual

/-- The number of empty arrays and objects inside a literal, itself included. -/
def Literal.empties : Literal → Nat
  | .array items => items.isEmpty.toNat + itemEmpties items
  | .object fields => fields.isEmpty.toNat + fieldEmpties fields
  | _ => 0

/-- The number of empty arrays and objects inside the items of an array. -/
def itemEmpties : List Literal → Nat
  | [] => 0
  | x :: xs => x.empties + itemEmpties xs

/-- The number of empty arrays and objects inside the fields of an object. -/
def fieldEmpties : List (Name × Literal) → Nat
  | [] => 0
  | (_, x) :: fs => x.empties + fieldEmpties fs

end

theorem itemEmpties_eq (xs : List Literal) : itemEmpties xs = (xs.map Literal.empties).sum := by
  induction xs with
  | nil => rfl
  | cons x xs ih => rw [itemEmpties, ih, map_cons, sum_cons]

theorem fieldEmpties_eq (fs : List (Name × Literal)) : fieldEmpties fs = (fs.map (·.2.empties)).sum := by
  induction fs with
  | nil => rfl
  | cons f fs ih => rw [fieldEmpties, ih, map_cons, sum_cons]

mutual

/-- The number of literals inside a literal, itself included. -/
def Literal.size : Literal → Nat
  | .array items => itemSize items + 1
  | .object fields => fieldSize fields + 1
  | _ => 1

/-- The number of literals inside the items of an array. -/
def itemSize : List Literal → Nat
  | [] => 0
  | x :: xs => x.size + itemSize xs

/-- The number of literals inside the fields of an object. -/
def fieldSize : List (Name × Literal) → Nat
  | [] => 0
  | (_, x) :: fs => x.size + fieldSize fs

end

theorem Literal.size_pos (l : Literal) : 1 ≤ l.size := by
  cases l with
  | array | object =>
    exact Nat.le_add_left _ _
  | _ => exact le_refl 1

theorem Literal.isEmpty_le_empties (l : Literal) : l.isEmpty.toNat ≤ l.empties := by
  cases l with
  | array items | object fields =>
    exact Nat.le_add_right _ _
  | _ => exact Nat.zero_le _

theorem Literal.not_isEmpty {l : Literal} (h : l.empties = 0) : l.isEmpty = false :=
  Bool.toNat_eq_zero.1 (Nat.le_zero.1 (h ▸ l.isEmpty_le_empties))

/-- What has no empty array or object inside has none in its parts. -/
theorem Literal.empties_item {items} (h : (Literal.array items).empties = 0) {x} (hx : x ∈ items) : x.empties = 0 := by
  rw [empties, itemEmpties_eq, Nat.add_eq_zero_iff, List.sum_eq_zero_iff_forall_eq_nat] at h
  exact h.2 _ (mem_map_of_mem hx)

theorem Literal.empties_field {fields} (h : (Literal.object fields).empties = 0)
    {f} (hf : f ∈ fields) : f.2.empties = 0 := by
  rw [empties, fieldEmpties_eq, Nat.add_eq_zero_iff, List.sum_eq_zero_iff_forall_eq_nat] at h
  exact h.2 _ (mem_map_of_mem hf)

/-! ## Names of literals -/

/-- The name of nothing. -/
def Name.null : Name where
  first := 'n'
  more := ['u', 'l', 'l']
  begins := by decide
  continues := List.all_eq_true.1 (by decide)
  notKeyword := by decide

/-- The names of the truth values. -/
def Name.ofBool : Bool → Name
  | true => ⟨'t', ['r', 'u', 'e'], by decide, List.all_eq_true.1 (by decide), by decide⟩
  | false => ⟨'f', ['a', 'l', 's', 'e'], by decide, List.all_eq_true.1 (by decide), by decide⟩

/-! ## Whole numbers -/

theorem decimalValue?_of_isDigit {c} (h : c.isDigit = true) : decimalValue? c = some (c.toNat - 48) := by
  obtain ⟨hge, hle⟩ : 48 ≤ c.toNat ∧ c.toNat ≤ 57 := by
    simpa [Char.isDigit, UInt32.le_iff_toNat_le] using h
  have hzero : (decide (0x30 ≤ c.toNat) && decide (c.toNat < 0x30 + 10)) = true := by
    simp only [Bool.and_eq_true, decide_eq_true_eq]
    omega
  obtain ⟨more, htable⟩ : ∃ more, decimalZeros = 0x30 :: more := ⟨_, rfl⟩
  unfold decimalValue?
  rw [htable, find?_cons, hzero]
  rfl

theorem digitsNumber_digitsOf (k : Nat) : digitsNumber (digitsOf k) = k := by
  have hstep : ∀ acc, ∀ c ∈ digitsOf k, acc * 10 + (decimalValue? c).getD 0 = 10 * acc + (c.toNat - '0'.toNat) := by
    intro acc c hc
    rw [decimalValue?_of_isDigit (isDigit_of_mem_digitsOf hc), mul_comm]
    rfl
  rw [digitsNumber, foldl_ext _ _ _ hstep]
  exact Nat.ofDigitChars_ten_toDigits

namespace Whole

variable (n : Whole)

/-- The digits of a whole number. -/
def numeral : Numeral where
  first := (digitsOf n.value.natAbs).head (digitsOf_ne_nil _)
  more := (digitsOf n.value.natAbs).tail
  fraction := none
  whole_digits := by
    rw [cons_head_tail]
    intro c hc
    rw [isDecimalDigit, decimalValue?_of_isDigit (isDigit_of_mem_digitsOf hc)]
    rfl
  fraction_digits := fun _ h => by cases h

/-- The number begins with a minus sign. -/
def isNegative : Bool := decide (n.value < 0)

/-- How a whole number is printed. -/
def lexeme : Lexeme := .number n.isNegative n.numeral.letters

/-- The float that is equal to a whole number. -/
def float : Float := if n.isNegative then -n.numeral.value else n.numeral.value

theorem numeral_letters : n.numeral.letters = digitsOf n.value.natAbs := by
  rw [Numeral.letters, numeral, Numeral.tail, append_nil, cons_head_tail]

theorem numeral_value : n.numeral.value = floatOfParts n.value.natAbs 0 := by
  have hdigits : n.numeral.first :: n.numeral.more ++ n.numeral.places = digitsOf n.value.natAbs := by
    rw [← numeral_letters]
    rfl
  rw [Numeral.value, hdigits, digitsNumber_digitsOf]
  rfl

theorem float_isWhole : (Numeric.float n.float).IsWhole n.value := by
  obtain ⟨hpos, hneg⟩ := ofFloat?_floatOfParts n.small
  rw [float, numeral_value, isNegative]
  by_cases h : n.value < 0
  · have hvalue : -(n.value.natAbs : Int) = n.value := by omega
    rw [hvalue] at hneg
    rw [if_pos (decide_eq_true h)]
    exact Numeric.isWhole_float hneg
  · have hvalue : (n.value.natAbs : Int) = n.value := by omega
    rw [hvalue] at hpos
    rw [if_neg (by simpa using h)]
    exact Numeric.isWhole_float hpos

theorem text_lexeme : String.ofList n.lexeme.source = plainIntText n.value := by
  rw [lexeme, Lexeme.source, numeral_letters, plainIntText, String.ofList_append, isNegative]
  by_cases h : n.value < 0
  · rw [if_pos h, decide_eq_true h]
    rfl
  · rw [if_neg h, decide_eq_false h]
    rfl

end Whole

/-! ## Printing -/

def Mark.lexeme (m : Mark) : Lexeme := .operator m.text m.kind

def Name.lexeme (n : Name) : Lexeme := .word false n.letters

/-- One blank between printed lexemes. -/
def Lexeme.gap : Lexeme := .space ' '

/-- A comma, a blank and a part, for each part. -/
def moreParts (ps : List (List Lexeme)) : List Lexeme := ps.flatMap fun p => Mark.comma.lexeme :: .gap :: p

/-- Parts between brackets, with commas between them. Without a part, the opening bracket is missing. -/
def listed (opening closing : Mark) : List (List Lexeme) → List Lexeme
  | [] => [.gap, closing.lexeme]
  | p :: ps => opening.lexeme :: .gap :: (p ++ (moreParts ps ++ [.gap, closing.lexeme]))

mutual

/-- How a literal is printed. -/
def Literal.lexemes : Literal → List Lexeme
  | .null => [Name.null.lexeme]
  | .bool b => [(Name.ofBool b).lexeme]
  | .whole n => [n.lexeme]
  | .string s => [.string s.letters]
  | .array items => listed .openBracket .closeBracket (itemLexemes items)
  | .object fields => listed .openBrace .closeBrace (fieldLexemes fields)

def itemLexemes : List Literal → List (List Lexeme)
  | [] => []
  | x :: xs => x.lexemes :: itemLexemes xs

def fieldLexemes : List (Name × Literal) → List (List Lexeme)
  | [] => []
  | (key, x) :: fs => (key.lexeme :: Mark.colon.lexeme :: .gap :: x.lexemes) :: fieldLexemes fs

end

theorem itemLexemes_eq (xs : List Literal) : itemLexemes xs = xs.map Literal.lexemes := by
  induction xs with
  | nil => rfl
  | cons x xs ih => rw [itemLexemes, ih, map_cons]

theorem fieldLexemes_eq (fs : List (Name × Literal)) :
    fieldLexemes fs = fs.map fun f => f.1.lexeme :: Mark.colon.lexeme :: .gap :: f.2.lexemes := by
  induction fs with
  | nil => rfl
  | cons f fs ih => rw [fieldLexemes, ih, map_cons]

/-- The text that lexemes were read from. -/
def lettersOf (ls : List Lexeme) : List Char := ls.flatMap Lexeme.source

theorem lettersOf_nil : lettersOf [] = [] := rfl

theorem lettersOf_cons (l : Lexeme) (ls : List Lexeme) : lettersOf (l :: ls) = l.source ++ lettersOf ls := rfl

theorem lettersOf_append (ls ls' : List Lexeme) : lettersOf (ls ++ ls') = lettersOf ls ++ lettersOf ls' :=
  flatMap_append

theorem Lexeme.gap_source : Lexeme.gap.source = [' '] := rfl

/-- The printed text of a literal. -/
def Literal.source (l : Literal) : String := String.ofList (lettersOf l.lexemes)

/-- The texts and kinds of the tokens of a printed literal. -/
def Literal.faces (l : Literal) : List (String × TokenKind) := l.lexemes.flatMap Lexeme.faces

/-! ## Printed lexemes are read back -/

theorem Splits.append {cs mid rest ls ls'} (h : Splits cs ls mid)
    (h' : Splits mid ls' rest) : Splits cs (ls ++ ls') rest := by
  induction h with
  | nil => exact h'
  | cons hl _ ih => exact .cons hl (ih h')

/-- In front of the rest, the lexemes are read as they were written. -/
def Apart (ls : List Lexeme) (rest : List Char) : Prop := Splits (lettersOf ls ++ rest) ls rest

namespace Apart

variable {l : Lexeme} {ls ls' : List Lexeme} {rest : List Char}

theorem nil (rest : List Char) : Apart [] rest := Splits.nil

theorem append (h : Apart ls (lettersOf ls' ++ rest)) (h' : Apart ls' rest) : Apart (ls ++ ls') rest := by
  unfold Apart
  rw [lettersOf_append, append_assoc]
  exact Splits.append h h'

theorem cons (h : l.Begins (lettersOf ls ++ rest)) (hs : Apart ls rest) : Apart (l :: ls) rest := by
  unfold Apart
  rw [lettersOf_cons, append_assoc]
  exact .cons h hs

theorem gap (h : Apart ls rest) : Apart (.gap :: ls) rest := h.cons (.space (.inl rfl))

end Apart

/-- What may follow a part: nothing, a blank, a comma or a colon. -/
def Delimited (rest : List Char) : Prop := ∀ c ∈ rest.head?, c = ' ' ∨ c = ',' ∨ c = ':'

/-- A delimiter is in no run that has none. -/
theorem Delimited.longest {rest} (hrest : Delimited rest) {P run}
    (h : P run) (hblank : ∀ more, P more → ' ' ∉ more) (hcomma : ∀ more, P more → ',' ∉ more)
    (hcolon : ∀ more, P more → ':' ∉ more) : Longest P run rest := by
  refine longest_of_head h fun c hc => ?_
  rcases hrest c hc with rfl | rfl | rfl
  · exact hblank
  · exact hcomma
  · exact hcolon

theorem Name.begins_lexeme (n : Name) {rest} (hrest : Delimited rest) : n.lexeme.Begins rest := by
  refine .word false n.begins (hrest.longest n.continues ?_ ?_ ?_) <;>
    exact fun more hmore hmem => absurd (hmore _ hmem) (by decide)

theorem Whole.begins_lexeme (n : Whole) {rest} (hrest : Delimited rest) : n.lexeme.Begins rest := by
  refine .number _ ?_ (hrest.longest n.numeral.digitRun ?_ ?_ ?_)
  · exact isDigit_of_isDecimalDigit (n.numeral.whole_digits _ (.head _))
  all_goals
    intro more hmore hmem
    rcases hmore.1 _ hmem with h | h <;> exact absurd h (by decide)

/-- No operator continues a mark. -/
theorem operators_of_mark (m : Mark) :
    ∀ o ∈ operators, o.1.toList.head? = m.text.toList.head? → o.1.toList.length ≤ m.text.toList.length := by
  cases m <;> decide

theorem Mark.begins_lexeme (m : Mark) (rest : List Char) : m.lexeme.Begins rest := by
  refine .operator m.mem_operators ⟨⟨_, m.mem_operators, rfl⟩, ?_⟩
  rintro _ ⟨o, ho, rfl⟩ hpre
  refine operators_of_mark m o ho ?_
  obtain ⟨d, ds, hd⟩ := exists_cons_of_ne_nil (operators_nonempty o ho)
  obtain ⟨c, cs, hc⟩ : ∃ c cs, m.text.toList = c :: cs := by cases m <;> exact ⟨_, _, rfl⟩
  rw [hd, hc, cons_append, cons_prefix_cons] at hpre
  rw [hd, hc, hpre.1]
  rfl

/-- The lexemes are read back wherever they are delimited. -/
def Delimits (ls : List Lexeme) : Prop := ∀ rest, Delimited rest → Apart ls rest

theorem Delimits.single {l} (h : ∀ rest, Delimited rest → l.Begins rest) : Delimits [l] :=
  fun rest hrest => (Apart.nil rest).cons (h rest hrest)

theorem moreParts_apart {ps} (h : ∀ p ∈ ps, Delimits p) (closing : Mark) (rest : List Char) :
    Apart (moreParts ps ++ [.gap, closing.lexeme]) rest ∧
      Delimited (lettersOf (moreParts ps ++ [.gap, closing.lexeme]) ++ rest) := by
  induction ps with
  | nil =>
    refine ⟨((Apart.nil rest).cons (closing.begins_lexeme _)).gap, ?_⟩
    rintro _ ⟨⟩
    exact .inl rfl
  | cons p ps ih =>
    rw [forall_mem_cons] at h
    obtain ⟨hmore, hdelimited⟩ := ih h.2
    have hparts : moreParts (p :: ps) ++ [.gap, closing.lexeme] =
        Mark.comma.lexeme :: .gap :: (p ++ (moreParts ps ++ [.gap, closing.lexeme])) := by
      simp [moreParts]
    rw [hparts]
    refine ⟨((h.1 _ hdelimited).append hmore).gap.cons (Mark.begins_lexeme _ _), ?_⟩
    rintro _ ⟨⟩
    exact .inr (.inl rfl)

/-- Parts between brackets are read back before anything. -/
theorem listed_apart (opening closing : Mark) {ps} (h : ∀ p ∈ ps, Delimits p)
    (rest : List Char) : Apart (listed opening closing ps) rest := by
  cases ps with
  | nil => exact ((Apart.nil rest).cons (closing.begins_lexeme _)).gap
  | cons p ps =>
    rw [forall_mem_cons] at h
    obtain ⟨hmore, hdelimited⟩ := moreParts_apart h.2 closing rest
    exact ((h.1 _ hdelimited).append hmore).gap.cons (opening.begins_lexeme _)

theorem Literal.delimits (l : Literal) : Delimits l.lexemes := by
  induction l using induct with
  | null => exact .single fun _ h => Name.null.begins_lexeme h
  | bool b => exact .single fun _ h => (Name.ofBool b).begins_lexeme h
  | whole n => exact .single fun _ h => n.begins_lexeme h
  | string s => exact .single fun _ _ => .string s.unquoted
  | array items ih =>
    rw [lexemes, itemLexemes_eq]
    exact fun rest _ => listed_apart _ _ (forall_mem_map.2 ih) rest
  | object fields ih =>
    rw [lexemes, fieldLexemes_eq]
    refine fun rest _ => listed_apart _ _ (forall_mem_map.2 fun f hf rest hrest => ?_) rest
    refine ((ih f hf rest hrest).gap.cons (Mark.begins_lexeme _ _)).cons (f.1.begins_lexeme ?_)
    rintro _ ⟨⟩
    exact .inr (.inr rfl)

/-! ## Tokens of printed literals -/

def Mark.face (m : Mark) : String × TokenKind := (m.text, m.kind)

def Name.face (n : Name) : String × TokenKind := (n.text, .identifier)

def Whole.face (n : Whole) : String × TokenKind := (plainIntText n.value, .number)

theorem Name.faces_lexeme (n : Name) : n.lexeme.faces = [n.face] := Word.lexeme_faces (.name n)

theorem Whole.faces_lexeme (n : Whole) : n.lexeme.faces = [n.face] := by
  rw [face, ← n.text_lexeme]
  rfl

/-- A comma and a part, for each part. -/
def moreFaces (ps : List (List (String × TokenKind))) : List (String × TokenKind) :=
  ps.flatMap (Mark.comma.face :: ·)

def fieldFaces (f : Name × Literal) : List (String × TokenKind) := f.1.face :: Mark.colon.face :: f.2.faces

theorem faces_moreParts (ps : List (List Lexeme)) :
    (moreParts ps).flatMap Lexeme.faces = moreFaces (ps.map (·.flatMap Lexeme.faces)) := by
  induction ps with
  | nil => rfl
  | cons p ps ih =>
    rw [moreParts, flatMap_cons, flatMap_append, ← moreParts, ih]
    rfl

theorem faces_listed (opening closing : Mark) (p : List Lexeme) (ps : List (List Lexeme)) :
    (listed opening closing (p :: ps)).flatMap Lexeme.faces =
      opening.face :: (p.flatMap Lexeme.faces ++ (moreFaces (ps.map (·.flatMap Lexeme.faces)) ++ [closing.face])) := by
  show [opening.face] ++ flatMap _ (p ++ (moreParts ps ++ _)) = _
  rw [flatMap_append, flatMap_append, faces_moreParts]
  rfl

namespace Literal

-- The equations of the lexemes, derived once for all the proofs that rewrite with them.
attribute [local simp] lexemes itemLexemes fieldLexemes faces

theorem faces_null : Literal.null.faces = [Name.null.face] := by
  rw [faces, lexemes, flatMap_singleton, Name.faces_lexeme]

theorem faces_bool (b : Bool) : (Literal.bool b).faces = [(Name.ofBool b).face] := by
  rw [faces, lexemes, flatMap_singleton, Name.faces_lexeme]

theorem faces_whole (n : Whole) : (Literal.whole n).faces = [n.face] := by
  rw [faces, lexemes, flatMap_singleton, Whole.faces_lexeme]

theorem faces_string (s : Content) : (Literal.string s).faces = [(String.ofList s.letters, .string)] := by
  rfl

theorem faces_array_nil : (Literal.array []).faces = [Mark.closeBracket.face] := by
  rfl

theorem faces_array_cons (x : Literal) (xs : List Literal) : (Literal.array (x :: xs)).faces =
      Mark.openBracket.face :: (x.faces ++ (moreFaces (xs.map faces) ++ [Mark.closeBracket.face])) := by
  rw [faces, lexemes, itemLexemes_eq, map_cons, faces_listed, map_map]
  rfl

theorem faces_object_nil : (Literal.object []).faces = [Mark.closeBrace.face] := by
  rfl

theorem faces_object_cons (f : Name × Literal) (fs : List (Name × Literal)) : (Literal.object (f :: fs)).faces =
      Mark.openBrace.face :: (fieldFaces f ++ (moreFaces (fs.map fieldFaces) ++ [Mark.closeBrace.face])) := by
  have hfield : ∀ g : Name × Literal, (g.1.lexeme :: Mark.colon.lexeme :: .gap :: g.2.lexemes).flatMap Lexeme.faces =
      fieldFaces g := by
    intro g
    rw [flatMap_cons, Name.faces_lexeme]
    rfl
  rw [faces, lexemes, fieldLexemes_eq, map_cons, faces_listed, map_map, hfield]
  exact congrArg (fun ps => _ :: (_ ++ (moreFaces ps ++ _))) (map_congr_left fun g _ => hfield g)

end Literal

/-- The printed text of a literal has the tokens of its lexemes, and one for the end. -/
theorem tokenize_literal (l : Literal) :
    ∃ ts q, tokenize l.source = .ok (ts ++ [endToken q]) ∧ ts.map Token.face = l.faces := by
  have hs : Apart l.lexemes [] := l.delimits [] fun _ h => by cases h
  rw [Apart, append_nil] at hs
  have hsource : l.source.toList = lettersOf l.lexemes := String.toList_ofList
  rw [← hsource] at hs
  exact ⟨_, _, tokenize_of_splits hs, lexemeTokens_faces _ _⟩

end SmallScript.Syntax
