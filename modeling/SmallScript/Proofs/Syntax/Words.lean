import SmallScript.Proofs.Syntax.Lexing
import SmallScript.Proofs.Syntax.Expression

/-!
# Words are read back

Words with blanks between them are read as the lexemes they were written as, so `tokenize` finds one token for
each word of an expression: `tokenize_source`. The blank ends every word, and it is no part of any operator.

`numberValue?_numeral` says that the parser gives a numeral its value.
-/

namespace SmallScript.Syntax

open Text Number List String

variable {rest run : List Char}

/-! ## Lexemes of words -/

def Mark.kind : Mark → TokenKind
  | .openParen => .openParen | .closeParen => .closeParen | .openBracket => .openBracket
  | .closeBracket => .closeBracket | .openBrace => .openBrace | .closeBrace => .closeBrace
  | .comma => .comma | .colon => .colon | .dot => .dot

def Word.face : Word → String × TokenKind
  | .name n => (n.text, .identifier)
  | .numeral n => (String.ofList n.letters, .number)
  | .string s => (String.ofList s.letters, .string)
  | .operator op => (op.text, .binaryOperator)
  | .assign none => ("=", .equals)
  | .assign (some op) => (op.text, .assignmentOperator)
  | .mark m => (m.text, m.kind)

def Word.lexeme : Word → Lexeme
  | .name n => .word false n.letters
  | .numeral n => .number false n.letters
  | .string s => .string s.letters
  | .operator .subtract => .minus
  | .operator op => .operator op.text .binaryOperator
  | .assign none => .operator "=" .equals
  | .assign (some op) => .operator op.text .assignmentOperator
  | .mark m => .operator m.text m.kind

theorem Word.lexeme_source (w : Word) : w.lexeme.source = w.letters := by
  cases w with
  | operator op | assign op => cases op <;> rfl
  | _ => rfl

theorem Name.lookup_keyword (n : Name) : keywords.lookup n.text = none := by
  rw [lookup_eq_none_iff]
  intro k hk
  rw [bne_iff_ne]
  exact fun he => n.notKeyword k hk he.symm

theorem Word.lexeme_faces (w : Word) : w.lexeme.faces = [w.face] := by
  cases w with
  | name n =>
    have hk : keywords.lookup (ofList n.letters) = none := n.lookup_keyword
    rw [lexeme, Lexeme.faces, hk]
    rfl
  | operator op | assign op => cases op <;> rfl
  | _ => rfl

/-! ## Blanks end words -/

/-- What may follow a word: nothing, or a blank and anything. -/
def EndsWord (rest : List Char) : Prop := rest = [] ∨ ∃ r, rest = ' ' :: r

/-- A run of a certain form is the longest one before a character that no such run has, or before the end. -/
theorem longest_of_head {P} (h : P run) (hhead : ∀ c ∈ rest.head?, ∀ more, P more → c ∉ more) : Longest P run rest := by
  refine ⟨h, fun more hmore hpre => ?_⟩
  cases rest with
  | nil =>
    rw [append_nil] at hpre
    exact hpre.length_le
  | cons c r =>
    by_contra hlt
    have hrun : run ++ [c] <+: run ++ c :: r := (prefix_append_right_inj run).2 ⟨r, rfl⟩
    have hlonger : run ++ [c] <+: more := by
      refine prefix_of_prefix_length_le hrun hpre ?_
      rw [List.length_append, List.length_singleton]
      omega
    exact hhead c rfl more hmore (hlonger.subset (mem_append_right _ (mem_singleton.2 rfl)))

/-- A run of a form that admits no blanks is the longest one before a blank or the end. -/
theorem longest_of_endsWord {P} (h : P run)
    (hblank : ∀ more, P more → ' ' ∉ more) (hrest : EndsWord rest) : Longest P run rest := by
  refine longest_of_head h fun c hc => ?_
  rcases hrest with rfl | ⟨r, rfl⟩
  · cases hc
  · cases hc
    exact hblank

theorem operators_no_blank : ∀ o ∈ operators, ' ' ∉ o.1.toList := by decide

theorem longest_operator_of_endsWord {text kind}
    (h : (text, kind) ∈ operators) (hrest : EndsWord rest) : Longest IsOperator text.toList rest := by
  refine longest_of_endsWord ⟨_, h, rfl⟩ ?_ hrest
  rintro more ⟨o, ho, rfl⟩
  exact operators_no_blank o ho

theorem Operator.mem_operators {op : Operator} (h : op ≠ .subtract) : (op.text, .binaryOperator) ∈ operators := by
  cases op with
  | subtract => exact absurd rfl h
  | _ => decide

theorem Compound.mem_operators (op : Compound) : (op.text, .assignmentOperator) ∈ operators := by
  cases op <;> decide

theorem Mark.mem_operators (m : Mark) : (m.text, m.kind) ∈ operators := by
  cases m <;> decide

/-! ## Numerals -/

theorem Numeral.tail_digitRun (n : Numeral) : DigitRun false n.tail := by
  unfold tail
  cases hf : n.fraction with
  | none => exact .nil false
  | some ds =>
    have hds : AllOf isDecimalDigit ds := n.fraction_digits ds hf
    refine (digitRun_point ds).2 ⟨fun c hc => .inl (isDigit_of_isDecimalDigit (hds c hc)), ?_⟩
    have hcount : ds.count '.' = 0 := count_eq_zero.2 fun hmem => absurd (hds _ hmem) (by decide)
    rw [hcount]
    decide

theorem digitRun_append {ds} (h : AllOf isDecimalDigit ds)
    (hrun : DigitRun false run) : DigitRun false (ds ++ run) := by
  induction ds with
  | nil => exact hrun
  | cons d ds ih =>
    rw [AllOf, forall_mem_cons] at h
    exact (digitRun_digit (isDigit_of_isDecimalDigit h.1) false _).2 (ih h.2)

theorem Numeral.digitRun (n : Numeral) : DigitRun false (n.more ++ n.tail) :=
  digitRun_append (fun c hc => n.whole_digits c (.tail _ hc)) n.tail_digitRun

theorem DigitRun.no_blank (h : DigitRun false run) : ' ' ∉ run := by
  intro hmem
  rcases h.1 _ hmem with hd | hd
  · exact absurd hd (by decide)
  · exact absurd hd (by decide)

theorem Word.begins (w : Word) (hrest : EndsWord rest)
    (hw : rest = [] → w ≠ .operator .subtract) : w.lexeme.Begins rest := by
  cases w with
  | name n =>
    refine .word false n.begins (longest_of_endsWord n.continues ?_ hrest)
    exact fun more hmore hmem => absurd (hmore _ hmem) (by decide)
  | numeral n =>
    refine .number false ?_ (longest_of_endsWord n.digitRun (fun _ h => h.no_blank) hrest)
    exact isDigit_of_isDecimalDigit (n.whole_digits _ (.head _))
  | string s => exact .string s.unquoted
  | operator op =>
    by_cases hop : op = .subtract
    · subst hop
      rcases hrest with rfl | ⟨r, rfl⟩
      · exact absurd rfl (hw rfl)
      · have hno : operatorAt? ('-' :: ' ' :: r) = none := no_operator_of_minus (by decide)
        exact .minus (operatorAt?_eq_none_iff.1 hno) (by decide) (by decide) (by decide)
    · have hlexeme : lexeme (.operator op) = .operator op.text .binaryOperator := by
        cases op with
        | subtract => exact absurd rfl hop
        | _ => rfl
      rw [hlexeme]
      have hmem := Operator.mem_operators hop
      exact .operator hmem (longest_operator_of_endsWord hmem hrest)
  | assign op =>
    cases op with
    | none =>
      have hmem : ("=", .equals) ∈ operators := by decide
      exact .operator hmem (longest_operator_of_endsWord hmem hrest)
    | some op => exact .operator op.mem_operators (longest_operator_of_endsWord op.mem_operators hrest)
  | mark m => exact .operator m.mem_operators (longest_operator_of_endsWord m.mem_operators hrest)

/-! ## The values of numerals -/

theorem digitsValue?_eq {ds} (h : AllOf isDecimalDigit ds) : digitsValue? ds = some (digitsNumber ds) := by
  have hstep : ∀ acc, ds.foldlM (fun acc c => (decimalValue? c).map (acc * 10 + ·)) acc =
      some (ds.foldl (fun acc d => acc * 10 + (decimalValue? d).getD 0) acc) := by
    induction ds with
    | nil => exact fun acc => rfl
    | cons d ds ih =>
      intro acc
      rw [AllOf, forall_mem_cons] at h
      obtain ⟨v, hv⟩ := Option.isSome_iff_exists.1 h.1
      rw [foldlM_cons, foldl_cons, hv]
      exact ih h.2 _
  exact hstep 0

theorem Numeral.drop_tail (n : Numeral) : n.tail.drop 1 = n.places := by
  unfold tail places
  cases n.fraction <;> rfl

theorem Numeral.places_digits (n : Numeral) : AllOf isDecimalDigit n.places := by
  unfold places
  cases hf : n.fraction with
  | none => exact fun _ h => absurd h not_mem_nil
  | some ds => exact n.fraction_digits ds hf

theorem Numeral.letters_cases (n : Numeral) {c} (h : c ∈ n.letters) : isDecimalDigit c = true ∨ c = '.' := by
  have htail : ∀ d ∈ n.tail, isDecimalDigit d = true ∨ d = '.' := by
    unfold tail
    intro d hd
    cases hf : n.fraction with
    | none =>
      rw [hf] at hd
      cases hd
    | some ds =>
      rw [hf] at hd
      rcases mem_cons.1 hd with rfl | hd
      · exact .inr rfl
      · exact .inl (n.fraction_digits ds hf d hd)
  rw [letters, ← cons_append] at h
  rcases mem_append.1 h with h | h
  · exact .inl (n.whole_digits c h)
  · exact htail c h

theorem unsignedDecimal?_numeral (n : Numeral) :
    unsignedDecimal? n.letters = some (digitsNumber (n.first :: n.more ++ n.places), -(n.places.length : Int)) := by
  have hmark : AllOf (fun c => !(c == 'e' || c == 'E')) n.letters := by
    intro c hc
    rcases n.letters_cases hc with hd | rfl
    · have he : (c == 'e') = false := beq_eq_false_iff_ne.2 (ne_of_class hd (by decide))
      have hE : (c == 'E') = false := beq_eq_false_iff_ne.2 (ne_of_class hd (by decide))
      simp only [he, hE, Bool.or_self, Bool.not_false]
    · rfl
  have hwhole : AllOf (· != '.') (n.first :: n.more) := fun c hc =>
    bne_iff_ne.2 (ne_of_class (n.whole_digits c hc) (by decide))
  have hletters : n.letters = (n.first :: n.more) ++ n.tail := rfl
  have htake : n.tail.takeWhile (· != '.') = [] ∧ n.tail.dropWhile (· != '.') = n.tail := by
    unfold Numeral.tail
    cases n.fraction <;> exact ⟨rfl, rfl⟩
  have hdigits : AllOf isDecimalDigit (n.first :: n.more ++ n.places) := by
    intro c hc
    rcases mem_append.1 hc with hc | hc
    · exact n.whole_digits c hc
    · exact n.places_digits c hc
  unfold unsignedDecimal?
  dsimp only
  rw [takeWhile_eq_self_iff.2 hmark, dropWhile_eq_nil_iff.2 hmark, hletters,
    takeWhile_append_of_pos hwhole, dropWhile_append_of_pos hwhole, htake.1, htake.2, append_nil,
    n.drop_tail, digitsValue?_eq hdigits]
  show some (_, 0 - _) = some (_, -_)
  rw [Int.zero_sub]

/-- A text that begins with a digit has neither a sign nor a name. -/
theorem decimal?_of_digit {c} (hc : isDecimalDigit c = true) (cs : List Char) :
    decimal? (c :: cs) = (unsignedDecimal? (c :: cs)).map fun p => floatOfParts p.1 p.2 := by
  have hname : ∀ d ds, isDecimalDigit d = false → (c :: cs == d :: ds) = false := by
    intro d ds hd
    rw [beq_eq_false_iff_ne]
    exact fun he => ne_of_class hc hd (cons.inj he).1
  unfold decimal?
  split
  next neg body hsign =>
  split at hsign
  · next hr => exact absurd (cons.inj hr).1 (ne_of_class hc (by decide))
  · next hr => exact absurd (cons.inj hr).1 (ne_of_class hc (by decide))
  · cases hsign
    have hinf : "inf".toList = ['i', 'n', 'f'] := toList_ofList
    have hnan : "nan".toList = ['n', 'a', 'n'] := toList_ofList
    simp only [hinf, hnan, hname 'i' _ (by decide), hname 'n' _ (by decide), Bool.false_eq_true, if_false,
      Option.map_id']

theorem numberValue?_numeral (n : Numeral) : numberValue? (String.ofList n.letters) = some n.value := by
  have hfirst : isDecimalDigit n.first = true := n.whole_digits _ (.head _)
  have hunsigned := unsignedDecimal?_numeral n
  rw [Numeral.letters] at hunsigned ⊢
  rw [numberValue?, toList_ofList, decimal?_of_digit hfirst, hunsigned]
  rfl

/-! ## Source texts -/

/-- Words with blanks between them split into the lexemes of the words, and blanks. -/
theorem splits_words (ws : List Word) (hlast : ws.getLast? ≠ some (.operator .subtract)) :
    ∃ ls, Splits ([' '].intercalate (ws.map Word.letters)) ls [] ∧ ls.flatMap Lexeme.faces = ws.map Word.face := by
  induction ws with
  | nil => exact ⟨[], .nil, rfl⟩
  | cons w ws ih =>
    cases ws with
    | nil =>
      have hw : w ≠ .operator .subtract := fun he => hlast (by rw [he]; rfl)
      have hs : Splits (w.lexeme.source ++ []) [w.lexeme] [] := .cons (w.begins (.inl rfl) fun _ => hw) .nil
      rw [Word.lexeme_source] at hs
      refine ⟨[w.lexeme], ?_, ?_⟩
      · simpa [List.intercalate] using hs
      · simp [Word.lexeme_faces]
    | cons w' ws =>
      obtain ⟨ls, hs, hfaces⟩ := ih hlast
      have hblank : Splits (' ' :: [' '].intercalate ((w' :: ws).map Word.letters)) (.space ' ' :: ls) [] :=
        .cons (.space (.inl rfl)) hs
      have hword := Splits.cons (w.begins (.inr ⟨_, rfl⟩) (fun h => absurd h (cons_ne_nil _ _))) hblank
      rw [Word.lexeme_source] at hword
      refine ⟨w.lexeme :: .space ' ' :: ls, ?_, ?_⟩
      · simpa [List.intercalate] using hword
      · rw [flatMap_cons, flatMap_cons, Word.lexeme_faces, hfaces]
        rfl

/-- The words that an expression begins with. -/
def Word.opens : Word → Bool
  | .name _ | .numeral _ | .string _ => true
  | .mark m => m == .openParen || m == .openBracket || m == .openBrace
  | _ => false

theorem place_head (k level : Nat) {ws} (h : ∃ w us, ws = w :: us ∧ w.opens = true) :
    ∃ w us, place k level ws = w :: us ∧ w.opens = true := by
  unfold place
  split
  · exact ⟨.mark .openParen, ws ++ [.mark .closeParen], rfl, rfl⟩
  · exact h

theorem append_head {ws} (h : ∃ w us, ws = w :: us ∧ w.opens = true) (vs : List Word) :
    ∃ w us, ws ++ vs = w :: us ∧ w.opens = true := by
  obtain ⟨w, us, rfl, hw⟩ := h
  exact ⟨w, us ++ vs, rfl, hw⟩

theorem Expression.words_head : ∀ e : Expression, ∃ w us, e.words = w :: us ∧ w.opens = true
  | .name n => ⟨.name n, [], by rw [words], rfl⟩
  | .numeral n => ⟨.numeral n, [], by rw [words], rfl⟩
  | .string s => ⟨.string s, [], by rw [words], rfl⟩
  | .array _ => ⟨.mark .openBracket, _, by rw [words]; rfl, rfl⟩
  | .object _ => ⟨.mark .openBrace, _, by rw [words]; rfl, rfl⟩
  | .member o _ => by
    rw [words]
    exact append_head (place_head _ _ o.words_head) _
  | .index o _ => by
    rw [words, List.append_assoc]
    exact append_head (place_head _ _ o.words_head) _
  | .call f _ => by
    rw [words, List.append_assoc]
    exact append_head (place_head _ _ f.words_head) _
  | .binary l op _ => by
    rw [words]
    exact append_head (place_head _ _ l.words_head) _
  | .assign t _ _ => by
    rw [words]
    exact append_head (place_head _ _ t.words_head) _

theorem Expression.words_ne_nil (e : Expression) : e.words ≠ [] := by
  obtain ⟨w, us, h, -⟩ := e.words_head
  rw [h]
  exact cons_ne_nil _ _

theorem getLast?_mark (ws : List Word) (m : Mark) (op : Operator) :
    (ws ++ [Word.mark m]).getLast? ≠ some (.operator op) := by
  rw [getLast?_concat]
  exact fun h => by cases h

/-- The last word of an expression is no operator. -/
theorem Expression.getLast?_words : ∀ e : Expression, ∀ op, e.words.getLast? ≠ some (.operator op)
  | .name _, _ | .numeral _, _ | .string _, _ => by simp [words]
  | .member _ _, _ => by simp [words]
  | .array _, op => by
    rw [words]
    exact getLast?_mark _ _ op
  | .object _, op => by
    rw [words]
    exact getLast?_mark _ _ op
  | .index _ _, op => by
    rw [words]
    exact getLast?_mark _ _ op
  | .call _ _, op => by
    rw [words]
    exact getLast?_mark _ _ op
  | .binary _ op r, o => by
    have hlast : ∀ k level, (place k level r.words).getLast? ≠ some (.operator o) := by
      intro k level
      unfold place
      split
      · exact getLast?_mark _ _ o
      · exact r.getLast?_words o
    have hne : ∀ k level, place k level r.words ≠ [] := by
      intro k level
      obtain ⟨w, us, h, -⟩ := place_head k level r.words_head
      rw [h]
      exact cons_ne_nil _ _
    rw [words, append_cons, getLast?_append_of_ne_nil _ (hne _ _)]
    exact hlast _ _
  | .assign _ _ v, o => by
    rw [words, append_cons, getLast?_append_of_ne_nil _ v.words_ne_nil]
    exact v.getLast?_words o

/-- The source text of an expression has one token for each word, and one for the end. -/
theorem tokenize_source (e : Expression) :
    ∃ ts q, tokenize e.source = .ok (ts ++ [endToken q]) ∧ ts.map Token.face = e.words.map Word.face := by
  obtain ⟨ls, hs, hfaces⟩ := splits_words e.words (e.getLast?_words .subtract)
  have hsource : e.source.toList = [' '].intercalate (e.words.map Word.letters) := toList_ofList
  rw [← hsource] at hs
  exact ⟨_, _, tokenize_of_splits hs, (lexemeTokens_faces _ _).trans hfaces⟩

end SmallScript.Syntax
