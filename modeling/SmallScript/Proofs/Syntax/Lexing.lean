import SmallScript.Proofs.Syntax.Grammar
import SmallScript.Machine.Failure

/-!
# Source texts and their tokens

`Splits cs ls rest` says that the lexical grammar reads the text `cs` as the lexemes `ls` with `rest` left over.
Every text is read up to its end or up to a place where the grammar is stuck, `exists_splits`, and `tokenize`
gives the tokens of the lexemes in the one case and fails in the other: `tokenize_by_grammar`.
-/

namespace SmallScript.Syntax

open Text List
open Machine (Failure FailureKind)

variable {cs rest : List Char}

variable {ls : List Lexeme} {source : String}

/-- The text consists of lexemes, each the first one of what is left, and a rest. -/
inductive Splits : List Char → List Lexeme → List Char → Prop where
  | nil {rest : List Char} : Splits rest [] rest
  | cons {l : Lexeme} {cs rest : List Char} {ls : List Lexeme} (h : l.Begins cs) (hs : Splits cs ls rest) :
    Splits (l.source ++ cs) (l :: ls) rest

/-- What the parser goes by: the text of a token and its kind. -/
def Token.face (t : Token) : String × TokenKind := (t.value, t.kind)

/-- The texts and kinds of the tokens of a lexeme. -/
def Lexeme.faces : Lexeme → List (String × TokenKind)
  | .space _ | .newline | .comment .. => []
  | .operator text kind => [(text, kind)]
  | .minus => [("-", .binaryOperator)]
  | .number neg digits => [(String.ofList (minusSign neg ++ digits), .number)]
  | .word neg letters =>
    match keywords.lookup (String.ofList letters) with
    | some kind => [(String.ofList letters, kind)]
    | none =>
      if neg then
        [("(", .openParen), ("0", .number), ("-", .binaryOperator), (String.ofList letters, .identifier),
          (")", .closeParen)]
      else [(String.ofList letters, .identifier)]
  | .string content => [(String.ofList content, .string)]

/-- The text and kind of the token at the end. -/
def endFace : String × TokenKind := ("EOF", .eof)

/-! ## Words -/

theorem find?_keyword (text : String) : (keywords.find? (·.1 == text)).map (·.2) = keywords.lookup text := by
  generalize keywords = table
  induction table with
  | nil => rfl
  | cons k ks ih =>
    rw [find?_cons, lookup_cons]
    by_cases h : text = k.1
    · subst h
      simp
    · rw [beq_eq_false_iff_ne.2 h, beq_eq_false_iff_ne.2 (symm h)]
      exact ih

theorem keyword_ne_identifier {text kind} (h : keywords.lookup text = some kind) : kind ≠ .identifier := by
  have hall : ∀ k ∈ keywords, k.2 ≠ .identifier := by decide
  obtain ⟨k, hk, rfl⟩ := Option.map_eq_some_iff.1 ((find?_keyword text).trans h)
  exact hall k (mem_of_find?_eq_some hk)

theorem Lexeme.tokens_faces (p : Place) (l : Lexeme) : (l.tokens p).map Token.face = l.faces := by
  cases l with
  | word neg letters =>
    have hkind : (wordToken p letters).kind = (keywords.lookup (.ofList letters)).getD .identifier :=
      congrArg (·.getD .identifier) (find?_keyword _)
    have hface : (wordToken p letters).face = (.ofList letters, (keywords.lookup (.ofList letters)).getD .identifier) :=
      congrArg (Prod.mk _) hkind
    unfold tokens faces
    dsimp only
    rw [hkind]
    cases hk : keywords.lookup (.ofList letters) with
    | some kind =>
      have hne : ¬ (neg && (some kind).getD .identifier == .identifier) = true := by
        simp [keyword_ne_identifier hk]
      rw [if_neg hne, map_singleton, hface, hk]
      rfl
    | none =>
      cases neg with
      | true =>
        rw [if_pos (by decide), map_cons, map_cons, map_cons, map_cons, hface, hk]
        rfl
      | false =>
        rw [if_neg (by decide), map_singleton, hface, hk]
        rfl
  | _ => rfl

/-! ## The tokens of lexemes -/

/-- The place behind lexemes. -/
def Place.afterAll (p : Place) (ls : List Lexeme) : Place := ls.foldl Place.after p

/-- The tokens of lexemes that begin at a place. -/
def lexemeTokens (p : Place) : List Lexeme → List Token
  | [] => []
  | l :: ls => l.tokens (p.after l) ++ lexemeTokens (p.after l) ls

theorem lexemeTokens_faces (p : Place) (ls : List Lexeme) :
    (lexemeTokens p ls).map Token.face = ls.flatMap Lexeme.faces := by
  induction ls generalizing p with
  | nil => rfl
  | cons l ls ih => rw [lexemeTokens, map_append, Lexeme.tokens_faces, ih, flatMap_cons]

theorem tokensFrom_of_begins {l} (h : l.Begins cs) (p : Place) : tokensFrom p (l.source ++ cs) =
      (tokensFrom (p.after l) cs).map (l.tokens (p.after l) ++ ·) := by
  obtain ⟨c, cs', hc, hread⟩ := Lexeme.read_of_begins h
  rw [hc, tokensFrom]
  split
  · next e he =>
    rw [hread] at he
    cases he
  · next l' rest he =>
    rw [hread] at he
    cases he
    dsimp only
    cases tokensFrom (p.after l) cs <;> rfl

theorem tokensFrom_of_stuck {e} (h : Stuck cs e) (p : Place) : tokensFrom p cs = .error ⟨e, p⟩ := by
  cases cs with
  | nil => cases h
  | cons c cs =>
    have hread := Lexeme.read_eq_error_iff.2 h
    rw [tokensFrom]
    split
    · next e' he =>
      rw [hread] at he
      cases he
      rfl
    · next he =>
      rw [hread] at he
      cases he

theorem tokensFrom_of_splits (h : Splits cs ls rest) (p : Place) :
    tokensFrom p cs = (tokensFrom (p.afterAll ls) rest).map (lexemeTokens p ls ++ ·) := by
  induction h generalizing p with
  | @nil rest =>
    show tokensFrom p rest = (tokensFrom p rest).map (fun ts => [] ++ ts)
    cases tokensFrom p rest <;> rfl
  | @cons l cs rest ls hl hs ih =>
    rw [tokensFrom_of_begins hl, ih]
    show ((tokensFrom (p.afterAll (l :: ls)) rest).map _).map _ = _
    cases tokensFrom (p.afterAll (l :: ls)) rest with
    | error e => rfl
    | ok ts => simp [Except.map, lexemeTokens]

/-- Every text can be read up to its end, or up to a place where it has no lexeme. -/
theorem exists_splits (cs : List Char) : ∃ ls rest, Splits cs ls rest ∧ (rest = [] ∨ ∃ e, Stuck rest e) := by
  induction hn : cs.length using Nat.strongRecOn generalizing cs with
  | ind n ih =>
    cases cs with
    | nil => exact ⟨[], [], .nil, .inl rfl⟩
    | cons c cs =>
      cases hread : Lexeme.read c cs with
      | error e => exact ⟨[], c :: cs, .nil, .inr ⟨e, Lexeme.read_eq_error_iff.1 hread⟩⟩
      | ok found =>
        obtain ⟨l, after⟩ := found
        have hlt : after.length < n := hn ▸ Lexeme.read_rest_lt hread
        obtain ⟨hl, hsource⟩ := Lexeme.read_eq_ok_iff.1 hread
        obtain ⟨ls, rest, hs, hend⟩ := ih after.length hlt after rfl
        exact ⟨l :: ls, rest, hsource ▸ .cons hl hs, hend⟩

/-! ## Lines -/

theorem Place.line_after_le (p : Place) (l : Lexeme) :
    (p.after l).line ≤ p.line + l.source.count '\n' ∧ p.line ≤ (p.after l).line := by
  unfold after
  split
  · exact ⟨le_refl _, Nat.le_succ _⟩
  · next body =>
    refine ⟨?_, Nat.le_succ _⟩
    show p.line + 1 ≤ p.line + ('#' :: body ++ ['\n']).count '\n'
    rw [count_append, count_singleton_self]
    omega
  · exact ⟨Nat.le_add_right _ _, le_refl _⟩

theorem Place.line_afterAll_le (h : Splits cs ls rest) (p : Place) :
    (p.afterAll ls).line ≤ p.line + cs.count '\n' ∧ p.line ≤ (p.afterAll ls).line := by
  induction h generalizing p with
  | nil => exact ⟨Nat.le_add_right _ _, le_refl _⟩
  | @cons l cs rest ls _ _ ih =>
    obtain ⟨hle, hge⟩ := p.line_after_le l
    obtain ⟨hle', hge'⟩ := ih (p.after l)
    rw [count_append]
    exact ⟨by show ((p.after l).afterAll ls).line ≤ _; omega, le_trans hge hge'⟩

theorem length_linesOf (cs : List Char) : (linesOf cs).length = cs.count '\n' + 1 := by
  induction cs with
  | nil => rfl
  | cons c cs ih =>
    unfold linesOf
    by_cases hc : c = '\n'
    · subst hc
      rw [count_cons_self, ← ih]
      rfl
    · rw [beq_eq_false_iff_ne.2 hc, count_cons_of_ne hc]
      cases hl : linesOf cs with
      | nil =>
        rw [hl] at ih
        cases ih
      | cons l ls =>
        rw [hl] at ih
        exact ih

theorem lineOf?_isSome {line} (hpos : 1 ≤ line) (hle : line ≤ 1 + source.toList.count '\n') :
    (lineOf? source line).isSome = true := by
  have hlen := length_linesOf source.toList
  unfold lineOf?
  dsimp only
  rw [if_neg (by omega : ¬ ((line : Int) - 1 < 0)), if_neg (by omega : ¬ ((line : Int) - 1 < 0)), getElem?_eq_getElem (by omega)]
  rfl

/-- The failure for a source text that cannot be read is of the family of its cause. -/
theorem kind_of_stuck (h : Splits source.toList ls rest) (e : LexemeFault) :
    (Failure.parse source (LexFault.toParseFault ⟨e, Place.start.afterAll ls⟩)).kind = match e with
      | .lastMinus | .unclosedString => .index
      | .unknown _ => .syntaxError := by
  cases e with
  | lastMinus | unclosedString => rfl
  | unknown c =>
    obtain ⟨hle, hge⟩ := Place.line_afterAll_le h .start
    exact if_pos (lineOf?_isSome hge hle)

/-! ## The tokens of a source text -/

theorem tokenize_of_splits (h : Splits source.toList ls []) :
    tokenize source = .ok (lexemeTokens .start ls ++ [endToken (Place.start.afterAll ls)]) := by
  rw [tokenize, tokensFrom_of_splits h, tokensFrom]
  rfl

theorem tokenize_of_stuck {e} (h : Splits source.toList ls rest) (hstuck : Stuck rest e) :
    tokenize source = .error ⟨e, Place.start.afterAll ls⟩ := by
  rw [tokenize, tokensFrom_of_splits h, tokensFrom_of_stuck hstuck]
  rfl

theorem splits_of_tokenize_ok {ts} (h : tokenize source = .ok ts) :
    ∃ ls, Splits source.toList ls [] ∧ ts.map Token.face = ls.flatMap Lexeme.faces ++ [endFace] := by
  obtain ⟨ls, rest, hs, rfl | ⟨e, he⟩⟩ := exists_splits source.toList
  · refine ⟨ls, hs, ?_⟩
    rw [tokenize_of_splits hs] at h
    cases h
    rw [map_append, lexemeTokens_faces]
    rfl
  · rw [tokenize_of_stuck hs he] at h
    cases h

theorem stuck_of_tokenize_error {f} (h : tokenize source = .error f) :
    ∃ ls rest, Splits source.toList ls rest ∧ Stuck rest f.cause ∧ f.place = Place.start.afterAll ls := by
  obtain ⟨ls, rest, hs, rfl | ⟨e, he⟩⟩ := exists_splits source.toList
  · rw [tokenize_of_splits hs] at h
    cases h
  · rw [tokenize_of_stuck hs he] at h
    cases h
    exact ⟨ls, rest, hs, he, rfl⟩

/-- A source text has tokens exactly if the lexical grammar reads it to its end, and then it has the tokens of
its lexemes and one for the end. It is refused with the failure of a missing character exactly if reading comes
to a minus sign at the very end or to a quote without another one, and with a syntax error exactly if reading
comes to another character that begins no lexeme. -/
theorem tokenize_by_grammar (source : String) : (∀ faces, (∃ ts, tokenize source = .ok ts ∧ ts.map Token.face = faces) ↔
      ∃ ls, Splits source.toList ls [] ∧ faces = ls.flatMap Lexeme.faces ++ [endFace]) ∧
    ((∃ f, tokenize source = .error f ∧ (Failure.parse source f.toParseFault).kind = .index) ↔
      ∃ ls rest, Splits source.toList ls rest ∧ (rest = ['-'] ∨ ∃ cs, rest = '"' :: cs ∧ '"' ∉ cs)) ∧
    ((∃ f, tokenize source = .error f ∧ (Failure.parse source f.toParseFault).kind = .syntaxError) ↔
      ∃ ls rest c, Splits source.toList ls rest ∧ Stuck rest (.unknown c)) := by
  refine ⟨fun faces => ⟨?_, ?_⟩, ⟨?_, ?_⟩, ⟨?_, ?_⟩⟩
  · rintro ⟨ts, hts, rfl⟩
    exact splits_of_tokenize_ok hts
  · rintro ⟨ls, hs, rfl⟩
    refine ⟨_, tokenize_of_splits hs, ?_⟩
    rw [map_append, lexemeTokens_faces]
    rfl
  · rintro ⟨⟨e, place⟩, hf, hkind⟩
    obtain ⟨ls, rest, hs, he, rfl⟩ := stuck_of_tokenize_error hf
    rw [kind_of_stuck hs] at hkind
    refine ⟨ls, rest, hs, ?_⟩
    cases he with
    | lastMinus => exact .inl rfl
    | unclosedString h => exact .inr ⟨_, rfl, h⟩
    | unknown => cases hkind
  · rintro ⟨ls, rest, hs, rfl | ⟨cs, rfl, hcs⟩⟩
    · exact ⟨_, tokenize_of_stuck hs .lastMinus, kind_of_stuck hs .lastMinus⟩
    · exact ⟨_, tokenize_of_stuck hs (.unclosedString hcs), kind_of_stuck hs .unclosedString⟩
  · rintro ⟨⟨e, place⟩, hf, hkind⟩
    obtain ⟨ls, rest, hs, he, rfl⟩ := stuck_of_tokenize_error hf
    rw [kind_of_stuck hs] at hkind
    cases e with
    | lastMinus | unclosedString => cases hkind
    | unknown c => exact ⟨ls, rest, c, hs, he⟩
  · rintro ⟨ls, rest, c, hs, he⟩
    exact ⟨_, tokenize_of_stuck hs he, kind_of_stuck hs (.unknown c)⟩

end SmallScript.Syntax
