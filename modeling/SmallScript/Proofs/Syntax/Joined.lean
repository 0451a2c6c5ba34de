import SmallScript.Proofs.Syntax.Lines
import SmallScript.Proofs.Syntax.Unbalanced

/-!
# Two programs and a line break

Statements need no separator, so where one program ends another one may begin, if its first token cannot go on with
what stands before it. By `parseStatements_joined`, the parser that stopped at the end of the first program stops in front of that
token too. The result is `parse_line_break`.
-/

namespace SmallScript.Syntax

open Parse List

variable {t : Token} {rest ts : List Token} {f : Nat} {ns : List Node}

/-! ## Tokens of two programs -/

theorem binaryOperators_no_word : ∀ op ∈ binaryOperators, ∀ c ∈ op.toList, continuesWord c = false := by
  have hall : binaryOperators.all (fun op => op.toList.all fun c => !continuesWord c) = true := by decide
  intro op hop c hc
  have hletters := all_eq_true.1 hall op hop
  simpa using all_eq_true.1 hletters c hc

/-- The fresh kinds whose tokens never have the text of an operator. -/
def plainKinds : List TokenKind := freshKinds.filter fun kind => kind ≠ .string ∧ kind ≠ .binaryOperator

theorem operators_fresh : ∀ o ∈ operators, o.2 ∈ plainKinds → o.1 ∉ binaryOperators := by decide

theorem keywords_fresh : ∀ k ∈ keywords, k.1 ∉ binaryOperators := by decide

/-- What the lexer makes of a word or a number is no operator. -/
theorem not_mem_binaryOperators {text c} (hc : c ∈ text.toList) (hword : continuesWord c = true) :
    text ∉ binaryOperators := by
  intro hmem
  rw [binaryOperators_no_word text hmem c hc] at hword
  cases hword

theorem Token.Lexed.fresh (h : t.Lexed) (hk : t.kind ∈ plainKinds) : t.Fresh := by
  refine ⟨(mem_filter.1 hk).1, ?_⟩
  cases h with
  | operator h => exact operators_fresh _ h hk
  | keyword h => exact keywords_fresh _ h
  | minus h | string h =>
    rw [kind_eq h] at hk
    exact absurd hk (by decide)
  | name h hname =>
    obtain ⟨n, rfl⟩ := hname
    rw [value_eq h]
    refine not_mem_binaryOperators ?_ (continuesWord_of_startsWord (startsWord_iff.2 n.begins))
    rw [Name.text, String.toList_ofList]
    exact (.head _)
  | @number neg d run hd _ h =>
    rw [value_eq h]
    refine not_mem_binaryOperators ?_ (continuesWord_of_isDigit hd)
    rw [String.toList_ofList]
    exact mem_append_right _ (.head _)

/-- No program begins with a token that begins no statement. -/
theorem not_refused_of_parseStatements
    (h : parseStatements f (t :: ts) = .ok (ns, rest)) (hne : t.kind ≠ .eof) : t.kind ∉ refusedKinds := by
  intro hmem
  cases f with
  | zero =>
    cases h
  | succ f =>
    obtain ⟨x, hx⟩ := parseStatement_refused hmem ts f
    rw [parseStatements, atKind_bind, if_neg (by simpa using hne), bind_of_error hx] at h
    cases h

theorem kind_of_parseStatements
    (h : parseStatements f (t :: ts) = .ok (ns, rest)) : t.kind ≠ .else_ ∧ t.kind ≠ .in_ ∧ t.kind ≠ .as_ := by
  have hnot : ∀ kind ∈ [.else_, .in_, .as_], t.kind ≠ kind := by
    rintro kind hkind rfl
    have hmem : ∀ kind ∈ [.else_, .in_, .as_], kind ≠ .eof ∧ kind ∈ refusedKinds := by decide
    exact not_refused_of_parseStatements h (hmem _ hkind).1 (hmem _ hkind).2
  exact ⟨hnot _ (by decide), hnot _ (by decide), hnot _ (by decide)⟩

/-- The kinds of the tokens with which the second program may begin. -/
def openingKinds : List TokenKind := [.identifier, .number, .openBrace, .eof] ++ keywords.map (·.2)

theorem freshKind_of_opening : ∀ kind ∈ openingKinds, kind ≠ .else_ → kind ≠ .in_ → kind ≠ .as_ → kind ∈ plainKinds := by
  decide

/-- The end of a source is fresh, and so is every other token of it that is of a plain kind. -/
theorem fresh_of_tokenize {source} (h : tokenize source = .ok ts) (ht : t ∈ ts)
    (hk : t.kind ∈ plainKinds) : t.Fresh := by
  obtain ⟨ls, hs, rfl⟩ := exists_lexemes h
  rcases mem_append.1 ht with ht | ht
  · exact (lexed_of_mem hs ht).fresh hk
  · rw [mem_singleton.1 ht]
    exact Token.IsEnd.fresh rfl

/-- A program that has been moved to other lines is the same, positions apart. -/
theorem parseStatements_shift {source} (lines : Int)
    (ht : tokenize source = .ok ts) (h : parseStatements f ts = .ok (ns, rest)) :
    ∃ ns' rest', bareList ns' = bareList ns ∧
      parseStatements (f + 1) (ts.map (Token.shift lines)) = .ok (ns', rest') := by
  obtain ⟨ls, hs, rfl⟩ := exists_lexemes ht
  rw [map_append]
  have hfaces : (lexemeTokens .start ls).map Token.face =
      ((lexemeTokens .start ls).map (.shift lines)).map Token.face := by
    rw [map_map]
    rfl
  have hend : ((endToken (Place.start.afterAll ls)).shift lines).IsEnd := endToken_isEnd (Place.start.afterAll ls)
  obtain ⟨ns', hbare, hparse⟩ := parseStatements_of_faces hfaces (fun _ => lexed_of_mem hs) (endToken_isEnd _) hend h
  exact ⟨ns', _, hbare, hparse⟩

/-- If two programs can be parsed, and the second one begins with a name, a number, an opening brace or a keyword or is
empty, then the first one, a line break and the second one can be parsed, and what comes of that are the statements of
the first program and those of the second one, except for their positions. -/
theorem parse_line_break (first second : String) {p q : Pos} {ns ms : List Node} {t : Token} {ts : List Token}
    (hfirst : parse first = .ok (.program p ns)) (hsecond : parse second = .ok (.program q ms))
    (htokens : tokenize second = .ok (t :: ts)) (hkind : t.kind ∈ openingKinds) :
    ∃ body, parse (first ++ "\n" ++ second) = .ok (.program .zero body) ∧
      bareList body = bareList ns ++ bareList ms := by
  obtain ⟨ts1, f, rest1, htokens1, hparse1⟩ := statements_of_parse hfirst
  obtain ⟨ts2, g, rest2, htokens2, hparse2⟩ := statements_of_parse hsecond
  cases htokens.symm.trans htokens2
  obtain ⟨ls, hs, rfl⟩ := exists_lexemes htokens1
  obtain ⟨hne, hne', hne''⟩ := kind_of_parseStatements hparse2
  have hfresh : t.Fresh := fresh_of_tokenize htokens (.head _) (freshKind_of_opening _ hkind hne hne' hne'')
  have hfresh' : (t.shift (Place.start.afterAll ls).line).Fresh := ⟨hfresh.kind, hfresh.value⟩
  obtain ⟨ms', rest', hbare', htail⟩ := parseStatements_shift (Place.start.afterAll ls).line htokens hparse2
  obtain ⟨ns', hbare, hjoined⟩ := parseStatements_joined
    (beside_of_faces rfl (fun _ => lexed_of_mem hs) (endToken_isEnd _) hfresh') hparse1 htail
  refine ⟨ns' ++ ms', parse_of_statements (tokenize_append_newline_ok hs htokens) hjoined, ?_⟩
  rw [bareList_append, hbare, hbare']

theorem parse_line_break_object : ∃ body, parse ("x = ++y" ++ "\n" ++ "\x7b a \x7d b") = .ok (.program .zero body) ∧
      bareList body = [.assignment .zero (.identifier .zero "x")
          (.assignment .zero (.identifier .zero "y") (.number .zero (.int 1)) (some "+=")) none,
        .object .zero [.property .zero "a" .absent], .identifier .zero "b"] := by
  have hfirst : tokenize "x = ++y" = .ok [⟨"x", .identifier, ⟨1, 1, 1⟩⟩, ⟨"=", .equals, ⟨1, 3, 1⟩⟩,
      ⟨"++", .binaryOperator, ⟨1, 6, 2⟩⟩, ⟨"y", .identifier, ⟨1, 7, 1⟩⟩, ⟨"EOF", .eof, ⟨1, 7, 1⟩⟩] := by
    decide +kernel
  have hsecond : tokenize "\x7b a \x7d b" = .ok [⟨"\x7b", .openBrace, ⟨1, 1, 1⟩⟩, ⟨"a", .identifier, ⟨1, 3, 1⟩⟩,
      ⟨"\x7d", .closeBrace, ⟨1, 5, 1⟩⟩, ⟨"b", .identifier, ⟨1, 7, 1⟩⟩, ⟨"EOF", .eof, ⟨1, 7, 1⟩⟩] := by
    decide +kernel
  -- the one that is added has the position of the token behind the name, which is another one in the two programs
  have hparse : parse "x = ++y" = .ok (.program .zero [.assignment ⟨1, 1, 1⟩ (.identifier ⟨1, 1, 1⟩ "x")
      (.assignment ⟨1, 7, 1⟩ (.identifier ⟨1, 7, 1⟩ "y") (.number ⟨1, 7, 1⟩ (.int 1)) (some "+=")) none]) := by
    rw [parse, hfirst]
    rfl
  have hparse' : parse "\x7b a \x7d b" = .ok (.program .zero [.object ⟨1, 1, 1⟩ [.property ⟨1, 5, 1⟩ "a" .absent],
      .identifier ⟨1, 7, 1⟩ "b"]) := by
    rw [parse, hsecond]
    rfl
  obtain ⟨body, hbody, hbare⟩ := parse_line_break _ _ hparse hparse' hsecond (by decide)
  refine ⟨body, hbody, hbare.trans ?_⟩
  simp only [bareList, Node.bare, cons_append, nil_append]

end SmallScript.Syntax
