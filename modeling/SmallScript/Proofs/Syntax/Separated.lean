import SmallScript.Proofs.Syntax.Joined

/-!
# Two programs and a semicolon

A semicolon between two programs is a token of its own, which is read as an expression with nothing in it and left out of
the statements. But an expression goes on as far as it can: a parenthesis or a bracket behind the semicolon makes a call or
a look-up of it, and so does an operator, for which a string with the text of one is taken as well. A comment at the end of
the first program takes the semicolon, and then there is none.

So the statements of the two programs follow one another exactly if the second one does not begin in one of these ways,
`parse_semicolon_iff`.
-/

namespace SmallScript.Syntax

open Parse List

variable {t u x : Token} {ns : List Node} {us : List Token}

/-- The token goes on with an expression that stands before it. -/
def Token.Continues (t : Token) : Prop :=
  t.kind = .openParen ∨ t.kind = .openBracket ∨ t.value ∈ binaryOperators

/-! ## A lone semicolon -/

theorem mem_binaryOperators_of_level {k op} (h : op ∈ operatorsAt k) : op ∈ binaryOperators := by
  unfold operatorsAt at h
  rw [getD_eq_getElem?_getD] at h
  cases hops : precedence[k - 1]? with
  | none =>
    rw [hops] at h
    cases h
  | some ops =>
    rw [hops] at h
    exact precedence_known ops (mem_of_getElem? hops) op h

theorem Token.Fresh.stops (h : t.Fresh) : Stops 0 t := by
  have hkinds : ∀ kind ∈ freshKinds, (kind ≠ .dot ∧ kind ≠ .openBracket) ∧ kind ≠ .openParen ∧
      kind ≠ .colon ∧ kind ≠ .equals ∧ kind ≠ .assignmentOperator := by decide
  obtain ⟨hmember, hcall, hassign⟩ := hkinds _ h.kind
  exact ⟨fun _ => hmember, fun _ => hcall, fun j _ _ _ hop => h.value (mem_binaryOperators_of_level hop), fun _ => hassign⟩

/-- A semicolon in front of a token that does not go on with it is left out. -/
theorem parseStatements_semicolon {s rest}
    (hs : s.kind = .semicolon) (hu : u.Fresh) (h : Gives parseStatements (u :: us) (.ok (ns, rest))) :
    Gives parseStatements (s :: u :: us) (.ok (ns, rest)) := by
  have hprimary : ReadsWhole [s] (.emptyExpression .zero) := by
    refine .of_primary fun ts => .now fun f => ?_
    rw [singleton_append, parsePrimary, peek_bind, hs]
    rfl
  have hstatement : Gives parseStatement (s :: u :: us) (.ok (.emptyExpression .zero, u :: us)) := by
    refine (hprimary u us hu.stops).step fun f hf => ?_
    rwa [parseStatement, peek_bind, hs]
  exact parseStatements_cons (by rw [hs]; exact TokenKind.noConfusion) hstatement h

/-! ## A name that something goes on with -/

/-- A call, a look-up, an operation or an assignment. -/
def Node.Compound : Node → Prop
  | .call .. | .member .. | .binary .. | .assignment .. => True
  | _ => False

section Compound

variable {f : Nat} {n m : Node} {ts rest : List Token}

/-- Either something is added, or the token in front adds nothing. -/
theorem parseMembers_adds (h : parseMembers f n ts = .ok (m, rest)) :
    m.Compound ∨ (m = n ∧ rest = ts ∧ ∀ t ∈ ts.head?, t.kind ≠ .openBracket) := by
  induction f generalizing n ts with
  | zero =>
    cases h
  | succ f ih =>
    have hmore : ∀ {k} {us}, parseMembers f k us = .ok (m, rest) → k.Compound → m.Compound := by
      intro k us hmembers hk
      rcases ih hmembers with hm | ⟨rfl, -⟩
      · exact hm
      · exact hk
    rw [parseMembers] at h
    obtain ⟨t, us, hpeek, h⟩ := bind_eq_ok h
    split at h
    · obtain ⟨_, _, -, h⟩ := bind_eq_ok h
      obtain ⟨property, _, -, h⟩ := bind_eq_ok h
      split at h
      · obtain ⟨_, _, -, h⟩ := bind_eq_ok h
        cases h
      · exact .inl (hmore h trivial)
    · split at h
      · obtain ⟨_, _, -, h⟩ := bind_eq_ok h
        obtain ⟨property, _, -, h⟩ := bind_eq_ok h
        obtain ⟨_, _, -, h⟩ := bind_eq_ok h
        exact .inl (hmore h trivial)
      · next hbracket =>
        cases ts with
        | nil => cases hpeek
        | cons u us =>
          cases hpeek
          cases h
          exact .inr ⟨rfl, rfl, fun t ht => Option.some.inj ht ▸ hbracket⟩

theorem parseCalls_adds (h : parseCalls f n ts = .ok (m, rest)) :
    m.Compound ∨ (m = n ∧ rest = ts ∧ ∀ t ∈ ts.head?, t.kind ≠ .openParen) := by
  induction f generalizing n ts with
  | zero =>
    cases h
  | succ f ih =>
    rw [parseCalls] at h
    cases ts with
    | nil => cases h
    | cons t ts =>
      rw [atKind_bind] at h
      split at h
      · obtain ⟨arguments, _, -, h⟩ := bind_eq_ok h
        rcases ih h with hm | ⟨rfl, -⟩
        · exact .inl hm
        · exact .inl trivial
      · next hparen =>
        cases h
        exact .inr ⟨rfl, rfl, fun u hu => Option.some.inj hu ▸ by simpa using hparen⟩

theorem parseOperators_adds {ops tighter} (h : parseOperators f ops tighter n ts = .ok (m, rest)) :
    m.Compound ∨ (m = n ∧ rest = ts ∧ ∀ t ∈ ts.head?, t.value ∉ ops) := by
  induction f generalizing n ts with
  | zero =>
    cases h
  | succ f ih =>
    rw [parseOperators] at h
    cases ts with
    | nil => cases h
    | cons t ts =>
      rw [peek_bind] at h
      split at h
      · obtain ⟨_, _, -, h⟩ := bind_eq_ok h
        obtain ⟨right, _, -, h⟩ := bind_eq_ok h
        rcases ih h with hm | ⟨rfl, -⟩
        · exact .inl hm
        · exact .inl trivial
      · next hop =>
        cases h
        exact .inr ⟨rfl, rfl, fun u hu => Option.some.inj hu ▸ hop⟩

/-- A name at the levels of operators: either something is added, or the token behind it goes on with none of them. -/
theorem parseLevel_adds (hx : x.kind = .identifier) {levels} (h : parseLevel f levels (x :: ts) = .ok (n, rest)) :
    n.Compound ∨ (rest = ts ∧ ∀ t ∈ ts.head?,
      t.kind ≠ .openParen ∧ t.kind ≠ .openBracket ∧ ∀ ops ∈ levels, t.value ∉ ops) := by
  induction levels generalizing f n rest with
  | nil =>
    cases f with
    | zero =>
      cases h
    | succ f =>
      rw [parseLevel] at h
      cases f with
      | zero =>
        cases h
      | succ f =>
        rw [parseCallMember] at h
        obtain ⟨name, us, hname, h⟩ := bind_eq_ok h
        obtain ⟨callee, us', hmembers, hcalls⟩ := bind_eq_ok h
        obtain rfl : us = ts := by
          cases f with
          | zero =>
            cases hname
          | succ f =>
            rw [parsePrimary, peek_bind, hx] at hname
            cases hname
            rfl
        rcases parseCalls_adds hcalls with hn | ⟨rfl, rfl, hparen⟩
        · exact .inl hn
        · rcases parseMembers_adds hmembers with hn | ⟨-, rfl, hbracket⟩
          · exact .inl hn
          · exact .inr ⟨rfl, fun t ht => ⟨hparen t ht, hbracket t ht, fun _ hops => absurd hops not_mem_nil⟩⟩
  | cons ops tighter ih =>
    cases f with
    | zero =>
      rw [parseLevel] at h
      cases h
    | succ f =>
      rw [parseLevel] at h
      obtain ⟨left, us, hleft, h⟩ := bind_eq_ok h
      rcases parseOperators_adds h with hn | ⟨rfl, rfl, hop⟩
      · exact .inl hn
      · rcases ih hleft with hn | ⟨rfl, hrest⟩
        · exact .inl hn
        · refine .inr ⟨rfl, fun t ht => ?_⟩
          obtain ⟨hparen, hbracket, htighter⟩ := hrest t ht
          exact ⟨hparen, hbracket, forall_mem_cons.2 ⟨hop t ht, htighter⟩⟩

/-- A name in front of a token that goes on with it is no statement of its own. -/
theorem parseStatement_compound (hx : x.kind = .identifier) (hu : u.Continues)
    (h : parseStatement f (x :: u :: us) = .ok (n, rest)) : n.Compound := by
  have hoperators : ∀ op ∈ binaryOperators, ∃ ops ∈ precedence, op ∈ ops := by decide
  cases f with
  | zero =>
    cases h
  | succ f =>
    rw [parseStatement_expression (by rw [hx]; rfl)] at h
    cases f with
    | zero =>
      cases h
    | succ f =>
      rw [parseExpression] at h
      obtain ⟨left, vs, hleft, h⟩ := bind_eq_ok h
      have hcompound : left.Compound := by
        rcases parseLevel_adds hx hleft with hn | ⟨-, hrest⟩
        · exact hn
        · obtain ⟨hparen, hbracket, hops⟩ := hrest u rfl
          rcases hu with hu | hu | hu
          · exact absurd hu hparen
          · exact absurd hu hbracket
          · obtain ⟨ops, hmem, hop⟩ := hoperators _ hu
            exact absurd hop (hops ops hmem)
      obtain ⟨_, vs', -, h⟩ := bind_eq_ok h
      obtain ⟨t, ws, -, h⟩ := bind_eq_ok h
      split at h
      · obtain ⟨_, _, -, h⟩ := bind_eq_ok h
        obtain ⟨_, _, -, h⟩ := bind_eq_ok h
        split at h
        · cases h
          exact hcompound
        · obtain ⟨_, _, -, h⟩ := bind_eq_ok h
          cases h
          trivial
      · split at h
        · obtain ⟨_, _, -, h⟩ := bind_eq_ok h
          obtain ⟨_, _, -, h⟩ := bind_eq_ok h
          cases h
          trivial
        · cases h
          exact hcompound

end Compound

/-! ## Programs -/

theorem freshKind_of_not_refused (kind : TokenKind) (h : kind ∉ refusedKinds) (hparen : kind ≠ .openParen)
    (hbracket : kind ≠ .openBracket) : kind ∈ freshKinds := by
  revert h hparen hbracket
  cases kind <;> decide

/-- The first token of a program that does not go on with an expression goes on with nothing. -/
theorem fresh_of_not_continues {ts rest f}
    (h : parseStatements f (t :: ts) = .ok (ns, rest)) (ht : ¬ t.Continues) : t.Fresh := by
  simp only [Token.Continues, not_or] at ht
  refine ⟨?_, ht.2.2⟩
  by_cases heof : t.kind = .eof
  · rw [heof]
    decide
  · exact freshKind_of_not_refused _ (not_refused_of_parseStatements h heof) ht.1 ht.2.1

/-- The statements of two programs with a semicolon between them follow one another. -/
def Separates (first second : String) (ns ms : List Node) : Prop :=
  ∃ body, parse (first ++ ";\n" ++ second) = .ok (.program .zero body) ∧ bareList body = bareList ns ++ bareList ms

theorem separates_of_not_continues {first second p q ms ts}
    (hfirst : parse first = .ok (.program p ns)) (hsecond : parse second = .ok (.program q ms))
    (htokens : tokenize second = .ok (t :: ts)) (ht : ¬ t.Continues) : Separates first second ns ms := by
  obtain ⟨ts1, f, rest1, htokens1, hparse1⟩ := statements_of_parse hfirst
  obtain ⟨ts2, g, rest2, htokens2, hparse2⟩ := statements_of_parse hsecond
  cases htokens.symm.trans htokens2
  obtain ⟨ls, hs, rfl⟩ := exists_lexemes htokens1
  have hfresh : (t.shift (Place.start.afterAll ls).line).Fresh :=
    ⟨(fresh_of_not_continues hparse2 ht).kind, (fresh_of_not_continues hparse2 ht).value⟩
  have hsemicolon pos : Token.Fresh ⟨";", .semicolon, pos⟩ :=
    ⟨show .semicolon ∈ freshKinds by decide, show ";" ∉ binaryOperators by decide⟩
  obtain ⟨sep, hsep, hjoined⟩ := tokenize_append_semicolon_ok hs htokens
  obtain ⟨ms', rest', hbare', htail⟩ := parseStatements_shift (Place.start.afterAll ls).line htokens hparse2
  -- the tail begins with the semicolon, or with the second program if a comment has taken it
  obtain ⟨v, vs, g', hv, hvs, hparse⟩ : ∃ (v : Token) (vs : List Token) (g' : Nat), v.Fresh ∧
      sep ++ (t :: ts).map (.shift (Place.start.afterAll ls).line) = v :: vs ∧
      parseStatements g' (v :: vs) = .ok (ms', rest') := by
    rcases hsep with rfl | ⟨pos, rfl⟩
    · exact ⟨_, _, _, hfresh, rfl, htail⟩
    · obtain ⟨g', hg'⟩ := parseStatements_semicolon (s := ⟨";", .semicolon, pos⟩) rfl hfresh (gives_of_statements htail)
      exact ⟨_, _, g', hsemicolon pos, rfl, hg' g' (le_refl g')⟩
  obtain ⟨ns', hbare, hboth⟩ := parseStatements_joined
    (beside_of_faces rfl (fun _ => lexed_of_mem hs) (endToken_isEnd _) hv) hparse1 hparse
  rw [← hvs] at hboth
  refine ⟨ns' ++ ms', parse_of_statements hjoined hboth, ?_⟩
  rw [bareList_append, hbare, hbare']

theorem Node.Compound.isSemicolon {n : Node} (h : n.Compound) : n.isSemicolon = false := by
  cases n with
  | emptyExpression pos => cases h
  | _ => rfl

theorem Node.Compound.bare_ne {n : Node} (h : n.Compound) (pos : Pos) (name : String) :
    n.bare ≠ (Node.identifier pos name).bare := by
  intro heq
  obtain ⟨pos', rfl⟩ := bare_eq_identifier heq
  exact h

/-- The statements of a name and a token that goes on with it are not that name and others. -/
theorem parseStatements_continues {rest f}
    (hx : x.kind = .identifier) (hu : u.Continues) (h : parseStatements f (x :: u :: us) = .ok (ns, rest)) (pos : Pos)
    (name : String) (ms : List Node) : bareList ns ≠ bareList [.identifier pos name] ++ bareList ms := by
  cases f with
  | zero =>
    cases h
  | succ f =>
    rw [parseStatements, atKind_bind, if_neg (by rw [hx]; decide)] at h
    obtain ⟨s, vs, hs, h⟩ := bind_eq_ok h
    obtain ⟨more, ws, -, h⟩ := bind_eq_ok h
    cases h
    have hcompound := parseStatement_compound hx hu hs
    rw [keepStatement, hcompound.isSemicolon]
    exact fun heq => hcompound.bare_ne pos name (cons.inj heq).1

/-- A name with an open comment behind it, which takes the semicolon. -/
theorem not_separates_of_continues {second ts}
    (htokens : tokenize second = .ok (t :: ts)) (ht : t.Continues) (ms : List Node) :
    ¬ Separates "x#" second [.identifier ⟨1, 1, 1⟩ "x"] ms := by
  rintro ⟨body, hparse, hbare⟩
  have hname : tokenize "x#;" = .ok [⟨"x", .identifier, ⟨1, 1, 1⟩⟩, ⟨"EOF", .eof, ⟨1, 3, 1⟩⟩] := by decide +kernel
  obtain ⟨ls, hs, hls⟩ := exists_lexemes hname
  obtain ⟨hx, -⟩ := @append_inj' _ [(⟨"x", .identifier, ⟨1, 1, 1⟩⟩ : Token)] _ _ _ hls rfl
  have htext : "x#" ++ ";\n" ++ second = "x#;" ++ "\n" ++ second := rfl
  obtain ⟨us, f, rest, hus, hstatements⟩ := statements_of_parse hparse
  rw [htext, tokenize_append_newline_ok hs htokens, ← hx] at hus
  cases hus
  exact parseStatements_continues (u := t.shift _) rfl ht hstatements _ _ _ hbare

/-- If a program can be parsed, then every other one can be put in front of it with a semicolon and a line break between
them, and its statements are those of both, exactly if it does not begin with a parenthesis, a bracket or a string with the
text of an operator. -/
theorem parse_semicolon_iff {second : String} {q : Pos} {ms : List Node} {t : Token} {ts : List Token}
    (hsecond : parse second = .ok (.program q ms)) (htokens : tokenize second = .ok (t :: ts)) :
    (∀ first p ns, parse first = .ok (.program p ns) → Separates first second ns ms) ↔ ¬ t.Continues := by
  refine ⟨fun h ht => ?_, fun ht first p ns hfirst => separates_of_not_continues hfirst hsecond htokens ht⟩
  have hname : parse "x#" = .ok (.program .zero [.identifier ⟨1, 1, 1⟩ "x"]) := by
    rw [parse, show tokenize "x#" = .ok [⟨"x", .identifier, ⟨1, 1, 1⟩⟩, ⟨"EOF", .eof, ⟨1, 2, 1⟩⟩] by decide +kernel]
    rfl
  exact not_separates_of_continues htokens ht ms (h _ _ _ hname)

/-- A call of a string may stand behind every program. -/
theorem parse_semicolon_string_call : ∃ ms, parse "\"ab\"(c)" = .ok (.program .zero ms) ∧
      ∀ first p ns, parse first = .ok (.program p ns) → Separates first "\"ab\"(c)" ns ms := by
  have htokens : tokenize "\"ab\"(c)" = .ok [⟨"ab", .string, ⟨1, 4, 4⟩⟩, ⟨"(", .openParen, ⟨1, 5, 1⟩⟩,
      ⟨"c", .identifier, ⟨1, 6, 1⟩⟩, ⟨")", .closeParen, ⟨1, 7, 1⟩⟩, ⟨"EOF", .eof, ⟨1, 7, 1⟩⟩] := by decide +kernel
  have hsecond : parse "\"ab\"(c)" =
      .ok (.program .zero [.call ⟨1, 4, 4⟩ [.identifier ⟨1, 6, 1⟩ "c"] (.string ⟨1, 4, 4⟩ "ab")]) := by
    rw [parse, htokens]
    rfl
  exact ⟨_, hsecond, (parse_semicolon_iff hsecond htokens).2 (by unfold Token.Continues; decide)⟩

/-- A name in parentheses behind a semicolon is a call of what the semicolon stands for. -/
theorem parse_semicolon_parenthesis : parse "a" = .ok (.program .zero [.identifier ⟨1, 1, 1⟩ "a"]) ∧
      parse "(b)" = .ok (.program .zero [.identifier ⟨1, 2, 1⟩ "b"]) ∧
      parse ("a" ++ ";\n" ++ "(b)") = .ok (.program .zero
        [.identifier ⟨1, 1, 1⟩ "a", .call .zero [.identifier ⟨2, 3, 1⟩ "b"] (.emptyExpression .zero)]) ∧
      ¬ Separates "a" "(b)" [.identifier ⟨1, 1, 1⟩ "a"] [.identifier ⟨1, 2, 1⟩ "b"] := by
  have ha : tokenize "a" = .ok [⟨"a", .identifier, ⟨1, 1, 1⟩⟩, ⟨"EOF", .eof, ⟨1, 1, 1⟩⟩] := by decide +kernel
  have hb : tokenize "(b)" = .ok [⟨"(", .openParen, ⟨1, 1, 1⟩⟩, ⟨"b", .identifier, ⟨1, 2, 1⟩⟩,
      ⟨")", .closeParen, ⟨1, 3, 1⟩⟩, ⟨"EOF", .eof, ⟨1, 3, 1⟩⟩] := by decide +kernel
  have hboth : tokenize ("a" ++ ";\n" ++ "(b)") = .ok [⟨"a", .identifier, ⟨1, 1, 1⟩⟩, ⟨";", .semicolon, ⟨1, 2, 1⟩⟩,
      ⟨"(", .openParen, ⟨2, 2, 1⟩⟩, ⟨"b", .identifier, ⟨2, 3, 1⟩⟩, ⟨")", .closeParen, ⟨2, 4, 1⟩⟩,
      ⟨"EOF", .eof, ⟨2, 4, 1⟩⟩] := by decide +kernel
  rw [Separates, parse, parse, parse, ha, hb, hboth]
  refine ⟨rfl, rfl, rfl, ?_⟩
  rintro ⟨body, hparse, hbare⟩
  cases hparse
  have hcall := (cons.inj (cons.inj hbare).2).1
  cases hcall

end SmallScript.Syntax
