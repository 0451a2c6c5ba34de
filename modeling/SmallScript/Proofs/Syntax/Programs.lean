import SmallScript.Proofs.Syntax.Faults

/-!
# Programs by their tokens

What the parser makes of a source depends on the texts and kinds of its tokens alone, positions apart, and a tail in
place of the end is parsed on its own: `parseStatements_joined`. So the tokens of a source can be exchanged for tokens
without positions, `parse_of_gives` and `error_of_gives`.
-/

namespace SmallScript.Syntax

open Parse

variable {rest ts : List Token} {ns : List Node}

/-- The statements of a program, and then those of the tail. -/
theorem parseStatements_joined {tail us rest' f g ms} (hb : Beside (.joined tail) ts us)
    (hfirst : parseStatements f ts = .ok (ns, rest)) (hsecond : parseStatements g tail = .ok (ms, rest')) :
    ∃ ns', bareList ns' = bareList ns ∧ parseStatements (f + g) us = .ok (ns' ++ ms, rest') := by
  induction f generalizing ts us ns with
  | zero =>
    cases hfirst
  | succ f ih =>
    rw [parseStatements] at hfirst
    rw [Nat.add_right_comm]
    cases hb with
    | nil hc => exact hc.elim
    | @stop e v vs _ he _ htail =>
      have hk : e.kind = .eof := congrArg Prod.snd he
      rw [atKind_bind, hk] at hfirst
      cases hfirst
      refine ⟨[], rfl, ?_⟩
      exact (htail) ▸ parseStatements_le (by omega) hsecond
    | @cons t u ts us ht hb =>
      rw [atKind_bind, if_neg (by simpa using ht.notEnd id)] at hfirst
      obtain ⟨s, ts1, hs, hfirst⟩ := bind_eq_ok hfirst
      obtain ⟨more, ts2, hmore, hfirst⟩ := bind_eq_ok hfirst
      cases hfirst
      have hfollows := (StatementsAgree.all (le_refl f)).statement.run (.cons ht hb)
      rw [hs] at hfollows
      generalize hr : parseStatement f (u :: us) = r at hfollows
      cases hfollows with
      | ended hcut => exact hcut.elim
      | @ok _ s' _ us1 _ _ _ _ _ hb1 hlike =>
        obtain ⟨more', hbare, hparse⟩ := ih hb1 hmore
        refine ⟨keepStatement s' more', ?_, ?_⟩
        · unfold keepStatement
          rw [hlike.semicolon]
          split
          · exact hbare
          · rw [bareList, bareList, hlike.bare id, hbare]
        rw [parseStatements, atKind_bind, if_neg (by simpa [ht.kind] using ht.notEnd id), bind_of_ok
          (parseStatement_le (show f ≤ f + g by omega) hr), bind_of_ok hparse, keepStatement_append]
        rfl

theorem gives_of_statements {f r} (h : parseStatements f ts = .ok r) : Gives parseStatements ts (.ok r) :=
  ⟨f, fun _ hg => parseStatements_le hg h⟩

theorem parseTokens_of_statements {f} (h : parseStatements f ts = .ok (ns, rest)) : parseTokens ts = .ok ns := by
  have hdepth : parseStatements (depthBound ts) ts = .ok (ns, rest) := by
    rcases le_total f (depthBound ts) with hle | hle
    · exact parseStatements_le hle h
    · rw [← parserProgresses.program.settled _ f ts (by unfold depthBound; omega) hle, h]
  rw [parseTokens, hdepth]
  rfl

theorem parse_of_statements {source f} (ht : tokenize source = .ok ts) (h : parseStatements f ts = .ok (ns, rest)) :
    parse source = .ok (.program .zero ns) := by
  rw [parse, ht]
  show (parseTokens ts).map _ = _
  rw [parseTokens_of_statements h]
  rfl

theorem statements_of_parse {source pos} (h : parse source = .ok (.program pos ns)) :
    ∃ ts f rest, tokenize source = .ok ts ∧ parseStatements f ts = .ok (ns, rest) := by
  cases ht : tokenize source with
  | error g =>
    rw [parse, ht] at h
    cases h
  | ok ts =>
    rw [parse, ht] at h
    change (parseTokens ts).map _ = _ at h
    rw [parseTokens] at h
    cases hs : parseStatements (depthBound ts) ts with
    | error e =>
      rw [hs] at h
      cases h
    | ok r =>
      rw [hs] at h
      cases h
      exact ⟨ts, _, r.2, rfl, hs⟩

/-! ## Other positions -/

theorem Token.Lexed.of_face {t u : Token} (h : t.Lexed) (hface : t.face = u.face) : u.Lexed := by
  cases h with
  | operator h => exact .operator (hface ▸ h)
  | minus h => exact .minus (hface ▸ h)
  | keyword h => exact .keyword (hface ▸ h)
  | name h hname => exact .name (hface ▸ h) hname
  | number neg hd hrun h => exact .number neg hd hrun (hface ▸ h)
  | string h hquote => exact .string (hface ▸ h) hquote

theorem endToken_isEnd (q : Place) : (endToken q).IsEnd := rfl

/-- Statements from tokens with other positions. -/
theorem parseStatements_of_faces {us e e' f}
    (hfaces : ts.map Token.face = us.map Token.face) (hts : ∀ t ∈ ts, t.Lexed) (he : e.IsEnd) (he' : e'.IsEnd)
    (h : parseStatements f (ts ++ [e]) = .ok (ns, rest)) :
    ∃ ns', bareList ns' = bareList ns ∧ parseStatements (f + 1) (us ++ [e']) = .ok (ns', [e']) := by
  have hstop : parseStatements 1 [e'] = .ok ([], [e']) := by
    rw [parseStatements, atKind_bind, show e'.kind = .eof from congrArg Prod.snd he']
    rfl
  obtain ⟨ns', hbare, hparse⟩ := parseStatements_joined (beside_of_faces hfaces hts he he'.fresh) h hstop
  rw [List.append_nil] at hparse
  exact ⟨ns', hbare, hparse⟩

section

variable {source : String} {ts us : List Token} {q q' : Place} (htokens : tokenize source = .ok (ts ++ [endToken q]))
  (hfaces : us.map Token.face = ts.map Token.face)
include htokens

theorem lexed_of_tokenize : ∀ t ∈ ts, t.Lexed := by
  obtain ⟨ls, hs, hts⟩ := exists_lexemes htokens
  obtain ⟨rfl, -⟩ := List.append_inj' hts rfl
  exact fun _ => lexed_of_mem hs

include hfaces

/-- A source is parsed as tokens of the same texts and kinds are. -/
theorem parse_of_gives (h : Gives parseStatements (us ++ [endToken q']) (.ok (ns, rest))) :
    ∃ ns', parse source = .ok (.program .zero ns') ∧ bareList ns' = bareList ns := by
  have hlexed : ∀ u ∈ us, u.Lexed := by
    intro u hu
    have hmem : u.face ∈ ts.map Token.face := hfaces ▸ List.mem_map_of_mem hu
    obtain ⟨t, ht, hface⟩ := List.mem_map.1 hmem
    exact (lexed_of_tokenize htokens t ht).of_face hface
  obtain ⟨g, hg⟩ := h
  obtain ⟨ns', hbare, hparse⟩ := parseStatements_of_faces hfaces hlexed (endToken_isEnd q')
    (endToken_isEnd q) (hg g (le_refl g))
  exact ⟨ns', parse_of_statements htokens hparse, hbare⟩

/-- A source is refused as tokens of the same texts and kinds are. -/
theorem error_of_gives {e} (h : Gives parseStatements (us ++ [endToken q']) (.error e)) :
    ∃ e', parse source = .error e' := by
  cases hparse : parse source with
  | error e' => exact ⟨e', rfl⟩
  | ok tree =>
    obtain ⟨body, rfl⟩ := program_of_parse hparse
    obtain ⟨ts', f, rest, hts', hstatements⟩ := statements_of_parse hparse
    cases htokens.symm.trans hts'
    obtain ⟨ns, -, hns⟩ := parseStatements_of_faces hfaces.symm (lexed_of_tokenize htokens) (endToken_isEnd q)
      (endToken_isEnd q') hstatements
    obtain ⟨g, hg⟩ := h
    have hlarger := parseStatements_le (show f + 1 ≤ g + (f + 1) by omega) hns
    cases hlarger.symm.trans (hg _ (by omega))

end

end SmallScript.Syntax
