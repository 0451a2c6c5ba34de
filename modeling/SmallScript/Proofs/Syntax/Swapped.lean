import Mathlib.Data.Fintype.EquivFin
import Mathlib.Tactic.FinCases
import SmallScript.Proofs.Syntax.Separated

/-!
# Other contents in the same tokens

The parser reads no content of a string, unless it is the text of a binary operator. So of two texts, one may stand for
the other exactly if none of them is an operator, `exchange_text_iff`. That the trees then differ in one string at most
is said by a tree with a hole, of which both are made.
-/

namespace SmallScript.Syntax

open Parse List

variable {hole text : String} {ns : List Node} {ts : List Token} {pos : Pos}

/-! ## One content for another -/

/-- A text in place of a hole. -/
def fill (hole text : String) (s : String) : String := if s = hole then text else s

/-- The trees are the same but for at most one string, whose content is the first text in one and the second in the
other: they are made of trees with at most one hole. -/
def DifferInText (old new : String) (ns ms : List Node) : Prop :=
  ∃ (hole : String) (ls : List Node), ns = mapTexts (fill hole old) ls ∧ ms = mapTexts (fill hole new) ls ∧
    (textsOf ls).count hole ≤ 1

theorem spares_fill (hhole : hole ∉ binaryOperators) (htext : text ∉ binaryOperators) :
    Spares (fill hole text) binaryOperators := by
  constructor
  · intro op hop
    exact if_neg (ne_of_mem_of_not_mem hop hhole)
  · intro s hs
    unfold fill
    split
    · exact htext
    · exact hs

theorem map_mapText_fill (h : ∀ t ∈ ts, t.value ≠ hole) (text : String) :
    ts.map (Token.mapText (fill hole text)) = ts := by
  have hself : ∀ t ∈ ts, t.mapText (fill hole text) = t := by
    intro t ht
    unfold Token.mapText
    split
    · rw [fill, if_neg (h t ht)]
    · rfl
  exact (map_congr_left hself).trans (map_id' ts)

theorem copies_of_fresh (h : ∀ t ∈ ts, t.value ≠ hole) : copies hole ts = 0 := by
  simp only [copies, countP_eq_zero]
  intro t ht
  simp [h t ht]

/-- Trees with a hole in them, for tokens with a hole among them. -/
theorem parseTokens_fill {before after}
    (hbefore : ∀ t ∈ before, t.value ≠ hole) (hafter : ∀ t ∈ after, t.value ≠ hole) (hhole : hole ∉ binaryOperators)
    (htext : text ∉ binaryOperators) :
    parseTokens (before ++ ⟨text, .string, pos⟩ :: after) =
      (parseTokens (before ++ ⟨hole, .string, pos⟩ :: after)).map (mapTexts (fill hole text)) := by
  have htokens : (before ++ ⟨hole, .string, pos⟩ :: after).map (.mapText (fill hole text)) =
      before ++ ⟨text, .string, pos⟩ :: after := by
    rw [map_append, map_cons, map_mapText_fill hbefore, map_mapText_fill hafter]
    simp [Token.mapText, fill]
  have hlength : depthBound (before ++ ⟨text, .string, pos⟩ :: after) =
      depthBound (before ++ ⟨hole, .string, pos⟩ :: after) := by
    simp [depthBound]
  rw [parseTokens, parseTokens, hlength, ← htokens]
  generalize before ++ ⟨hole, .string, pos⟩ :: after = ts
  have hspares ops (hops : ops ∈ precedence) : Spares (fill hole text) ops :=
    (spares_fill hhole htext).mono (precedence_known ops hops)
  have hswapped := (statements_agree (le_refl (depthBound ts))).run
    (beside_mapText (c := .swap _ hole hspares) trivial ts)
  change Follows _ _ _ _ _ _ _ _ _ _ _ (parseStatements _ (ts.map (Token.mapText (fill hole text)))) at hswapped
  revert hswapped
  generalize parseStatements (depthBound ts) ts = r
  generalize parseStatements (depthBound ts) (ts.map _) = r'
  intro hswapped
  cases hswapped with
  | ok _ _ _ _ _ _ h => exact congrArg Except.ok (h.same trivial)
  | error _ hsame =>
    rw [hsame trivial]
    rfl
  | deep h =>
    have hshort := h trivial
    unfold depthBound at hshort
    omega
  | ended _ hc => exact absurd trivial hc

theorem count_parseTokens (h : parseTokens ts = .ok ns) : (textsOf ns).count hole ≤ copies hole ts := by
  have hswapped := (statements_agree (le_refl (depthBound ts))).run
    (beside_mapText (c := .swap id hole fun _ _ => spares_id _) trivial ts)
  rw [parseTokens] at h
  revert h hswapped
  generalize parseStatements (depthBound ts) ts = r
  generalize parseStatements (depthBound ts) (ts.map _) = r'
  intro h hswapped
  cases hswapped with
  | @ok ns _ rest _ _ _ _ hkept =>
    cases h
    change (textsOf ns).count hole + copies hole rest ≤ 0 + copies hole ts at hkept
    dsimp only
    omega
  | error | deep => cases h
  | ended _ hc => exact absurd trivial hc

/-- Texts that are no operators may stand for one another. -/
theorem differInText_of_parseTokens {old new} (hold : old ∉ binaryOperators) (hnew : new ∉ binaryOperators)
    {before after}
    (h : parseTokens (before ++ ⟨old, .string, pos⟩ :: after) = .ok ns) :
    ∃ ms, parseTokens (before ++ ⟨new, .string, pos⟩ :: after) = .ok ms ∧ DifferInText old new ns ms := by
  -- the hole is a text that does not occur anywhere
  obtain ⟨hole, hfresh⟩ := Infinite.exists_notMem_finset
    (binaryOperators ++ before.map (·.value) ++ after.map (·.value)).toFinset
  simp only [mem_toFinset, mem_append, mem_map, not_or, not_exists, not_and] at hfresh
  obtain ⟨⟨hhole, hbefore⟩, hafter⟩ := hfresh
  rw [parseTokens_fill hbefore hafter hhole hold] at h
  rw [parseTokens_fill hbefore hafter hhole hnew]
  cases hr : parseTokens (before ++ ⟨hole, .string, pos⟩ :: after) with
  | error e =>
    rw [hr] at h
    cases h
  | ok ls =>
    rw [hr] at h
    cases h
    refine ⟨_, rfl, hole, ls, rfl, rfl, (count_parseTokens hr).trans ?_⟩
    rw [copies_append, copies_string hole rfl, copies_of_fresh hbefore, copies_of_fresh hafter, count_singleton_self]

/-! ## Operators in strings -/

/-- Two names with a string between them. -/
def betweenNames (text : String) : List Token :=
  [⟨"a", .identifier, ⟨1, 1, 1⟩⟩, ⟨text, .string, ⟨1, 2, 1⟩⟩, ⟨"b", .identifier, ⟨1, 3, 1⟩⟩, ⟨"EOF", .eof, ⟨1, 4, 1⟩⟩]

theorem parseTokens_betweenNames_operator {op} (h : op ∈ binaryOperators) : parseTokens (betweenNames op) =
      .ok [.binary ⟨1, 1, 1⟩ (.identifier ⟨1, 1, 1⟩ "a") op (.identifier ⟨1, 3, 1⟩ "b")] := by
  fin_cases h <;> rfl

theorem parseStatements_primary {t u us rest n}
    (ht : t.kind.opensExpression = true) (hn : ∀ ts, Gives parsePrimary (t :: ts) (.ok (n, ts))) (hu : u.Fresh)
    (hns : Gives parseStatements (u :: us) (.ok (ns, rest))) :
    Gives parseStatements (t :: u :: us) (.ok (keepStatement n ns, rest)) := by
  have hwhole : ReadsWhole [t] n := .of_primary hn
  have hstatement : Gives parseStatement (t :: u :: us) (.ok (n, u :: us)) :=
    (hwhole u us hu.stops).step fun f hf => (parseStatement_expression ht).trans hf
  exact parseStatements_cons (kind_ne_of_opens ht rfl) hstatement hns

theorem parseTokens_betweenNames_other (h : text ∉ binaryOperators) : parseTokens (betweenNames text) =
      .ok [.identifier ⟨1, 1, 1⟩ "a", .string ⟨1, 2, 1⟩ text, .identifier ⟨1, 3, 1⟩ "b"] := by
  have hend : Gives parseStatements [⟨"EOF", .eof, ⟨1, 4, 1⟩⟩] (.ok ([], [⟨"EOF", .eof, ⟨1, 4, 1⟩⟩])) :=
    parseStatements_stop rfl
  have hb := parseStatements_primary (t := ⟨"b", .identifier, ⟨1, 3, 1⟩⟩) rfl (fun ts => parsePrimary_name rfl)
    ⟨by decide, by decide⟩ hend
  have htext := parseStatements_primary (t := ⟨text, .string, ⟨1, 2, 1⟩⟩) rfl (fun ts => parsePrimary_string rfl)
    ⟨by decide, by decide⟩ hb
  obtain ⟨f, hf⟩ := parseStatements_primary (t := ⟨"a", .identifier, ⟨1, 1, 1⟩⟩) rfl (fun ts => parsePrimary_name rfl)
    ⟨show .string ∈ freshKinds by decide, h⟩ htext
  exact parseTokens_of_statements (hf f (le_refl f))

theorem length_mapTexts (f : String → String) (ns : List Node) : (mapTexts f ns).length = ns.length := by
  induction ns with
  | nil => rfl
  | cons n ns ih => rw [mapTexts, length_cons, length_cons, ih]

theorem operator_of_mapText {f} {n : Node} {op l r}
    (h : n.mapText f = .binary pos l op r) : ∃ l' r', n = .binary pos l' op r' := by
  cases n with
  | binary pos' l' op' r' =>
    cases h
    exact ⟨l', r', rfl⟩
  | _ => cases h

/-- With an operator in the string there is one tree, and its operator is not the content of a string; with another text
there are three. -/
theorem not_operator_of_differInText {old new ms} (hne : old ≠ new)
    (hold : parseTokens (betweenNames old) = .ok ns) (hnew : parseTokens (betweenNames new) = .ok ms)
    (h : DifferInText old new ns ms) : old ∉ binaryOperators ∧ new ∉ binaryOperators := by
  obtain ⟨hole, ls, rfl, rfl, -⟩ := h
  have hlength : (mapTexts (fill hole old) ls).length = (mapTexts (fill hole new) ls).length := by
    rw [length_mapTexts, length_mapTexts]
  by_cases hop : old ∈ binaryOperators
  · have hns := Except.ok.inj (hold.symm.trans (parseTokens_betweenNames_operator hop))
    by_cases hop' : new ∈ binaryOperators
    · have hms := Except.ok.inj (hnew.symm.trans (parseTokens_betweenNames_operator hop'))
      cases ls with
      | nil => cases hns
      | cons l ls =>
        obtain ⟨_, _, rfl⟩ := operator_of_mapText (cons.inj hns).1
        obtain ⟨_, _, heq⟩ := operator_of_mapText (cons.inj hms).1
        cases heq
        exact absurd rfl hne
    · rw [hns, Except.ok.inj (hnew.symm.trans (parseTokens_betweenNames_other hop'))] at hlength
      cases hlength
  · by_cases hop' : new ∈ binaryOperators
    · rw [Except.ok.inj (hold.symm.trans (parseTokens_betweenNames_other hop)),
        Except.ok.inj (hnew.symm.trans (parseTokens_betweenNames_operator hop'))] at hlength
      cases hlength
    · exact ⟨hop, hop'⟩

theorem exists_parseTokens_betweenNames (text : String) : ∃ ns, parseTokens (betweenNames text) = .ok ns := by
  by_cases hop : text ∈ binaryOperators
  · exact ⟨_, parseTokens_betweenNames_operator hop⟩
  · exact ⟨_, parseTokens_betweenNames_other hop⟩

/-- For two texts, one of them may stand for the other as the content of a string, in any tokens that are a program, exactly
if none of them is an operator. Then these tokens are a program as well, and their trees differ in that string only. -/
theorem exchange_text_iff {old new : String} (hne : old ≠ new) :
    (∀ before after pos ns, parseTokens (before ++ ⟨old, .string, pos⟩ :: after) = .ok ns →
      ∃ ms, parseTokens (before ++ ⟨new, .string, pos⟩ :: after) = .ok ms ∧ DifferInText old new ns ms) ↔
    old ∉ binaryOperators ∧ new ∉ binaryOperators := by
  refine ⟨fun h => ?_, fun h before after pos ns hparse => differInText_of_parseTokens h.1 h.2 hparse⟩
  obtain ⟨ns, hns⟩ := exists_parseTokens_betweenNames old
  obtain ⟨ms, hms, hdiffer⟩ := h [_] [_, _] _ ns hns
  exact not_operator_of_differInText hne hns hms hdiffer

/-- A word for another, but no operator for a word. -/
theorem exchange_text_word : (∀ before after pos ns, parseTokens (before ++ ⟨"left", .string, pos⟩ :: after) = .ok ns →
      ∃ ms, parseTokens (before ++ ⟨"right", .string, pos⟩ :: after) = .ok ms ∧ DifferInText "left" "right" ns ms) ∧
    ¬ ∀ before after pos ns, parseTokens (before ++ ⟨"left", .string, pos⟩ :: after) = .ok ns →
      ∃ ms, parseTokens (before ++ ⟨"<<", .string, pos⟩ :: after) = .ok ms ∧ DifferInText "left" "<<" ns ms :=
  ⟨(exchange_text_iff (by decide)).2 (by decide), fun h => absurd ((exchange_text_iff (by decide)).1 h) (by decide)⟩

/-- Behind a name, a string is a statement of its own, but not if its content is a plus sign: then another operand is
missing. -/
theorem parseTokens_plus_string :
    (∃ ns, parseTokens [⟨"a", .identifier, ⟨1, 1, 1⟩⟩, ⟨"x", .string, ⟨1, 5, 3⟩⟩, ⟨"EOF", .eof, ⟨1, 5, 1⟩⟩] = .ok ns) ∧
      parseTokens [⟨"a", .identifier, ⟨1, 1, 1⟩⟩, ⟨"+", .string, ⟨1, 5, 3⟩⟩, ⟨"EOF", .eof, ⟨1, 5, 1⟩⟩] =
        .error (.at ⟨1, 5, 1⟩ (.unexpectedToken ⟨"EOF", .eof, ⟨1, 5, 1⟩⟩)) :=
  ⟨⟨[.identifier ⟨1, 1, 1⟩ "a", .string ⟨1, 5, 3⟩ "x"], rfl⟩, rfl⟩

end SmallScript.Syntax
