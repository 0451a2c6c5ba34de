import SmallScript.Syntax.Parse

/-!
# Steps of the parser

What each function of the parser gives for the tokens in front of it, when these have the right kinds: one rule for
each form of expression, in which the parts are given by the function's own calls. `Gives` says what comes of tokens
if the bound on the depth of the recursion is large enough; the rules keep track of the bound, so that nothing else has
to. `bind_of_ok` and the lemmas for the tokens in front are all that opens the monad.
-/

namespace SmallScript.Syntax

open Number

variable {ns : List Node} {us vs : List Token}

namespace Parse

variable {α β : Type}

theorem bind_of_ok {p ts rest a} (h : p ts = .ok (a, rest)) (k : α → Parse β) : (p >>= k) ts = k a rest := by
  show (p ts >>= fun r => k r.1 r.2) = _
  rw [h]
  rfl

theorem bind_of_error {p ts e} (h : p ts = .error e) (k : α → Parse β) : (p >>= k) ts = .error e := by
  show (p ts >>= fun r => k r.1 r.2) = _
  rw [h]
  rfl

theorem bind_eq_ok {p : Parse α} {k : α → Parse β} {ts : List Token} {r} (h : (p >>= k) ts = .ok r) :
    ∃ a us, p ts = .ok (a, us) ∧ k a us = .ok r := by
  have hbind : (p ts >>= fun r => k r.1 r.2) = .ok r := h
  cases hp : p ts with
  | error e =>
    rw [hp] at hbind
    cases hbind
  | ok found =>
    rw [hp] at hbind
    exact ⟨found.1, found.2, rfl, hbind⟩

theorem peek_bind (t : Token) (ts : List Token) (k : Token → Parse β) : (peek >>= k) (t :: ts) = k t (t :: ts) := rfl

theorem advance_bind (t : Token) (ts : List Token) (k : Token → Parse β) : (advance >>= k) (t :: ts) = k t ts := rfl

theorem atKind_bind (kind : TokenKind) (t : Token) (ts : List Token) (k : Bool → Parse β) :
    (atKind kind >>= k) (t :: ts) = k (decide (t.kind = kind)) (t :: ts) := rfl

theorem atBodyEnd_bind (t : Token) (ts : List Token) (k : Bool → Parse β) :
    (atBodyEnd >>= k) (t :: ts) = k (t.kind = .eof || t.kind = .closeBrace) (t :: ts) := rfl

theorem expect_bind {kind t} (h : t.kind = kind) (e : Expectation) (ts : List Token)
    (k : Token → Parse β) : (expect kind e >>= k) (t :: ts) = k t ts := by
  refine bind_of_ok ?_ k
  show (if t.kind = kind then pure t else fail _ : Parse Token) ts = _
  rw [if_pos h]
  rfl

end Parse

open Parse

/-- What comes of tokens under every bound on the depth of the recursion that is large enough. -/
def Gives {α : Type} (p : Nat → Parse α) (ts : List Token) (r : Except ParseFault (α × List Token)) : Prop :=
  ∃ least, ∀ f, least ≤ f → p f ts = r

namespace Gives

variable {α β γ : Type} {p : Nat → Parse α} {q : Nat → Parse β} {q' : Nat → Parse γ} {ts us us' : List Token}
  {r : Except ParseFault (α × List Token)} {s : Except ParseFault (β × List Token)}
  {s' : Except ParseFault (γ × List Token)}

theorem now (h : ∀ f, p (f + 1) ts = r) : Gives p ts r := by
  refine ⟨1, fun f hf => ?_⟩
  obtain ⟨f, rfl⟩ := Nat.exists_eq_add_of_le' hf
  exact h f

theorem step (hq : Gives q us s) (h : ∀ f, q (f + 1) us = s → p (f + 2) ts = r) : Gives p ts r := by
  obtain ⟨g, hg⟩ := hq
  refine ⟨g + 2, fun f hf => ?_⟩
  obtain ⟨f, rfl⟩ := Nat.exists_eq_add_of_le' (Nat.le_of_add_left_le hf)
  exact h f (hg _ (by omega))

theorem step₂ (hq : Gives q us s) (hq' : Gives q' us' s')
    (h : ∀ f, q (f + 1) us = s → q' (f + 1) us' = s' → p (f + 2) ts = r) : Gives p ts r := by
  obtain ⟨g', hg'⟩ := hq'
  obtain ⟨g, hg⟩ := hq
  refine ⟨g + g' + 2, fun f hf => ?_⟩
  obtain ⟨f, rfl⟩ := Nat.exists_eq_add_of_le' (Nat.le_of_add_left_le hf)
  exact h f (hg _ (by omega)) (hg' _ (by omega))

theorem bind {a} {k : Nat → β → Parse α} (hq : Gives q ts (.ok (a, us))) (hk : Gives (fun f => k f a) us r) :
    Gives (fun f => q f >>= k f) ts r := by
  obtain ⟨g, hg⟩ := hq
  obtain ⟨g', hg'⟩ := hk
  refine ⟨g + g', fun f hf => ?_⟩
  dsimp only
  rw [bind_of_ok (hg f (by omega))]
  exact hg' f (by omega)

end Gives

variable {t u : Token} {ts rest : List Token} {n m : Node}

-- The equations of the parser's functions, derived once for all the proofs that rewrite with them.
attribute [local simp] parsePrimary parseArray parseMoreElements parseArguments parseMoreArguments parseProperties
  parseMembers parseCalls parseOperators parseLevel parseCallMember parseExpression parseStatement parseBody
  parseClassMembers parseEnumMembers parseStatements

/-! ## Primary expressions -/

theorem parsePrimary_name (ht : t.kind = .identifier) :
    Gives parsePrimary (t :: rest) (.ok (.identifier t.pos t.value, rest)) := by
  refine .now fun f => ?_
  rw [parsePrimary, peek_bind, ht]
  rfl

theorem parsePrimary_number (ht : t.kind = .number) {x} (hx : numberValue? t.value = some x) :
    Gives parsePrimary (t :: rest) (.ok (.number t.pos (.float x), rest)) := by
  refine .now fun f => ?_
  rw [parsePrimary, peek_bind, ht]
  dsimp only
  rw [hx]
  rfl

theorem parsePrimary_string (ht : t.kind = .string) :
    Gives parsePrimary (t :: rest) (.ok (.string t.pos t.value, rest)) := by
  refine .now fun f => ?_
  rw [parsePrimary, peek_bind, ht]
  rfl

theorem parsePrimary_group (ht : t.kind = .openParen) (hu : u.kind = .closeParen)
    (hn : Gives parseExpression ts (.ok (n, u :: rest))) : Gives parsePrimary (t :: ts) (.ok (n, rest)) := by
  refine hn.step fun f hn => ?_
  rw [parsePrimary, peek_bind, ht]
  dsimp only
  rw [advance_bind, bind_of_ok hn, expect_bind hu]
  rfl

theorem parsePrimary_object (ht : t.kind = .openBrace) (hu : u.kind = .closeBrace)
    (hns : Gives parseProperties ts (.ok (ns, u :: rest))) :
    Gives parsePrimary (t :: ts) (.ok (.object t.pos ns, rest)) := by
  refine hns.step fun f hns => ?_
  rw [parsePrimary, peek_bind, ht]
  dsimp only
  rw [advance_bind, bind_of_ok hns, expect_bind hu]
  rfl

theorem parsePrimary_array (ht : t.kind = .openBracket) {r}
    (h : Gives parseArray (t :: ts) r) : Gives parsePrimary (t :: ts) r := by
  refine h.step fun f h => ?_
  rwa [parsePrimary, peek_bind, ht]

/-! ## Lists -/

theorem parseArray_empty (ht : t.kind = .openBracket) (hu : u.kind = .closeBracket) :
    Gives parseArray (t :: u :: rest) (.ok (.array t.pos [], rest)) := by
  refine .now fun f => ?_
  rw [parseArray, expect_bind ht, atKind_bind, if_pos (decide_eq_true hu), pure_bind]
  exact expect_bind hu _ _ _

theorem parseArray_cons (ht : t.kind = .openBracket) {v} (hv : v.kind ≠ .closeBracket)
    (hn : Gives parseExpression (v :: vs) (.ok (n, us))) (hns : Gives parseMoreElements us (.ok (ns, u :: rest)))
    (hu : u.kind = .closeBracket) :
    Gives parseArray (t :: v :: vs) (.ok (.array t.pos (n :: ns), rest)) := by
  refine hn.step₂ hns fun f hn hns => ?_
  rw [parseArray, expect_bind ht, atKind_bind, if_neg (by simp [hv]), bind_of_ok hn, bind_of_ok hns, pure_bind]
  exact expect_bind hu _ _ _

theorem parseMoreElements_stop (ht : t.kind ≠ .comma) : Gives parseMoreElements (t :: rest) (.ok ([], t :: rest)) := by
  refine .now fun f => ?_
  rw [parseMoreElements, atKind_bind, if_neg (by simp [ht])]
  rfl

theorem parseMoreElements_cons (ht : t.kind = .comma) (hn : Gives parseExpression ts (.ok (n, us)))
    (hns : Gives parseMoreElements us (.ok (ns, rest))) :
    Gives parseMoreElements (t :: ts) (.ok (n :: ns, rest)) := by
  refine hn.step₂ hns fun f hn hns => ?_
  rw [parseMoreElements, atKind_bind, if_pos (decide_eq_true ht), advance_bind, bind_of_ok hn, bind_of_ok hns]
  rfl

theorem parseArguments_empty (ht : t.kind = .openParen) (hu : u.kind = .closeParen) :
    Gives parseArguments (t :: u :: rest) (.ok ([], rest)) := by
  refine .now fun f => ?_
  rw [parseArguments, expect_bind ht, atKind_bind, if_pos (decide_eq_true hu), pure_bind]
  exact expect_bind hu _ _ _

theorem parseArguments_cons (ht : t.kind = .openParen) {v} (hv : v.kind ≠ .closeParen)
    (hn : Gives parseExpression (v :: vs) (.ok (n, us))) (hns : Gives parseMoreArguments us (.ok (ns, u :: rest)))
    (hu : u.kind = .closeParen) :
    Gives parseArguments (t :: v :: vs) (.ok (n :: ns, rest)) := by
  refine hn.step₂ hns fun f hn hns => ?_
  rw [parseArguments, expect_bind ht, atKind_bind, if_neg (by simp [hv]), bind_of_ok hn, bind_of_ok hns, pure_bind]
  exact expect_bind hu _ _ _

theorem parseMoreArguments_stop (ht : t.kind ≠ .comma) (ht' : t.kind ≠ .colon) :
    Gives parseMoreArguments (t :: rest) (.ok ([], t :: rest)) := by
  refine .now fun f => ?_
  rw [parseMoreArguments, peek_bind, if_neg ht, if_neg ht']
  rfl

theorem parseMoreArguments_cons (ht : t.kind = .comma) (hn : Gives parseExpression ts (.ok (n, us)))
    (hns : Gives parseMoreArguments us (.ok (ns, rest))) :
    Gives parseMoreArguments (t :: ts) (.ok (n :: ns, rest)) := by
  refine hn.step₂ hns fun f hn hns => ?_
  rw [parseMoreArguments, peek_bind, if_pos ht, advance_bind, bind_of_ok hn, bind_of_ok hns]
  rfl

/-! ## Properties -/

theorem parseProperties_stop (ht : t.kind = .closeBrace) : Gives parseProperties (t :: rest) (.ok ([], t :: rest)) := by
  refine .now fun f => ?_
  rw [parseProperties, atBodyEnd_bind, if_pos (by simp [ht])]
  rfl

theorem parseProperties_short (ht : t.kind = .identifier) (hu : u.kind = .comma) {v}
    (hns : Gives parseProperties (v :: vs) (.ok (ns, rest))) :
    Gives parseProperties (t :: u :: v :: vs) (.ok (.property v.pos t.value .absent :: ns, rest)) := by
  refine hns.step fun f hns => ?_
  rw [parseProperties, atBodyEnd_bind, if_neg (by simp [ht]), expect_bind ht, peek_bind, if_pos hu, advance_bind,
    peek_bind, bind_of_ok hns]
  rfl

theorem parseProperties_lastShort (ht : t.kind = .identifier) (hu : u.kind = .closeBrace)
    (hns : Gives parseProperties (u :: ts) (.ok (ns, rest))) :
    Gives parseProperties (t :: u :: ts) (.ok (.property u.pos t.value .absent :: ns, rest)) := by
  refine hns.step fun f hns => ?_
  rw [parseProperties, atBodyEnd_bind, if_neg (by simp [ht]), expect_bind ht, peek_bind, if_neg (by simp [hu]),
    if_pos hu, bind_of_ok hns]
  rfl

theorem parseProperties_full (ht : t.kind = .identifier) (hu : u.kind = .colon) {v}
    (hn : Gives parseExpression ts (.ok (n, v :: vs))) (hv : v.kind = .comma)
    (hns : Gives parseProperties vs (.ok (ns, rest))) :
    Gives parseProperties (t :: u :: ts) (.ok (.property v.pos t.value n :: ns, rest)) := by
  refine hn.step₂ hns fun f hn hns => ?_
  rw [parseProperties, atBodyEnd_bind, if_neg (by simp [ht]), expect_bind ht, peek_bind, if_neg (by simp [hu]),
    if_neg (by simp [hu]), expect_bind hu, bind_of_ok hn, peek_bind, if_pos (by simp [hv]), expect_bind hv]
  exact bind_of_ok hns _

theorem parseProperties_lastFull (ht : t.kind = .identifier) (hu : u.kind = .colon) {v}
    (hn : Gives parseExpression ts (.ok (n, v :: vs))) (hv : v.kind = .closeBrace)
    (hns : Gives parseProperties (v :: vs) (.ok (ns, rest))) :
    Gives parseProperties (t :: u :: ts) (.ok (.property v.pos t.value n :: ns, rest)) := by
  refine hn.step₂ hns fun f hn hns => ?_
  rw [parseProperties, atBodyEnd_bind, if_neg (by simp [ht]), expect_bind ht, peek_bind, if_neg (by simp [hu]),
    if_neg (by simp [hu]), expect_bind hu, bind_of_ok hn, peek_bind, if_neg (by simp [hv])]
  exact bind_of_ok hns _

/-! ## Members and calls -/

section

variable {r : Except ParseFault (Node × List Token)}

theorem parseMembers_stop (hd : t.kind ≠ .dot) (hb : t.kind ≠ .openBracket) :
    Gives (parseMembers · n) (t :: rest) (.ok (n, t :: rest)) := by
  refine .now fun f => ?_
  rw [parseMembers, peek_bind, if_neg hd, if_neg hb]
  rfl

theorem parseMembers_dot (ht : t.kind = .dot) (hu : u.kind = .identifier)
    (h : Gives (parseMembers · (.member n.pos n (.identifier u.pos u.value) false)) rest r) :
    Gives (parseMembers · n) (t :: u :: rest) r := by
  have hname : Gives parsePrimary (u :: rest) _ := parsePrimary_name hu
  refine hname.step₂ h fun f hname h => ?_
  rwa [parseMembers, peek_bind, if_pos ht, advance_bind, bind_of_ok hname]

theorem parseMembers_index (ht : t.kind = .openBracket) (hm : Gives parseExpression ts (.ok (m, u :: rest)))
    (hu : u.kind = .closeBracket) (h : Gives (parseMembers · (.member n.pos n m true)) rest r) :
    Gives (parseMembers · n) (t :: ts) r := by
  refine hm.step₂ h fun f hm h => ?_
  rwa [parseMembers, peek_bind, if_neg (by simp [ht]), if_pos ht, advance_bind, bind_of_ok hm, expect_bind hu]

theorem parseCalls_stop (ht : t.kind ≠ .openParen) : Gives (parseCalls · n) (t :: rest) (.ok (n, t :: rest)) := by
  refine .now fun f => ?_
  rw [parseCalls, atKind_bind, if_neg (by simp [ht])]
  rfl

theorem parseCalls_call (ht : t.kind = .openParen) (hns : Gives parseArguments (t :: ts) (.ok (ns, rest)))
    (h : Gives (parseCalls · (.call n.pos ns n)) rest r) :
    Gives (parseCalls · n) (t :: ts) r := by
  refine hns.step₂ h fun f hns h => ?_
  rwa [parseCalls, atKind_bind, if_pos (decide_eq_true ht), bind_of_ok hns]

/-! ## Operators and assignments -/

variable {ops : List String} {tighter : List (List String)}

theorem parseOperators_stop (ht : t.value ∉ ops) :
    Gives (parseOperators · ops tighter n) (t :: rest) (.ok (n, t :: rest)) := by
  refine .now fun f => ?_
  rw [parseOperators, peek_bind, if_neg ht]
  rfl

theorem parseOperators_operator (ht : t.value ∈ ops) (hm : Gives (parseLevel · tighter) ts (.ok (m, rest)))
    (h : Gives (parseOperators · ops tighter (.binary n.pos n t.value m)) rest r) :
    Gives (parseOperators · ops tighter n) (t :: ts) r := by
  refine hm.step₂ h fun f hm h => ?_
  rwa [parseOperators, peek_bind, if_pos ht, advance_bind, bind_of_ok hm]

theorem parseLevel_cons (hn : Gives (parseLevel · tighter) ts (.ok (n, rest)))
    (h : Gives (parseOperators · ops tighter n) rest r) : Gives (parseLevel · (ops :: tighter)) ts r := by
  refine hn.step₂ h fun f hn h => ?_
  rwa [parseLevel, bind_of_ok hn]

theorem parseLevel_nil (hn : Gives (fun f => do parseMembers f (← parsePrimary f)) ts (.ok (n, rest)))
    (h : Gives (parseCalls · n) rest r) : Gives (parseLevel · []) ts r := by
  have hmember : Gives parseCallMember ts r := by
    refine hn.step₂ h fun f hn h => ?_
    rwa [parseCallMember, ← bind_assoc, bind_of_ok hn]
  refine hmember.step fun f hmember => ?_
  exact hmember

end

theorem skipTypeHint_bind {β : Type} (ht : t.kind ≠ .colon) (k : Unit → Parse β) :
    (skipTypeHint >>= k) (t :: rest) = k () (t :: rest) := by
  refine bind_of_ok ?_ k
  rw [skipTypeHint, atKind_bind, if_neg (by simp [ht])]
  rfl

theorem parseExpression_plain (hn : Gives (parseLevel · precedence) ts (.ok (n, t :: rest))) (hc : t.kind ≠ .colon)
    (he : t.kind ≠ .equals) (ha : t.kind ≠ .assignmentOperator) :
    Gives parseExpression ts (.ok (n, t :: rest)) := by
  refine hn.step fun f hn => ?_
  rw [parseExpression, bind_of_ok hn, skipTypeHint_bind hc, peek_bind, if_neg he, if_neg ha]
  rfl

theorem parseExpression_assign (hn : Gives (parseLevel · precedence) ts (.ok (n, t :: u :: us))) (ht : t.kind = .equals)
    (hu : u.kind ≠ .equals) (hm : Gives parseExpression (u :: us) (.ok (m, rest))) :
    Gives parseExpression ts (.ok (.assignment n.pos n m none, rest)) := by
  refine hn.step₂ hm fun f hn hm => ?_
  rw [parseExpression, bind_of_ok hn, skipTypeHint_bind (by simp [ht]), peek_bind, if_pos ht, advance_bind,
    peek_bind, if_neg hu, bind_of_ok hm]
  rfl

theorem parseExpression_compound (hn : Gives (parseLevel · precedence) ts (.ok (n, t :: us)))
    (ht : t.kind = .assignmentOperator) (hm : Gives parseExpression us (.ok (m, rest))) :
    Gives parseExpression ts (.ok (.assignment n.pos n m (some t.value), rest)) := by
  refine hn.step₂ hm fun f hn hm => ?_
  rw [parseExpression, bind_of_ok hn, skipTypeHint_bind (by simp [ht]), peek_bind, if_neg (by simp [ht]),
    if_pos ht, advance_bind, bind_of_ok hm]
  rfl

/-! ## Statements -/

/-- The kinds of token that an expression begins with, operators and keywords apart. -/
def TokenKind.opensExpression : TokenKind → Bool
  | .identifier | .number | .string | .openParen | .openBracket | .openBrace => true
  | _ => false

theorem parseStatement_expression {f} (ht : t.kind.opensExpression = true) :
    parseStatement (f + 1) (t :: ts) = parseExpression f (t :: ts) := by
  rw [parseStatement, peek_bind]
  cases hk : t.kind with
  | identifier | number | string | openParen | openBracket | openBrace => rfl
  | _ => exact absurd ht (by rw [hk]; decide)

theorem parseStatements_stop (ht : t.kind = .eof) : Gives parseStatements (t :: rest) (.ok ([], t :: rest)) := by
  refine .now fun f => ?_
  rw [parseStatements, atKind_bind, if_pos (decide_eq_true ht)]
  rfl

theorem parseStatements_cons (ht : t.kind ≠ .eof) (hn : Gives parseStatement (t :: ts) (.ok (n, us)))
    (hns : Gives parseStatements us (.ok (ns, rest))) :
    Gives parseStatements (t :: ts) (.ok (keepStatement n ns, rest)) := by
  refine hn.step₂ hns fun f hn hns => ?_
  rw [parseStatements, atKind_bind, if_neg (by simp [ht]), bind_of_ok hn, bind_of_ok hns]
  rfl

end SmallScript.Syntax
