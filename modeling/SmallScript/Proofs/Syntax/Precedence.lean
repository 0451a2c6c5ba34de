import SmallScript.Proofs.Syntax.Programs

/-!
# Written expressions are parsed back

The parser reads the source text of an expression as one statement, and its tree is the expression's, positions
apart: `parse_source`.

The levels of the parser are numbered as those of expressions are: one to six for operators, seven for calls,
eight for members. `Reads k ts n` says that the parser of level `k`, in front of the tokens `ts`, comes to the
point where it has the tree `n` in hand and looks for more of its level behind the tokens. This is kept by each
step of a loop at that level, so left operands, callees and objects nest to the left; a parser that finds nothing
more hands the tree to the looser levels, `Reads.lower`.

All this is said of tokens without positions, which have trees without positions.
-/

namespace SmallScript.Syntax

open Parse List

variable {t : Token}

/-! ## Tokens for words -/

/-- The token with a text and a kind, without a position. -/
def Token.ofFace (f : String × TokenKind) : Token := ⟨f.1, f.2, .zero⟩

theorem face_ofFace (f : String × TokenKind) : (Token.ofFace f).face = f := rfl

def Word.token (w : Word) : Token := .ofFace w.face

def Mark.token (m : Mark) : Token := Word.token (.mark m)

def Expression.tokens (e : Expression) : List Token := e.words.map Word.token

theorem Token.kind_eq {v k} (h : t.face = (v, k)) : t.kind = k := congrArg Prod.snd h

theorem Token.value_eq {v k} (h : t.face = (v, k)) : t.value = v := congrArg Prod.fst h

/-! ## Levels -/

def operatorsAt (k : Nat) : List String := precedence.getD (k - 1) []

def parseAt (k f : Nat) : Parse Node :=
  if k = 8 then do parseMembers f (← parsePrimary f) else parseLevel f (precedence.drop (k - 1))

def goOnAt (k : Nat) (n : Node) (f : Nat) : Parse Node :=
  if k = 8 then parseMembers f n
  else if k = 7 then parseCalls f n
  else parseOperators f (operatorsAt k) (precedence.drop k) n

/-- The token does not continue an expression of the level or of a tighter one. -/
structure Stops (k : Nat) (t : Token) : Prop where
  member : k ≤ 8 → t.kind ≠ .dot ∧ t.kind ≠ .openBracket
  call : k ≤ 7 → t.kind ≠ .openParen
  operator : ∀ j, k ≤ j → 1 ≤ j → j ≤ 6 → t.value ∉ operatorsAt j
  assign : k = 0 → t.kind ≠ .colon ∧ t.kind ≠ .equals ∧ t.kind ≠ .assignmentOperator

theorem Stops.mono {k j} (h : Stops k t) (hkj : k ≤ j) : Stops j t where
  member hj := h.member (by omega)
  call hj := h.call (by omega)
  operator i hi := h.operator i (by omega)
  assign hj := h.assign (by omega)

theorem goOnAt_stop {k} (h : Stops k t) (hk : 1 ≤ k) (hk' : k ≤ 8) (n : Node) (rest : List Token) :
    Gives (goOnAt k n) (t :: rest) (.ok (n, t :: rest)) := by
  unfold goOnAt
  split
  · exact parseMembers_stop (h.member hk').1 (h.member hk').2
  · split
    · exact parseCalls_stop (h.call (by omega))
    · exact parseOperators_stop (h.operator k (by omega) hk (by omega))

theorem drop_precedence {k} (hk : 1 ≤ k) (hk' : k ≤ 6) :
    precedence.drop (k - 1) = operatorsAt k :: precedence.drop k := by
  have hlt : k - 1 < precedence.length := by
    show k - 1 < 6
    omega
  rw [drop_eq_getElem_cons hlt, operatorsAt, getD_eq_getElem?_getD, getElem?_eq_getElem hlt, Nat.sub_add_cancel hk]
  rfl

theorem parseAt_operators {k} (hk : k ≤ 7) : parseAt k = (parseLevel · (precedence.drop (k - 1))) := by
  funext f
  rw [parseAt, if_neg (by omega)]

theorem goOnAt_operators {k} (hk : k ≤ 6) (n : Node) :
    goOnAt k n = (parseOperators · (operatorsAt k) (precedence.drop k) n) := by
  funext f
  rw [goOnAt, if_neg (by omega), if_neg (by omega)]

/-! ## Reading tokens at a level -/

/-- In front of the tokens, the parser of the level comes to look for more of its level behind them, with the
tree in hand. -/
def Reads (k : Nat) (ts : List Token) (n : Node) : Prop :=
  ∀ (t : Token) (rest : List Token) (r : Except ParseFault (Node × List Token)), Stops (k + 1) t →
    Gives (goOnAt k n) (t :: rest) r → Gives (parseAt k) (ts ++ t :: rest) r

/-- The tokens are a whole expression. -/
def ReadsWhole (ts : List Token) (n : Node) : Prop :=
  ∀ (t : Token) (rest : List Token), Stops 0 t → Gives parseExpression (ts ++ t :: rest) (.ok (n, t :: rest))

variable {k : Nat} {ts : List Token} {n : Node}

/-- If nothing more of the level follows, the parser of the level is done. -/
theorem Reads.done (h : Reads k ts n) (hk : 1 ≤ k) (hk' : k ≤ 8) (ht : Stops k t) (rest : List Token) :
    Gives (parseAt k) (ts ++ t :: rest) (.ok (n, t :: rest)) :=
  h t rest _ (ht.mono (Nat.le_succ k)) (goOnAt_stop ht hk hk' n rest)

/-- What is read at one level is read at the next looser one. -/
theorem Reads.lower (h : Reads (k + 1) ts n) (hk : 1 ≤ k) (hk' : k ≤ 7) : Reads k ts n := by
  intro t rest r ht hgo
  have hparse := h.done (by omega) (by omega) ht rest
  by_cases h7 : k = 7
  · subst h7
    exact parseLevel_nil hparse hgo
  · rw [parseAt_operators (by omega)] at hparse
    rw [goOnAt_operators (by omega)] at hgo
    rw [parseAt_operators (by omega), drop_precedence hk (by omega)]
    exact parseLevel_cons hparse hgo

theorem Reads.lowerTo {j} (h : Reads j ts n) (hj : j ≤ 8) (hk : 1 ≤ k) (hkj : k ≤ j) : Reads k ts n := by
  induction hkj using Nat.decreasingInduction with
  | self => exact h
  | of_succ i hi ih => exact (ih (by omega)).lower hk (by omega)

theorem Reads.whole (h : Reads 1 ts n) : ReadsWhole ts n := by
  intro t rest ht
  obtain ⟨hcolon, hequals, hassign⟩ := ht.assign rfl
  exact parseExpression_plain (h.done (le_refl 1) (by omega) (ht.mono (Nat.zero_le 1)) rest) hcolon hequals hassign

/-- A phrase of the tightest level, if it is read in one go. -/
theorem Reads.of_primary (h : ∀ rest, Gives parsePrimary (ts ++ rest) (.ok (n, rest))) : Reads 8 ts n :=
  fun t rest _ _ hgo => (h (t :: rest)).bind hgo

theorem ReadsWhole.of_primary (h : ∀ rest, Gives parsePrimary (ts ++ rest) (.ok (n, rest))) : ReadsWhole ts n :=
  ((Reads.of_primary h).lowerTo (le_refl 8) (le_refl 1) (by omega)).whole

/-! ## What ends an expression -/

/-- The marks that end an expression. -/
def Mark.closes : Mark → Bool
  | .closeParen | .closeBracket | .closeBrace | .comma => true
  | _ => false

/-- A text is none of the operators of the levels from `k` on. -/
def looserThan (k : Nat) (text : String) : Bool :=
  (List.range 7).all fun j => j < k || j < 1 || !(operatorsAt j).contains text

theorem not_mem_operatorsAt {text} (h : looserThan k text = true) {j} (hkj : k ≤ j) (hj : 1 ≤ j)
    (hj' : j ≤ 6) : text ∉ operatorsAt j := by
  have hmem := all_eq_true.1 h j (mem_range.2 (by omega))
  have hk : decide (j < k) = false := decide_eq_false (by omega)
  have h1 : decide (j < 1) = false := decide_eq_false (by omega)
  rw [hk, h1] at hmem
  simpa using hmem

theorem Stops.of_face {text kind} (h : t.face = (text, kind)) (hloose : looserThan k text = true)
    (hmember : k ≤ 8 → kind ≠ .dot ∧ kind ≠ .openBracket) (hcall : k ≤ 7 → kind ≠ .openParen)
    (hassign : k = 0 → kind ≠ .colon ∧ kind ≠ .equals ∧ kind ≠ .assignmentOperator) : Stops k t := by
  rw [← Token.kind_eq h] at hmember hcall hassign
  refine ⟨hmember, hcall, fun j hj hj' hj'' => ?_, hassign⟩
  rw [Token.value_eq h]
  exact not_mem_operatorsAt hloose hj hj' hj''

theorem stops_mark {m : Mark} (hm : m.closes = true) : Stops 0 m.token := by
  cases m with
  | closeParen | closeBracket | closeBrace | comma =>
    exact .of_face (face_ofFace _) (by decide) (by decide) (by decide) (by decide)
  | _ => cases hm

theorem stops_end (q : Place) : Stops 0 (endToken q) := have h : (endToken q).face = endFace := rfl
  .of_face h (by decide) (by decide) (by decide) (by decide)

/-- An operator ends expressions of the tighter levels. -/
theorem stops_operator (op : Operator) : Stops (op.level + 1) (Word.token (.operator op)) := by
  have hloose : looserThan (op.level + 1) op.text = true := by
    cases op <;> decide
  exact .of_face (face_ofFace _) hloose (fun _ => by decide) (fun _ => by decide)
    fun h0 => absurd h0 (Nat.succ_ne_zero _)

/-- The sign of an assignment ends expressions of all levels but the loosest. -/
theorem stops_assign (op : Option Compound) : Stops 1 (Word.token (.assign op)) := by
  cases op with
  | none => exact .of_face (face_ofFace _) (by decide) (by decide) (by decide) (by decide)
  | some op =>
    have hloose : looserThan 1 op.text = true := by
      cases op <;> decide
    exact .of_face (face_ofFace _) hloose (by decide) (by decide) (by decide)

theorem stops_openParen (h : t.kind = .openParen) : Stops 8 t where
  member _ := by
    rw [h]
    decide
  call hk := absurd hk (by decide)
  operator j hj _ hj' := by omega
  assign hk := absurd hk (by decide)

/-- Nothing goes on behind the tightest level. -/
theorem stops_any (t : Token) : Stops 9 t where
  member hk := absurd hk (by decide)
  call hk := absurd hk (by decide)
  operator j hj _ hj' := by omega
  assign hk := absurd hk (by decide)

/-! ## Groups -/

theorem ReadsWhole.inGroup (h : ReadsWhole ts n) :
    Reads 8 (Mark.openParen.token :: (ts ++ [Mark.closeParen.token])) n := by
  refine .of_primary fun rest => ?_
  rw [cons_append, append_assoc]
  exact parsePrimary_group rfl rfl (h _ rest (stops_mark rfl))

/-- An expression that is read as a whole, and at its own level if that is not the loosest. -/
structure Readable (e : Expression) : Prop where
  whole : ReadsWhole e.tokens e.node
  level : 1 ≤ e.level → Reads e.level e.tokens e.node

theorem Expression.level_le (e : Expression) : e.level ≤ 8 := by
  cases e with
  | binary l op r =>
    show op.level ≤ 8
    cases op <;> decide
  | _ => first | exact le_refl 8 | exact Nat.le_succ 7 | exact Nat.zero_le 8

/-- An expression is read at every place, in parentheses if the place requires that. -/
theorem Readable.atPlace {e} (h : Readable e) (hk : 1 ≤ k) (hk' : k ≤ 8) :
    Reads k ((place k e.level e.words).map Word.token) e.node := by
  unfold place
  split
  · rw [group, map_append]
    exact h.whole.inGroup.lowerTo (le_refl 8) hk hk'
  · next hle =>
    have hle : k ≤ e.level := Nat.le_of_not_lt hle
    exact (h.level (by omega)).lowerTo e.level_le hk hle

/-- Expressions that are read at their own level are read as a whole. -/
theorem Readable.of_level {e} (hlevel : e.level = k) (hk : 1 ≤ k) (h : Reads k e.tokens e.node) : Readable e := by
  subst hlevel
  exact ⟨(h.lowerTo e.level_le (le_refl 1) hk).whole, fun _ => h⟩

/-- Expressions of the tightest level, if they are read in one go. -/
theorem Readable.of_primary {e} (hlevel : e.level = 8)
    (h : ∀ rest, Gives parsePrimary (e.tokens ++ rest) (.ok (e.node, rest))) : Readable e :=
  .of_level hlevel (by omega) (.of_primary h)

/-! ## The tokens that open expressions -/

theorem kind_ne_of_opens (h : t.kind.opensExpression = true) {k} (hk : k.opensExpression = false) : t.kind ≠ k := by
  rintro rfl
  rw [h] at hk
  cases hk

theorem exists_opener (e : Expression) : ∃ t us, e.tokens = t :: us ∧ t.kind.opensExpression = true := by
  obtain ⟨w, ws, hwords, hw⟩ := e.words_head
  refine ⟨w.token, ws.map Word.token, by rw [Expression.tokens, hwords, map_cons], ?_⟩
  cases w with
  | name | numeral | string => rfl
  | mark m =>
    cases m with
    | openParen | openBracket | openBrace => rfl
    | _ => cases hw
  | operator | assign => cases hw

/-! ## Lists of phrases -/

/-- Phrases with a comma in front of each. -/
def moreTokens (items : List (List Token × Node)) : List Token := items.flatMap fun i => Mark.comma.token :: i.1

/-- Behind a phrase of a list comes a comma, or what ends the list. -/
theorem more_head (items : List (List Token × Node)) {c} (hc : Stops 0 c) (rest : List Token) :
    ∃ d ds, moreTokens items ++ c :: rest = d :: ds ∧ Stops 0 d := by
  cases items with
  | nil => exact ⟨c, rest, rfl, hc⟩
  | cons i items => exact ⟨Mark.comma.token, _, rfl, stops_mark rfl⟩

/-- A loop over phrases behind commas finds them all. -/
theorem more_reads {more c} (hc : Stops 0 c) (hstop : ∀ rest, Gives more (c :: rest) (.ok ([], c :: rest)))
    (hcons : ∀ {ts n us ns rest}, Gives parseExpression ts (.ok (n, us)) → Gives more us (.ok (ns, rest)) →
      Gives more (Mark.comma.token :: ts) (.ok (n :: ns, rest)))
    {items} (h : ∀ i ∈ items, ReadsWhole i.1 i.2) (rest : List Token) :
    Gives more (moreTokens items ++ c :: rest) (.ok (items.map (·.2), c :: rest)) := by
  induction items with
  | nil => exact hstop rest
  | cons i items ih =>
    rw [forall_mem_cons] at h
    obtain ⟨d, ds, hnext, hd⟩ := more_head items hc rest
    have hmore := ih h.2
    rw [hnext] at hmore
    rw [moreTokens, flatMap_cons, cons_append, cons_append, append_assoc, ← moreTokens, hnext]
    exact hcons (h.1 d ds hd) hmore

section

variable {i : List Token × Node} {items : List (List Token × Node)} (h : ∀ j ∈ i :: items, ReadsWhole j.1 j.2)
  {v : Token} {vs : List Token} (hi : i.1 = v :: vs)
include h hi

theorem array_reads (hv : v.kind ≠ .closeBracket) (rest : List Token) :
    Gives parsePrimary (Mark.openBracket.token :: (i.1 ++ (moreTokens items ++ Mark.closeBracket.token :: rest)))
      (.ok (.array .zero ((i :: items).map (·.2)), rest)) := by
  rw [forall_mem_cons] at h
  have hc : Stops 0 Mark.closeBracket.token := stops_mark rfl
  obtain ⟨d, ds, hnext, hd⟩ := more_head items hc rest
  have hmore := more_reads hc (fun _ => parseMoreElements_stop (by decide)) (parseMoreElements_cons rfl) h.2 rest
  have hfirst := h.1 d ds hd
  rw [hnext] at hmore ⊢
  rw [hi] at hfirst ⊢
  exact parsePrimary_array rfl (parseArray_cons rfl hv hfirst hmore rfl)

theorem arguments_reads (hv : v.kind ≠ .closeParen) (rest : List Token) :
    Gives parseArguments (Mark.openParen.token :: (i.1 ++ (moreTokens items ++ Mark.closeParen.token :: rest)))
      (.ok ((i :: items).map (·.2), rest)) := by
  rw [forall_mem_cons] at h
  have hc : Stops 0 Mark.closeParen.token := stops_mark rfl
  obtain ⟨d, ds, hnext, hd⟩ := more_head items hc rest
  have hmore := more_reads hc (fun _ => parseMoreArguments_stop (by decide) (by decide)) (parseMoreArguments_cons rfl) h.2
    rest
  have hfirst := h.1 d ds hd
  rw [hnext] at hmore ⊢
  rw [hi] at hfirst ⊢
  exact parseArguments_cons rfl hv hfirst hmore rfl

end

/-! ## Properties -/

/-- A property of an object literal: a key, and the tokens and the tree of its value, if it has one. -/
abbrev KeyItem := String × Option (List Token × Node)

def KeyItem.tokens (p : KeyItem) : List Token :=
  .ofFace (p.1, .identifier) :: (p.2.map fun v => Mark.colon.token :: v.1).getD []

def KeyItem.node (p : KeyItem) : Node := .property .zero p.1 ((p.2.map (·.2)).getD .absent)

theorem properties_reads {p ps} (h : ∀ q ∈ p :: ps, ∀ v ∈ q.2, ReadsWhole v.1 v.2) (rest : List Token) :
    Gives parseProperties
      (p.tokens ++ ((ps.flatMap fun q => Mark.comma.token :: q.tokens) ++ Mark.closeBrace.token :: rest))
      (.ok ((p :: ps).map KeyItem.node, Mark.closeBrace.token :: rest)) := by
  have hstop : Gives parseProperties (Mark.closeBrace.token :: rest) _ := parseProperties_stop rfl
  obtain ⟨key, value⟩ := p
  induction ps generalizing key value with
  | nil =>
    cases value with
    | none => exact parseProperties_lastShort rfl rfl hstop
    | some v =>
      have hv := h _ (.head _) v rfl Mark.closeBrace.token rest (stops_mark rfl)
      exact parseProperties_lastFull rfl rfl hv rfl hstop
  | cons q ps ih =>
    rw [forall_mem_cons] at h
    have hmore := ih q.1 q.2 h.2
    rw [flatMap_cons, cons_append, cons_append, append_assoc]
    cases value with
    | none => exact parseProperties_short rfl rfl hmore
    | some v =>
      exact parseProperties_full rfl rfl (h.1 v rfl Mark.comma.token _ (stops_mark rfl)) rfl hmore

theorem object_reads {p ps} (h : ∀ q ∈ p :: ps, ∀ v ∈ q.2, ReadsWhole v.1 v.2) (rest : List Token) :
    Gives parsePrimary (Mark.openBrace.token ::
      (p.tokens ++ ((ps.flatMap fun q => Mark.comma.token :: q.tokens) ++ Mark.closeBrace.token :: rest)))
      (.ok (.object .zero ((p :: ps).map KeyItem.node), rest)) :=
  parsePrimary_object rfl rfl (properties_reads h rest)

/-! ## Expressions, one form after the other -/

/-- The tokens and the tree of an expression. -/
def Expression.item (e : Expression) : List Token × Node := (e.tokens, e.node)

/-- A property of an object literal as an entry. -/
def Property.entry : Property → KeyItem
  | .short key => (key.text, none)
  | .full key value => (key.text, some value.item)

/-- The value of a property, if it has one, is read as a whole. -/
def Property.Readable (p : Property) : Prop := ∀ v ∈ p.entry.2, ReadsWhole v.1 v.2

theorem Expression.pos_node (e : Expression) : e.node.pos = .zero := by
  cases e <;> rw [node] <;> rfl

theorem nodes_eq (es : List Expression) : nodes es = (es.map Expression.item).map (·.2) := by
  induction es with
  | nil => rw [nodes]; rfl
  | cons e es ih => rw [nodes, ih]; rfl

theorem moreWords_tokens (es : List Expression) :
    (moreWords es).map Word.token = moreTokens (es.map Expression.item) := by
  induction es with
  | nil => rw [moreWords]; rfl
  | cons e es ih => rw [moreWords, map_append, ih]; rfl

theorem propertyNodes_eq (ps : List Property) : propertyNodes ps = (ps.map Property.entry).map KeyItem.node := by
  induction ps with
  | nil => rw [propertyNodes]; rfl
  | cons p ps ih => cases p <;> rw [propertyNodes, ih] <;> rfl

theorem Property.tokens_words (p : Property) : p.words.map Word.token = p.entry.tokens := by
  cases p <;> rw [words] <;> rfl

theorem morePropertyWords_tokens (ps : List Property) :
    (morePropertyWords ps).map Word.token = (ps.map Property.entry).flatMap fun q => Mark.comma.token :: q.tokens := by
  induction ps with
  | nil => rw [morePropertyWords]; rfl
  | cons p ps ih =>
    rw [morePropertyWords, map_append, map_cons, p.tokens_words, ih]
    rfl

theorem readable_name (p : Name) : Readable (.name p) := by
  refine .of_primary rfl fun rest => ?_
  exact parsePrimary_name rfl

theorem readable_numeral (p : Numeral) : Readable (.numeral p) := by
  refine .of_primary rfl fun rest => ?_
  exact parsePrimary_number rfl (numberValue?_numeral p)

theorem readable_string (s : Content) : Readable (.string s) := by
  refine .of_primary rfl fun rest => ?_
  exact parsePrimary_string rfl

theorem readable_array {es} (h : ∀ e ∈ es, Readable e) : Readable (.array es) := by
  refine .of_primary rfl fun rest => ?_
  rw [Expression.tokens, Expression.words, Expression.node, nodes_eq]
  cases es with
  | nil =>
    exact parsePrimary_array rfl (parseArray_empty rfl rfl)
  | cons e es =>
    obtain ⟨v, vs, hi, hv⟩ := exists_opener e
    rw [listWords, cons_append, map_cons, map_append, map_append, moreWords_tokens]
    simp only [append_assoc, cons_append]
    exact array_reads (i := e.item) (forall_mem_map.2 fun e he => (h e he).whole) hi (kind_ne_of_opens hv rfl) rest

theorem readable_object {ps} (h : ∀ p ∈ ps, p.Readable) : Readable (.object ps) := by
  refine .of_primary rfl fun rest => ?_
  rw [Expression.tokens, Expression.words, Expression.node, propertyNodes_eq]
  cases ps with
  | nil =>
    exact parsePrimary_object rfl rfl (parseProperties_stop rfl)
  | cons p ps =>
    rw [propertyWords, cons_append, map_cons, map_append, map_append, p.tokens_words, morePropertyWords_tokens]
    simp only [append_assoc, cons_append]
    exact object_reads (forall_mem_map (l := p :: ps).2 h) rest

theorem readable_member {o} (ho : Readable o) (p : Name) : Readable (.member o p) := by
  refine .of_level (k := 8) rfl (by omega) fun t rest r _ hgo => ?_
  rw [Expression.tokens, Expression.words, map_append, append_assoc]
  refine ho.atPlace (by omega) (le_refl 8) _ _ r (stops_any _) (parseMembers_dot rfl rfl ?_)
  rwa [o.pos_node]

theorem readable_index {o key} (ho : Readable o) (hkey : Readable key) : Readable (.index o key) := by
  refine .of_level (k := 8) rfl (by omega) fun t rest r _ hgo => ?_
  rw [Expression.tokens, Expression.words]
  simp only [map_append, map_cons, append_assoc]
  have hend := hkey.whole Mark.closeBracket.token (t :: rest) (stops_mark rfl)
  refine ho.atPlace (by omega) (le_refl 8) _ _ r (stops_any _) (parseMembers_index rfl hend rfl ?_)
  rwa [o.pos_node]

theorem readable_call {c} (hc : Readable c) {es} (h : ∀ e ∈ es, Readable e) : Readable (.call c es) := by
  refine .of_level (k := 7) rfl (by omega) fun t rest r _ hgo => ?_
  rw [Expression.node, nodes_eq] at hgo
  rw [Expression.tokens, Expression.words]
  have hlist : Gives parseArguments (Mark.openParen.token :: ((listWords es).map Word.token ++
      Mark.closeParen.token :: t :: rest)) (.ok ((es.map Expression.item).map (·.2), t :: rest)) := by
    cases es with
    | nil =>
      exact parseArguments_empty rfl rfl
    | cons e es =>
      obtain ⟨v, vs, hi, hv⟩ := exists_opener e
      rw [listWords, map_append, moreWords_tokens, append_assoc]
      exact arguments_reads (i := e.item) (forall_mem_map.2 fun e he => (h e he).whole) hi
        (kind_ne_of_opens hv rfl) (t :: rest)
  simp only [map_append, map_cons, append_assoc]
  refine hc.atPlace (by omega) (by omega) _ _ r (stops_openParen rfl) (parseCalls_call rfl hlist ?_)
  rwa [c.pos_node]

theorem Operator.level_bounds (op : Operator) : 1 ≤ op.level ∧ op.level ≤ 6 := by
  cases op <;> decide

theorem Operator.mem_operatorsAt (op : Operator) : op.text ∈ operatorsAt op.level := by
  cases op <;> decide

theorem readable_binary {l r} (hl : Readable l) (op : Operator) (hr : Readable r) : Readable (.binary l op r) := by
  obtain ⟨hlow, hhigh⟩ := op.level_bounds
  refine .of_level (k := op.level) rfl hlow fun t rest x ht hgo => ?_
  rw [goOnAt_operators hhigh] at hgo
  rw [Expression.tokens, Expression.words, map_append, append_assoc]
  have hright := (hr.atPlace (by omega) (by omega)).done (by omega) (by omega) ht rest
  rw [parseAt_operators (by omega)] at hright
  refine hl.atPlace hlow (by omega) _ _ x (stops_operator op) ?_
  rw [goOnAt_operators hhigh]
  refine parseOperators_operator op.mem_operatorsAt hright ?_
  rwa [l.pos_node]

theorem readable_assign {l r} (hl : Readable l) (op : Option Compound) (hr : Readable r) :
    Readable (.assign l op r) := by
  refine ⟨fun t rest ht => ?_, fun h => absurd h (by simp [Expression.level])⟩
  rw [Expression.tokens, Expression.words, map_append, append_assoc]
  have hleft := (hl.atPlace (le_refl 1) (by omega)).done (le_refl 1) (by omega) (stops_assign op)
    (r.tokens ++ t :: rest)
  have hright := hr.whole t rest ht
  cases op with
  | none =>
    obtain ⟨v, vs, hi, hv⟩ := exists_opener r
    show Gives parseExpression (_ ++ _ :: (r.tokens ++ _)) _
    rw [hi] at hleft hright ⊢
    have hassign := parseExpression_assign hleft rfl (kind_ne_of_opens hv rfl) hright
    rwa [l.pos_node] at hassign
  | some op =>
    have hassign := parseExpression_compound hleft rfl hright
    rwa [l.pos_node] at hassign

/-! ## All expressions -/

mutual

theorem Expression.readable : ∀ e : Expression, Readable e
  | .name p => readable_name p
  | .numeral p => readable_numeral p
  | .string s => readable_string s
  | .array es => readable_array (readable_list es)
  | .object ps => readable_object (readable_properties ps)
  | .member o p => readable_member o.readable p
  | .index o key => readable_index o.readable key.readable
  | .call c es => readable_call c.readable (readable_list es)
  | .binary l op r => readable_binary l.readable op r.readable
  | .assign l op r => readable_assign l.readable op r.readable

theorem readable_list : ∀ es : List Expression, ∀ e ∈ es, Readable e
  | [] => fun _ he => absurd he not_mem_nil
  | e :: es => List.forall_mem_cons.2 ⟨e.readable, readable_list es⟩

theorem readable_properties : ∀ ps : List Property, ∀ p ∈ ps, p.Readable
  | [] => fun _ hp => absurd hp not_mem_nil
  | p :: ps => List.forall_mem_cons.2 ⟨p.readable, readable_properties ps⟩

theorem Property.readable : ∀ p : Property, p.Readable
  | .short _ => fun _ hv => nomatch hv
  | .full _ value => fun _ hv => Option.some.inj hv ▸ value.readable.whole

end

/-- A source text whose tokens are read as an expression is parsed as one statement. -/
theorem parse_of_expression {source us q}
    (htokens : tokenize source = .ok (us ++ [endToken q])) (hfaces : ts.map Token.face = us.map Token.face)
    (hopener : ∃ t vs, ts = t :: vs ∧ t.kind.opensExpression = true) (hkeep : keepStatement n [] = [n])
    (h : ReadsWhole ts n) : ∃ m, parse source = .ok (.program .zero [m]) ∧ m.bare = n.bare := by
  have hexpression := h (endToken q) [] (stops_end q)
  obtain ⟨t, vs, rfl, ht⟩ := hopener
  have hstatement : Gives parseStatement (t :: (vs ++ [endToken q])) (.ok (n, [endToken q])) :=
    hexpression.step fun f hf => (parseStatement_expression ht).trans hf
  have hstatements := parseStatements_cons (kind_ne_of_opens ht rfl) hstatement (parseStatements_stop rfl)
  obtain ⟨ns, hparse, hbare⟩ := parse_of_gives htokens hfaces hstatements
  rw [hkeep] at hbare
  cases ns with
  | nil => cases hbare
  | cons m ns =>
    obtain ⟨hm, hns⟩ := cons.inj hbare
    cases ns with
    | nil => exact ⟨m, hparse, hm⟩
    | cons => cases hns

/-- No expression is parsed as a lone semicolon. -/
theorem keepStatement_expression (e : Expression) : keepStatement e.node [] = [e.node] := by
  cases e <;> rw [Expression.node] <;> rfl

mutual

theorem Expression.bare_node : ∀ e : Expression, e.node.bare = e.node
  | .name _ | .numeral _ | .string _ => by simp
  | .array es => by simp [bare_nodes es]
  | .object ps => by simp [bare_propertyNodes ps]
  | .member o _ => by simp [o.bare_node]
  | .index o key => by simp [o.bare_node, key.bare_node]
  | .call c es => by simp [c.bare_node, bare_nodes es]
  | .binary l _ r => by simp [l.bare_node, r.bare_node]
  | .assign l _ r => by simp [l.bare_node, r.bare_node]

theorem bare_nodes : ∀ es : List Expression, bareList (nodes es) = nodes es
  | [] => by simp
  | e :: es => by simp [e.bare_node, bare_nodes es]

theorem bare_propertyNodes : ∀ ps : List Property, bareList (propertyNodes ps) = propertyNodes ps
  | [] => by simp
  | .short _ :: ps => by simp [bare_propertyNodes ps]
  | .full _ value :: ps => by simp [value.bare_node, bare_propertyNodes ps]

end

/-- A source text with the tokens of an expression is parsed as that expression. -/
theorem parse_of_words {source q} (e : Expression)
    (htokens : tokenize source = .ok (ts ++ [endToken q])) (hts : ts.map Token.face = e.words.map Word.face) :
    ∃ m, parse source = .ok (.program .zero [m]) ∧ m.bare = e.node := by
  have hfaces : e.tokens.map Token.face = ts.map Token.face := by
    rw [hts, Expression.tokens, map_map]
    rfl
  have hparse := parse_of_expression htokens hfaces (exists_opener e) (keepStatement_expression e) e.readable.whole
  rwa [e.bare_node] at hparse

/-- The source text of an expression is parsed as one statement, which is the expression up to positions. -/
theorem parse_source (e : Expression) : ∃ m, parse e.source = .ok (.program .zero [m]) ∧ m.bare = e.node := by
  obtain ⟨ts, q, htokens, hts⟩ := tokenize_source e
  exact parse_of_words e htokens hts

end SmallScript.Syntax
