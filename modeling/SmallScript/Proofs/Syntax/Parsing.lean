import SmallScript.Proofs.Syntax.Outcome

/-!
# Every phrase the parser reads

The rules of `Follows` applied to the functions of the parser, by induction on the bound on the depth of their
recursion. Every one that stopped at the end of a program stops in front of a fresh token too. Only the functions for
what stands between braces do something else at the end: they stop there, but the brace is then missing. The result for
a whole program is `statements_agree`.
-/

namespace SmallScript.Syntax

open Evaluate (compoundOperators)
open Parse List Node

/-! ## Tokens that begin nothing -/

/-- The kinds of the tokens that no statement begins with. -/
def refusedKinds : List TokenKind := [
  .eof, .else_, .in_, .as_, .assignmentOperator, .closeParen, .closeBrace, .closeBracket, .doubleQuote, .equals, .comma,
  .colon, .dot]

theorem Token.IsEnd.refused {e : Token} (he : e.IsEnd) : e.kind ∈ refusedKinds := by
  rw [show e.kind = .eof from congrArg Prod.snd he]
  decide

section Refused

variable {t : Token} (ht : t.kind ∈ refusedKinds) (ts : List Token)
include ht

theorem parsePrimary_refused (f : Nat) : ∃ x, parsePrimary f (t :: ts) = .error x := by
  cases f with
  | zero =>
    exact ⟨_, rfl⟩
  | succ f =>
    rw [parsePrimary, peek_bind]
    simp only [refusedKinds, mem_cons, not_mem_nil, or_false] at ht
    rcases ht with ht | ht | ht | ht | ht | ht | ht | ht | ht | ht | ht | ht | ht <;> rw [ht] <;> exact ⟨_, rfl⟩

theorem parseLevel_refused (f : Nat) (levels : List (List String)) : ∃ x, parseLevel f levels (t :: ts) = .error x := by
  induction f generalizing levels with
  | zero =>
    exact ⟨_, rfl⟩
  | succ f ih =>
    cases levels with
    | nil =>
      cases f with
      | zero =>
        exact ⟨_, rfl⟩
      | succ f =>
        obtain ⟨x, hx⟩ := parsePrimary_refused ht ts f
        exact ⟨x, bind_of_error hx _⟩
    | cons ops tighter =>
      obtain ⟨x, hx⟩ := ih tighter
      rw [parseLevel]
      exact ⟨x, bind_of_error hx _⟩

theorem parseExpression_refused (f : Nat) : ∃ x, parseExpression f (t :: ts) = .error x := by
  cases f with
  | zero =>
    exact ⟨_, rfl⟩
  | succ f =>
    obtain ⟨x, hx⟩ := parseLevel_refused ht ts f precedence
    exact ⟨x, bind_of_error hx _⟩

theorem parseStatement_refused (f : Nat) : ∃ x, parseStatement f (t :: ts) = .error x := by
  cases f with
  | zero =>
    exact ⟨_, rfl⟩
  | succ f =>
    obtain ⟨x, hx⟩ := parseExpression_refused ht ts f
    rw [parseStatement, peek_bind]
    simp only [refusedKinds, mem_cons, not_mem_nil, or_false] at ht
    rcases ht with ht | ht | ht | ht | ht | ht | ht | ht | ht | ht | ht | ht | ht <;> rw [ht] <;> exact ⟨x, hx⟩

end Refused

/-! ## Expressions -/

attribute [local grind] Node.mapText mapTexts bare bareList Genuine AllGenuine Node.isSemicolon
  Number.Numeric.Plain
attribute [local grind =] Node.mapText_pos
attribute [local grind cases] Near Like LikeLists
attribute [local grind →] Token.Meets.of_exact Token.Twin.pos Token.Twin.kind Token.Twin.value Token.Twin.text Token.Twin.name
  Token.Twin.unquoted
attribute [local grind =] Course.text_eq

variable {c : Course} {f g : Nat}

/-- Trees that are alike come of a function. -/
def TreeAgrees (c : Course) (f g spare least : Nat) (p : Nat → Parse Node) : Prop :=
  Agrees c none (Like c) (fun n => n.texts.count c.word) f spare least 0 0 False (p f) (p g)

/-- Trees that are alike come of a function that goes on with such trees. -/
def LoopAgrees (c : Course) (f g spare : Nat) (p : Nat → Node → Parse Node) : Prop :=
  ∀ n m : Node, n.Like c m →
    Agrees c none (Like c) (fun n => n.texts.count c.word) f spare 0 (n.texts.count c.word) 0 False (p f n) (p g m)

def TreesAgree (c : Course) (f g spare least : Nat) (cut : Prop) (p : Nat → Parse (List Node)) : Prop :=
  Agrees c none (LikeLists c) (fun ns => (textsOf ns).count c.word) f spare least 0 0 cut (p f) (p g)

section Expressions

/-- What comes of the functions for expressions, when the bound leaves sixteen calls for each token and some for the
functions that are called before one is taken. -/
structure ExpressionsAgree (c : Course) (f g : Nat) : Prop where
  expression : TreeAgrees c f g 11 1 parseExpression
  level : ∀ levels, levels.length ≤ 6 → (∀ ops ∈ levels, c.Reads ops) →
    TreeAgrees c f g (levels.length + 4) 1 (parseLevel · levels)
  operators : ∀ ops tighter, tighter.length ≤ 6 → (∀ ops' ∈ ops :: tighter, c.Reads ops') →
    LoopAgrees c f g 1 (parseOperators · ops tighter)
  callMember : TreeAgrees c f g 3 1 parseCallMember
  members : LoopAgrees c f g 1 parseMembers
  calls : LoopAgrees c f g 2 parseCalls
  arguments : TreesAgree c f g 1 1 False parseArguments
  moreArguments : TreesAgree c f g 1 0 False parseMoreArguments
  primary : TreeAgrees c f g 2 1 parsePrimary
  array : TreeAgrees c f g 1 1 parseArray
  moreElements : TreesAgree c f g 1 0 False parseMoreElements
  properties : TreesAgree c f g 1 0 True parseProperties

theorem ExpressionsAgree.zero : ExpressionsAgree c 0 g := by
  constructor <;> simp only [TreeAgrees, LoopAgrees, TreesAgree] <;> intros <;> refine .deep fun ts => ?_ <;>
    simp only [parseExpression, parseLevel, parseOperators, parseCallMember, parseMembers, parseCalls, parseArguments,
      parseMoreArguments, parsePrimary, parseArray, parseMoreElements, parseProperties] <;> rfl

variable (h : ExpressionsAgree c f g)
include h

mutual

theorem array_agrees : TreeAgrees c (f + 1) (g + 1) 1 1 parseArray := by
  rw [TreeAgrees, parseArray, parseArray]
  refine .call (.expect fun t u _ htwin => .atKind fun b => .ite Iff.rfl (fun _ => ?_) fun _ => ?_)
  · rw [pure_bind, pure_bind]
    exact .expect fun _ _ _ _ => .pure
  · refine .bind h.expression fun n m hn => .bind h.moreElements fun ns ms hns => ?_
    rw [pure_bind, pure_bind]
    exact .expect fun _ _ _ _ => .pure

theorem moreElements_agree : TreesAgree c (f + 1) (g + 1) 1 0 False parseMoreElements := by
  rw [TreesAgree, parseMoreElements, parseMoreElements]
  exact .call (.option (.bind h.expression fun n m hn => .bind h.moreElements fun ns ms hns => .pure) .pure)

theorem arguments_agree : TreesAgree c (f + 1) (g + 1) 1 1 False parseArguments := by
  rw [TreesAgree, parseArguments, parseArguments]
  refine .call (.expect fun t u _ _ => .atKind fun b => .ite Iff.rfl (fun _ => ?_) fun _ => ?_)
  · rw [pure_bind]
    exact .expect fun _ _ _ _ => .pure
  · refine .bind h.expression fun n m hn => .bind h.moreArguments fun ns ms hns => ?_
    rw [pure_bind, pure_bind]
    exact .expect fun _ _ _ _ => .pure

theorem moreArguments_agree : TreesAgree c (f + 1) (g + 1) 1 0 False parseMoreArguments := by
  rw [TreesAgree, parseMoreArguments, parseMoreArguments]
  refine .call (.peek fun t u hh => .ite hh.kind_iff (fun ht => .take ht (.bind h.expression fun n m hn => ?_)) fun _ =>
    .ite hh.kind_iff (fun ht => .skip ht ?_ h.moreArguments.weaken) fun _ => .pure)
  · exact .bind h.moreArguments fun ns ms hns => .pure
  · cases f with
    | zero =>
      rw [parseMoreArguments]
      exact .inr rfl
    | succ f =>
      rw [parseMoreArguments]
      exact .inl rfl

theorem calls_agree : LoopAgrees c (f + 1) (g + 1) 2 parseCalls := by
  intro n m hn
  rw [parseCalls, parseCalls]
  refine .call (.atKind fun b => .ite Iff.rfl (fun _ => .bind h.arguments fun ns ms hns => ?_) fun _ => .pure hn (Nat.le_refl _))
  exact (h.calls _ _ (by constructor <;> grind)).weaken

theorem members_agree : LoopAgrees c (f + 1) (g + 1) 1 parseMembers := by
  intro n m hn
  rw [parseMembers, parseMembers]
  refine .call (.peek fun t u hh => .ite hh.kind_iff (fun ht => .take ht (.bind h.primary fun n' m' hn' => ?_)) fun _ =>
    .ite hh.kind_iff (fun ht => .take ht (.bind h.expression fun n' m' hn' => ?_)) fun _ => .pure hn (Nat.le_refl _))
  · refine .ite (by rw [hn'.near.name?]) (fun _ => .failHere) fun hname => ?_
    have hidentifier (hc : ¬ c.exact) := (hn'.genuine hc).isIdentifier (Bool.eq_false_iff.2 hname)
    exact (h.members _ _ (by constructor <;> grind)).weaken
  · exact .expect fun _ _ _ _ => (h.members _ _ (by constructor <;> grind)).weaken

theorem callMember_agrees : TreeAgrees c (f + 1) (g + 1) 3 1 parseCallMember := by
  rw [TreeAgrees, parseCallMember, parseCallMember]
  exact .call (.bind h.primary fun n m hn => .bind (h.members n m hn) fun n' m' hn' => (h.calls n' m' hn').weaken)

theorem operators_agree {ops : List String} {tighter : List (List String)} (htighter : tighter.length ≤ 6)
    (hops : ∀ ops' ∈ ops :: tighter, c.Reads ops') : LoopAgrees c (f + 1) (g + 1) 1 (parseOperators · ops tighter) := by
  obtain ⟨hreads, hmore⟩ := List.forall_mem_cons.1 hops
  intro n m hn
  dsimp only
  rw [parseOperators, parseOperators]
  refine .call (.peek fun t u hh => .ite (hh.value_iff hreads) (fun ht => ?_) fun _ => .pure hn (Nat.le_refl _))
  have htwin := hh.twin_of_value hreads ht
  have hvalue : u.value = t.value := (congrArg Prod.fst htwin.face).trans (hreads.spares.value_eq ht)
  have hknown (hc : ¬ c.exact) := hreads.known hc _ ht
  refine .advance (e := 0) htwin (fun hc => Int.le_of_eq ((htwin.sound hc).operator (hknown hc))) ?_
  refine .bind (h.level tighter htighter hmore) fun n' m' hn' => ?_
  exact (h.operators ops tighter htighter hops _ _ (by constructor <;> grind)).weaken

theorem level_agrees {levels : List (List String)} (hlevels : levels.length ≤ 6) (hops : ∀ ops ∈ levels, c.Reads ops) :
    TreeAgrees c (f + 1) (g + 1) (levels.length + 4) 1 (parseLevel · levels) := by
  unfold TreeAgrees
  dsimp only
  cases levels with
  | nil =>
    rw [parseLevel, parseLevel]
    exact .call h.callMember
  | cons ops tighter =>
    rw [length_cons] at hlevels ⊢
    rw [parseLevel, parseLevel]
    refine .call (.bind (h.level tighter (by omega) (List.forall_mem_cons.1 hops).2) fun n m hn => ?_)
    exact (h.operators ops tighter (by omega) hops n m hn).weaken

theorem expression_agrees : TreeAgrees c (f + 1) (g + 1) 11 1 parseExpression := by
  have hvalue (n m : Node) (hn : n.Like c m) (op : Option String) (hop : ¬ c.exact → ∀ o ∈ op, o ∈ compoundOperators) :
      Agrees c none (Like c) (fun n => n.texts.count c.word) f 42 0 (n.texts.count c.word) 0 False
        (parseExpression f >>= fun value => pure (.assignment n.pos n value op))
        (parseExpression g >>= fun value => pure (.assignment m.pos m value op)) :=
    .bind h.expression fun n' m' hn' => .pure
  have hprecedence : precedence.length = 6 := rfl
  rw [TreeAgrees, parseExpression, parseExpression]
  refine .call (.bind (h.level precedence (by omega) fun _ => c.reads) fun n m hn => .skipTypeHint (.peek fun t u hh => ?_))
  refine .ite hh.kind_iff (fun ht => .of_front fun ts us hb hmore => ?_) fun _ =>
    .ite hh.kind_iff (fun ht => ?_) fun _ => .pure hn (by omega)
  · have hb' := hmore (hh.twin ht)
    rw [advance_bind, advance_bind]
    rcases hb'.nil_or_cons with ⟨hc, rfl, rfl⟩ | ⟨second, ts, second', us, rfl, rfl, hsecond⟩
    · exact .error ParseFault.noConfusion (fun _ => rfl) (absurd hc)
    rw [peek_bind, peek_bind]
    by_cases hequals : second.kind = .equals
    · -- the first sign is put back
      rw [if_pos hequals, if_pos (hsecond.kind_iff.1 hequals)]
      exact .ok [] rfl (Nat.le_refl 0) (by omega) (fun _ => .nil (by decide)) hb hn
    · rw [if_neg hequals, if_neg fun h' => hequals (hsecond.kind_iff.2 h')]
      exact Agrees.run_kind (.weaken (hvalue n m hn none (by simp)) (by omega)) ht hb'
  · have htwin := hh.twin ht
    rw [htwin.value (by rw [ht]; decide)]
    exact .take ht ((hvalue n m hn (some t.value) (by simpa using fun hc => (htwin.sound hc).compound ht)).weaken (by omega))

theorem properties_agree : TreesAgree c (f + 1) (g + 1) 1 0 True parseProperties := by
  have hmore (p q : Pos) (t u : Token) (n m : Node) (ht : t.kind = .identifier) (htwin : t.Twin c u) (hn : n.Like c m)
      (hpos : c.exact → q = p) :
      Agrees c none (LikeLists c) (fun ns => (textsOf ns).count c.word) f 16 0 (n.texts.count c.word) 0 True
        (parseProperties f >>= fun more => pure (.property p t.value n :: more))
        (parseProperties g >>= fun more => pure (.property q u.value m :: more)) :=
    .map h.properties
  have habsent : Like c .absent .absent := by constructor <;> grind
  rw [TreesAgree, parseProperties, parseProperties]
  refine .call (.atBodyEnd (.expect fun key key' hkey htwin => .peek fun t u hh => .ite hh.kind_iff (fun ht => ?_) fun _ =>
    .ite hh.kind_iff (fun ht => ?_) fun _ => ?_))
  · exact .take ht (.peek fun next next' hh' => (hmore _ _ key key' _ _ hkey htwin habsent fun hc => (hh'.of_exact hc).pos hc).weaken)
  · exact (hmore _ _ key key' _ _ hkey htwin habsent fun hc => (hh.of_exact hc).pos hc).weaken
  · refine .expect fun _ _ _ _ => .bind h.expression fun n m hn => .peek fun next next' hh => ?_
    refine .ite (not_congr hh.kind_iff) (fun _ => .expect fun _ _ _ _ => ?_) fun _ => ?_
    · exact (hmore _ _ key key' n m hkey htwin hn fun hc => (hh.of_exact hc).pos hc).weaken (by omega)
    · exact (hmore _ _ key key' n m hkey htwin hn fun hc => (hh.of_exact hc).pos hc).weaken (by omega)

theorem primary_agrees : TreeAgrees c (f + 1) (g + 1) 2 1 parsePrimary := by
  rw [TreeAgrees, parsePrimary, parsePrimary]
  refine .call (.peek fun t u hh => ?_)
  cases hh with
  | stop hc he =>
    rw [show t.kind = .eof from congrArg Prod.snd he]
    exact .unexpected fun h => absurd h hc
  | same htwin =>
    rw [htwin.kind]
    cases hk : t.kind with
    | string =>
      have hcopies := copies_string c.word hk []
      exact .take hk (.pure (by constructor <;> grind) (by simp only [Node.texts]; omega))
    | semicolon | break_ | continue_ | identifier => exact .take hk .pure
    | number =>
      rw [htwin.value (by rw [hk]; decide)]
      cases hx : numberValue? t.value with
      | some x => exact .take hk .pure
      | none => exact .blame (fun _ _ => rfl) fun _ => .badNumber mem_cons_self hk hx
    | binaryOperator =>
      rw [htwin.value (by rw [hk]; decide)]
      refine .ite Iff.rfl (fun _ => .of_front fun ts us hb hmore => ?_) fun _ =>
        .unexpected fun hc => by rw [htwin.pos hc]
      have hb' := hmore htwin
      rw [advance_bind, advance_bind]
      rcases hb'.nil_or_cons with ⟨hc, rfl, rfl⟩ | ⟨name, ts, name', us, rfl, rfl, hh⟩
      · exact .error ParseFault.noConfusion (fun _ => rfl) (absurd hc)
      rw [peek_bind, peek_bind]
      by_cases hname : name.kind = .identifier
      · have htwin' := hh.twin hname
        rw [if_pos hname, if_pos (htwin'.kind.trans hname)]
        have hop : (if t.value = "++" then "+=" else "-=") ∈ compoundOperators := by split <;> decide
        exact Agrees.run_behind (e := 0) (.take (u := name') hname (.peek fun next next' hh => .pure)) (fun _ => by rw [hk]; decide) hb'
      · rw [if_neg hname]
        refine .error ParseFault.noConfusion (fun hc => ?_) fun _ => .here mem_cons_self _
        rw [if_neg ((hh.of_exact hc).kind ▸ hname), htwin.pos hc]
        rfl
    | openBracket => exact h.array.weaken
    | openBrace => exact .take hk (.close h.properties fun ns ms _ _ hns => .pure)
    | openParen => exact .take hk (.bind h.expression fun n m hn => .expect fun _ _ _ _ => .pure hn (by omega))
    | _ => exact .unexpected fun hc => by rw [htwin.eq hc (by rw [hk]; decide)]

end

omit h in
theorem ExpressionsAgree.all {f g : Nat} (hfg : f ≤ g) : ExpressionsAgree c f g := by
  induction f generalizing g with
  | zero => exact .zero
  | succ f ih =>
    obtain ⟨g, rfl⟩ : ∃ g', g = g' + 1 := ⟨g - 1, by omega⟩
    have h : ExpressionsAgree c f g := ih (by omega)
    exact {
      expression := expression_agrees h
      level := fun _ => level_agrees h
      operators := fun _ _ => operators_agree h
      callMember := callMember_agrees h
      members := members_agree h
      calls := calls_agree h
      arguments := arguments_agree h
      moreArguments := moreArguments_agree h
      primary := primary_agrees h
      array := array_agrees h
      moreElements := moreElements_agree h
      properties := properties_agree h }

end Expressions

/-! ## Statements -/

section Statements

/-- Members and parameters of a class. -/
structure LikeMembers (c : Course) (a b : List Node × List String) : Prop where
  members : LikeLists c a.1 b.1
  params : b.2 = a.2
  places : ¬ c.exact → ∀ m ∈ a.1, m.IsClassMember
  names : ¬ c.exact → ∀ p ∈ a.2, IsName p

/-- Members of an enumeration. -/
structure LikeValues (c : Course) (ns ms : List Node) : Prop where
  values : LikeLists c ns ms
  names : ¬ c.exact → ∀ n ∈ ns, n.IsIdentifier

/-- Parameters of a function. -/
structure LikeNames (c : Course) (ps qs : List String) : Prop where
  same : qs = ps
  names : ¬ c.exact → ∀ p ∈ ps, IsName p

attribute [local grind cases] LikeMembers LikeValues LikeNames
attribute [local grind] IsIdentifier IsClassMember WellImported

/-- What comes of the functions for statements. -/
structure StatementsAgree (c : Course) (f g : Nat) : Prop where
  statement : TreeAgrees c f g 12 1 parseStatement
  body : TreesAgree c f g 13 0 True parseBody
  classMembers : Agrees c none (LikeMembers c) (fun r => (textsOf r.1).count c.word) f 13 0 0 0 True (parseClassMembers f)
    (parseClassMembers g)
  enumMembers : Agrees c none (LikeValues c) (fun ns => (textsOf ns).count c.word) f 13 0 0 0 True (parseEnumMembers f)
    (parseEnumMembers g)

theorem StatementsAgree.zero : StatementsAgree c 0 g := by
  constructor <;> refine .deep fun ts => ?_ <;>
    simp only [parseStatement, parseBody, parseClassMembers, parseEnumMembers] <;> rfl

theorem LikeLists.cons {n m ns ms} (hs : LikeLists c ns ms) (h : n.Like c m) : LikeLists c (n :: ns) (m :: ms) := by
  constructor <;> grind

theorem parameterNames_agree {ns ms} (h : LikeLists c ns ms) :
    Agrees c none (LikeNames c) (fun _ => 0) f 0 0 0 0 False (parameterNames ns) (parameterNames ms) := by
  induction ns generalizing ms with
  | nil =>
    rw [h.eq_nil]
    exact .pure
  | cons n ns ih =>
    obtain ⟨m, ms, rfl, hn, hns⟩ := h.exists_cons
    cases n with
    | identifier pos name =>
      obtain ⟨pos', rfl⟩ := hn.identifier
      exact .map (ih hns)
    | _ => exact .failHere fun hc => by rw [hn.same hc]; rfl

theorem exists_cons_of_mapM {α β : Type} {g} {as : List α} {bs : List β} (has : as ≠ [])
    (h : as.mapM g = some bs) : ∃ b bs', some bs = some (b :: bs') := by
  obtain ⟨a, as', rfl⟩ := exists_cons_of_ne_nil has
  rw [mapM_cons] at h
  obtain ⟨b, -, h⟩ := Option.bind_eq_some_iff.1 h
  obtain ⟨bs', -, h⟩ := Option.bind_eq_some_iff.1 h
  exact ⟨b, bs', h.symm⟩

theorem AllGenuine.unquoted {ns texts} (hns : AllGenuine ns)
    (h : ns.mapM Node.string? = some texts) : ∀ text ∈ texts, Unquoted text := by
  induction ns generalizing texts with
  | nil =>
    cases h
    simp
  | cons n ns ih =>
    rw [mapM_cons] at h
    obtain ⟨text, htext, h⟩ := Option.bind_eq_some_iff.1 h
    obtain ⟨more, hmore, h⟩ := Option.bind_eq_some_iff.1 h
    cases h
    exact forall_mem_cons.2 ⟨hns.1.unquoted htext, ih hns.2 hmore⟩

variable {front : Option (Token × Token)} (hE : ExpressionsAgree c f g) (h : StatementsAgree c f g)

section Parts

variable {α : Type} {A : α → α → Prop} {held : α → Nat} {spare least kept : Nat} {d : Int} {cut : Prop} {w w' : Expectation}

include hE in
theorem Agrees.group {k k' : Node → Parse α}
    (hk : ∀ n m, n.Like c m → Agrees c none A held f (spare + 48) (least - 3) (kept + n.texts.count c.word)
      (d - -1 - 0 - 1) cut (k n) (k' m)) (hspare : 11 ≤ spare := by decide) :
    Agrees c front A held f spare least kept d cut
      (do let _ ← Syntax.expect .openParen w; let inner ← parseExpression f; let _ ← Syntax.expect .closeParen w'; k inner)
      (do let _ ← Syntax.expect .openParen w; let inner ← parseExpression g; let _ ← Syntax.expect .closeParen w'; k' inner) :=
  .expect (fun _ _ _ _ => .bind hE.expression (fun n m hn => .expect (fun _ _ _ _ =>
    (hk n m hn).weaken (by omega) (by omega) (by omega)) (by decide)) (by omega) (by omega)) (by decide)

include h

theorem Agrees.block {k k' : List Node → Parse α}
    (hk : ∀ ns ms, LikeLists c ns ms → Agrees c none A held f (spare + 32) (least - 2) (kept + (textsOf ns).count c.word)
      (d - -1 - 0 - 1) cut (k ns) (k' ms)) :
    Agrees c front A held f spare least kept d cut
      (do let _ ← Syntax.expect .openBrace w; let body ← parseBody f; let _ ← Syntax.expect .closeBrace w'; k body)
      (do let _ ← Syntax.expect .openBrace w; let body ← parseBody g; let _ ← Syntax.expect .closeBrace w'; k' body) :=
  .expect (fun _ _ _ _ => .close h.body (fun ns ms _ _ hns =>
    (hk ns ms hns).weaken (by omega) (by omega) (by omega)) (by omega) (by omega)) (by decide)

mutual

theorem body_agrees : TreesAgree c (f + 1) (g + 1) 13 0 True parseBody := by
  rw [TreesAgree, parseBody, parseBody]
  refine .call (.atBodyEnd (.bind h.statement fun s s' hs => .map h.body (fun ns ms hns => hns.keepStatement hs) fun ns => ?_))
  have hkeep := count_keepStatement s ns c.word
  omega

theorem classMembers_agree : Agrees c none (LikeMembers c) (fun r => (textsOf r.1).count c.word) (f + 1) 13 0 0 0 True
    (parseClassMembers (f + 1)) (parseClassMembers (g + 1)) := by
  rw [parseClassMembers, parseClassMembers]
  refine .call (.atBodyEnd (.bind h.statement fun s s' hs => .ite (by rw [hs.semicolon]) (fun _ => h.classMembers.weaken)
    fun _ => ?_) ⟨by constructor <;> grind, rfl, by simp, by simp⟩)
  -- the other kinds of members are refused
  cases s with
  | assignment pos target value operator =>
    obtain ⟨pos', target', value', rfl⟩ := hs.near.assignment
    exact .map h.classMembers fun _ _ hms => ⟨hms.members.cons hs, hms.params, by grind, hms.names⟩
  | function pos name params body =>
    obtain ⟨pos', body', rfl⟩ := hs.near.function
    exact .map h.classMembers fun _ _ hms => ⟨hms.members.cons hs, hms.params, by grind, hms.names⟩
  | identifier pos name =>
    obtain ⟨pos', rfl⟩ := hs.near.identifier
    exact .map h.classMembers fun _ _ hms => ⟨hms.members, by grind, hms.places, by grind⟩
  | _ => exact .failHere fun hc => by rw [hs.same hc]; rfl

theorem enumMembers_agree : Agrees c none (LikeValues c) (fun ns => (textsOf ns).count c.word) (f + 1) 13 0 0 0 True
    (parseEnumMembers (f + 1)) (parseEnumMembers (g + 1)) := by
  rw [parseEnumMembers, parseEnumMembers]
  refine .call (.atBodyEnd (.bind h.statement fun s s' hs => .ite (by rw [hs.semicolon]) (fun _ => h.enumMembers.weaken)
    fun _ => ?_) ⟨by constructor <;> grind, by simp⟩)
  cases s with
  | identifier pos name =>
    obtain ⟨pos', rfl⟩ := hs.near.identifier
    exact .map h.enumMembers fun _ _ hms => ⟨hms.values.cons hs, by grind⟩
  | _ => exact .failHere fun hc => by rw [hs.same hc]; rfl

end

end Parts

include hE h

theorem statement_agrees : TreeAgrees c (f + 1) (g + 1) 12 1 parseStatement := by
  refine .call (.peek fun t u hh => ?_)
  cases hh with
  | stop hc he =>
    refine .of_front fun ts us hb _ => ?_
    obtain ⟨x, hx⟩ := parseExpression_refused he.refused ts f
    rw [show t.kind = .eof from congrArg Prod.snd he]
    exact (hE.expression.weaken.run hb).of_error hc hx
  | same htwin =>
    rw [htwin.kind]
    cases hk : t.kind with
    | «let» | const =>
      refine .take hk (.expect fun name name' hname hlike => .choice (.ite .rfl (fun _ => .failHere) fun _ => .pure) ?_ ?_)
      · exact .expect fun _ _ _ _ => .bind hE.expression fun n m hn => .expect fun _ _ _ _ => .pure
      · exact fun e he => ⟨_, Agrees.expect_other fun h => Token.not_isEnd h (by decide) he⟩
    | func =>
      refine .take hk (.expect fun name name' hname hlike => .bind hE.arguments fun ns ms hns => ?_)
      exact .bind (parameterNames_agree hns) fun params params' hparams => .block h fun ns ms hns => .pure
    | «if» =>
      exact .take hk (.group hE fun n m hn => .block h fun ns ms hns => .option (.block h fun ns' ms' hns' => .pure) .pure)
    | assert =>
      refine .take hk (.bind hE.expression fun n m hn => .option (.bind hE.expression fun n' m' hn' => ?_)
        (.expect fun _ _ _ _ => .pure))
      rw [hn'.near.string?]
      cases htext : n'.string? with
      | some text =>
        have hquote (hc : ¬ c.exact) := (hn'.genuine hc).unquoted htext
        rw [texts_of_string? _ htext]
        exact .pure
      | none => exact .failHere
    | «return» =>
      refine .take hk (.choice .pure (.bind hE.expression fun n m hn => .expect fun _ _ _ _ => .pure) fun e he => ?_)
      obtain ⟨x, hx⟩ := parseExpression_refused he.refused [] f
      exact ⟨x, bind_of_error hx _⟩
    | import_ =>
      refine .take hk (.expect fun module module' hmodule hlike => .option (.expect fun name name' hname hlike' => ?_) ?_)
      · have hmodule := copies_string c.word hmodule []
        have hname := copies_string c.word hname []
        exact .pure
      · have hmodule := copies_string c.word hmodule []
        exact .pure
    | from_ =>
      refine .take hk (.expect fun module module' hmodule hlike => .need (.bind hE.array fun n m hn => ?_))
      cases n with
      | array pos ns =>
        obtain ⟨pos', ms, rfl, hsame, hbare⟩ := hn.near.array
        have hns : LikeLists c ns ms := ⟨hsame, hbare, hn.genuine⟩
        cases ns with
        | nil =>
          rw [hns.eq_nil]
          exact .failHere
        | cons n ns =>
          have hnames := hns.mapM_string?
          obtain ⟨m, ms, rfl, -, -⟩ := hns.exists_cons
          dsimp only
          rw [hnames]
          cases hmapM : (n :: ns).mapM string? with
          | some names =>
            have hplain (hc : ¬ c.exact) : names.map c.text = names := by rw [c.plain hc, map_id]
            have hmodule := copies_string c.word hmodule []
            have hquotes (hc : ¬ c.exact) : ∀ texts ∈ some names, ∀ text ∈ texts, Unquoted text := by
              simpa using (hns.genuine hc).unquoted hmapM
            have hwell : WellImported (some names) none := .inr ⟨exists_cons_of_mapM (by simp) hmapM, rfl⟩
            rw [texts, textsOf_of_mapM _ hmapM]
            exact .pure
          | none => exact .failHere
      | _ => exact .failHere fun hc => by rw [hn.same hc]; rfl
    | while_ => exact .take hk (.group hE fun n m hn => .block h fun ns ms hns => .pure)
    | loop => exact .take hk (.block h fun ns ms hns => .pure)
    | for_ =>
      refine .take hk (.expect fun name name' hname hlike => .expect fun _ _ _ _ => .bind hE.expression fun n m hn => ?_)
      exact .block h fun ns ms hns => .pure
    | del => exact .take hk (.expect fun name name' hname hlike => .pure)
    | class_ =>
      exact .take hk (.expect fun name name' hname hlike => .expect fun _ _ _ _ => .close h.classMembers fun a b _ _ hab => .pure)
    | enum =>
      exact .take hk (.expect fun name name' hname hlike => .expect fun _ _ _ _ => .close h.enumMembers fun ns ms _ _ hns => .pure)
    | _ => exact hE.expression.weaken

omit hE h in
theorem StatementsAgree.all {f g : Nat} (hfg : f ≤ g) : StatementsAgree c f g := by
  induction f generalizing g with
  | zero => exact .zero
  | succ f ih =>
    obtain ⟨g, rfl⟩ : ∃ g', g = g' + 1 := ⟨g - 1, by omega⟩
    have h : StatementsAgree c f g := ih (by omega)
    exact {
      statement := statement_agrees (.all (by omega)) h
      body := body_agrees h
      classMembers := classMembers_agree h
      enumMembers := enumMembers_agree h }

omit hE h in
/-- The statements of a program end where the tail begins. -/
theorem statements_agree {f g : Nat} (hfg : f ≤ g) : TreesAgree c f g 13 0 True parseStatements := by
  induction f generalizing g with
  | zero => exact .deep fun ts => by rw [parseStatements]; rfl
  | succ f ih =>
    obtain ⟨g, rfl⟩ : ∃ g', g = g' + 1 := ⟨g - 1, by omega⟩
    rw [TreesAgree, parseStatements, parseStatements]
    have hmore : Agrees c none (LikeLists c) (fun ns => (textsOf ns).count c.word) f 12 0 0 0 True
        (parseStatement f >>= fun s => parseStatements f >>= fun ns => pure (keepStatement s ns))
        (parseStatement g >>= fun s => parseStatements g >>= fun ns => pure (keepStatement s ns)) := by
      refine .bind (StatementsAgree.all (by omega)).statement fun s s' hs =>
        .map (ih (by omega)) (fun ns ms hns => hns.keepStatement hs) fun ns => ?_
      have hkeep := count_keepStatement s ns c.word
      omega
    have hnil : LikeLists c [] [] := by constructor <;> grind
    refine .call fun ts us hb _ => ?_
    have hts := hmore.run hb
    cases hb with
    | nil hc => exact .error ParseFault.noConfusion (fun _ => rfl) (absurd hc)
    | @stop e v vs hc he =>
      rw [atKind_bind, show e.kind = .eof from congrArg Prod.snd he]
      exact .ended trivial hc [] rfl (.nil (by decide)) he hnil
    | @cons t u ts us ht hb =>
      rw [atKind_bind, atKind_bind, ht.kind]
      split
      · exact Agrees.run (.pure hnil) (.cons ht hb)
      · exact hts

end Statements

end SmallScript.Syntax
