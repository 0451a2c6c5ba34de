import SmallScript.Proofs.Syntax.Parsing

/-!
# The parser makes progress

Every function of the parser takes tokens off the front of the list that it is given, whatever these tokens are. One
that reads a phrase takes at least one token, so each round of a loop over phrases leaves a shorter list, and the bound
on the depth of the recursion is never reached if it leaves sixteen calls for each token: no function calls more than a
dozen others before it takes a token.

This is what the rules of `Follows` say in a course with the same tokens in both runs. The result is
`parser_progresses`.
-/

namespace SmallScript.Syntax

open Parse List

variable {α : Type} {rest ts : List Token} {k least : Nat} {f g : Nat}

/-! ## Progress -/

/-- What holds of a parser that has a bound on the depth of its recursion and takes at least `least` tokens. -/
structure Progresses {α : Type} (least : Nat) (p : Nat → Parse α) : Prop where
  /-- with any bound: it finds a fault, or it leaves the tokens behind those it has taken -/
  takes : ∀ f ts a rest, p f ts = .ok (a, rest) → rest <:+ ts ∧ rest.length + least ≤ ts.length
  /-- a bound with sixteen calls for each token is not reached -/
  ends : ∀ f ts, 16 * ts.length + 13 ≤ f → p f ts ≠ .error .tooDeep
  /-- and then a larger one makes no difference -/
  settled : ∀ f g ts, 16 * ts.length + 13 ≤ f → f ≤ g → p g ts = p f ts

mutual

theorem Node.mapText_id (n : Node) : n.mapText id = n := by
  cases n <;> simp [Node.mapText_id, mapTexts_id]

theorem mapTexts_id (ns : List Node) : mapTexts id ns = ns := by
  cases ns <;> simp [Node.mapText_id, mapTexts_id]

end

theorem Token.mapText_id (t : Token) : t.mapText id = t := by
  unfold mapText
  split <;> rfl

theorem spares_id (ops : List String) : Spares id ops := ⟨fun _ _ => rfl, fun _ => id⟩

/-- Any tokens, with other contents of their strings. -/
def Course.swap (f : String → String) (x : String) (hf : ∀ ops ∈ precedence, Spares f ops) : Course :=
  ⟨True, f, x, [], hf, fun h => absurd trivial h⟩

/-- Any tokens as they are. -/
def Course.same : Course := .swap id "" fun _ _ => spares_id _

theorem beside_mapText {c} (hc : c.exact) (ts : List Token) : Beside c ts (ts.map (Token.mapText c.text)) := by
  induction ts with
  | nil => exact .nil hc
  | cons t ts ih => exact .cons ⟨rfl, fun _ => Token.mapText_pos, absurd hc, absurd hc⟩ ih

theorem beside_same (ts : List Token) : Beside .same ts ts := by
  have h := beside_mapText (c := .same) trivial ts
  rwa [show Token.mapText Course.same.text = id from funext Token.mapText_id, map_id] at h

theorem Beside.eq {us} (h : Beside .same ts us) : us = ts := by
  induction h with
  | nil => rfl
  | stop hc => exact absurd trivial hc
  | @cons t u ts us ht _ ih =>
    cases ih
    by_cases hk : t.kind = .string
    · obtain ⟨value, kind, pos⟩ := u
      cases ht.text hk
      cases ht.kind
      cases ht.pos trivial
      rfl
    · rw [ht.eq trivial hk]

theorem Node.Like.eq {n m : Node} (h : n.Like .same m) : m = n := (h.same trivial).trans n.mapText_id

theorem LikeLists.eq {ns ms} (h : LikeLists .same ns ms) : ms = ns := (h.same trivial).trans (mapTexts_id ns)

/-- A phrase is the same under every larger bound. -/
theorem Agrees.eq_ok {A} (hA : ∀ {a b}, A a b → b = a) {held spare kept d}
    {cut : Prop} {p : Nat → Parse α} (hs : Agrees .same none A held f spare least kept d cut (p f) (p g)) {a}
    (hok : p f ts = .ok (a, rest)) : p g ts = .ok (a, rest) := by
  have hts := hs.run (beside_same ts)
  rw [hok] at hts
  generalize p g ts = r' at hts
  cases hts with
  | ok _ _ _ _ _ hrest h => rw [hA h, hrest.eq]
  | ended _ hc => exact absurd trivial hc

theorem parseStatement_le (hfg : f ≤ g) {n} (h : parseStatement f ts = .ok (n, rest)) :
    parseStatement g ts = .ok (n, rest) :=
  (StatementsAgree.all hfg).statement.eq_ok Node.Like.eq h

theorem parseStatements_le (hfg : f ≤ g) {ns}
    (h : parseStatements f ts = .ok (ns, rest)) : parseStatements g ts = .ok (ns, rest) :=
  (statements_agree hfg).eq_ok LikeLists.eq h

/-- A function that agrees with itself on the same tokens makes progress. -/
theorem Progresses.of_agrees {A : α → α → Prop} (hA : ∀ {a b}, A a b → b = a) {held : α → Nat} {kept : Nat} {d : Int}
    {cut : Prop} {p} (hs : ∀ f g, f ≤ g → Agrees .same none A held f k least kept d cut (p f) (p g))
    (hk : k ≤ 13 := by decide) : Progresses least p where
  takes f ts a rest hok := by
    have hf := (hs f f (le_refl f)).run (beside_same ts)
    rw [hok] at hf
    cases hf with
    | ok taken hts hleast =>
      subst hts
      exact ⟨suffix_append _ _, by rw [length_append]; omega⟩
    | ended _ hc => exact absurd trivial hc
  ends f ts hle hdeep := by
    have hf := (hs f f (le_refl f)).run (beside_same ts)
    rw [hdeep] at hf
    cases hf with
    | error he => exact he rfl
    | deep h =>
      have hshort := h trivial
      omega
  settled f g ts hle hfg := by
    have hf := (hs f g hfg).run (beside_same ts)
    revert hf
    generalize p f ts = r
    generalize p g ts = r'
    intro hf
    cases hf with
    | ok _ _ _ _ _ hrest h => rw [hA h, hrest.eq]
    | error _ hsame => exact hsame trivial
    | deep h =>
      have hshort := h trivial
      omega
    | ended _ hc => exact absurd trivial hc

theorem Progresses.loop {p} (h : ∀ f g, f ≤ g → LoopAgrees .same f g k p) (n : Node)
    (hk : k ≤ 13 := by decide) : Progresses 0 (p · n) :=
  .of_agrees Node.Like.eq (fun f g hfg => h f g hfg n n ⟨fun _ => n.mapText_id.symm, fun _ => rfl, absurd trivial, rfl⟩) hk

/-- Something in braces. -/
def inBraces (w w' : Expectation) (p : Parse α) : Parse α := do
  let _ ← expect .openBrace w
  let a ← p
  let _ ← expect .closeBrace w'
  return a

theorem Progresses.inBraces {A} (hA : ∀ {a b}, A a b → b = a) {held} {p : Nat → Parse α}
    (hs : ∀ f g, f ≤ g → Agrees .same none A held f 13 0 0 0 True (p f) (p g)) (w w' : Expectation) :
    Progresses 2 fun f => Syntax.inBraces w w' (p f) := by
  have hbraces f g (hfg : f ≤ g) : Agrees .same none A held f 13 2 0 0 False (Syntax.inBraces w w' (p f))
      (Syntax.inBraces w w' (p g)) :=
    .expect fun _ _ _ _ => .close (hs f g hfg) fun a b _ _ hab => .pure hab (by omega)
  exact .of_agrees hA hbraces

/-- All functions of the parser make progress. -/
structure ParserProgresses : Prop where
  statement : Progresses 1 parseStatement
  /-- expressions, at each of the levels of operators and below them -/
  expression : Progresses 1 parseExpression
  level : ∀ i, Progresses 1 fun f => parseLevel f (precedence.drop i)
  callMember : Progresses 1 parseCallMember
  primary : Progresses 1 parsePrimary
  arguments : Progresses 1 parseArguments
  array : Progresses 1 parseArray
  /-- objects and bodies, with their braces -/
  object : ∀ w w', Progresses 2 fun f => inBraces w w' (parseProperties f)
  body : ∀ w w', Progresses 2 fun f => inBraces w w' (parseBody f)
  classBody : ∀ w w', Progresses 2 fun f => inBraces w w' (parseClassMembers f)
  enumBody : ∀ w w', Progresses 2 fun f => inBraces w w' (parseEnumMembers f)
  /-- the loops, which may have no round at all -/
  operators : ∀ ops i left, Progresses 0 fun f => parseOperators f ops (precedence.drop i) left
  members : ∀ object, Progresses 0 fun f => parseMembers f object
  calls : ∀ callee, Progresses 0 fun f => parseCalls f callee
  moreArguments : Progresses 0 parseMoreArguments
  moreElements : Progresses 0 parseMoreElements
  properties : Progresses 0 parseProperties
  statements : Progresses 0 parseBody
  classMembers : Progresses 0 parseClassMembers
  enumMembers : Progresses 0 parseEnumMembers
  program : Progresses 0 parseStatements

theorem length_drop_precedence (i : Nat) : (precedence.drop i).length ≤ 6 := length_drop ▸ Nat.sub_le 6 i

theorem parserProgresses : ParserProgresses := by
  have hS f g (hfg : f ≤ g) : StatementsAgree .same f g := .all hfg
  have hE f g (hfg : f ≤ g) : ExpressionsAgree .same f g := .all hfg
  have hreads ops : Course.same.Reads ops := ⟨spares_id ops, absurd trivial⟩
  have hclass {a b : List Node × List String} (h : LikeMembers .same a b) : b = a := Prod.ext h.members.eq h.params
  have hvalues {ns ms} (h : LikeValues .same ns ms) : ms = ns := h.values.eq
  exact {
    statement := .of_agrees Node.Like.eq fun f g hfg => (hS f g hfg).statement
    expression := .of_agrees Node.Like.eq fun f g hfg => (hE f g hfg).expression
    level := fun i => by
      have hlevels := length_drop_precedence i
      exact .of_agrees Node.Like.eq (fun f g hfg => (hE f g hfg).level _ hlevels fun _ _ => hreads _) (by omega)
    callMember := .of_agrees Node.Like.eq fun f g hfg => (hE f g hfg).callMember
    primary := .of_agrees Node.Like.eq fun f g hfg => (hE f g hfg).primary
    arguments := .of_agrees LikeLists.eq fun f g hfg => (hE f g hfg).arguments
    array := .of_agrees Node.Like.eq fun f g hfg => (hE f g hfg).array
    object := .inBraces LikeLists.eq fun f g hfg => (hE f g hfg).properties.weaken
    body := .inBraces LikeLists.eq fun f g hfg => (hS f g hfg).body
    classBody := .inBraces hclass fun f g hfg => (hS f g hfg).classMembers
    enumBody := .inBraces hvalues fun f g hfg => (hS f g hfg).enumMembers
    operators := fun ops i => .loop fun f g hfg =>
      (hE f g hfg).operators ops _ (length_drop_precedence i) fun _ _ => hreads _
    members := .loop fun f g hfg => (hE f g hfg).members
    calls := .loop fun f g hfg => (hE f g hfg).calls
    moreArguments := .of_agrees LikeLists.eq fun f g hfg => (hE f g hfg).moreArguments
    moreElements := .of_agrees LikeLists.eq fun f g hfg => (hE f g hfg).moreElements
    properties := .of_agrees LikeLists.eq fun f g hfg => (hE f g hfg).properties
    statements := .of_agrees LikeLists.eq fun f g hfg => (hS f g hfg).body
    classMembers := .of_agrees hclass fun f g hfg => (hS f g hfg).classMembers
    enumMembers := .of_agrees hvalues fun f g hfg => (hS f g hfg).enumMembers
    program := .of_agrees LikeLists.eq fun f g hfg => statements_agree hfg }

/-- Every function of the parser either fails or leaves a shorter list of tokens behind those it has taken, and no
loop of the parser goes on for ever, on any list of tokens. So the bound on the depth that a program is parsed with is
never the reason why it is refused, and it has the tree that it has under every larger bound. -/
theorem parser_progresses : ParserProgresses ∧
    (∀ tokens, parseTokens tokens ≠ .error .tooDeep ∧
      ∀ f, depthBound tokens ≤ f → (parseStatements f tokens).map (·.1) = parseTokens tokens) ∧
    ∀ source, parse source ≠ .error .tooDeep := by
  have hprogram := parserProgresses.program
  have hbound : ∀ tokens, 16 * tokens.length + 13 ≤ depthBound tokens := fun tokens => by
    unfold depthBound
    omega
  have htokens : ∀ tokens, parseTokens tokens ≠ .error .tooDeep := by
    intro tokens hdeep
    have hends := hprogram.ends _ tokens (hbound tokens)
    rw [parseTokens] at hdeep
    cases hr : parseStatements (depthBound tokens) tokens with
    | ok r =>
      rw [hr] at hdeep
      cases hdeep
    | error e =>
      rw [hr] at hdeep
      cases hdeep
      exact hends hr
  refine ⟨parserProgresses, fun tokens => ⟨htokens tokens, fun f hf => ?_⟩, fun source hdeep => ?_⟩
  · rw [hprogram.settled _ f tokens (hbound tokens) hf]
    rfl
  · rw [parse] at hdeep
    split at hdeep
    · next e _ =>
      unfold LexFault.toParseFault at hdeep
      cases hc : e.cause with
      | _ =>
        rw [hc] at hdeep
        cases hdeep
    · next tokens _ =>
      cases hr : parseTokens tokens with
      | ok body =>
        rw [hr] at hdeep
        cases hdeep
      | error e =>
        rw [hr] at hdeep
        cases hdeep
        exact htokens tokens hr

end SmallScript.Syntax
