import SmallScript.Proofs.Syntax.Contents
import SmallScript.Proofs.Syntax.Lexing
import SmallScript.Proofs.Syntax.Steps

/-!
# What may come of parsing

Two runs of the parser are compared, `Course`. In an exact course the tokens are any, and the second run has the same
ones with other contents of their strings, and a larger bound on the depth of the recursion. In the others the first
tokens have an end, and the second run has more tokens in place of the end. If the first of these cannot go on with what
stands before it, then an optional part is missing in both places, and a part that has to be there is a fault at the end.

`Beside` compares the tokens, and `Follows` what a function of the parser makes of them. It also says all that is needed
of the first run alone. Tokens are taken off the front, and the bound is not reached if it leaves enough calls for each
token. No content is used twice: what the result and the tokens that are left hold of it, the tokens held before. Unless
the tokens are any, a phrase is as it should be, among the tokens taken are at most `d` closing brackets more than opening
ones, and one of the tokens is to blame for a fault, `Blames`.

A type hint is skipped whatever it is, also if it is a bracket or the end of the source. So brackets directly
behind a colon do not count, and a parser that has taken the end of the source has nothing to look at any more.

There is one rule for each way to build a parser.
-/

namespace SmallScript.Syntax

open Evaluate (compoundOperators)
open Parse List Node Token

/-! ## Tokens of a source -/

/-- The token for the end of the source. -/
def Token.IsEnd (t : Token) : Prop := t.face = endFace

/-- One for a closing bracket, minus one for an opening one. -/
def TokenKind.closing : TokenKind → Int
  | .closeParen | .closeBracket | .closeBrace => 1
  | .openParen | .openBracket | .openBrace => -1
  | _ => 0

/-- What the lexer promises of the text of a token. -/
structure Token.Sound (t : Token) : Prop where
  name : t.kind = .identifier → IsName t.value
  unquoted : t.kind = .string → Unquoted t.value
  compound : t.kind = .assignmentOperator → t.value ∈ compoundOperators
  operator : t.value ∈ binaryOperators → t.kind.closing = 0

theorem Token.not_isEnd {t : Token} {kind} (ht : t.kind = kind) (hkind : kind ≠ .eof) : ¬ t.IsEnd :=
  fun h => hkind (ht ▸ congrArg Prod.snd h)

/-! ## Brackets -/

/-- How many more brackets are closed than opened. -/
def closings : List Token → Int
  | [] => 0
  | t :: ts => t.kind.closing + closings ts

/-- How many brackets are closed directly behind a colon. -/
def hinted : List Token → Nat
  | t :: u :: ts => (if t.kind = .colon ∧ u.kind.closing = 1 then 1 else 0) + hinted (u :: ts)
  | _ => 0

theorem closings_append (ts us : List Token) : closings (ts ++ us) = closings ts + closings us := by
  induction ts with
  | nil => simp [closings]
  | cons t ts ih =>
    rw [cons_append, closings, closings]
    omega

theorem hinted_append (ts us : List Token) : hinted ts + hinted us ≤ hinted (ts ++ us) := by
  fun_induction hinted ts with
  | case1 t u ts ih =>
    rw [cons_append, cons_append, hinted, ← cons_append]
    omega
  | case2 ts hts =>
    match ts, us with
    | [], us => simp
    | [t], [] => simp [hinted]
    | [t], u :: us =>
      rw [cons_append, nil_append, hinted]
      omega
    | t :: u :: ts, us => exact absurd rfl (hts t u ts)

/-- At most so many more brackets are closed than opened, those directly behind a colon apart. -/
def ClosesAtMost (d : Int) (ts : List Token) : Prop := closings ts ≤ hinted ts + d

theorem ClosesAtMost.nil {d} (hd : 0 ≤ d) : ClosesAtMost d [] := by
  simpa [ClosesAtMost, closings, hinted] using hd

theorem ClosesAtMost.append {d e ts us} (h : ClosesAtMost d ts) (h' : ClosesAtMost e us) :
    ClosesAtMost (d + e) (ts ++ us) := by
  have hhint := hinted_append ts us
  unfold ClosesAtMost at h h' ⊢
  rw [closings_append]
  omega

theorem ClosesAtMost.mono {d e ts} (h : ClosesAtMost d ts) (hde : d ≤ e) : ClosesAtMost e ts :=
  Int.le_trans h (Int.add_le_add_left hde _)

theorem ClosesAtMost.single {t d} (h : t.kind.closing ≤ d) : ClosesAtMost d [t] := by
  simpa [ClosesAtMost, closings, hinted] using h

theorem ClosesAtMost.hint {c} (hc : c.kind = .colon) (t : Token) : ClosesAtMost 0 [c, t] := by
  have hzero : TokenKind.colon.closing = 0 := rfl
  have ht : t.kind.closing = 1 ∨ t.kind.closing ≤ 0 := by
    cases t.kind <;> simp [TokenKind.closing]
  rcases ht with ht | ht
  · simp [ClosesAtMost, closings, hinted, hc, ht, hzero]
  · have hne : t.kind.closing ≠ 1 := by omega
    simp [ClosesAtMost, closings, hinted, hc, hne, hzero, ht]

/-! ## Faults -/

/-- One of the tokens is to blame for the fault. -/
inductive Blames (ts : List Token) : ParseFault → Prop where
  /-- the fault is at the token -/
  | here {t : Token} (ht : t ∈ ts) (cause : SyntaxCause) : Blames ts (.at t.pos cause)
  /-- a colon is the last token before the end -/
  | cutOff (before : List Token) {c e : Token} (h : ts = before ++ [c, e]) (hc : c.kind = .colon) (he : e.IsEnd) :
    Blames ts .cutOff
  /-- the token is a number that has no value -/
  | badNumber {t : Token} (ht : t ∈ ts) (hk : t.kind = .number) (hv : numberValue? t.value = none) :
    Blames ts (.badNumber t.value)

theorem Blames.append {ts f} (h : Blames ts f) (taken : List Token) : Blames (taken ++ ts) f := by
  cases h with
  | here ht cause => exact .here (mem_append_right _ ht) cause
  | cutOff before h hc he =>
    refine .cutOff (taken ++ before) ?_ hc he
    rw [h, append_assoc]
  | badNumber ht hk hv => exact .badNumber (mem_append_right _ ht) hk hv

/-! ## Two runs -/

/-- The kinds of the tokens that a statement may begin with but that cannot go on with an expression, and the end. A
string or a sign can, if its text is that of an operator. -/
def freshKinds : List TokenKind := [
  .identifier, .number, .string, .openBrace, .semicolon, .binaryOperator, .eof, .let, .const, .func, .if, .return,
  .import_, .from_, .loop, .while_, .for_, .break_, .continue_, .del, .class_, .enum, .assert]

/-- The token goes on with nothing that stands before it. -/
structure Token.Fresh (t : Token) : Prop where
  kind : t.kind ∈ freshKinds
  value : t.value ∉ binaryOperators

/-- What the two runs have in common. -/
structure Course where
  /-- the tokens are any, and they are the same in both runs but for the contents of strings -/
  exact : Prop
  /-- a content in the second run -/
  text : String → String
  /-- the content that is counted -/
  word : String
  /-- the tokens in place of the end, unless the course is exact -/
  tail : List Token
  spares : ∀ ops ∈ precedence, Spares text ops
  plain : ¬ exact → text = id

/-- The texts are those of operators. -/
structure Course.Reads (c : Course) (ops : List String) : Prop where
  spares : Spares c.text ops
  known : ¬ c.exact → ∀ op ∈ ops, op ∈ binaryOperators

variable {ops : List String}

theorem Course.reads (c : Course) (hops : ops ∈ precedence) : c.Reads ops :=
  ⟨c.spares ops hops, fun _ => precedence_known ops hops⟩

theorem Course.text_eq (c : Course) (hc : ¬ c.exact) (text : String) : c.text text = text := by
  rw [c.plain hc]
  rfl

/-- A token of the first run, and that of the second one. -/
structure Token.Twin (c : Course) (t u : Token) : Prop where
  face : u.face = (t.mapText c.text).face
  pos : c.exact → u.pos = t.pos
  notEnd : ¬ c.exact → t.kind ≠ .eof
  sound : ¬ c.exact → t.Sound

namespace Token.Twin

variable {c : Course} {t u : Token} (h : t.Twin c u)
include h

theorem kind : u.kind = t.kind := (congrArg Prod.snd h.face).trans mapText_kind

theorem text (ht : t.kind = .string) : u.value = c.text t.value :=
  (congrArg Prod.fst h.face).trans (mapText_of_string ht)

theorem value (ht : t.kind ≠ .string) : u.value = t.value :=
  (congrArg Prod.fst h.face).trans (congrArg Token.value (mapText_of_ne rfl ht))

theorem eq (hc : c.exact) (ht : t.kind ≠ .string) : u = t := by
  obtain ⟨value, kind, pos⟩ := u
  cases h.value ht
  cases h.kind
  cases h.pos hc
  rfl

theorem name (hc : ¬ c.exact) (ht : t.kind = .identifier) : IsName t.value := (h.sound hc).name ht

theorem unquoted (hc : ¬ c.exact) (ht : t.kind = .string) : Unquoted t.value := (h.sound hc).unquoted ht

end Token.Twin

/-- The tokens of both runs. In an exact course the first ones are any; else they have an end, which the tail stands in
place of, and positions do not matter. -/
inductive Beside (c : Course) : List Token → List Token → Prop where
  | nil (hc : c.exact) : Beside c [] []
  | stop {e v : Token} {vs : List Token} (hc : ¬ c.exact) (he : e.IsEnd) (hv : v.Fresh) (htail : c.tail = v :: vs) :
    Beside c [e] (v :: vs)
  | cons {t u : Token} {ts us : List Token} (ht : t.Twin c u) (h : Beside c ts us) : Beside c (t :: ts) (u :: us)

/-- What is known of the tokens in front of both lists. -/
inductive Token.Meets (c : Course) (t u : Token) : Prop where
  | same (h : t.Twin c u)
  | stop (hc : ¬ c.exact) (he : t.IsEnd) (hu : u.Fresh)

namespace Token.Meets

variable {c : Course} {t u : Token}

theorem kind_iff (h : t.Meets c u) {kind} (hkind : kind ∉ freshKinds := by decide) : t.kind = kind ↔ u.kind = kind := by
  cases h with
  | same ht => rw [ht.kind]
  | stop _ he hu =>
    have hk : t.kind = .eof := congrArg Prod.snd he
    refine ⟨fun ht => ?_, fun hu' => absurd (hu' ▸ hu.kind) hkind⟩
    subst ht
    rw [hk] at hkind
    exact absurd (by decide) hkind

theorem twin_of_value (h : t.Meets c u) (hops : c.Reads ops) (ht : t.value ∈ ops) : t.Twin c u := by
  cases h with
  | same htwin => exact htwin
  | stop hc he =>
    -- the end has no operator's text
    rw [show t.value = "EOF" from congrArg Prod.fst he] at ht
    exact absurd (hops.known hc _ ht) (by decide)

theorem value_iff (h : t.Meets c u) (hops : c.Reads ops) : t.value ∈ ops ↔ u.value ∈ ops := by
  cases h with
  | same ht => rw [show u.value = _ from congrArg Prod.fst ht.face, ← hops.spares.mem_iff]; rfl
  | stop hc he hu =>
    exact ⟨fun ht => absurd (congrArg Prod.snd he) ((twin_of_value (.stop hc he hu) hops ht).notEnd hc),
      fun ht => absurd (hops.known hc _ ht) hu.value⟩

theorem twin (h : t.Meets c u) {kind} (ht : t.kind = kind) (hkind : kind ≠ .eof := by decide) : t.Twin c u := by
  cases h with
  | same htwin => exact htwin
  | stop _ he => exact absurd he (not_isEnd ht hkind)

theorem of_exact (h : t.Meets c u) (hc : c.exact) : t.Twin c u := by
  cases h with
  | same ht => exact ht
  | stop hc' => exact absurd hc hc'

end Token.Meets

theorem Beside.meets {c t u ts us} (h : Beside c (t :: ts) (u :: us)) :
    t.Meets c u ∧ (t.Twin c u → Beside c ts us) := by
  cases h with
  | stop hc he hv => exact ⟨.stop hc he hv, fun ht => absurd (congrArg Prod.snd he) (ht.notEnd hc)⟩
  | cons ht h => exact ⟨.same ht, fun _ => h⟩

theorem Beside.nil_or_cons {c ts us} (h : Beside c ts us) :
    (c.exact ∧ ts = [] ∧ us = []) ∨ ∃ t ts' u us', ts = t :: ts' ∧ us = u :: us' ∧ t.Meets c u := by
  cases id h with
  | nil hc => exact .inl ⟨hc, rfl, rfl⟩
  | stop | cons => exact .inr ⟨_, _, _, _, rfl, rfl, h.meets.1⟩

/-! ## Trees that are alike -/

/-- A tree of the first run, and one that is the same but for the contents of strings, or for positions. -/
structure Node.Near (c : Course) (n m : Node) : Prop where
  same : c.exact → m = n.mapText c.text
  bare : ¬ c.exact → m.bare = n.bare

/-- The trees are near, and the first one is as it should be. None or both are a lone semicolon. -/
structure Node.Like (c : Course) (n m : Node) : Prop where
  same : c.exact → m = n.mapText c.text
  bare : ¬ c.exact → m.bare = n.bare
  genuine : ¬ c.exact → n.Genuine
  semicolon : m.isSemicolon = n.isSemicolon

/-- Trees that are near, and as they should be. -/
structure LikeLists (c : Course) (ns ms : List Node) : Prop where
  same : c.exact → ms = mapTexts c.text ns
  bare : ¬ c.exact → bareList ms = bareList ns
  genuine : ¬ c.exact → AllGenuine ns

theorem Node.name?_bare (n : Node) : n.bare.name? = n.name? := by
  cases n with
  | absent => rw [bare]
  | _ =>
    rfl

theorem Node.string?_bare (n : Node) : n.bare.string? = n.string? := by
  cases n with
  | absent => rw [bare]
  | _ =>
    rfl

theorem Node.Genuine.unquoted {n : Node} {text} (h : n.Genuine) (hn : n.string? = some text) : Unquoted text := by
  cases n with
  | string pos value =>
    cases hn
    exact h
  | _ => cases hn

theorem bareList_eq_map (ns : List Node) : bareList ns = ns.map Node.bare := by
  induction ns with
  | nil => rw [bareList, map_nil]
  | cons n ns ih => rw [bareList, map_cons, ih]

theorem bareList_append (ns ms : List Node) : bareList (ns ++ ms) = bareList ns ++ bareList ms := by
  rw [bareList_eq_map, bareList_eq_map, bareList_eq_map, map_append]

section Near

variable {c : Course} {n m : Node} {ns ms : List Node} {pos : Pos}

theorem Node.Like.near (h : n.Like c m) : n.Near c m := ⟨h.same, h.bare⟩

theorem Node.Near.name? (h : n.Near c m) : m.name? = n.name? := by
  by_cases hc : c.exact
  · rw [h.same hc, mapText_name?]
  · rw [← m.name?_bare, h.bare hc, n.name?_bare]

theorem Node.Near.string? (h : n.Near c m) : m.string? = n.string?.map c.text := by
  by_cases hc : c.exact
  · rw [h.same hc, mapText_string?]
  · rw [← m.string?_bare, h.bare hc, n.string?_bare, c.plain hc, Option.map_id, id]

theorem Node.Near.identifier {name : String} (h : (identifier pos name).Near c m) :
    ∃ pos', m = .identifier pos' name := by
  by_cases hc : c.exact
  · exact ⟨pos, h.same hc⟩
  · exact bare_eq_identifier (h.bare hc)

theorem Node.Near.assignment {target value : Node} {op : Option String} (h : (assignment pos target value op).Near c m) :
    ∃ pos' target' value', m = .assignment pos' target' value' op := by
  by_cases hc : c.exact
  · exact ⟨_, _, _, h.same hc⟩
  · obtain ⟨pos', target', value', hm, -⟩ := bare_eq_assignment (h.bare hc)
    exact ⟨pos', target', value', hm⟩

theorem Node.Near.function {name params} (h : (Node.function pos name params ns).Near c m) :
    ∃ pos' body, m = .function pos' name params body := by
  by_cases hc : c.exact
  · exact ⟨_, _, h.same hc⟩
  · obtain ⟨pos', body, hm, -⟩ := bare_eq_function (h.bare hc)
    exact ⟨pos', body, hm⟩

theorem Node.Near.array (h : (Node.array pos ns).Near c m) :
    ∃ pos' ms, m = .array pos' ms ∧ (c.exact → ms = mapTexts c.text ns) ∧ (¬ c.exact → bareList ms = bareList ns) := by
  by_cases hc : c.exact
  · exact ⟨pos, _, h.same hc, fun _ => rfl, absurd hc⟩
  · obtain ⟨pos', ms, hm, hms⟩ := bare_eq_array (h.bare hc)
    exact ⟨pos', ms, hm, fun h => absurd h hc, fun _ => hms⟩

namespace LikeLists

theorem eq_nil (h : LikeLists c [] ms) : ms = [] := by
  by_cases hc : c.exact
  · exact h.same hc
  · have hbare := h.bare hc
    rw [bareList_eq_map, bareList_eq_map] at hbare
    exact map_eq_nil_iff.1 hbare

theorem exists_cons (h : LikeLists c (n :: ns) ms) : ∃ m ms', ms = m :: ms' ∧ n.Near c m ∧ LikeLists c ns ms' := by
  by_cases hc : c.exact
  · exact ⟨_, _, h.same hc, ⟨fun _ => rfl, absurd hc⟩, fun _ => rfl, absurd hc, absurd hc⟩
  · have hbare := h.bare hc
    cases ms with
    | nil =>
      cases hbare
    | cons m ms =>
      rw [bareList] at hbare
      obtain ⟨hm, hms⟩ := cons.inj hbare
      exact ⟨m, ms, rfl, ⟨fun h => absurd h hc, fun _ => hm⟩, fun h => absurd h hc, fun _ => hms,
        fun _ => (h.genuine hc).2⟩

theorem mapM_string? (h : LikeLists c ns ms) : ms.mapM Node.string? = (ns.mapM Node.string?).map (·.map c.text) := by
  induction ns generalizing ms with
  | nil =>
    rw [h.eq_nil]
    rfl
  | cons n ns ih =>
    obtain ⟨m, ms, rfl, hm, hms⟩ := h.exists_cons
    rw [mapM_cons, mapM_cons, ih hms, hm.string?]
    cases n.string? with
    | none => rfl
    | some text => cases ns.mapM string? <;> rfl

end LikeLists

theorem LikeLists.keepStatement (h : LikeLists c ns ms) (hn : n.Like c m) :
    LikeLists c (keepStatement n ns) (keepStatement m ms) := by
  unfold Syntax.keepStatement
  rw [hn.semicolon]
  split
  · exact h
  · exact ⟨fun hc => by rw [mapTexts, hn.same hc, h.same hc], fun hc => by rw [bareList, bareList, hn.bare hc, h.bare hc],
      fun hc => ⟨hn.genuine hc, h.genuine hc⟩⟩

end Near

theorem keepStatement_append (s : Node) (ns ms : List Node) :
    keepStatement s (ns ++ ms) = keepStatement s ns ++ ms := by
  unfold keepStatement
  split <;> rfl

/-! ## The rules -/

/-- What a function of the parser makes of the tokens under some bound on the depth of the recursion, and what it makes
of those of the second run under a larger one: phrases that are alike. At least `least` tokens are taken off the front,
and the phrase and the tokens left hold the content at most `kept` times more than the tokens did. A fault is the same
in an exact course; else nothing is said of the second run. The bound is reached only if it leaves less than sixteen
calls for each token and some spare ones. What stands between braces may also be `cut` off at the end. -/
inductive Follows (c : Course) {α : Type} (Alike : α → α → Prop) (held : α → Nat) (bound spare least kept : Nat) (d : Int)
    (cut : Prop) (ts : List Token) : Except ParseFault (α × List Token) → Except ParseFault (α × List Token) → Prop where
  | ok {a b : α} {rest rest' : List Token} (taken : List Token) (hts : ts = taken ++ rest) (hleast : least ≤ taken.length)
    (hkept : held a + copies c.word rest ≤ kept + copies c.word ts) (hd : ¬ c.exact → ClosesAtMost d taken)
    (hrest : Beside c rest rest') (h : Alike a b) :
    Follows c Alike held bound spare least kept d cut ts (.ok (a, rest)) (.ok (b, rest'))
  | error {e : ParseFault} {r : Except ParseFault (α × List Token)} (he : e ≠ .tooDeep) (hsame : c.exact → r = .error e)
    (h : ¬ c.exact → Blames ts e) : Follows c Alike held bound spare least kept d cut ts (.error e) r
  | deep {r : Except ParseFault (α × List Token)} (h : c.exact → bound < 16 * ts.length + spare) :
    Follows c Alike held bound spare least kept d cut ts (.error .tooDeep) r
  | ended {a b : α} {e : Token} {r : Except ParseFault (α × List Token)} (hcut : cut) (hc : ¬ c.exact)
    (taken : List Token) (hts : ts = taken ++ [e]) (hd : ClosesAtMost d taken) (he : e.IsEnd) (h : Alike a b) :
    Follows c Alike held bound spare least kept d cut ts (.ok (a, [e])) r

namespace Follows

variable {c : Course} {α : Type} {A : α → α → Prop} {held : α → Nat} {bound spare spare' least least' kept kept' : Nat}
  {d d' e : Int} {cut : Prop} {ts us : List Token} {r r' r'' : Except ParseFault (α × List Token)}

/-- Tokens that were taken before. -/
theorem behind (h : Follows c A held bound spare' least' kept' d' cut us r r') (taken : List Token) (hts : ts = taken ++ us)
    (he : ¬ c.exact → ClosesAtMost e taken) (hspare : spare' ≤ spare + 16 * taken.length)
    (hleast : least ≤ least' + taken.length) (hkept : kept' ≤ kept + copies c.word taken) (hd : d' + e ≤ d) :
    Follows c A held bound spare least kept d cut ts r r' := by
  subst hts
  have hcopies := copies_append c.word taken us
  cases h with
  | ok more hmore hl hk hd hrest h =>
    refine .ok (taken ++ more) (by rw [hmore, append_assoc]) ?_ (by omega)
      (fun hc => ((he hc).append (hd hc)).mono (by omega)) hrest h
    rw [length_append]
    omega
  | error hx hsame h => exact .error hx hsame fun hc => (h hc).append taken
  | deep h =>
    refine .deep fun hc => ?_
    have hlength := h hc
    rw [length_append]
    omega
  | ended hcut hc more hmore hd hend h =>
    exact .ended hcut hc (taken ++ more) (by rw [hmore, append_assoc]) (((he hc).append hd).mono (by omega)) hend h

/-- A fault of the first run says nothing of the second one. -/
theorem of_error {x} (h : Follows c A held bound spare least kept d cut ts r r') (hc : ¬ c.exact)
    (hr : r = .error x) : Follows c A held bound spare least kept d cut ts r r'' := by
  subst hr
  cases h with
  | error hx _ h => exact .error hx (fun h => absurd h hc) h
  | deep => exact .deep fun h => absurd h hc

/-- What was taken before a phrase. -/
theorem taken {a rest} (h : Follows c A held bound spare least kept d cut ts (.ok (a, rest)) r)
    (hc : ¬ c.exact) : ∃ taken, ts = taken ++ rest ∧ ClosesAtMost d taken := by
  cases h with
  | ok taken hts _ _ hd => exact ⟨taken, hts, hd hc⟩
  | ended _ _ taken hts hd => exact ⟨taken, hts, hd⟩

end Follows

/-- Two parsers make phrases that are alike of tokens that are beside each other, with those in front, if any. -/
def Agrees (c : Course) (front : Option (Token × Token)) {α : Type} (A : α → α → Prop) (held : α → Nat)
    (bound spare least kept : Nat) (d : Int) (cut : Prop) (p p' : Parse α) : Prop :=
  ∀ ts us, Beside c ts us → (∀ q ∈ front, ts.head? = some q.1 ∧ us.head? = some q.2) →
    Follows c A held bound spare least kept d cut ts (p ts) (p' us)

namespace Agrees

variable {c : Course} {α β : Type} {front : Option (Token × Token)} {A : α → α → Prop} {B : β → β → Prop} {held : α → Nat}
  {held' : β → Nat} {bound spare spare' least least' kept kept' : Nat} {d e : Int} {cut : Prop} {ts us : List Token}
  {p p' q q' : Parse α} {kind : TokenKind} {t u : Token}

theorem run (h : Agrees c none A held bound spare least kept d cut p p') (hb : Beside c ts us) :
    Follows c A held bound spare least kept d cut ts (p ts) (p' us) :=
  h ts us hb fun _ hq => absurd hq (Option.not_mem_none _)

theorem run_front (h : Agrees c (some (t, u)) A held bound spare least kept d cut p p')
    (hb : Beside c (t :: ts) (u :: us)) :
    Follows c A held bound spare least kept d cut (t :: ts) (p (t :: ts)) (p' (u :: us)) := by
  refine h _ _ hb fun _ hq => ?_
  cases hq
  exact ⟨rfl, rfl⟩

/-- Behind a token. -/
theorem run_behind
    (h : Agrees c front A held bound (spare + 16) (least - 1) (kept + copies c.word [t]) (d - e) cut p p')
    (he : ¬ c.exact → t.kind.closing ≤ e) (hb : Beside c ts us)
    (hfront : ∀ q ∈ front, ts.head? = some q.1 ∧ us.head? = some q.2 := by simp) :
    Follows c A held bound spare least kept d cut (t :: ts) (p ts) (p' us) :=
  (h ts us hb hfront).behind [t] rfl (fun hc => .single (he hc)) (by simp) (by simp; omega) (le_refl _) (by omega)

/-- Whatever is in front. -/
theorem weaken (h : Agrees c none A held bound spare' least' kept' d cut p p')
    (hkept : kept' ≤ kept := by (try simp only [Node.texts, count_append, count_nil]); omega)
    (hleast : least ≤ least' := by omega) (hspare : spare' ≤ spare := by omega) :
    Agrees c front A held bound spare least kept d cut p p' := fun _ _ hb _ =>
  (h.run hb).behind [] rfl (fun _ => .nil (Int.le_refl 0)) (by simpa) (by simpa) (by omega) (by omega)

theorem run_kind (h : Agrees c none A held bound (spare + 16) (least - 1) kept (d - kind.closing) cut p p')
    (ht : t.kind = kind) (hb : Beside c ts us) :
    Follows c A held bound spare least kept d cut (t :: ts) (p ts) (p' us) :=
  (h.run hb).behind [t] rfl (fun _ => .single (Int.le_of_eq (congrArg _ ht))) (by simp) (by simp; omega) (by omega)
    (by omega)

theorem deep (hp : ∀ ts, p ts = .error .tooDeep) : Agrees c front A held 0 (spare + 1) least kept d cut p p' :=
  fun ts us _ _ => by
  rw [hp]
  exact .deep fun _ => by omega

/-- One call of the bound is that of the function itself. -/
theorem call (h : Agrees c front A held bound spare least kept d cut p p') :
    Agrees c front A held (bound + 1) (spare + 1) least kept d cut p p' := by
  intro ts us hb hfront
  have hts := h ts us hb hfront
  generalize p ts = r at hts
  generalize p' us = r' at hts
  cases hts with
  | ok taken hts hl hk hd hrest h => exact .ok taken hts hl hk hd hrest h
  | error hx hsame h => exact .error hx hsame h
  | deep h => exact .deep fun hc => Nat.succ_lt_succ_iff.2 (h hc)
  | ended hcut hc taken hts hd he h => exact .ended hcut hc taken hts hd he h

theorem pure {a b} (h : A a b := by constructor <;> grind) (hkept : held a ≤ kept := by
      try simp only [Node.texts, textsOf, count_append, count_nil, append_nil, nil_append, Option.getD, Option.toList]
      omega)
    (hleast : least = 0 := by rfl) (hd : 0 ≤ d := by decide) :
    Agrees c front A held bound spare least kept d cut (Pure.pure a) (Pure.pure b) :=
  fun _ _ hb _ => .ok [] rfl (le_of_eq hleast) (by omega) (fun _ => .nil hd) hb h

/-- What a parser takes can be spent on calls by the next one. -/
theorem bind {k k'} (hp : Agrees c none A held bound spare' least' kept' e False p p')
    (hk : ∀ a b, A a b → Agrees c none B held' bound (spare + 16 * least') (least - least') (kept + held a - kept') (d - e)
      cut (k a) (k' b))
    (hkept : kept' ≤ kept := by omega) (hspare : spare' ≤ spare := by omega) :
    Agrees c front B held' bound spare least kept d cut (p >>= k) (p' >>= k') := by
  intro ts us hb _
  have hts := hp.run hb
  show Follows c B held' bound spare least kept d cut ts (p ts >>= fun r => k r.1 r.2) (p' us >>= fun r => k' r.1 r.2)
  generalize p ts = r at hts
  generalize p' us = r' at hts
  cases hts with
  | @ok a b rest rest' taken hts hl hheld hd hrest h =>
    have hcopies := copies_append c.word taken rest
    rw [hts] at hheld
    exact ((hk a b h).run hrest).behind taken hts hd (by omega) (by omega) (by omega) (by omega)
  | error hx hsame h => exact .error hx (fun hc => by rw [hsame hc]; rfl) h
  | deep h => exact .deep fun hc => lt_of_lt_of_le (h hc) (by omega)
  | ended hcut => exact hcut.elim

/-- What is made of a part that stops at the end too. -/
theorem map {g g' : α → β} (hp : Agrees c none A held bound spare' least' kept' d cut p p')
    (hg : ∀ a b, A a b → B (g a) (g' b) := by intro a b hab; constructor <;> grind)
    (hheld : ∀ a, held' (g a) + kept' ≤ kept + held a := by
      intro a
      try simp only [Node.texts, textsOf, count_append, count_nil]
      omega)
    (hleast : least ≤ least' := by omega) (hspare : spare' ≤ spare := by omega) :
    Agrees c front B held' bound spare least kept d cut (p >>= fun a => Pure.pure (g a))
      (p' >>= fun b => Pure.pure (g' b)) := by
  intro ts us hb _
  have hts := hp.run hb
  show Follows c B held' bound spare least kept d cut ts (p ts >>= fun r => .ok (g r.1, r.2))
    (p' us >>= fun r => .ok (g' r.1, r.2))
  generalize p ts = r at hts
  generalize p' us = r' at hts
  cases hts with
  | @ok a _ rest _ taken hts hl hk hd hrest h =>
    have ha := hheld a
    have hnow : held' (g a) + copies c.word rest ≤ kept + copies c.word ts := by omega
    exact .ok taken hts (by omega) hnow hd hrest (hg _ _ h)
  | error hx hsame h => exact .error hx (fun hc => by rw [hsame hc]; rfl) h
  | deep h => exact .deep fun hc => lt_of_lt_of_le (h hc) (by omega)
  | ended hcut hc taken hts hd he h => exact .ended hcut hc taken hts hd he (hg _ _ h)

theorem ite {x x' : Prop} [Decidable x] [Decidable x'] (hx : x ↔ x')
    (hp : x → Agrees c front A held bound spare least kept d cut p p')
    (hq : ¬ x → Agrees c front A held bound spare least kept d cut q q') :
    Agrees c front A held bound spare least kept d cut (if x then p else q) (if x' then p' else q') := by
  by_cases h : x
  · rw [if_pos h, if_pos (hx.1 h)]
    exact hp h
  · rw [if_neg h, if_neg fun h' => h (hx.2 h')]
    exact hq h

/-! ## The token in front -/

/-- It is enough to look at lists of some tokens. -/
theorem of_cons (hnil : p [] = .error .cutOff ∧ p' [] = .error .cutOff)
    (h : ∀ t ts u us, t.Meets c u → Beside c (t :: ts) (u :: us) → (t.Twin c u → Beside c ts us) →
      Follows c A held bound spare least kept d cut (t :: ts) (p (t :: ts)) (p' (u :: us))) :
    Agrees c front A held bound spare least kept d cut p p' := by
  intro ts us hb _
  rcases hb.nil_or_cons with ⟨hc, rfl, rfl⟩ | ⟨t, ts, u, us, rfl, rfl, hmeets⟩
  · rw [hnil.1, hnil.2]
    exact .error ParseFault.noConfusion (fun _ => rfl) (absurd hc)
  · exact h t ts u us hmeets hb hb.meets.2

theorem of_front (h : ∀ ts us, Beside c (t :: ts) (u :: us) → (t.Twin c u → Beside c ts us) →
      Follows c A held bound spare least kept d cut (t :: ts) (p (t :: ts)) (p' (u :: us))) :
    Agrees c (some (t, u)) A held bound spare least kept d cut p p' := by
  intro ts us hb hfront
  obtain ⟨ht, hu⟩ := hfront _ rfl
  obtain ⟨ts, rfl⟩ := head?_eq_some_iff.1 ht
  obtain ⟨us, rfl⟩ := head?_eq_some_iff.1 hu
  exact h ts us hb hb.meets.2

/-- The token in front is to blame. -/
theorem blame {x} (hsame : c.exact → ∀ us, p' (u :: us) = .error x)
    (h : ∀ ts, Blames (t :: ts) x) (hp : ∀ ts, p (t :: ts) = .error x := by intro; rfl)
    (hx : x ≠ .tooDeep := by exact ParseFault.noConfusion) :
    Agrees c (some (t, u)) A held bound spare least kept d cut p p' :=
  of_front fun ts us _ _ => hp ts ▸ .error hx (hsame · us) fun _ => h ts

variable {cause : SyntaxCause}

theorem unexpected (hsame : c.exact → p' = Parse.fail (.at t.pos cause)) :
    Agrees c (some (t, u)) A held bound spare least kept d cut (Parse.fail (.at t.pos cause)) p' :=
  blame (fun hc _ => by rw [hsame hc]; rfl) (fun _ => .here (.head _) cause) (fun _ => rfl) ParseFault.noConfusion

theorem peek {k k'}
    (hk : ∀ t u, t.Meets c u → Agrees c (some (t, u)) A held bound spare least kept d cut (k t) (k' u)) :
    Agrees c front A held bound spare least kept d cut (Syntax.peek >>= k) (Syntax.peek >>= k') :=
  of_cons ⟨rfl, rfl⟩ fun t _ u _ hmeets hb _ => (hk t u hmeets).run_front hb

theorem failHere (hsame : c.exact → p' = Syntax.failHere cause := by intro; rfl) :
    Agrees c front A held bound spare least kept d cut (Syntax.failHere cause) p' := by
  intro ts us hb _
  cases hb with
  | nil hc => exact .error ParseFault.noConfusion (fun _ => by rw [hsame hc]; rfl) (absurd hc)
  | stop hc => exact .error ParseFault.noConfusion (fun h => absurd h hc) fun _ => .here (.head _) cause
  | @cons t u _ _ ht =>
    refine .error ParseFault.noConfusion (fun hc => ?_) fun _ => .here (.head _) cause
    rw [hsame hc, ← ht.pos hc]
    rfl

theorem advance {k k'} (htwin : t.Twin c u) (he : ¬ c.exact → t.kind.closing ≤ e)
    (hk : Agrees c none A held bound (spare + 16) (least - 1) (kept + copies c.word [t]) (d - e) cut (k t) (k' u)) :
    Agrees c (some (t, u)) A held bound spare least kept d cut (Syntax.advance >>= k) (Syntax.advance >>= k') :=
  of_front fun _ _ _ hmore => hk.run_behind he (hmore htwin) (by simp)

/-- Takes a token of a known kind. -/
theorem take {k k'} (ht : t.kind = kind)
    (hk : Agrees c none A held bound (spare + 16) (least - 1) (kept + copies c.word [t]) (d - kind.closing) cut (k t) (k' u))
    (hkind : kind ≠ .eof := by decide) :
    Agrees c (some (t, u)) A held bound spare least kept d cut (Syntax.advance >>= k) (Syntax.advance >>= k') :=
  of_front fun _ _ hb hmore =>
    hk.run_behind (fun _ => Int.le_of_eq (congrArg _ ht)) (hmore (hb.meets.1.twin ht hkind)) (by simp)

variable {w : Expectation}

theorem expect_other {k : Token → Parse α} (h : t.kind ≠ kind) :
    (Syntax.expect kind w >>= k) (t :: ts) = .error (.at t.pos (.expected w)) := by
  unfold expect
  rw [bind_assoc, advance_bind, if_neg h]
  rfl

theorem expect {k k'} (hk : ∀ t u, t.kind = kind → t.Twin c u →
      Agrees c none A held bound (spare + 16) (least - 1) (kept + copies c.word [t]) (d - kind.closing) cut (k t) (k' u))
    (hkind : kind ≠ .eof := by decide) :
    Agrees c front A held bound spare least kept d cut (Syntax.expect kind w >>= k) (Syntax.expect kind w >>= k') := by
  refine of_cons ⟨rfl, rfl⟩ fun t ts u us hmeets hb hmore => ?_
  by_cases ht : t.kind = kind
  · have htwin := hmeets.twin ht hkind
    rw [expect_bind ht, expect_bind (htwin.kind.trans ht)]
    exact (hk t u ht htwin).run_behind (fun _ => Int.le_of_eq (congrArg _ ht)) (hmore htwin) (by simp)
  · rw [expect_other ht]
    refine .error ParseFault.noConfusion (fun hc => ?_) fun _ => .here (.head _) _
    have htwin := hmeets.of_exact hc
    rw [expect_other (htwin.kind ▸ ht), htwin.pos hc]

theorem atKind {k k'} (hk : ∀ b, Agrees c none A held bound spare least kept d cut (k b) (k' b))
    (hkind : kind ∉ freshKinds := by decide) :
    Agrees c front A held bound spare least kept d cut (Syntax.atKind kind >>= k) (Syntax.atKind kind >>= k') := by
  refine of_cons ⟨rfl, rfl⟩ fun t ts u us hmeets hb _ => ?_
  rw [atKind_bind, atKind_bind, ← decide_eq_decide.2 (hmeets.kind_iff hkind)]
  exact (hk _).run hb

/-- A choice by a token of a certain kind, where something else has to be there without it. -/
theorem choice (hp : Agrees c none A held bound (spare + 16) (least - 1) kept (d - kind.closing) cut p p')
    (hq : Agrees c none A held bound spare least kept d cut q q')
    (hend : ∀ e, e.IsEnd → ∃ x, q [e] = .error x) (hkind : kind ≠ .eof := by decide) :
    Agrees c front A held bound spare least kept d cut
      (Syntax.atKind kind >>= fun b => if b = true then Syntax.advance >>= fun _ => p else q)
      (Syntax.atKind kind >>= fun b => if b = true then Syntax.advance >>= fun _ => p' else q') := by
  intro ts us hb _
  have hother := hq.run hb
  cases hb with
  | nil hc => exact .error ParseFault.noConfusion (fun _ => rfl) (absurd hc)
  | @stop e v vs hc he =>
    obtain ⟨x, hx⟩ := hend e he
    rw [atKind_bind, show e.kind = .eof from congrArg Prod.snd he, decide_eq_false hkind.symm]
    exact hother.of_error hc hx
  | @cons t u ts us ht hb =>
    rw [atKind_bind, atKind_bind, ht.kind]
    by_cases hk : t.kind = kind
    · rw [decide_eq_true hk]
      exact hp.run_kind hk hb
    · rw [decide_eq_false hk]
      exact hother

/-- An optional part that begins with a token of a certain kind. -/
theorem option (hp : Agrees c none A held bound (spare + 16) (least - 1) kept (d - kind.closing) cut p p')
    (hq : Agrees c none A held bound spare least kept d cut q q') (hkind : kind ∉ freshKinds := by decide) :
    Agrees c front A held bound spare least kept d cut
      (Syntax.atKind kind >>= fun b => if b = true then Syntax.advance >>= fun _ => p else q)
      (Syntax.atKind kind >>= fun b => if b = true then Syntax.advance >>= fun _ => p' else q') := by
  refine of_cons ⟨rfl, rfl⟩ fun t ts u us hmeets hb hmore => ?_
  rw [atKind_bind, atKind_bind, ← decide_eq_decide.2 (hmeets.kind_iff hkind)]
  by_cases hk : t.kind = kind
  · rw [decide_eq_true hk]
    have hne : kind ≠ .eof := fun heof => hkind (heof ▸ by decide)
    exact hp.run_kind hk (hmore (hmeets.twin hk hne))
  · rw [decide_eq_false hk]
    exact hq.run hb

/-- A token of a certain kind that has to be there. -/
theorem need (hp : Agrees c none A held bound (spare + 16) (least - 1) kept (d - kind.closing) cut p p')
    (hkind : kind ≠ .eof := by decide) :
    Agrees c front A held bound spare least kept d cut
      (Syntax.atKind kind >>= fun b => if (!b) = true then Syntax.failHere cause else Syntax.advance >>= fun _ => p)
      (Syntax.atKind kind >>= fun b =>
        if (!b) = true then Syntax.failHere cause else Syntax.advance >>= fun _ => p') := by
  refine of_cons ⟨rfl, rfl⟩ fun t ts u us hmeets hb hmore => ?_
  rw [atKind_bind, atKind_bind]
  by_cases ht : t.kind = kind
  · have htwin := hmeets.twin ht hkind
    rw [decide_eq_true ht, decide_eq_true (htwin.kind.trans ht)]
    exact hp.run_kind ht (hmore htwin)
  · rw [decide_eq_false ht]
    exact run (failHere fun hc => by rw [(hmeets.of_exact hc).kind, decide_eq_false ht]; rfl) hb

/-- The brace that ends what stands between braces. -/
theorem close {k k' : α → Token → Parse β} (hp : Agrees c none A held bound spare' least' kept' e True p p')
    (hk : ∀ a b t u, A a b → Agrees c none B held' bound (spare + 16 * least' + 16) (least - least' - 1)
      (kept + held a - kept') (d - e - 1) cut (k a t) (k' b u))
    (hkept : kept' ≤ kept := by omega) (hspare : spare' ≤ spare := by omega) :
    Agrees c front B held' bound spare least kept d cut (p >>= fun a => Syntax.expect .closeBrace w >>= k a)
      (p' >>= fun a => Syntax.expect .closeBrace w >>= k' a) := by
  intro ts us hb _
  have hts := hp.run hb
  show Follows c B held' bound spare least kept d cut ts (p ts >>= fun r => (Syntax.expect .closeBrace w >>= k r.1) r.2)
    (p' us >>= fun r => (Syntax.expect .closeBrace w >>= k' r.1) r.2)
  generalize p ts = r at hts
  generalize p' us = r' at hts
  cases hts with
  | @ok a b rest rest' taken hts hl hheld hd hrest h =>
    have hcopies := copies_append c.word taken rest
    rw [hts] at hheld
    have hclose : Agrees c none B held' bound (spare + 16 * least') (least - least') (kept + held a - kept') (d - e) cut
        (Syntax.expect .closeBrace w >>= k a) (Syntax.expect .closeBrace w >>= k' b) :=
      expect (fun t u _ _ => (hk a b t u h).weaken (by omega) (by omega) (by omega)) (by decide)
    exact (hclose.run hrest).behind taken hts hd (by omega) (by omega) (by omega) (by omega)
  | error hx hsame h => exact .error hx (fun hc => by rw [hsame hc]; rfl) h
  | deep h => exact .deep fun hc => lt_of_lt_of_le (h hc) (by omega)
  | @ended a b x _ _ hc taken hts _ he _ =>
    show Follows c B held' bound spare least kept d cut ts ((Syntax.expect .closeBrace w >>= k a) [x]) _
    rw [expect_other fun h => not_isEnd h (by decide) he]
    exact .error ParseFault.noConfusion (fun h => absurd h hc) fun _ => .here (by simp [hts]) _

/-- What stands between braces ends at a closing brace, and is cut off at the end. -/
theorem atBodyEnd {a b} (hp : Agrees c none A held bound spare 0 kept 0 True p p')
    (h : A a b := by constructor <;> grind) (hkept : held a ≤ kept := by simp [textsOf]) :
    Agrees c front A held bound spare 0 kept 0 True (Syntax.atBodyEnd >>= fun x => if x = true then Pure.pure a else p)
      (Syntax.atBodyEnd >>= fun x => if x = true then Pure.pure b else p') := by
  intro ts us hb _
  have hts := hp.run hb
  cases hb with
  | nil hc => exact .error ParseFault.noConfusion (fun _ => rfl) (absurd hc)
  | @stop e v vs hc he =>
    rw [atBodyEnd_bind, show e.kind = .eof from congrArg Prod.snd he]
    exact .ended trivial hc [] rfl (.nil (by decide)) he h
  | @cons t u ts us ht hb =>
    rw [atBodyEnd_bind, atBodyEnd_bind, ht.kind]
    split
    · exact run (pure h hkept rfl (by decide)) (.cons ht hb)
    · exact hts

/-- A colon and one token are skipped. If the latter is the end, what comes next finds the source cut off, unless the
bound on the depth is reached. -/
theorem skip {k k'} (ht : t.kind = .colon) (hcut : k [] = .error .cutOff ∨ k [] = .error .tooDeep)
    (hk : Agrees c none A held bound (spare + 32) (least - 2) kept d cut k k') :
    Agrees c (some (t, u)) A held bound spare least kept d cut (Syntax.advance >>= fun _ => Syntax.advance >>= fun _ => k)
      (Syntax.advance >>= fun _ => Syntax.advance >>= fun _ => k') := by
  refine of_front fun ts us hb hmore => ?_
  cases hmore (hb.meets.1.twin ht (by decide)) with
  | nil hc => exact .error ParseFault.noConfusion (fun _ => rfl) (absurd hc)
  | stop hc he =>
    rw [advance_bind, advance_bind]
    rcases hcut with hcut | hcut <;> rw [hcut]
    · exact .error ParseFault.noConfusion (fun h => absurd h hc) fun _ => .cutOff [] rfl ht he
    · exact .deep fun h => absurd h hc
  | @cons hint _ ts us _ hrest =>
    exact (hk.run hrest).behind [t, hint] rfl (fun _ => .hint ht hint) (by simp) (by simp; omega) (by omega) (by omega)

theorem skipTypeHint {k k'}
    (hk : Agrees c none A held bound spare least kept d cut (Syntax.peek >>= k) (Syntax.peek >>= k')) :
    Agrees c front A held bound spare least kept d cut (Syntax.skipTypeHint >>= fun _ => Syntax.peek >>= k)
      (Syntax.skipTypeHint >>= fun _ => Syntax.peek >>= k') := by
  unfold Syntax.skipTypeHint
  rw [bind_assoc, bind_assoc]
  refine of_cons ⟨rfl, rfl⟩ fun t ts u us hmeets hb _ => ?_
  have hkind : decide (t.kind = .colon) = decide (u.kind = .colon) := decide_eq_decide.2 (hmeets.kind_iff (by decide))
  rw [atKind_bind, atKind_bind, ← hkind]
  by_cases ht : t.kind = .colon
  · rw [decide_eq_true ht]
    simp only [if_pos, bind_assoc]
    exact (skip ht (.inl rfl) (hk.weaken (by omega) (by omega) (by omega))).run_front hb
  · rw [decide_eq_false ht]
    exact hk.run hb

end Agrees

end SmallScript.Syntax
