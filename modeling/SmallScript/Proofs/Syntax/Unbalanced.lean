import Mathlib.Algebra.Order.BigOperators.Group.List
import Mathlib.Algebra.Order.Group.Nat
import SmallScript.Proofs.Syntax.Printed

/-!
# Printed literals with empty parts are refused

An empty array or object is printed without its opening bracket. So a printed literal closes as many brackets too
many as there are empty arrays and objects inside it, `Literal.faceClosings_faces`.

The parser takes no more closing brackets than opening ones, but for those directly behind a colon, which it may
skip as a type hint. In a printed literal such a bracket belongs to a field with an empty array or object;
`faceHints` counts these. If there are more empty arrays and objects than that, the count of brackets refuses the text. Otherwise every one of them is the value of a field, and then the parser stands in front of a
closing bracket where a value has to begin: `Literal.refused`. So no such text is accepted, `parse_unbalanced`.
-/

namespace SmallScript.Syntax

open Parse List Bool
open Text Number Literal
open Machine (Failure FailureKind)

variable {l : Literal} {xs : List Literal}

variable {f : String × TokenKind}

/-! ## Parts of literals -/

/-- An item of an array, or a field of an object with its key. -/
abbrev Part := Option Name × Literal

def Part.faces (p : Part) : List (String × TokenKind) :=
  (p.1.elim [] fun key => [key.face, Mark.colon.face]) ++ p.2.faces

/-- What is said here of a token of a printed literal. -/
structure PlainFace (f : String × TokenKind) : Prop where
  notEnd : f.2 ≠ .eof
  number : f.2 = .number → ∃ n : Whole, f = n.face

/-- What is said here of a literal that is one token. -/
structure AtomFace (f : String × TokenKind) : Prop extends PlainFace f where
  notColon : f.2 ≠ .colon
  closing : f.2.closing = 0

/-- What is said here of a pair of brackets. -/
structure Mark.Encloses (o c : Mark) : Prop where
  opening : o.kind.closing = -1
  closing : c.kind.closing = 1
  notColon : o.kind ≠ .colon ∧ c.kind ≠ .colon

theorem Mark.encloses : Mark.openBracket.Encloses .closeBracket ∧ Mark.openBrace.Encloses .closeBrace := by
  refine ⟨⟨rfl, rfl, ?_⟩, ⟨rfl, rfl, ?_⟩⟩ <;> decide

/-- Induction on a literal by what is printed: one token, a closing bracket alone, or parts between brackets. -/
theorem Literal.inductParts {P : Literal → Prop}
    (atom : ∀ l f, l.faces = [f] → AtomFace f → l.empties = 0 → l.isEmpty = false → P l)
    (empty : ∀ (l : Literal) (o c : Mark), l.faces = [c.face] → o.Encloses c → l.empties = 1 → P l)
    (listed : ∀ (l : Literal) (o c : Mark) (p : Part) ps, l.faces = o.face :: (p.faces ++ (moreFaces (ps.map Part.faces) ++ [c.face])) →
      o.Encloses c → l.empties = ((p :: ps).map (·.2.empties)).sum → l.isEmpty = false → (∀ q ∈ p :: ps, P q.2) → P l)
    (l : Literal) : P l := by
  have hno {f : String × TokenKind} (hf : f.2 = .identifier ∨ f.2 = .string) : AtomFace f := by
    rcases hf with hf | hf <;> exact ⟨⟨by simp [hf], by simp [hf]⟩, by simp [hf], by simp [hf, TokenKind.closing]⟩
  induction l using induct with
  | null => exact atom _ _ faces_null (hno (.inl rfl)) rfl rfl
  | bool b => exact atom _ _ (faces_bool b) (hno (.inl rfl)) rfl rfl
  | whole n =>
    exact atom _ _ (faces_whole n) ⟨⟨TokenKind.noConfusion, fun _ => ⟨n, rfl⟩⟩, TokenKind.noConfusion, rfl⟩ rfl rfl
  | string s => exact atom _ _ (faces_string s) (hno (.inr rfl)) rfl rfl
  | array items ih =>
    cases items with
    | nil => exact empty _ _ _ faces_array_nil Mark.encloses.1 rfl
    | cons x xs =>
      refine listed _ _ _ (none, x) (xs.map (none, ·)) ?_ Mark.encloses.1 ?_ rfl (forall_mem_map (l := x :: xs).2 ih)
      · rw [faces_array_cons, map_map]
        rfl
      · rw [empties, itemEmpties_eq, ← map_cons, map_map]
        exact zero_add _
  | object fields ih =>
    cases fields with
    | nil => exact empty _ _ _ faces_object_nil Mark.encloses.2 rfl
    | cons f fs =>
      let part (f : Name × Literal) : Part := (some f.1, f.2)
      refine listed _ _ _ (part f) (fs.map part) ?_ Mark.encloses.2 ?_ rfl (forall_mem_map (l := f :: fs).2 ih)
      · rw [faces_object_cons, map_map]
        rfl
      · rw [empties, fieldEmpties_eq, ← map_cons, map_map]
        exact zero_add _

/-! ## Counting brackets -/

/-- How many more brackets are closed than opened. -/
def faceClosings (fs : List (String × TokenKind)) : Int := (fs.map (·.2.closing)).sum

/-- How many brackets are closed directly behind a colon. -/
def faceHints : List (String × TokenKind) → Nat
  | f :: g :: fs => (if f.2 = .colon ∧ g.2.closing = 1 then 1 else 0) + faceHints (g :: fs)
  | _ => 0

theorem closings_eq (ts : List Token) : closings ts = faceClosings (ts.map Token.face) := by
  induction ts with
  | nil => rfl
  | cons t ts ih =>
    rw [closings, ih]
    simp [faceClosings, Token.face]

theorem hinted_eq (ts : List Token) : hinted ts = faceHints (ts.map Token.face) := by
  induction ts with
  | nil => rfl
  | cons t ts ih =>
    cases ts with
    | nil => rfl
    | cons u us =>
      rw [hinted, ih]
      rfl

variable {fs gs : List (String × TokenKind)} {ps : List Part} {p : Part}

theorem faceClosings_append : faceClosings (fs ++ gs) = faceClosings fs + faceClosings gs := by
  rw [faceClosings, map_append, sum_append]
  rfl

theorem faceClosings_cons (f : String × TokenKind) : faceClosings (f :: fs) = f.2.closing + faceClosings fs := by
  rfl

theorem Part.faceClosings_faces (p : Part) : faceClosings p.faces = faceClosings p.2.faces := by
  obtain ⟨_ | key, x⟩ := p
  · rfl
  · rw [faces, faceClosings_append]
    exact zero_add _

theorem faceClosings_moreFaces (h : ∀ q ∈ ps, faceClosings q.2.faces = q.2.empties) :
    faceClosings (moreFaces (ps.map Part.faces)) = (ps.map (·.2.empties)).sum := by
  induction ps with
  | nil => rfl
  | cons p ps ih =>
    rw [forall_mem_cons] at h
    rw [map_cons, map_cons, sum_cons, moreFaces, flatMap_cons, faceClosings_append, faceClosings_cons,
      p.faceClosings_faces, h.1, ← moreFaces, ih h.2]
    exact congrArg (· + _) (zero_add _)

/-- Each empty array or object closes a bracket that was not opened. -/
theorem Literal.faceClosings_faces (l : Literal) : faceClosings l.faces = l.empties := by
  induction l using inductParts with
  | atom l f hf hatom hempties =>
    rw [hf, hempties, faceClosings_cons, hatom.closing]
    rfl
  | empty l o c hf hpair hempties =>
    rw [hf, hempties, faceClosings_cons, Mark.face, hpair.closing]
    rfl
  | listed l o c p ps hf hpair hempties _ ih =>
    rw [forall_mem_cons] at ih
    rw [hf, hempties, faceClosings_cons, faceClosings_append, faceClosings_append, p.faceClosings_faces, ih.1,
      faceClosings_moreFaces ih.2, faceClosings_cons, Mark.face, Mark.face, hpair.opening, hpair.closing, map_cons,
      sum_cons, faceClosings, map_nil, sum_nil]
    omega

/-! ## Brackets behind colons -/

/-- There is a last token, and it is no colon. -/
def EndsPart (fs : List (String × TokenKind)) : Prop := ∃ gs f, fs = gs ++ [f] ∧ f.2 ≠ .colon

theorem endsPart_concat (fs : List (String × TokenKind)) (hf : f.2 ≠ .colon) : EndsPart (fs ++ [f]) := ⟨fs, f, rfl, hf⟩

theorem faceHints_append_le (h : EndsPart fs) : faceHints (fs ++ gs) ≤ faceHints fs + faceHints gs := by
  obtain ⟨fs, f, rfl, hf⟩ := h
  induction fs with
  | nil =>
    cases gs with
    | nil => exact le_refl _
    | cons g gs => simp [faceHints, hf]
  | cons f' fs ih =>
    -- the second token decides about the first one
    obtain ⟨g, us, hus⟩ := exists_cons_of_ne_nil (concat_ne_nil f fs)
    rw [hus, cons_append] at ih
    rw [cons_append, hus, cons_append, cons_append, faceHints, faceHints]
    omega

theorem faceHints_cons_le (hf : f.2 ≠ .colon) : faceHints (f :: fs) ≤ faceHints fs := by
  have hle : faceHints ([f] ++ fs) ≤ faceHints [f] + faceHints fs := faceHints_append_le (endsPart_concat [] hf)
  rwa [show faceHints [f] = 0 from rfl, zero_add] at hle

theorem TokenKind.closing_of_opens {kind : TokenKind} (h : kind.opensExpression = true) : kind.closing ≠ 1 := by
  revert h
  cases kind <;> decide

theorem Literal.endsPart (l : Literal) : EndsPart l.faces := by
  induction l using inductParts with
  | atom l f hf hatom => exact hf ▸ endsPart_concat [] hatom.notColon
  | empty l o c hf hpair => exact hf ▸ endsPart_concat [] hpair.notColon.2
  | listed l o c p ps hf hpair =>
    rw [hf, ← append_assoc, ← cons_append]
    exact endsPart_concat _ hpair.notColon.2

theorem Part.endsPart (p : Part) : EndsPart p.faces := by
  obtain ⟨gs, f, hfaces, hf⟩ := p.2.endsPart
  rw [faces, hfaces, ← append_assoc]
  exact endsPart_concat _ hf

/-- Only an empty array or object begins with a closing bracket. -/
theorem Literal.isEmpty_of_closing (h : l.faces = f :: fs) (hf : f.2.closing = 1) : l.isEmpty = true := by
  by_contra hl
  obtain ⟨g, gs, hfaces, hopens⟩ := faces_head (not_eq_true _ ▸ hl)
  rw [h] at hfaces
  cases hfaces
  exact TokenKind.closing_of_opens hopens hf

/-- In front of a part, a bracket is closed directly behind a colon only if the part is empty. -/
theorem Part.faceHints_le (p : Part) : faceHints p.faces ≤ faceHints p.2.faces + p.2.isEmpty.toNat := by
  obtain ⟨_ | key, x⟩ := p
  · exact Nat.le_add_right _ _
  refine (faceHints_cons_le TokenKind.noConfusion).trans ?_
  show faceHints (Mark.colon.face :: x.faces) ≤ _
  cases hfaces : x.faces with
  | nil => exact Nat.zero_le _
  | cons g gs =>
    rw [faceHints]
    split
    · next hclose =>
      rw [isEmpty_of_closing hfaces hclose.2, toNat_true]
      omega
    · omega

theorem faceHints_moreFaces_le (ps : List Part) (z : String × TokenKind) :
    faceHints (moreFaces (ps.map Part.faces) ++ [z]) ≤ (ps.map (faceHints ·.faces)).sum := by
  induction ps with
  | nil => exact le_refl _
  | cons p ps ih =>
    have hparts : moreFaces ((p :: ps).map Part.faces) ++ [z] =
        Mark.comma.face :: (p.faces ++ (moreFaces (ps.map Part.faces) ++ [z])) := by
      simp [moreFaces]
    have hcomma : Mark.comma.face.2 ≠ .colon := by decide
    rw [hparts, map_cons]
    exact (faceHints_cons_le hcomma).trans ((faceHints_append_le p.endsPart).trans (Nat.add_le_add_left ih _))

theorem faceHints_listed_le {o c : Mark} (ho : o.kind ≠ .colon) (p : Part) (ps : List Part) :
    faceHints (o.face :: (p.faces ++ (moreFaces (ps.map Part.faces) ++ [c.face]))) ≤
      ((p :: ps).map (faceHints ·.faces)).sum := by
  exact (faceHints_cons_le ho).trans
    ((faceHints_append_le p.endsPart).trans (Nat.add_le_add_left (faceHints_moreFaces_le ps _) _))

/-- Brackets that are closed directly behind a colon, and the literal itself, are different empty arrays and objects. -/
theorem Literal.faceHints_add_le (l : Literal) : faceHints l.faces + l.isEmpty.toNat ≤ l.empties := by
  induction l using inductParts with
  | atom l f hf _ hempties hno =>
    rw [hf, hempties, hno]
    exact le_refl _
  | empty l o c hf _ hempties =>
    rw [hf, hempties]
    exact (zero_add _).trans_le (toNat_le _)
  | listed l o c p ps hf hpair hempties hno ih =>
    rw [hf, hempties, hno]
    exact (faceHints_listed_le hpair.notColon.1 p ps).trans (sum_le_sum fun q hq => q.faceHints_le.trans (ih q hq))

/-- If no sum is less than the other one, which has the smaller terms, then no term is. -/
theorem le_of_sum_le {α : Type} {xs : List α} {f g : α → Nat} (hgf : ∀ x ∈ xs, g x ≤ f x)
    (hsum : (xs.map f).sum ≤ (xs.map g).sum) {x} (hx : x ∈ xs) : f x ≤ g x := by
  by_contra hlt
  have := sum_lt_sum g f hgf ⟨x, hx, Nat.lt_of_not_le hlt⟩
  omega

/-- Where all empty arrays and objects are behind colons, they are so in each part. -/
theorem Part.empties_le {o c : Mark} (ho : o.kind ≠ .colon) (hle : ((p :: ps).map (·.2.empties)).sum ≤
      faceHints (o.face :: (p.faces ++ (moreFaces (ps.map Part.faces) ++ [c.face])))) {q} (hq : q ∈ p :: ps) :
    q.2.empties ≤ faceHints q.faces :=
  le_of_sum_le (fun r _ => r.faceHints_le.trans r.2.faceHints_add_le) (hle.trans (faceHints_listed_le ho p ps)) hq

/-! ## Texts that are refused by the first empty part -/

/-- Parsing fails somewhere in the literal, whatever follows. -/
def Refused (l : Literal) : Prop := ∀ rest, ∃ e, Gives parseExpression (l.tokens ++ rest) (.error e)

section

variable {t u v : Token} {ts us vs : List Token} {n : Node} {e : ParseFault}

/-- A fault of the tightest level is one of the whole expression. -/
theorem parseExpression_fault (h : Gives parsePrimary ts (.error e)) : Gives parseExpression ts (.error e) := by
  have hlevel : ∀ levels, Gives (parseLevel · levels) ts (.error e) := by
    intro levels
    induction levels with
    | nil =>
      have hmember : Gives parseCallMember ts (.error e) := by
        refine h.step fun f h => ?_
        exact bind_of_error h _
      refine hmember.step fun f h => ?_
      exact h
    | cons ops tighter ih =>
      refine ih.step fun f h => ?_
      exact bind_of_error h _
  refine (hlevel precedence).step fun f h => ?_
  exact bind_of_error h _

theorem parseArray_first_fault (ht : t.kind = .openBracket) (hv : v.kind ≠ .closeBracket)
    (h : Gives parseExpression (v :: vs) (.error e)) : Gives parseArray (t :: v :: vs) (.error e) := by
  refine h.step fun f h => ?_
  rw [parseArray, expect_bind ht, atKind_bind, if_neg (by simp [hv])]
  exact bind_of_error h _

theorem parseArray_more_fault (ht : t.kind = .openBracket) (hv : v.kind ≠ .closeBracket)
    (hn : Gives parseExpression (v :: vs) (.ok (n, us))) (h : Gives parseMoreElements us (.error e)) :
    Gives parseArray (t :: v :: vs) (.error e) := by
  refine hn.step₂ h fun f hn h => ?_
  rw [parseArray, expect_bind ht, atKind_bind, if_neg (by simp [hv]), bind_of_ok hn]
  exact bind_of_error h _

theorem parseMoreElements_fault (ht : t.kind = .comma) (h : Gives parseExpression ts (.error e)) :
    Gives parseMoreElements (t :: ts) (.error e) := by
  refine h.step fun f h => ?_
  rw [parseMoreElements, atKind_bind, if_pos (decide_eq_true ht), advance_bind]
  exact bind_of_error h _

theorem parseMoreElements_more_fault (ht : t.kind = .comma) (hn : Gives parseExpression ts (.ok (n, us)))
    (h : Gives parseMoreElements us (.error e)) : Gives parseMoreElements (t :: ts) (.error e) := by
  refine hn.step₂ h fun f hn h => ?_
  rw [parseMoreElements, atKind_bind, if_pos (decide_eq_true ht), advance_bind, bind_of_ok hn]
  exact bind_of_error h _

theorem parseProperties_value_fault (ht : t.kind = .identifier) (hu : u.kind = .colon)
    (h : Gives parseExpression ts (.error e)) : Gives parseProperties (t :: u :: ts) (.error e) := by
  refine h.step fun f h => ?_
  rw [parseProperties, atBodyEnd_bind, if_neg (by simp [ht]), expect_bind ht, peek_bind, if_neg (by simp [hu]),
    if_neg (by simp [hu]), expect_bind hu]
  exact bind_of_error h _

theorem parseProperties_more_fault (ht : t.kind = .identifier) (hu : u.kind = .colon)
    (hn : Gives parseExpression ts (.ok (n, v :: vs))) (hv : v.kind = .comma)
    (h : Gives parseProperties vs (.error e)) : Gives parseProperties (t :: u :: ts) (.error e) := by
  refine hn.step₂ h fun f hn h => ?_
  rw [parseProperties, atBodyEnd_bind, if_neg (by simp [ht]), expect_bind ht, peek_bind, if_neg (by simp [hu]),
    if_neg (by simp [hu]), expect_bind hu, bind_of_ok hn, peek_bind, if_pos (by simp [hv]), expect_bind hv]
  exact bind_of_error h _

end

/-- No value begins with a closing bracket. -/
theorem Refused.of_isEmpty (hl : l.isEmpty = true) : Refused l := by
  obtain ⟨m, htokens, hm⟩ : ∃ m : Mark, l.tokens = [m.token] ∧ (m = .closeBracket ∨ m = .closeBrace) := by
    cases l with
    | array items =>
      rw [isEmpty_iff.1 hl, tokens]
      exact ⟨.closeBracket, rfl, .inl rfl⟩
    | object fields =>
      rw [isEmpty_iff.1 hl, tokens]
      exact ⟨.closeBrace, rfl, .inr rfl⟩
    | _ => cases hl
  intro rest
  rw [htokens]
  refine ⟨.at .zero (.unexpectedToken m.token), parseExpression_fault (.now fun f => ?_)⟩
  rcases hm with rfl | rfl <;> rw [singleton_append, parsePrimary] <;> rfl

theorem moreElements_refused (h : ∀ x ∈ xs, x.empties ≠ 0 → Refused x)
    (hbad : ∃ x ∈ xs, x.empties ≠ 0) (rest : List Token) :
    ∃ e, Gives parseMoreElements (moreTokens (xs.map Literal.item) ++ Mark.closeBracket.token :: rest) (.error e) := by
  induction xs with
  | nil =>
    obtain ⟨x, hx, -⟩ := hbad
    cases hx
  | cons x xs ih =>
    rw [forall_mem_cons] at h
    rw [map_cons, moreTokens, flatMap_cons, cons_append, cons_append, append_assoc, ← moreTokens]
    by_cases hx : x.empties = 0
    · obtain ⟨d, ds, hnext, hd⟩ := more_head (xs.map item) (stops_mark (m := .closeBracket) rfl) rest
      obtain ⟨e, he⟩ := ih h.2 (((exists_mem_cons_iff _ _ _).1 hbad).resolve_left (not_not.2 hx))
      rw [hnext] at he ⊢
      exact ⟨e, parseMoreElements_more_fault rfl (x.parsed hx d ds hd) he⟩
    · obtain ⟨e, he⟩ := h.1 hx (moreTokens (xs.map item) ++ Mark.closeBracket.token :: rest)
      exact ⟨e, parseMoreElements_fault rfl he⟩

theorem properties_refused {p fs}
    (h : ∀ q ∈ p :: fs, q.2.empties ≠ 0 → Refused q.2) (hbad : ∃ q ∈ p :: fs, q.2.empties ≠ 0) (rest : List Token) :
    ∃ e, Gives parseProperties ((fieldEntry p).tokens ++
      (((fs.map fieldEntry).flatMap fun q => Mark.comma.token :: q.tokens) ++ rest)) (.error e) := by
  induction fs generalizing p with
  | nil =>
    rw [forall_mem_singleton] at h
    obtain ⟨q, hq, hbad⟩ := hbad
    cases mem_singleton.1 hq
    obtain ⟨e, he⟩ := h hbad rest
    exact ⟨e, parseProperties_value_fault rfl rfl he⟩
  | cons q fs ih =>
    rw [forall_mem_cons] at h
    rw [map_cons, flatMap_cons, cons_append, cons_append, append_assoc]
    by_cases hp : p.2.empties = 0
    · obtain ⟨e, he⟩ := ih h.2 (((exists_mem_cons_iff _ _ _).1 hbad).resolve_left (not_not.2 hp))
      exact ⟨e, parseProperties_more_fault rfl rfl (p.2.parsed hp Mark.comma.token _ (stops_mark rfl)) rfl he⟩
    · obtain ⟨e, he⟩ := h.1 hp _
      exact ⟨e, parseProperties_value_fault rfl rfl he⟩

theorem Refused.array {x} (hx : x.isEmpty = false)
    (h : ∀ y ∈ x :: xs, y.empties ≠ 0 → Refused y) (hbad : ∃ y ∈ x :: xs, y.empties ≠ 0) :
    Refused (.array (x :: xs)) := by
  intro rest
  rw [forall_mem_cons] at h
  obtain ⟨v, vs, hi, hv⟩ := Literal.exists_opener hx
  have hfirst : v.kind ≠ .closeBracket := kind_ne_of_opens hv rfl
  rw [tokens_array_cons]
  simp only [append_assoc, cons_append]
  suffices hfault : ∃ e, Gives parseArray (Mark.openBracket.token ::
      (x.tokens ++ (moreTokens (xs.map item) ++ Mark.closeBracket.token :: rest))) (.error e) by
    obtain ⟨e, he⟩ := hfault
    exact ⟨e, parseExpression_fault (parsePrimary_array rfl he)⟩
  by_cases hempties : x.empties = 0
  · obtain ⟨d, ds, hnext, hd⟩ := more_head (xs.map item) (stops_mark (m := .closeBracket) rfl) rest
    obtain ⟨e, he⟩ := moreElements_refused h.2
      (((exists_mem_cons_iff _ _ _).1 hbad).resolve_left (not_not.2 hempties)) rest
    have hparse := x.parsed hempties d ds hd
    rw [hnext] at he ⊢
    rw [hi] at hparse ⊢
    exact ⟨e, parseArray_more_fault rfl hfirst hparse he⟩
  · obtain ⟨e, he⟩ := h.1 hempties (moreTokens (xs.map item) ++ Mark.closeBracket.token :: rest)
    rw [hi] at he ⊢
    exact ⟨e, parseArray_first_fault rfl hfirst he⟩

theorem Refused.object {p fs}
    (h : ∀ q ∈ p :: fs, q.2.empties ≠ 0 → Refused q.2) (hbad : ∃ q ∈ p :: fs, q.2.empties ≠ 0) :
    Refused (.object (p :: fs)) := by
  intro rest
  obtain ⟨e, he⟩ := properties_refused h hbad (Mark.closeBrace.token :: rest)
  rw [tokens_object_cons]
  simp only [append_assoc, cons_append]
  refine ⟨e, parseExpression_fault (he.step fun f he => ?_)⟩
  rw [parsePrimary, peek_bind]
  show (advance >>= _) _ = _
  rw [advance_bind]
  exact bind_of_error he _

theorem exists_ne_zero {α : Type} {xs : List α} {f} (h : (xs.map f).sum ≠ 0) : ∃ x ∈ xs, f x ≠ 0 := by
  by_contra hno
  refine h (List.sum_eq_zero_iff_forall_eq_nat.2 (forall_mem_map.2 fun x hx => ?_))
  by_contra hne
  exact hno ⟨x, hx, hne⟩

/-- If all the empty arrays and objects inside a literal are values of fields, the first one stops the parser. -/
theorem Literal.refused (l : Literal) (hle : l.empties ≤ faceHints l.faces) (hne : l.empties ≠ 0) : Refused l := by
  induction l using induct with
  | null | bool | whole | string => exact absurd rfl hne
  | array items ih =>
    cases items with
    | nil => exact absurd hle (by rw [faces_array_nil]; decide)
    | cons x xs =>
      rw [empties, isEmpty_cons, toNat_false, zero_add, itemEmpties_eq] at hle hne
      have hitem : ∀ y ∈ x :: xs, y.empties ≤ faceHints y.faces := by
        intro y hy
        refine Part.empties_le (p := (none, x)) (o := .openBracket) (c := .closeBracket)
          (by decide) ?_ (mem_map_of_mem (f := (none, ·)) hy)
        rw [faces_array_cons] at hle
        rwa [← map_cons (f := (none, ·)), map_map, map_map]
      have hfirst : x.isEmpty = false := by
        have hx := hitem x (.head _)
        have hlow := x.faceHints_add_le
        exact toNat_eq_zero.1 (by omega)
      exact .array hfirst (fun y hy => ih y hy (hitem y hy)) (exists_ne_zero hne)
  | object fields ih =>
    cases fields with
    | nil => exact absurd hle (by rw [faces_object_nil]; decide)
    | cons p fs =>
      rw [empties, isEmpty_cons, toNat_false, zero_add, fieldEmpties_eq] at hle hne
      refine .object (fun q hq hq' => ?_) (exists_ne_zero hne)
      cases hempty : q.2.isEmpty with
      | true => exact .of_isEmpty hempty
      | false =>
        let part (f : Name × Literal) : Part := (some f.1, f.2)
        have hpart := Part.empties_le (p := part p) (o := .openBrace) (c := .closeBrace) (by decide) ?_
          (mem_map_of_mem (f := part) hq)
        · have hlow := (part q).faceHints_le
          rw [hempty] at hlow
          exact ih q hq (hpart.trans hlow) hq'
        · rw [faces_object_cons] at hle
          rwa [← map_cons, map_map, map_map]

/-! ## Texts that are refused by the count of brackets -/

/-- Statements go on to the end of the source. -/
theorem parseStatements_end {f ts rest ns}
    (h : parseStatements f ts = .ok (ns, rest)) : ∃ t us, rest = t :: us ∧ t.kind = .eof := by
  induction f generalizing ts ns with
  | zero =>
    cases h
  | succ f ih =>
    cases ts with
    | nil =>
      cases h
    | cons t ts =>
      rw [parseStatements, atKind_bind] at h
      by_cases ht : t.kind = .eof
      · rw [if_pos (decide_eq_true ht)] at h
        cases h
        exact ⟨t, ts, rfl, ht⟩
      · rw [if_neg (by simp [ht])] at h
        obtain ⟨s, us, -, h⟩ := bind_eq_ok h
        obtain ⟨more, vs, hmore, h⟩ := bind_eq_ok h
        cases h
        exact ih hmore

/-- Tokens without an end in front of the last one are all taken. -/
theorem taken_eq {ts taken us} {e t : Token} (h : ts ++ [e] = taken ++ t :: us)
    (hts : ∀ u ∈ ts, u.kind ≠ .eof) (ht : t.kind = .eof) : taken = ts := by
  obtain ⟨as, rfl, has⟩ | ⟨cs, rfl, hcs⟩ := append_eq_append_iff.1 h
  · cases as with
    | nil => exact append_nil ts
    | cons a as =>
      have hlen := congrArg length has
      simp at hlen
  · cases cs with
    | nil => exact (append_nil taken).symm
    | cons c cs =>
      cases hcs
      exact absurd ht (hts t (by simp))

theorem plainFace_of_kind (hend : f.2 ≠ .eof) (hnumber : f.2 ≠ .number) : PlainFace f :=
  ⟨hend, fun h => absurd h hnumber⟩

theorem Mark.plainFace (m : Mark) : PlainFace m.face := by
  cases m <;> exact plainFace_of_kind (by decide) (by decide)

theorem Part.plainFace (h : ∀ f ∈ p.2.faces, PlainFace f) : ∀ f ∈ p.faces, PlainFace f := by
  refine forall_mem_append.2 ⟨?_, h⟩
  obtain ⟨_ | key, x⟩ := p
  · exact fun _ hf => absurd hf not_mem_nil
  · refine forall_mem_cons.2 ⟨?_, forall_mem_singleton.2 Mark.colon.plainFace⟩
    exact plainFace_of_kind TokenKind.noConfusion TokenKind.noConfusion

theorem Literal.plainFace (l : Literal) : ∀ f ∈ l.faces, PlainFace f := by
  induction l using inductParts with
  | atom l f hf hatom =>
    rw [hf, forall_mem_singleton]
    exact hatom.toPlainFace
  | empty l o c hf =>
    rw [hf, forall_mem_singleton]
    exact c.plainFace
  | listed l o c p ps hf _ _ _ ih =>
    rw [forall_mem_cons] at ih
    rw [hf, forall_mem_cons, forall_mem_append, forall_mem_append, forall_mem_singleton]
    refine ⟨o.plainFace, p.plainFace ih.1, fun f hmem => ?_, c.plainFace⟩
    obtain ⟨fs, hfs, hmem⟩ := mem_flatMap.1 hmem
    obtain ⟨q, hq, rfl⟩ := mem_map.1 hfs
    rcases mem_cons.1 hmem with rfl | hmem
    · exact Mark.comma.plainFace
    · exact q.plainFace (ih.2 q hq) f hmem

/-- The digits of a whole number are decimal ones. -/
theorem Whole.not_oddDigit (n : Whole) {c} (hc : c ∈ n.face.1.toList) : ¬ OddDigit c := by
  have hletters : n.face.1.toList = minusSign n.isNegative ++ digitsOf n.value.natAbs := by
    rw [face, ← n.text_lexeme, String.toList_ofList, lexeme, Lexeme.source, n.numeral_letters]
  rw [hletters] at hc
  rintro ⟨hdigit, hdecimal⟩
  rcases mem_append.1 hc with hc | hc
  · unfold minusSign at hc
    split at hc
    · rw [mem_singleton.1 hc] at hdigit
      exact absurd hdigit (by decide)
    · cases hc
  · rw [isDecimalDigit, decimalValue?_of_isDigit (isDigit_of_mem_digitsOf hc)] at hdecimal
    cases hdecimal

/-- A text with more empty arrays and objects than there are behind colons closes too many brackets. -/
theorem parse_unbalanced_error (hl : faceHints l.faces < l.empties) {ts q}
    (htokens : tokenize l.source = .ok (ts ++ [endToken q])) (hts : ts.map Token.face = l.faces) :
    ∃ e, parse l.source = .error e := by
  cases hparse : parse l.source with
  | error e => exact ⟨e, rfl⟩
  | ok tree =>
    obtain ⟨body, rfl⟩ := program_of_parse hparse
    obtain ⟨us, f, rest, hus, hstatements⟩ := statements_of_parse hparse
    cases htokens.symm.trans hus
    obtain ⟨tail, hfollows⟩ := statements_follow htokens f
    rw [hstatements] at hfollows
    obtain ⟨t, us, rfl, ht⟩ := parseStatements_end hstatements
    obtain ⟨taken, htaken, hclose⟩ := hfollows.taken id
    have hkinds : ∀ u ∈ ts, u.kind ≠ .eof := fun u hu =>
      (l.plainFace u.face (hts ▸ mem_map_of_mem hu)).notEnd
    rw [taken_eq htaken hkinds ht, ClosesAtMost, closings_eq, hinted_eq, hts, l.faceClosings_faces] at hclose
    omega

/-- Where the literal is refused, so is its text. -/
theorem parse_refused (hl : l.isEmpty = false) (h : Refused l) {ts q}
    (htokens : tokenize l.source = .ok (ts ++ [endToken q])) (hts : ts.map Token.face = l.faces) :
    ∃ e, parse l.source = .error e := by
  have hfaces : l.tokens.map Token.face = ts.map Token.face := by
    rw [hts, tokens, map_map]
    exact map_id _
  obtain ⟨e, he⟩ := h [endToken q]
  obtain ⟨t, us, htokens', ht⟩ := Literal.exists_opener hl
  have hend : t.kind ≠ .eof := kind_ne_of_opens ht rfl
  rw [htokens'] at he
  have hstatement : Gives parseStatement (t :: us ++ [endToken q]) (.error e) :=
    he.step fun f hf => (parseStatement_expression ht).trans hf
  have hstatements : Gives parseStatements (t :: us ++ [endToken q]) (.error e) := by
    refine hstatement.step fun f hf => ?_
    rw [cons_append] at hf ⊢
    rw [parseStatements, atKind_bind, if_neg (by simp [hend])]
    exact bind_of_error hf _
  exact error_of_gives htokens hfaces (htokens' ▸ hstatements)

/-- A printed literal with an empty array or object inside is refused with a syntax error. -/
theorem parse_unbalanced (l : Literal) (hl : l.empties ≠ 0) :
    ∃ f, parse l.source = .error f ∧ (Failure.parse l.source f).kind = .syntaxError := by
  obtain ⟨ts, q, htokens, hts⟩ := tokenize_literal l
  obtain ⟨e, hparse⟩ : ∃ e, parse l.source = .error e := by
    by_cases hle : l.empties ≤ faceHints l.faces
    · have hlow := l.faceHints_add_le
      exact parse_refused (toNat_eq_zero.1 (by omega)) (l.refused hle hl) htokens hts
    · exact parse_unbalanced_error (by omega) htokens hts
  obtain ⟨body, hbody, -⟩ | ⟨f, hf, hblame⟩ := parse_of_tokens htokens
  · rw [hparse] at hbody
    cases hbody
  refine ⟨f, hf, ?_⟩
  -- no colon is the last token, and no number has an odd digit
  obtain hkind | ⟨-, before, c, e, heq, hc, -⟩ | ⟨-, t, ht, hk, c, hmem, hodd⟩ := kind_of_blames htokens hblame
  · exact hkind
  · obtain ⟨gs, g, hfaces, hcolon⟩ := l.endsPart
    have hsplit : before ++ [c, e] = (before ++ [c]) ++ [e] := append_cons before c [e]
    obtain ⟨rfl, -⟩ := append_inj' (heq.trans hsplit) rfl
    rw [hfaces, map_append] at hts
    obtain ⟨-, hlast⟩ := append_inj' hts rfl
    cases hlast
    exact absurd hc hcolon
  · rcases mem_append.1 ht with ht | ht
    · obtain ⟨n, hn⟩ := (l.plainFace t.face (hts ▸ mem_map_of_mem ht)).number hk
      rw [show t.value = n.face.1 from congrArg Prod.fst hn] at hmem
      exact absurd hodd (n.not_oddDigit hmem)
    · rw [mem_singleton.1 ht] at hk
      cases hk

end SmallScript.Syntax
