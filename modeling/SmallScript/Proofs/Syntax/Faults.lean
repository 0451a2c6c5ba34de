import SmallScript.Proofs.Syntax.Progress
import SmallScript.Proofs.Syntax.Words

/-!
# How parsing can fail

`Token.Lexed` lists the tokens that the lexer makes. As these keep the lexer's promises, `statements_agree` names the
token to blame for every fault. Each token lies on a line of the source, and a number token has a value unless one of
its digits is no decimal digit. Hence a source text has a tree, or it is refused with a syntax error, apart from three
cases: `parse_ok_or_fails_as`.
-/

namespace SmallScript.Syntax

open Text Number List String
open Machine (Failure FailureKind)
open Evaluate (compoundOperators)

variable {cs rest : List Char} {ls : List Lexeme} {l : Lexeme} {c : Char} {p : Place} {tree : Node}

variable {source : String} {ts : List Token}

/-! ## Tokens of a source -/

theorem Splits.begins (h : Splits cs ls rest) (hl : l ∈ ls) : ∃ r, l.Begins r := by
  induction h with
  | nil => cases hl
  | cons hbegins _ ih =>
    rcases mem_cons.1 hl with rfl | hl
    · exact ⟨_, hbegins⟩
    · exact ih hl

/-- The tokens that the lexer makes, the one for the end apart. -/
inductive Token.Lexed (t : Token) : Prop where
  | operator (h : t.face ∈ operators)
  | minus (h : t.face = ("-", .binaryOperator))
  | keyword (h : t.face ∈ keywords)
  | name {text : String} (h : t.face = (text, .identifier)) (hname : IsName text)
  | number (neg : Bool) {d : Char} {run : List Char} (hd : isDigit d = true) (hrun : DigitRun false run)
    (h : t.face = (String.ofList (minusSign neg ++ d :: run), .number))
  | string {text : String} (h : t.face = (text, .string)) (hquote : Unquoted text)

theorem mem_of_lookup_keyword {text kind} (h : keywords.lookup text = some kind) : (text, kind) ∈ keywords := by
  obtain ⟨k, hk, rfl⟩ := Option.map_eq_some_iff.1 ((find?_keyword text).trans h)
  have htext := find?_some hk
  rw [← beq_iff_eq.1 htext]
  exact mem_of_find?_eq_some hk

/-- A word that is no keyword is a name. -/
theorem isName_of_word {run} (hc : isLetter c = true ∨ c = '_') (hrun : AllOf continuesWord run)
    (h : keywords.lookup (String.ofList (c :: run)) = none) : IsName (String.ofList (c :: run)) := by
  refine ⟨⟨c, run, hc, hrun, fun k hk he => ?_⟩, rfl⟩
  rw [← find?_keyword, Option.map_eq_none_iff, find?_eq_none] at h
  exact h k hk (beq_iff_eq.2 he)

theorem Lexeme.Begins.lexed {r} (h : l.Begins r) {t : Token} (ht : t.face ∈ l.faces) : t.Lexed := by
  cases h with
  | space | newline | comment | lastComment => cases ht
  | operator hmem => exact .operator (mem_singleton.1 ht ▸ hmem)
  | minus => exact .minus (mem_singleton.1 ht)
  | number neg hd hrun => exact .number neg hd hrun.1 (mem_singleton.1 ht)
  | string hquote => exact .string (mem_singleton.1 ht) (by rwa [Unquoted, toList_ofList])
  | @word neg c run rest hc hrun =>
    unfold faces at ht
    dsimp only at ht
    split at ht
    · next kind hkey => exact .keyword (mem_singleton.1 ht ▸ mem_of_lookup_keyword hkey)
    · next hkey =>
      have hname := isName_of_word hc hrun.1 hkey
      split at ht
      · simp only [mem_cons, not_mem_nil, or_false] at ht
        rcases ht with ht | ht | ht | ht | ht
        · exact .operator (ht ▸ by decide)
        · exact .number false (by decide) (.nil false) ht
        · exact .minus ht
        · exact .name ht hname
        · exact .operator (ht ▸ by decide)
      · exact .name (mem_singleton.1 ht) hname

/-- The lexemes of a source that has tokens, and its tokens. -/
theorem exists_lexemes (h : tokenize source = .ok ts) :
    ∃ ls, Splits source.toList ls [] ∧ ts = lexemeTokens .start ls ++ [endToken (Place.start.afterAll ls)] := by
  obtain ⟨ls, rest, hs, rfl | ⟨e, he⟩⟩ := exists_splits source.toList
  · rw [tokenize_of_splits hs] at h
    cases h
    exact ⟨ls, hs, rfl⟩
  · rw [tokenize_of_stuck hs he] at h
    cases h

theorem lexed_of_mem (hs : Splits cs ls rest) {t} (ht : t ∈ lexemeTokens p ls) : t.Lexed := by
  have hface : t.face ∈ ls.flatMap Lexeme.faces := by
    rw [← lexemeTokens_faces]
    exact mem_map_of_mem ht
  obtain ⟨l, hl, hface⟩ := mem_flatMap.1 hface
  obtain ⟨r, hr⟩ := hs.begins hl
  exact hr.lexed hface

/-! ## Soundness of tokens -/

theorem operators_sound : ∀ o ∈ operators, o.2 ≠ .number ∧ o.2 ≠ .eof ∧ o.2 ≠ .identifier ∧ o.2 ≠ .string ∧
    (o.2 = .assignmentOperator → o.1 ∈ compoundOperators) ∧ (o.1 ∈ binaryOperators → o.2.closing = 0) := by
  decide

theorem keywords_sound : ∀ k ∈ keywords, k.2 ≠ .number ∧ k.2 ≠ .eof ∧ k.2 ≠ .identifier ∧ k.2 ≠ .string ∧
    k.2 ≠ .assignmentOperator ∧ k.2.closing = 0 := by
  decide

namespace Token

variable {t : Token}

theorem Lexed.sound (h : t.Lexed) : t.Sound := by
  cases h with
  | operator h =>
    obtain ⟨-, -, hname, hstring, hcompound, hoperator⟩ := operators_sound _ h
    exact ⟨fun hk => absurd hk hname, fun hk => absurd hk hstring, hcompound, hoperator⟩
  | keyword h =>
    obtain ⟨-, -, hname, hstring, hcompound, hclosing⟩ := keywords_sound _ h
    exact ⟨fun hk => absurd hk hname, fun hk => absurd hk hstring, fun hk => absurd hk hcompound, fun _ => hclosing⟩
  | name h hname =>
    obtain ⟨rfl, hk⟩ := Prod.mk.inj h
    exact ⟨fun _ => hname, by simp [hk], by simp [hk], by simp [hk, TokenKind.closing]⟩
  | string h hquote =>
    obtain ⟨rfl, hk⟩ := Prod.mk.inj h
    exact ⟨by simp [hk], fun _ => hquote, by simp [hk], by simp [hk, TokenKind.closing]⟩
  | minus h | number _ _ _ h =>
    have hk := (Prod.mk.inj h).2
    exact ⟨by simp [hk], by simp [hk], by simp [hk], by simp [hk, TokenKind.closing]⟩

theorem Lexed.kind_ne_eof (h : t.Lexed) : t.kind ≠ .eof := by
  cases h with
  | operator h => exact (operators_sound _ h).2.1
  | keyword h => exact (keywords_sound _ h).2.1
  | minus h | string h | name h | number _ _ _ h =>
    rw [(Prod.mk.inj h).2]
    exact TokenKind.noConfusion

theorem IsEnd.fresh (h : t.IsEnd) : t.Fresh := by
  obtain ⟨hv, hk⟩ := Prod.mk.inj h
  exact ⟨hk ▸ by decide, hv ▸ by decide⟩

end Token

/-- Tokens with an end, and a tail in place of it. -/
def Course.joined (tail : List Token) : Course := ⟨False, id, "", tail, fun _ _ => spares_id _, fun _ => rfl⟩

/-- A tail in place of the end, and other positions. -/
theorem beside_of_faces {us vs e v} (hfaces : ts.map Token.face = us.map Token.face)
    (hts : ∀ t ∈ ts, t.Lexed) (he : e.IsEnd) (hv : v.Fresh) :
    Beside (.joined (v :: vs)) (ts ++ [e]) (us ++ v :: vs) := by
  induction ts generalizing us with
  | nil =>
    rw [map_eq_nil_iff.1 hfaces.symm]
    exact .stop id he hv rfl
  | cons t ts ih =>
    obtain ⟨u, us, rfl, hface, hus⟩ := map_eq_cons_iff.1 hfaces.symm
    rw [forall_mem_cons] at hts
    refine .cons ⟨?_, False.elim, fun _ => hts.1.kind_ne_eof, fun _ => hts.1.sound⟩ (ih hus.symm hts.2)
    rw [hface, show (Course.joined (v :: vs)).text = id from rfl, Token.mapText_id]

theorem statements_follow (h : tokenize source = .ok ts) (f : Nat) :
    ∃ tail, Follows (.joined tail) (LikeLists (.joined tail)) (fun ns => (textsOf ns).count "") f 13 0 0 0 True ts
      (parseStatements f ts) (parseStatements f ts) := by
  obtain ⟨ls, hs, rfl⟩ := exists_lexemes h
  have hend : (endToken (Place.start.afterAll ls)).IsEnd := rfl
  exact ⟨_, (statements_agree (le_refl f)).run (beside_of_faces rfl (fun _ => lexed_of_mem hs) hend hend.fresh)⟩

/-! ## Lines of tokens -/

theorem Lexeme.tokens_line {t} (ht : t ∈ l.tokens p) : t.pos.line = p.line := by
  cases l with
  | space | newline | comment => cases ht
  | operator | minus | number | string =>
    rw [mem_singleton.1 ht]
    rfl
  | word neg letters =>
    unfold tokens at ht
    dsimp only at ht
    split at ht
    · simp only [mem_cons, not_mem_nil, or_false] at ht
      rcases ht with rfl | rfl | rfl | rfl | rfl <;> rfl
    · rw [mem_singleton.1 ht]
      rfl

theorem lexemeTokens_line (h : Splits cs ls rest) {t} (ht : t ∈ lexemeTokens p ls) :
    ∃ line : Nat, t.pos.line = line ∧ p.line ≤ line ∧ line ≤ p.line + cs.count '\n' := by
  induction h generalizing p with
  | nil => cases ht
  | @cons l cs rest ls _ _ ih =>
    obtain ⟨hle, hge⟩ := p.line_after_le l
    rw [count_append]
    rcases mem_append.1 ht with ht | ht
    · exact ⟨_, Lexeme.tokens_line ht, hge, by omega⟩
    · obtain ⟨line, hline, hge', hle'⟩ := ih ht
      exact ⟨line, hline, by omega, by omega⟩

/-- Every token lies on a line of the source. -/
theorem lineOf?_of_tokenize (h : tokenize source = .ok ts) {t} (ht : t ∈ ts) :
    (lineOf? source t.pos.line).isSome = true := by
  obtain ⟨ls, hs, rfl⟩ := exists_lexemes h
  rcases mem_append.1 ht with ht | ht
  · obtain ⟨line, hline, hge, hle⟩ := lexemeTokens_line hs ht
    rw [hline]
    exact lineOf?_isSome hge hle
  · rw [mem_singleton.1 ht]
    obtain ⟨hle, hge⟩ := Place.line_afterAll_le hs .start
    exact lineOf?_isSome hge hle

/-! ## Numbers -/

/-- The character is a digit, but none of a decimal system. -/
def OddDigit (c : Char) : Prop := isDigit c = true ∧ isDecimalDigit c = false

theorem isDecimalDigit_of_not_odd (hc : isDigit c = true) (hodd : ¬ OddDigit c) : isDecimalDigit c = true :=
  Bool.not_eq_false _ ▸ fun hno => hodd ⟨hc, hno⟩

/-- Decimal digits with at most one point are a numeral. -/
theorem exists_numeral {d run} (hd : isDecimalDigit d = true) (hrun : DigitRun false run)
    (hdigits : ∀ c ∈ run, ¬ OddDigit c) : ∃ n : Numeral, n.letters = d :: run := by
  have hdecimal : ∀ c ∈ run, c ≠ '.' → isDecimalDigit c = true := fun c hc hpoint =>
    isDecimalDigit_of_not_odd ((hrun.1 c hc).resolve_right hpoint) (hdigits c hc)
  by_cases hpoint : '.' ∈ run
  · obtain ⟨whole, places, rfl⟩ := append_of_mem hpoint
    have hcount := hrun.2
    rw [count_append, count_cons_self] at hcount
    have hwhole : '.' ∉ whole := count_eq_zero.1 (by omega)
    have hplaces : '.' ∉ places := count_eq_zero.1 (by omega)
    refine ⟨⟨d, whole, some places, forall_mem_cons.2 ⟨hd, fun c hc => ?_⟩, ?_⟩, rfl⟩
    · exact hdecimal c (mem_append_left _ hc) fun he => hwhole (he ▸ hc)
    · rintro _ ⟨⟩ c hc
      exact hdecimal c (by simp [hc]) fun he => hplaces (he ▸ hc)
  · refine ⟨⟨d, run, none, forall_mem_cons.2 ⟨hd, fun c hc => ?_⟩, fun _ h => nomatch h⟩, ?_⟩
    · exact hdecimal c hc fun he => hpoint (he ▸ hc)
    · simp [Numeral.letters, Numeral.tail]

/-- A minus sign in front changes the sign of the value. -/
theorem decimal?_minus (hc : isDecimalDigit c = true) (cs : List Char) :
    decimal? ('-' :: c :: cs) = (decimal? (c :: cs)).map (- ·) := by
  have hname : ∀ d ds, isDecimalDigit d = false → (c :: cs == d :: ds) = false := by
    intro d ds hd
    rw [beq_eq_false_iff_ne]
    exact fun he => ne_of_class hc hd (cons.inj he).1
  have hinf : "inf".toList = ['i', 'n', 'f'] := toList_ofList
  have hnan : "nan".toList = ['n', 'a', 'n'] := toList_ofList
  rw [decimal?_of_digit hc]
  unfold decimal?
  simp only [hinf, hnan, hname 'i' _ (by decide), hname 'n' _ (by decide), Bool.false_eq_true, if_false, if_true]

theorem numberValue?_signed (neg : Bool) (n : Numeral) :
    numberValue? (String.ofList (minusSign neg ++ n.letters)) = some (if neg then -n.value else n.value) := by
  have hvalue := numberValue?_numeral n
  cases neg with
  | false => exact hvalue
  | true =>
    have hfirst : isDecimalDigit n.first = true := n.whole_digits _ (.head _)
    rw [numberValue?, toList_ofList] at hvalue ⊢
    show decimal? ('-' :: n.first :: (n.more ++ n.tail)) = _
    rw [decimal?_minus hfirst]
    exact congrArg (Option.map _) hvalue

/-- A number token without a value has an odd digit. -/
theorem Token.Lexed.oddDigit {t : Token} (h : t.Lexed) (hk : t.kind = .number) (hv : numberValue? t.value = none) :
    ∃ c ∈ t.value.toList, OddDigit c := by
  cases h with
  | operator h => exact absurd hk (operators_sound _ h).1
  | keyword h => exact absurd hk (keywords_sound _ h).1
  | name h | minus h | string h => exact absurd (hk.symm.trans (congrArg Prod.snd h)) TokenKind.noConfusion
  | @number neg d run hd hrun h =>
    rw [show t.value = _ from congrArg Prod.fst h] at hv ⊢
    by_contra hno
    simp only [not_exists, not_and] at hno
    have hdecimal : isDecimalDigit d = true := isDecimalDigit_of_not_odd hd (hno d (by simp))
    obtain ⟨n, hn⟩ := exists_numeral hdecimal hrun fun c hc => hno c (by simp [hc])
    rw [← hn, numberValue?_signed] at hv
    cases hv

/-! ## Failure modes -/

/-- A source has a tree, or one of its tokens is to blame. -/
theorem parse_of_tokens (h : tokenize source = .ok ts) :
    (∃ body, parse source = .ok (.program .zero body) ∧ AllGenuine body) ∨
      ∃ f, parse source = .error f ∧ Blames ts f := by
  obtain ⟨tail, hfollows⟩ := statements_follow h (depthBound ts)
  have hends := parserProgresses.program.ends (depthBound ts) ts (by unfold depthBound; omega)
  have hparse : parse source = ((parseStatements (depthBound ts) ts).map (·.1)).map (.program .zero ·) := by
    rw [parse, h]
    rfl
  rw [hparse]
  generalize parseStatements (depthBound ts) ts = r at hfollows hends
  cases hfollows with
  | ok _ _ _ _ _ _ hbody | ended _ _ _ _ _ _ hbody => exact .inl ⟨_, rfl, hbody.genuine id⟩
  | error _ _ hblame => exact .inr ⟨_, rfl, hblame id⟩
  | deep => exact absurd rfl hends

theorem program_of_parse (h : parse source = .ok tree) : ∃ body, tree = .program .zero body := by
  unfold parse at h
  split at h
  · cases h
  · next tokens _ =>
    cases hr : parseTokens tokens with
    | error f =>
      rw [hr] at h
      cases h
    | ok body =>
      rw [hr] at h
      cases h
      exact ⟨body, rfl⟩

theorem genuine_of_parse (h : parse source = .ok tree) : tree.Genuine := by
  cases ht : tokenize source with
  | error g =>
    rw [parse, ht] at h
    cases h
  | ok ts =>
    obtain ⟨body, hbody, hgenuine⟩ | ⟨f, hf, _⟩ := parse_of_tokens ht
    · rw [hbody] at h
      cases h
      exact hgenuine
    · rw [hf] at h
      cases h

theorem formed_of_parse (h : parse source = .ok tree) : tree.Formed := (genuine_of_parse h).formed

/-- What a token to blame makes of the failure. -/
theorem kind_of_blames (h : tokenize source = .ok ts) {f} (hf : Blames ts f) :
    (Failure.parse source f).kind = .syntaxError ∨ ((Failure.parse source f).kind = .index ∧
        ∃ before c e, ts = before ++ [c, e] ∧ c.kind = .colon ∧ e.kind = .eof) ∨
      ((Failure.parse source f).kind = .value ∧ ∃ t ∈ ts, t.kind = .number ∧ ∃ c ∈ t.value.toList, OddDigit c) := by
  cases hf with
  | here ht cause => exact .inl (if_pos (lineOf?_of_tokenize h ht))
  | cutOff before hts hc he => exact .inr (.inl ⟨rfl, before, _, _, hts, hc, congrArg Prod.snd he⟩)
  | @badNumber t ht hk hv =>
    refine .inr (.inr ⟨rfl, t, ht, hk, ?_⟩)
    obtain ⟨ls, hs, rfl⟩ := exists_lexemes h
    rcases mem_append.1 ht with ht | ht
    · exact (lexed_of_mem hs ht).oddDigit hk hv
    · rw [mem_singleton.1 ht] at hk
      cases hk

/-- A source text has a tree, or it is refused with a syntax error, or with the failure of a missing token or
character, or with that of a bad number. A missing character is one that the lexer missed. A token is missing only
if a colon is the last one before the end. A number is bad only if one of its digits is none of a decimal system.
Where the lexer fails, parsing fails in the same way. -/
theorem parse_ok_or_fails_as (source : String) :
    (∀ g, tokenize source = .error g → parse source = .error g.toParseFault) ∧
    ((∃ body, parse source = .ok (.program .zero body)) ∨ ∃ f, parse source = .error f ∧
        ((Failure.parse source f).kind = .syntaxError ∨ ((Failure.parse source f).kind = .index ∧
            ((∃ g, tokenize source = .error g ∧ f = g.toParseFault) ∨
              ∃ before c e, tokenize source = .ok (before ++ [c, e]) ∧ c.kind = .colon ∧ e.kind = .eof)) ∨
          ((Failure.parse source f).kind = .value ∧ ∃ ts, tokenize source = .ok ts ∧
              ∃ t ∈ ts, t.kind = .number ∧ ∃ c ∈ t.value.toList, isDigit c = true ∧ isDecimalDigit c = false))) := by
  refine ⟨fun g hg => by rw [parse, hg], ?_⟩
  cases h : tokenize source with
  | error g =>
    refine .inr ⟨g.toParseFault, by rw [parse, h], ?_⟩
    obtain ⟨ls, rest, hs, _, hplace⟩ := stuck_of_tokenize_error h
    obtain ⟨cause, place⟩ := g
    subst hplace
    have hkind := kind_of_stuck hs cause
    cases cause with
    | unknown c => exact .inl hkind
    | lastMinus | unclosedString => exact .inr (.inl ⟨hkind, .inl ⟨_, rfl, rfl⟩⟩)
  | ok ts =>
    obtain ⟨body, hbody, _⟩ | ⟨f, hf, hblame⟩ := parse_of_tokens h
    · exact .inl ⟨body, hbody⟩
    · refine .inr ⟨f, hf, ?_⟩
      obtain hkind | ⟨hkind, before, c, e, rfl, hc, he⟩ | ⟨hkind, hnumber⟩ := kind_of_blames h hblame
      · exact .inl hkind
      · exact .inr (.inl ⟨hkind, .inr ⟨before, c, e, rfl, hc, he⟩⟩)
      · exact .inr (.inr ⟨hkind, ts, rfl, hnumber⟩)

end SmallScript.Syntax
