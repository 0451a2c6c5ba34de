import SmallScript.Proofs.Syntax.Faults

/-!
# Texts that are put together at a line break

No lexeme but a string or a comment goes on behind a line break, and a comment at the end of a text is closed by one.
So a text that can be read to its end is read in the same way in front of a line break, `Splits.before_newline`. The
same is true of a semicolon, `Splits.before_semicolon`.

The text behind the line break is read as if it stood alone, only from another place: `Place.shift` moves a place down
by some lines, and a place on the first line also one column to the right, as columns are counted from one behind a
line break and from zero at the start. Together this is `tokenize_line_break`.
-/

namespace SmallScript.Syntax

open Text List Lexeme Place
open Machine (Failure)

variable {ls : List Lexeme}

/-! ## Lexemes in front of a line break -/

/-- A beginning of a text that lacks a certain character ends before that character. -/
theorem prefix_of_not_mem {c : Char} {more xs ys} (h : more <+: xs ++ c :: ys) (hc : c ∉ more) : more <+: xs := by
  rcases prefix_or_prefix_of_prefix h (prefix_append xs (c :: ys)) with hle | ⟨tail, rfl⟩
  · exact hle
  · cases tail with
    | nil =>
      rw [append_nil]
    | cons d ds =>
      rw [prefix_append_right_inj, cons_prefix_cons] at h
      rw [h.1] at hc
      exact absurd (mem_append_right _ (.head _)) hc

/-- A character that goes on with nothing that stands before it: no number or word has it, and no operator but itself. -/
structure Divides (c : Char) : Prop where
  operator : ∀ o ∈ operators, c ∈ o.1.toList → o.1.toList = [c]
  word : continuesWord c = false
  point : c ≠ '.'
  minus : c ≠ '-'

theorem divides_newline : Divides '\n' := ⟨by decide, by decide, by decide, by decide⟩

theorem divides_semicolon : Divides ';' := ⟨by decide, by decide, by decide, by decide⟩

namespace Divides

variable {c : Char} (h : Divides c)
include h

theorem eq_of_isOperator {text} (htext : IsOperator text) (hc : c ∈ text) : text = [c] := by
  obtain ⟨o, ho, rfl⟩ := htext
  exact h.operator o ho hc

theorem not_mem_digitRun {pointSeen run} (hrun : DigitRun pointSeen run) : c ∉ run := by
  intro hmem
  rcases hrun.1 c hmem with hd | hd
  · have hword := continuesWord_of_isDigit hd
    rw [h.word] at hword
    cases hword
  · exact h.point hd

theorem not_mem_word {run} (hrun : AllOf continuesWord run) : c ∉ run := by
  intro hmem
  have hword := hrun c hmem
  rw [h.word] at hword
  cases hword

end Divides

/-- A longest run stays the longest one in front of a character that no longer run has. -/
theorem Longest.before {P run rest} (h : Longest P run rest) {c}
    (hc : ∀ longer, P longer → c ∈ longer → longer.length ≤ run.length) (more : List Char) :
    Longest P run (rest ++ c :: more) := by
  refine ⟨h.1, fun longer hlonger hpre => ?_⟩
  by_cases hmem : c ∈ longer
  · exact hc longer hlonger hmem
  · rw [← append_assoc] at hpre
    exact h.2 longer hlonger (prefix_of_not_mem hpre hmem)

/-- A lexeme is the first one also if such a character follows the text, unless it is a comment up to the end. -/
theorem Lexeme.Begins.before {l : Lexeme} {rest} (h : l.Begins rest) {c} (hc : Divides c) (more : List Char) :
    l.Begins (rest ++ c :: more) ∨ ∃ body, l = .comment body none ∧ rest = [] ∧ ∀ c ∈ body, ¬ EndsComment c := by
  cases h with
  | space h => exact .inl (.space h)
  | newline => exact .inl .newline
  | comment hbody hclose => exact .inl (.comment hbody hclose)
  | lastComment hbody => exact .inr ⟨_, rfl, rfl, hbody⟩
  | operator h longest =>
    refine .inl (.operator h (longest.before (fun longer hlonger hmem => ?_) more))
    rw [hc.eq_of_isOperator hlonger hmem]
    exact length_pos_iff.2 (operators_nonempty _ h)
  | minus hno hdigit hletter hline =>
    refine .inl (.minus (fun text htext hpre => ?_) hdigit hletter hline)
    by_cases hmem : c ∈ text
    · rw [hc.eq_of_isOperator htext hmem, cons_prefix_cons] at hpre
      exact hc.minus hpre.1
    · exact hno text htext (prefix_of_not_mem hpre hmem)
  | number neg hd longest =>
    exact .inl (.number neg hd (longest.before (fun _ hrun hmem => absurd hmem (hc.not_mem_digitRun hrun)) more))
  | word neg hletter longest =>
    exact .inl (.word neg hletter (longest.before (fun _ hrun hmem => absurd hmem (hc.not_mem_word hrun)) more))
  | string h => exact .inl (.string h)

/-- Nothing but an empty list of lexemes has an empty text. -/
theorem Splits.eq_nil (h : Splits [] ls []) : ls = [] := by
  generalize hcs : ([] : List Char) = cs at h
  cases h with
  | nil => rfl
  | cons hl _ =>
    obtain ⟨c, cs', hc, -⟩ := read_of_begins hl
    rw [← hcs] at hc
    cases hc

/-- In front of a line break the lexemes of a text give the same tokens, and reading goes on at the start of the next
line. -/
theorem Splits.before_newline {cs} (h : Splits cs ls []) (more : List Char) :
    ∃ ls', Splits (cs ++ '\n' :: more) ls' more ∧
      ∀ p, lexemeTokens p ls' = lexemeTokens p ls ∧ p.afterAll ls' = ⟨(p.afterAll ls).line + 1, 1⟩ := by
  generalize hend : ([] : List Char) = rest at h
  induction h with
  | nil =>
    subst hend
    exact ⟨[.newline], .cons .newline .nil, fun p => ⟨rfl, rfl⟩⟩
  | @cons l cs rest ls hl hs ih =>
    obtain ⟨ls', hs', htokens⟩ := ih hend
    rcases hl.before divides_newline more with hl' | ⟨body, rfl, rfl, hbody⟩
    · refine ⟨l :: ls', ?_, fun p => ⟨?_, (htokens (p.after l)).2⟩⟩
      · rw [append_assoc]
        exact .cons hl' hs'
      · rw [lexemeTokens, lexemeTokens, (htokens (p.after l)).1]
    · -- the line break closes the comment
      subst hend
      cases hs.eq_nil
      refine ⟨[.comment body (some '\n')], ?_, fun p => ⟨rfl, rfl⟩⟩
      have hsource : source (.comment body none) ++ [] ++ '\n' :: more =
          source (.comment body (some '\n')) ++ more := by
        simp [source]
      rw [hsource]
      exact .cons (.comment hbody (.inr rfl)) .nil

/-- In front of a semicolon the lexemes of a text give the same tokens, and then there is one for the semicolon, unless a
comment at the end of the text takes it. -/
theorem Splits.before_semicolon {cs} (h : Splits cs ls []) (more : List Char) :
    ∃ ls', Splits (cs ++ ';' :: more) ls' more ∧ ∀ p, (p.afterAll ls').line = (p.afterAll ls).line ∧
        (lexemeTokens p ls' = lexemeTokens p ls ∨
          ∃ pos, lexemeTokens p ls' = lexemeTokens p ls ++ [⟨";", .semicolon, pos⟩]) := by
  generalize hend : ([] : List Char) = rest at h
  induction h with
  | nil =>
    subst hend
    have hsemicolon : Begins (.operator ";" .semicolon) more := by
      refine .operator (by decide) ⟨⟨(";", .semicolon), by decide, rfl⟩, fun longer hlonger hpre => ?_⟩
      cases longer with
      | nil => exact Nat.zero_le _
      | cons c cs =>
        obtain ⟨rfl, -⟩ := cons_prefix_cons.1 hpre
        rw [divides_semicolon.eq_of_isOperator hlonger (.head _)]
        exact le_refl 1
    exact ⟨[.operator ";" .semicolon], .cons hsemicolon .nil, fun p => ⟨rfl, .inr ⟨_, rfl⟩⟩⟩
  | @cons l cs rest ls hl hs ih =>
    obtain ⟨ls', hs', htokens⟩ := ih hend
    rcases hl.before divides_semicolon more with hl' | ⟨body, rfl, rfl, hbody⟩
    · refine ⟨l :: ls', ?_, fun p => ⟨(htokens (p.after l)).1, ?_⟩⟩
      · rw [append_assoc]
        exact .cons hl' hs'
      · rw [lexemeTokens, lexemeTokens]
        rcases (htokens (p.after l)).2 with heq | ⟨pos, heq⟩
        · exact .inl (by rw [heq])
        · exact .inr ⟨pos, by rw [heq, append_assoc]⟩
    · -- the semicolon closes the comment
      subst hend
      cases hs.eq_nil
      refine ⟨[.comment body (some ';')], ?_, fun p => ⟨rfl, .inl rfl⟩⟩
      have hsource : source (.comment body none) ++ [] ++ ';' :: more = source (.comment body (some ';')) ++ more := by
        simp [source]
      rw [hsource]
      exact .cons (.comment hbody (.inl rfl)) .nil

/-! ## Reading from another place -/

/-- The place some lines further down, where the first line begins one column further right. -/
def Place.shift (lines : Nat) (p : Place) : Place := ⟨lines + p.line, if p.line = 1 then p.col + 1 else p.col⟩

/-- The position some lines further down. -/
def Pos.shift (lines : Int) (p : Pos) : Pos := ⟨lines + p.line, if p.line = 1 then p.col + 1 else p.col, p.len⟩

/-- The token some lines further down. -/
def Token.shift (lines : Int) (t : Token) : Token := { t with pos := t.pos.shift lines }

section

variable {lines : Nat} {p : Place}

theorem Place.pos_shift (len : Nat) : (p.shift lines).pos len = (p.pos len).shift lines := by
  unfold pos Pos.shift shift
  by_cases hp : p.line = 1
  · simp [hp]
  · have hp' : ¬ (p.line : Int) = 1 := by omega
    simp [hp, hp']

theorem Place.after_shift (hp : 1 ≤ p.line) (l : Lexeme) : (p.shift lines).after l = (p.after l).shift lines := by
  have hnext : ¬ p.line + 1 = 1 := by omega
  have hline : ∀ len, (⟨(p.shift lines).line, (p.shift lines).col + len⟩ : Place) =
      shift lines ⟨p.line, p.col + len⟩ := by
    intro len
    unfold shift
    by_cases h1 : p.line = 1
    · simp only [h1, if_true, mk.injEq, true_and]
      omega
    · simp only [h1, if_false]
  unfold after
  split
  · simp only [shift, hnext, if_false, Nat.add_assoc]
  · simp only [shift, hnext, if_false, Nat.add_assoc]
  · exact hline _

theorem Lexeme.tokens_shift (l : Lexeme) : l.tokens (p.shift lines) = (l.tokens p).map (Token.shift lines) := by
  cases l with
  | space | newline | comment => rfl
  | operator | minus | number | string =>
    simp only [tokens, pos_shift, map_singleton, Token.shift]
  | word neg letters =>
    have hword : wordToken (p.shift lines) letters = (wordToken p letters).shift lines := by
      simp only [wordToken, pos_shift, Token.shift]
    unfold tokens
    dsimp only
    rw [hword]
    have hkind : ((wordToken p letters).shift lines).kind = (wordToken p letters).kind := rfl
    rw [hkind]
    split
    · simp only [pos_shift, map_cons, map_nil, Token.shift]
    · rfl

theorem lexemeTokens_shift (hp : 1 ≤ p.line) (ls : List Lexeme) :
    lexemeTokens (p.shift lines) ls = (lexemeTokens p ls).map (Token.shift lines) ∧
      (p.shift lines).afterAll ls = (p.afterAll ls).shift lines := by
  induction ls generalizing p with
  | nil => exact ⟨rfl, rfl⟩
  | cons l ls ih =>
    obtain ⟨htokens, hplace⟩ := ih (le_trans hp (p.line_after_le l).2)
    refine ⟨?_, ?_⟩
    · rw [lexemeTokens, lexemeTokens, after_shift hp, tokens_shift, htokens, map_append]
    · show ((p.shift lines).after l).afterAll ls = _
      rw [after_shift hp, hplace]
      rfl

theorem tokensFrom_shift (hp : 1 ≤ p.line) (cs : List Char) :
    (∀ ts, tokensFrom p cs = .ok ts → tokensFrom (p.shift lines) cs = .ok (ts.map (Token.shift lines))) ∧
      ∀ f, tokensFrom p cs = .error f → tokensFrom (p.shift lines) cs = .error ⟨f.cause, f.place.shift lines⟩ := by
  obtain ⟨ls, rest, hs, hend⟩ := exists_splits cs
  obtain ⟨htokens, hplace⟩ := @lexemeTokens_shift lines p hp ls
  rw [tokensFrom_of_splits hs, tokensFrom_of_splits hs, hplace, htokens]
  rcases hend with rfl | ⟨e, he⟩
  · have hstop : endToken ((p.afterAll ls).shift lines) = (endToken (p.afterAll ls)).shift lines :=
      congrArg (Token.mk "EOF" .eof) (pos_shift 1)
    rw [tokensFrom, tokensFrom, hstop]
    refine ⟨fun ts h => ?_, fun f h => by cases h⟩
    cases h
    simp only [Except.map, map_append, map_singleton]
  · rw [tokensFrom_of_stuck he, tokensFrom_of_stuck he]
    refine ⟨fun ts h => ?_, fun f h => ?_⟩
    · cases h
    · cases h
      rfl

end

/-! ## Two texts and a line break -/

/-- The cause decides of which family the failure is. -/
theorem kind_eq_of_cause {s t f g} (hs : tokenize s = .error f) (ht : tokenize t = .error g) (h : g.cause = f.cause) :
    (Failure.parse t g.toParseFault).kind = (Failure.parse s f.toParseFault).kind := by
  obtain ⟨ls, rest, hsplit, -, hplace⟩ := stuck_of_tokenize_error hs
  obtain ⟨ls', rest', hsplit', -, hplace'⟩ := stuck_of_tokenize_error ht
  obtain ⟨cause, place⟩ := f
  obtain ⟨cause', place'⟩ := g
  subst hplace hplace' h
  rw [kind_of_stuck hsplit, kind_of_stuck hsplit']

/-- After the line break the second text is read from the first place of the line. -/
theorem tokenize_append_newline (first second : String) (hs : Splits first.toList ls []) :
    tokenize (first ++ "\n" ++ second) =
      (tokensFrom (Place.start.shift (Place.start.afterAll ls).line) second.toList).map
        (lexemeTokens .start ls ++ ·) := by
  obtain ⟨ls', hs', hplaced⟩ := hs.before_newline second.toList
  obtain ⟨htokens, hplace⟩ := hplaced .start
  have hstart : start.afterAll ls' = start.shift (start.afterAll ls).line := hplace
  have hlist : (first ++ "\n" ++ second).toList = first.toList ++ '\n' :: second.toList := by simp
  rw [tokenize, hlist, tokensFrom_of_splits hs', hstart, htokens]

theorem tokenize_append_newline_ok {first second us} (hs : Splits first.toList ls []) (hus : tokenize second = .ok us) :
    tokenize (first ++ "\n" ++ second) =
      .ok (lexemeTokens .start ls ++ us.map (Token.shift (Place.start.afterAll ls).line)) := by
  have hstart : 1 ≤ start.line := le_refl 1
  rw [tokenize_append_newline first second hs, (tokensFrom_shift hstart second.toList).1 us hus]
  rfl

/-- A semicolon and a line break between two texts: there is a token for the semicolon, unless a comment takes it. -/
theorem tokenize_append_semicolon_ok {first second us} (hs : Splits first.toList ls [])
    (hus : tokenize second = .ok us) :
    ∃ sep, (sep = [] ∨ ∃ pos, sep = [⟨";", .semicolon, pos⟩]) ∧ tokenize (first ++ ";\n" ++ second) =
        .ok (lexemeTokens .start ls ++ (sep ++ us.map (Token.shift (Place.start.afterAll ls).line))) := by
  obtain ⟨ls', hs', hplaced⟩ := hs.before_semicolon ('\n' :: second.toList)
  obtain ⟨hline, htokens⟩ := hplaced .start
  have hlist : (first ++ ";\n" ++ second).toList = first.toList ++ ';' :: '\n' :: second.toList := by simp
  have hnext : (start.afterAll ls').after .newline = start.shift (start.afterAll ls).line := by
    rw [← hline]
    rfl
  have hstart : 1 ≤ start.line := le_refl 1
  have hread : tokenize (first ++ ";\n" ++ second) =
      .ok (lexemeTokens .start ls' ++ us.map (.shift (start.afterAll ls).line)) := by
    rw [tokenize, hlist, tokensFrom_of_splits hs', show '\n' :: second.toList = newline.source ++ second.toList from
      rfl, tokensFrom_of_begins .newline, hnext, (tokensFrom_shift hstart second.toList).1 us hus]
    rfl
  rcases htokens with heq | ⟨pos, heq⟩
  · exact ⟨[], .inl rfl, by rw [hread, heq, nil_append]⟩
  · exact ⟨_, .inr ⟨pos, rfl⟩, by rw [hread, heq, append_assoc]⟩

/-- If a text can be read to its end, then that text, a line break and a second text can be read exactly if the second
text can, and otherwise reading fails in the same way. The tokens are those of the first text without the one for the
end, followed by those of the second text, which have moved down by the line on which the first text ends. -/
theorem tokenize_line_break (first second : String) (ts : List Token) (h : tokenize first = .ok ts) :
    ∃ before stop, ts = before ++ [stop] ∧ stop.face = endFace ∧
      (tokenize (first ++ "\n" ++ second)).isOk = (tokenize second).isOk ∧
      (∀ us, tokenize second = .ok us →
        tokenize (first ++ "\n" ++ second) = .ok (before ++ us.map (Token.shift stop.pos.line))) ∧
      ∀ f, tokenize second = .error f → ∃ g, tokenize (first ++ "\n" ++ second) = .error g ∧
        (Failure.parse (first ++ "\n" ++ second) g.toParseFault).kind = (Failure.parse second f.toParseFault).kind := by
  obtain ⟨ls, hs, rfl⟩ := exists_lexemes h
  have hboth : ∀ us, tokenize second = .ok us → tokenize (first ++ "\n" ++ second) =
      .ok (lexemeTokens .start ls ++ us.map (.shift (start.afterAll ls).line)) :=
    fun us => tokenize_append_newline_ok hs
  have hneither : ∀ f, tokenize second = .error f → tokenize (first ++ "\n" ++ second) =
      .error ⟨f.cause, f.place.shift (start.afterAll ls).line⟩ := by
    intro f hf
    have hstart : 1 ≤ start.line := le_refl 1
    rw [tokenize_append_newline first second hs, (tokensFrom_shift hstart second.toList).2 f hf]
    rfl
  refine ⟨_, _, rfl, rfl, ?_, hboth, fun f hf => ⟨_, hneither f hf, kind_eq_of_cause hf (hneither f hf) rfl⟩⟩
  cases hsecond : tokenize second with
  | ok us =>
    rw [hboth us hsecond]
    rfl
  | error f =>
    rw [hneither f hsecond]
    rfl

theorem tokenize_line_break_comment : tokenize "x# \"" = .ok [⟨"x", .identifier, ⟨1, 1, 1⟩⟩, ⟨"EOF", .eof, ⟨1, 4, 1⟩⟩] ∧
      tokenize "y\nz" = .ok [⟨"y", .identifier, ⟨1, 1, 1⟩⟩, ⟨"z", .identifier, ⟨2, 2, 1⟩⟩, ⟨"EOF", .eof, ⟨2, 2, 1⟩⟩] ∧
      tokenize ("x# \"" ++ "\n" ++ "y\nz") = .ok [⟨"x", .identifier, ⟨1, 1, 1⟩⟩, ⟨"y", .identifier, ⟨2, 2, 1⟩⟩,
        ⟨"z", .identifier, ⟨3, 2, 1⟩⟩, ⟨"EOF", .eof, ⟨3, 2, 1⟩⟩] := by
  have hfirst : tokenize "x# \"" = .ok [⟨"x", .identifier, ⟨1, 1, 1⟩⟩, ⟨"EOF", .eof, ⟨1, 4, 1⟩⟩] := by
    decide +kernel
  have hsecond : tokenize "y\nz" =
      .ok [⟨"y", .identifier, ⟨1, 1, 1⟩⟩, ⟨"z", .identifier, ⟨2, 2, 1⟩⟩, ⟨"EOF", .eof, ⟨2, 2, 1⟩⟩] := by
    decide +kernel
  obtain ⟨before, stop, hts, -, -, hboth, -⟩ := tokenize_line_break "x# \"" "y\nz" _ hfirst
  obtain ⟨rfl, hstop⟩ := @append_inj' _ [(⟨"x", .identifier, ⟨1, 1, 1⟩⟩ : Token)] _ _ _ hts rfl
  cases hstop
  exact ⟨hfirst, hsecond, hboth _ hsecond⟩

end SmallScript.Syntax
