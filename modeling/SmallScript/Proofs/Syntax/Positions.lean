import SmallScript.Proofs.Syntax.Lines
import SmallScript.Proofs.Syntax.Literal

/-!
# Where tokens stand

`Place.behind` is the place behind a text: its line counts the line breaks, its column the characters behind the last
one, from one on every line but the first. If no string has a line break, a lexeme has at most one, at its end, so the
lexer is at this place behind every lexeme. So the position of a token can be read off the source, `Stands`, and the
report of a fault marks the lexeme on the first line and starts one column too far right on the others.
-/

namespace SmallScript.Syntax

open Text List

variable {source : String} {cs rest : List Char} {l : Lexeme} {ls : List Lexeme} {p : Place}

/-! ## Lines -/

/-- The characters before the first line break. -/
def firstLine (cs : List Char) : List Char := (linesOf cs).headD []

/-- The characters behind the last line break. -/
def lastLine (cs : List Char) : List Char := (linesOf cs).getLastD []

theorem linesOf_eq_cons (cs : List Char) : linesOf cs = firstLine cs :: (linesOf cs).tail := by
  unfold firstLine
  cases hlines : linesOf cs with
  | nil => cases (length_linesOf cs).symm.trans (congrArg length hlines)
  | cons line lines => rfl

theorem linesOf_cons {c : Char} (hc : c ≠ '\n') (cs : List Char) :
    linesOf (c :: cs) = (c :: firstLine cs) :: (linesOf cs).tail := by
  rw [linesOf, beq_eq_false_iff_ne.2 hc, linesOf_eq_cons]
  rfl

theorem linesOf_of_not_mem (h : '\n' ∉ cs) : linesOf cs = [cs] := by
  induction cs with
  | nil => rfl
  | cons c cs ih =>
    rw [List.mem_cons, not_or] at h
    rw [linesOf_cons (Ne.symm h.1), firstLine, ih h.2]
    rfl

/-- The last line of a text goes on with the first one of what follows. -/
theorem linesOf_append (cs ds : List Char) :
    linesOf (cs ++ ds) = (linesOf cs).dropLast ++ (lastLine cs ++ firstLine ds) :: (linesOf ds).tail := by
  induction cs with
  | nil => exact linesOf_eq_cons ds
  | cons c cs ih =>
    by_cases hc : c = '\n'
    · subst hc
      simp only [linesOf, lastLine, cons_append, ih]
      rw [linesOf_eq_cons cs]
      rfl
    · rw [cons_append, linesOf_cons hc, firstLine, lastLine, linesOf_cons hc, ih, lastLine, linesOf_eq_cons cs]
      cases (linesOf cs).tail <;> rfl

theorem lastLine_append (h : '\n' ∉ cs) (ds : List Char) : lastLine (ds ++ cs) = lastLine ds ++ cs := by
  rw [lastLine, linesOf_append, firstLine, linesOf_of_not_mem h]
  simp

theorem lastLine_append_newline (cs : List Char) : lastLine (cs ++ ['\n']) = [] := by
  rw [lastLine, linesOf_append]
  simp [linesOf]

/-- The line on which a text ends is the last one of the text and what follows on this line. -/
theorem lineOf?_behind (h : source.toList = cs ++ rest) :
    lineOf? source (1 + cs.count '\n' : Nat) = some (String.ofList (lastLine cs ++ firstLine rest)) := by
  have hlength : (linesOf cs).dropLast.length = cs.count '\n' := by
    rw [length_dropLast, length_linesOf, Nat.add_sub_cancel]
  have hindex : ((1 + cs.count '\n' : Nat) : Int) - 1 = cs.count '\n' := by omega
  unfold lineOf?
  dsimp only
  rw [h, hindex, if_neg (by omega), if_neg (by omega), Int.toNat_natCast, ← hlength, linesOf_append,
    getElem?_append_right (Nat.le_refl _), Nat.sub_self]
  rfl

/-! ## Places -/

/-- One more on every line but the first. -/
def lag (cs : List Char) : Nat := if cs.count '\n' = 0 then 0 else 1

/-- The place behind a text. -/
def Place.behind (cs : List Char) : Place := ⟨1 + cs.count '\n', (lastLine cs).length + lag cs⟩

/-- A lexeme that is no string with a line break. -/
def Lexeme.Even (l : Lexeme) : Prop := ∀ content, l = .string content → '\n' ∉ content

/-- Such a lexeme has no line break, or one at its end and no token. -/
theorem Lexeme.Begins.breaks (h : l.Begins rest) (hs : l.Even) :
    ('\n' ∉ l.source ∧ ∀ p : Place, p.after l = ⟨p.line, p.col + l.source.length⟩) ∨
      ∃ body, l.source = body ++ ['\n'] ∧ '\n' ∉ body ∧ ∀ p : Place, l.tokens p = [] ∧ p.after l = ⟨p.line + 1, 1⟩ := by
  have hsign (neg : Bool) : '\n' ∉ minusSign neg := by cases neg <;> decide
  have hhash {body : List Char} (hbody : ∀ c ∈ body, ¬ EndsComment c) : '\n' ∉ '#' :: body :=
    not_mem_cons_of_ne_of_not_mem (by decide) fun hmem => hbody _ hmem (.inr rfl)
  cases h with
  | space h =>
    refine .inl ⟨?_, fun _ => rfl⟩
    rcases h with rfl | rfl | rfl <;> decide
  | newline => exact .inr ⟨[], rfl, not_mem_nil, fun _ => ⟨rfl, rfl⟩⟩
  | comment hbody hclose =>
    rcases hclose with rfl | rfl
    · refine .inl ⟨fun hmem => ?_, fun _ => rfl⟩
      rcases List.mem_append.1 hmem with hmem | hmem
      · exact hhash hbody hmem
      · cases List.mem_singleton.1 hmem
    · exact .inr ⟨_, rfl, hhash hbody, fun _ => ⟨rfl, rfl⟩⟩
  | lastComment hbody =>
    refine .inl ⟨?_, fun _ => rfl⟩
    rw [source, Option.toList_none, append_nil]
    exact hhash hbody
  | operator h =>
    have hall : ∀ o ∈ operators, '\n' ∉ o.1.toList := by decide
    exact .inl ⟨hall _ h, fun _ => rfl⟩
  | minus => exact .inl ⟨by decide, fun _ => rfl⟩
  | number neg hd longest =>
    have hrun := divides_newline.not_mem_digitRun ((digitRun_digit hd false _).2 longest.1)
    exact .inl ⟨fun hmem => (List.mem_append.1 hmem).elim (hsign neg) hrun, fun _ => rfl⟩
  | word neg hc longest =>
    have hstart := continuesWord_of_startsWord (startsWord_iff.2 hc)
    have hrun := divides_newline.not_mem_word (forall_mem_cons.2 ⟨hstart, longest.1⟩)
    exact .inl ⟨fun hmem => (List.mem_append.1 hmem).elim (hsign neg) hrun, fun _ => rfl⟩
  | string =>
    have hcontent := hs _ rfl
    exact .inl ⟨by simp [source, hcontent], fun _ => rfl⟩

theorem Place.after_behind (h : l.Begins rest) (hs : l.Even) (cs : List Char) :
    (behind cs).after l = behind (cs ++ l.source) := by
  rcases h.breaks hs with ⟨hmem, hafter⟩ | ⟨body, hsource, hbody, hafter⟩
  · have hcount : (cs ++ l.source).count '\n' = cs.count '\n' := by rw [count_append, count_eq_zero.2 hmem, Nat.add_zero]
    rw [hafter, behind, behind, lag, lag, hcount, lastLine_append hmem, length_append, Nat.add_right_comm]
  · have hcount : (cs ++ l.source).count '\n' = cs.count '\n' + 1 := by
      rw [hsource, count_append, count_append, count_eq_zero.2 hbody, Nat.zero_add, count_singleton_self]
    rw [(hafter _).2, behind, behind, lag, lag, hcount, hsource, ← append_assoc, lastLine_append_newline]
    rfl

theorem Place.afterAll_behind (h : ∀ l ∈ ls, (∃ rest, l.Begins rest) ∧ l.Even) (cs : List Char) :
    (behind cs).afterAll ls = behind (cs ++ lettersOf ls) := by
  induction ls generalizing cs with
  | nil => exact congrArg behind (append_nil cs).symm
  | cons l ls ih =>
    obtain ⟨⟨⟨rest, hl⟩, hs⟩, hls⟩ := forall_mem_cons.1 h
    rw [lettersOf_cons, ← append_assoc, ← ih hls, ← after_behind hl hs]
    rfl

/-! ## Positions -/

/-- The characters of a lexeme that its token is made of: a word lacks its minus sign. -/
def Lexeme.body : Lexeme → List Char
  | .word _ letters => letters
  | l => l.source

/-- The length in the position of a token. -/
def Lexeme.width : Lexeme → Nat
  | .number true digits => ('-' :: digits).length + 1
  | l => l.body.length

/-- The token is one of those put around the name of a word with a minus sign. -/
def Token.Injected (l : Lexeme) (t : Token) : Prop := ∃ letters, l = .word true letters ∧ t.value ≠ String.ofList letters

theorem Lexeme.pos_of_mem {t : Token} (ht : t ∈ l.tokens p) (hi : ¬ t.Injected l) : t.pos = p.pos l.width := by
  cases l with
  | space | newline | comment => cases ht
  | operator text kind =>
    rw [List.mem_singleton.1 ht]
    exact congrArg p.pos String.length_toList.symm
  | minus =>
    rw [List.mem_singleton.1 ht]
    rfl
  | number neg digits =>
    rw [List.mem_singleton.1 ht]
    cases neg <;> rfl
  | string content =>
    rw [List.mem_singleton.1 ht]
    exact congrArg p.pos (@length_append _ ('"' :: content) ['"']).symm
  | word neg letters =>
    unfold tokens at ht
    dsimp only at ht
    split at ht
    · next hneg =>
      obtain rfl : neg = true := (Bool.and_eq_true_iff.1 hneg).1
      have hvalue : t.value = String.ofList letters := by
        by_contra hne
        exact hi ⟨letters, rfl, hne⟩
      have hpos : t.pos = p.pos t.value.length := by
        simp only [mem_cons, not_mem_nil, or_false] at ht
        rcases ht with rfl | rfl | rfl | rfl | rfl
        case inr.inr.inr.inl => exact congrArg p.pos String.length_ofList.symm
        all_goals
          dsimp only
          exact congrArg p.pos (by decide)
      rw [hpos, hvalue, String.length_ofList]
      rfl
    · rw [List.mem_singleton.1 ht]
      rfl

/-- What the position of a token says of its lexeme, which stands between two texts. -/
structure Stands (source : String) (before : List Char) (l : Lexeme) (after : List Char) (pos : Pos) : Prop where
  text : source.toList = before ++ l.source ++ after
  line : pos.line = (1 + before.count '\n' : Nat)
  col : pos.col = ((lastLine (before ++ l.source)).length + lag before : Nat)
  len : pos.len = l.width
  inside : pos.line ≤ (linesOf source.toList).length
  /-- The report shows the line and, unless the lexeme is a negative number, as many marks as the token has characters,
  below them on the first line and one column further on the others. -/
  report : ∃ lead tail, lead ++ l.body = lastLine (before ++ l.source) ∧
    lineOf? source pos.line = some (String.ofList (lead ++ l.body ++ tail)) ∧
    ((∀ digits, l ≠ .number true digits) → ∀ message, report? source pos message = some (
      Colour.cyan.paint (padLeft 3 (toString pos.line) ++ " |") ++ " " ++ String.ofList (lead ++ l.body ++ tail) ++ "\n" ++
        Colour.yellow.paint ("".pushn ' ' ((padLeft 3 (toString pos.line)).length + " | ".length + lead.length + lag before) ++
          "".pushn '^' l.body.length) ++ "\n" ++
        Colour.red.paint "SyntaxError" ++ ": " ++ message))

theorem Splits.letters (h : Splits cs ls rest) : cs = lettersOf ls ++ rest := by
  induction h with
  | nil => rfl
  | cons _ _ ih => rw [lettersOf_cons, append_assoc, ← ih]

theorem Lexeme.exists_sign (l : Lexeme) : ∃ sign, l.source = sign ++ l.body := by
  cases l with
  | word neg letters => exact ⟨minusSign neg, rfl⟩
  | _ => exact ⟨[], rfl⟩

theorem Lexeme.width_eq (h : ∀ digits, l ≠ .number true digits) : l.width = l.body.length := by
  cases l with
  | number neg digits =>
    cases neg with
    | true => exact absurd rfl (h digits)
    | false => rfl
  | _ => rfl

theorem Stands.of_pos {before after : List Char} (hsource : source.toList = before ++ l.source ++ after)
    (hl : '\n' ∉ l.source) : Stands source before l after ((Place.behind (before ++ l.source)).pos l.width) := by
  have hcount : (before ++ l.source).count '\n' = before.count '\n' := by
    rw [count_append, count_eq_zero.2 hl, Nat.add_zero]
  obtain ⟨sign, hsign⟩ := l.exists_sign
  have hlast : lastLine (before ++ l.source) = lastLine (before ++ sign) ++ l.body := by
    rw [hsign, ← append_assoc, lastLine_append fun h => hl (hsign ▸ mem_append_right _ h)]
  have hline := lineOf?_behind hsource
  have hlines := length_linesOf source.toList
  rw [hcount, hlast] at hline
  rw [hsource, count_append, hcount] at hlines
  rw [Place.behind, lag, hcount, ← lag]
  refine ⟨hsource, rfl, rfl, rfl, ?_, lastLine (before ++ sign), firstLine after, hlast.symm, hline, fun hl message => ?_⟩
  · rw [hsource, hlines]
    simp only [Place.pos]
    omega
  · have hwidth (number marker : Nat) : (((lastLine (before ++ sign) ++ l.body).length + lag before : Nat) - ((l.body.length : Int) - 1)
        + number + 2 + marker - marker : Int).toNat = number + 3 + (lastLine (before ++ sign)).length + lag before := by
      rw [length_append]
      omega
    unfold report?
    dsimp only [Place.pos]
    rw [hline, Lexeme.width_eq hl, hlast]
    dsimp only [Option.bind_eq_bind, Option.bind_some, Option.pure_def]
    rw [padLeft.eq_1 (_ + _), hwidth, Int.toNat_natCast]
    rfl

/-- If no string of the source has a line break, the tokens of its lexemes, those around a name with a minus sign apart,
stand where their positions say. -/
def Positioned (source : String) (ts : List Token) : Prop :=
  ∃ ls, Splits source.toList ls [] ∧ ts = lexemeTokens .start ls ++ [endToken (Place.start.afterAll ls)] ∧
    ((∀ content, .string content ∈ ls → '\n' ∉ content) →
      ∀ before l after, ls = before ++ l :: after → ∀ t ∈ l.tokens (Place.start.afterAll (before ++ [l])),
        ¬ t.Injected l → Stands source (lettersOf before) l (lettersOf after) t.pos)

theorem tokens_stand {ts : List Token} (h : tokenize source = .ok ts) : Positioned source ts := by
  obtain ⟨ls, hs, hts⟩ := exists_lexemes h
  refine ⟨ls, hs, hts, fun hstrings before l after hls t ht hi => ?_⟩
  have hall : ∀ l' ∈ ls, (∃ rest, l'.Begins rest) ∧ l'.Even := fun l' hl' =>
    ⟨hs.begins hl', fun content he => hstrings content (he ▸ hl')⟩
  subst hls
  obtain ⟨⟨rest, hl⟩, heven⟩ := hall l mem_append_cons_self
  have hfront : ∀ l' ∈ before ++ [l], l' ∈ before ++ l :: after := fun l' hl' =>
    append_cons before l after ▸ mem_append_left after hl'
  have hplace := Place.afterAll_behind (fun l' hl' => hall l' (hfront l' hl')) []
  rw [lettersOf_append, lettersOf_cons, lettersOf_nil, append_nil] at hplace
  rw [Lexeme.pos_of_mem ht hi]
  refine hplace ▸ Stands.of_pos ?_ ?_
  · rw [hs.letters, lettersOf_append, lettersOf_cons, append_nil, append_assoc]
  · rcases hl.breaks heven with hl | ⟨body, -, -, hl⟩
    · exact hl.1
    · rw [(hl _).1] at ht
      cases ht

theorem tokens_stand_second_line : ∃ ts, tokenize "a\n b" = .ok ts ∧ Positioned "a\n b" ts := by
  have htokens : tokenize "a\n b" =
      .ok [⟨"a", .identifier, ⟨1, 1, 1⟩⟩, ⟨"b", .identifier, ⟨2, 3, 1⟩⟩, ⟨"EOF", .eof, ⟨2, 3, 1⟩⟩] := by decide +kernel
  exact ⟨_, htokens, tokens_stand htokens⟩

end SmallScript.Syntax
