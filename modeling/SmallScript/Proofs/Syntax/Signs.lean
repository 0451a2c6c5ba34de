import SmallScript.Proofs.Syntax.Joined

/-!
# Minus signs that touch what follows

A minus sign in front of a digit, a letter or a low line belongs to the number or the word behind it, whatever stands
before it, and so it is never the operator of a difference. A number with its sign begins a statement of its own. A name
with its sign is read as a difference from zero in parentheses, which what stands in front of it takes for its arguments.
`minus_sign_touching` says this of all texts; a blank in front of the sign makes no difference, but one behind it does.
-/

namespace SmallScript.Syntax

open Text List Lexeme

/-! ## Texts behind which others are read as they stand -/

/-- The lexemes in front of the text stay what they are, comments without an end apart. -/
def LeavesAlone (tail : List Char) : Prop :=
  ∀ (l : Lexeme) (rest : List Char), l.Begins rest → (∀ body, l ≠ .comment body none) → l.Begins (rest ++ tail)

theorem Divides.leavesAlone {c} (hc : Divides c) (more : List Char) : LeavesAlone (c :: more) :=
  fun _ _ hl hne => (hl.before hc more).resolve_right fun ⟨body, heq, _⟩ => hne body heq

theorem divides_blank : Divides ' ' := ⟨by decide, by decide, by decide, by decide⟩

theorem operators_with_minus : ∀ o ∈ operators, '-' ∈ o.1.toList → o.1.toList.head? = some '-' ∧ o.1.toList.length = 2 := by
  decide

theorem IsOperator.with_minus {text} (h : IsOperator text) (hminus : '-' ∈ text) :
    text.head? = some '-' ∧ text.length = 2 := by
  obtain ⟨o, ho, rfl⟩ := h
  exact operators_with_minus o ho hminus

theorem minus_leavesAlone (more : List Char) : LeavesAlone ('-' :: more) := by
  intro l rest hl hne
  cases hl with
  | space h => exact .space h
  | newline => exact .newline
  | comment hbody hclose => exact .comment hbody hclose
  | lastComment hbody => exact absurd rfl (hne _)
  | operator h longest =>
    -- an operator that takes the sign has it at its front, and so the shorter one has it as well
    refine .operator h ⟨longest.1, fun longer hlonger hpre => ?_⟩
    by_cases hmem : '-' ∈ longer
    · obtain ⟨c, run, hrun⟩ := exists_cons_of_ne_nil (operators_nonempty _ h)
      obtain ⟨hhead, hlength⟩ := hlonger.with_minus hmem
      obtain ⟨more', rfl⟩ := head?_eq_some_iff.1 hhead
      rw [hrun] at hpre
      have hc : c = '-' := (cons_prefix_cons.1 hpre).1.symm
      rw [hlength, (longest.1.with_minus (by rw [hrun, hc]; exact (.head _))).2]
    · rw [← append_assoc] at hpre
      exact longest.2 longer hlonger (prefix_of_not_mem hpre hmem)
  | minus hno hdigit hletter hline =>
    refine .minus (fun text htext hpre => hno text htext ?_) hdigit hletter hline
    by_cases hmem : '-' ∈ text
    · refine prefix_of_prefix_length_le hpre ⟨_, rfl⟩ ?_
      rw [(htext.with_minus hmem).2]
      exact Nat.le_add_left 2 _
    · exact prefix_of_not_mem hpre hmem
  | number neg hd longest =>
    refine .number neg hd (longest.before (fun longer hrun hmem => ?_) more)
    rcases hrun.1 '-' hmem with hdigit | hpoint
    · exact absurd hdigit (by decide)
    · exact absurd hpoint (by decide)
  | word neg hc longest =>
    exact .word neg hc (longest.before (fun longer hrun hmem => absurd (hrun '-' hmem) (by decide)) more)
  | string h => exact .string h

theorem Splits.before {cs tail rest ls ms} (h : Splits cs ls [])
    (hclosed : ∀ body, .comment body none ∉ ls) (ht : LeavesAlone tail) (hs : Splits tail ms rest) :
    Splits (cs ++ tail) (ls ++ ms) rest := by
  generalize hend : ([] : List Char) = r at h
  induction h with
  | nil =>
    subst hend
    exact hs
  | @cons l cs r ls hl _ ih =>
    rw [append_assoc]
    exact .cons (ht l cs hl fun body heq => hclosed body (heq ▸ (.head _)))
      (ih (fun body hmem => hclosed body (.tail _ hmem)) hend)

/-! ## Sources with the same trees -/

/-- The sources have the same trees, positions apart, or none. -/
def SameTrees (s t : String) : Prop :=
  ∀ ns, (∃ body, parse s = .ok (.program .zero body) ∧ bareList body = ns) ↔
    ∃ body, parse t = .ok (.program .zero body) ∧ bareList body = ns

section

variable {s t : String} {ls ms : List Lexeme} {rest : List Char}

theorem parse_of_splits (hs : Splits s.toList ls rest) (ht : Splits t.toList ms rest)
    (hend : rest = [] ∨ ∃ e, Stuck rest e) (hfaces : ls.flatMap Lexeme.faces = ms.flatMap Lexeme.faces) {body}
    (h : parse s = .ok (.program .zero body)) :
    ∃ body', parse t = .ok (.program .zero body') ∧ bareList body' = bareList body := by
  obtain ⟨ts, f, rest', htokens, hstatements⟩ := statements_of_parse h
  rcases hend with rfl | ⟨e, he⟩
  · cases (tokenize_of_splits hs).symm.trans htokens
    refine parse_of_gives (tokenize_of_splits ht) ?_ (gives_of_statements hstatements)
    rw [lexemeTokens_faces, lexemeTokens_faces, hfaces]
  · cases (tokenize_of_stuck hs he).symm.trans htokens

theorem sameTrees_of_splits (hs : Splits s.toList ls rest) (ht : Splits t.toList ms rest)
    (hend : rest = [] ∨ ∃ e, Stuck rest e) (hfaces : ls.flatMap Lexeme.faces = ms.flatMap Lexeme.faces) :
    SameTrees s t := by
  refine fun ns => ⟨?_, ?_⟩
  · rintro ⟨body, hparse, rfl⟩
    exact parse_of_splits hs ht hend hfaces hparse
  · rintro ⟨body, hparse, rfl⟩
    exact parse_of_splits ht hs hend hfaces.symm hparse

end

/-! ## Minus signs -/

/-- The text can be read to its end, and no comment goes on there. -/
def ReadsClosed (source : String) : Prop := ∃ ls, Splits source.toList ls [] ∧ ∀ body, .comment body none ∉ ls

/-- A text with a word at its front, where a name is subtracted from zero. -/
def negated (b : String) : String :=
  let name := String.ofList (b.toList.takeWhile continuesWord)
  if (keywords.lookup name).isSome then b
  else "(0 - " ++ name ++ ")" ++ String.ofList (b.toList.dropWhile continuesWord)

/-- A number begins a new statement. -/
theorem parse_before_number {a t joined ls ms neg digits}
    (hs : Splits a.toList ls []) (ht : Splits t.toList (.number neg digits :: ms) [])
    (hj : Splits joined.toList (ls ++ .space ' ' :: .number neg digits :: ms) []) {p q ns ns'}
    (ha : parse a = .ok (.program p ns)) (hb : parse t = .ok (.program q ns')) :
    ∃ body, parse joined = .ok (.program .zero body) ∧ bareList body = bareList ns ++ bareList ns' := by
  obtain ⟨ts, f, rest, hts, hfirst⟩ := statements_of_parse ha
  obtain ⟨us, g, rest', hus, hsecond⟩ := statements_of_parse hb
  cases (tokenize_of_splits hs).symm.trans hts
  cases (tokenize_of_splits ht).symm.trans hus
  have hfresh := fresh_of_tokenize hus (.head _) (show .number ∈ plainKinds by decide)
  obtain ⟨ms', hbare, hjoined⟩ := parseStatements_joined
    (beside_of_faces rfl (fun _ => lexed_of_mem hs) (endToken_isEnd _) hfresh) hfirst hsecond
  have hfaces : (lexemeTokens .start ls ++ lexemeTokens .start (.number neg digits :: ms)).map Token.face =
      (lexemeTokens .start (ls ++ .space ' ' :: .number neg digits :: ms)).map Token.face := by
    rw [map_append, lexemeTokens_faces, lexemeTokens_faces, lexemeTokens_faces, flatMap_append]
    rfl
  have hgives : Gives parseStatements (lexemeTokens .start ls ++ lexemeTokens .start (.number neg digits :: ms) ++
      [endToken (Place.start.afterAll (.number neg digits :: ms))]) (.ok (ms' ++ ns', rest')) := by
    rw [append_assoc]
    exact gives_of_statements hjoined
  obtain ⟨body, hparse, hbody⟩ := parse_of_gives (tokenize_of_splits hj) hfaces hgives
  exact ⟨body, hparse, by rw [hbody, bareList_append, hbare]⟩

/-- The lexemes of a name that is subtracted from zero. -/
theorem splits_negated {c run more rest ms} (hc : startsWord c = true)
    (hrun : AllOf continuesWord run) (h : Splits more ms rest) :
    Splits ("(0 - ".toList ++ (c :: run) ++ ')' :: more) (.operator "(" .openParen :: .number false ['0'] ::
      .space ' ' :: .minus :: .space ' ' :: .word false (c :: run) :: .operator ")" .closeParen :: ms) rest := by
  have hname : Begins (.word false (c :: run)) (')' :: more) := by
    refine .word false (startsWord_iff.1 hc) (longest_of_head hrun fun d hd longer hlonger hmem => ?_)
    cases hd
    exact absurd (hlonger ')' hmem) (by decide)
  have hclose : Begins (.operator ")" .closeParen) more := begins_of_read (c := ')') rfl
  have hminus tail : Begins .minus (' ' :: tail) :=
    begins_of_read (show read '-' (' ' :: tail) = .ok (.minus, ' ' :: tail) from rfl)
  have hzero tail : Begins (.number false ['0']) (' ' :: tail) :=
    begins_of_read (show read '0' (' ' :: tail) = .ok (.number false ['0'], ' ' :: tail) from rfl)
  have hopen tail : Begins (.operator "(" .openParen) tail := begins_of_read (c := '(') rfl
  have hblank tail : Begins (.space ' ') tail := .space (.inl rfl)
  exact .cons (hopen _) (.cons (hzero _) (.cons (hblank _) (.cons (hminus _) (.cons (hblank _)
    (.cons hname (.cons hclose h))))))

/-- A text that begins with a digit, a letter or a low line, behind a minus sign and another text. It makes no difference
if there is a blank in front of the sign. A digit begins a new statement, so that what stands in front of the sign is not
subtracted from; a name is read as a difference from zero in parentheses, and a keyword as if there were no sign. -/
theorem minus_sign_touching (a b : String) (c : Char) (ha : ReadsClosed a) (hb : b.toList.head? = some c)
    (hc : isDigit c = true ∨ startsWord c = true) :
    SameTrees (a ++ " -" ++ b) (a ++ "-" ++ b) ∧
    (isDigit c = true → ∀ p q ns ms, parse a = .ok (.program p ns) → parse ("-" ++ b) = .ok (.program q ms) →
      ∃ body, parse (a ++ " -" ++ b) = .ok (.program .zero body) ∧ bareList body = bareList ns ++ bareList ms ∧
        ∀ n pos r, ns = [n] → bareList body ≠ [.binary pos n.bare "-" r]) ∧
    (isDigit c = false → SameTrees (a ++ " -" ++ b) (a ++ " " ++ negated b)) := by
  obtain ⟨ls, hs, hclosed⟩ := ha
  obtain ⟨cs, hcs⟩ := head?_eq_some_iff.1 hb
  obtain ⟨⟨l, r⟩, hl⟩ : ∃ x, numberOrWord? true b.toList = some x := by
    rw [hcs, ← Option.ne_none_iff_exists', Ne, numberOrWord?_eq_none_iff]
    rintro ⟨hdigit, hword⟩
    simp [hdigit, hword] at hc
  obtain ⟨lr, rest, hr, hend⟩ := exists_splits r
  have hfront {neg : Bool} {l : Lexeme} (hl : numberOrWord? neg b.toList = some (l, r)) :
      Splits (minusSign neg ++ b.toList) (l :: lr) rest := by
    rw [← (numberOrWord?_source hl).1]
    exact .cons (begins_of_numberOrWord? hl) hr
  have hsigned : Splits ('-' :: b.toList) (l :: lr) rest := hfront hl
  have hblank t ms (ht : Splits t ms rest) : Splits (a.toList ++ ' ' :: t) (ls ++ .space ' ' :: ms) rest :=
    hs.before hclosed (divides_blank.leavesAlone t) (.cons (.space (.inl rfl)) ht)
  have hfirst : Splits (a ++ " -" ++ b).toList (ls ++ .space ' ' :: l :: lr) rest := by
    have htext : (a ++ " -" ++ b).toList = a.toList ++ ' ' :: '-' :: b.toList := by simp
    rw [htext]
    exact hblank _ _ hsigned
  refine ⟨?_, ?_, ?_⟩
  · have hsecond : Splits (a ++ "-" ++ b).toList (ls ++ l :: lr) rest := by
      have htext : (a ++ "-" ++ b).toList = a.toList ++ '-' :: b.toList := by simp
      rw [htext]
      exact hs.before hclosed (minus_leavesAlone b.toList) hsigned
    refine sameTrees_of_splits hfirst hsecond hend ?_
    rw [flatMap_append, flatMap_append]
    rfl
  · intro hdigit p q ns ms hns hms
    obtain ⟨digits, rfl⟩ : ∃ digits, l = .number true digits := by
      rw [hcs, numberOrWord?, if_pos hdigit] at hl
      cases hl
      exact ⟨_, rfl⟩
    have htext : ("-" ++ b).toList = '-' :: b.toList := by simp
    rw [← htext] at hsigned
    rcases hend with rfl | ⟨e, he⟩
    · obtain ⟨body, hparse, hbody⟩ := parse_before_number hs hsigned hfirst hns hms
      refine ⟨body, hparse, hbody, ?_⟩
      rintro n pos r rfl heq
      -- no tree is a part of itself
      rw [hbody] at heq
      have hsize := congrArg sizeOf (head_eq_of_cons_eq heq)
      rw [Node.binary.sizeOf_spec] at hsize
      omega
    · obtain ⟨ts, f, rest', hts, -⟩ := statements_of_parse hms
      cases (tokenize_of_stuck hsigned he).symm.trans hts
  · intro hdigit
    have hword : startsWord c = true := hc.resolve_left (by simp [hdigit])
    have hwords neg : numberOrWord? neg b.toList =
        some (.word neg (b.toList.takeWhile continuesWord), b.toList.dropWhile continuesWord) := by
      have hfront := continuesWord_of_startsWord hword
      rw [hcs, numberOrWord?, if_neg (by simp [hdigit]), if_pos hword, takeWhile_cons_of_pos hfront,
        dropWhile_cons_of_pos hfront]
    cases (hwords true).symm.trans hl
    cases hkeyword : keywords.lookup (.ofList (b.toList.takeWhile continuesWord)) with
    | some kind =>
      have hplain : Splits (a ++ " " ++ negated b).toList
          (ls ++ .space ' ' :: .word false (b.toList.takeWhile continuesWord) :: lr) rest := by
        have htext : (a ++ " " ++ negated b).toList = a.toList ++ ' ' :: b.toList := by simp [negated, hkeyword]
        rw [htext]
        exact hblank _ _ (hfront (hwords false))
      refine sameTrees_of_splits hfirst hplain hend ?_
      simp only [flatMap_append, flatMap_cons, faces, hkeyword]
    | none =>
      have hname : b.toList.takeWhile continuesWord = c :: cs.takeWhile continuesWord := by
        rw [hcs, takeWhile_cons_of_pos (continuesWord_of_startsWord hword)]
      have hplain := hblank _ _ (splits_negated hword (longest_takeWhile continuesWord cs).1 hr)
      have htext : (a ++ " " ++ negated b).toList = a.toList ++ ' ' :: ("(0 - ".toList ++
          (c :: cs.takeWhile continuesWord) ++ ')' :: b.toList.dropWhile continuesWord) := by
        rw [← hname]
        simp [negated, hkeyword]
      rw [← htext, ← hname] at hplain
      refine sameTrees_of_splits hfirst hplain hend ?_
      simp only [flatMap_append, flatMap_cons, faces, hkeyword]
      rfl

theorem minus_sign_touching_name : ReadsClosed "f" ∧ SameTrees ("f" ++ " -" ++ "x.y") ("f" ++ "-" ++ "x.y") ∧
    SameTrees ("f" ++ " -" ++ "x.y") ("f" ++ " " ++ "(0 - x).y") := by
  have hname : Begins (.word false ['f']) [] := begins_of_read (show read 'f' [] = .ok (.word false ['f'], []) from rfl)
  have hclosed : ReadsClosed "f" := ⟨_, .cons hname .nil, by simp⟩
  have hsign := minus_sign_touching "f" "x.y" 'x' hclosed rfl (.inr (by decide))
  have hnegated : negated "x.y" = "(0 - x).y" := by decide +kernel
  exact ⟨hclosed, hsign.1, hnegated ▸ hsign.2.2 (by decide)⟩

/-- In front of a name with its sign stands a function, and in front of a number with its sign another statement. -/
theorem minus_sign_calls : let kinds (s : String) : List String := match parse s with
      | .ok (.program _ body) => body.map Inspect.nodeKind
      | _ => []
    kinds "a - b" = ["BinaryExpression"] ∧ kinds "a -b" = ["CallExpression"] ∧
      kinds "a - 1" = ["BinaryExpression"] ∧ kinds "a -1" = ["Identifier", "NumericLiteral"] := by
  decide +kernel

end SmallScript.Syntax
