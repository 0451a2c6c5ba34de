import Mathlib.Data.List.Infix
import Mathlib.Data.List.TakeWhile
import SmallScript.Proofs.Text.Classes
import SmallScript.Syntax.Lexeme

/-!
# The lexical grammar

`Lexeme.Begins l rest` says, without a word on how texts are read, that `l` is the first lexeme of the text
`l.source ++ rest`. Operators, numbers and words are the longest ones that fit; `Longest` is that notion, and
it determines where a lexeme ends. `Stuck cs e` says that the text `cs` has no first lexeme, and why.

`Lexeme.read` agrees with both: `read_eq_ok_iff` and `read_eq_error_iff`.
-/

namespace SmallScript.Syntax

open Text List

variable {l : Lexeme} {d : Char}

variable {cs rest run : List Char} {c : Char} {text : String} {kind : TokenKind}

/-! ## Longest runs -/

/-- The run is of a certain form, and no longer run of that form begins the text. -/
def Longest (P : List Char → Prop) (run rest : List Char) : Prop :=
  P run ∧ ∀ more, P more → more <+: run ++ rest → more.length ≤ run.length

theorem Longest.unique {P a b a' b'} (h : Longest P a b)
    (h' : Longest P a' b') (he : a ++ b = a' ++ b') : a = a' ∧ b = b' := by
  have hle : a'.length ≤ a.length := h.2 a' h'.1 (he ▸ prefix_append a' b')
  have hle' : a.length ≤ a'.length := h'.2 a h.1 (he ▸ prefix_append a b)
  exact append_inj he (le_antisymm hle' hle)

/-- All characters are of a certain class. -/
def AllOf (p : Char → Bool) (run : List Char) : Prop := ∀ c ∈ run, p c = true

theorem allOf_ne (h : d ∉ run) : AllOf (· != d) run := by
  intro c hc
  rw [bne_iff_ne]
  rintro rfl
  exact h hc

theorem longest_takeWhile (p : Char → Bool) (cs : List Char) : Longest (AllOf p) (cs.takeWhile p) (cs.dropWhile p) := by
  refine ⟨fun c hc => mem_takeWhile_imp hc, fun more hmore hpre => ?_⟩
  rw [takeWhile_append_dropWhile] at hpre
  obtain ⟨after, rfl⟩ := hpre
  rw [takeWhile_append_of_pos hmore, length_append]
  exact Nat.le_add_right _ _

/-- Digits with at most one point. With a point already seen there is none. -/
def DigitRun (pointSeen : Bool) (run : List Char) : Prop :=
  (∀ c ∈ run, isDigit c = true ∨ c = '.') ∧ run.count '.' + pointSeen.toNat ≤ 1

theorem DigitRun.nil (pointSeen : Bool) : DigitRun pointSeen [] :=
  ⟨fun _ hc => absurd hc not_mem_nil, by cases pointSeen <;> decide⟩

theorem digitRun_digit (hc : isDigit c = true) (pointSeen : Bool) (run : List Char) :
    DigitRun pointSeen (c :: run) ↔ DigitRun pointSeen run := by
  have hne : c ≠ '.' := by
    rintro rfl
    cases hc
  unfold DigitRun
  rw [count_cons_of_ne hne, forall_mem_cons]
  exact ⟨fun h => ⟨h.1.2, h.2⟩, fun h => ⟨⟨.inl hc, h.1⟩, h.2⟩⟩

theorem digitRun_point (run : List Char) : DigitRun false ('.' :: run) ↔ DigitRun true run := by
  unfold DigitRun
  rw [count_cons_self, forall_mem_cons]
  exact ⟨fun h => ⟨h.1.2, h.2⟩, fun h => ⟨⟨.inr rfl, h.1⟩, h.2⟩⟩

/-- The head of a run of digits is a digit, or the one point. -/
theorem DigitRun.head {pointSeen} (h : DigitRun pointSeen (c :: run)) :
    isDigit c = true ∨ (c = '.' ∧ pointSeen = false) := by
  rcases h.1 c (.head _) with hc | rfl
  · exact .inl hc
  · refine .inr ⟨rfl, ?_⟩
    have hcount := h.2
    cases pointSeen
    · rfl
    · exact absurd hcount (by simp)

theorem Longest.cons {P Q} (h : Longest P run rest) (hQ : ∀ run, Q (c :: run) ↔ P run) : Longest Q (c :: run) rest := by
  refine ⟨(hQ run).2 h.1, fun more hmore hpre => ?_⟩
  cases more with
  | nil => exact Nat.zero_le _
  | cons d more =>
    rw [cons_append, cons_prefix_cons] at hpre
    obtain ⟨rfl, hpre⟩ := hpre
    exact Nat.succ_le_succ (h.2 more ((hQ more).1 hmore) hpre)

theorem longest_numberRun (pointSeen : Bool) (cs : List Char) :
    Longest (DigitRun pointSeen) (numberRun pointSeen cs).1 (numberRun pointSeen cs).2 := by
  induction cs generalizing pointSeen with
  | nil =>
    refine ⟨.nil pointSeen, fun more _ hpre => ?_⟩
    exact hpre.length_le
  | cons c cs ih =>
    unfold numberRun
    by_cases hc : isDigit c = true
    · rw [if_pos hc]
      exact (ih pointSeen).cons (digitRun_digit hc pointSeen)
    · rw [if_neg hc]
      by_cases hp : (c == '.' && !pointSeen) = true
      · obtain ⟨rfl, rfl⟩ : c = '.' ∧ pointSeen = false := by simpa using hp
        exact (ih true).cons digitRun_point
      · rw [if_neg hp]
        refine ⟨.nil pointSeen, fun more hmore hpre => ?_⟩
        cases more with
        | nil => exact le_refl _
        | cons d more =>
          -- a longer run would begin with the character that ends this one
          rw [nil_append, cons_prefix_cons] at hpre
          obtain ⟨rfl, -⟩ := hpre
          rcases hmore.head with hd | hd
          · exact absurd hd hc
          · exact absurd (by simp [hd.1, hd.2]) hp

/-! ## Operators -/

/-- The text is an entry of the table of operators. -/
def IsOperator (text : List Char) : Prop := ∃ o ∈ operators, o.1.toList = text

/-- Longer operators stand before shorter ones, and each has one entry. -/
theorem operators_sorted : operators.Pairwise fun a b => b.1.toList.length ≤ a.1.toList.length ∧ a.1 ≠ b.1 := by
  decide

theorem operatorAt?_eq_none_iff : operatorAt? cs = none ↔ ∀ text, IsOperator text → ¬ text <+: cs := by
  unfold operatorAt?
  rw [find?_eq_none]
  constructor
  · rintro h text ⟨o, ho, rfl⟩ hpre
    exact h o ho (List.isPrefixOf_iff_prefix.2 hpre)
  · intro h o ho hpre
    exact h _ ⟨o, ho, rfl⟩ (List.isPrefixOf_iff_prefix.1 hpre)

theorem operatorAt?_fits (h : operatorAt? cs = some (text, kind)) : (text, kind) ∈ operators ∧ text.toList <+: cs := by
  have hfits := find?_some h
  exact ⟨mem_of_find?_eq_some h, isPrefixOf_iff_prefix.1 hfits⟩

/-- The first fitting entry of the table is the longest one. -/
theorem length_le_of_operatorAt? (h : operatorAt? cs = some (text, kind)) {o} (ho : o ∈ operators)
    (hpre : o.1.toList <+: cs) : o = (text, kind) ∨ (o.1.toList.length ≤ text.toList.length ∧ text ≠ o.1) := by
  obtain ⟨-, before, after, hsplit, hbefore⟩ := find?_eq_some_iff_append.1 h
  have hsorted := operators_sorted
  rw [hsplit] at ho hsorted
  rcases mem_append.1 ho with ho | ho
  · have hnot := hbefore o ho
    rw [List.isPrefixOf_iff_prefix.2 hpre] at hnot
    cases hnot
  · rcases mem_cons.1 ho with rfl | ho
    · exact .inl rfl
    · exact .inr (rel_of_pairwise_cons (pairwise_append.1 hsorted).2.1 ho)

theorem operatorAt?_eq_some (ho : (text, kind) ∈ operators) (h : Longest IsOperator text.toList rest) :
    operatorAt? (text.toList ++ rest) = some (text, kind) := by
  have hpre : text.toList <+: text.toList ++ rest := prefix_append _ _
  cases hat : operatorAt? (text.toList ++ rest) with
  | none => exact absurd hpre (operatorAt?_eq_none_iff.1 hat _ h.1)
  | some found =>
    rcases length_le_of_operatorAt? hat ho hpre with he | ⟨hle, hne⟩
    · rw [he]
    · -- both entries fit, and neither is longer than the other
      obtain ⟨hmem, hpre'⟩ := operatorAt?_fits hat
      have hle' := h.2 _ ⟨_, hmem, rfl⟩ hpre'
      have hsub := prefix_of_prefix_length_le hpre' hpre hle'
      exact absurd (String.toList_inj.1 (hsub.eq_of_length (le_antisymm hle' hle))) hne

/-! ## Lexemes -/

/-- Blanks other than line breaks. -/
def IsSpace (c : Char) : Prop := c = ' ' ∨ c = '\t' ∨ c = '\r'

/-- The characters that end a comment. -/
def EndsComment (c : Char) : Prop := c = ';' ∨ c = '\n'

/-- The lexeme is the first one of the text that begins with its source and goes on with the rest. -/
inductive Lexeme.Begins : Lexeme → List Char → Prop where
  | space {c : Char} {rest : List Char} (h : IsSpace c) : Begins (.space c) rest
  | newline {rest : List Char} : Begins .newline rest
  /-- a comment with an end -/
  | comment {body rest : List Char} {close : Char} (hbody : ∀ c ∈ body, ¬ EndsComment c)
    (hclose : EndsComment close) : Begins (.comment body (some close)) rest
  /-- a comment that goes on to the end of the text -/
  | lastComment {body : List Char} (hbody : ∀ c ∈ body, ¬ EndsComment c) : Begins (.comment body none) []
  /-- the longest operator -/
  | operator {text : String} {kind : TokenKind} {rest : List Char} (h : (text, kind) ∈ operators)
    (longest : Longest IsOperator text.toList rest) : Begins (.operator text kind) rest
  /-- a minus sign that is no part of an operator and does not touch a number or word -/
  | minus {c : Char} {rest : List Char} (hno : ∀ text, IsOperator text → ¬ text <+: '-' :: c :: rest)
    (hdigit : isDigit c = false) (hletter : isLetter c = false) (hline : c ≠ '_') : Begins .minus (c :: rest)
  /-- a digit and then the longest run of digits with at most one point -/
  | number (neg : Bool) {d : Char} {run rest : List Char} (hd : isDigit d = true)
    (longest : Longest (DigitRun false) run rest) : Begins (.number neg (d :: run)) rest
  /-- a letter or low line and then the longest run of letters, digits and low lines -/
  | word (neg : Bool) {c : Char} {run rest : List Char} (hc : isLetter c = true ∨ c = '_')
    (longest : Longest (AllOf continuesWord) run rest) : Begins (.word neg (c :: run)) rest
  /-- a string, up to the next quote -/
  | string {content rest : List Char} (h : '"' ∉ content) : Begins (.string content) rest

/-- The text has no first lexeme. -/
inductive Stuck : List Char → LexemeFault → Prop where
  /-- a minus sign at the very end -/
  | lastMinus : Stuck ['-'] .lastMinus
  /-- a quote without another one -/
  | unclosedString {cs : List Char} (h : '"' ∉ cs) : Stuck ('"' :: cs) .unclosedString
  /-- another character that begins no lexeme -/
  | unknown {c : Char} {cs : List Char} (hminus : c ≠ '-') (hquote : c ≠ '"')
    (h : ∀ (l : Lexeme) (rest : List Char), l.Begins rest → l.source ++ rest ≠ c :: cs) :
    Stuck (c :: cs) (.unknown c)

/-! ## Classes of characters -/

theorem continuesWord_of_isDigit (h : isDigit c = true) : continuesWord c = true := by
  simp [continuesWord, h]

theorem continuesWord_of_startsWord (h : startsWord c = true) : continuesWord c = true := by
  unfold continuesWord
  rcases Bool.or_eq_true_iff.1 h with h | h
  · simp [h]
  · simp [h]

theorem startsWord_iff : startsWord c = true ↔ isLetter c = true ∨ c = '_' := by
  simp [startsWord]

/-- A character with a property that another one does not have is not that one. -/
theorem ne_of_class {p : Char → Bool} (hc : p c = true) (hd : p d = false) : c ≠ d := by
  rintro rfl
  rw [hc] at hd
  cases hd

/-- The characters that begin something else than an operator: those of words, quotation marks, hash signs and
white space. -/
def opensOther (c : Char) : Bool :=
  continuesWord c || c == '"' || c == '#' || c == ' ' || c == '\t' || c == '\r' || c == '\n'

theorem opensOther_of_continuesWord (h : continuesWord c = true) : opensOther c = true := by
  simp [opensOther, h]

theorem operators_heads : ∀ o ∈ operators, o.1.toList.head?.any opensOther = false := by decide

/-- A minus sign alone is no operator of the table, and in the longer ones nothing else begins behind it. -/
theorem operators_minus : ∀ o ∈ operators, o.1.toList.head? = some '-' →
    o.1.toList[1]?.any opensOther = false ∧ o.1.toList.length ≠ 1 := by
  decide

theorem opensOther_of_operator {o} (ho : o ∈ operators) (hc : o.1.toList = c :: cs) : opensOther c = false := by
  have hany := operators_heads o ho
  rwa [hc] at hany

theorem no_operator_of_head (h : opensOther c = true) : operatorAt? (c :: cs) = none := by
  rw [operatorAt?_eq_none_iff]
  rintro text ⟨o, ho, rfl⟩ hpre
  obtain ⟨d, ds, hd⟩ := exists_cons_of_ne_nil (operators_nonempty o ho)
  have hother := opensOther_of_operator ho hd
  rw [hd, cons_prefix_cons] at hpre
  rw [hpre.1, h] at hother
  cases hother

theorem no_operator_of_minus (h : opensOther c = true) : operatorAt? ('-' :: c :: cs) = none := by
  rw [operatorAt?_eq_none_iff]
  rintro text ⟨o, ho, rfl⟩ hpre
  obtain ⟨d, ds, hd⟩ := exists_cons_of_ne_nil (operators_nonempty o ho)
  rw [hd, cons_prefix_cons] at hpre
  obtain ⟨rfl, hpre⟩ := hpre
  obtain ⟨hother, hlength⟩ := operators_minus o ho (by rw [hd]; rfl)
  rw [hd] at hother hlength
  cases ds with
  | nil => exact hlength rfl
  | cons e ds =>
    rw [cons_prefix_cons] at hpre
    have hother : opensOther e = false := hother
    rw [hpre.1, h] at hother
    cases hother

/-! ## Reading keeps to the grammar -/

theorem not_endsComment_iff : ¬ EndsComment c ↔ insideComment c = true := by
  simp [EndsComment, insideComment]

theorem longest_operator (h : operatorAt? cs = some (text, kind)) :
    Longest IsOperator text.toList (cs.drop text.length) := by
  obtain ⟨hmem, after, rfl⟩ := operatorAt?_fits h
  rw [← String.length_toList, drop_left]
  refine ⟨⟨_, hmem, rfl⟩, ?_⟩
  rintro more ⟨o, ho, rfl⟩ hpre
  rcases length_le_of_operatorAt? h ho hpre with rfl | hle
  · exact le_refl _
  · exact hle.1

theorem begins_of_numberOrWord? {neg} (h : numberOrWord? neg cs = some (l, rest)) : l.Begins rest := by
  cases cs with
  | nil => cases h
  | cons c cs =>
    unfold numberOrWord? at h
    dsimp only at h
    by_cases hc : isDigit c = true
    · rw [if_pos hc] at h
      cases h
      exact .number neg hc (longest_numberRun false cs)
    · rw [if_neg hc] at h
      by_cases hw : startsWord c = true
      · rw [if_pos hw] at h
        cases h
        exact .word neg (startsWord_iff.1 hw) (longest_takeWhile continuesWord cs)
      · rw [if_neg hw] at h
        cases h

theorem numberOrWord?_eq_none_iff {neg} :
    numberOrWord? neg (c :: cs) = none ↔ isDigit c = false ∧ startsWord c = false := by
  unfold numberOrWord?
  by_cases hc : isDigit c = true
  · simp [hc]
  · by_cases hw : startsWord c = true
    · simp [hc, hw]
    · simp [hc, hw]

theorem begins_comment (h : (match cs.dropWhile insideComment with
      | [] => Except.ok (Lexeme.comment cs none, [])
      | d :: rest => .ok (.comment (cs.takeWhile insideComment) (some d), rest) :
        Except LexemeFault (Lexeme × List Char)) = .ok (l, rest)) : l.Begins rest := by
  split at h
  · next hd =>
    cases h
    exact .lastComment fun c hc => not_endsComment_iff.2 (dropWhile_eq_nil_iff.1 hd c hc)
  · next d after hd =>
    cases h
    refine .comment (fun c hc => not_endsComment_iff.2 (mem_takeWhile_imp hc)) ?_
    have hhead := head_dropWhile_not (p := insideComment) (by rw [hd]; exact cons_ne_nil _ _)
    simp only [hd, head_cons] at hhead
    by_contra hnot
    rw [not_endsComment_iff.1 hnot] at hhead
    cases hhead

theorem Lexeme.begins_of_read (h : Lexeme.read c cs = .ok (l, rest)) : l.Begins rest := by
  unfold read at h
  by_cases hnl : (c == '\n') = true
  · rw [if_pos hnl] at h
    cases h
    exact .newline
  rw [if_neg hnl] at h
  by_cases hsp : (c == ' ' || c == '\t' || c == '\r') = true
  · rw [if_pos hsp] at h
    cases h
    exact .space (by simpa [IsSpace, or_assoc] using hsp)
  rw [if_neg hsp] at h
  cases hop : operatorAt? (c :: cs) with
  | some found =>
    rw [hop] at h
    cases h
    exact .operator (operatorAt?_fits hop).1 (longest_operator hop)
  | none =>
    rw [hop] at h
    dsimp only at h
    by_cases hhash : (c == '#') = true
    · rw [if_pos hhash] at h
      exact begins_comment h
    rw [if_neg hhash] at h
    by_cases hminus : (c == '-') = true
    · rw [if_pos hminus] at h
      cases cs with
      | nil => cases h
      | cons d cs =>
        cases hn : numberOrWord? true (d :: cs) with
        | some found =>
          rw [hn] at h
          cases h
          exact begins_of_numberOrWord? hn
        | none =>
          rw [hn] at h
          cases h
          obtain ⟨hd, hw⟩ := numberOrWord?_eq_none_iff.1 hn
          rw [beq_iff_eq] at hminus
          rw [hminus] at hop
          obtain ⟨hletter, hline⟩ := Bool.or_eq_false_iff.1 hw
          exact .minus (operatorAt?_eq_none_iff.1 hop) hd hletter (by simpa using hline)
    rw [if_neg hminus] at h
    by_cases hquote : (c == '"') = true
    · rw [if_pos hquote] at h
      split at h
      · cases h
      · cases h
        exact .string fun hmem => absurd (mem_takeWhile_imp hmem) (by decide)
    rw [if_neg hquote] at h
    cases hn : numberOrWord? false (c :: cs) with
    | some found =>
      rw [hn] at h
      cases h
      exact begins_of_numberOrWord? hn
    | none =>
      rw [hn] at h
      cases h

/-! ## Reading finds every lexeme -/

theorem numberOrWord?_number (neg : Bool) (hd : isDigit d = true) (h : Longest (DigitRun false) run rest) :
    numberOrWord? neg (d :: (run ++ rest)) = some (.number neg (d :: run), rest) := by
  obtain ⟨hrun, hrest⟩ := (longest_numberRun false (run ++ rest)).unique h (numberRun_append _ _)
  simp only [numberOrWord?, if_pos hd, hrun, hrest]

theorem numberOrWord?_word (neg : Bool) (hc : isLetter c = true ∨ c = '_') (h : Longest (AllOf continuesWord) run rest) :
    numberOrWord? neg (c :: (run ++ rest)) = some (.word neg (c :: run), rest) := by
  obtain ⟨hrun, hrest⟩ := (longest_takeWhile continuesWord (run ++ rest)).unique h takeWhile_append_dropWhile
  have hdigit : ¬ isDigit c = true := by
    rw [Bool.not_eq_true]
    rcases hc with hc | rfl
    · exact isDigit_of_isLetter hc
    · decide
  simp only [numberOrWord?, if_neg hdigit, if_pos (startsWord_iff.2 hc), hrun, hrest]

theorem read_numberOrWord {r} (hc : continuesWord c = true)
    (h : numberOrWord? false (c :: cs) = some r) : Lexeme.read c cs = .ok r := by
  have hne : ∀ d, continuesWord d = false → (c == d) = false := fun d hd =>
    beq_eq_false_iff_ne.2 (ne_of_class hc hd)
  have hop : operatorAt? (c :: cs) = none := no_operator_of_head (opensOther_of_continuesWord hc)
  unfold Lexeme.read
  simp only [hne '\n' (by decide), hne ' ' (by decide), hne '\t' (by decide), hne '\r' (by decide),
    hne '#' (by decide), hne '-' (by decide), hne '"' (by decide), hop, h,
    Bool.or_self, Bool.false_eq_true, if_false]

theorem read_minus (hop : operatorAt? ('-' :: d :: cs) = none) :
    Lexeme.read '-' (d :: cs) = .ok ((numberOrWord? true (d :: cs)).getD (.minus, d :: cs)) := by
  unfold Lexeme.read
  rw [hop]
  rfl

theorem read_hash (cs : List Char) : Lexeme.read '#' cs = match cs.dropWhile insideComment with
      | [] => .ok (.comment cs none, [])
      | d :: rest => .ok (.comment (cs.takeWhile insideComment) (some d), rest) := by
  unfold Lexeme.read
  rfl

theorem read_quote (cs : List Char) : Lexeme.read '"' cs = match cs.dropWhile (· != '"') with
      | [] => .error .unclosedString
      | _ :: rest => .ok (.string (cs.takeWhile (· != '"')), rest) := by
  unfold Lexeme.read
  rfl

/-- A run of characters of a class, up to one that is not in it. -/
theorem takeWhile_dropWhile_of_stop {p} (h : AllOf p run) (hc : p c = false) (rest : List Char) :
    (run ++ c :: rest).takeWhile p = run ∧ (run ++ c :: rest).dropWhile p = c :: rest := by
  rw [takeWhile_append_of_pos h, dropWhile_append_of_pos h,
    takeWhile_cons_of_neg (by rw [hc]; decide), dropWhile_cons_of_neg (by rw [hc]; decide),
    append_nil]
  exact ⟨rfl, rfl⟩

theorem read_operator (h : (text, kind) ∈ operators) (longest : Longest IsOperator text.toList rest) :
    ∃ c cs, text.toList ++ rest = c :: cs ∧ Lexeme.read c cs = .ok (.operator text kind, rest) := by
  obtain ⟨c, cs, hc⟩ := exists_cons_of_ne_nil (operators_nonempty _ h)
  have hother := opensOther_of_operator h hc
  simp only [opensOther, Bool.or_eq_false_iff] at hother
  obtain ⟨⟨⟨⟨-, h1⟩, h2⟩, h3⟩, h4⟩ := hother
  have hop := operatorAt?_eq_some h longest
  have hdrop : (c :: (cs ++ rest)).drop text.length = rest := by
    rw [← cons_append, ← hc, ← String.length_toList, drop_left]
  rw [hc, cons_append] at hop ⊢
  refine ⟨c, cs ++ rest, rfl, ?_⟩
  have hsp : ¬ (c == ' ' || c == '\t' || c == '\r') = true := by simp [h1, h2, h3]
  have hnl : ¬ (c == '\n') = true := by simpa using h4
  unfold Lexeme.read
  rw [if_neg hnl, if_neg hsp, hop]
  dsimp only
  rw [hdrop]

theorem Lexeme.read_of_begins (h : l.Begins rest) :
    ∃ c cs, l.source ++ rest = c :: cs ∧ Lexeme.read c cs = .ok (l, rest) := by
  cases h with
  | @space c rest h =>
    refine ⟨c, rest, rfl, ?_⟩
    rcases h with rfl | rfl | rfl <;> rfl
  | @newline rest => exact ⟨'\n', rest, rfl, rfl⟩
  | @comment body rest close hbody hclose =>
    refine ⟨'#', body ++ close :: rest, by simp [source], ?_⟩
    have hin : AllOf insideComment body := fun c hc => not_endsComment_iff.1 (hbody c hc)
    have hout : insideComment close = false := by
      rw [← Bool.not_eq_true, ← not_endsComment_iff]
      exact not_not.2 hclose
    obtain ⟨htake, hdrop⟩ := takeWhile_dropWhile_of_stop hin hout rest
    rw [read_hash, hdrop, htake]
  | @lastComment body hbody =>
    refine ⟨'#', body, by simp [source], ?_⟩
    have hdrop : body.dropWhile insideComment = [] :=
      dropWhile_eq_nil_iff.2 fun c hc => not_endsComment_iff.1 (hbody c hc)
    rw [read_hash, hdrop]
  | operator h longest => exact read_operator h longest
  | @minus c rest hno hdigit hletter hline =>
    refine ⟨'-', c :: rest, rfl, ?_⟩
    have hnone : numberOrWord? true (c :: rest) = none := by
      refine numberOrWord?_eq_none_iff.2 ⟨hdigit, Bool.or_eq_false_iff.2 ⟨hletter, ?_⟩⟩
      simpa using hline
    rw [read_minus (operatorAt?_eq_none_iff.2 hno), hnone]
    rfl
  | @number neg d run rest hd longest =>
    cases neg with
    | true =>
      refine ⟨'-', d :: (run ++ rest), rfl, ?_⟩
      rw [read_minus (no_operator_of_minus (opensOther_of_continuesWord (continuesWord_of_isDigit hd))),
        numberOrWord?_number true hd longest]
      rfl
    | false =>
      exact ⟨d, run ++ rest, rfl,
        read_numberOrWord (continuesWord_of_isDigit hd) (numberOrWord?_number false hd longest)⟩
  | @word neg c run rest hc longest =>
    have hword := continuesWord_of_startsWord (startsWord_iff.2 hc)
    cases neg with
    | true =>
      refine ⟨'-', c :: (run ++ rest), rfl, ?_⟩
      rw [read_minus (no_operator_of_minus (opensOther_of_continuesWord hword)), numberOrWord?_word true hc longest]
      rfl
    | false =>
      exact ⟨c, run ++ rest, rfl, read_numberOrWord hword (numberOrWord?_word false hc longest)⟩
  | @string content rest h =>
    refine ⟨'"', content ++ '"' :: rest, by simp [source], ?_⟩
    obtain ⟨htake, hdrop⟩ := takeWhile_dropWhile_of_stop (allOf_ne h) (c := '"') (by decide) rest
    rw [read_quote, hdrop, htake]

/-- Reading splits off exactly the lexeme that the text begins with. -/
theorem Lexeme.read_eq_ok_iff : Lexeme.read c cs = .ok (l, rest) ↔ l.Begins rest ∧ l.source ++ rest = c :: cs := by
  constructor
  · intro h
    exact ⟨begins_of_read h, source_append_rest h⟩
  · rintro ⟨h, he⟩
    obtain ⟨d, ds, hd, hread⟩ := read_of_begins h
    obtain ⟨rfl, rfl⟩ := cons.inj (he.symm.trans hd)
    exact hread

theorem stuck_of_read {e} (h : Lexeme.read c cs = .error e) : Stuck (c :: cs) e := by
  have hno : ∀ (l : Lexeme) (rest : List Char), l.Begins rest → l.source ++ rest ≠ c :: cs := by
    intro l rest hl he
    rw [Lexeme.read_eq_ok_iff.2 ⟨hl, he⟩] at h
    cases h
  by_cases hminus : c = '-'
  · subst hminus
    cases cs with
    | nil =>
      cases h
      exact .lastMinus
    | cons d cs =>
      cases hop : operatorAt? ('-' :: d :: cs) with
      | none =>
        rw [read_minus hop] at h
        cases h
      | some found =>
        unfold Lexeme.read at h
        rw [hop] at h
        cases h
  by_cases hquote : c = '"'
  · subst hquote
    rw [read_quote] at h
    split at h
    · next hd =>
      cases h
      exact .unclosedString fun hmem => absurd (dropWhile_eq_nil_iff.1 hd _ hmem) (by decide)
    · cases h
  have hcause : e = .unknown c := by
    unfold Lexeme.read at h
    simp only [beq_eq_false_iff_ne.2 hminus, beq_eq_false_iff_ne.2 hquote] at h
    split at h
    · cases h
    split at h
    · cases h
    split at h
    · cases h
    split at h
    · split at h <;> cases h
    simp only [Bool.false_eq_true, if_false] at h
    split at h
    · cases h
    · cases h
      rfl
  rw [hcause]
  exact .unknown hminus hquote hno

/-- Reading fails exactly where the text has no first lexeme. -/
theorem Lexeme.read_eq_error_iff {e} : Lexeme.read c cs = .error e ↔ Stuck (c :: cs) e := by
  refine ⟨stuck_of_read, fun h => ?_⟩
  cases h with
  | lastMinus => decide
  | unclosedString h =>
    have hdrop : cs.dropWhile (· != '"') = [] := dropWhile_eq_nil_iff.2 (allOf_ne h)
    rw [read_quote, hdrop]
  | unknown hminus hquote hno =>
    cases hread : read c cs with
    | ok found =>
      obtain ⟨hl, he⟩ := read_eq_ok_iff.1 hread
      exact absurd he (hno _ _ hl)
    | error e' =>
      cases stuck_of_read hread with
      | lastMinus => exact absurd rfl hminus
      | unclosedString _ => exact absurd rfl hquote
      | unknown _ _ _ => rfl

end SmallScript.Syntax
