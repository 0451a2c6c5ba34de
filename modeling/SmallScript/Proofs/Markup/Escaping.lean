import Mathlib.Data.List.Infix
import SmallScript.Markup.Html

/-!
# Coloured output is shown as it is

A text is read as characters and colour codes, `Reads`, and the codes among these are all codes that occur in it,
`Reads.mem_iff`. `toHtml` puts a tag in place of each code and an entity in place of some characters, drops escape
characters, and fails exactly if one of the codes is not known. No stage of it makes or breaks what another one looks for:
an entity neither holds the opening bracket of a code nor begins as the rest of one, and a tag holds no escape character.

So every `<` of the result begins a tag, and the text can be read back from the result: `toHtml_exact`.
-/

namespace SmallScript.Markup

open Text List

/-- The digits of a colour code. -/
def IsCode (digits : List Char) : Prop := digits ≠ [] ∧ ∀ c ∈ digits, isDecimalDigit c = true

/-- The text of a colour code. -/
def codeText (digits : List Char) : List Char := '[' :: (digits ++ ['m'])

def knownCodes : List String := ["31", "32", "33", "34", "35", "36", "37", "39"]

/-- The tag of a known code. -/
def tagText (digits : List Char) : List Char :=
  if String.ofList digits = "39" then "</span>".toList
  else "<span style=\"color: ".toList ++ ((codeColours.lookup (String.ofList digits)).getD "").toList ++ "\">".toList

/-- A part of a text. -/
inductive Piece where
  | plain (c : Char)
  | code (digits : List Char)

namespace Piece

/-- What a part is in HTML. -/
def html : Piece → List Char
  | .plain c => if c = escapeMark then [] else entity c
  | .code digits => tagText digits

/-- What can be read back of a part. -/
def kept : Piece → List Char
  | .plain c => if c = escapeMark then [] else [c]
  | .code _ => []

end Piece

/-- The text consists of the parts. A code is read as such wherever one begins. -/
inductive Reads : List Char → List Piece → Prop where
  | nil : Reads [] []
  | plain {c : Char} {cs : List Char} {ps : List Piece} (hc : ∀ digits, IsCode digits → ¬ codeText digits <+: c :: cs)
    (h : Reads cs ps) : Reads (c :: cs) (.plain c :: ps)
  | code {digits cs : List Char} {ps : List Piece} (hd : IsCode digits) (h : Reads cs ps) :
    Reads (codeText digits ++ cs) (.code digits :: ps)

variable {c : Char} {cs digits : List Char} {ps : List Piece}

/-! ## Codes -/

theorem IsCode.not_mem (h : IsCode digits) (hc : isDecimalDigit c = false) : c ∉ digits := by
  intro hmem
  rw [h.2 c hmem] at hc
  cases hc

theorem codeAfter?_eq_some_iff {rest} :
    codeAfter? cs = some (digits, rest) ↔ IsCode digits ∧ cs = digits ++ 'm' :: rest := by
  have hm : isDecimalDigit 'm' = false := by decide
  constructor
  · intro h
    have hsplit := takeWhile_append_dropWhile (p := isDecimalDigit) (l := cs)
    have hall := all_takeWhile (p := isDecimalDigit) (l := cs)
    unfold codeAfter? at h
    split at h
    · next d ds rest' ht hd =>
      cases h
      rw [ht, hd] at hsplit
      rw [ht, all_eq_true] at hall
      exact ⟨⟨cons_ne_nil d ds, hall⟩, hsplit.symm⟩
    · cases h
  · rintro ⟨⟨hne, hall⟩, rfl⟩
    have ht : (digits ++ 'm' :: rest).takeWhile isDecimalDigit = digits := by
      rw [takeWhile_append_of_pos hall, takeWhile_cons_of_neg (by simp [hm]), append_nil]
    have hd : (digits ++ 'm' :: rest).dropWhile isDecimalDigit = 'm' :: rest := by
      rw [dropWhile_append_of_pos hall, dropWhile_cons_of_neg (by simp [hm])]
    obtain ⟨d, ds, rfl⟩ := exists_cons_of_ne_nil hne
    rw [codeAfter?, ht, hd]
    rfl

/-- A code is found where one begins. -/
theorem codeAt?_eq_some_iff {rest} :
    codeAt? c cs = some (digits, rest) ↔ IsCode digits ∧ c :: cs = codeText digits ++ rest := by
  unfold codeAt? codeText
  split
  · next hc => simp [codeAfter?_eq_some_iff, hc]
  · next hc => simp [hc]

theorem code_unique {digits'} (h : IsCode digits) (h' : IsCode digits')
    (hpre : codeText digits <+: codeText digits' ++ cs) : digits = digits' := by
  obtain ⟨rest, hrest⟩ := hpre
  have hfind : codeAt? '[' (digits' ++ ['m'] ++ cs) = some (digits, rest) := codeAt?_eq_some_iff.2 ⟨h, hrest.symm⟩
  cases (codeAt?_eq_some_iff.2 ⟨h', rfl⟩).symm.trans hfind
  rfl

theorem infix_of_not_mem {w : List Char} (hw : '[' ∉ w) (h : codeText digits <:+: w ++ cs) : codeText digits <:+: cs := by
  induction w with
  | nil => exact h
  | cons c w ih =>
    rw [mem_cons, not_or] at hw
    rcases List.infix_cons_iff.1 h with hpre | hin
    · exact absurd (List.cons_prefix_cons.1 hpre).1 hw.1
    · exact ih hw.2 hin

/-- The codes among the parts are all codes of the text. -/
theorem Reads.mem_iff (h : Reads cs ps) (hd : IsCode digits) : codeText digits <:+: cs ↔ .code digits ∈ ps := by
  induction h with
  | nil => simp [codeText]
  | plain hc _ ih => simp [infix_cons_iff, hc digits hd, ih]
  | @code digits' cs ps hd' _ ih =>
    rw [mem_cons, ← ih]
    constructor
    · intro hin
      rcases infix_cons_iff.1 hin with hpre | hin
      · exact .inl (congrArg Piece.code (code_unique hd hd' hpre))
      · exact .inr (infix_of_not_mem (by simp [hd'.not_mem (show isDecimalDigit '[' = false by decide)]) hin)
    · rintro (heq | hin)
      · cases heq
        exact (prefix_append _ cs).isInfix
      · exact hin.trans (suffix_append _ cs).isInfix

theorem Reads.isCode (h : Reads cs ps) (hmem : .code digits ∈ ps) : IsCode digits := by
  induction h with
  | nil => cases hmem
  | plain _ _ ih => exact ih (by simpa using hmem)
  | code hd _ ih =>
    rcases mem_cons.1 hmem with heq | hmem
    · cases heq
      exact hd
    · exact ih hmem

theorem exists_reads (cs : List Char) : ∃ ps, Reads cs ps := by
  induction hn : cs.length using Nat.strong_induction_on generalizing cs with
  | _ n ih =>
    subst hn
    cases cs with
    | nil => exact ⟨[], .nil⟩
    | cons c cs =>
      cases hcode : codeAt? c cs with
      | none =>
        obtain ⟨ps, hps⟩ := ih cs.length (by simp) cs rfl
        refine ⟨_, .plain (fun digits hd hpre => ?_) hps⟩
        obtain ⟨rest, hrest⟩ := hpre
        cases hcode.symm.trans (codeAt?_eq_some_iff.2 ⟨hd, hrest.symm⟩)
      | some r =>
        obtain ⟨hd, heq⟩ := codeAt?_eq_some_iff.1 hcode
        obtain ⟨ps, hps⟩ := ih r.2.length (Nat.lt_succ_of_lt (length_of_codeAt? hcode)) r.2 rfl
        exact ⟨_, heq ▸ Reads.code hd hps⟩

/-! ## Entities and tags -/

/-- The characters with a meaning in HTML. -/
def specials : List Char := ['&', '<', '>', '"', '\'']

theorem entity_of_not_special (hc : c ∉ specials) : entity c = [c] := by
  simp only [specials] at hc
  unfold entity
  split <;> simp_all

theorem entity_special : ∀ c ∈ specials, (entity c).head? = some '&' ∧ '[' ∉ entity c ∧ escapeMark ∉ entity c ∧
    c ≠ escapeMark ∧ '<' ∉ entity c ∧ isDecimalDigit c = false ∧ c ≠ '[' ∧ c ≠ 'm' := by
  simp only [specials, forall_mem_cons, not_mem_nil, false_implies, implies_true, and_true]
  refine ⟨?_, ?_, ?_, ?_, ?_⟩ <;> decide

theorem tagOf_known : ∀ code ∈ knownCodes, tagOf code = .ok (String.ofList (tagText code.toList)) := by decide

theorem tagOf_unknown {code} (h : code ∉ knownCodes) : tagOf code = .error code := by
  simp only [knownCodes, mem_cons, not_or] at h
  have hnone : codeColours.lookup code = none := by
    simp [codeColours, h]
  simp [tagOf, endCode, hnone, h]

/-- The rest of a code at the front of a text with entities begins the text itself. -/
theorem prefix_of_escaped {w} (hw : ∀ c ∈ w, c ≠ '&') (h : w <+: escaped cs) : w <+: cs := by
  induction w generalizing cs with
  | nil => exact nil_prefix
  | cons d w ih =>
    obtain ⟨hd, hw⟩ := forall_mem_cons.1 hw
    obtain ⟨more, hmore⟩ := h
    cases cs with
    | nil => cases hmore
    | cons c cs =>
      rw [escaped, flatMap_cons] at hmore
      by_cases hc : c ∈ specials
      · obtain ⟨es, hes⟩ := head?_eq_some_iff.1 (entity_special c hc).1
        rw [hes] at hmore
        exact absurd (cons.inj hmore).1 hd
      · rw [entity_of_not_special hc] at hmore
        obtain ⟨rfl, htail⟩ := cons.inj hmore
        exact (prefix_cons_inj d).2 (ih hw ⟨more, htail⟩)

theorem escaped_codeText (h : IsCode digits) : escaped (codeText digits) = codeText digits := by
  have hplain : ∀ c ∈ codeText digits, entity c = [c] := by
    intro c hc
    apply entity_of_not_special
    intro hs
    obtain ⟨-, -, -, -, -, hdigit, hbracket, hm⟩ := entity_special c hs
    simp [codeText, hbracket, hm, h.not_mem hdigit] at hc
  rw [escaped, flatMap_congr hplain, flatMap_singleton']

/-! ## The stages -/

theorem tagged_cons (h : codeAt? c cs = none) : tagged (c :: cs) = (tagged cs).map (c :: ·) := by
  rw [tagged]
  split
  · next hsome => cases h.symm.trans hsome
  · cases tagged cs <;> rfl

theorem tagged_append {w : List Char} (hw : '[' ∉ w) : tagged (w ++ cs) = (tagged cs).map (w ++ ·) := by
  induction w with
  | nil =>
    rw [nil_append]
    cases tagged cs <;> rfl
  | cons c w ih =>
    rw [mem_cons, not_or] at hw
    rw [cons_append, tagged_cons (if_neg (Ne.symm hw.1)), ih hw.2]
    cases tagged cs <;> rfl

theorem tagged_code (h : IsCode digits) : tagged (codeText digits ++ cs) =
    (tagOf (String.ofList digits)).bind fun tag => (tagged cs).map (tag.toList ++ ·) := by
  have hcode : codeAt? '[' (digits ++ ['m'] ++ cs) = some (digits, cs) := codeAt?_eq_some_iff.2 ⟨h, rfl⟩
  rw [codeText, cons_append, tagged]
  split
  · next hsome =>
    cases hcode.symm.trans hsome
    cases tagOf (.ofList digits) with
    | error e => rfl
    | ok tag => cases tagged cs <;> rfl
  · next hnone => cases hcode.symm.trans hnone

/-- Entities neither make a code nor break one. -/
theorem tagged_entity (hc : ∀ digits, IsCode digits → ¬ codeText digits <+: c :: cs) :
    tagged (entity c ++ escaped cs) = (tagged (escaped cs)).map (entity c ++ ·) := by
  by_cases hs : c ∈ specials
  · exact tagged_append (entity_special c hs).2.1
  · rw [entity_of_not_special hs]
    refine tagged_cons ?_
    cases hcode : codeAt? c (escaped cs) with
    | none => exact hcode
    | some r =>
      obtain ⟨hd, heq⟩ := codeAt?_eq_some_iff.1 hcode
      obtain ⟨rfl, htail⟩ := cons.inj heq
      have hno : ∀ d ∈ r.1 ++ ['m'], d ≠ '&' := by
        rintro d hmem rfl
        simp [hd.not_mem (show isDecimalDigit '&' = false by decide)] at hmem
      exact absurd (cons_prefix_cons.2 ⟨rfl, prefix_of_escaped hno ⟨r.2, htail.symm⟩⟩) (hc r.1 hd)

theorem filter_entity (c : Char) : (entity c).filter (· != escapeMark) = (Piece.plain c).html := by
  rw [Piece.html]
  by_cases hs : c ∈ specials
  · obtain ⟨-, -, hmark, hne, -⟩ := entity_special c hs
    rw [if_neg hne]
    exact filter_eq_self.2 fun d hd => bne_iff_ne.2 fun h => hmark (h ▸ hd)
  · rw [entity_of_not_special hs]
    split <;> simp_all

/-- All codes are known and have their tags, or one is not known. -/
theorem Reads.toHtml (h : Reads cs ps) : ((∀ digits, .code digits ∈ ps → String.ofList digits ∈ knownCodes) ∧
      ∃ out, tagged (escaped cs) = .ok out ∧ out.filter (· != escapeMark) = ps.flatMap Piece.html) ∨
    (∃ digits, .code digits ∈ ps ∧ String.ofList digits ∉ knownCodes) ∧ ∃ e, tagged (escaped cs) = .error e := by
  induction h with
  | nil => exact .inl ⟨by simp, [], by simp [escaped, tagged], rfl⟩
  | @plain c cs ps hc _ ih =>
    rw [escaped, flatMap_cons, ← escaped, tagged_entity hc]
    rcases ih with ⟨hknown, out, hout, hfilter⟩ | ⟨⟨digits, hmem, hd⟩, e, he⟩
    · rw [hout]
      refine .inl ⟨by simpa using hknown, _, rfl, ?_⟩
      rw [filter_append, hfilter, filter_entity, flatMap_cons]
    · rw [he]
      exact .inr ⟨⟨digits, .tail _ hmem, hd⟩, e, rfl⟩
  | @code digits cs ps hd _ ih =>
    rw [escaped, flatMap_append, ← escaped, ← escaped, escaped_codeText hd, tagged_code hd]
    by_cases hknown : String.ofList digits ∈ knownCodes
    · have hmark : ∀ code ∈ knownCodes, escapeMark ∉ tagText code.toList := by decide
      have htag : (tagText digits).filter (· != escapeMark) = tagText digits := by
        refine filter_eq_self.2 fun d hmem => bne_iff_ne.2 ?_
        rintro rfl
        simpa using hmark _ hknown (by simpa using hmem)
      rw [tagOf_known _ hknown]
      rcases ih with ⟨hall, out, hout, hfilter⟩ | ⟨⟨digits', hmem, hd'⟩, e, he⟩
      · rw [hout]
        refine .inl ⟨?_, _, rfl, ?_⟩
        · intro digits' hmem
          rcases mem_cons.1 hmem with heq | hmem
          · cases heq
            exact hknown
          · exact hall digits' hmem
        · rw [filter_append, hfilter, flatMap_cons]
          simp [htag, Piece.html]
      · rw [he]
        exact .inr ⟨⟨digits', .tail _ hmem, hd'⟩, e, rfl⟩
    · rw [tagOf_unknown hknown]
      exact .inr ⟨⟨digits, (.head _), hknown⟩, _, rfl⟩

/-! ## Reading the text back -/

/-- The parts that are written otherwise: known codes and special characters. -/
def marked : List Piece := (knownCodes.map fun code => .code code.toList) ++ specials.map .plain

/-- A text without tags and with the characters that entities stand for, from left to right; the number is of characters
that belong to a tag or an entity. -/
def unmarked : Nat → List Char → List Char
  | _, [] => []
  | skip + 1, _ :: cs => unmarked skip cs
  | 0, c :: cs => match marked.find? fun p => p.html.isPrefixOf (c :: cs) with
    | some p => p.kept ++ unmarked (p.html.length - 1) cs
    | none => c :: unmarked 0 cs

theorem unmarked_marked {p} (hp : p ∈ marked) : unmarked 0 (p.html ++ cs) = p.kept ++ unmarked 0 cs := by
  simp only [marked, knownCodes, specials, map_cons, map_nil, mem_append, mem_cons, not_mem_nil, or_false] at hp
  rcases hp with (rfl | rfl | rfl | rfl | rfl | rfl | rfl | rfl) | rfl | rfl | rfl | rfl | rfl <;> rfl

theorem unmarked_plain (hlt : c ≠ '<') (hand : c ≠ '&') : unmarked 0 (c :: cs) = c :: unmarked 0 cs := by
  have hheads : ∀ p ∈ marked, p.html.head? = some '<' ∨ p.html.head? = some '&' := by decide
  have hnone : (marked.find? fun p => p.html.isPrefixOf (c :: cs)) = none := by
    refine find?_eq_none.2 fun p hp hpre => ?_
    have hhead := hheads p hp
    obtain ⟨rest, hrest⟩ := isPrefixOf_iff_prefix.1 hpre
    cases hhtml : p.html with
    | nil => simp [hhtml] at hhead
    | cons d w =>
      rw [hhtml] at hhead hrest
      cases hrest
      simp [hlt, hand] at hhead
  rw [unmarked, hnone]

/-- Without its tags and entities the result is what is kept of the text. -/
theorem unmarked_html (h : ∀ digits, .code digits ∈ ps → String.ofList digits ∈ knownCodes) :
    unmarked 0 (ps.flatMap Piece.html) = ps.flatMap Piece.kept := by
  induction ps with
  | nil => rfl
  | cons p ps ih =>
    rw [flatMap_cons, flatMap_cons, ← ih fun digits hmem => h digits (mem_cons_of_mem p hmem)]
    cases p with
    | code digits =>
      refine unmarked_marked (mem_append_left _ (mem_map.2 ⟨_, h digits (.head _), ?_⟩))
      rw [String.toList_ofList]
    | plain c =>
      by_cases hs : c ∈ specials
      · exact unmarked_marked (mem_append_right _ (mem_map_of_mem hs))
      · rw [Piece.html, Piece.kept, entity_of_not_special hs]
        split
        · rfl
        · refine unmarked_plain ?_ ?_ <;>
          · rintro rfl
            exact hs (by decide)

/-- Every `<` of the text begins a tag. -/
def TagsOnly (cs : List Char) : Prop :=
  ∀ before after, cs = before ++ '<' :: after → ∃ code ∈ knownCodes, tagText code.toList <+: '<' :: after

theorem not_mem_entity (c : Char) : '<' ∉ entity c := by
  by_cases hs : c ∈ specials
  · exact (entity_special c hs).2.2.2.2.1
  · rw [entity_of_not_special hs, mem_singleton]
    rintro rfl
    exact hs (by decide)

theorem tagText_known : ∀ code ∈ knownCodes, (tagText code.toList).head? = some '<' ∧ '<' ∉ (tagText code.toList).tail := by
  decide

theorem TagsOnly.append (h : TagsOnly cs) {w} (hw : '<' ∉ w) : TagsOnly (w ++ cs) := by
  induction w with
  | nil => exact h
  | cons c w ih =>
    rw [mem_cons, not_or] at hw
    rintro (_ | ⟨b, before⟩) after heq
    · exact absurd (cons.inj heq).1.symm hw.1
    · exact ih hw.2 before after (cons.inj heq).2

theorem TagsOnly.tag (h : TagsOnly cs) {code} (hcode : code ∈ knownCodes) : TagsOnly (tagText code.toList ++ cs) := by
  obtain ⟨hhead, htail⟩ := tagText_known code hcode
  obtain ⟨t, ht⟩ := head?_eq_some_iff.1 hhead
  rintro (_ | ⟨b, before⟩) after heq
  · exact ⟨code, hcode, cs, heq⟩
  · rw [ht] at heq htail
    exact h.append htail before after (cons.inj heq).2

theorem tagsOnly_html (h : ∀ digits, .code digits ∈ ps → String.ofList digits ∈ knownCodes) :
    TagsOnly (ps.flatMap Piece.html) := by
  induction ps with
  | nil => rintro (_ | ⟨b, before⟩) after heq <;> cases heq
  | cons p ps ih =>
    have hps := ih fun digits hmem => h digits (mem_cons_of_mem p hmem)
    rw [flatMap_cons]
    cases p with
    | plain c =>
      rw [Piece.html]
      split
      · exact hps
      · exact hps.append (not_mem_entity c)
    | code digits =>
      have htag := hps.tag (h digits (.head _))
      rwa [String.toList_ofList] at htag

/-- A coloured text is shown as HTML unless a code occurs in it that is not known. Then every code is replaced by its tag,
every escape character is dropped, and each special character elsewhere is replaced by its entity. Hence a `<` begins a
tag wherever it stands, and without the tags and with the entities undone the result is the text without codes and escape
characters. -/
theorem toHtml_exact (text : String) : ((∃ code, toHtml text = .error code) ↔
      ∃ digits, IsCode digits ∧ String.ofList digits ∉ knownCodes ∧ codeText digits <:+: text.toList) ∧
    (∃ ps, Reads text.toList ps) ∧
    ∀ ps, Reads text.toList ps → (∀ digits, IsCode digits → (codeText digits <:+: text.toList ↔ .code digits ∈ ps)) ∧
      ∀ result, toHtml text = .ok result → result.toList = ps.flatMap Piece.html ∧ TagsOnly result.toList ∧
        unmarked 0 result.toList = ps.flatMap Piece.kept := by
  have hrun : toHtml text = (tagged (escaped text.toList)).map
      fun chars => .ofList (chars.filter (· != escapeMark)) := by
    rw [toHtml]
    cases tagged (escaped text.toList) <;> rfl
  refine ⟨?_, exists_reads _, fun ps hps => ⟨fun digits => hps.mem_iff, fun result hresult => ?_⟩⟩
  · obtain ⟨ps, hps⟩ := exists_reads text.toList
    constructor
    · rintro ⟨code, hcode⟩
      rcases hps.toHtml with ⟨-, out, hout, -⟩ | ⟨⟨digits, hmem, hunknown⟩, -⟩
      · rw [hrun, hout] at hcode
        cases hcode
      · have hd := hps.isCode hmem
        exact ⟨digits, hd, hunknown, (hps.mem_iff hd).2 hmem⟩
    · rintro ⟨digits, hd, hunknown, hin⟩
      rcases hps.toHtml with ⟨hknown, -⟩ | ⟨-, e, he⟩
      · exact absurd (hknown digits ((hps.mem_iff hd).1 hin)) hunknown
      · exact ⟨e, by rw [hrun, he]; rfl⟩
  · rcases hps.toHtml with ⟨hknown, out, hout, hfilter⟩ | ⟨-, e, he⟩
    · rw [hrun, hout] at hresult
      cases hresult
      rw [String.toList_ofList, hfilter]
      exact ⟨rfl, tagsOnly_html hknown, unmarked_html hknown⟩
    · rw [hrun, he] at hresult
      cases hresult

end SmallScript.Markup
