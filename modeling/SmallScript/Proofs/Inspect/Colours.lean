import SmallScript.Markup.Html
import SmallScript.Proofs.Inspect.Trees
import SmallScript.Proofs.Library.Sorting

/-!
# Layouts with and without colours

`Sheds t t'` says that deleting the colour codes of `t` gives `t'`, whatever follows. It passes from parts to the whole,
so each part of the layout of a token list or a tree with colours sheds to the same part without: `pretty_uncoloured`.
-/

namespace SmallScript.Inspect

open Number Syntax Text List
open Library (OutcomeLink)
open Markup (codeAfter?)

variable {c : Char} {cs : List Char} {t t' u u' : String} {d : Datum} {ds : List Datum} {fs : List (String × Datum)}
  {l : Layout} {k : Nat}

/-- The length of a colour code behind its escape character: a bracket, digits and an `m`. -/
def codeLength? : List Char → Option Nat
  | '[' :: cs => (codeAfter? cs).map fun p => p.1.length + 2
  | _ => none

/-- A text with all colour codes deleted; the number is that of characters left to skip. -/
def withoutCodes : Nat → List Char → List Char
  | _, [] => []
  | skipped + 1, _ :: cs => withoutCodes skipped cs
  | 0, c :: cs =>
    match if c = '\x1b' then codeLength? cs else none with
    | some length => withoutCodes length cs
    | none => c :: withoutCodes 0 cs

def uncoloured (t : String) : String := String.ofList (withoutCodes 0 t.toList)

def Sheds (t t' : String) : Prop := ∀ r, withoutCodes 0 (t.toList ++ r) = t'.toList ++ withoutCodes 0 r

namespace Sheds

theorem of_not_mem (h : '\x1b' ∉ t.toList) : Sheds t t := by
  intro r
  generalize t.toList = cs at h
  induction cs with
  | nil => rfl
  | cons c cs ih =>
    rw [mem_cons, not_or] at h
    rw [cons_append, withoutCodes, if_neg (Ne.symm h.1)]
    exact congrArg (c :: ·) (ih h.2)

theorem append (h : Sheds t t') (h' : Sheds u u') : Sheds (t ++ u) (t' ++ u') := by
  intro r
  rw [String.toList_append, String.toList_append, append_assoc, h, h', append_assoc]

theorem code (colour : Colour) : Sheds colour.code "" := by
  intro r
  cases colour <;> rfl

theorem eq (h : Sheds t t') : uncoloured t = t' := by
  have hall := h []
  rw [append_nil, withoutCodes, append_nil] at hall
  rw [uncoloured, hall, String.ofList_toList]

end Sheds

/-! ## Parts of a layout -/

def Layout.bright (l : Layout) : Layout := { l with coloured := true }

def Layout.dull (l : Layout) : Layout := { l with coloured := false }

theorem sheds_code (l : Layout) (colour : Colour) : Sheds (l.bright.code colour) (l.dull.code colour) := .code colour

theorem sheds_paint (l : Layout) (colour : Colour) (h : '\x1b' ∉ t.toList) :
    Sheds (l.bright.paint colour t) (l.dull.paint colour t) :=
  ((sheds_code l colour).append (.of_not_mem h)).append (sheds_code l .plain)

theorem not_mem_blanks (l : Layout) (k : Nat) : '\x1b' ∉ (l.blanks k).toList := by
  rw [Layout.blanks, toList_pushn]
  exact fun h => absurd (eq_of_mem_replicate h) (by decide)

theorem not_mem_lineBreak (l : Layout) (k : Nat) : '\x1b' ∉ (l.lineBreak k).toList := by
  unfold Layout.lineBreak
  split <;> simp [not_mem_blanks]

theorem not_mem_comma (l : Layout) : '\x1b' ∉ l.comma.toList := by
  unfold Layout.comma
  split <;> decide

theorem not_mem_itemLead (first : Bool) : '\x1b' ∉ (itemLead l k first d).toList := by
  unfold itemLead
  split <;> split <;> simp [not_mem_lineBreak, not_mem_comma]

theorem not_mem_opening {bracket} (h : '\x1b' ∉ bracket.toList) : '\x1b' ∉ (opening l k bracket).toList := by
  unfold opening
  split <;> simp [h, not_mem_blanks]

theorem sheds_join {ps : List (String × String)} (h : ∀ p ∈ ps, Sheds p.1 p.2) :
    Sheds (joinFields l.bright (ps.map (·.1))) (joinFields l.dull (ps.map (·.2))) := by
  induction ps with
  | nil => exact .of_not_mem (t := "") (by decide)
  | cons p ps ih =>
    rw [forall_mem_cons] at h
    cases ps with
    | nil => exact h.1
    | cons q ps => exact (h.1.append (.of_not_mem (not_mem_comma _))).append (ih h.2)

/-! ## Data -/

/-- The datum has the same layout with and without colours, codes apart, or the same fault. -/
def Worn (d : Datum) : Prop :=
  ∀ (l : Layout) (k : Nat) (h : Holder), OutcomeLink Sheds (prettyAt l.bright k h d) (prettyAt l.dull k h d)

theorem worn_atom (hd : ∀ l k h, prettyAt l k h d = prettyAtom l d)
    (ht : ∀ t, d.plainText = .ok t → '\x1b' ∉ t.toList) : Worn d := by
  intro l k h
  rw [hd, hd, prettyAtom, prettyAtom]
  cases htext : d.plainText with
  | error f => exact .error _
  | ok t => exact .ok (sheds_paint l _ (ht t htext))

theorem worn_string (h : '\x1b' ∉ t.toList) : Worn (.string t) := by
  intro l k _
  exact .ok (sheds_paint l _ (by simp [h]))

theorem worn_items (h : ∀ d ∈ ds, Worn d) (l : Layout) (kind : String) (first : Bool) :
    OutcomeLink Sheds (prettyItems l.bright k kind first ds) (prettyItems l.dull k kind first ds) := by
  induction ds generalizing first with
  | nil =>
    exact .ok (.of_not_mem (by decide))
  | cons d ds ih =>
    rw [forall_mem_cons] at h
    rw [prettyItems]
    refine (h.1 l k _).bind fun inner inner' hinner => ?_
    refine (ih h.2 false).bind fun others others' hothers => ?_
    exact .ok (((Sheds.of_not_mem (not_mem_itemLead first)).append hinner).append hothers)

theorem worn_collection {kind left right} (hleft : '\x1b' ∉ left.toList) (hright : '\x1b' ∉ right.toList)
    (hd : ∀ l k h, prettyAt l k h d = do return wrapItems l k left right (← prettyItems l (k + 1) kind true ds))
    (h : ∀ d ∈ ds, Worn d) : Worn d := by
  intro l k _
  rw [hd, hd]
  refine (worn_items h l _ _).bind fun items items' hitems => .ok ?_
  exact (((Sheds.of_not_mem (not_mem_opening hleft)).append hitems).append (.of_not_mem (not_mem_lineBreak _ k))).append
    (.of_not_mem hright)

theorem worn_list (h : ∀ d ∈ ds, Worn d) : Worn (.list ds) :=
  worn_collection (show '\x1b' ∉ "[".toList by decide) (show '\x1b' ∉ "]".toList by decide) (fun _ _ _ => by rw [prettyAt]) h

/-- Fields under the same names; their layouts differ in colours only. -/
theorem worn_fields (hnames : ∀ f ∈ fs, '\x1b' ∉ f.1.toList) (h : ∀ f ∈ fs, Worn f.2) (l : Layout) : OutcomeLink
      (fun us us' => ∃ ps : List (String × String × String), (∀ p ∈ ps, Sheds p.2.1 p.2.2) ∧
        us = ps.map (fun p => (p.1, p.2.1)) ∧ us' = ps.map fun p => (p.1, p.2.2))
      (prettyFields l.bright k fs) (prettyFields l.dull k fs) := by
  induction fs with
  | nil =>
    exact .ok ⟨[], forall_mem_nil _, rfl, rfl⟩
  | cons f fs ih =>
    rw [forall_mem_cons] at hnames h
    rw [prettyFields]
    refine (h.1 l k _).bind fun inner inner' hinner => ?_
    refine (ih hnames.2 h.2).bind fun us us' hfields => ?_
    obtain ⟨ps, hps, hus, hus'⟩ := hfields
    have hname : Sheds (fieldName l.bright k f.1) (fieldName l.dull k f.1) :=
      ((Sheds.of_not_mem (not_mem_lineBreak _ k)).append (sheds_paint l .blue hnames.1)).append (.of_not_mem (by decide))
    have haround := ((sheds_code l f.2.colour).append hinner).append (sheds_code l .plain)
    refine .ok ⟨(f.1, _, _) :: ps, forall_mem_cons.2 ⟨hname.append haround, hps⟩, ?_, ?_⟩
    · rw [hus]; rfl
    · rw [hus']; rfl

theorem worn_record {kind} (hnames : ∀ s ∈ kind :: fs.map Prod.fst, '\x1b' ∉ s.toList)
    (h : ∀ f ∈ fs, Worn f.2) : Worn (.record kind fs) := by
  intro l k _
  rw [forall_mem_cons, forall_mem_map] at hnames
  refine (worn_fields hnames.2 h l).bind fun us us' hfields => .ok ?_
  obtain ⟨ps, hps, hus, hus'⟩ := hfields
  have hjoin : Sheds (joinFields l.bright ((sortFields us).map (·.2))) (joinFields l.dull ((sortFields us').map (·.2))) := by
    have hsorted : ∀ p ∈ (sortFields ps).map (·.2), Sheds p.1 p.2 :=
      forall_mem_map.2 fun p hp => hps p ((mergeSort_perm ..).mem_iff.1 hp)
    have hjoined := sheds_join (l := l) hsorted
    rw [hus, hus', sortFields_map fun _ (p : String × String) => p.1, sortFields_map fun _ (p : String × String) => p.2]
    simpa only [map_map, Function.comp_def] using hjoined
  exact ((((sheds_paint l .magenta hnames.1).append (.of_not_mem (by decide))).append hjoin).append
    (.of_not_mem (not_mem_lineBreak _ k))).append (.of_not_mem (by decide))

theorem worn_of_clear (h : Clear '\x1b' d) : Worn d := by
  induction h with
  | none => exact worn_atom (fun _ _ _ => rfl) fun t ht => by cases ht; decide
  | bool b => exact worn_atom (fun _ _ _ => rfl) fun t ht => by cases b <;> cases ht <;> decide
  | number hx =>
    refine worn_atom (fun _ _ _ => rfl) fun t ht hmem => ?_
    exact absurd ((isNumeral_text hx ht).2 _ hmem) (by unfold IsNumeral; decide)
  | string h => exact worn_string h
  | list _ ih => exact worn_list ih
  | tuple _ ih =>
    exact worn_collection (show '\x1b' ∉ "(".toList by decide) (show '\x1b' ∉ ")".toList by decide)
      (fun _ _ _ => by rw [prettyAt]) ih
  | record _ _ _ hnames _ ih => exact worn_record hnames ih

theorem worn_token {t} (h : '\x1b' ∉ t.value.toList) : Worn (tokenDatum t) := by
  have hkind : Worn (.tokenKind t.kind) := by
    refine worn_atom (fun _ _ _ => rfl) fun text ht => ?_
    cases ht
    cases t.kind <;> decide
  have hnames : ∀ s ∈ ["Token", "value", "type", "position"], '\x1b' ∉ s.toList := by decide
  exact worn_record hnames (by simp [worn_string h, hkind, worn_of_clear (clear_pos t.pos)])

/-- Of the tokens of a source, only strings can have an escape character inside. -/
theorem not_mem_token {source ts} (h : tokenize source = .ok ts)
    (hs : ∀ t ∈ ts, t.kind = .string → '\x1b' ∉ t.value.toList) : ∀ t ∈ ts, '\x1b' ∉ t.value.toList := by
  obtain ⟨ls, hsplit, rfl⟩ := exists_lexemes h
  intro t ht
  rcases mem_append.1 ht with hmem | hmem
  · have hfixed : ∀ o ∈ operators ++ keywords, '\x1b' ∉ o.1.toList := by decide
    cases lexed_of_mem hsplit hmem with
    | operator h => exact hfixed _ (mem_append_left _ h)
    | keyword h => exact hfixed _ (mem_append_right _ h)
    | minus h => rw [(Prod.mk.inj h).1]; decide
    | name h hname => rw [(Prod.mk.inj h).1]; exact not_mem_of_isName (by decide) hname
    | string h => exact hs t ht (Prod.mk.inj h).2
    | @number neg d run hd hrun h =>
      have hdigit : isDigit '\x1b' = false := by decide
      rw [(Prod.mk.inj h).1, String.toList_ofList, mem_append, mem_cons]
      rintro (hminus | rfl | hmem)
      · cases neg <;> simp [minusSign] at hminus
      · rw [hd] at hdigit; cases hdigit
      · rcases hrun.1 _ hmem with h | h
        · rw [h] at hdigit; cases hdigit
        · cases h
  · rw [mem_singleton.1 hmem]
    exact (by decide : '\x1b' ∉ "EOF".toList)

theorem map_uncoloured {r r' : Except PrettyFault String} (h : OutcomeLink Sheds r r') : r.map uncoloured = r' := by
  cases h with
  | ok h => exact congrArg Except.ok h.eq
  | error f => rfl

/-- Deleting the colour codes from the coloured layout of the tokens or the tree of a source gives the layout without
colours, if there is no escape character in the strings of the source. -/
theorem pretty_uncoloured (source : String) (newlines : Bool) (indent : Int) :
    (∀ tokens, tokenize source = .ok tokens → (∀ t ∈ tokens, t.kind = .string → '\x1b' ∉ t.value.toList) →
      (pretty ⟨true, newlines, indent⟩ (tokensDatum tokens)).map uncoloured =
        pretty ⟨false, newlines, indent⟩ (tokensDatum tokens)) ∧
    ∀ tree, parse source = .ok tree → (∀ s ∈ tree.texts, '\x1b' ∉ s.toList) →
      (pretty ⟨true, newlines, indent⟩ (nodeDatum tree)).map uncoloured =
        pretty ⟨false, newlines, indent⟩ (nodeDatum tree) := by
  refine ⟨fun tokens h hs => ?_, fun tree h hs => ?_⟩
  · have hnames : ∀ s ∈ ["TokenList", "tokens"], '\x1b' ∉ s.toList := by decide
    have htokens : Worn (.list (tokens.map tokenDatum)) :=
      worn_list (forall_mem_map.2 fun t ht => worn_token (not_mem_token h hs t ht))
    exact map_uncoloured (worn_record hnames (by simp [htokens]) ⟨true, newlines, indent⟩ 0 .field)
  · have hworn := worn_of_clear (clear_node (by decide) (genuine_of_parse h) hs)
    obtain ⟨body, rfl⟩ := program_of_parse h
    exact map_uncoloured (hworn ⟨true, newlines, indent⟩ 0 .field)

theorem pretty_uncoloured_name : ∃ tokens tree, tokenize "b" = .ok tokens ∧ parse "b" = .ok tree ∧
    (pretty .standard (tokensDatum tokens)).map uncoloured = pretty .plain (tokensDatum tokens) ∧
    (pretty .standard (nodeDatum tree)).map uncoloured = pretty .plain (nodeDatum tree) := by
  have htokens : tokenize "b" = .ok [⟨"b", .identifier, ⟨1, 1, 1⟩⟩, ⟨"EOF", .eof, ⟨1, 1, 1⟩⟩] := by decide +kernel
  have hparse : parse "b" = .ok (.program .zero [.identifier ⟨1, 1, 1⟩ "b"]) := by
    rw [parse, htokens]
    rfl
  exact ⟨_, _, htokens, hparse, (pretty_uncoloured "b" true 2).1 _ htokens (by decide),
    (pretty_uncoloured "b" true 2).2 _ hparse (by simp)⟩

end SmallScript.Inspect
