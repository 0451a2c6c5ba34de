import Mathlib.Data.List.Basic
import SmallScript.Inspect.Pretty
import SmallScript.Proofs.Number.Texts

/-!
# Reading a layout

Without colours a layout is read from the left: a word, and a mark that tells what kind of datum it is. Strings are laid
out as they are, so they may not have a double quote inside; then the end of each part is told by what follows it. So two
data with one layout are the same up to the order of fields, which a layout sorts: `shown_inj`.
-/

namespace SmallScript.Inspect

open Number Text List String

/-- The layout without colours. -/
def Layout.plain : Layout := ⟨false, true, 2⟩

/-- A datum has a layout. -/
def Shows (k : Nat) (d : Datum) : Prop := ∃ t, prettyAt .plain k .field d = .ok t

/-- The layout of a datum, if it has one. -/
def shown (k : Nat) (d : Datum) : List Char :=
  match prettyAt .plain k .field d with
  | .ok t => t.toList
  | .error _ => []

/-! ## Data that can be read -/

/-- Where a word ends. -/
def stops : List Char := ['(', '[', '"', ',', '\n']

/-- A text that goes on up to a stop. -/
def IsWord (cs : List Char) : Prop := ∀ c ∈ cs, c ∉ stops

/-- Data of which nothing looks like the layout around it, and without a mark in their texts. -/
inductive Clear (c : Char) : Datum → Prop where
  | none : Clear c .none
  | bool (b : Bool) : Clear c (.bool b)
  | number {x : Numeric} (hx : x.Plain) : Clear c (.number x)
  | string {s : String} (hs : c ∉ s.toList) : Clear c (.string s)
  | list {items : List Datum} (h : ∀ d ∈ items, Clear c d) : Clear c (.list items)
  | tuple {items : List Datum} (h : ∀ d ∈ items, Clear c d) : Clear c (.tuple items)
  | record {kind : String} {fields : List (String × Datum)} (hne : kind ≠ "") (hkind : IsWord kind.toList)
    (hnames : ∀ f ∈ fields, ':' ∉ f.1.toList) (hc : ∀ s ∈ kind :: fields.map Prod.fst, c ∉ s.toList)
    (h : ∀ f ∈ fields, Clear c f.2) : Clear c (.record kind fields)

/-- Data that can be read: a quote ends a string. -/
abbrev Legible : Datum → Prop := Clear '"'

mutual

/-- The datum with the fields of its records in order. -/
def Datum.sorted : Datum → Datum
  | .list items => .list (sortedAll items)
  | .tuple items => .tuple (sortedAll items)
  | .record kind fields => .record kind (sortFields (sortedFields fields))
  | d => d

/-- Data with the fields of their records in order. -/
def sortedAll : List Datum → List Datum
  | [] => []
  | d :: ds => d.sorted :: sortedAll ds

/-- Fields with those of their records in order. -/
def sortedFields : List (String × Datum) → List (String × Datum)
  | [] => []
  | (name, d) :: fs => (name, d.sorted) :: sortedFields fs

end

mutual

def Datum.numbers : Datum → List Numeric
  | .number x => [x]
  | .list items | .tuple items => numbersOf items
  | .record _ fields => fieldNumbers fields
  | _ => []

def numbersOf : List Datum → List Numeric
  | [] => []
  | d :: ds => d.numbers ++ numbersOf ds

def fieldNumbers : List (String × Datum) → List Numeric
  | [] => []
  | (_, d) :: fs => d.numbers ++ fieldNumbers fs

end

section

variable {k : Nat} {d e : Datum} {ds : List Datum} {fs : List (String × Datum)} {x : Numeric}

theorem sortedAll_eq : sortedAll ds = ds.map Datum.sorted := by
  induction ds with
  | nil => rfl
  | cons d ds ih => simp [sortedAll, ih]

theorem sortedFields_eq : sortedFields fs = fs.map fun f => (f.1, f.2.sorted) := by
  induction fs with
  | nil => rfl
  | cons f fs ih => simp [sortedFields, ih]

theorem mem_numbersOf (hd : d ∈ ds) (hx : x ∈ d.numbers) : x ∈ numbersOf ds := by
  induction ds with
  | nil => cases hd
  | cons d' ds ih =>
    rw [numbersOf, mem_append]
    rcases mem_cons.1 hd with rfl | hd
    · exact .inl hx
    · exact .inr (ih hd)

theorem mem_fieldNumbers {f} (hf : f ∈ fs) (hx : x ∈ f.2.numbers) : x ∈ fieldNumbers fs := by
  induction fs with
  | nil => cases hf
  | cons f' fs ih =>
    rw [fieldNumbers, mem_append]
    rcases mem_cons.1 hf with rfl | hf
    · exact .inl hx
    · exact .inr (ih hf)

/-- Sorting goes by the names. -/
theorem sortFields_map {α β : Type} (g : String → α → β) (fs : List (String × α)) :
    sortFields (fs.map fun f => (f.1, g f.1 f.2)) = (sortFields fs).map fun f => (f.1, g f.1 f.2) := by
  unfold sortFields
  rw [map_mergeSort]
  intros
  rfl

/-! ## Lines -/

/-- Blanks up to a depth. -/
def blanks (k : Nat) : List Char := List.replicate (2 * k) ' '

/-- A line break and blanks up to a depth. -/
def newLine (k : Nat) : List Char := '\n' :: blanks k

theorem toList_pushn (c : Char) (n : Nat) : ("".pushn c n).toList = List.replicate n c := by
  induction n with
  | zero => rfl
  | succ n ih =>
    rw [replicate_succ', ← ih]
    exact toList_push ..

@[simp]
theorem toList_blanks (k : Nat) : (Layout.plain.blanks k).toList = blanks k := by
  rw [Layout.blanks, toList_pushn]
  rfl

@[simp]
theorem toList_lineBreak (k : Nat) : (Layout.plain.lineBreak k).toList = newLine k := by
  simp [Layout.lineBreak, Layout.plain, newLine, ← toList_blanks]

@[simp]
theorem paint_plain (c : Colour) (t : String) : Layout.plain.paint c t = t := by
  simp [Layout.paint, Layout.code, Layout.plain]

@[simp]
theorem around_plain (d : Datum) (t : String) : around .plain d t = t := by
  simp [around, Layout.code, Layout.plain]

theorem newLine_succ (k : Nat) : newLine (k + 1) = newLine k ++ [' ', ' '] := by
  have htwo : [' ', ' '] = .replicate 2 ' ' := rfl
  rw [newLine, newLine, blanks, blanks, htwo, cons_append, replicate_append_replicate, Nat.mul_succ]

/-! ## Texts that end at a mark -/

/-- A text in front of the first of some marks is told by the whole. -/
theorem split_at {p : Char → Prop} {w w' a a' c c'} (hw : ∀ x ∈ w, ¬ p x) (hw' : ∀ x ∈ w', ¬ p x)
    (hc : p c) (hc' : p c') (h : w ++ c :: a = w' ++ c' :: a') : w = w' ∧ c :: a = c' :: a' := by
  induction w generalizing w' with
  | nil =>
    cases w' with
    | nil => exact ⟨rfl, h⟩
    | cons x w' =>
      obtain ⟨rfl, -⟩ := cons.inj h
      exact absurd hc (hw' c (.head _))
  | cons x w ih =>
    cases w' with
    | nil =>
      obtain ⟨rfl, -⟩ := cons.inj h
      exact absurd hc' (hw x (.head _))
    | cons y w' =>
      obtain ⟨rfl, hmore⟩ := cons.inj h
      obtain ⟨rfl, hrest⟩ := ih (fun z hz => hw z (.tail _ hz)) (fun z hz => hw' z (.tail _ hz)) hmore
      exact ⟨rfl, hrest⟩

/-- What may follow a datum. -/
def Cut (r : List Char) : Prop := ∃ c a, r = c :: a ∧ (c = ',' ∨ c = '\n')

/-! ## Entries -/

/-- Entries one to a line, each with a comma behind the one before and maybe an empty line. -/
def chain {α : Type} (k : Nat) (gap body : α → List Char) : Bool → List α → List Char
  | _, [] => []
  | first, x :: xs => (if first then [] else ',' :: gap x) ++ (newLine k ++ (body x ++ chain k gap body false xs))

variable {α β : Type} {gap body : α → List Char} {key : α → β} {close : Char} {xs ys : List α} {first : Bool}
  {r r' : List Char}

theorem cut_chain : Cut (chain (k + 1) gap body false xs ++ (newLine k ++ close :: r)) := by
  cases xs with
  | nil => exact ⟨'\n', _, rfl, .inr rfl⟩
  | cons x xs => exact ⟨',', _, rfl, .inl rfl⟩

/-- Entries go deeper than the closing bracket. -/
theorem close_ne_chain (hclose : close ≠ ' ') (y : α) (r' : List Char) :
    newLine k ++ close :: r ≠ chain (k + 1) gap body first (y :: ys) ++ r' := by
  intro h
  cases first with
  | false => cases h
  | true =>
    rw [chain, if_pos rfl, nil_append, newLine_succ] at h
    simp only [List.append_assoc, append_cancel_left_eq, cons_append, cons.injEq] at h
    exact hclose h.1

/-- Entries are told by the layout, if each is told by its own and by what is in front of it. -/
theorem chain_inj (hclose : close ≠ ' ')
    (hgap : ∀ x ∈ xs, ∀ y ∈ ys, ∀ a b, gap x ++ (newLine (k + 1) ++ (body x ++ a)) =
      gap y ++ (newLine (k + 1) ++ (body y ++ b)) → body x ++ a = body y ++ b)
    (hbody : ∀ x ∈ xs, ∀ y ∈ ys, ∀ a b, Cut a → Cut b → body x ++ a = body y ++ b → key x = key y ∧ a = b)
    (h : chain (k + 1) gap body first xs ++ (newLine k ++ close :: r) =
      chain (k + 1) gap body first ys ++ (newLine k ++ close :: r')) : xs.map key = ys.map key ∧ r = r' := by
  induction xs generalizing ys first with
  | nil =>
    cases ys with
    | nil => simpa [chain] using h
    | cons y ys => exact absurd h (close_ne_chain hclose y _)
  | cons x xs ih =>
    cases ys with
    | nil => exact absurd h.symm (close_ne_chain hclose x _)
    | cons y ys =>
      have hx : x ∈ x :: xs := (.head _)
      have hy : y ∈ y :: ys := (.head _)
      have hentry : body x ++ (chain (k + 1) gap body false xs ++ (newLine k ++ close :: r)) =
          body y ++ (chain (k + 1) gap body false ys ++ (newLine k ++ close :: r')) := by
        simp only [chain, List.append_assoc] at h
        cases first with
        | true => exact append_cancel_left h
        | false => exact hgap x hx y hy _ _ (cons.inj h).2
      obtain ⟨hkey, hrest⟩ := hbody x hx y hy _ _ cut_chain cut_chain hentry
      obtain ⟨hkeys, hr⟩ := ih (fun x hx y hy => hgap x (.tail _ hx) y (.tail _ hy))
        (fun x hx y hy => hbody x (.tail _ hx) y (.tail _ hy)) hrest
      exact ⟨by rw [map_cons, map_cons, hkey, hkeys], hr⟩

/-! ## Layouts as words and marks -/

/-- The word that a layout begins with. -/
def word : Datum → List Char
  | .none => "None".toList
  | .bool b => (boolText b).toList
  | .number x => match x.text with
    | .ok t => t.toList
    | .error _ => []
  | .record kind _ => kind.toList
  | _ => []

/-- An empty line is in front of a record. -/
def gapOf (k : Nat) : Datum → List Char
  | .record .. => newLine k
  | _ => []

/-- A field with its name. -/
def fieldShown (k : Nat) (f : String × Datum) : List Char := f.1.toList ++ ':' :: ' ' :: shown k f.2

/-- A layout behind its word, up to what follows it. -/
def tail (k : Nat) (r : List Char) : Datum → List Char
  | .string s => '"' :: (s.toList ++ '"' :: r)
  | .list items => '[' :: (blanks (k + 1) ++ (chain (k + 1) (gapOf (k + 1)) (shown (k + 1)) true items ++
      (newLine k ++ ']' :: r)))
  | .tuple items => '(' :: (blanks (k + 1) ++ (chain (k + 1) (gapOf (k + 1)) (shown (k + 1)) true items ++
      (newLine k ++ ')' :: r)))
  | .record _ fields => '(' :: (chain (k + 1) (fun _ => []) (fieldShown (k + 1)) true (sortFields fields) ++
      (newLine k ++ ')' :: r))
  | _ => r

theorem shown_of_ok {t} (h : prettyAt .plain k .field d = .ok t) : shown k d = t.toList := by
  rw [shown, h]

theorem prettyAt_item (hd : Legible d) (kind : String) : prettyAt .plain k (.item kind) d = prettyAt .plain k .field d := by
  cases hd <;> simp only [prettyAt]

theorem toList_itemLead :
    (itemLead .plain k first d).toList = (if first then [] else ',' :: gapOf k d) ++ newLine k := by
  have hcomma : Layout.plain.comma = "," := rfl
  cases d <;> cases first <;> simp [itemLead, gapOf, hcomma]

/-- The items of a collection are laid out in a chain. -/
theorem prettyItems_eq {kind u} (hd : ∀ d ∈ ds, Legible d) (h : prettyItems .plain k kind first ds = .ok u) :
    u.toList = chain k (gapOf k) (shown k) first ds ∧ ∀ d ∈ ds, Shows k d := by
  induction ds generalizing first u with
  | nil =>
    cases h
    exact ⟨rfl, forall_mem_nil _⟩
  | cons d ds ih =>
    rw [forall_mem_cons] at hd
    rw [prettyItems, prettyAt_item hd.1] at h
    obtain ⟨inner, hinner, h⟩ := exists_of_bind_ok h
    obtain ⟨others, hothers, h⟩ := exists_of_bind_ok h
    cases h
    obtain ⟨hchain, hshows⟩ := ih hd.2 hothers
    refine ⟨?_, forall_mem_cons.2 ⟨⟨inner, hinner⟩, hshows⟩⟩
    rw [chain, ← hchain, shown_of_ok hinner, toList_append, toList_append, toList_itemLead]
    simp only [List.append_assoc]

theorem prettyFields_eq {us} (h : prettyFields .plain k fs = .ok us) :
    us = fs.map (fun f => (f.1, fieldName .plain k f.1 ++ String.ofList (shown k f.2))) ∧ ∀ f ∈ fs, Shows k f.2 := by
  induction fs generalizing us with
  | nil =>
    cases h
    exact ⟨rfl, forall_mem_nil _⟩
  | cons f fs ih =>
    obtain ⟨inner, hinner, h⟩ := exists_of_bind_ok h
    obtain ⟨others, hothers, h⟩ := exists_of_bind_ok h
    cases h
    obtain ⟨rfl, hshows⟩ := ih hothers
    refine ⟨?_, forall_mem_cons.2 ⟨⟨inner, hinner⟩, hshows⟩⟩
    rw [map_cons, shown_of_ok hinner, around_plain, ofList_toList]

theorem joinFields_eq (fs : List (String × Datum)) :
    (joinFields .plain (fs.map fun f => fieldName .plain k f.1 ++ String.ofList (shown k f.2))).toList =
      chain k (fun _ => []) (fieldShown k) true fs := by
  have hcomma : Layout.plain.comma = "," := rfl
  cases fs with
  | nil => rfl
  | cons f fs =>
    induction fs generalizing f with
    | nil => simp [joinFields, chain, fieldName, fieldShown]
    | cons g fs ih =>
      have hrest := ih g
      rw [map_cons, joinFields, toList_append, hrest]
      · simp [chain, fieldName, fieldShown, hcomma]
      · simp

/-- The parts of a datum have layouts. -/
def PartsShow (k : Nat) : Datum → Prop
  | .list items | .tuple items => ∀ d ∈ items, Shows (k + 1) d
  | .record _ fields => ∀ f ∈ fields, Shows (k + 1) f.2
  | _ => True

theorem wrapItems_eq {kind left right u} (hd : ∀ d ∈ ds, Legible d)
    (h : (do return wrapItems .plain k left right (← prettyItems .plain (k + 1) kind true ds)) = Except.ok u) :
    u.toList = left.toList ++ (blanks (k + 1) ++ (chain (k + 1) (gapOf (k + 1)) (shown (k + 1)) true ds ++
      (newLine k ++ right.toList))) ∧ ∀ d ∈ ds, Shows (k + 1) d := by
  obtain ⟨items, hitems, h⟩ := exists_of_bind_ok h
  cases h
  obtain ⟨hchain, hshows⟩ := prettyItems_eq hd hitems
  have hopening : opening .plain k left = left ++ Layout.plain.blanks (k + 1) := rfl
  exact ⟨by simp [wrapItems, hopening, hchain], hshows⟩

theorem text_of_pretty {t} (h : prettyAt .plain k .field (.number x) = .ok t) : x.text = .ok t := by
  replace h : prettyAtom .plain (.number x) = .ok t := h
  have hplain : (Datum.number x).plainText = x.text := rfl
  rw [prettyAtom, hplain] at h
  split at h
  · next hx =>
    cases h
    rw [hx, paint_plain]
  · cases h

/-- A layout is its word and what follows. -/
theorem shown_append (hd : Legible d) (hs : Shows k d) (r : List Char) :
    shown k d ++ r = word d ++ tail k r d ∧ PartsShow k d := by
  obtain ⟨t, ht⟩ := hs
  rw [shown_of_ok ht]
  cases hd with
  | none | bool | string =>
    cases ht
    simp [word, tail, prettyString, PartsShow]
  | number => simp [word, tail, PartsShow, text_of_pretty ht]
  | list h | tuple h =>
    obtain ⟨htext, hshows⟩ := wrapItems_eq h ht
    exact ⟨by simp [htext, word, tail], hshows⟩
  | @record kind fields hne hkind hnames hquote h =>
    rw [prettyAt] at ht
    obtain ⟨us, hfields, ht⟩ := exists_of_bind_ok ht
    cases ht
    obtain ⟨rfl, hshows⟩ := prettyFields_eq hfields
    have hjoin := joinFields_eq (k := k + 1) (sortFields fields)
    refine ⟨?_, hshows⟩
    rw [wrapRecord, sortFields_map fun name d => fieldName .plain (k + 1) name ++ ofList (shown (k + 1) d),
      List.map_map]
    simp only [Function.comp_def, toList_append, hjoin]
    simp [word, tail]

/-! ## Reading -/

/-- The mark behind the word, other than what follows the datum. -/
def mark : Datum → Option Char
  | .string _ => some '"'
  | .list _ => some '['
  | .tuple _ | .record .. => some '('
  | _ => none

theorem tail_mark (hd : Legible d) (hr : Cut r) :
    ∃ c a, tail k r d = c :: a ∧ (mark d = some c ∧ c ∈ ['(', '[', '"'] ∨ mark d = none ∧ (c = ',' ∨ c = '\n')) := by
  obtain ⟨c, a, rfl, hc⟩ := hr
  cases hd with
  | none | bool | number => exact ⟨c, a, rfl, .inr ⟨rfl, hc⟩⟩
  | _ => exact ⟨_, _, rfl, .inl ⟨rfl, by simp⟩⟩

theorem mark_eq (hd : Legible d) (he : Legible e) (hr : Cut r) (hr' : Cut r') (h : tail k r d = tail k r' e) :
    mark d = mark e := by
  obtain ⟨c, a, htail, hc⟩ := tail_mark hd hr
  obtain ⟨c', a', htail', hc'⟩ := tail_mark (k := k) he hr'
  rw [htail, htail'] at h
  obtain ⟨rfl, -⟩ := cons.inj h
  rcases hc with ⟨hmark, hc⟩ | ⟨hmark, hc⟩ <;> rcases hc' with ⟨hmark', hc'⟩ | ⟨hmark', hc'⟩
  · rw [hmark, hmark']
  · rcases hc' with rfl | rfl <;> simp at hc
  · rcases hc with rfl | rfl <;> simp at hc'
  · rw [hmark, hmark']

theorem not_mem_stops {c} (h : IsNumeral c) : c ∉ stops := by
  intro hc
  simp only [stops, mem_cons, not_mem_nil, or_false] at hc
  rcases hc with rfl | rfl | rfl | rfl | rfl <;> revert h <;> unfold IsNumeral <;> decide

/-- What follows the word is a stop. -/
theorem exists_stop (hd : Legible d) (hr : Cut r) : ∃ c a, tail k r d = c :: a ∧ c ∈ stops := by
  obtain ⟨c, a, htail, ⟨-, hc⟩ | ⟨-, rfl | rfl⟩⟩ := tail_mark hd hr
  · exact ⟨c, a, htail, mem_of_mem_take (i := 3) hc⟩
  · exact ⟨_, a, htail, by decide⟩
  · exact ⟨_, a, htail, by decide⟩

theorem isWord_word (hd : Legible d) : IsWord (word d) := by
  cases hd with
  | none => exact all_iff_forall_prop.1 (show "None".toList.all (fun c => c ∉ stops) = true by decide)
  | bool b =>
    have hall : ∀ b, (boolText b).toList.all (fun c => c ∉ stops) = true := by decide
    exact all_iff_forall_prop.1 (hall b)
  | @number x hx =>
    rw [word]
    split
    · next t ht =>
      intro c hc
      exact not_mem_stops ((isNumeral_text hx ht).2 c hc)
    · exact forall_mem_nil _
  | record hne hkind => exact hkind
  | _ => exact forall_mem_nil _

/-- The word and the rest are told apart. -/
theorem split_shown (hd : Legible d) (he : Legible e) (hs : Shows k d) (hs' : Shows k e) (hr : Cut r) (hr' : Cut r')
    (h : shown k d ++ r = shown k e ++ r') : word d = word e ∧ tail k r d = tail k r' e := by
  rw [(shown_append hd hs r).1, (shown_append he hs' r').1] at h
  obtain ⟨c, a, htail, hc⟩ := exists_stop hd hr
  obtain ⟨c', a', htail', hc'⟩ := exists_stop (k := k) he hr'
  rw [htail, htail'] at h ⊢
  exact split_at (isWord_word hd) (isWord_word he) hc hc' h

/-- A layout begins on its line. -/
theorem shown_ne_newLine (hd : Legible d) (hs : Shows k d) (r a : List Char) : shown k d ++ r ≠ newLine k ++ a := by
  obtain ⟨hshown, -⟩ := shown_append hd hs r
  rw [hshown]
  intro h
  have hhead : (word d ++ tail k r d).head? = some '\n' := by
    rw [h]
    rfl
  cases hd with
  | none => simp [word] at hhead
  | bool b => cases b <;> simp [word, boolText] at hhead
  | @number x hx =>
    obtain ⟨t, ht⟩ := hs
    replace ht := text_of_pretty ht
    obtain ⟨hne, hall⟩ := isNumeral_text hx ht
    obtain ⟨c, cs, hcs⟩ := exists_cons_of_ne_nil hne
    have hc := hall c (hcs ▸ (.head _))
    simp only [word, ht, hcs, cons_append, head?_cons, Option.some.injEq] at hhead
    exact not_mem_stops hc (hhead ▸ by decide)
  | @record kind fields hne hkind =>
    obtain ⟨c, cs, hcs⟩ := exists_cons_of_ne_nil fun h => hne (toList_eq_nil_iff.1 h)
    have hc := hkind c (hcs ▸ (.head _))
    simp only [word, hcs, cons_append, head?_cons, Option.some.injEq] at hhead
    exact hc (hhead ▸ by decide)
  | _ => simp [word, tail] at hhead

/-- An atom is told by its word: the words that are no numbers begin with a large letter. -/
theorem atom_inj (hd : Legible d) (he : Legible e) (hs : Shows k d) (hs' : Shows k e) (hmark : mark d = none)
    (hmark' : mark e = none) (hfloats : FloatsTold d.numbers e.numbers) (h : word d = word e) : d = e := by
  have hnumeral : ∀ {x}, x.Plain → Shows k (.number x) → ∀ c ∈ ['N', 'T', 'F'], c ∉ word (.number x) := by
    rintro x hx ⟨t, ht⟩ c hletter hc
    rw [word, text_of_pretty ht] at hc
    have hno : ∀ c ∈ ['N', 'T', 'F'], ¬ IsNumeral c := all_iff_forall_prop.1 (by decide)
    exact hno c hletter ((isNumeral_text hx (text_of_pretty ht)).2 c hc)
  cases hd with
  | none =>
    cases he with
    | none => rfl
    | bool b => cases b <;> simp [word, boolText] at h
    | number hx => exact absurd (h ▸ by decide) (hnumeral hx hs' 'N' (by decide))
    | _ => cases hmark'
  | bool b =>
    cases he with
    | none => cases b <;> simp [word, boolText] at h
    | bool b' => cases b <;> cases b' <;> simp [word, boolText] at h ⊢
    | number hx =>
      cases b
      · exact absurd (h ▸ by decide) (hnumeral hx hs' 'F' (by decide))
      · exact absurd (h ▸ by decide) (hnumeral hx hs' 'T' (by decide))
    | _ => cases hmark'
  | number hx =>
    cases he with
    | none => exact absurd (h ▸ by decide) (hnumeral hx hs 'N' (by decide))
    | bool b =>
      cases b
      · exact absurd (h ▸ by decide) (hnumeral hx hs 'F' (by decide))
      · exact absurd (h ▸ by decide) (hnumeral hx hs 'T' (by decide))
    | number hx' =>
      obtain ⟨t, ht⟩ := hs
      obtain ⟨t', ht'⟩ := hs'
      replace ht := text_of_pretty ht
      replace ht' := text_of_pretty ht'
      simp only [word, ht, ht'] at h
      rw [text_inj hx hx' ht (toList_inj.1 h ▸ ht') hfloats]
    | _ => cases hmark'
  | _ => cases hmark

/-- The datum is told by its layout, up to the order of fields, if floats are told by their texts. -/
def Told (d : Datum) : Prop :=
  ∀ {k : Nat} {e : Datum} {r r' : List Char}, Legible e → Shows k d → Shows k e → Cut r → Cut r' →
    FloatsTold d.numbers e.numbers → shown k d ++ r = shown k e ++ r' → d.sorted = e.sorted ∧ r = r'

theorem told_of_atom (hd : Legible d) (hmark : mark d = none) : Told d := by
  intro k e r r' he hs hs' hr hr' hfloats h
  obtain ⟨hword, htail⟩ := split_shown hd he hs hs' hr hr' h
  have hmark' : mark e = none := (mark_eq hd he hr hr' htail).symm.trans hmark
  obtain rfl := atom_inj hd he hs hs' hmark hmark' hfloats hword
  cases d <;> first | exact ⟨rfl, htail⟩ | cases hmark

theorem items_inj {items items'} (hclose : close ≠ ' ') (hd : ∀ d ∈ items, Legible d)
    (htold : ∀ d ∈ items, Told d) (he : ∀ e ∈ items', Legible e) (hs : ∀ d ∈ items, Shows (k + 1) d)
    (hs' : ∀ e ∈ items', Shows (k + 1) e) (hfloats : FloatsTold (numbersOf items) (numbersOf items'))
    (h : chain (k + 1) (gapOf (k + 1)) (shown (k + 1)) true items ++ (newLine k ++ close :: r) =
      chain (k + 1) (gapOf (k + 1)) (shown (k + 1)) true items' ++ (newLine k ++ close :: r')) :
    sortedAll items = sortedAll items' ∧ r = r' := by
  rw [sortedAll_eq, sortedAll_eq]
  refine chain_inj hclose (fun d hmem e hmem' a b hgap => ?_) (fun d hmem e hmem' a b ha hb hshown => ?_) h
  · -- only a record has an empty line in front, and no datum begins with one
    have hone := shown_ne_newLine (hd d hmem) (hs d hmem) a
    have hother := shown_ne_newLine (he e hmem') (hs' e hmem') b
    unfold gapOf at hgap
    split at hgap <;> split at hgap
    · exact append_cancel_left (append_cancel_left hgap)
    · exact absurd (append_cancel_left hgap).symm (hother _)
    · rw [nil_append] at hgap
      exact absurd (append_cancel_left hgap) (hone _)
    · exact append_cancel_left hgap
  · exact htold d hmem (he e hmem') (hs d hmem) (hs' e hmem') ha hb
      (fun x y hx hy => hfloats x y (mem_numbersOf hmem hx) (mem_numbersOf hmem' hy)) hshown

theorem fields_inj {fields fields' : List (String × Datum)} (hnames : ∀ f ∈ fields, ':' ∉ f.1.toList)
    (htold : ∀ f ∈ fields, Told f.2) (hnames' : ∀ f ∈ fields', ':' ∉ f.1.toList) (he : ∀ f ∈ fields', Legible f.2)
    (hs : ∀ f ∈ fields, Shows (k + 1) f.2) (hs' : ∀ f ∈ fields', Shows (k + 1) f.2)
    (hfloats : FloatsTold (fieldNumbers fields) (fieldNumbers fields'))
    (h : chain (k + 1) (fun _ => []) (fieldShown (k + 1)) true (sortFields fields) ++ (newLine k ++ ')' :: r) =
      chain (k + 1) (fun _ => []) (fieldShown (k + 1)) true (sortFields fields') ++ (newLine k ++ ')' :: r')) :
    sortFields (sortedFields fields) = sortFields (sortedFields fields') ∧ r = r' := by
  rw [sortedFields_eq, sortedFields_eq, sortFields_map fun _ => Datum.sorted, sortFields_map fun _ => Datum.sorted]
  refine chain_inj (by decide) (fun f _ g _ a b hgap => append_cancel_left hgap)
    (fun f hf g hg a b ha hb hshown => ?_) h
  replace hf : f ∈ fields := (mergeSort_perm ..).mem_iff.1 hf
  replace hg : g ∈ fields' := (mergeSort_perm ..).mem_iff.1 hg
  rw [fieldShown, fieldShown, List.append_assoc, List.append_assoc] at hshown
  obtain ⟨hname, hrest⟩ := split_at (p := (· = ':')) (fun c hc heq => hnames f hf (heq ▸ hc))
    (fun c hc heq => hnames' g hg (heq ▸ hc)) rfl rfl hshown
  obtain ⟨hvalue, hab⟩ := htold f hf (he g hg) (hs f hf) (hs' g hg) ha hb
    (fun x y hx hy => hfloats x y (mem_fieldNumbers hf hx) (mem_fieldNumbers hg hy))
    (List.cons.inj (List.cons.inj hrest).2).2
  exact ⟨Prod.ext (String.toList_inj.1 hname) hvalue, hab⟩

/-- Data with one layout are the same up to the order of fields. -/
theorem shown_inj (hd : Legible d) : Told d := by
  induction hd with
  | none => exact told_of_atom .none rfl
  | bool b => exact told_of_atom (.bool b) rfl
  | number hx => exact told_of_atom (.number hx) rfl
  | @string s hquote =>
    intro k e r r' he hs hs' hr hr' hfloats h
    obtain ⟨-, htail⟩ := split_shown (.string hquote) he hs hs' hr hr' h
    have hmark := mark_eq (.string hquote) he hr hr' htail
    cases he with
    | @string s' hquote' =>
      obtain ⟨hsame, hrest⟩ := split_at (p := (· = '"')) (fun c hc heq => hquote (heq ▸ hc))
        (fun c hc heq => hquote' (heq ▸ hc)) rfl rfl (cons.inj htail).2
      rw [toList_inj.1 hsame]
      exact ⟨rfl, (cons.inj hrest).2⟩
    | _ => simp [mark] at hmark
  | @list items hitems ih =>
    intro k e r r' he hs hs' hr hr' hfloats h
    obtain ⟨-, htail⟩ := split_shown (.list hitems) he hs hs' hr hr' h
    have hmark := mark_eq (.list hitems) he hr hr' htail
    cases he with
    | @list items' hitems' =>
      obtain ⟨hsame, hrest⟩ := items_inj (by decide) hitems ih hitems' (shown_append (.list hitems) hs r).2
        (shown_append (.list hitems') hs' r).2 hfloats (append_cancel_left (cons.inj htail).2)
      exact ⟨by rw [Datum.sorted, Datum.sorted, hsame], hrest⟩
    | _ => simp [mark] at hmark
  | @tuple items hitems ih =>
    intro k e r r' he hs hs' hr hr' hfloats h
    obtain ⟨hword, htail⟩ := split_shown (.tuple hitems) he hs hs' hr hr' h
    have hmark := mark_eq (.tuple hitems) he hr hr' htail
    cases he with
    | @tuple items' hitems' =>
      obtain ⟨hsame, hrest⟩ := items_inj (by decide) hitems ih hitems' (shown_append (.tuple hitems) hs r).2
        (shown_append (.tuple hitems') hs' r).2 hfloats (append_cancel_left (cons.inj htail).2)
      exact ⟨by rw [Datum.sorted, Datum.sorted, hsame], hrest⟩
    | record hne => exact absurd (toList_eq_nil_iff.1 hword.symm) hne
    | _ => simp [mark] at hmark
  | @record kind fields hne hkind hnames hquote hfields ih =>
    intro k e r r' he hs hs' hr hr' hfloats h
    obtain ⟨hword, htail⟩ := split_shown (.record hne hkind hnames hquote hfields) he hs hs' hr hr' h
    have hmark := mark_eq (.record hne hkind hnames hquote hfields) he hr hr' htail
    cases he with
    | tuple => exact absurd (toList_eq_nil_iff.1 hword) hne
    | @record kind' fields' hne' hkind' hnames' hquote' hfields' =>
      obtain ⟨hsame, hrest⟩ := fields_inj hnames ih hnames' hfields' (shown_append (.record hne hkind hnames hquote hfields) hs r).2
        (shown_append (.record hne' hkind' hnames' hquote' hfields') hs' r).2 hfloats (cons.inj htail).2
      exact ⟨by rw [Datum.sorted, Datum.sorted, hsame, toList_inj.1 hword], hrest⟩
    | _ => simp [mark] at hmark

end

end SmallScript.Inspect
