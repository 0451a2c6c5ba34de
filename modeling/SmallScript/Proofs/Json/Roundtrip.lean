import SmallScript.Json.Basic
import SmallScript.Proofs.Data.Tables
import SmallScript.Text.Utf8

/-!
# Documents are read back as they are written

* `string?_escaped` : a string is read back, whatever characters it has;
* `Canonical.written` : a canonical document has a text, which is read back in front of anything that can follow it;
* `parse_of_written` : so the text is read as this document.

A document is canonical if no object has a name twice and its numbers are read back: that is no matter of course, since
some are written like another number.
-/

namespace SmallScript.Json

open Data Text List Nat
open Number (Numeric)

/-! ## Strings -/

theorem hexValue?_hexDigit : ∀ d, d < 16 → hexValue? (hexDigit d) = some d := by decide

theorem hexDigit_mod (n : Nat) : hexDigit (n % 16) = hexDigit n := by
  rw [hexDigit, hexDigit, mod_mod]

/-- The last four digits of a small number give the number. -/
theorem hex4?_hex {n} (hn : n < 65536) (rest : List Char) : hex4? (hex 4 n ++ rest) = some (n, rest) := by
  have hdigit : ∀ k, hexValue? (hexDigit k) = some (k % 16) := fun k => by
    rw [← hexDigit_mod, hexValue?_hexDigit _ (mod_lt _ (by omega))]
  have hsum : ((n / 16 / 16 / 16 % 16 * 16 + n / 16 / 16 % 16) * 16 + n / 16 % 16) * 16 + n % 16 = n := by omega
  simp [hex, hex4?, hdigit, hsum]

/-- No character is one half of a pair. -/
theorem toNat_cases (c : Char) : c.toNat < 0xD800 ∨ 0xE000 ≤ c.toNat ∧ c.toNat < 0x110000 := by
  have hvalid := c.valid
  have hnat : c.toNat = c.val.toNat := rfl
  omega

theorem unicodeEscape?_hex {c} (hc : c.toNat < 0x10000) (rest : List Char) :
    unicodeEscape? (hex 4 c.toNat ++ rest) = some (c, rest) := by
  have hcases := toNat_cases c
  have hlow : ¬ (0xD800 ≤ c.toNat ∧ c.toNat < 0xDC00) := by omega
  have hhigh : ¬ (0xDC00 ≤ c.toNat ∧ c.toNat < 0xE000) := by omega
  simp [unicodeEscape?, hex4?_hex hc, hlow, hhigh, Char.ofNat_toNat]

/-- The two halves of a pair make one character. -/
theorem unicodeEscape?_pair {a b} (ha : 0xD800 ≤ a) (ha' : a < 0xDC00) (hb : 0xDC00 ≤ b) (hb' : b < 0xE000)
    (rest : List Char) :
    unicodeEscape? (hex 4 a ++ '\\' :: 'u' :: (hex 4 b ++ rest)) =
      some (Char.ofNat (0x10000 + (a - 0xD800) * 1024 + (b - 0xDC00)), rest) := by
  have hfirst := hex4?_hex (n := a) (by omega) ('\\' :: 'u' :: (hex 4 b ++ rest))
  have hsecond := hex4?_hex (n := b) (by omega) rest
  simp [unicodeEscape?, hfirst, hsecond, ha, ha', hb, hb']

/-- A character beyond the first plane is the one that its halves make. -/
theorem ofNat_halves {c} (hc : 0x10000 ≤ c.toNat) :
    Char.ofNat (0x10000 + (0xD800 + (c.toNat - 0x10000) / 1024 - 0xD800) * 1024 +
      (0xDC00 + (c.toNat - 0x10000) % 1024 - 0xDC00)) = c := by
  have hsum : 0x10000 + (0xD800 + (c.toNat - 0x10000) / 1024 - 0xD800) * 1024 +
      (0xDC00 + (c.toNat - 0x10000) % 1024 - 0xDC00) = c.toNat := by omega
  rw [hsum, Char.ofNat_toNat]

/-- A character without a short escape of its own stands for itself or is given by its number. -/
theorem escaped_eq {c} (hc : c ∉ ['"', '\\', '\n', '\r', '\t', '\x08', '\x0c']) :
    escaped c = if 32 ≤ c.toNat && c.toNat < 127 then [c] else if c.toNat < 0x10000 then '\\' :: 'u' :: hex 4 c.toNat
      else '\\' :: 'u' :: hex 4 (0xD800 + (c.toNat - 0x10000) / 1024) ++
        '\\' :: 'u' :: hex 4 (0xDC00 + (c.toNat - 0x10000) % 1024) := by
  simp only [mem_cons, not_or] at hc
  obtain ⟨hquote, hslash, hn, hr, ht, hb, hf⟩ := hc
  simp only [escaped, beq_iff_eq, hquote, hslash, hn, hr, ht, hb, hf, if_false]

theorem stringTail?_escaped (c : Char) (fuel : Nat) (cs : List Char) :
    stringTail? (fuel + 1) (escaped c ++ cs) = (stringTail? fuel cs).map fun r => (c :: r.1, r.2) := by
  have hmap : ∀ r : Option (List Char × List Char),
      (r.bind fun x => some (c :: x.1, x.2)) = r.map fun r => (c :: r.1, r.2) := fun r => by cases r <;> rfl
  by_cases hc : c ∈ ['"', '\\', '\n', '\r', '\t', '\x08', '\x0c']
  · simp only [mem_cons, not_mem_nil, or_false] at hc
    rcases hc with rfl | rfl | rfl | rfl | rfl | rfl | rfl <;> exact hmap _
  · rw [escaped_eq hc]
    simp only [mem_cons, not_or] at hc
    split
    · next h =>
      have hprintable : ¬ c.toNat < 32 := by simp at h; omega
      simp [stringTail?, hc.1, hc.2.1, hprintable, ← hmap]
    split
    · next h => simp [stringTail?, unicodeEscape?_hex h, ← hmap]
    · next h =>
      have hcases := toNat_cases c
      have hpair := unicodeEscape?_pair (a := 0xD800 + (c.toNat - 0x10000) / 1024)
        (b := 0xDC00 + (c.toNat - 0x10000) % 1024) (by omega) (by omega) (by omega) (by omega) cs
      rw [ofNat_halves (by omega)] at hpair
      simp [stringTail?, hpair, ← hmap]

theorem escaped_ne_nil (c : Char) : escaped c ≠ [] := by
  intro h
  have hquote := stringTail?_escaped c 0 ['"']
  simp [h, stringTail?] at hquote

theorem hex_ne_return (width n : Nat) : '\r' ∉ hex width n := by
  have hdigit : ∀ d, d < 16 → hexDigit d ≠ '\r' := by decide
  induction width generalizing n with
  | zero => exact not_mem_nil
  | succ width ih =>
    rw [hex, mem_append, mem_singleton, ← hexDigit_mod]
    rintro (h | h)
    · exact ih _ h
    · exact hdigit _ (mod_lt _ (by omega)) h.symm

theorem escaped_ne_return (c : Char) : '\r' ∉ escaped c := by
  by_cases hc : c ∈ ['"', '\\', '\n', '\r', '\t', '\x08', '\x0c']
  · simp only [mem_cons, not_mem_nil, or_false] at hc
    rcases hc with rfl | rfl | rfl | rfl | rfl | rfl | rfl <;> decide
  · have hreturn : '\r' ≠ c := by
      rintro rfl
      exact hc (by decide)
    rw [escaped_eq hc]
    repeat' split
    all_goals simp [hex_ne_return, hreturn]

theorem exists_succ {n fuel} (h : n < fuel) : ∃ k, fuel = k + 1 := exists_eq_succ_of_ne_zero (Nat.ne_zero_of_lt h)

theorem stringTail?_flatMap (cs rest : List Char) (fuel : Nat) (hfuel : cs.length < fuel) :
    stringTail? fuel (cs.flatMap escaped ++ '"' :: rest) = some (cs, rest) := by
  induction cs generalizing fuel with
  | nil =>
    obtain ⟨fuel, rfl⟩ := exists_succ hfuel
    simp [stringTail?]
  | cons c cs ih =>
    obtain ⟨fuel, rfl⟩ := exists_succ hfuel
    rw [flatMap_cons, append_assoc, stringTail?_escaped, ih fuel (by simpa using hfuel)]
    rfl

theorem string?_escaped (s : String) (rest : List Char) :
    string? (s.toList.flatMap escaped ++ '"' :: rest) = some (s, rest) := by
  have hlength : s.toList.length ≤ (s.toList.flatMap escaped).length := by
    generalize s.toList = cs
    induction cs with
    | nil => exact Nat.le_refl _
    | cons c cs ih =>
      have hone := length_pos_of_ne_nil (escaped_ne_nil c)
      simp only [flatMap_cons, length_append, length_cons]
      omega
  have htail := stringTail?_flatMap s.toList rest ((s.toList.flatMap escaped ++ '"' :: rest).length + 1) (by
    simp only [length_append]
    omega)
  rw [string?, htail, Option.map_some, String.ofList_toList]

theorem toList_stringText (s : String) : (stringText s).toList = '"' :: (s.toList.flatMap escaped ++ ['"']) := by
  simp [stringText]

/-! ## Documents -/

/-- What can follow a value in a document. -/
def Ends (rest : List Char) : Prop := ∀ c ∈ rest.head?, c = ',' ∨ c = ']' ∨ c = '\x7d'

/-- The text of a document, which is read back in front of anything that can follow it. -/
structure Written (doc : Json) (text : String) : Prop where
  render : doc.render = .ok text
  head : ∃ c cs, text.toList = c :: cs ∧ isSpace c = false ∧ c ≠ ']'
  plain : '\r' ∉ text.toList
  reads : ∀ fuel rest, text.toList.length < fuel → Ends rest → value? fuel (text.toList ++ rest) = some (doc, rest)

/-- No object in the document has a name twice, and its numbers are read back. -/
inductive Canonical : Json → Prop where
  | null : Canonical .null
  | bool (b : Bool) : Canonical (.bool b)
  | num {n : Numeric} {text : String} (h : Written (.num n) text) : Canonical (.num n)
  | str (s : String) : Canonical (.str s)
  | arr {items : List Json} (h : ∀ x ∈ items, Canonical x) : Canonical (.arr items)
  | obj {fields : List (String × Json)} (hnames : (fields.map (·.1)).Nodup) (h : ∀ e ∈ fields, Canonical e.2) :
    Canonical (.obj fields)

theorem skipSpace_cons {c} (h : isSpace c = false) (cs : List Char) : skipSpace (c :: cs) = c :: cs := by
  simp [skipSpace, h]

theorem Written.skipSpace {doc : Json} {text : String} (h : Written doc text) (rest : List Char) :
    skipSpace (text.toList ++ rest) = text.toList ++ rest := by
  obtain ⟨c, cs, htext, hspace, -⟩ := h.head
  rw [htext, List.cons_append, skipSpace_cons hspace]

theorem toList_intercalate_cons (t u : String) (us : List String) :
    (", ".intercalate (t :: u :: us)).toList = t.toList ++ ',' :: ' ' :: (", ".intercalate (u :: us)).toList := by
  simp

theorem items?_blank (fuel : Nat) (cs : List Char) : items? fuel (' ' :: cs) = items? fuel cs := by
  cases fuel <;> simp [items?, skipSpace, isSpace]

theorem fields?_blank (fuel : Nat) (done : List (String × Json)) (cs : List Char) :
    fields? fuel done (' ' :: cs) = fields? fuel done cs := by
  cases fuel <;> simp [fields?, skipSpace, isSpace]

/-- The items of an array are read back, up to the bracket behind them. -/
theorem items_written {x : Json} {xs : List Json} (h : ∀ y ∈ x :: xs, ∃ text, Written y text) :
    ∃ texts, renderItems (x :: xs) = .ok texts ∧
      (∃ c cs, (", ".intercalate texts).toList = c :: cs ∧ isSpace c = false ∧ c ≠ ']') ∧
      '\r' ∉ (", ".intercalate texts).toList ∧
      ∀ fuel rest, (", ".intercalate texts).toList.length + 1 < fuel →
        items? fuel ((", ".intercalate texts).toList ++ ']' :: rest) = some (x :: xs, rest) := by
  induction xs generalizing x with
  | nil =>
    obtain ⟨t, ht⟩ := h x List.mem_cons_self
    have hrender : renderItems [x] = .ok [t] := by
      simp only [renderItems, ht.render]
      rfl
    refine ⟨[t], hrender, ht.head, ht.plain, fun fuel rest hfuel => ?_⟩
    obtain ⟨fuel, rfl⟩ := exists_succ hfuel
    rw [String.intercalate_singleton] at hfuel ⊢
    rw [items?, ht.skipSpace, ht.reads fuel (']' :: rest) (by omega) (by simp [Ends])]
    rfl
  | cons y ys ih =>
    obtain ⟨t, ht⟩ := h x List.mem_cons_self
    obtain ⟨texts, hrest, -, hplain, hreads⟩ := ih fun z hz => h z (List.mem_cons_of_mem _ hz)
    obtain ⟨u, us, rfl⟩ : ∃ u us, texts = u :: us := by
      cases texts with
      | cons u us => exact ⟨u, us, rfl⟩
      | nil =>
        obtain ⟨v, hv⟩ := h y (List.mem_cons_of_mem _ List.mem_cons_self)
        simp only [renderItems, hv.render] at hrest
        cases hys : renderItems ys <;> rw [hys] at hrest <;> cases hrest
    have hrender : renderItems (x :: y :: ys) = .ok (t :: u :: us) := by
      rw [renderItems, ht.render, hrest]
      rfl
    refine ⟨t :: u :: us, hrender, ?_, ?_, fun fuel rest hfuel => ?_⟩
    · obtain ⟨c, cs, htext, hc⟩ := ht.head
      exact ⟨c, _, by rw [toList_intercalate_cons, htext]; rfl, hc⟩
    · rw [toList_intercalate_cons]
      simp only [List.mem_append, List.mem_cons, not_or]
      exact ⟨ht.plain, by decide, by decide, hplain⟩
    · obtain ⟨fuel, rfl⟩ := exists_succ hfuel
      rw [toList_intercalate_cons] at hfuel ⊢
      simp only [List.length_append, List.length_cons] at hfuel
      have hxs := hreads fuel rest (by omega)
      rw [← items?_blank] at hxs
      rw [List.append_assoc, items?, ht.skipSpace, ht.reads fuel _ (by omega) (by simp [Ends])]
      show (items? fuel (' ' :: ((", ".intercalate (u :: us)).toList ++ ']' :: rest)) >>= _) = _
      rw [hxs]
      rfl

theorem toList_field (name text : String) :
    (stringText name ++ ": " ++ text).toList = '"' :: (name.toList.flatMap escaped ++ '"' :: ':' :: ' ' :: text.toList) := by
  simp [toList_stringText]

theorem fields?_field {name text doc fuel} (h : Written doc text)
    (hfuel : text.toList.length < fuel) (done : List (String × Json)) {rest} (hrest : Ends rest) :
    fields? (fuel + 1) done ((stringText name ++ ": " ++ text).toList ++ rest) = match Json.skipSpace rest with
      | '\x7d' :: rest => some (setField done name doc, rest)
      | ',' :: rest => fields? fuel (setField done name doc) rest
      | _ => none := by
  rw [toList_field, cons_append, fields?, skipSpace_cons rfl]
  simp only [append_assoc, cons_append, string?_escaped, Option.bind_eq_bind, Option.bind_some]
  rw [skipSpace_cons rfl]
  simp only []
  rw [show skipSpace (' ' :: (text.toList ++ rest)) = skipSpace (text.toList ++ rest) from rfl,
    h.skipSpace, h.reads fuel _ hfuel hrest]
  rfl

theorem Written.field {doc text} (h : Written doc text) (name : String) :
    (∃ cs, (stringText name ++ ": " ++ text).toList = '"' :: cs) ∧ '\r' ∉ (stringText name ++ ": " ++ text).toList ∧
      text.toList.length < (stringText name ++ ": " ++ text).toList.length := by
  rw [toList_field]
  refine ⟨⟨_, rfl⟩, ?_, ?_⟩
  · simp [h.plain, escaped_ne_return]
  · simp only [length_cons, length_append]
    omega

/-- The fields of an object are read back, up to the brace behind them. -/
theorem fields_written {e es} (hnames : ((e :: es).map (·.1)).Nodup) (h : ∀ e' ∈ e :: es, ∃ text, Written e'.2 text) :
    ∃ texts, renderFields (e :: es) = .ok texts ∧ (∃ cs, (", ".intercalate texts).toList = '"' :: cs) ∧
      '\r' ∉ (", ".intercalate texts).toList ∧
      ∀ fuel done rest, (∀ x ∈ (e :: es).map (·.1), x ∉ done.map (·.1)) →
        (", ".intercalate texts).toList.length + 1 < fuel →
        fields? fuel done ((", ".intercalate texts).toList ++ '\x7d' :: rest) = some (done ++ e :: es, rest) := by
  induction es generalizing e with
  | nil =>
    obtain ⟨t, ht⟩ := h e (.head _)
    obtain ⟨hhead, hplain, hlength⟩ := ht.field e.1
    have hrender : renderFields [e] = .ok [stringText e.1 ++ ": " ++ t] := by
      simp only [renderFields, ht.render]
      rfl
    refine ⟨_, hrender, hhead, hplain, fun fuel done rest hnew hfuel => ?_⟩
    obtain ⟨fuel, rfl⟩ := exists_succ hfuel
    rw [String.intercalate_singleton] at hfuel ⊢
    refine (fields?_field ht (by omega) done (by simp [Ends])).trans ?_
    show some (setField done e.1 e.2, rest) = _
    rw [setField, Table.insertEntry_of_not_mem (hnew e.1 (.head _))]
  | cons e' es ih =>
    obtain ⟨t, ht⟩ := h e (.head _)
    obtain ⟨⟨cs, hhead⟩, hplain, hlength⟩ := ht.field e.1
    rw [map_cons, nodup_cons] at hnames
    obtain ⟨texts, hrest, hquote, hplain', hreads⟩ := ih hnames.2 fun x hx => h x (.tail _ hx)
    obtain ⟨u, us, rfl⟩ : ∃ u us, texts = u :: us := by
      cases texts with
      | cons u us => exact ⟨u, us, rfl⟩
      | nil =>
        obtain ⟨cs, hcs⟩ := hquote
        simp at hcs
    have hrender : renderFields (e :: e' :: es) = .ok ((stringText e.1 ++ ": " ++ t) :: u :: us) := by
      rw [renderFields, ht.render, hrest]
      rfl
    refine ⟨_, hrender, ?_, ?_, fun fuel done rest hnew hfuel => ?_⟩
    · exact ⟨_, by rw [toList_intercalate_cons, hhead]; rfl⟩
    · rw [toList_intercalate_cons]
      simp only [mem_append, mem_cons, not_or]
      exact ⟨hplain, by decide, by decide, hplain'⟩
    · obtain ⟨fuel, rfl⟩ := exists_succ hfuel
      rw [toList_intercalate_cons] at hfuel ⊢
      rw [length_append, length_cons, length_cons] at hfuel
      have hfirst : e.1 ∉ done.map (·.1) := hnew e.1 (.head _)
      rw [append_assoc, cons_append, cons_append]
      refine (fields?_field ht (by omega) done (by simp [Ends])).trans ?_
      show fields? fuel (setField done e.1 e.2) (' ' :: _) = _
      rw [fields?_blank, setField, Table.insertEntry_of_not_mem hfirst, hreads fuel _ rest _ (by omega), append_assoc]
      · rfl
      · intro x hx
        rw [map_append, mem_append, not_or]
        refine ⟨hnew x (.tail _ hx), ?_⟩
        rw [map_singleton, mem_singleton]
        rintro rfl
        exact hnames.1 hx

/-- A text between brackets, which are told from spaces and line ends. -/
theorem Written.bracketed {doc : Json} {inner : String} (left right : String) (o c : Char) (hleft : left.toList = [o])
    (hright : right.toList = [c]) (ho : isSpace o = false ∧ o ≠ ']' ∧ '\r' ≠ o) (hc : '\r' ≠ c)
    (hrender : doc.render = .ok (left ++ inner ++ right)) (hplain : '\r' ∉ inner.toList)
    (hreads : ∀ fuel rest, inner.toList.length + 1 < fuel →
      value? (fuel + 1) (o :: (inner.toList ++ c :: rest)) = some (doc, rest)) : Written doc (left ++ inner ++ right) := by
  have htext : (left ++ inner ++ right).toList = o :: (inner.toList ++ [c]) := by
    rw [String.toList_append, String.toList_append, hleft, hright]
    rfl
  refine ⟨hrender, ⟨o, _, htext, ho.1, ho.2.1⟩, ?_, fun fuel rest hfuel _ => ?_⟩
  · simp [htext, ho.2.2, hplain, hc]
  · obtain ⟨fuel, rfl⟩ := exists_succ hfuel
    rw [htext] at hfuel ⊢
    rw [cons_append, List.append_assoc]
    refine hreads fuel rest ?_
    simpa using hfuel

/-- A canonical document has a text, and this is read back. -/
theorem Canonical.written {doc} (h : Canonical doc) : ∃ text, Written doc text := by
  induction h with
  | null =>
    refine ⟨"null", rfl, ⟨'n', _, rfl, rfl, by decide⟩, by decide, fun fuel rest hfuel _ => ?_⟩
    obtain ⟨fuel, rfl⟩ := exists_succ hfuel
    rfl
  | bool b =>
    refine ⟨if b then "true" else "false", rfl, ?_, ?_, fun fuel rest hfuel _ => ?_⟩
    · cases b
      · exact ⟨'f', _, rfl, rfl, by decide⟩
      · exact ⟨'t', _, rfl, rfl, by decide⟩
    · cases b <;> decide
    · obtain ⟨fuel, rfl⟩ := exists_succ hfuel
      cases b <;> simp [value?, constant?] <;> rfl
  | num h => exact ⟨_, h⟩
  | str s =>
    refine ⟨stringText s, rfl, ⟨'"', _, toList_stringText s, rfl, by decide⟩, ?_, fun fuel rest hfuel _ => ?_⟩
    · simp [toList_stringText, escaped_ne_return]
    · obtain ⟨fuel, rfl⟩ := exists_succ hfuel
      rw [toList_stringText, cons_append, append_assoc, value?]
      simp only [singleton_append, string?_escaped, Option.map_some]
  | @arr items _ ih =>
    cases items with
    | nil =>
      refine ⟨"[]", rfl, ⟨'[', _, rfl, rfl, by decide⟩, by decide, fun fuel rest hfuel _ => ?_⟩
      obtain ⟨fuel, rfl⟩ := exists_succ hfuel
      simp [value?, skipSpace, isSpace]
    | cons x xs =>
      obtain ⟨texts, hrender, ⟨c, cs, hhead, hspace, hc⟩, hplain, hreads⟩ := items_written ih
      refine ⟨_, .bracketed "[" "]" '[' ']' rfl rfl (by decide) (by decide) (by rw [render, hrender]; rfl) hplain
        fun fuel rest hfuel => ?_⟩
      have hitems := hreads fuel rest hfuel
      rw [hhead, cons_append] at hitems ⊢
      rw [value?, skipSpace_cons hspace]
      split
      · next heq =>
        cases heq
        exact absurd rfl hc
      · rw [hitems]
        rfl
  | @obj fields hnames _ ih =>
    cases fields with
    | nil =>
      refine ⟨"\x7b\x7d", rfl, ⟨'\x7b', _, rfl, rfl, by decide⟩, by decide, fun fuel rest hfuel _ => ?_⟩
      obtain ⟨fuel, rfl⟩ := exists_succ hfuel
      simp [value?, skipSpace, isSpace]
    | cons e es =>
      obtain ⟨texts, hrender, ⟨cs, hhead⟩, hplain, hreads⟩ := fields_written hnames ih
      refine ⟨_, .bracketed "\x7b" "\x7d" '\x7b' '\x7d' rfl rfl (by decide) (by decide) (by rw [render, hrender]; rfl)
        hplain fun fuel rest hfuel => ?_⟩
      have hfields := hreads fuel [] rest (fun _ _ => not_mem_nil) hfuel
      rw [hhead, cons_append] at hfields ⊢
      rw [value?, skipSpace_cons rfl]
      split
      · next heq => cases heq
      · rw [hfields]
        rfl

theorem parse_of_written {doc text} (h : Written doc text) : parse text = some doc := by
  have hspace := h.skipSpace []
  have hreads := h.reads (text.toList.length + 1) [] (lt_succ_self _) (by simp [Ends])
  rw [append_nil] at hspace hreads
  rw [parse, hspace, hreads]
  rfl

/-- The bytes of a text are read as the text, and line ends in it are left alone. -/
theorem decode_toUTF8 (text : String) : decode text.toUTF8 = .ok text := by
  have hdecoded : String.fromUTF8? text.toUTF8 = some text := by
    unfold String.fromUTF8?
    simp only [Option.dite_none_right_eq_some]
    exact ⟨text.isValidUTF8, rfl⟩
  rw [decode, hdecoded]

theorem unifyLineEnds_eq {cs} (h : '\r' ∉ cs) : unifyLineEnds cs = cs := by
  induction cs with
  | nil => rfl
  | cons c cs ih =>
    rw [mem_cons, not_or] at h
    have hc : c ≠ '\r' := fun he => h.1 he.symm
    simp [unifyLineEnds, hc, ih h.2]

end SmallScript.Json
