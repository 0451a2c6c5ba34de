import SmallScript.Proofs.Machine.Snapshots
import SmallScript.Proofs.Syntax.Literal

/-!
# Values that are literals

`Shows l s` says that the snapshot `s` is the literal `l`: numbers are whole and equal to the one of the literal, and
the keys of an object are distinct. A snapshot is displayed as the literal it shows is printed, `Shows.display`, and
two snapshots of one literal are equal, `Shows.equal`.

A value goes on showing its literal when cells are added to the heap, `Shows.mono`.
-/

namespace SmallScript.Machine

open List String
open Value (ScopeRef ObjectRef)
open Syntax (Literal Whole Name Mark Lexeme lettersOf listed moreParts lettersOf_nil lettersOf_cons
  lettersOf_append)
open Number (Numeric NumberFault)

variable {ls : List Literal} {xs : List (String × Snapshot)} {fs : List (Name × Literal)}

mutual

/-- The snapshot shows the literal. -/
inductive Shows : Literal → Snapshot → Prop where
  | null : Shows .null .null
  | bool (b : Bool) : Shows (.bool b) (.bool b)
  | whole (n : Whole) {x : Numeric} (h : x.IsWhole n.value) (stamp : Nat) : Shows (.whole n) (.num x stamp)
  | string (s : Syntax.Content) : Shows (.string s) (.str (String.ofList s.letters))
  | array {ls : List Literal} {xs : List Snapshot} (h : ShowsItems ls xs) : Shows (.array ls) (.array xs)
  | object {fs : List (Name × Literal)} {xs : List (String × Snapshot)} (h : ShowsFields fs xs)
    (distinct : (fs.map (·.1.text)).Nodup) : Shows (.object fs) (.object xs false)

inductive ShowsItems : List Literal → List Snapshot → Prop where
  | nil : ShowsItems [] []
  | cons {l : Literal} {x : Snapshot} {ls : List Literal} {xs : List Snapshot} (h : Shows l x)
    (hs : ShowsItems ls xs) : ShowsItems (l :: ls) (x :: xs)

/-- The snapshots show the literals of the fields, in order and under the same names. -/
inductive ShowsFields : List (Name × Literal) → List (String × Snapshot) → Prop where
  | nil : ShowsFields [] []
  | cons (key : Name) {l : Literal} {x : Snapshot} {fs : List (Name × Literal)} {xs : List (String × Snapshot)}
    (h : Shows l x) (hs : ShowsFields fs xs) : ShowsFields ((key, l) :: fs) ((key.text, x) :: xs)

end

/-! ## Display -/

namespace Snapshot

theorem cutTail_two (cs : List Char) (a b : Char) : cutTail 2 (String.ofList (cs ++ [a, b])) = String.ofList cs := by
  have hlength : (ofList (cs ++ [a, b])).length - 2 = cs.length := by simp
  rw [cutTail, hlength, toList_ofList, take_left]

/-- Parts, each with a comma and a blank behind it. -/
def trailed (ps : List (List Lexeme)) : List Char := ps.flatMap fun p => lettersOf p ++ [',', ' ']

theorem trailed_nil : trailed [] = [] := rfl

theorem trailed_cons (p : List Lexeme) (ps : List (List Lexeme)) :
    trailed (p :: ps) = lettersOf p ++ [',', ' '] ++ trailed ps := rfl

/-- What trails the last part can be put behind all of them. -/
theorem trailed_eq (p : List Lexeme) (ps : List (List Lexeme)) :
    trailed (p :: ps) = lettersOf p ++ lettersOf (moreParts ps) ++ [',', ' '] := by
  induction ps generalizing p with
  | nil => rw [trailed_cons, trailed_nil, moreParts, flatMap_nil, lettersOf_nil, append_nil, append_nil]
  | cons q ps ih =>
    have hmore : lettersOf (moreParts (q :: ps)) = [',', ' '] ++ lettersOf q ++ lettersOf (moreParts ps) := by
      rw [moreParts, flatMap_cons, lettersOf_append, lettersOf_cons]
      rfl
    rw [trailed_cons, ih, hmore]
    simp only [List.append_assoc]

/-- Cutting off what trails the last part also cuts off the opening bracket if there is no part. -/
theorem cutTail_listed {opening closing a b} (ha : opening.lexeme.source = [a])
    (hb : closing.lexeme.source = [b]) (ps : List (List Lexeme)) :
    cutTail 2 (String.ofList [a, ' '] ++ String.ofList (trailed ps)) ++ String.ofList [' ', b] =
      String.ofList (lettersOf (listed opening closing ps)) := by
  have hclose : lettersOf [.gap, closing.lexeme] = [' ', b] := by
    rw [lettersOf_cons, lettersOf_cons, hb]
    rfl
  rw [← ofList_append]
  cases ps with
  | nil =>
    rw [trailed_nil, append_nil, listed, hclose, ← nil_append [a, ' '], cutTail_two, ← ofList_append, nil_append]
  | cons p ps =>
    rw [trailed_eq, ← List.append_assoc, cutTail_two, ← ofList_append, listed, lettersOf_cons, lettersOf_cons,
      lettersOf_append, lettersOf_append, hclose, ha, Lexeme.gap_source]
    simp only [List.append_assoc, cons_append, nil_append]

end Snapshot

open Snapshot (trailed cutTail_listed numberDisplay)

theorem numberDisplay_whole (n : Whole) {x} (h : x.IsWhole n.value) :
    numberDisplay x = .ok (Literal.whole n).source := by
  have htext : Numeric.text (.int n.value) = .ok (Literal.whole n).source := by
    rw [Numeric.text, Number.intText?_whole n.small, ← n.text_lexeme, Literal.source, Literal.lexemes, lettersOf,
      flatMap_singleton]
  unfold numberDisplay
  rw [h.trunc]
  show (if Numeric.eq (.int n.value) x = true then _ else _) = _
  rw [if_pos h.eq_int, htext]

variable {l : Literal}

mutual

/-- A snapshot is displayed as the literal that it shows is printed. -/
theorem Shows.display {l : Literal} {s : Snapshot} : Shows l s → s.display true = .ok l.source
  | .null => by
    rw [Snapshot.display, Literal.source, Literal.lexemes]
    rfl
  | .bool b => by
    rw [Snapshot.display, Literal.source, Literal.lexemes]
    cases b <;> rfl
  | .whole n h _ => by
    rw [Snapshot.display]
    exact numberDisplay_whole n h
  | .string t => by
    have hquoted : lettersOf [Lexeme.string t.letters] = ['"'] ++ t.letters ++ ['"'] := append_nil _
    rw [Snapshot.display, Literal.source, Literal.lexemes, if_pos rfl, hquoted, ofList_append, ofList_append]
  | .array h => by
    rw [Snapshot.display, h.display, Literal.source, Literal.lexemes, Syntax.itemLexemes_eq]
    exact congrArg Except.ok (cutTail_listed rfl rfl _)
  | .object h _ => by
    rw [Snapshot.display, h.display, Literal.source, Literal.lexemes]
    exact congrArg Except.ok (cutTail_listed rfl rfl _)

theorem ShowsItems.display {ls : List Literal} {xs : List Snapshot} : ShowsItems ls xs →
    Snapshot.displayItems xs = .ok (String.ofList (trailed (ls.map Literal.lexemes)))
  | .nil => by
    rw [Snapshot.displayItems]
    rfl
  | .cons hx hxs => by
    rw [Snapshot.displayItems, hx.display, hxs.display]
    refine congrArg Except.ok ?_
    rw [map_cons, Snapshot.trailed_cons, ofList_append, ofList_append]
    rfl

theorem ShowsFields.display {fs : List (Name × Literal)} {xs : List (String × Snapshot)} : ShowsFields fs xs →
    Snapshot.displayFields xs = .ok (String.ofList (trailed (Syntax.fieldLexemes fs)))
  | .nil => by
    rw [Snapshot.displayFields]
    rfl
  | .cons (l := l) key hx hxs => by
    have hfield : lettersOf (key.lexeme :: Mark.colon.lexeme :: .gap :: l.lexemes) =
        key.letters ++ [':', ' '] ++ lettersOf l.lexemes := by
      rw [lettersOf_cons, lettersOf_cons, lettersOf_cons, List.append_assoc]
      rfl
    rw [Snapshot.displayFields, hx.display, hxs.display]
    refine congrArg Except.ok ?_
    rw [Syntax.fieldLexemes, Snapshot.trailed_cons, hfield]
    simp only [ofList_append]
    rfl

end

/-! ## Equality -/

theorem ShowsItems.exists_shows {ls xs} : ShowsItems ls xs → l ∈ ls → ∃ x, Shows l x
  | .cons hx _, .head _ => ⟨_, hx⟩
  | .cons _ hxs, .tail _ hl => hxs.exists_shows hl

theorem ShowsFields.length_eq {fs xs} : ShowsFields fs xs → xs.length = fs.length
  | .nil => rfl
  | .cons _ _ hxs => by rw [length_cons, length_cons, hxs.length_eq]

theorem ShowsFields.lookup (h : ShowsFields fs xs) (distinct : (fs.map (·.1.text)).Nodup) {f} (hf : f ∈ fs) :
    ∃ x, xs.lookup f.1.text = some x ∧ Shows f.2 x := by
  induction fs generalizing xs with
  | nil => cases hf
  | cons g fs ih =>
    rw [map_cons, nodup_cons] at distinct
    cases h with
    | cons key hx hxs =>
      rcases mem_cons.1 hf with rfl | hf
      · exact ⟨_, lookup_cons_self, hx⟩
      · have hne : (f.1.text == key.text) = false := by
          rw [beq_eq_false_iff_ne]
          intro he
          exact distinct.1 (he ▸ mem_map_of_mem hf)
        obtain ⟨x, hlookup, hshows⟩ := ih hxs distinct.2 hf
        refine ⟨x, ?_, hshows⟩
        rwa [lookup_cons, hne]

theorem sameNumber_of_isWhole {x y k} (hx : x.IsWhole k) (hy : y.IsWhole k) (s t : Nat) :
    Snapshot.sameNumber x s y t = true := by
  rw [Snapshot.sameNumber, hx.eq hy]
  rfl

mutual

/-- Snapshots of one literal are the same inside collections. -/
theorem Shows.same {l : Literal} {a b : Snapshot} : Shows l a → Shows l b → a.same b = true
  | .null, .null => by rw [Snapshot.same]
  | .bool c, .bool _ => by rw [Snapshot.same, beq_self_eq_true]
  | .whole _ ha s, .whole _ hb t => by
    rw [Snapshot.same]
    exact sameNumber_of_isWhole ha hb s t
  | .string t, .string _ => by rw [Snapshot.same, beq_self_eq_true]
  | .array ha, .array hb => by
    rw [Snapshot.same]
    exact ha.same hb
  | .object ha distinct, .object hb _ => by
    rw [Snapshot.same, ha.length_eq, hb.length_eq, ha.same fun f hf => hb.lookup distinct hf, beq_self_eq_true]
    rfl

theorem ShowsItems.same {ls : List Literal} {xs ys : List Snapshot} : ShowsItems ls xs → ShowsItems ls ys →
    Snapshot.sameItems xs ys = true
  | .nil, .nil => by rw [Snapshot.sameItems]
  | .cons hx hxs, .cons hy hys => by
    rw [Snapshot.sameItems, hx.same hy, hxs.same hys]
    rfl

theorem ShowsFields.same {fs : List (Name × Literal)} {xs ys : List (String × Snapshot)} : ShowsFields fs xs →
    (∀ f ∈ fs, ∃ y, ys.lookup f.1.text = some y ∧ Shows f.2 y) → Snapshot.sameFields xs ys = true
  | .nil, _ => by rw [Snapshot.sameFields]
  | .cons key hx hxs, hy => by
    rw [forall_mem_cons] at hy
    obtain ⟨y, hlookup, hshows⟩ := hy.1
    rw [Snapshot.sameFields, hlookup, hxs.same hy.2, Bool.and_true]
    exact hx.same hshows

end

theorem Shows.equal {a b} : Shows l a → Shows l b → a.equal b = true
  | .null, .null => rfl
  | .bool c, .bool _ => beq_self_eq_true c
  | .whole _ ha _, .whole _ hb _ => ha.eq hb
  | .string t, .string _ => beq_self_eq_true (ofList t.letters)
  | .array ha, .array hb => ha.same hb
  | .object ha distinct, .object hb _ => by
    rw [Snapshot.equal, ha.length_eq, hb.length_eq, ha.same fun f hf => hb.lookup distinct hf, beq_self_eq_true]
    rfl

/-! ## Heaps that grow -/

namespace Heap

variable {h h' h'' : Heap}

/-- The second heap has all cells of the first one, with the same contents. -/
def Extends (h h' : Heap) : Prop := ∀ k i c, h.content? k i = some c → h'.content? k i = some c

theorem Extends.refl (h : Heap) : h.Extends h := fun _ _ _ hc => hc

theorem Extends.trans (h1 : h.Extends h') (h2 : h'.Extends h'') : h.Extends h'' :=
  fun k i c hc => h2 k i c (h1 k i c hc)

theorem Allocates.extends {c} (ha : h.Allocates c h') : h.Extends h' := by
  intro k i c' hc
  have hlt := lt_count_of_content? hc
  rwa [ha.content, if_neg (by omega)]

namespace Extends

theorem count_le (he : h.Extends h') (k : CellKind) : h.count k ≤ h'.count k := by
  refine Nat.le_of_not_lt fun hlt => ?_
  cases hc : h.content? k (h'.count k) with
  | none =>
    have hle := content?_eq_none.1 hc
    omega
  | some c => exact lt_irrefl _ (lt_count_of_content? (he _ _ _ hc))

theorem size_le (he : h.Extends h') : h.size ≤ h'.size := by
  have hs : h.scopes.size ≤ h'.scopes.size := he.count_le .scope
  have ha : h.arrays.size ≤ h'.arrays.size := he.count_le .array
  have hr : h.records.size ≤ h'.records.size := he.count_le .record
  have hc : h.closures.size ≤ h'.closures.size := he.count_le .closure
  have hk : h.classes.size ≤ h'.classes.size := he.count_le .cls
  have hn : h.enums.size ≤ h'.enums.size := he.count_le .enum
  unfold size
  omega

theorem scope (he : h.Extends h') {s : ScopeRef} {scope} (hs : h.scopes[s]? = some scope) :
    h'.scopes[s]? = some scope := by
  have hcontent := he .scope s (.scope scope) (by rw [content?, hs]; rfl)
  obtain ⟨scope', hs', heq⟩ := Option.map_eq_some_iff.1 hcontent
  cases heq
  exact hs'

theorem elements (he : h.Extends h') {ref} (hr : (Cell.array ref).IsIn h) : h'.elements ref = h.elements ref := by
  have hlt : ref < h.arrays.size := hr
  have hold := Array.getElem?_eq_getElem hlt
  have hcontent := he .array ref (.array h.arrays[ref]) (by rw [content?, hold]; rfl)
  obtain ⟨new, hnew, heq⟩ := Option.map_eq_some_iff.1 hcontent
  cases heq
  rw [Heap.elements, Heap.elements, hnew, hold]

/-- An object of the heap has the same fields and is frozen or not as it was. -/
theorem object (he : h.Extends h') {ref} (hr : (Cell.object ref).IsIn h) :
    h'.fields ref = h.fields ref ∧ h'.isFrozen ref = h.isFrozen ref := by
  cases ref with
  | record i =>
    have hlt : i < h.records.size := hr
    have hold := Array.getElem?_eq_getElem hlt
    have hcontent := he .record i (.record h.records[i]) (by rw [content?, hold]; rfl)
    obtain ⟨new, hnew, heq⟩ := Option.map_eq_some_iff.1 hcontent
    cases heq
    exact ⟨by rw [fields, fields, hnew, hold], by rw [isFrozen, isFrozen, hnew, hold]⟩
  | scope s =>
    have hlt : s < h.scopes.size := hr
    have hold := Array.getElem?_eq_getElem hlt
    exact ⟨by rw [fields, fields, he.scope hold, hold], rfl⟩

end Extends

end Heap

/-! ## Values that go on showing their literals -/

section

variable {h h' : Heap} {d d' : Nat} {above above' : List Cell} {v : Value} {l : Literal}

/-- What a value is that shows a literal: a scalar, which is its own snapshot everywhere, or an array or an object
that is not above. -/
theorem Shows.value_cases (hs : Shows l (h.snapshotFrom d above v)) :
    (∀ h' d' above', Heap.snapshotFrom h' d' above' v = h.snapshotFrom d above v) ∨
    (∃ ref ls depth, v = .array ref ∧ l = .array ls ∧ d = depth + 1 ∧ Cell.array ref ∉ above ∧
      ShowsItems ls ((h.elements ref).toList.map (h.snapshotFrom depth (.array ref :: above)))) ∨
    (∃ ref fs depth, v = .object ref ∧ l = .object fs ∧ d = depth + 1 ∧ Cell.object ref ∉ above ∧
      h.isFrozen ref = false ∧ (fs.map (·.1.text)).Nodup ∧
      ShowsFields fs ((h.fields ref).entries.map fun e => (e.1, h.snapshotFrom depth (.object ref :: above) e.2))) := by
  cases v with
  | null | bool | num | str | native | bare => exact .inl fun _ _ _ => by simp only [Heap.snapshotFrom]
  | func ref =>
    rw [Heap.snapshotFrom] at hs
    split at hs <;> cases hs
  | array ref =>
    cases d with
    | zero =>
      cases hs
    | succ depth =>
      rw [Heap.snapshotFrom] at hs
      split at hs
      · cases hs
      · next hnew =>
        cases hs with
        | array hs => exact .inr (.inl ⟨ref, _, depth, rfl, rfl, rfl, by simpa using hnew, hs⟩)
  | object ref =>
    cases d with
    | zero =>
      simp only [Heap.snapshotFrom] at hs
      cases hs
    | succ depth =>
      rw [Heap.snapshotFrom] at hs
      split at hs
      · cases hs
      · next hnew =>
        generalize hfrozen : h.isFrozen ref = frozen at hs
        cases hs with
        | object hs distinct =>
          exact .inr (.inr ⟨ref, _, depth, rfl, rfl, rfl, by simpa using hnew, hfrozen, distinct, hs⟩)
  | cls ref | enum ref =>
    cases d with
    | zero =>
      simp only [Heap.snapshotFrom] at hs
      cases hs
    | succ depth =>
      rw [Heap.snapshotFrom] at hs
      split at hs
      · split at hs <;> cases hs
      · cases hs

theorem ShowsItems.map {f g} : ∀ {ls : List Literal} {vs : List Value}, ShowsItems ls (vs.map f) →
    (∀ l ∈ ls, ∀ v, Shows l (f v) → Shows l (g v)) → ShowsItems ls (vs.map g)
  | [], [], _, _ => .nil
  | l :: _, v :: _, .cons hv hs, hfg => .cons (hfg l (.head _) v hv) (hs.map fun l hl => hfg l (.tail _ hl))

theorem ShowsFields.map {f g : Value → Snapshot} : ∀ {fs : List (Name × Literal)} {es : List (String × Value)},
    ShowsFields fs (es.map fun e => (e.1, f e.2)) → (∀ p ∈ fs, ∀ v, Shows p.2 (f v) → Shows p.2 (g v)) →
    ShowsFields fs (es.map fun e => (e.1, g e.2))
  | [], [], _, _ => .nil
  | p :: _, (_, v) :: _, hs, hfg => by
    cases hs with
    | cons key hv hs => exact .cons key (hfg (key, _) (.head _) v hv) (hs.map fun p hp => hfg p (.tail _ hp))

/-- A cell with contents is in the heap. -/
theorem isIn_of_items {ref f} (hls : ls ≠ [])
    (hs : ShowsItems ls ((h.elements ref).toList.map f)) : (Cell.array ref).IsIn h := by
  by_contra hno
  rw [Heap.elements_eq_empty hno] at hs
  cases hs
  exact hls rfl

theorem isIn_of_fields {ref f} (hfs : fs ≠ [])
    (hs : ShowsFields fs ((h.fields ref).entries.map f)) : (Cell.object ref).IsIn h := by
  by_contra hno
  rw [Heap.fields_eq_empty hno] at hs
  cases hs
  exact hfs rfl

/-- A value that shows a literal without empty parts does so in a larger heap, to a greater depth, and below other
cells unless these are old. -/
theorem Shows.mono (hl : l.empties = 0) (he : h.Extends h') (hd : d ≤ d')
    (habove : ∀ c ∈ above', c ∈ above ∨ ¬ c.IsIn h) (hs : Shows l (h.snapshotFrom d above v)) :
    Shows l (h'.snapshotFrom d' above' v) := by
  have habove_cons : ∀ {above above' : List Cell} (c : Cell), (∀ c ∈ above', c ∈ above ∨ ¬ c.IsIn h) →
      ∀ c' ∈ c :: above', c' ∈ c :: above ∨ ¬ c'.IsIn h := by
    intro above above' c hall c' hc'
    rcases mem_cons.1 hc' with rfl | hc'
    · exact .inl (.head _)
    · exact (hall c' hc').imp_left (mem_cons_of_mem c)
  induction l using Literal.induct generalizing d d' above above' v with
  | null | bool | whole | string =>
    obtain heq | ⟨_, _, _, _, hl, _⟩ | ⟨_, _, _, _, hl, _⟩ := hs.value_cases
    · rwa [heq h' d' above']
    · cases hl
    · cases hl
  | array ls ih =>
    obtain heq | ⟨ref, _, depth, rfl, hl', rfl, hnew, hitems⟩ | ⟨_, _, _, _, hl', _⟩ := hs.value_cases
    · rwa [heq h' d' above']
    · cases hl'
      obtain ⟨depth', rfl⟩ : ∃ depth', d' = depth' + 1 := ⟨d' - 1, by omega⟩
      have hls : ls ≠ [] := by
        rintro rfl
        cases hl
      have hin := isIn_of_items hls hitems
      have hnew' : .array ref ∉ above' := fun hmem => (habove _ hmem).elim hnew fun hno => hno hin
      rw [Heap.snapshotFrom, if_neg (by simpa using hnew'), he.elements hin]
      refine .array (hitems.map fun x hx w hw => ?_)
      exact ih x hx (Literal.empties_item hl hx) (by omega) (habove_cons _ habove) hw
    · cases hl'
  | object fs ih =>
    obtain heq | ⟨_, _, _, _, hl', _⟩ | ⟨ref, _, depth, rfl, hl', rfl, hnew, hfrozen, distinct, hfields⟩ :=
      hs.value_cases
    · rwa [heq h' d' above']
    · cases hl'
    · cases hl'
      obtain ⟨depth', rfl⟩ : ∃ depth', d' = depth' + 1 := ⟨d' - 1, by omega⟩
      have hfs : fs ≠ [] := by
        rintro rfl
        cases hl
      have hin := isIn_of_fields hfs hfields
      have hnew' : .object ref ∉ above' := fun hmem => (habove _ hmem).elim hnew fun hno => hno hin
      obtain ⟨hsame, hsameFrozen⟩ := he.object hin
      rw [Heap.snapshotFrom, if_neg (by simpa using hnew'), hsame, hsameFrozen, hfrozen]
      refine .object (hfields.map fun p hp w hw => ?_) distinct
      exact ih p hp (Literal.empties_field hl hp) (by omega) (habove_cons _ habove) hw

theorem Shows.extend (hl : l.empties = 0) (he : h.Extends h') (hs : Shows l (h.snapshot v)) : Shows l (h'.snapshot v) :=
  hs.mono hl he (Nat.succ_le_succ he.size_le) fun _ hc => .inl hc

end

end SmallScript.Machine
