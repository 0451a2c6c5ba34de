import SmallScript.Proofs.Machine.Literals
import SmallScript.Proofs.Syntax.Printed
import SmallScript.Evaluate.Basic

/-!
# The values of literals

The tree of a literal evaluates in a new global scope to a value that shows the literal, and the evaluation only adds
cells to the heap: `Evaluates.of_shows`.

Keys that occur twice in an object would leave one field; literals with such keys are shown by no snapshot, so the
statements are about literals that some snapshot shows.
-/

namespace SmallScript.Syntax.Node

variable {n : Node}

/-- The tree of a literal is there. -/
theorem isAbsent_of_literal {l : Literal} (h : n.bare = l.node) : n.isAbsent = false := by
  cases n with
  | absent =>
    cases l <;> (rw [Literal.node] at h; cases h)
  | _ => rfl

end SmallScript.Syntax.Node

namespace SmallScript.Machine.Heap

open Value (ScopeRef)
open Data (Table)

variable {h h' : Heap} {s : ScopeRef}

/-! ## New global scopes -/

/-- The scope is a global one, as it was made. -/
def IsNewGlobal (h : Heap) (s : ScopeRef) : Prop :=
  ∃ guarded, h.scopes[s]? = some ⟨none, ⟨globalEntries⟩, globalEntries.map (·.1), guarded⟩

theorem newGlobal_isNewGlobal (h : Heap) (guarded : Bool) :
    (h.newGlobal guarded).2.IsNewGlobal (h.newGlobal guarded).1 :=
  ⟨guarded, Array.getElem?_push_size⟩

theorem IsNewGlobal.extend (hg : h.IsNewGlobal s) (he : h.Extends h') : h'.IsNewGlobal s := by
  obtain ⟨guarded, hs⟩ := hg
  exact ⟨guarded, he.scope hs⟩

theorem IsNewGlobal.lookup (hg : h.IsNewGlobal s) {name v}
    (hv : globalEntries.lookup name = some v) : h.lookup s name = .ok v := by
  obtain ⟨guarded, hs⟩ := hg
  have hget : (⟨globalEntries⟩ : Table Value).get? name = some v := hv
  have hresolve : h.resolve? s name = some s := by
    rw [resolve?, hs]
    exact if_pos (by rw [Table.contains, hget]; rfl)
  have hlookup : h.lookup? s name = some v := by
    rw [lookup?, hresolve]
    show (h.scopes[s]?).bind _ = _
    rwa [hs]
  rw [Heap.lookup, hlookup]

end SmallScript.Machine.Heap

namespace SmallScript.Evaluate

open Machine Syntax
open Value (ScopeRef)
open Data (Table)
open Number (Numeric)

variable {m : Machine} {s : ScopeRef} {f : Nat} {l : Literal} {n : Node}

theorem eval_silent (f : Nat) (n : Node) (s : ScopeRef) : eval (f + 1) n s = evalNode f n s := by
  rw [eval]
  show (pure () >>= fun _ => evalNode f n s >>= fun v => pure () >>= fun _ => pure v) = _
  simp only [pure_bind, bind_pure]

/-- The action yields a value that shows the literal, and all it does is to add cells. -/
def Builds (a : Action Value) (m : Machine) (l : Literal) : Prop :=
  ∃ w h', a m = (.ok w, { m with heap := h' }) ∧ m.heap.Extends h' ∧ Shows l (h'.snapshot w)

theorem Builds.of_lookup (hg : m.heap.IsNewGlobal s) {name v}
    (hv : Heap.globalEntries.lookup name = some v) (hs : Shows l (m.heap.snapshot v)) :
    Builds (Action.consult (·.lookup s name)) m l := by
  refine ⟨v, m.heap, ?_, .refl _, hs⟩
  rw [Action.consult, hg.lookup hv]

theorem newNumber_extends (h : Heap) (x : Numeric) : h.Extends (h.newNumber x).2 := by
  unfold Heap.newNumber
  split
  · exact (Heap.nextStamp_allocates h).extends
  · exact .refl h

theorem Builds.number (k : Whole) {x} (hx : x.IsWhole k.value) : Builds (Action.number x) m (.whole k) := by
  refine ⟨(m.heap.newNumber x).1, (m.heap.newNumber x).2, rfl, newNumber_extends _ _, ?_⟩
  unfold Heap.newNumber
  split
  · exact .whole k hx _
  · exact .whole k hx _

theorem Builds.array {ls} (hl : ∀ l ∈ ls, l.empties = 0) {ws}
    (hs : ShowsItems ls (ws.map m.heap.snapshot)) : Builds (Action.array ws) m (.array ls) := by
  have halloc := Heap.newArray_allocates m.heap ws.toArray
  have hextends := halloc.extends
  have hsize : (m.heap.newArray ws.toArray).2.size = m.heap.size + 1 := by
    simp only [Heap.size, Heap.newArray, Array.size_push]
    omega
  have helements : (m.heap.newArray ws.toArray).2.elements m.heap.arrays.size = ws.toArray := by
    simp [Heap.elements, Heap.newArray]
  refine ⟨.array m.heap.arrays.size, (m.heap.newArray ws.toArray).2, rfl, hextends, ?_⟩
  rw [Heap.snapshot, Heap.snapshotFrom, helements]
  refine .array (hs.map fun l hmem w hw => ?_)
  refine hw.mono (hl l hmem) hextends (by omega) fun c hc => .inr ?_
  rw [List.mem_singleton.1 hc]
  exact lt_irrefl _

theorem Builds.object {fs} (hl : ∀ p ∈ fs, p.2.empties = 0) (distinct : (fs.map (·.1.text)).Nodup) {t}
    (hs : ShowsFields fs (t.entries.map fun e => (e.1, m.heap.snapshot e.2))) :
    Builds (Action.onHeap (·.newObject t false)) m (.object fs) := by
  have halloc := Heap.newObject_allocates m.heap t false
  have hextends := halloc.extends
  have hsize : (m.heap.newObject t false).2.size = m.heap.size + 1 := by
    simp only [Heap.size, Heap.newObject, Array.size_push]
    omega
  have hfields : (m.heap.newObject t false).2.fields (.record m.heap.records.size) = t := by
    simp [Heap.fields, Heap.newObject]
  have hfrozen : (m.heap.newObject t false).2.isFrozen (.record m.heap.records.size) = false := by
    simp [Heap.isFrozen, Heap.newObject]
  refine ⟨.object (.record m.heap.records.size), (m.heap.newObject t false).2, rfl, hextends, ?_⟩
  rw [Heap.snapshot, Heap.snapshotFrom, hfields, hfrozen]
  refine .object (hs.map fun p hmem w hw => ?_) distinct
  refine hw.mono (hl p hmem) hextends (by omega) fun c hc => .inr ?_
  rw [List.mem_singleton.1 hc]
  exact lt_irrefl _

/-! ## Evaluation -/

/-- The tree of the literal evaluates in a new global scope to a value that shows it. -/
def Evaluates (l : Literal) : Prop :=
  ∀ (n : Node) (m : Machine) (s : ScopeRef) (f : Nat), n.bare = l.node → m.heap.IsNewGlobal s → 4 * l.size ≤ f →
    Builds (eval f n s) m l

theorem evalAll_literals {ls} (hl : ∀ l ∈ ls, l.empties = 0) (ih : ∀ l ∈ ls, Evaluates l)
    {ns} (hns : bareList ns = itemNodes ls) (hg : m.heap.IsNewGlobal s) (hf : 4 * itemSize ls + 1 ≤ f) :
    ∃ ws h', evalAll f ns s m = (.ok ws, { m with heap := h' }) ∧ m.heap.Extends h' ∧
      ShowsItems ls (ws.map h'.snapshot) := by
  induction ls generalizing ns m f with
  | nil =>
    obtain ⟨g, rfl⟩ : ∃ g, f = g + 1 := ⟨f - 1, by omega⟩
    cases ns with
    | nil => exact ⟨[], m.heap, by rw [evalAll]; rfl, .refl _, .nil⟩
    | cons n ns => cases hns
  | cons l ls ihs =>
    cases ns with
    | nil => cases hns
    | cons n ns =>
      rw [List.forall_mem_cons] at hl ih
      rw [itemSize] at hf
      have hpos := l.size_pos
      obtain ⟨g, rfl⟩ : ∃ g, f = g + 1 := ⟨f - 1, by omega⟩
      obtain ⟨hn, hns⟩ := List.cons.inj hns
      obtain ⟨w, h1, heval, hext, hshows⟩ := ih.1 n m s g hn hg (by omega)
      obtain ⟨ws, h2, hmore, hext', hshowsMore⟩ :=
        ihs hl.2 ih.2 hns (m := { m with heap := h1 }) (hg.extend hext) (by omega : _ ≤ g)
      refine ⟨w :: ws, h2, ?_, hext.trans hext', .cons (hshows.extend hl.1 hext') hshowsMore⟩
      rw [evalAll, Action.bind_of_ok heval, Action.bind_of_ok hmore]
      rfl

theorem Table.insert_new {name} (v : Value) {es} (hnew : name ∉ es.map (·.1)) :
    (⟨es⟩ : Table Value).insert name v = ⟨es ++ [(name, v)]⟩ := by
  have hentries : Table.insertEntry name v es = es ++ [(name, v)] := by
    induction es with
    | nil => rfl
    | cons e es ih =>
      rw [List.map_cons, List.mem_cons, not_or] at hnew
      rw [Table.insertEntry, beq_eq_false_iff_ne.2 (symm hnew.1), ih hnew.2]
      rfl
  exact congrArg Table.mk hentries

theorem evalFields_literals (es : List (String × Value)) {fs} (hl : ∀ p ∈ fs, p.2.empties = 0)
    (ih : ∀ p ∈ fs, Evaluates p.2) (distinct : (fs.map (·.1.text)).Nodup) {ns}
    (hns : bareList ns = fieldNodes fs) (hg : m.heap.IsNewGlobal s) (hf : 4 * fieldSize fs + 1 ≤ f)
    (hnew : ∀ p ∈ fs, p.1.text ∉ es.map (·.1)) :
    ∃ es' h', evalFields f ⟨es⟩ ns s m = (.ok ⟨es ++ es'⟩, { m with heap := h' }) ∧ m.heap.Extends h' ∧
      ShowsFields fs (es'.map fun e => (e.1, h'.snapshot e.2)) := by
  induction fs generalizing ns m f es with
  | nil =>
    obtain ⟨g, rfl⟩ : ∃ g, f = g + 1 := ⟨f - 1, by omega⟩
    cases ns with
    | nil => exact ⟨[], m.heap, by rw [evalFields, List.append_nil]; rfl, .refl _, .nil⟩
    | cons n ns => cases hns
  | cons p fs ihs =>
    obtain ⟨key, l⟩ := p
    cases ns with
    | nil => cases hns
    | cons n ns =>
      rw [List.forall_mem_cons] at hl ih hnew
      rw [List.map_cons, List.nodup_cons] at distinct
      rw [fieldSize] at hf
      have hpos := l.size_pos
      obtain ⟨g, rfl⟩ : ∃ g, f = g + 1 := ⟨f - 1, by omega⟩
      obtain ⟨hn, hmoreNodes⟩ := List.cons.inj hns
      obtain ⟨pos, part, rfl, hpart⟩ := Node.bare_eq_property hn
      obtain ⟨w, h1, heval, hext, hshows⟩ := ih.1 part m s g hpart hg (by omega : 4 * l.size ≤ g)
      -- the names to come are neither the old ones nor this one
      have hnew' : ∀ p ∈ fs, p.1.text ∉ (es ++ [(key.text, w)]).map (·.1) := by
        intro p hp hmem
        rw [List.map_append, List.mem_append] at hmem
        rcases hmem with hmem | hmem
        · exact hnew.2 p hp hmem
        · rw [List.map_singleton, List.mem_singleton] at hmem
          exact distinct.1 (List.mem_map.2 ⟨p, hp, hmem⟩)
      obtain ⟨es', h2, hmore, hext', hshowsMore⟩ :=
        ihs (es ++ [(key.text, w)]) hl.2 ih.2 distinct.2 hmoreNodes (m := { m with heap := h1 }) (hg.extend hext)
          (by omega : _ ≤ g) hnew'
      refine ⟨(key.text, w) :: es', h2, ?_, hext.trans hext', .cons key (hshows.extend hl.1 hext') hshowsMore⟩
      rw [evalFields, Node.isAbsent_of_literal hpart, if_neg Bool.false_ne_true, Action.bind_of_ok heval]
      have hinsert : (⟨es⟩ : Table Value).insert key.text w = ⟨es ++ [(key.text, w)]⟩ := Table.insert_new w hnew.1
      show evalFields g ((⟨es⟩ : Table Value).insert key.text w) ns s _ = _
      rw [hinsert, hmore, List.append_assoc]
      rfl

theorem Evaluates.of_node (h : ∀ n m s g, n.bare = l.node →
    m.heap.IsNewGlobal s → 4 * l.size ≤ g + 2 → Builds (evalNode (g + 1) n s) m l) : Evaluates l := by
  intro n m s f hn hg hf
  have hpos := l.size_pos
  obtain ⟨g, rfl⟩ : ∃ g, f = g + 2 := ⟨f - 2, by omega⟩
  rw [eval_silent]
  exact h n m s g hn hg hf

theorem Evaluates.of_name {name : Name} {v} (hnode : l.node = .identifier .zero name.text)
    (hv : Heap.globalEntries.lookup name.text = some v) (hs : ∀ h : Heap, Shows l (h.snapshot v)) : Evaluates l := by
  refine .of_node fun n m s g hn hg _ => ?_
  rw [hnode] at hn
  obtain ⟨pos, rfl⟩ := Node.bare_eq_identifier hn
  rw [evalNode]
  exact .of_lookup hg hv (hs _)

/-- The tree of a literal without empty parts and without repeated keys evaluates to the literal. -/
theorem Evaluates.of_shows (hl : l.empties = 0) {a} (hs : Shows l a) : Evaluates l := by
  induction l using Literal.induct generalizing a with
  | null =>
    have hnode : Literal.null.node = .identifier .zero Name.null.text := by rw [Literal.node]
    exact .of_name hnode (v := .null) (by decide) fun _ => .null
  | bool b =>
    have hnode : (Literal.bool b).node = .identifier .zero (Name.ofBool b).text := by rw [Literal.node]
    exact .of_name hnode (v := .bool b) (by cases b <;> decide) fun _ => .bool b
  | whole k =>
    refine .of_node fun n m s g hn _ _ => ?_
    obtain ⟨pos, rfl⟩ := Node.bare_eq_number hn
    rw [evalNode]
    exact .number k k.float_isWhole
  | string t =>
    refine .of_node fun n m s g hn _ _ => ?_
    rw [Literal.node] at hn
    obtain ⟨pos, rfl⟩ := Node.bare_eq_string hn
    rw [evalNode]
    exact ⟨_, m.heap, rfl, .refl _, .string t⟩
  | array ls ih =>
    have hitems : ∀ x ∈ ls, x.empties = 0 := fun x hx => Literal.empties_item hl hx
    have heach : ∀ x ∈ ls, Evaluates x := by
      cases hs with
      | array hs =>
        intro x hx
        obtain ⟨b, hb⟩ := hs.exists_shows hx
        exact ih x hx (hitems x hx) hb
    refine .of_node fun n m s g hn hg hf => ?_
    rw [Literal.node] at hn
    rw [Literal.size] at hf
    obtain ⟨pos, ns, rfl, hns⟩ := Node.bare_eq_array hn
    obtain ⟨ws, h1, hall, hext, hshows⟩ := evalAll_literals hitems heach hns hg (by omega : _ ≤ g)
    obtain ⟨w, h2, harray, hext', hshowsAll⟩ := Builds.array (m := { m with heap := h1 }) hitems hshows
    refine ⟨w, h2, ?_, hext.trans hext', hshowsAll⟩
    rw [evalNode]
    exact (Action.bind_of_ok hall _).trans harray
  | object fs ih =>
    cases hs with
    | object hs distinct =>
      have hfields : ∀ p ∈ fs, p.2.empties = 0 := fun p hp => Literal.empties_field hl hp
      have heach : ∀ p ∈ fs, Evaluates p.2 := by
        intro p hp
        obtain ⟨b, -, hb⟩ := hs.lookup distinct hp
        exact ih p hp (hfields p hp) hb
      refine .of_node fun n m s g hn hg hf => ?_
      rw [Literal.node] at hn
      rw [Literal.size] at hf
      obtain ⟨pos, ns, rfl, hns⟩ := Node.bare_eq_object hn
      obtain ⟨es, h1, hall, hext, hshows⟩ :=
        evalFields_literals [] hfields heach distinct hns hg (by omega : _ ≤ g) fun _ _ => List.not_mem_nil
      obtain ⟨w, h2, hobject, hext', hshowsAll⟩ := Builds.object (m := { m with heap := h1 }) hfields distinct hshows
      refine ⟨w, h2, ?_, hext.trans hext', hshowsAll⟩
      rw [evalNode]
      exact (Action.bind_of_ok hall _).trans hobject

end SmallScript.Evaluate
