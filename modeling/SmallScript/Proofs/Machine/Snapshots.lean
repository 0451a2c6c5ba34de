import SmallScript.Proofs.Machine.Simulation
import Mathlib.Data.List.Nodup
import Mathlib.Data.List.Perm.Subperm

/-!
# Snapshots of linked values

Linked values have linked snapshots: trees of the same shape that differ only in the names of scopes and
stamps. So they are displayed and inspected alike, are the same documents, and two of them are equal on
one side exactly if they are on the other.

The depth of a snapshot is bounded by the number of cells, which differs between the two sides.
`Heap.snapshotFrom_eq_snapshot` says that the bound makes no difference: a way down that repeats no cell
is no longer than there are cells.
-/

namespace SmallScript.Machine

open List
open Value (ScopeRef ObjectRef Native)
open Syntax (Node)
open Number (Numeric)

variable {c d : Cell} {v v' : Value} {above : List Cell} {xs ys : List (String × Snapshot)}

/-! ## The bound on the depth -/

namespace Cell

def kind : Cell → CellKind
  | .array _ => .array
  | .object (.record _) => .record
  | .object (.scope _) => .scope
  | .cls _ => .cls
  | .enum _ => .enum

/-- The place of a cell among those of its kind. -/
def index : Cell → Nat
  | .array i | .object (.record i) | .object (.scope i) | .cls i | .enum i => i

def IsIn (h : Heap) (c : Cell) : Prop := c.index < h.count c.kind

/-- The number of cells of the kinds that come before a kind. -/
def before (h : Heap) : CellKind → Nat
  | .record => h.count .array
  | .scope => h.count .array + h.count .record
  | .cls => h.count .array + h.count .record + h.count .scope
  | .enum => h.count .array + h.count .record + h.count .scope + h.count .cls
  | _ => 0

/-- A number for every cell of a heap. -/
def code (h : Heap) (c : Cell) : Nat := before h c.kind + c.index

theorem code_lt {h : Heap} (hc : c.IsIn h) : c.code h < h.size := by
  unfold Heap.size
  rcases c with r | ⟨i | s⟩ | r | r <;> simp only [IsIn, kind, index, Heap.count] at hc <;>
    simp only [code, before, kind, index, Heap.count] <;> omega

theorem eq_of_kind_eq (hk : c.kind = d.kind) (hi : c.index = d.index) : c = d := by
  rcases c with r | ⟨i | s⟩ | r | r <;> rcases d with r' | ⟨i' | s'⟩ | r' | r' <;> cases hk <;> cases hi <;> rfl

theorem code_inj {h : Heap} (hc : c.IsIn h) (hd : d.IsIn h) (he : c.code h = d.code h) : c = d := by
  have hk : c.kind = d.kind := by
    unfold IsIn at hc hd
    unfold code at he
    rcases c with r | ⟨i | s⟩ | r | r <;> rcases d with r' | ⟨i' | s'⟩ | r' | r' <;>
      simp only [kind, before] at * <;> omega
  refine eq_of_kind_eq hk ?_
  unfold code at he
  rw [hk] at he
  omega

end Cell

namespace Heap

variable {h : Heap}

/-- A way that repeats no cell is no longer than there are cells. -/
theorem length_le_size (hn : above.Nodup) (hi : ∀ c ∈ above, c.IsIn h) : above.length ≤ h.size := by
  have hnodup : (above.map (Cell.code h)).Nodup :=
    List.Nodup.map_on (fun c hc d hd he => Cell.code_inj (hi c hc) (hi d hd) he) hn
  have hsub : above.map (Cell.code h) ⊆ List.range h.size := by
    intro n hmem
    obtain ⟨c, hc, rfl⟩ := List.mem_map.1 hmem
    exact List.mem_range.2 (Cell.code_lt (hi c hc))
  simpa using (subperm_of_subset hnodup hsub).length_le

theorem elements_eq_empty {ref : Nat} (hr : ¬ (Cell.array ref).IsIn h) : h.elements ref = #[] := by
  have hle : h.arrays.size ≤ ref := Nat.le_of_not_lt hr
  simp only [elements, Array.getElem?_eq_none hle, Option.getD_none]

theorem fields_eq_empty {ref : ObjectRef} (hr : ¬ (Cell.object ref).IsIn h) : h.fields ref = .empty := by
  cases ref with
  | record i =>
    have hle : h.records.size ≤ i := Nat.le_of_not_lt hr
    simp only [fields, Array.getElem?_eq_none hle, Option.map_none, Option.getD_none]
  | scope s =>
    have hle : h.scopes.size ≤ s := Nat.le_of_not_lt hr
    simp only [fields, Array.getElem?_eq_none hle, Option.map_none, Option.getD_none]

/-- One more level makes no difference where the way down cannot get longer. -/
theorem snapshotFrom_succ (depth : Nat) (hn : above.Nodup)
    (hi : ∀ c ∈ above, c.IsIn h) (hd : h.size < depth + above.length) (v : Value) :
    h.snapshotFrom (depth + 1) above v = h.snapshotFrom depth above v := by
  induction depth generalizing above v with
  | zero =>
    have := length_le_size hn hi
    omega
  | succ depth ih =>
    -- the way down goes on through a cell that is there and not yet on it
    have below : ∀ c : Cell, c.IsIn h → above.contains c = false →
        h.snapshotFrom (depth + 1) (c :: above) = h.snapshotFrom depth (c :: above) := by
      intro c hc hnew
      have hmem : c ∉ above := by simpa using hnew
      funext w
      refine ih (List.nodup_cons.2 ⟨hmem, hn⟩) ?_ (by simp only [length_cons]; omega) w
      intro d hd
      rcases List.mem_cons.1 hd with rfl | hd
      · exact hc
      · exact hi d hd
    cases v with
    | array ref =>
      simp only [snapshotFrom]
      cases hnew : above.contains (Cell.array ref) with
      | true => rfl
      | false =>
        by_cases hr : (Cell.array ref).IsIn h
        · simp only [below (.array ref) hr hnew]
        · simp only [elements_eq_empty hr, map_nil]
    | object ref =>
      simp only [snapshotFrom]
      cases hnew : above.contains (Cell.object ref) with
      | true => rfl
      | false =>
        by_cases hr : (Cell.object ref).IsIn h
        · simp only [below (.object ref) hr hnew]
        · simp only [fields_eq_empty hr, Data.Table.empty, map_nil]
    | cls ref =>
      simp only [snapshotFrom]
      cases hc : h.classes[ref]? with
      | none => rfl
      | some c =>
        cases hnew : above.contains (Cell.cls ref) with
        | true => rfl
        | false => simp only [below (.cls ref) (Array.getElem?_eq_some_iff.1 hc).1 hnew]
    | enum ref =>
      simp only [snapshotFrom]
      cases hc : h.enums[ref]? with
      | none => rfl
      | some c =>
        cases hnew : above.contains (Cell.enum ref) with
        | true => rfl
        | false => simp only [below (.enum ref) (Array.getElem?_eq_some_iff.1 hc).1 hnew]
    | null | bool | num | str | native | bare | func => simp only [snapshotFrom]

/-- Any bound above the number of cells gives the snapshot. -/
theorem snapshotFrom_eq_snapshot {depth : Nat} (hd : h.size < depth) (v : Value) :
    h.snapshotFrom depth [] v = h.snapshot v := by
  induction depth, hd using Nat.le_induction with
  | base => rfl
  | succ depth hd ih =>
    rw [← ih]
    exact snapshotFrom_succ depth nodup_nil (fun _ hc => nomatch hc) hd v

end Heap

/-! ## Linked snapshots -/

mutual

/-- Snapshots that differ only in the names of scopes and stamps. -/
inductive SnapshotLink (ρ : Link) : Snapshot → Snapshot → Prop where
  | null : SnapshotLink ρ .null .null
  | bool (b : Bool) : SnapshotLink ρ (.bool b) (.bool b)
  | num (n : Numeric) {s t : Nat} (h : ρ .stamp s t) : SnapshotLink ρ (.num n s) (.num n t)
  | str (s : String) : SnapshotLink ρ (.str s) (.str s)
  | array {xs ys : List Snapshot} (h : ItemsLink ρ xs ys) : SnapshotLink ρ (.array xs) (.array ys)
  | object {xs ys : List (String × Snapshot)} (h : MembersLink ρ xs ys) (frozen : Bool) :
    SnapshotLink ρ (.object xs frozen) (.object ys frozen)
  | func (name : String) (params : List String) {s t : ScopeRef} (h : ρ .scope s t) (body : List Node) :
    SnapshotLink ρ (.func name params s body) (.func name params t body)
  | native (f : Native) : SnapshotLink ρ (.native f) (.native f)
  | cls (name : String) {xs ys : List (String × Snapshot)} (h : MembersLink ρ xs ys)
      (params : Option (List String)) : SnapshotLink ρ (.cls name xs params) (.cls name ys params)
  | enum (name : String) {xs ys : List (String × Snapshot)} (h : MembersLink ρ xs ys) :
    SnapshotLink ρ (.enum name xs) (.enum name ys)
  | bare : SnapshotLink ρ .bare .bare
  | cycle : SnapshotLink ρ .cycle .cycle

/-- Lists of such snapshots. -/
inductive ItemsLink (ρ : Link) : List Snapshot → List Snapshot → Prop where
  | nil : ItemsLink ρ [] []
  | cons {x y : Snapshot} {xs ys : List Snapshot} (h : SnapshotLink ρ x y) (hs : ItemsLink ρ xs ys) :
    ItemsLink ρ (x :: xs) (y :: ys)

/-- Lists of such snapshots under the same names. -/
inductive MembersLink (ρ : Link) : List (String × Snapshot) → List (String × Snapshot) → Prop where
  | nil : MembersLink ρ [] []
  | cons (name : String) {x y : Snapshot} {xs ys : List (String × Snapshot)} (h : SnapshotLink ρ x y)
      (hs : MembersLink ρ xs ys) : MembersLink ρ ((name, x) :: xs) ((name, y) :: ys)

end

variable {ρ : Link}

theorem ItemsLink.map {vs vs' : List Value} (h : ValuesLink ρ vs vs') {f g : Value → Snapshot}
    (hfg : ∀ v v', ValueLink ρ v v' → SnapshotLink ρ (f v) (g v')) :
    ItemsLink ρ (vs.map f) (vs'.map g) := by
  induction h with
  | nil => exact .nil
  | cons hv _ ih => exact .cons (hfg _ _ hv) ih

theorem MembersLink.map {es es' : List (String × Value)} (h : EntriesLink ρ es es')
    {f g : Value → Snapshot} (hfg : ∀ v v', ValueLink ρ v v' → SnapshotLink ρ (f v) (g v')) :
    MembersLink ρ (es.map fun e => (e.1, f e.2)) (es'.map fun e => (e.1, g e.2)) := by
  induction h with
  | nil => exact .nil
  | @cons e e' _ _ he _ ih =>
    obtain ⟨name, v⟩ := e
    obtain ⟨name', v'⟩ := e'
    obtain ⟨rfl, hv⟩ : name = name' ∧ ValueLink ρ v v' := he
    exact .cons name (hfg _ _ hv) ih

theorem MembersLink.names_eq {xs ys : List (String × Snapshot)} : MembersLink ρ xs ys → xs.map (·.1) = ys.map (·.1)
  | .nil => rfl
  | .cons _ _ hs => by simp only [map_cons, hs.names_eq]

theorem MembersLink.length_eq (h : MembersLink ρ xs ys) : xs.length = ys.length := by
  simpa using congrArg length h.names_eq

theorem MembersLink.lookup {xs ys : List (String × Snapshot)} (name : String) : MembersLink ρ xs ys →
    Option.Rel (SnapshotLink ρ) (xs.lookup name) (ys.lookup name)
  | .nil => .none
  | .cons k h hs => by
    simp only [lookup_cons]
    split
    · exact .some h
    · exact hs.lookup name

/-! ## Snapshots of linked values are linked -/

/-- Linked cells on the two ways down. -/
structure CellLink (ρ : Link) (c c' : Cell) : Prop where
  kind : c.kind = c'.kind
  index : ρ c.kind c.index c'.index

theorem CellLink.object {r r' : ObjectRef} (h : RefLink ρ r r') : CellLink ρ (.object r) (.object r') := by
  cases h with
  | record h | scope h => exact ⟨rfl, h⟩

namespace Bridge

variable {β : Base} {b : Bridge β}

theorem cell_inj {c' d' : Cell} (hc : CellLink b.link c c') (hd : CellLink b.link d d') : c = d ↔ c' = d' := by
  constructor
  · rintro rfl
    exact Cell.eq_of_kind_eq (hc.kind.symm.trans hd.kind) ((b.link_inj hc.index hd.index).1 rfl)
  · rintro rfl
    have hk := hc.kind.trans hd.kind.symm
    exact Cell.eq_of_kind_eq hk ((b.link_inj (hk ▸ hc.index) hd.index).2 rfl)

theorem contains_eq {above' : List Cell} (ha : List.Forall₂ (CellLink b.link) above above')
    {c' : Cell} (hc : CellLink b.link c c') : above.contains c = above'.contains c' := by
  induction ha with
  | nil => rfl
  | cons hd _ ih =>
    rw [contains_cons, contains_cons, ih]
    congr 1
    rw [Bool.eq_iff_iff, beq_iff_eq, beq_iff_eq]
    exact cell_inj hc hd

/-- A value that a snapshot does not look into. -/
def isLeaf : Value → Bool
  | .array _ | .object _ | .cls _ | .enum _ => false
  | _ => true

theorem snapshotFrom_leaf (depth : Nat) (above above' : List Cell) (hv : ValueLink b.link v v')
    (hleaf : isLeaf v = true) :
    SnapshotLink b.link (b.left.heap.snapshotFrom depth above v)
      (b.right.heap.snapshotFrom depth above' v') := by
  cases hv with
  | func h =>
    obtain ⟨c, c', hc, hc', hl⟩ := closures_link h
    cases hl with
    | closure name params scope body =>
      simp only [Heap.snapshotFrom, hc, hc', name, params, body]
      exact .func _ _ scope _
  | num n h => simpa only [Heap.snapshotFrom] using .num n h
  | null | bool | str | native | bare =>
    simp only [Heap.snapshotFrom]
    constructor
  | array | object | cls | enum => cases hleaf

/-- At the same depth and below linked cells, linked values have linked snapshots. -/
theorem snapshotFrom_link (depth : Nat) {above' : List Cell}
    (ha : List.Forall₂ (CellLink b.link) above above') (hv : ValueLink b.link v v') :
    SnapshotLink b.link (b.left.heap.snapshotFrom depth above v)
      (b.right.heap.snapshotFrom depth above' v') := by
  induction depth generalizing above above' v v' with
  | zero =>
    have leaf := snapshotFrom_leaf 0 above above' hv
    cases hv with
    | array | object | cls | enum => simpa only [Heap.snapshotFrom] using .cycle
    | _ => exact leaf rfl
  | succ depth ih =>
    have leaf := snapshotFrom_leaf (depth + 1) above above' hv
    cases hv with
    | @array i j h =>
      have hc : CellLink b.link (.array i) (.array j) := ⟨rfl, h⟩
      simp only [Heap.snapshotFrom, contains_eq ha hc]
      split
      · exact .cycle
      · exact .array (.map (elements_link h) fun _ _ hw => ih (.cons hc ha) hw)
    | object h =>
      simp only [Heap.snapshotFrom, contains_eq ha (.object h), isFrozen_eq h]
      split
      · exact .cycle
      · exact .object (.map (fields_link h) fun _ _ hw => ih (.cons (.object h) ha) hw) _
    | @cls i j h =>
      have hcell : CellLink b.link (.cls i) (.cls j) := ⟨rfl, h⟩
      obtain ⟨c, c', hc, hc', hl⟩ := classes_link h
      cases hl with
      | cls name members params =>
        simp only [Heap.snapshotFrom, hc, hc', contains_eq ha hcell, name, params]
        split
        · exact .cycle
        · exact .cls _ (.map members fun _ _ hw => ih (.cons hcell ha) hw) _
    | @enum i j h =>
      have hcell : CellLink b.link (.enum i) (.enum j) := ⟨rfl, h⟩
      obtain ⟨c, c', hc, hc', hl⟩ := enums_link h
      cases hl with
      | enum name members =>
        simp only [Heap.snapshotFrom, hc, hc', contains_eq ha hcell, name]
        split
        · exact .cycle
        · exact .enum _ (.map members fun _ _ hw => ih (.cons hcell ha) hw)
    | _ => exact leaf rfl

theorem snapshot_link (hv : ValueLink b.link v v') :
    SnapshotLink b.link (b.left.heap.snapshot v) (b.right.heap.snapshot v') := by
  -- one depth that is enough on both sides
  have hl : b.left.heap.size < b.left.heap.size + b.right.heap.size + 1 := by omega
  have hr : b.right.heap.size < b.left.heap.size + b.right.heap.size + 1 := by omega
  rw [← Heap.snapshotFrom_eq_snapshot hl v, ← Heap.snapshotFrom_eq_snapshot hr v']
  exact snapshotFrom_link _ .nil hv

end Bridge

/-! ## What snapshots are used for -/

namespace Snapshot

mutual

theorem display_eq (inside : Bool) {s t : Snapshot} : SnapshotLink ρ s t → s.display inside = t.display inside
  | .array h => by simp only [display, displayItems_eq h]
  | .object h _ | .cls _ h _ => by simp only [display, displayFields_eq h]
  | .enum _ h => by simp only [display, h.names_eq]
  | .num .. | .func .. => by simp only [display]
  | .null | .bool _ | .str _ | .native _ | .bare | .cycle => rfl

theorem displayItems_eq {xs ys : List Snapshot} : ItemsLink ρ xs ys → displayItems xs = displayItems ys
  | .nil => rfl
  | .cons h hs => by simp only [displayItems, display_eq true h, displayItems_eq hs]

theorem displayFields_eq {xs ys : List (String × Snapshot)} : MembersLink ρ xs ys → displayFields xs = displayFields ys
  | .nil => rfl
  | .cons _ h hs => by simp only [displayFields, display_eq true h, displayFields_eq hs]

end

mutual

theorem datum_eq {s t : Snapshot} : SnapshotLink ρ s t → s.datum = t.datum
  | .array h => by simp only [datum, data_eq h]
  | .object h _ | .cls _ h _ | .enum _ h => by simp only [datum, entryData_eq h]
  | .num .. | .func .. => by simp only [datum]
  | .null | .bool _ | .str _ | .native _ | .bare | .cycle => rfl

theorem data_eq {xs ys : List Snapshot} : ItemsLink ρ xs ys → data xs = data ys
  | .nil => rfl
  | .cons h hs => by simp only [data, datum_eq h, data_eq hs]

theorem entryData_eq {xs ys : List (String × Snapshot)} : MembersLink ρ xs ys → entryData xs = entryData ys
  | .nil => rfl
  | .cons _ h hs => by simp only [entryData, datum_eq h, entryData_eq hs]

end

theorem beq_eq (hρ : Link.IsInjective ρ) {k : CellKind} {i j i' j' : Nat} (h : ρ k i j) (h' : ρ k i' j') :
    (i == i') = (j == j') := by
  rw [Bool.eq_iff_iff, beq_iff_eq, beq_iff_eq]
  exact hρ h h'

mutual

theorem same_eq (hρ : Link.IsInjective ρ) {s t s' t' : Snapshot} : SnapshotLink ρ s t → SnapshotLink ρ s' t' →
    s.same s' = t.same t'
  | .array h, h' => by
    cases h' with
    | array h' => simp only [same, sameItems_eq hρ h h']
    | _ => simp only [same]
  | .object h _, h' => by
    cases h' with
    | object h' => simp only [same, sameFields_eq hρ h h', h.length_eq, h'.length_eq]
    | _ => simp only [same]
  | .cls _ h _, h' => by
    cases h' with
    | cls _ h' => simp only [same, sameFields_eq hρ h h', h.length_eq, h'.length_eq]
    | _ => simp only [same]
  | .enum _ h, h' => by
    cases h' with
    | enum _ h' => simp only [same, sameFields_eq hρ h h', h.length_eq, h'.length_eq]
    | _ => simp only [same]
  | .num _ h, h' => by
    cases h' with
    | num _ h' => simp only [same, sameNumber, beq_eq hρ h h']
    | _ => simp only [same]
  | .func _ _ h _, h' => by
    cases h' with
    | func _ _ h' => simp only [same, beq_eq hρ h h']
    | _ => simp only [same]
  | .null, h' | .bool _, h' | .str _, h' | .native _, h' | .bare, h' | .cycle, h' => by cases h' <;> simp only [same]

theorem sameItems_eq (hρ : Link.IsInjective ρ) {xs ys xs' ys' : List Snapshot} : ItemsLink ρ xs ys → ItemsLink ρ xs' ys' →
    sameItems xs xs' = sameItems ys ys'
  | .nil, .nil | .nil, .cons .. | .cons .., .nil => by simp only [sameItems]
  | .cons h hs, .cons h' hs' => by simp only [sameItems, same_eq hρ h h', sameItems_eq hρ hs hs']

theorem sameFields_eq (hρ : Link.IsInjective ρ) {xs ys xs' ys' : List (String × Snapshot)} : MembersLink ρ xs ys →
    MembersLink ρ xs' ys' → sameFields xs xs' = sameFields ys ys'
  | .nil, _ => by simp only [sameFields]
  | .cons name h hs, h' => by
    simp only [sameFields, sameFields_eq hρ hs h']
    have hl := h'.lookup name
    generalize xs'.lookup name = o, ys'.lookup name = o' at hl
    cases hl with
    | none => rfl
    | some hy => simp only [same_eq hρ h hy]

end

theorem equal_eq (hρ : Link.IsInjective ρ) {s t s' t' : Snapshot} (h : SnapshotLink ρ s t)
    (h' : SnapshotLink ρ s' t') : s.equal s' = t.equal t' := by
  have hs := same_eq hρ h h'
  cases h with
  | array h =>
    cases h' with
    | array h' => simpa only [equal, same] using hs
    | _ => simp only [equal, scalarsEqual]
  | object h =>
    cases h' with
    | object h' => simp only [equal, h.length_eq, h'.length_eq, sameFields_eq hρ h h']
    | _ => simp only [equal, scalarsEqual]
  | func =>
    cases h' with
    | func => simpa only [equal] using hs
    | _ => simp only [equal, scalarsEqual]
  | _ => cases h' <;> simp only [equal, scalarsEqual]

end Snapshot

namespace Sim

variable {β : Base} {b : Bridge β}

theorem display (hv : ValueLink b.link v v') : Sim b Same (Action.display v) (Action.display v') := by
  refine Sim.heap ?_
  rw [Snapshot.display_eq false (Bridge.snapshot_link hv)]
  exact Sim.ofNumber

theorem inspect (hv : ValueLink b.link v v') : Sim b Same (Action.inspect v) (Action.inspect v') := by
  refine Sim.heap ?_
  rw [Snapshot.datum_eq (Bridge.snapshot_link hv)]
  exact Sim.ofNumber

theorem inspectAll {vs vs' : List Value} (hv : ValuesLink b.link vs vs') :
    Sim b Same (Action.inspectAll vs) (Action.inspectAll vs') := by
  refine Sim.heap ?_
  have hd : (vs.map fun v => (b.left.heap.snapshot v).datum) =
      vs'.map fun v => (b.right.heap.snapshot v).datum := by
    induction hv with
    | nil => rfl
    | cons h _ ih => simp only [map_cons, ih, Snapshot.datum_eq (Bridge.snapshot_link h)]
  rw [hd]
  exact Sim.ofNumber

end Sim

end SmallScript.Machine
