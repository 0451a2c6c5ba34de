import SmallScript.Machine.Scoping

/-!
# The heap as a map of cells

A heap is a map from references, each a kind and an index, to contents. `Heap.count` and
`Heap.content?` give this view; `Heap.ext_of_content?` says that it loses nothing.

Programs change a heap in two ways only: `Heap.Allocates` adds a cell behind the others of its kind,
`Heap.Updates` gives a cell new contents and leaves all others alone. One lemma for each operation on
heaps says which of the two it is.
-/

namespace SmallScript.Machine

open Array
open Value (ScopeRef ObjectRef)
open Data (Table)
open Number (Numeric)

/-- The kinds of cell. A stamp is a cell without contents. -/
inductive CellKind where
  | scope | array | record | closure | cls | enum | stamp
deriving DecidableEq, Repr

/-- What a cell holds. -/
inductive Content where
  | scope (s : Scope)
  | array (elements : Array Value)
  | record (r : Record)
  | closure (c : Closure)
  | cls (c : ClassDef)
  | enum (e : EnumDef)
  | stamp

def Content.kind : Content → CellKind
  | .scope _ => .scope
  | .array _ => .array
  | .record _ => .record
  | .closure _ => .closure
  | .cls _ => .cls
  | .enum _ => .enum
  | .stamp => .stamp

namespace Heap

variable {h h' : Heap}

/-- The number of cells of a kind. -/
def count (h : Heap) : CellKind → Nat
  | .scope => h.scopes.size
  | .array => h.arrays.size
  | .record => h.records.size
  | .closure => h.closures.size
  | .cls => h.classes.size
  | .enum => h.enums.size
  | .stamp => h.nextStamp

def content? (h : Heap) : CellKind → Nat → Option Content
  | .scope, i => h.scopes[i]?.map .scope
  | .array, i => h.arrays[i]?.map .array
  | .record, i => h.records[i]?.map .record
  | .closure, i => h.closures[i]?.map .closure
  | .cls, i => h.classes[i]?.map .cls
  | .enum, i => h.enums[i]?.map .enum
  | .stamp, i => if i < h.nextStamp then some .stamp else none

theorem content?_eq_none {k i} : h.content? k i = none ↔ h.count k ≤ i := by
  cases k <;> simp [content?, count]

theorem lt_count_of_content? {k i c} (hc : h.content? k i = some c) : i < h.count k := by
  refine Nat.lt_of_not_le fun hle => ?_
  rw [content?_eq_none.2 hle] at hc
  cases hc

theorem ext_of_content? {h H : Heap} (hc : ∀ k, h.count k = H.count k)
    (he : ∀ k i, h.content? k i = H.content? k i) : h = H := by
  have inj {α : Type} {f : α → Content} {a b : Array α} (hf : Function.Injective f)
      (hab : ∀ i, a[i]?.map f = b[i]?.map f) : a = b :=
    ext_getElem? fun i => Option.map_injective hf (hab i)
  obtain ⟨s, a, r, c, k, e, n⟩ := h
  obtain ⟨s', a', r', c', k', e', n'⟩ := H
  have hs : s = s' := inj (fun _ _ h => Content.scope.inj h) (he .scope)
  have ha : a = a' := inj (fun _ _ h => Content.array.inj h) (he .array)
  have hr : r = r' := inj (fun _ _ h => Content.record.inj h) (he .record)
  have hcl : c = c' := inj (fun _ _ h => Content.closure.inj h) (he .closure)
  have hk : k = k' := inj (fun _ _ h => Content.cls.inj h) (he .cls)
  have hen : e = e' := inj (fun _ _ h => Content.enum.inj h) (he .enum)
  have hn : n = n' := hc .stamp
  subst hs ha hr hcl hk hen hn
  rfl

/-! ## The two kinds of change -/

/-- The second heap has one more cell, with these contents. -/
structure Allocates (h : Heap) (c : Content) (h' : Heap) : Prop where
  count : ∀ k, h'.count k = h.count k + if k = c.kind then 1 else 0
  content : ∀ k i, h'.content? k i = if k = c.kind ∧ i = h.count k then some c else h.content? k i

/-- The second heap has these contents in one cell and is like the first one elsewhere. -/
structure Updates (h : Heap) (k : CellKind) (i : Nat) (c : Content) (h' : Heap) : Prop where
  count : ∀ k', h'.count k' = h.count k'
  content : ∀ k' j, h'.content? k' j = if k' = k ∧ j = i then some c else h.content? k' j

theorem map_getElem?_push {α : Type} (f : α → Content) (a : Array α) (x : α) (i : Nat) :
    (a.push x)[i]?.map f = if i = a.size then some (f x) else a[i]?.map f := by
  rw [getElem?_push]
  split <;> rfl

theorem map_getElem?_modify {α : Type} (f : α → Content) {a : Array α} {i x}
    (hx : a[i]? = some x) (g : α → α) (j : Nat) :
    (a.modify i g)[j]?.map f = if j = i then some (f (g x)) else a[j]?.map f := by
  rw [getElem?_modify]
  by_cases e : i = j
  · subst e; simp [hx]
  · simp [e, Ne.symm e]

theorem ite_lt_succ (n i : Nat) : (if i < n + 1 then some Content.stamp else none) =
    if i = n then some .stamp else if i < n then some .stamp else none := by
  rcases Nat.lt_trichotomy i n with lt | rfl | gt
  · rw [if_pos (by omega), if_neg (by omega), if_pos lt]
  · rw [if_pos (by omega), if_pos rfl]
  · rw [if_neg (by omega), if_neg (by omega), if_neg (by omega)]

/-- The heap with one more cell. -/
def add (h : Heap) : Content → Heap
  | .scope s => { h with scopes := h.scopes.push s }
  | .array elements => { h with arrays := h.arrays.push elements }
  | .record r => { h with records := h.records.push r }
  | .closure c => { h with closures := h.closures.push c }
  | .cls c => { h with classes := h.classes.push c }
  | .enum e => { h with enums := h.enums.push e }
  | .stamp => { h with nextStamp := h.nextStamp + 1 }

theorem add_allocates (h : Heap) (c : Content) : h.Allocates c (h.add c) := by
  constructor
  · intro k
    cases c <;> cases k <;> simp [count, add, Content.kind]
  · intro k i
    cases c <;> cases k <;> simp only [Content.kind, true_and]
    case stamp.stamp => exact ite_lt_succ _ _
    case scope.scope | array.array | record.record | closure.closure | cls.cls | enum.enum =>
      exact map_getElem?_push _ _ _ _
    all_goals rfl

theorem newArray_allocates (h : Heap) (elements : Array Value) : h.Allocates (.array elements) (h.newArray elements).2 :=
  h.add_allocates (.array elements)

theorem newObject_allocates (h : Heap) (fields : Table Value) (frozen : Bool) :
    h.Allocates (.record ⟨fields, frozen⟩) (h.newObject fields frozen).2 :=
  h.add_allocates (.record ⟨fields, frozen⟩)

theorem newClosure_allocates (h : Heap) (c : Closure) : h.Allocates (.closure c) (h.newClosure c).2 :=
  h.add_allocates (.closure c)

theorem newClass_allocates (h : Heap) (c : ClassDef) : h.Allocates (.cls c) (h.newClass c).2 := h.add_allocates (.cls c)

theorem newEnum_allocates (h : Heap) (e : EnumDef) : h.Allocates (.enum e) (h.newEnum e).2 := h.add_allocates (.enum e)

theorem pushScope_allocates (h : Heap) (scope : Scope) :
    h.Allocates (.scope scope) { h with scopes := h.scopes.push scope } :=
  h.add_allocates (.scope scope)

theorem nextStamp_allocates (h : Heap) : h.Allocates .stamp { h with nextStamp := h.nextStamp + 1 } :=
  h.add_allocates .stamp

theorem modifyScope_updates {s scope} (hs : h.scopes[s]? = some scope)
    (f : Scope → Scope) : h.Updates .scope s (.scope (f scope)) (h.modifyScope s f) := by
  constructor
  · intro k; cases k <;> simp [count, modifyScope]
  · intro k i
    cases k <;> simp only [reduceCtorEq, true_and]
    case scope => exact map_getElem?_modify _ hs f i
    all_goals rfl

theorem modifyArray_updates {ref elements} (hr : h.arrays[ref]? = some elements) (f : Array Value → Array Value) :
    h.Updates .array ref (.array (f elements)) { h with arrays := h.arrays.modify ref f } := by
  constructor
  · intro k; cases k <;> simp [count]
  · intro k i
    cases k <;> simp only [reduceCtorEq, true_and]
    case array => exact map_getElem?_modify _ hr f i
    all_goals rfl

theorem setElements_eq_modify (h : Heap) (ref : Nat) (elements : Array Value) :
    h.setElements ref elements = { h with arrays := h.arrays.modify ref fun _ => elements } := by
  have : h.arrays.setIfInBounds ref elements = h.arrays.modify ref fun _ => elements := by
    apply ext_getElem?
    intro i
    rw [getElem?_setIfInBounds, getElem?_modify]
    split
    · next e => subst e; by_cases hi : ref < h.arrays.size <;> simp [hi]
    · rfl
  rw [setElements, this]

theorem setField_record_updates {i r} (hr : h.records[i]? = some r) (name : String)
    (value : Value) : h.Updates .record i (.record { r with fields := r.fields.insert name value })
      (h.setField (.record i) name value) := by
  constructor
  · intro k; cases k <;> simp [count, setField]
  · intro k j
    cases k <;> simp only [reduceCtorEq, true_and]
    case record => exact map_getElem?_modify _ hr _ j
    all_goals rfl

end Heap

end SmallScript.Machine
