import SmallScript.Proofs.Machine.Constants
import SmallScript.Proofs.Machine.Faults

/-!
# Tame actions

Native functions and operators leave scopes, functions and classes alone: they make arrays, objects and numbers, and
they change arrays in place. `Tame O strict kinds Good a` says so of an action, and what comes of it: a failure is a
reported problem or of one of the kinds, and if `strict`, it is not the fault of a tree; if `O`, ordinary values stay
ordinary and the result is good.
-/

namespace SmallScript.Machine

open Value (ScopeRef ObjectRef)
open Data (Table)
open Number (Numeric NumberFault)
open Syntax (Node)

/-- A new array, object or number, or a change of arrays. -/
inductive CellStep (h : Heap) : Heap → Prop
  | array (elements : Array Value) : CellStep h (h.newArray elements).2
  | object (fields : Table Value) (hf : h.Keyed → fields.Distinct) : CellStep h (h.newObject fields false).2
  | number (n : Numeric) : CellStep h (h.newNumber n).2
  | arrays {arrays : Array (Array Value)} (hs : arrays.size = h.arrays.size) : CellStep h { h with arrays }

theorem newNumber_scopes (h : Heap) (n : Numeric) : (h.newNumber n).2.scopes = h.scopes := by
  unfold Heap.newNumber
  split <;> rfl

namespace CellStep

variable {h h' : Heap}

theorem of_cellular {R} [Cellular R] (hs : CellStep h h') : R h h' := by
  cases hs with
  | array elements => exact Cellular.array h elements
  | object fields hf => exact Cellular.object h fields hf
  | number n => exact Cellular.number h n
  | arrays hs => exact Cellular.arrays h _ hs

theorem scopes (hs : CellStep h h') : h'.scopes = h.scopes := by
  cases hs with
  | number n => exact newNumber_scopes h n
  | _ => rfl

end CellStep

/-- Such a change that, if `O`, leaves all values ordinary. -/
structure TameStep (O : Prop) (h h' : Heap) : Prop where
  step : CellStep h h'
  ordinary : O → h'.Ordinary

def Anything {α : Type} (_ : α) : Prop := True

/-- Whatever the machine is, the action changes cells only and yields a result or a failure. -/
structure Tame (O strict : Prop) (kinds : List FailureKind) {α : Type} (Good : α → Prop) (a : Action α) : Prop where
  path : ∀ m : Machine, (O → m.heap.Ordinary) → Relation.ReflTransGen (TameStep O) m.heap (a m).2.heap
  ok : ∀ m : Machine, (O → m.heap.Ordinary) → ∀ x, (a m).1 = .ok x → O → Good x
  error : ∀ m : Machine, (O → m.heap.Ordinary) → ∀ e, (a m).1 = .error e →
    ∃ f, e = .failure f ∧ (strict → f.isStructural = false) ∧ (f.kind = .runtime ∨ f.kind ∈ kinds)

theorem ordinary_of_tame {O : Prop} {h h'} (hp : Relation.ReflTransGen (TameStep O) h h') (ho : O → h.Ordinary) :
    O → h'.Ordinary := by
  cases hp with
  | refl => exact ho
  | tail _ hl => exact hl.ordinary

namespace Tame

open Machine.Action

variable {O strict : Prop} {kinds : List FailureKind} {α β : Type} {A : α → Prop} {B : β → Prop} {a b : Action α}

theorem widen {kinds'} (ha : Tame O strict kinds A a) (hk : ∀ k ∈ kinds, k ∈ kinds') : Tame O strict kinds' A a := by
  refine ⟨ha.path, ha.ok, fun m hm e he => ?_⟩
  obtain ⟨f, hf, hs, hkind⟩ := ha.error m hm e he
  exact ⟨f, hf, hs, hkind.imp_right (hk _)⟩

theorem of_ok (x : Machine → α) (h : ∀ m, a m = (.ok (x m), m))
    (hx : ∀ m, (O → m.heap.Ordinary) → O → A (x m)) : Tame O strict kinds A a where
  path m _ := by
    rw [h m]
  ok m hm y hy := by
    rw [h m] at hy
    cases hy
    exact hx m hm
  error m _ e he := by
    rw [h m] at he
    cases he

theorem pure_of {x} (hx : O → A x) : Tame O strict kinds A (Pure.pure x) :=
  of_ok (fun _ => x) (fun _ => rfl) fun _ _ => hx

theorem pure {x} (hx : A x) : Tame O strict kinds A (Pure.pure x) := pure_of fun _ => hx

theorem fail_of {f} (hs : strict → f.isStructural = false) (hk : f.kind = .runtime ∨ f.kind ∈ kinds) :
    Tame O strict kinds A (Action.fail f : Action α) where
  path _ _ := .refl
  ok _ _ _ h := nomatch h
  error _ _ _ he := ⟨f, by cases he; rfl, hs, hk⟩

theorem fail {f} (hs : f.isStructural = false) (hk : f.kind ∈ kinds) :
    Tame O strict kinds A (Action.fail f : Action α) :=
  fail_of (fun _ => hs) (.inr hk)

theorem problem {p} (h : p.isStructural = false) : Tame O strict kinds A (Action.problem p : Action α) :=
  fail_of (fun _ => h) (.inl rfl)

/-- The problem is the fault of a tree that is not well-formed. -/
theorem problem_of_not {p} (h : ¬ strict) : Tame O strict kinds A (Action.problem p : Action α) :=
  fail_of (fun hs => absurd hs h) (.inl rfl)

theorem bind {k} (ha : Tame O strict kinds A a) (hk : ∀ x, (O → A x) → Tame O strict kinds B (k x)) :
    Tame O strict kinds B (a >>= k) := by
  -- where the second action begins
  have next : ∀ m, (O → m.heap.Ordinary) → ∀ x m', a m = (.ok x, m') →
      Relation.ReflTransGen (TameStep O) m.heap m'.heap ∧ (O → m'.heap.Ordinary) ∧ Tame O strict kinds B (k x) := by
    intro m hm x m' hr
    have hpath := ha.path m hm
    rw [hr] at hpath
    exact ⟨hpath, ordinary_of_tame hpath hm, hk x (ha.ok m hm x (by rw [hr]))⟩
  refine ⟨fun m hm => ?_, fun m hm y hy => ?_, fun m hm e he => ?_⟩
  · rcases bind_cases a k m with ⟨e, m', hr, hb⟩ | ⟨x, m', hr, hb⟩
    · have hpath := ha.path m hm
      rw [hb]
      rwa [hr] at hpath
    · obtain ⟨hpath, hm', hnext⟩ := next m hm x m' hr
      rw [hb]
      exact hpath.trans (hnext.path m' hm')
  · rcases bind_cases a k m with ⟨e, m', hr, hb⟩ | ⟨x, m', hr, hb⟩
    · rw [hb] at hy
      cases hy
    · obtain ⟨-, hm', hnext⟩ := next m hm x m' hr
      rw [hb] at hy
      exact hnext.ok m' hm' y hy
  · rcases bind_cases a k m with ⟨e', m', hr, hb⟩ | ⟨x, m', hr, hb⟩
    · rw [hb] at he
      cases he
      exact ha.error m hm _ (by rw [hr])
    · obtain ⟨-, hm', hnext⟩ := next m hm x m' hr
      rw [hb] at he
      exact hnext.error m' hm' e he

theorem andThen {k} (ha : Tame O strict kinds Anything a) (hk : ∀ x, Tame O strict kinds B (k x)) :
    Tame O strict kinds B (a >>= k) :=
  ha.bind fun x _ => hk x

theorem imp {A'} (ha : Tame O strict kinds A a) (himp : ∀ x, A x → A' x) : Tame O strict kinds A' a :=
  ⟨ha.path, fun m hm x hx hO => himp x (ha.ok m hm x hx hO), ha.error⟩

theorem ite_of {c : Prop} [Decidable c] (ha : c → Tame O strict kinds A a) (hb : ¬ c → Tame O strict kinds A b) :
    Tame O strict kinds A (if c then a else b) := by
  split
  · next h => exact ha h
  · next h => exact hb h

theorem ite {c : Prop} [Decidable c] (ha : Tame O strict kinds A a) (hb : Tame O strict kinds A b) :
    Tame O strict kinds A (if c then a else b) :=
  ite_of (fun _ => ha) fun _ => hb

theorem mapM {ι : Type} {g} (hg : ∀ i, Tame O strict kinds A (g i)) (is : List ι) :
    Tame O strict kinds Anything (is.mapM g) := by
  induction is with
  | nil => exact pure trivial
  | cons i is ih =>
    rw [List.mapM_cons]
    exact (hg i).bind fun x _ => ih.bind fun xs _ => pure trivial

/-! ## Reading the machine -/

theorem heap : Tame O strict kinds Heap.Ordinary Action.heap := of_ok (·.heap) (fun _ => rfl) fun _ => id

theorem heapRead : Tame O strict kinds Anything Action.heap := heap.imp fun _ _ => trivial

theorem world : Tame O strict kinds Anything Action.world := of_ok (·.world) (fun _ => rfl) fun _ _ _ => trivial

theorem consult {f} (hok : ∀ h, h.Ordinary → ∀ x, f h = .ok x → A x)
    (hp : ∀ h p, f h = .error p → p.isStructural = false) : Tame O strict kinds A (Action.consult f) := by
  refine ⟨fun m _ => ?_, fun m hm x hx hO => ?_, fun m _ e he => ?_⟩
  · unfold Action.consult
    split <;> exact .refl
  · unfold Action.consult at hx
    split at hx
    · next y hy =>
      cases hx
      exact hok m.heap (hm hO) x hy
    · cases hx
  · unfold Action.consult at he
    split at he
    · cases he
    · next p hf =>
      cases he
      exact ⟨.problem p, rfl, fun _ => hp m.heap p hf, .inl rfl⟩

theorem resolve (s : ScopeRef) (name : String) : Tame O strict kinds Anything (Action.consult (·.resolve s name)) :=
  consult (fun _ _ _ _ => trivial) fun _ _ hp => Heap.resolve_error hp

theorem lookup (s : ScopeRef) (name : String) :
    Tame O strict kinds Value.Ordinary (Action.consult (·.lookup s name)) := by
  refine consult (fun h hm v hv => ?_) fun _ _ hp => Heap.lookup_error hp
  unfold Heap.lookup at hv
  split at hv
  · next w hw =>
    cases hv
    exact hm.lookup? hw
  · cases hv

theorem ofNumber {r : Except NumberFault α} (hr : OnlyFaults (Among kinds) r) :
    Tame O strict kinds (fun x => r = .ok x) (Action.ofNumber r) := by
  cases r with
  | ok x => exact pure rfl
  | error f => exact fail rfl (hr f rfl)

theorem textOf {f : Heap → Except NumberFault String} (hf : ∀ h, OnlyFaults (Among kinds) (f h)) :
    Tame O strict kinds Anything (do Action.ofNumber (f (← Action.heap))) :=
  heap.bind fun h _ => (ofNumber (hf h)).imp fun _ _ => trivial

theorem display (v : Value) : Tame O strict wholeKinds Anything (Action.display v) := textOf fun _ => display_faults _ _

theorem inspect (hk : .value ∈ kinds) (v : Value) : Tame O strict kinds Anything (Action.inspect v) :=
  textOf fun _ => (text_faults _).widen (List.forall_mem_singleton.2 hk)

theorem inspectAll (hk : .value ∈ kinds) (vs : List Value) : Tame O strict kinds Anything (Action.inspectAll vs) :=
  textOf fun _ => (text_faults _).widen (List.forall_mem_singleton.2 hk)

/-! ## Changing the machine -/

theorem modifyWorld (f : World → World) : Tame O strict kinds Anything (Action.modifyWorld f) where
  path _ _ := .refl
  ok _ _ _ _ _ := trivial
  error _ _ _ h := nomatch h

theorem printLine (text : String) : Tame O strict kinds Anything (Action.printLine text) := modifyWorld _

theorem onHeap {f} (hpath : ∀ h, (O → h.Ordinary) → Relation.ReflTransGen (TameStep O) h (f h).2)
    (hok : ∀ h, O → h.Ordinary → A (f h).1) : Tame O strict kinds A (Action.onHeap f) where
  path m hm := hpath m.heap hm
  ok m hm x hx hO := by
    cases hx
    exact hok m.heap hO (hm hO)
  error _ _ _ h := nomatch h

theorem newArray {elements} (he : O → ∀ v ∈ elements, v.Ordinary) :
    Tame O strict kinds Value.Ordinary (Action.onHeap (·.newArray elements)) :=
  onHeap (fun _ hm => .single ⟨.array elements, fun hO => (hm hO).newArray (he hO)⟩) fun _ _ _ => trivial

theorem array {elements} (he : O → ∀ v ∈ elements, v.Ordinary) :
    Tame O strict kinds Value.Ordinary (Action.array elements) :=
  newArray fun hO v hv => he hO v (List.mem_toArray.1 hv)

theorem arrayOf {ι : Type} {g} {is : List ι} (hg : ∀ i, (g i).Ordinary) :
    Tame O strict kinds Value.Ordinary (Action.array (is.map g)) :=
  array fun _ v hv => by
    obtain ⟨i, -, rfl⟩ := List.mem_map.1 hv
    exact hg i

theorem newObject {fields : Heap → Table Value} (hd : ∀ h, h.Keyed → (fields h).Distinct)
    (hf : ∀ h, O → h.Ordinary → (fields h).All Value.Ordinary) :
    Tame O strict kinds Value.Ordinary (Action.onHeap fun h => h.newObject (fields h) false) :=
  onHeap (fun h hm => .single ⟨.object _ (hd h), fun hO => (hm hO).newObject (hf h hO (hm hO)) false⟩) fun _ _ _ => trivial

theorem object {fields} (hf : ∀ e ∈ fields, e.2.Ordinary) : Tame O strict kinds Value.Ordinary (Action.object fields) :=
  newObject (fun _ _ => .ofList fields) fun _ _ _ => .ofList hf

theorem number (x : Numeric) : Tame O strict kinds Value.Ordinary (Action.number x) := by
  refine onHeap (fun h hm => .single ⟨.number x, fun hO => (hm hO).newNumber x⟩) fun h _ _ => ?_
  unfold Heap.newNumber
  split <;> exact trivial

theorem numberOf {r} (hr : OnlyFaults (Among kinds) r) : Tame O strict kinds Value.Ordinary (Action.numberOf r) :=
  (ofNumber hr).bind fun x _ => number x

theorem modifyArrays {f : Array (Array Value) → Array (Array Value)} (hs : ∀ arrays, (f arrays).size = arrays.size)
    (ho : ∀ h : Heap, O → h.Ordinary → ∀ (i : Nat) (elements : Array Value), (f h.arrays)[i]? = some elements →
      ∀ v ∈ elements, v.Ordinary) :
    Tame O strict kinds Anything (Action.modifyHeap fun h => { h with arrays := f h.arrays }) where
  path m hm := .single ⟨.arrays (hs _), fun hO => (hm hO).setArrays (ho m.heap hO (hm hO))⟩
  ok _ _ _ _ _ := trivial
  error _ _ _ h := nomatch h

theorem setElements (ref : Nat) {elements} (he : O → ∀ v ∈ elements, v.Ordinary) :
    Tame O strict kinds Anything (Action.modifyHeap (·.setElements ref elements)) where
  path _ hm := .single ⟨.arrays (Array.size_setIfInBounds ..), fun hO => (hm hO).setElements ref (he hO)⟩
  ok _ _ _ _ _ := trivial
  error _ _ _ h := nomatch h

end Tame

end SmallScript.Machine
