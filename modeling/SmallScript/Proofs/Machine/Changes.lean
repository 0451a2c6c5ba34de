import Mathlib.Logic.Relation
import SmallScript.Proofs.Data.Tables
import SmallScript.Proofs.Machine.Simulation
import SmallScript.Proofs.Syntax.Formed

/-!
# What a run can do to the heap

`Step` lists the changes that a program can make to a heap, each with the check that guards it; `Path` is any number
of them. What a run keeps is then shown once for each kind of step: `Path.keeps` for classes, enumerations and frozen
records, `Path.tidy` for the code of functions, `Path.isFrozen` for records that may be assigned to, `Path.keyed` for
the names of every table.

Some kinds of change include new arrays, objects and numbers, and arrays that change in place: `Cellular`.
-/

namespace SmallScript.Machine

open Array Heap
open Value (ScopeRef ObjectRef)
open Data (Table)
open Number (Numeric NumberFault)
open Syntax (IsName AllFormed)

variable {α β : Type} {i : Nat}

/-- The code of the function is well-formed. -/
def Closure.Formed (c : Closure) : Prop := (∀ p ∈ c.params, IsName p) ∧ AllFormed c.body

/-- No table of the heap has a name twice. -/
structure Heap.Keyed (h : Heap) : Prop where
  scopes : ∀ (i : Nat) (scope : Scope), h.scopes[i]? = some scope → scope.vars.Distinct
  records : ∀ (i : Nat) (r : Record), h.records[i]? = some r → r.fields.Distinct
  classes : ∀ (i : Nat) (c : ClassDef), h.classes[i]? = some c → c.members.Distinct
  enums : ∀ (i : Nat) (e : EnumDef), h.enums[i]? = some e → e.members.Distinct

/-- One change of a heap. If `strict`, new functions have well-formed code. -/
inductive Step (strict : Prop) (h : Heap) : Heap → Prop where
  | array (elements : Array Value) : Step strict h (h.newArray elements).2
  | object (fields : Table Value) (hf : h.Keyed → fields.Distinct) : Step strict h (h.newObject fields false).2
  | closure (c : Closure) (hc : strict → c.Formed) : Step strict h (h.newClosure c).2
  | cls (c : ClassDef) (hc : c.members.Distinct) : Step strict h (h.newClass c).2
  | enum (e : EnumDef) (he : e.members.Distinct) : Step strict h (h.newEnum e).2
  | number (n : Numeric) : Step strict h (h.newNumber n).2
  | scope (parent : ScopeRef) : Step strict h (h.newScope parent).2
  | global (guarded : Bool) : Step strict h (h.newGlobal guarded).2
  | declare {h' : Heap} (s : ScopeRef) (name : String) (v : Value) (constant overwrite : Bool)
    (hd : h.declare s name v constant overwrite = .ok h') : Step strict h h'
  | assign {h' : Heap} (s : ScopeRef) (name : String) (v : Value) (overwrite : Bool)
    (ha : h.assign s name v overwrite = .ok h') : Step strict h h'
  | delete {h' : Heap} (s : ScopeRef) (name : String) (hd : h.delete s name = .ok h') : Step strict h h'
  | setField (ref : ObjectRef) (name : String) (v : Value) (hf : h.isFrozen ref = false) :
    Step strict h (h.setField ref name v)
  | arrays (arrays : Array (Array Value)) (hs : arrays.size = h.arrays.size) : Step strict h { h with arrays }

/-- Any number of changes. -/
def Path (strict : Prop) : Heap → Heap → Prop := Relation.ReflTransGen (Step strict)

/-! ## What one change does to each part of the heap -/

namespace Heap

variable {h h' : Heap} {s : ScopeRef} {name : String} {v : Value} {constant overwrite : Bool}

theorem declare_eq_ok (hd : h.declare s name v constant overwrite = .ok h') :
    (overwrite = false → h.bindsHere s name = false) ∧
      h' = if constant then (h.bind s name v).addConstant s name else h.bind s name v := by
  unfold declare at hd
  split at hd
  · cases hd
  · next hc =>
    cases hd
    refine ⟨fun ho => ?_, rfl⟩
    subst ho
    simpa using hc

theorem assign_eq_ok (ha : h.assign s name v overwrite = .ok h') :
    ∃ found, (overwrite = false → h.isConstant found name = false) ∧ h' = h.bind found name v := by
  obtain ⟨found, -, ha⟩ := exists_of_bind_ok ha
  split at ha
  · cases ha
  · next hc =>
    cases ha
    refine ⟨found, fun ho => ?_, rfl⟩
    subst ho
    simpa using hc

theorem delete_eq_ok (hd : h.delete s name = .ok h') : h' = h.unbind s name := by
  unfold delete at hd
  split at hd
  · cases hd
    rfl
  · cases hd

/-- An entry of an array that has one more is the new one or an old one. -/
theorem forall_push {P : α → Prop} {a : Array α} {x} (h : ∀ (i : Nat) y, a[i]? = some y → P y)
    (hx : P x) : ∀ (i : Nat) y, (a.push x)[i]? = some y → P y := by
  intro i y hy
  rw [getElem?_push] at hy
  split at hy
  · cases hy
    exact hx
  · exact h i y hy

/-- An entry of an array in which one has changed is that one or an old one. -/
theorem forall_modify {P : α → Prop} {a : Array α} {f}
    (h : ∀ (j : Nat) y, a[j]? = some y → P y) (hf : ∀ y, P y → P (f y)) :
    ∀ (j : Nat) y, (a.modify i f)[j]? = some y → P y := by
  intro j y hy
  rw [getElem?_modify] at hy
  split at hy
  · obtain ⟨z, hz, rfl⟩ := Option.map_eq_some_iff.1 hy
    exact hf z (h j z hz)
  · exact h j y hy

theorem forall_fields {Q : Table Value → Prop} (hs : ∀ (i : Nat) scope, h.scopes[i]? = some scope → Q scope.vars)
    (hr : ∀ (i : Nat) r, h.records[i]? = some r → Q r.fields) (he : Q .empty) (ref : ObjectRef) : Q (h.fields ref) := by
  cases ref with
  | record i =>
    unfold fields
    dsimp only
    cases hrecord : h.records[i]? with
    | none => exact he
    | some r => exact hr i r hrecord
  | scope s =>
    unfold fields
    dsimp only
    cases hscope : h.scopes[s]? with
    | none => exact he
    | some scope => exact hs s scope hscope

theorem Keyed.fields (hk : h.Keyed) (ref : ObjectRef) : (h.fields ref).Distinct :=
  forall_fields hk.scopes hk.records .empty ref

theorem Keyed.bind (hk : h.Keyed) (s : ScopeRef) (name : String) (v : Value) : (h.bind s name v).Keyed :=
  { hk with scopes := forall_modify hk.scopes fun _ hd => hd.insert name v }

end Heap

/-- The array is the same or has one more entry. -/
def GrowsBy (New : α → Prop) (a a' : Array α) : Prop := a' = a ∨ ∃ x, New x ∧ a' = a.push x

theorem GrowsBy.getElem? {New} {a a' : Array α} (h : GrowsBy New a a') {x : α}
    (hx : a[i]? = some x) : a'[i]? = some x := by
  rcases h with rfl | ⟨y, -, rfl⟩
  · exact hx
  · have hi : i < a.size := (Array.getElem?_eq_some_iff.1 hx).1
    rw [getElem?_push_lt hi, ← hx, getElem?_eq_getElem hi]

theorem GrowsBy.new_or_old {New} {a a' : Array α} (h : GrowsBy New a a') {x : α}
    (hx : a'[i]? = some x) : New x ∨ a[i]? = some x := by
  rcases h with rfl | ⟨y, hy, rfl⟩
  · exact .inr hx
  · rw [getElem?_push] at hx
    split at hx
    · cases hx
      exact .inl hy
    · exact .inr hx

/-- A record that may be assigned to gets another field. -/
def SetsField (a a' : Array Record) : Prop :=
  ∃ i name v, (a[i]?.map (·.frozen)).getD false = false ∧
    a' = a.modify i fun r => { r with fields := r.fields.insert name v }

/-- What a change does beyond scopes and arrays. -/
structure Step.Parts (strict : Prop) (h h' : Heap) : Prop where
  closures : GrowsBy (fun c => strict → c.Formed) h.closures h'.closures
  classes : GrowsBy (fun _ => True) h.classes h'.classes
  enums : GrowsBy (fun _ => True) h.enums h'.enums
  records : GrowsBy (fun r => r.frozen = false) h.records h'.records ∨ SetsField h.records h'.records

section

variable {strict : Prop} {h h' h'' : Heap}

/-- The change is one of scopes and arrays only. -/
theorem Step.Parts.of_eq (hc : h'.closures = h.closures) (hk : h'.classes = h.classes) (he : h'.enums = h.enums)
    (hr : h'.records = h.records) : Step.Parts strict h h' :=
  ⟨.inl hc, .inl hk, .inl he, .inl (.inl hr)⟩

theorem Step.parts (hs : Step strict h h') : Step.Parts strict h h' := by
  cases hs with
  | array | scope | global | arrays => exact .of_eq rfl rfl rfl rfl
  | object fields => exact ⟨.inl rfl, .inl rfl, .inl rfl, .inl (.inr ⟨_, rfl, rfl⟩)⟩
  | closure c hc => exact ⟨.inr ⟨c, hc, rfl⟩, .inl rfl, .inl rfl, .inl (.inl rfl)⟩
  | cls c => exact ⟨.inl rfl, .inr ⟨c, trivial, rfl⟩, .inl rfl, .inl (.inl rfl)⟩
  | enum e => exact ⟨.inl rfl, .inl rfl, .inr ⟨e, trivial, rfl⟩, .inl (.inl rfl)⟩
  | number n =>
    unfold newNumber
    split <;> exact .of_eq rfl rfl rfl rfl
  | declare s name v constant overwrite hd =>
    obtain ⟨-, rfl⟩ := declare_eq_ok hd
    split <;> exact .of_eq rfl rfl rfl rfl
  | assign s name v overwrite ha =>
    obtain ⟨found, -, rfl⟩ := assign_eq_ok ha
    exact .of_eq rfl rfl rfl rfl
  | delete s name hd =>
    cases delete_eq_ok hd
    exact .of_eq rfl rfl rfl rfl
  | setField ref name v hf =>
    cases ref with
    | record i => exact ⟨.inl rfl, .inl rfl, .inl rfl, .inr ⟨i, name, v, hf, rfl⟩⟩
    | scope s => exact .of_eq rfl rfl rfl rfl

theorem Step.keyed (hs : Step strict h h') (hk : h.Keyed) : h'.Keyed := by
  cases hs with
  | array | closure | arrays => exact { hk with }
  | object fields hf => exact { hk with records := forall_push hk.records (hf hk) }
  | cls c hc => exact { hk with classes := forall_push hk.classes hc }
  | enum e he => exact { hk with enums := forall_push hk.enums he }
  | number n =>
    unfold newNumber
    split <;> exact { hk with }
  | scope parent => exact { hk with scopes := forall_push hk.scopes .empty }
  | global guarded =>
    have hentries : (⟨globalEntries⟩ : Table Value).Distinct := by
      unfold Table.Distinct
      decide
    exact { hk with scopes := forall_push hk.scopes hentries }
  | declare s name v constant overwrite hd =>
    obtain ⟨-, rfl⟩ := declare_eq_ok hd
    have hbound := hk.bind s name v
    split
    · exact { hbound with scopes := forall_modify hbound.scopes fun _ hd => hd }
    · exact hbound
  | assign s name v overwrite ha =>
    obtain ⟨found, -, rfl⟩ := assign_eq_ok ha
    exact hk.bind found name v
  | delete s name hd =>
    cases delete_eq_ok hd
    exact { hk with scopes := forall_modify hk.scopes fun _ hd => hd.erase name }
  | setField ref name v hf =>
    cases ref with
    | record i => exact { hk with records := forall_modify hk.records fun _ hd => hd.insert name v }
    | scope s => exact hk.bind s name v

/-- Whether functions have well-formed code may be left open. -/
theorem Step.weaken (hs : Step strict h h') : Step False h h' := by
  cases hs with
  | array elements => exact .array elements
  | object fields hf => exact .object fields hf
  | closure c _ => exact .closure c False.elim
  | cls c hc => exact .cls c hc
  | enum e he => exact .enum e he
  | number n => exact .number n
  | scope parent => exact .scope parent
  | global guarded => exact .global guarded
  | declare s name v constant overwrite hd => exact .declare s name v constant overwrite hd
  | assign s name v overwrite ha => exact .assign s name v overwrite ha
  | delete s name hd => exact .delete s name hd
  | setField ref name v hf => exact .setField ref name v hf
  | arrays arrays hs => exact .arrays arrays hs

/-! ## What runs keep -/

/-- Classes, enumerations and frozen records are in the second heap as they are in the first one. -/
structure Keeps (h h' : Heap) : Prop where
  classes : ∀ (i : Nat) (c : ClassDef), h.classes[i]? = some c → h'.classes[i]? = some c
  enums : ∀ (i : Nat) (e : EnumDef), h.enums[i]? = some e → h'.enums[i]? = some e
  records : ∀ (i : Nat) (r : Record), h.records[i]? = some r → r.frozen = true → h'.records[i]? = some r

theorem Keeps.refl (h : Heap) : Keeps h h := ⟨fun _ _ hc => hc, fun _ _ he => he, fun _ _ hr _ => hr⟩

theorem Keeps.trans (h1 : Keeps h h') (h2 : Keeps h' h'') : Keeps h h'' where
  classes i c hc := h2.classes i c (h1.classes i c hc)
  enums i e he := h2.enums i e (h1.enums i e he)
  records i r hr hf := h2.records i r (h1.records i r hr hf) hf

theorem Step.keeps (hs : Step strict h h') : Keeps h h' where
  classes _ _ hc := hs.parts.classes.getElem? hc
  enums _ _ he := hs.parts.enums.getElem? he
  records i r hr hf := by
    rcases hs.parts.records with hgrows | ⟨j, name, v, hj, hset⟩
    · exact hgrows.getElem? hr
    · -- the record that is changed is another one
      have hne : j ≠ i := by
        rintro rfl
        rw [hr] at hj
        exact absurd hj (by simp [hf])
      rw [hset, getElem?_modify, if_neg hne, hr]

theorem Path.keeps (hp : Path strict h h') : Keeps h h' := by
  induction hp with
  | refl => exact .refl h
  | tail _ hs ih => exact ih.trans hs.keeps

theorem Path.keyed (hp : Path strict h h') (hk : h.Keyed) : h'.Keyed := by
  induction hp with
  | refl => exact hk
  | tail _ hs ih => exact hs.keyed ih

theorem Heap.initial_keyed : Heap.initial.Keyed where
  scopes i scope hs := by simp [initial] at hs
  records i r hr := by
    have hall : ∀ r ∈ initial.records.toList, r.fields.keys.Nodup := by decide +kernel
    exact hall r (mem_toList_iff.2 (mem_of_getElem? hr))
  classes i c hc := by simp [initial] at hc
  enums i e he := by simp [initial] at he

/-- All functions of the heap have well-formed code, if `strict`. -/
def Tidy (strict : Prop) (h : Heap) : Prop := strict → ∀ (i : Nat) (c : Closure), h.closures[i]? = some c → c.Formed

theorem Path.tidy (hp : Path strict h h') (ht : Tidy strict h) : Tidy strict h' := by
  induction hp with
  | refl => exact ht
  | tail _ hs ih =>
    intro hstrict i c hc
    rcases hs.parts.closures.new_or_old hc with hnew | hold
    · exact hnew hstrict
    · exact ih hstrict i c hold

/-- An object that may be assigned to stays so, and so does a reference to none. -/
theorem Step.isFrozen (hs : Step strict h h') {ref} (hf : h.isFrozen ref = false) : h'.isFrozen ref = false := by
  cases ref with
  | scope s => rfl
  | record i =>
    unfold Heap.isFrozen at hf ⊢
    rcases hs.parts.records with (heq | ⟨r, hr, hpush⟩) | ⟨j, name, v, hj, hset⟩
    · rw [heq]
      exact hf
    · dsimp only
      rw [hpush, getElem?_push]
      split
      · exact hr
      · exact hf
    · dsimp only at hf ⊢
      rw [hset, getElem?_modify]
      split
      · next heq =>
        subst heq
        rwa [Option.map_map]
      · exact hf

theorem Path.isFrozen (hp : Path strict h h') {ref} (hf : h.isFrozen ref = false) : h'.isFrozen ref = false := by
  induction hp with
  | refl => exact hf
  | tail _ hs ih => exact hs.isFrozen ih

theorem Path.refl (h : Heap) : Path strict h h := Relation.ReflTransGen.refl

theorem Path.trans (h1 : Path strict h h') (h2 : Path strict h' h'') : Path strict h h'' :=
  Relation.ReflTransGen.trans h1 h2

theorem Path.of_step (hs : Step strict h h') : Path strict h h' := .single hs

end

/-! ## Actions one after the other -/

/-- A sequence of actions ends with the first one or goes on with the second one. -/
theorem Action.bind_cases (a : Action α) (k : α → Action β) (m : Machine) :
    (∃ e m', a m = (.error e, m') ∧ (a >>= k) m = (.error e, m')) ∨
      ∃ x m', a m = (.ok x, m') ∧ (a >>= k) m = k x m' := by
  cases hr : a m with
  | mk r m' =>
    cases r with
    | error e => exact .inl ⟨e, m', rfl, bind_of_error hr k⟩
    | ok x => exact .inr ⟨x, m', rfl, bind_of_ok hr k⟩

theorem Action.bind_eq_ok {a : Action α} {k} {b : β} {m m' : Machine}
    (h : (a >>= k) m = (.ok b, m')) : ∃ x m1, a m = (.ok x, m1) ∧ k x m1 = (.ok b, m') := by
  rcases bind_cases a k m with ⟨e, m1, hr, hb⟩ | ⟨x, m1, hr, hb⟩
  · rw [hb] at h
    cases h
  · exact ⟨x, m1, hr, hb.symm.trans h⟩

theorem Action.attempt_bind {a r m m'} (h : a m = (r, m'))
    (k : Except Signal α → Action β) : (Action.attempt a >>= k) m = k r m' := by
  show k (a m).1 (a m).2 = _
  rw [h]

/-- A sequence is an attempt that lets all signals go on. -/
theorem Action.bind_eq_attempt (a : Action α) (k : α → Action β) :
    a >>= k = Action.attempt a >>= fun r => r.casesOn MonadExcept.throw k := by
  funext m
  rcases bind_cases a k m with ⟨e, m', hr, hb⟩ | ⟨x, m', hr, hb⟩
  · rw [hb, attempt_bind hr]
    rfl
  · rw [hb, attempt_bind hr]

/-- The problem is that of a tree which the parser does not make. -/
def Problem.isStructural : Problem → Bool
  | .unknownOperator .. | .unknownAssignment .. | .keyNotName _ | .classMember _ | .enumMember _ | .delTarget _
  | .forTarget _ | .assignNonObject .. => true
  | _ => false

/-- The failure is such a problem. -/
def Failure.isStructural : Failure → Bool
  | .problem p => p.isStructural
  | _ => false

/-- A kind of change that includes those of native functions. -/
class Cellular (R : Heap → Heap → Prop) : Prop where
  array : ∀ (h : Heap) (elements : Array Value), R h (h.newArray elements).2
  object : ∀ (h : Heap) (fields : Table Value), (h.Keyed → fields.Distinct) → R h (h.newObject fields false).2
  number : ∀ (h : Heap) (n : Numeric), R h (h.newNumber n).2
  arrays : ∀ (h : Heap) (arrays : Array (Array Value)), arrays.size = h.arrays.size → R h { h with arrays }

instance {strict : Prop} : Cellular (Step strict) where
  array _ elements := .array elements
  object _ fields hf := .object fields hf
  number _ n := .number n
  arrays _ arrays hs := .arrays arrays hs

/-! ## Problems with scopes -/

namespace Heap

variable {h : Heap} {s : ScopeRef} {name : String} {v : Value} {constant overwrite : Bool} {p : Problem}

theorem lookup_error (hp : h.lookup s name = .error p) : p.isStructural = false := by
  unfold lookup at hp
  split at hp
  · cases hp
  · cases hp
    rfl

theorem declare_error (hp : h.declare s name v constant overwrite = .error p) : p.isStructural = false := by
  unfold declare at hp
  split at hp
  · cases hp
    rfl
  · cases hp

theorem resolve_error (hp : h.resolve s name = .error p) : p.isStructural = false := by
  unfold resolve at hp
  split at hp
  · cases hp
  · cases hp
    rfl

theorem assign_error (hp : h.assign s name v overwrite = .error p) : p.isStructural = false := by
  unfold assign at hp
  cases hr : h.resolve s name with
  | error q =>
    rw [hr] at hp
    cases hp
    exact resolve_error hr
  | ok found =>
    rw [hr] at hp
    change (if _ then _ else _) = _ at hp
    split at hp
    · cases hp
      rfl
    · cases hp

theorem delete_error (hp : h.delete s name = .error p) : p.isStructural = false := by
  unfold delete at hp
  split at hp
  · cases hp
  · cases hp
    rfl

end Heap

end SmallScript.Machine
