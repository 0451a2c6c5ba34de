import Mathlib.Logic.Relation
import SmallScript.Proofs.Machine.Neat
import SmallScript.Proofs.Session.Sandbox

/-!
# Scope chains

A scope and the scopes around it are its chain. A name is looked up in the innermost scope of the chain that binds it. So
a new value for a name in one scope is found from the scopes that *see* this scope, past no nearer binding of the name, and
from no other: `Rebinds.lookup?_sees`, `Rebinds.lookup?_other`.
-/

namespace SmallScript.Machine

open Option Array Heap
open Value (ScopeRef)
open Data (Table)

namespace Heap

/-- The scope around a scope. -/
def parentOf (h : Heap) (s : ScopeRef) : Option ScopeRef := h.scopes[s]?.bind (·.parent)

/-- The scope around a scope was made before it. -/
def Nested (h : Heap) : Prop := ∀ s p, h.parentOf s = some p → p < s

/-- The second scope is the first one or around it. -/
def InChain (h : Heap) : ScopeRef → ScopeRef → Prop := Relation.ReflTransGen fun s p => h.parentOf s = some p

/-- From the scope `s` out to the scope `t`, no scope before `t` binds the name. -/
inductive Sees (h : Heap) (x : String) (t : ScopeRef) : ScopeRef → Prop where
  | here : Sees h x t t
  | out {s p : ScopeRef} (hb : h.bound? s x = none) (hp : h.parentOf s = some p) (hs : Sees h x t p) : Sees h x t s

/-- The innermost scope of the chain of `s` that binds the name is `t`. -/
structure Innermost (h : Heap) (x : String) (s t : ScopeRef) : Prop where
  sees : h.Sees x t s
  bound : (h.bound? t x).isSome = true

/-- No scope of the chain binds the name, or the innermost one that does has it as a constant. -/
def Blocked (h : Heap) (x : String) (s : ScopeRef) : Prop :=
  (∀ t, h.InChain s t → h.bound? t x = none) ∨ ∃ t, h.Innermost x s t ∧ x ∈ h.constantsOf t

variable {h h' : Heap} {s t p E : ScopeRef} {x y : String} {v : Value}

theorem Sees.inChain (hs : h.Sees x t s) : h.InChain s t := by
  induction hs with
  | here => exact .refl
  | out _ hp _ ih => exact .head hp ih

theorem Sees.le (hn : h.Nested) (hs : h.Sees x t s) : t ≤ s := by
  induction hs with
  | here => exact le_refl t
  | out _ hp _ ih => exact le_of_lt (lt_of_le_of_lt ih (hn _ _ hp))

/-! ## Looking names up -/

theorem resolve?_eq (hn : h.Nested) (s : ScopeRef) (x : String) :
    h.resolve? s x = if (h.bound? s x).isSome then some s else (h.parentOf s).bind (h.resolve? · x) := by
  rw [resolve?]
  cases hscope : h.scopes[s]? with
  | none => simp [bound?, parentOf, hscope]
  | some scope =>
    have hparent : h.parentOf s = scope.parent := by rw [parentOf, hscope, bind_some]
    have hbound : h.bound? s x = scope.vars.get? x := by rw [bound?, hscope, bind_some]
    rw [hparent, hbound]
    refine if_congr .rfl rfl ?_
    cases hp : scope.parent with
    | none => rfl
    | some p => exact if_pos (hn s p (hparent.trans hp))

theorem lookup?_eq (hn : h.Nested) (s : ScopeRef) (x : String) :
    h.lookup? s x = (h.bound? s x).or ((h.parentOf s).bind (h.lookup? · x)) := by
  have hlookup s : h.lookup? s x = (h.resolve? s x).bind (h.bound? · x) := rfl
  rw [hlookup, resolve?_eq hn]
  cases hb : h.bound? s x with
  | some v => exact hb
  | none =>
    cases h.parentOf s with
    | none | some p => rfl

theorem resolve?_eq_some_iff (hn : h.Nested) : h.resolve? s x = some t ↔ h.Innermost x s t := by
  constructor
  · intro hr
    induction s using Nat.strong_induction_on with
    | _ s ih =>
      rw [resolve?_eq hn] at hr
      split at hr
      · next hb =>
        cases hr
        exact ⟨.here, hb⟩
      · next hb =>
        obtain ⟨p, hp, hr⟩ := bind_eq_some_iff.1 hr
        obtain ⟨hsees, hbound⟩ := ih p (hn s p hp) hr
        exact ⟨.out (not_isSome_iff_eq_none.1 hb) hp hsees, hbound⟩
  · rintro ⟨hsees, hbound⟩
    induction hsees with
    | here => rw [resolve?_eq hn, if_pos hbound]
    | out hb hp _ ih => rw [resolve?_eq hn, hb, if_neg (by simp), hp, bind_some, ih]

theorem resolve?_eq_none_iff (hn : h.Nested) : h.resolve? s x = none ↔ ∀ t, h.InChain s t → h.bound? t x = none := by
  constructor
  · intro hr t hc
    induction hc using Relation.ReflTransGen.head_induction_on with
    | refl =>
      rw [resolve?_eq hn] at hr
      by_contra hb
      rw [if_pos (isSome_iff_ne_none.2 hb)] at hr
      cases hr
    | head hp _ ih =>
      refine ih ?_
      rw [resolve?_eq hn] at hr
      split at hr
      · cases hr
      · rwa [hp] at hr
  · intro hb
    cases hr : h.resolve? s x with
    | none => rfl
    | some t =>
      obtain ⟨hsees, hbound⟩ := (resolve?_eq_some_iff hn).1 hr
      rw [hb t hsees.inChain] at hbound
      cases hbound

/-! ## A new value in one scope -/

/-- In the second heap the name has a new value in the scope `t`, and nothing else has become of names and parents. -/
structure Rebinds (h : Heap) (t : ScopeRef) (x : String) (v : Value) (h' : Heap) : Prop where
  parents : ∀ s, h'.parentOf s = h.parentOf s
  here : h'.bound? t x = some v
  others : ∀ s y, ¬ (s = t ∧ y = x) → h'.bound? s y = h.bound? s y

theorem parentOf_modifyScope {f} (hf : ∀ scope, (f scope).parent = scope.parent) :
    (h.modifyScope s f).parentOf t = h.parentOf t := by
  rw [parentOf, parentOf, modifyScope, getElem?_modify]
  split
  · next hs =>
    subst hs
    cases h.scopes[s]? with
    | none => rfl
    | some scope => exact hf scope
  · rfl

theorem parentOf_bind : (h.bind s x v).parentOf t = h.parentOf t := parentOf_modifyScope fun _ => rfl

theorem parentOf_addConstant : (h.addConstant s x).parentOf t = h.parentOf t := parentOf_modifyScope fun _ => rfl

theorem Rebinds.bind (ht : t < h.scopes.size) (x : String) (v : Value) : Rebinds h t x v (h.bind t x v) where
  parents _ := parentOf_bind
  here := by
    simp [bound?, Heap.bind, modifyScope, getElem?_modify, getElem?_eq_getElem ht, Table.get?_insert]
  others _ _ := bound?_bind_ne

namespace Rebinds

variable (hr : Rebinds h t x v h') (hn : h.Nested)
include hr hn

theorem nested : h'.Nested := fun s p hp => hn s p ((hr.parents s).symm.trans hp)

theorem lookup?_sees (hs : h.Sees x t s) : h'.lookup? s x = some v := by
  induction hs with
  | here => rw [lookup?_eq (hr.nested hn), hr.here, some_or]
  | @out s p hb hp hs ih =>
    have hlt := hn s p hp
    have hle := hs.le hn
    have hne : ¬ (s = t ∧ x = x) := by
      rintro ⟨rfl, -⟩
      exact absurd (lt_of_le_of_lt hle hlt) (lt_irrefl _)
    rw [lookup?_eq (hr.nested hn), hr.others s x hne, hb, none_or, hr.parents, hp, bind_some, ih]

theorem lookup?_other (hno : ¬ (y = x ∧ h.Sees x t s)) : h'.lookup? s y = h.lookup? s y := by
  induction s using Nat.strong_induction_on with
  | _ s ih =>
    have hne : ¬ (s = t ∧ y = x) := by
      rintro ⟨rfl, rfl⟩
      exact hno ⟨rfl, .here⟩
    rw [lookup?_eq (hr.nested hn), lookup?_eq hn, hr.others s y hne, hr.parents]
    cases hb : h.bound? s y with
    | some w => rfl
    | none =>
      cases hp : h.parentOf s with
      | none => rfl
      | some p =>
        refine ih p (hn s p hp) ?_
        rintro ⟨rfl, hsees⟩
        exact hno ⟨rfl, .out hb hp hsees⟩

end Rebinds

/-! ## Assigning, declaring and removing -/

/-- No scope comes or goes, and each keeps its names, its parent and its constants. -/
structure SameShape (h h' : Heap) : Prop where
  size : h'.scopes.size = h.scopes.size
  names : ∀ s y, (h'.bound? s y).isSome = (h.bound? s y).isSome
  parents : ∀ s, h'.parentOf s = h.parentOf s
  constants : ∀ s, h'.constantsOf s = h.constantsOf s

theorem lt_size_of_bound (hb : (h.bound? t x).isSome = true) : t < h.scopes.size := by
  by_contra hge
  rw [bound?, getElem?_eq_none (Nat.le_of_not_lt hge)] at hb
  cases hb

theorem SameShape.bind (hb : (h.bound? t x).isSome = true) : SameShape h (h.bind t x v) where
  size := size_modify
  names s y := by
    have hr := Rebinds.bind (lt_size_of_bound hb) x v
    by_cases hne : s = t ∧ y = x
    · obtain ⟨rfl, rfl⟩ := hne
      rw [hr.here, hb, isSome_some]
    · rw [hr.others s y hne]
  parents _ := parentOf_bind
  constants _ := constantsOf_bind

theorem assign_of_none (hr : h.resolve? s x = none) : h.assign s x v false = .error (.notInScope x) := by
  unfold assign resolve
  rw [hr]
  rfl

theorem assign_of_some (hr : h.resolve? s x = some t) : h.assign s x v false =
      if x ∈ h.constantsOf t then .error (.constantVariable x) else .ok (h.bind t x v) := by
  unfold assign resolve
  rw [hr]
  show (if (h.isConstant t x && !false) = true then _ else _) = _
  rw [isConstant_eq]
  simp [pure, Except.pure]

theorem Rebinds.declare {constant} (hs : s < h.scopes.size)
    (hd : h.declare s x v constant false = .ok h') : Rebinds h s x v h' := by
  obtain ⟨-, rfl⟩ := declare_ok hd
  have hr := bind hs x v
  split
  · exact ⟨fun t => parentOf_addConstant.trans (hr.parents t), bound?_addConstant.trans hr.here,
      fun t y hne => bound?_addConstant.trans (hr.others t y hne)⟩
  · exact hr

/-- Removing a name that has just been declared undoes the declaration. -/
theorem delete_declare {constant} (hs : s < h.scopes.size) (hx : x ∉ h.constantsOf s)
    (hd : h.declare s x v constant false = .ok h') : h'.delete s x = .ok h := by
  obtain ⟨hfree, hh'⟩ := declare_ok hd
  have hbound : h'.bindsHere s x = true := by rw [bindsHere_eq, (Rebinds.declare hs hd).here, isSome_some]
  obtain ⟨scope, hscope⟩ : ∃ scope, h.scopes[s]? = some scope := ⟨_, getElem?_eq_getElem hs⟩
  have hvars : (scope.vars.insert x v).erase x = scope.vars := by
    refine Table.erase_insert ?_
    have hnone := hfree rfl
    rw [bound?, hscope, bind_some] at hnone
    rw [Table.contains, hnone, isSome_none]
  have hconstants : x ∉ scope.constants := by
    rwa [constantsOf, hscope] at hx
  have hscopes : (h'.unbind s x).scopes = h.scopes := by
    refine ext_getElem? fun i => ?_
    by_cases hi : s = i
    · subst hi
      rw [hh', hscope]
      split <;>
        simp [bind, addConstant, unbind, modifyScope, getElem?_modify, hscope, hvars, hconstants,
          List.erase_append_right, List.erase_of_not_mem]
    · rw [hh']
      split <;> simp [bind, addConstant, unbind, modifyScope, getElem?_modify, hi]
  rw [delete, if_pos hbound]
  have hrest : h'.unbind s x = { h with scopes := (h'.unbind s x).scopes } := by
    rw [hh']
    split <;> rfl
  rw [hrest, hscopes]

end Heap

/-- The action is a problem that the language reports, and changes nothing. -/
def Refuses {α : Type} (a : Action α) (m : Machine) : Prop :=
  ∃ f : Failure, f.kind = .runtime ∧ a m = (.error (.failure f), m)

section Runs

variable {f : Heap → Except Problem Heap} {v : Value} {m : Machine} {h' : Heap} {p : Problem}

theorem scoping_then_run (hf : f m.heap = .ok h') :
    (do Action.scoping f; return v : Action Value) m = (.ok v, { m with heap := h' }) :=
  Action.bind_of_ok (by rw [Action.scoping, hf]) _

theorem scoping_then_refuses (hf : f m.heap = .error p) : Refuses (do Action.scoping f; return v : Action Value) m :=
  ⟨.problem p, rfl, Action.bind_of_error (by rw [Action.scoping, hf]) _⟩

theorem not_refuses_of_ok {α : Type} {a} {x : α} {m' : Machine} (hrun : a m = (.ok x, m')) : ¬ Refuses a m := by
  rintro ⟨g, -, hg⟩
  rw [hrun] at hg
  cases hg

end Runs

/-- How look-ups change when a name gets a value: the scopes of `S` find it, and nothing else is found anew. -/
structure FoundFrom (S : ScopeRef → Prop) (x : String) (v : Value) (h h' : Heap) : Prop where
  found : ∀ s, S s → h'.lookup s x = .ok v
  others : ∀ s y, ¬ (y = x ∧ S s) → h'.lookup s y = h.lookup s y

theorem FoundFrom.of_rebinds {h h' t x v} (hr : h.Rebinds t x v h')
    (hn : h.Nested) : FoundFrom (h.Sees x t) x v h h' where
  found s hs := by rw [lookup, hr.lookup?_sees hn hs]
  others s y hno := by rw [lookup, lookup, hr.lookup?_other hn hno]

variable {m : Machine} {E : ScopeRef} {x : String} {v : Value}

theorem assign_outcome (hn : m.heap.Nested) : Refuses (Evaluate.assign E x v) m ∧ m.heap.Blocked x E ∨
      ¬ m.heap.Blocked x E ∧ ∃ t h', m.heap.Innermost x E t ∧ Evaluate.assign E x v m = (.ok v, { m with heap := h' }) ∧
        FoundFrom (m.heap.Innermost x · t) x v m.heap h' ∧ m.heap.SameShape h' := by
  cases hr : m.heap.resolve? E x with
  | none => exact .inl ⟨scoping_then_refuses (assign_of_none hr), .inl ((resolve?_eq_none_iff hn).1 hr)⟩
  | some t =>
    have hin := (resolve?_eq_some_iff hn).1 hr
    have ha := assign_of_some (v := v) hr
    by_cases hc : x ∈ m.heap.constantsOf t
    · rw [if_pos hc] at ha
      exact .inl ⟨scoping_then_refuses ha, .inr ⟨t, hin, hc⟩⟩
    · rw [if_neg hc] at ha
      refine .inr ⟨?_, t, _, hin, scoping_then_run ha, ?_, .bind hin.bound⟩
      · rintro (hnone | ⟨t', hin', hc'⟩)
        · rw [(resolve?_eq_none_iff hn).2 hnone] at hr
          cases hr
        · rw [(resolve?_eq_some_iff hn).2 hin'] at hr
          cases hr
          exact hc hc'
      · have hfound := FoundFrom.of_rebinds (.bind (lt_size_of_bound hin.bound) x v) hn
        exact ⟨fun s hs => hfound.found s hs.sees, fun s y hno =>
          hfound.others s y fun hs => hno ⟨hs.1, hs.2, hin.bound⟩⟩

theorem declare_outcome (hn : m.heap.Nested) (hE : E < m.heap.scopes.size) (constant : Bool) :
    Refuses (Evaluate.declare E x v constant false) m ∧ (m.heap.bound? E x).isSome = true ∨
      m.heap.bound? E x = none ∧ ∃ h', Evaluate.declare E x v constant false m = (.ok v, { m with heap := h' }) ∧
        FoundFrom (m.heap.Sees x E) x v m.heap h' ∧
        (x ∉ m.heap.constantsOf E → Action.scoping (·.delete E x) { m with heap := h' } = (.ok (), m)) := by
  cases hd : m.heap.declare E x v constant false with
  | error p =>
    refine .inl ⟨scoping_then_refuses hd, ?_⟩
    unfold declare at hd
    split at hd
    · next hb => rwa [bindsHere_eq, Bool.not_false, Bool.and_true] at hb
    · cases hd
  | ok h' =>
    refine .inr ⟨(declare_ok hd).1 rfl, h', scoping_then_run hd, .of_rebinds (.declare hE hd) hn, fun hx => ?_⟩
    rw [Action.scoping, delete_declare hE hx hd]

/-- Assignment to a name is refused if no scope of the chain binds it or the innermost one that does has it as a constant;
otherwise the value is found from the scopes with the same innermost binding, and nothing else changes. A name is declared where
its scope does not bind it yet; it is then found from the scopes that see this scope, and removing it undoes the
declaration. -/
theorem scope_chain_laws (m : Machine) (hn : m.heap.Nested) (E : ScopeRef) (hE : E < m.heap.scopes.size) (x : String)
    (v : Value) :
    (Refuses (Evaluate.assign E x v) m ↔ m.heap.Blocked x E) ∧
    (¬ m.heap.Blocked x E → ∃ t h', m.heap.Innermost x E t ∧ Evaluate.assign E x v m = (.ok v, { m with heap := h' }) ∧
      FoundFrom (m.heap.Innermost x · t) x v m.heap h' ∧ m.heap.SameShape h') ∧
    ∀ constant, (Refuses (Evaluate.declare E x v constant false) m ↔ (m.heap.bound? E x).isSome) ∧
      (m.heap.bound? E x = none → ∃ h', Evaluate.declare E x v constant false m = (.ok v, { m with heap := h' }) ∧
        FoundFrom (m.heap.Sees x E) x v m.heap h' ∧
        (x ∉ m.heap.constantsOf E → Action.scoping (·.delete E x) { m with heap := h' } = (.ok (), m))) := by
  have hassign := assign_outcome (E := E) (x := x) (v := v) hn
  refine ⟨⟨fun hr => ?_, fun hb => ?_⟩, fun hb => ?_, fun constant => ?_⟩
  · rcases hassign with ⟨-, hb⟩ | ⟨-, t, h', -, hrun, -⟩
    · exact hb
    · exact absurd hr (not_refuses_of_ok hrun)
  · rcases hassign with ⟨hr, -⟩ | ⟨hfree, -⟩
    · exact hr
    · exact absurd hb hfree
  · exact (hassign.resolve_left fun h => hb h.2).2
  · rcases declare_outcome (x := x) (v := v) hn hE constant with ⟨hr, hb⟩ | ⟨hb, h', hrun, hrest⟩
    · refine ⟨⟨fun _ => hb, fun _ => hr⟩, fun hnone => ?_⟩
      rw [hnone] at hb
      cases hb
    · refine ⟨⟨fun hr => absurd hr (not_refuses_of_ok hrun), fun hsome => ?_⟩, fun _ => ⟨h', hrun, hrest⟩⟩
      rw [hb] at hsome
      cases hsome

/-- A scope with a variable, and a scope inside it. -/
def twoScopes : Machine :=
  { Session.plainMachine with
    heap := { Heap.initial with
      scopes := #[⟨none, .ofList [("x", .null)], [], false⟩, ⟨some 0, .empty, [], false⟩] } }

theorem twoScopes_nested : twoScopes.heap.Nested := by
  intro s p hp
  obtain _ | _ | s := s
  · cases hp
  · cases hp
    exact Nat.zero_lt_one
  · cases hp

/-- A variable of the inner scope hides the outer one. -/
theorem scope_chain_laws_twoScopes : ∃ h',
    Evaluate.declare 1 "x" (.bool true) false false twoScopes = (.ok (.bool true), { twoScopes with heap := h' }) ∧
      FoundFrom (twoScopes.heap.Sees "x" 1) "x" (.bool true) twoScopes.heap h' ∧
      Action.scoping (·.delete 1 "x") { twoScopes with heap := h' } = (.ok (), twoScopes) := by
  have hlaws := scope_chain_laws twoScopes twoScopes_nested 1 (by decide) "x" (.bool true)
  obtain ⟨h', hrun, hfound, hdelete⟩ := (hlaws.2.2 false).2 rfl
  exact ⟨h', hrun, hfound, hdelete (by decide)⟩

end SmallScript.Machine
