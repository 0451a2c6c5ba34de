import SmallScript.Proofs.Machine.Ordinary

/-!
# Constants

A scope lists some of the names it binds as constants. `Loses h h' S x` says that the constant `x` of the scope `S` has
another value in the second heap, or none. Of the changes that a program makes, only those that overwrite or remove a
variable cost a constant its value, and these are made for the statements that `Node.Overwrites` lists.

A change is *lawful* for a statement if it leaves the heap ordinary and costs no constant its value but those which the
statement overwrites.
-/

namespace SmallScript.Syntax

open Value (ScopeRef)

/-- The statement, executed in a scope `s`, may overwrite or remove the name `x` of the scope `S` though it is a
constant: a loop over `x`, in whatever scope, and in `S` itself an import of the name `x` and a removal of it. -/
def Node.Overwrites : Node → ScopeRef → ScopeRef → String → Prop
  | .for _ target _ _, _, _, x => target.name? = some x
  | .importing _ _ (some names) _, s, S, x => s = S ∧ x ∈ names
  | .del _ target, s, S, x => s = S ∧ target.name? = some x
  | _, _, _, _ => False

end SmallScript.Syntax

namespace SmallScript.Machine

open Value (ScopeRef ObjectRef)
open Data (Table)
open Number (Numeric NumberFault)
open Syntax (Node)

namespace Heap

/-- The value that a name has in the scope itself. -/
def bound? (h : Heap) (S : ScopeRef) (x : String) : Option Value := h.scopes[S]?.bind (·.vars.get? x)

/-- A constant that the scope binds in the first heap has another value in the second one, or none. -/
structure Loses (h h' : Heap) (S : ScopeRef) (x : String) : Prop where
  constant : h.isConstant S x = true
  bound : (h.bound? S x).isSome = true
  changed : h'.bound? S x ≠ h.bound? S x

variable {h h' : Heap} {s S : ScopeRef} {name x : String} {v : Value} {constant overwrite : Bool}

theorem bindsHere_eq (h : Heap) (s : ScopeRef) (name : String) : h.bindsHere s name = (h.bound? s name).isSome := by
  unfold bindsHere bound? Table.contains
  cases h.scopes[s]? <;> rfl

/-! ## What changes of scopes leave -/

theorem bound?_of_scopes (hs : h'.scopes = h.scopes) (S : ScopeRef) (x : String) : h'.bound? S x = h.bound? S x := by
  rw [bound?, bound?, hs]

theorem bound?_push {scope} (hb : (h.bound? S x).isSome = true) :
    Heap.bound? { h with scopes := h.scopes.push scope } S x = h.bound? S x := by
  unfold bound? at hb ⊢
  rw [Array.getElem?_push]
  split
  · next hS =>
    rw [hS, Array.getElem?_eq_none (le_refl _)] at hb
    cases hb
  · rfl

theorem bound?_modifyScope_ne {f} (hf : S = s → ∀ scope, (f scope).vars.get? x = scope.vars.get? x) :
    (h.modifyScope s f).bound? S x = h.bound? S x := by
  unfold bound? modifyScope
  rw [Array.getElem?_modify]
  split
  · next hS =>
    subst hS
    cases h.scopes[s]? with
    | none => rfl
    | some scope => exact hf rfl scope
  · rfl

theorem bound?_bind_ne (hne : ¬ (S = s ∧ x = name)) : (h.bind s name v).bound? S x = h.bound? S x :=
  bound?_modifyScope_ne fun hS scope => by
    rw [Table.get?_insert, if_neg fun hx => hne ⟨hS, hx⟩]

theorem bound?_addConstant : (h.addConstant s name).bound? S x = h.bound? S x := bound?_modifyScope_ne fun _ _ => rfl

theorem bound?_unbind_ne (hne : ¬ (S = s ∧ x = name)) : (h.unbind s name).bound? S x = h.bound? S x :=
  bound?_modifyScope_ne fun hS _ => Table.get?_erase_ne _ fun hx => hne ⟨hS, hx⟩

/-! ## What costs a constant its value -/

theorem not_loses_of_scopes (hs : h'.scopes = h.scopes) : ¬ h.Loses h' S x := fun hl =>
  hl.changed (bound?_of_scopes hs S x)

theorem not_loses_push {scope} : ¬ h.Loses { h with scopes := h.scopes.push scope } S x := fun hl =>
  hl.changed (bound?_push hl.bound)

theorem declare_ok (hd : h.declare s name v constant overwrite = .ok h') :
    (overwrite = false → h.bound? s name = none) ∧
      h' = if constant then (h.bind s name v).addConstant s name else h.bind s name v :=
  (declare_eq_ok hd).imp_left fun hnew ho => by simpa [bindsHere_eq] using hnew ho

/-- A declaration changes the value of the name it declares only. -/
theorem eq_of_loses_declare (hd : h.declare s name v constant overwrite = .ok h') (hl : h.Loses h' S x) :
    S = s ∧ x = name := by
  refine Classical.byContradiction fun hne => hl.changed ?_
  rw [(declare_ok hd).2]
  split
  · rw [bound?_addConstant]
    exact bound?_bind_ne hne
  · exact bound?_bind_ne hne

/-- A declaration that must not overwrite is made of a name that has no value. -/
theorem not_loses_declare (hd : h.declare s name v constant false = .ok h') : ¬ h.Loses h' S x := by
  intro hl
  obtain ⟨rfl, rfl⟩ := eq_of_loses_declare hd hl
  have hbound := hl.bound
  rw [(declare_ok hd).1 rfl] at hbound
  cases hbound

/-- An assignment changes a variable of that name. -/
theorem eq_of_loses_assign (ha : h.assign s name v overwrite = .ok h') (hl : h.Loses h' S x) : x = name := by
  obtain ⟨found, -, rfl⟩ := assign_eq_ok ha
  exact Classical.byContradiction fun hne => hl.changed (bound?_bind_ne fun he => hne he.2)

/-- An assignment that must not overwrite is made to a variable that is no constant. -/
theorem not_loses_assign (ha : h.assign s name v false = .ok h') : ¬ h.Loses h' S x := by
  intro hl
  obtain ⟨found, hfree, rfl⟩ := assign_eq_ok ha
  refine hl.changed (bound?_bind_ne ?_)
  rintro ⟨rfl, rfl⟩
  have hconstant := hl.constant
  rw [hfree rfl] at hconstant
  cases hconstant

theorem eq_of_loses_delete (hd : h.delete s name = .ok h') (hl : h.Loses h' S x) : S = s ∧ x = name := by
  cases delete_eq_ok hd
  exact Classical.byContradiction fun hne => hl.changed (bound?_unbind_ne hne)

/-! ## Ordinary heaps stay ordinary -/

theorem Ordinary.addConstant (ho : h.Ordinary) (s : ScopeRef) (name : String) : (h.addConstant s name).Ordinary :=
  ho.modifyScope s fun _ => id

theorem Ordinary.declare (ho : h.Ordinary) (hv : v.Ordinary) (hd : h.declare s name v constant overwrite = .ok h') :
    h'.Ordinary := by
  rw [(declare_ok hd).2]
  split
  · exact (ho.bind s name hv).addConstant s name
  · exact ho.bind s name hv

theorem Ordinary.assign (ho : h.Ordinary) (hv : v.Ordinary) (ha : h.assign s name v overwrite = .ok h') :
    h'.Ordinary := by
  obtain ⟨found, -, rfl⟩ := assign_eq_ok ha
  exact ho.bind found name hv

theorem Ordinary.delete (ho : h.Ordinary) (hd : h.delete s name = .ok h') : h'.Ordinary := by
  cases delete_eq_ok hd
  exact ho.modifyScope s fun _ hs => hs.erase name

end Heap

/-! ## Lawful changes -/

/-- A change that a statement may make in a scope. -/
structure Lawful (n : Node) (s : ScopeRef) (h h' : Heap) : Prop where
  step : Step False h h'
  ordinary : h'.Ordinary
  loses : ∀ S x, h.Loses h' S x → n.Overwrites s S x

theorem Lawful.of_scopes {n s h h'} (hstep : Step False h h') (ho : h'.Ordinary)
    (hs : h'.scopes = h.scopes) : Lawful n s h h' :=
  ⟨hstep, ho, fun _ _ hl => absurd hl (Heap.not_loses_of_scopes hs)⟩

end SmallScript.Machine
