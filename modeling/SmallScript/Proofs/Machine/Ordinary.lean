import SmallScript.Proofs.Machine.Changes

/-!
# Ordinary heaps

The object that an import of a file or a package yields is the scope of that program, and an assignment to a member of
it writes to that scope. A tree is `Domestic` if it imports built-in modules only. Then no such object comes up: a heap
is `Ordinary` if no value in it is a scope and the code of all its functions is domestic.

Each change of a heap that brings in nothing else leaves it ordinary.
-/

namespace SmallScript

open Value (ScopeRef ObjectRef ModuleItem modules)
open Data (Table)
open Syntax (Node)

/-- The value is no scope. -/
def Value.Ordinary : Value → Prop
  | .object (.scope _) => False
  | _ => True

namespace Syntax

open Machine (Heap)

mutual

/-- Every import in the tree is one of a built-in module. -/
def Node.Domestic : Node → Prop
  | .absent | .emptyStatement _ | .emptyExpression _ | .number .. | .string .. | .brk _ | .cont _
  | .identifier .. => True
  | .program _ body | .loop _ body | .function _ _ _ body => AllDomestic body
  | .assignment _ target value _ | .variable _ _ target value => target.Domestic ∧ value.Domestic
  | .binary _ left _ right => left.Domestic ∧ right.Domestic
  | .property _ _ value | .ret _ value => value.Domestic
  | .object _ parts | .array _ parts | .class _ _ parts _ | .enum _ _ parts => AllDomestic parts
  | .call _ args callee => AllDomestic args ∧ callee.Domestic
  | .member _ object property _ => object.Domestic ∧ property.Domestic
  | .conditional _ condition yes no => condition.Domestic ∧ AllDomestic yes ∧ AllDomestic no
  | .importing _ module _ _ => (Heap.module? module).isSome = true
  | .while _ condition body => condition.Domestic ∧ AllDomestic body
  | .for _ target iterator body => target.Domestic ∧ iterator.Domestic ∧ AllDomestic body
  | .del _ target => target.Domestic
  | .assertion _ condition _ => condition.Domestic

def AllDomestic : List Node → Prop
  | [] => True
  | n :: ns => n.Domestic ∧ AllDomestic ns

end

theorem allDomestic_iff {ns} : AllDomestic ns ↔ ∀ n ∈ ns, n.Domestic := by
  induction ns with
  | nil => simp [AllDomestic]
  | cons n ns ih => simp [AllDomestic, ih]

theorem AllDomestic.filter {ns} (h : AllDomestic ns) (p : Node → Bool) : AllDomestic (ns.filter p) :=
  allDomestic_iff.2 fun n hn => allDomestic_iff.1 h n (List.mem_of_mem_filter hn)

end Syntax

namespace Machine

open Syntax (AllDomestic)

namespace Heap

/-- No value in the heap is a scope, and the code of its functions is domestic. -/
structure Ordinary (h : Heap) : Prop where
  scopes : ∀ (i : Nat) (scope : Scope), h.scopes[i]? = some scope → scope.vars.All Value.Ordinary
  arrays : ∀ (i : Nat) (elements : Array Value), h.arrays[i]? = some elements → ∀ v ∈ elements, v.Ordinary
  records : ∀ (i : Nat) (r : Record), h.records[i]? = some r → r.fields.All Value.Ordinary
  closures : ∀ (i : Nat) (c : Closure), h.closures[i]? = some c → AllDomestic c.body
  classes : ∀ (i : Nat) (c : ClassDef), h.classes[i]? = some c → c.members.All Value.Ordinary
  enums : ∀ (i : Nat) (e : EnumDef), h.enums[i]? = some e → e.members.All Value.Ordinary

namespace Ordinary

variable {h : Heap} (ho : h.Ordinary)
include ho

/-! ## Reading -/

theorem lookup? {s name v} (hv : h.lookup? s name = some v) : v.Ordinary := by
  obtain ⟨found, -, hv⟩ := Option.bind_eq_some_iff.1 hv
  obtain ⟨scope, hscope, hv⟩ := Option.bind_eq_some_iff.1 hv
  exact (ho.scopes found scope hscope).get? hv

theorem elements (ref : Nat) : ∀ v ∈ h.elements ref, v.Ordinary := by
  unfold Heap.elements
  cases hr : h.arrays[ref]? with
  | none => exact fun v hv => by simp at hv
  | some elements => exact ho.arrays ref elements hr

theorem fields (ref : ObjectRef) : (h.fields ref).All Value.Ordinary := forall_fields ho.scopes ho.records .empty ref

/-! ## New cells -/

theorem newArray {elements} (he : ∀ v ∈ elements, v.Ordinary) : (h.newArray elements).2.Ordinary :=
  { ho with arrays := forall_push ho.arrays he }

theorem newObject {fields} (hf : fields.All Value.Ordinary) (frozen : Bool) : (h.newObject fields frozen).2.Ordinary :=
  { ho with records := forall_push ho.records hf }

theorem newClosure {c} (hc : AllDomestic c.body) : (h.newClosure c).2.Ordinary :=
  { ho with closures := forall_push ho.closures hc }

theorem newClass {c} (hc : c.members.All Value.Ordinary) : (h.newClass c).2.Ordinary :=
  { ho with classes := forall_push ho.classes hc }

theorem newEnum {e} (he : e.members.All Value.Ordinary) : (h.newEnum e).2.Ordinary :=
  { ho with enums := forall_push ho.enums he }

theorem newNumber (n : Number.Numeric) : (h.newNumber n).2.Ordinary := by
  unfold Heap.newNumber
  split
  · exact { ho with }
  · exact ho

theorem pushScope {scope} (hs : scope.vars.All Value.Ordinary) : Ordinary { h with scopes := h.scopes.push scope } :=
  { ho with scopes := forall_push ho.scopes hs }

theorem newScope (parent : ScopeRef) : (h.newScope parent).2.Ordinary := ho.pushScope .empty

theorem newGlobal (guarded : Bool) : (h.newGlobal guarded).2.Ordinary := by
  refine ho.pushScope (fun e he => ?_)
  rcases List.mem_append.1 he with he | he
  · simp only [List.mem_cons, List.not_mem_nil, or_false] at he
    rcases he with rfl | rfl | rfl <;> exact trivial
  · obtain ⟨f, -, rfl⟩ := List.mem_map.1 he
    exact trivial

/-! ## Changes -/

theorem modifyScope (s : ScopeRef) {f}
    (hf : ∀ scope, scope.vars.All Value.Ordinary → (f scope).vars.All Value.Ordinary) :
    (h.modifyScope s f).Ordinary :=
  { ho with scopes := forall_modify ho.scopes hf }

theorem bind (s : ScopeRef) (name : String) {v} (hv : v.Ordinary) : (h.bind s name v).Ordinary :=
  ho.modifyScope s fun _ hs => hs.insert name hv

theorem setField (i : Nat) (name : String) {v} (hv : v.Ordinary) : (h.setField (.record i) name v).Ordinary :=
  { ho with records := forall_modify ho.records fun _ hr => hr.insert name hv }

theorem setArrays {arrays}
    (ha : ∀ (i : Nat) (elements : Array Value), arrays[i]? = some elements → ∀ v ∈ elements, v.Ordinary) :
    Ordinary { h with arrays } :=
  { ho with arrays := ha }

theorem setElements (ref : Nat) {elements} (he : ∀ v ∈ elements, v.Ordinary) :
    (h.setElements ref elements).Ordinary := by
  refine ho.setArrays fun i xs hxs => ?_
  rw [Array.getElem?_setIfInBounds] at hxs
  split at hxs
  · split at hxs
    · cases hxs
      exact he
    · cases hxs
  · exact ho.arrays i xs hxs

end Ordinary

/-- What a module holds is no scope. -/
theorem itemValue_ordinary (item : ModuleItem) : (itemValue item).Ordinary := by
  cases item <;> exact trivial

theorem initial_ordinary : initial.Ordinary where
  scopes i scope hs := by simp [initial] at hs
  arrays i elements he := by simp [initial] at he
  records i r hr := by
    have hmem : r ∈ initial.records := Array.mem_of_getElem? hr
    obtain ⟨m, -, rfl⟩ := List.mem_map.1 (List.mem_toArray.1 hmem)
    intro e he
    obtain ⟨item, -, rfl⟩ := List.mem_map.1 he
    exact itemValue_ordinary item.2
  closures i c hc := by simp [initial] at hc
  classes i c hc := by simp [initial] at hc
  enums i e he := by simp [initial] at he

end Heap

end Machine

end SmallScript
