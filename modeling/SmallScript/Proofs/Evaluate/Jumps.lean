import SmallScript.Proofs.Machine.Changes

/-!
# Jumps

A `return`, `break` or `continue` leaves what is around it until something takes it. `Node.emits` reads off a tree which
jumps can leave it: loops take breaks and continues out of their bodies, declarations of functions and programs let
none out. A call takes returns only, so a function *leaks* the breaks and continues that leave its body.

A function that is called once stays in the heap, so what it leaks is leaked from there on.
-/

namespace SmallScript.Syntax

/-- What leaves a part of a program early. -/
inductive Jump where
  | ret
  | brk
  | cont
deriving DecidableEq

mutual

/-- The jump can leave the node, apart from calls in it. -/
def Node.emits (j : Jump) : Node → Bool
  | .ret _ value => j == .ret || value.emits j
  | .brk _ => j == .brk
  | .cont _ => j == .cont
  | .assignment _ target value _ => target.emits j || value.emits j
  | .binary _ left _ right => left.emits j || right.emits j
  | .variable _ _ _ value | .property _ _ value => value.emits j
  | .object _ nodes | .array _ nodes | .class _ _ nodes _ => Node.anyEmits j nodes
  | .call _ args callee => Node.anyEmits j args || callee.emits j
  | .member _ holder key _ => holder.emits j || key.emits j
  | .conditional _ condition yes no => condition.emits j || (Node.anyEmits j yes || Node.anyEmits j no)
  | .assertion _ condition _ => condition.emits j
  | .loop _ body => j == .ret && Node.anyEmits j body
  | .while _ head body | .for _ _ head body => j != .brk && head.emits j || j == .ret && Node.anyEmits j body
  | _ => false

def Node.anyEmits (j : Jump) : List Node → Bool
  | [] => false
  | n :: rest => n.emits j || Node.anyEmits j rest

end

/-- All jumps that can leave the node are allowed. -/
def EmitsOnly (allowed : Jump → Prop) (n : Node) : Prop := ∀ j, n.emits j = true → allowed j

def AllEmitOnly (allowed : Jump → Prop) (ns : List Node) : Prop := ∀ j, Node.anyEmits j ns = true → allowed j

variable {allowed : Jump → Prop}

theorem allEmitOnly_cons {n ns} : AllEmitOnly allowed (n :: ns) ↔ EmitsOnly allowed n ∧ AllEmitOnly allowed ns := by
  simp only [AllEmitOnly, EmitsOnly, Node.anyEmits, Bool.or_eq_true, or_imp, forall_and]

theorem AllEmitOnly.filter {ns} (h : AllEmitOnly allowed ns) (keep : Node → Bool) :
    AllEmitOnly allowed (ns.filter keep) := by
  induction ns with
  | nil => exact h
  | cons n ns ih =>
    rw [allEmitOnly_cons] at h
    rw [List.filter_cons]
    split
    · exact allEmitOnly_cons.2 ⟨h.1, ih h.2⟩
    · exact ih h.2

end SmallScript.Syntax

namespace SmallScript.Machine

open Syntax

/-- The jump that a signal is. -/
def Signal.jump? : Signal → Option Jump
  | .failure _ => none
  | .ret _ => some .ret
  | .brk => some .brk
  | .cont => some .cont

/-- A call of the function does not take the jump, and it can leave the body. -/
def Closure.leaks (c : Closure) (j : Jump) : Bool := j != .ret && Node.anyEmits j c.body

/-- Some function of the heap leaks the jump. -/
def Heap.Leaks (h : Heap) (j : Jump) : Prop := ∃ (i : Nat) (c : Closure), h.closures[i]? = some c ∧ c.leaks j = true

/-- The functions of the first heap are in the second one. -/
def Heap.KeepsFunctions (h h' : Heap) : Prop :=
  ∀ (i : Nat) (c : Closure), h.closures[i]? = some c → h'.closures[i]? = some c

theorem Heap.KeepsFunctions.trans {h h' h'' : Heap} (hk : h.KeepsFunctions h') (hk' : h'.KeepsFunctions h'') :
    h.KeepsFunctions h'' :=
  fun i c hc => hk' i c (hk i c hc)

theorem Path.keepsFunctions {strict : Prop} {h h'} (hp : Path strict h h') : h.KeepsFunctions h' := by
  induction hp with
  | refl => exact fun _ _ hc => hc
  | tail _ hs ih => exact ih.trans fun _ _ hc => hs.parts.closures.getElem? hc

end SmallScript.Machine
