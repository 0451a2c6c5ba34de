import SmallScript.Proofs.Evaluate.Hazards
import SmallScript.Proofs.Evaluate.Log

/-!
# Who is to blame for a failure

An evaluation that fails, with anything but a reported problem, has passed the node or the native function that raised
the failure: one that has failures of this kind among its hazards and fails with this one on the machine at which it
was passed.
-/

namespace SmallScript.Evaluate

open Machine
open Value (ScopeRef Native)
open Syntax

/-- The failure is raised at an event on a machine, and it is one of the hazards there. -/
inductive Raises (f : Failure) : Event → Machine → Prop where
  | node {n : Node} {s : ScopeRef} {m : Machine} {fuel : Nat} (hkind : f.kind ∈ nodeHazards n)
    (hraise : (evalNode fuel n s m).1 = .error (.failure f)) : Raises f (.enter n s) m
  | native {g : Native} {args : List Value} {s : ScopeRef} {m : Machine} {pos : Pos}
    (hkind : f.kind ∈ Library.hazards g) (hraise : (Library.call g args s pos m).1 = .error (.failure f)) :
    Raises f (.call g args s) m

/-- Where the failure of an action comes from: it is a reported problem, or the bound on the evaluation is reached, or
the action has failures of that kind by itself, or it is raised at an event in the log of the action. -/
inductive Cause (kinds : List FailureKind) (log : List Entry) (f : Failure) : Prop where
  | reported (h : f.kind = .runtime)
  | endless (h : f = .outOfFuel)
  | own (h : f.kind ∈ kinds)
  | raised {e : Event} {m : Machine} (h : Raises f e m) (hmem : .event e m ∈ log)

theorem Cause.imp {kinds kinds' log log' f} (h : Cause kinds log f)
    (hown : f.kind ∈ kinds → Cause kinds' log' f) (hlog : ∀ e m, .event e m ∈ log → .event e m ∈ log') :
    Cause kinds' log' f := by
  cases h with
  | reported h => exact .reported h
  | endless h => exact .endless h
  | own h => exact hown h
  | raised h hmem => exact .raised h (hlog _ _ hmem)

end SmallScript.Evaluate
