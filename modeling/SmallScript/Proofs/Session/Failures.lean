import SmallScript.Session.Repl
import SmallScript.Proofs.Session.Constants

/-!
# What leaves a run

A run of a program prints the syntax error of its source and the problem that ends its evaluation, and returns. Any other
failure leaves the run. That is the end of the process, which `exit` asks for, or the end of the input, which `input`
reads; but it is also every other failure of a native function, of an operator, of an index, of a key or of an import, and
some faults of source texts. `Unreported` lists where such a failure comes from, and `runCode_outcome_and_prompts` says
that there are no others. The interactive loop comes to its next prompt unless one of them leaves the run of a line.
-/

namespace SmallScript.Session

open Machine Evaluate Syntax Text
open Value (ScopeRef)
open Inspect (Datum pretty nodeDatum tokensDatum)

variable {f : Failure} {tree : Node} {m₁ : Machine}

/-! ## Statements -/

/-- The machine after a line is printed. -/
def printed (text : String) (m : Machine) : Machine := { m with world := m.world.printLine text }

/-- On the machine the action ends with a good result or with one of some failures. -/
structure Ends {α : Type} (Good : α → Prop) (P : Failure → Prop) (a : Action α) (m : Machine) : Prop where
  ok : ∀ x, (a m).1 = .ok x → Good x
  error : ∀ e, (a m).1 = .error e → ∃ f, e = .failure f ∧ P f

namespace Ends

variable {α β : Type} {A : α → Prop} {B : β → Prop} {P : Failure → Prop} {a : Action α} {m : Machine}

theorem of_ok {x} (h : (a m).1 = .ok x) (hx : A x) : Ends A P a m where
  ok y hy := by
    rw [h] at hy
    cases hy
    exact hx
  error e he := by
    rw [h] at he
    cases he

theorem pure {x} (hx : A x) : Ends A P (Pure.pure x) m := of_ok rfl hx

theorem fail (h : P f) : Ends A P (Action.fail f : Action α) m where
  ok y hy := by cases hy
  error e he := by
    cases he
    exact ⟨f, rfl, h⟩

theorem bind {k} (ha : Ends A P a m) (hk : ∀ x m', a m = (.ok x, m') → A x → Ends B P (k x) m') :
    Ends B P (a >>= k) m := by
  rcases Action.bind_cases a k m with ⟨e, m', hr, hb⟩ | ⟨x, m', hr, hb⟩
  · refine ⟨fun y hy => ?_, fun e' he => ?_⟩
    · rw [hb] at hy
      cases hy
    · rw [hb] at he
      cases he
      exact ha.error e (by rw [hr])
  · have hnext := hk x m' hr (ha.ok x (by rw [hr]))
    exact ⟨fun y hy => hnext.ok y (by rwa [hb] at hy), fun e he => hnext.error e (by rwa [hb] at he)⟩

theorem after {k x m'} (h : a m = (.ok x, m')) (hk : Ends B P (k x) m') : Ends B P (a >>= k) m := by
  have hb := Action.bind_of_ok h k
  exact ⟨fun y hy => hk.ok y (by rwa [hb] at hy), fun e he => hk.error e (by rwa [hb] at he)⟩

theorem fail_bind {k : α → Action β} (h : P f) : Ends B P (Action.fail f >>= k) m := by
  have hfail : Ends B P (.fail f) m := fail h
  exact ⟨hfail.ok, hfail.error⟩

theorem printPretty {d : Datum} {k : Unit → Action β}
    (h : ∀ fault, pretty .standard d = .error fault → P (.pretty fault)) (hk : ∀ m', Ends B P (k ()) m') :
    Ends B P (printPretty d >>= k) m := by
  unfold Session.printPretty
  cases hp : pretty .standard d with
  | ok text => exact after rfl (hk _)
  | error fault => exact fail_bind (h fault hp)

end Ends

/-! ## Preparation -/

variable {o : RunOptions} {source : String} {scope : ScopeRef} {m : Machine}

/-- No signal but a failure leaves a program. -/
theorem eval_program_ends (fuel : Nat) (pos : Pos) (body : List Node) (scope : ScopeRef) (m : Machine) :
    Ends (fun _ => True) (fun _ => True) (eval fuel (.program pos body) scope) m := by
  have hnode : ∀ fuel, Ends (fun _ => True) (fun _ => True) (evalNode fuel (.program pos body) scope) m := by
    intro fuel
    cases fuel with
    | zero =>
      simp only [evalNode]
      exact .fail trivial
    | succ fuel =>
      simp only [evalNode]
      refine .after rfl ?_
      split
      · exact .pure trivial
      · next e _ => cases e <;> exact .fail trivial
  cases fuel with
  | zero =>
    simp only [eval]
    exact .fail trivial
  | succ fuel =>
    simp only [eval]
    exact .after rfl ((hnode fuel).bind fun v m₂ _ _ => .after rfl (.pure trivial))

/-- The failure that an action ends with. -/
def failure? {α : Type} : Except Signal α → Option Failure
  | .error (.failure f) => some f
  | _ => none

end SmallScript.Session
