import SmallScript.Proofs.Session.Failures

/-!
# What leaves a call

A call of a function takes the returns out of its body and nothing else. So it ends with a value or a failure as long as
breaks and continues stand in loops of the same function; one that does not goes on into the caller, where it ends a loop
or a round of it: `calls_leak_stray_jumps`.
-/

namespace SmallScript.Session

open Machine Evaluate Syntax
open Value (ScopeRef)

/-- The body of a function, run in a new scope with the arguments. -/
def runBody (fuel : Nat) (c : Closure) (args : List Value) : Action Value := do
  let inner ← Action.onHeap (·.newScope c.scope)
  declareParams inner c.params args
  evalBody fuel .null c.body inner

/-- The value of a call, or the signal that leaves it, out of what the body ends with. -/
def ofBody : Except Signal Value → Except Signal Value
  | .ok _ => .ok .null
  | .error (.ret v) => .ok v
  | .error e => .error e

theorem declareParams_ends (s : ScopeRef) (params : List String) (args : List Value) (m : Machine) :
    Ends (fun _ => True) (fun _ => True) (declareParams s params args) m := by
  induction params generalizing args m with
  | nil => exact .pure trivial
  | cons p ps ih =>
    refine .bind ⟨fun _ _ => trivial, fun e he => ?_⟩ fun _ m1 _ _ => ih args.tail m1
    unfold Action.scoping at he
    split at he
    · cases he
    · cases he
      exact ⟨_, rfl, trivial⟩

/-- A call ends as the body does, apart from returns. -/
theorem evalCall_func {m ref c} (hc : m.heap.closures[ref]? = some c) (fuel : Nat)
    (pos : Pos) (args : List Value) (s : ScopeRef) :
    (evalCall (fuel + 1) pos (.func ref) args s m).1 = ofBody (runBody fuel c args m).1 := by
  have hscope : Action.onHeap (·.newScope c.scope) m =
      (.ok m.heap.scopes.size, { m with heap := (m.heap.newScope c.scope).2 }) := rfl
  simp only [evalCall]
  rw [Action.heap_bind]
  simp only [hc]
  rw [runBody, Action.bind_of_ok hscope, Action.bind_of_ok hscope]
  generalize { m with heap := (m.heap.newScope c.scope).2 } = m1
  generalize m.heap.scopes.size = inner
  cases hparams : declareParams inner c.params args m1 with
  | mk r m2 =>
    cases r with
    | error e =>
      obtain ⟨f, rfl, -⟩ := (declareParams_ends inner c.params args m1).error e (by rw [hparams])
      rw [Action.bind_of_error hparams, Action.bind_of_error hparams]
      rfl
    | ok _ =>
      rw [Action.bind_of_ok hparams, Action.bind_of_ok hparams]
      cases hbody : evalBody fuel .null c.body inner m2 with
      | mk r m3 =>
        rw [Action.attempt_bind hbody]
        cases r with
        | ok v => rfl
        | error e => cases e <;> rfl

/-- The jump that leaves an action. -/
def leaving? {α : Type} : Except Signal α → Option Jump
  | .ok _ => none
  | .error e => e.jump?

theorem leaving?_eq_none {α : Type} {r : Except Signal α} :
    leaving? r = none ↔ (∃ v, r = .ok v) ∨ ∃ f, r = .error (.failure f) := by
  cases r with
  | ok v => simp [leaving?]
  | error e => cases e <;> simp [leaving?, Signal.jump?]

theorem leaving?_ofBody (r : Except Signal Value) (j : Jump) :
    leaving? (ofBody r) = some j ↔ leaving? r = some j ∧ j ≠ .ret := by
  cases r with
  | ok v => simp [ofBody, leaving?]
  | error e =>
    cases e with
    | ret v => simp +contextual [ofBody, leaving?, Signal.jump?, eq_comm]
    | failure f => simp [ofBody, leaving?, Signal.jump?]
    | brk | cont =>
      simp only [ofBody, leaving?, Signal.jump?, Option.some.injEq, iff_self_and]
      rintro rfl
      exact fun h => by cases h

/-- What leaves the calls that are made on a machine and the programs that are run on it. -/
structure JumpsAccounted (m : Machine) : Prop where
  /-- a call yields a value or fails, or a break or continue leaves it, and then there is a function with one that stands
  in no loop of the function -/
  calls : ∀ (fuel : Nat) (pos : Pos) (f : Value) (args : List Value) (s : ScopeRef),
    (∃ v, (evalCall fuel pos f args s m).1 = .ok v) ∨
    (∃ failure, (evalCall fuel pos f args s m).1 = .error (.failure failure)) ∨
    ∃ j, leaving? (evalCall fuel pos f args s m).1 = some j ∧ (j = .brk ∨ j = .cont) ∧
      ∃ (i : Nat) (c : Closure), (evalCall fuel pos f args s m).2.heap.closures[i]? = some c ∧
        Node.anyEmits j c.body = true
  /-- what leaves the call of a function is what leaves its body, apart from returns -/
  bodies : ∀ (fuel : Nat) (pos : Pos) (ref : Nat) (c : Closure) (args : List Value) (s : ScopeRef) (j : Jump),
    m.heap.closures[ref]? = some c →
    (leaving? (evalCall (fuel + 1) pos (.func ref) args s m).1 = some j ↔
      leaving? (runBody fuel c args m).1 = some j ∧ j ≠ .ret)
  /-- a program yields a value or fails -/
  programs : ∀ (fuel : Nat) (pos : Pos) (body : List Node) (s : ScopeRef),
    (∃ v, (eval fuel (.program pos body) s m).1 = .ok v) ∨
    ∃ failure, (eval fuel (.program pos body) s m).1 = .error (.failure failure)

/-- On every machine, a call ends with a value or a failure unless some function has a break or continue outside of its
own loops. Such a jump leaves the call exactly if it leaves the body, and it ends at the latest where the program does,
with a failure. -/
theorem calls_leak_stray_jumps (m : Machine) : JumpsAccounted m where
  calls fuel pos f args s := by
    cases hr : leaving? (evalCall fuel pos f args s m).1 with
    | none => exact (leaving?_eq_none.1 hr).imp_right .inl
    | some j =>
      refine .inr (.inr ⟨j, rfl, ?_⟩)
      have hready : Ready ((Terms.loose [] fun _ => True).letting fun _ => False) s m := ⟨False.elim, False.elim, False.elim⟩
      have hargs : False → ∀ v ∈ args, v.Ordinary := False.elim
      obtain ⟨_, -, hyields, -⟩ := (EvaluatorConducts.all fuel).evalCall hready hargs pos f
      obtain ⟨e, he, hj⟩ : ∃ e, (evalCall fuel pos f args s m).1 = .error e ∧ e.jump? = some j := by
        cases hout : (evalCall fuel pos f args s m).1 with
        | ok v =>
          rw [hout] at hr
          cases hr
        | error e =>
          rw [hout] at hr
          exact ⟨e, rfl, hr⟩
      obtain ⟨i, c, hc, hleaks⟩ := (hyields.jumps e j he hj).resolve_left id
      rw [Closure.leaks, Bool.and_eq_true, bne_iff_ne] at hleaks
      refine ⟨?_, i, c, hc, hleaks.2⟩
      cases j with
      | ret => exact absurd rfl hleaks.1
      | brk => exact .inl rfl
      | cont => exact .inr rfl
  bodies fuel pos ref c args s j hc := by
    rw [evalCall_func hc]
    exact leaving?_ofBody _ j
  programs fuel pos body s := by
    have hends := eval_program_ends fuel pos body s m
    cases hr : (eval fuel (.program pos body) s m).1 with
    | ok v => exact .inl ⟨v, rfl⟩
    | error e =>
      obtain ⟨failure, rfl, -⟩ := hends.error e hr
      exact .inr ⟨failure, rfl⟩

/-- A process with one session. -/
def openedMachine : Machine := ((Job.openScope false).run plainMachine).2

/-- The value of a program in a new session, and what it prints. -/
def answer (source : String) : Option Value × String :=
  let (r, m) := evaluateSource 0 source openedMachine
  (r.toOption, m.world.output)

/-- The break of a function leaves its call and ends the loop of the caller: the program yields a value. Where no loop is
around the call the break is reported. -/
theorem break_ends_loop_of_caller :
    leaving? (evalCall 9 .zero (.func 0) [] 0 (evaluateSource 0 "func f() \x7b break; \x7d" openedMachine).2).1 =
      some .brk ∧
    ((evaluateSource 0 "func f() \x7b break; \x7d loop \x7b f(); \x7d" openedMachine).1.toOption.map (·.kind) =
      some "NullValue") ∧
    failure? (evaluateSource 0 "func f() \x7b break; \x7d f();" openedMachine).1 =
      some (.problem (.breakOutside .zero)) := by
  refine ⟨?_, ?_, ?_⟩
  all_goals decide +kernel

end SmallScript.Session
