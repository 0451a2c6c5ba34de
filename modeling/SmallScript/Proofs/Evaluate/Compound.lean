import SmallScript.Proofs.Evaluate.Literals
import SmallScript.Proofs.Session.Calls

/-!
# Compound assignments

A compound assignment `x += e` evaluates its right side twice. The first value is thrown away, and the number of `x` is
read after the second one. What it assigns then is what `x = x + e` assigns, with three exceptions: `^=` takes the
power, a division by zero is not reported as such, and a right side that is no number is an error.
`compound_assignment` compares the two assignments, the second one on the machine that the first evaluation leaves.
-/

namespace SmallScript.Evaluate

open Machine Syntax List
open Value (ScopeRef)
open Number (Numeric NumberFault)

/-- The operators of compound assignment, each with the binary operator that it applies. -/
def appliedOperators : List (String × String) :=
  [("+=", "+"), ("-=", "-"), ("*=", "*"), ("/=", "/"), ("%=", "%"), ("^=", "**"), ("&=", "&"), ("|=", "|"),
    ("<<=", "<<"), (">>=", ">>")]

/-- The operation of numbers is a division by zero. -/
def DividesByZero (op : String) (a b : Numeric) : Prop :=
  ∃ fault, arithmetic op a b = some (.error fault) ∧ isZeroDivision fault = true

/-- The assignment `x op e`, where the operator is a compound one. -/
def compoundAssignment (pos at_ : Pos) (x op : String) (e : Node) : Node :=
  .assignment pos (.identifier at_ x) e (some op)

/-- The assignment `x = x op e`. -/
def plainAssignment (pos at_ : Pos) (x op : String) (e : Node) : Node :=
  .assignment pos (.identifier at_ x) (.binary pos (.identifier at_ x) op e) none

section

variable {op op' : String} {a b : Numeric} {i j : Nat} {m : Machine}

/-! ## Operators -/

theorem arithmeticResult_eq_numberOf (pos : Pos) {r}
    (h : ∀ fault, r = .error fault → isZeroDivision fault = false) : arithmeticResult pos r = Action.numberOf r := by
  cases r with
  | ok n => rfl
  | error fault =>
    rw [arithmeticResult, h fault rfl]
    rfl

/-- Divisions by zero apart, a compound assignment has the value of its operator. -/
theorem compoundValue_eq_binary (hop : (op, op') ∈ appliedOperators) (hzero : ¬ DividesByZero op' a b) (pos : Pos) :
    compoundValue pos (some op) (.num a i) (.num b j) = binary pos op' (.num a i) (.num b j) := by
  have harithmetic r (hr : arithmetic op' a b = some r) : arithmeticResult pos r = .numberOf r := by
    refine arithmeticResult_eq_numberOf pos fun fault hfault => Bool.eq_false_iff.2 fun hkind => hzero ?_
    exact ⟨fault, hfault ▸ hr, hkind⟩
  simp only [appliedOperators, mem_cons, not_mem_nil, or_false] at hop
  rcases hop with ⟨rfl, rfl⟩ | ⟨rfl, rfl⟩ | ⟨rfl, rfl⟩ | ⟨rfl, rfl⟩ | ⟨rfl, rfl⟩ | ⟨rfl, rfl⟩ | ⟨rfl, rfl⟩ | ⟨rfl, rfl⟩ |
    ⟨rfl, rfl⟩ | ⟨rfl, rfl⟩
  · exact (harithmetic _ rfl).symm
  · exact (harithmetic _ rfl).symm
  · exact (harithmetic _ rfl).symm
  · have hnonzero : b.isZero = false := Bool.eq_false_iff.2 fun hb =>
      hzero ⟨.zeroDivisor, by rw [arithmetic, if_pos hb], rfl⟩
    have hdiv : arithmetic "/" a b = some (a.div b) := by rw [arithmetic, hnonzero, if_neg Bool.false_ne_true]
    rw [binary, numbersBinary, hdiv]
    exact (harithmetic _ hdiv).symm
  · exact (harithmetic _ rfl).symm
  all_goals rfl

theorem binary_of_dividesByZero (hzero : DividesByZero op a b) (pos : Pos) :
    binary pos op (.num a i) (.num b j) = Action.problem (.divisionByZero pos) := by
  obtain ⟨fault, hfault, hkind⟩ := hzero
  rw [binary, numbersBinary, hfault]
  exact if_pos hkind

theorem binary_number_other (hop : (op, op') ∈ appliedOperators) {w} (hw : ∀ b j, w ≠ .num b j) (pos : Pos) :
    binary pos op' (.num a i) w = pure .null := by
  simp only [appliedOperators, mem_cons, not_mem_nil, or_false] at hop
  cases w with
  | num b j => exact absurd rfl (hw b j)
  | _ =>
    rcases hop with ⟨rfl, rfl⟩ | ⟨rfl, rfl⟩ | ⟨rfl, rfl⟩ | ⟨rfl, rfl⟩ | ⟨rfl, rfl⟩ | ⟨rfl, rfl⟩ | ⟨rfl, rfl⟩ | ⟨rfl, rfl⟩ |
      ⟨rfl, rfl⟩ | ⟨rfl, rfl⟩ <;> rfl

/-! ## The two assignments -/

variable {x : String} {e : Node} {s : ScopeRef} {pos at_ : Pos} {f : Nat}

theorem consult_lookup {v} (h : m.heap.lookup? s x = some v) : Action.consult (·.lookup s x) m = (.ok v, m) := by
  rw [Action.consult, Heap.lookup, h]

/-- A compound assignment evaluates its right side, evaluates it again, and then reads the variable. -/
theorem eval_compoundAssignment (hop : op ∈ compoundOperators) :
    eval (f + 4) (compoundAssignment pos at_ x op e) s = (do
      let _ ← eval (f + 1) e s
      let new ← eval f e s
      let old ← Action.consult (·.lookup s x)
      assign s x (← compoundValue pos (some op) old new)) := by
  have hnonempty : op.isEmpty = false := by
    revert op
    decide
  have hknown : compoundOperators.contains op = true := contains_iff_mem.2 hop
  rw [compoundAssignment, eval_silent, evalNode, evalAssignment]
  simp only [Option.getD_some, hnonempty, hknown, Bool.not_true, Bool.and_false, Bool.false_eq_true, if_false,
    evalCompound, CompoundTarget.current, bind_assoc]

/-- A plain assignment reads the variable first. -/
theorem eval_plainAssignment {v} (hv : m.heap.lookup? s x = some v) :
    eval (f + 5) (plainAssignment pos at_ x op e) s m =
      (eval f e s >>= fun new => binary pos op v new >>= assign s x) m := by
  rw [plainAssignment, eval_silent, evalNode, evalAssignment, eval_silent, evalNode]
  -- with too little fuel the right side and the name fail alike
  rcases f with _ | _ | f
  · rw [eval, eval]
    rfl
  · rw [eval_silent, eval_silent, evalNode, evalNode]
    rfl
  · have hname : eval (f + 2) (.identifier at_ x) s m = (.ok v, m) := by
      rw [eval_silent, evalNode]
      exact consult_lookup hv
    rw [bind_assoc, Action.bind_of_ok hname, bind_assoc]
    rfl

end

/-- How a compound assignment ends, next to the plain one, after a second evaluation of the right side. The variable has
the first value before that evaluation. -/
structure Compared (op op' x : String) (s : ScopeRef) (pos : Pos) (old : Value)
    (second short long : Except Signal Value × Machine) : Prop where
  /-- if the right side fails, so do both -/
  failed : ∀ signal, second.1 = .error signal → short = second ∧ long = second
  /-- if the right side is a number and leaves the variable alone, the two agree, divisions by zero apart -/
  same : ∀ a i b j, second.1 = .ok (.num b j) → old = .num a i → second.2.heap.lookup? s x = some old →
    ¬ DividesByZero op' a b → short = long
  /-- if the right side gives the variable another number, that one is taken -/
  changed : ∀ a i b j, second.1 = .ok (.num b j) → second.2.heap.lookup? s x = some (.num a i) →
    ¬ DividesByZero op' a b → short = (binary pos op' (.num a i) (.num b j) >>= assign s x) second.2
  /-- the plain assignment reports a division by zero as a problem, the compound one fails with the fault -/
  zero : ∀ a i b j fault, second.1 = .ok (.num b j) → old = .num a i → second.2.heap.lookup? s x = some old →
    DividesByZero op' a b → compound op a b = some (.error fault) →
    short = (.error (.failure (.number fault)), second.2) ∧
      long = (.error (.failure (.problem (.divisionByZero pos))), second.2)
  /-- a right side that is no number is a problem of the compound assignment, while the plain one assigns null -/
  other : ∀ a i w, second.1 = .ok w → (∀ b j, w ≠ .num b j) → old = .num a i → second.2.heap.lookup? s x = some old →
    short = (.error (.failure (.problem (.compoundRight pos))), second.2) ∧ long = assign s x .null second.2

/-- A compound assignment evaluates its right side once more than the plain one does. If that fails, both assignments
do. Otherwise the compound assignment is the plain one on the machine that this evaluation leaves, except as
`Compared` says. -/
theorem compound_assignment {op op' : String} (hop : (op, op') ∈ appliedOperators) (x : String) (e : Node) (s : ScopeRef)
    (pos at_ : Pos) (f : Nat) (m m₁ : Machine) (old : Value) :
    (∀ signal, eval (f + 1) e s m = (.error signal, m₁) → m.heap.lookup? s x = some old →
      eval (f + 4) (compoundAssignment pos at_ x op e) s m = (.error signal, m₁) ∧
      eval (f + 6) (plainAssignment pos at_ x op' e) s m = (.error signal, m₁)) ∧
    (∀ v, eval (f + 1) e s m = (.ok v, m₁) → m₁.heap.lookup? s x = some old →
      Compared op op' x s pos old (eval f e s m₁) (eval (f + 4) (compoundAssignment pos at_ x op e) s m)
        (eval (f + 5) (plainAssignment pos at_ x op' e) s m₁)) := by
  have hknown : op ∈ compoundOperators := mem_map_of_mem (f := Prod.fst) hop
  rw [eval_compoundAssignment hknown]
  refine ⟨fun signal hfirst hx => ⟨Action.bind_of_error hfirst _, ?_⟩, fun v hfirst hx => ?_⟩
  · rw [eval_plainAssignment hx]
    exact Action.bind_of_error hfirst _
  rw [Action.bind_of_ok hfirst, eval_plainAssignment hx]
  generalize eval f e s = second
  have hvalue {w : Value} {m₂ : Machine} (hw : second m₁ = (.ok w, m₂)) {v : Value}
      (hv : m₂.heap.lookup? s x = some v) : (second >>= fun new => .consult (·.lookup s x) >>= fun old =>
        compoundValue pos (some op) old new >>= assign s x) m₁ =
        (compoundValue pos (some op) v w >>= assign s x) m₂ := by
    rw [Action.bind_of_ok hw, Action.bind_of_ok (consult_lookup hv)]
  cases hsecond : second m₁ with
  | mk r m₂ =>
  refine ⟨?_, ?_, ?_, ?_, ?_⟩
  · rintro signal rfl
    exact ⟨Action.bind_of_error hsecond _, Action.bind_of_error hsecond _⟩
  · rintro a i b j rfl rfl hold hzero
    rw [hvalue hsecond hold, Action.bind_of_ok hsecond, compoundValue_eq_binary hop hzero]
  · rintro a i b j rfl hnew hzero
    rw [hvalue hsecond hnew, compoundValue_eq_binary hop hzero]
  · rintro a i b j fault rfl rfl hold hzero hfault
    rw [hvalue hsecond hold, Action.bind_of_ok hsecond, binary_of_dividesByZero hzero, compoundValue, Option.getD_some,
      hfault]
    exact ⟨rfl, rfl⟩
  · rintro a i w rfl hw rfl hold
    rw [hvalue hsecond hold, Action.bind_of_ok hsecond, binary_number_other hop hw]
    refine ⟨?_, rfl⟩
    cases w with
    | num b j => exact absurd rfl (hw b j)
    | _ => rfl

/-- A session in which `x` is two. -/
def twoMachine : Machine := (Session.evaluateSource 0 "let x = len(\"aa\");" Session.openedMachine).2

/-- The assignment `x ^= 3` has the outcome of `x = x ** 3`. -/
theorem compound_assignment_power : eval 6 (compoundAssignment .zero .zero "x" "^=" (.number .zero (.int 3))) 0 twoMachine =
    eval 7 (plainAssignment .zero .zero "x" "**" (.number .zero (.int 3))) 0 twoMachine := by
  have hthree f : eval (f + 2) (.number .zero (.int 3)) 0 twoMachine = (.ok (.num (.int 3) 0), twoMachine) := by
    rw [eval_silent, evalNode]
    rfl
  have hx : twoMachine.heap.lookup? 0 "x" = some (.num (.int 2) 0) := by decide +kernel
  have hop : ("^=", "**") ∈ appliedOperators := by decide
  have hspec := (compound_assignment hop "x" (.number .zero (.int 3)) 0 .zero .zero 2 twoMachine twoMachine
    (.num (.int 2) 0)).2 _ (hthree 1) hx
  rw [hthree 0] at hspec
  refine hspec.same (.int 2) 0 (.int 3) 0 rfl rfl hx ?_
  rintro ⟨fault, hfault, -⟩
  cases hfault

/-- The operator `^` is the exclusive disjunction, while `^=` takes the power; and a call on the right side of a compound
assignment is made twice. -/
theorem compound_differs_from_operator :
    Session.answer "let x = len(\"aa\"); x ^= len(\"aaa\");" = (some (.num (.int 8) 0), "") ∧
    Session.answer "let x = len(\"aa\"); x = x ^ len(\"aaa\");" = (some (.num (.int 1) 0), "") ∧
    Session.answer "let x = len(\"\"); func f() \x7b print(\"f\"); return len(\"a\"); \x7d x += f();" =
      (some (.num (.int 1) 0), "f\nf\n") ∧
    Session.answer "let x = len(\"\"); func f() \x7b print(\"f\"); return len(\"a\"); \x7d x = x + f();" =
      (some (.num (.int 1) 0), "f\n") := by
  refine ⟨?_, ?_, ?_, ?_⟩
  all_goals decide +kernel

end SmallScript.Evaluate
