import SmallScript.Proofs.Evaluate.Neat
import SmallScript.Proofs.Session.Calls

/-!
# The constants that scopes list, through runs of programs

Scopes stay neat through all that programs do, apart from imports of names that are constants already: these are listed
once more. A name that is listed twice is a constant still after it has been removed and declared as a variable, since a
removal takes it from the list once: `scopes_neat_unless_relisted`.
-/

namespace SmallScript.Session

open Machine Evaluate Syntax Heap
open Value (ScopeRef)

/-- No import that a run passes relists a name. -/
def Unrelisting {α : Type} (F : Observer → Action α) (m : Machine) : Prop :=
  ∀ (n : Node) (s : ScopeRef) (m' : Machine), Passes F m (.enter n s) m' → ¬ Relists n s m'.heap

/-- An action that passes no import which relists a name leaves a neat heap neat. -/
theorem neat_of_conducts {t : Terms} {α : Type} {A : α → Machine → Prop} {F} {m : Machine}
    (h : Conducts t A F m) (hs : t.seated) (hf : t.fresh) (hn : m.heap.Neat) (hrun : Unrelisting F m) :
    (F .silent m).2.heap.Neat := by
  obtain ⟨log, htrail, -, hlogged⟩ := h
  have hclean : Unrelisted log := fun n s m' hmem => hrun n s m' ((passes_iff_mem_log hlogged _ _).2 hmem)
  exact (htrail.neat hs hf hn hclean).1

theorem eval_conducts {m s} (hs : s < m.heap.scopes.size) (fuel : Nat) (n : Node) :
    Conducts (hosting False False True) (Proper False) (fun o => @eval o fuel n s) m :=
  (EvaluatorConducts.all fuel).eval ⟨False.elim, False.elim, fun _ => ⟨hs, trivial⟩⟩ ⟨False.elim, False.elim, fun _ _ => trivial⟩

/-- What holds of the constants that scopes list, after jobs have been done. -/
structure ScopesAccounted (jobs : List Job) (start m : Machine) : Prop where
  /-- if no import relists a name, all scopes are neat at all times -/
  kept : Unrelisting (fun o => @runJobs o jobs) start →
    m.heap.Neat ∧ ∀ e m', Passes (fun o => @runJobs o jobs) start e m' → m'.heap.Neat
  /-- an import that relists a name leaves a scope that is not neat -/
  relisted : ∀ (fuel : Nat) (n : Node) (s : ScopeRef) (v : Value) (m' : Machine), s < m.heap.scopes.size →
    Relists n s m.heap → eval fuel n s m = (.ok v, m') → ¬ m'.heap.Neat
  /-- if no import relists a name, one that is removed and declared anew can be assigned to -/
  renewed : Unrelisting (fun o => @runJobs o jobs) start →
    ∀ (fuel fuel' : Nat) (pos pos' : Pos) (target target' value : Node) (x : String) (s : ScopeRef) (v v' : Value)
      (m₁ m₂ : Machine), target.name? = some x → target'.name? = some x →
      eval fuel (.del pos target) s m = (.ok v, m₁) →
      eval (fuel' + 2) (.variable pos' false target' value) s m₁ = (.ok v', m₂) →
      Unrelisting (fun o => @eval o fuel' value s) m₁ → ∀ w, ∃ h, m₂.heap.assign s x w false = .ok h
  /-- in any case, it can be assigned to exactly if it was listed once at most, unless the value changes the list -/
  counted : ∀ (fuel fuel' : Nat) (pos pos' : Pos) (target target' value : Node) (x : String) (s : ScopeRef)
      (v v' : Value) (m₁ m₂ : Machine), target.name? = some x → target'.name? = some x →
      eval fuel (.del pos target) s m = (.ok v, m₁) →
      eval (fuel' + 2) (.variable pos' false target' value) s m₁ = (.ok v', m₂) →
      (eval fuel' value s m₁).2.heap.constantsOf s = m₁.heap.constantsOf s →
      ∀ w, (∃ h, m₂.heap.assign s x w false = .ok h) ↔ (m.heap.constantsOf s).count x ≤ 1

/-- Whatever programs are run from a new machine on, in scopes that are there: as long as no import relists a name, every
scope lists every constant once, and only names that it binds, so a name that is removed and declared anew can be assigned
to. An import that relists a name breaks this, and then the name stays a constant. -/
theorem scopes_neat_unless_relisted (world : World) (pending : String) (jobs : List Job)
    (hjobs : Seated jobs ⟨.initial, world, pending⟩) :
    ScopesAccounted jobs ⟨.initial, world, pending⟩ (runJobs jobs ⟨.initial, world, pending⟩).2 := by
  have hkept : Unrelisting (fun o => @runJobs o jobs) ⟨.initial, world, pending⟩ →
      (runJobs jobs ⟨.initial, world, pending⟩).2.heap.Neat ∧
        ∀ e m', Passes (fun o => @runJobs o jobs) ⟨.initial, world, pending⟩ e m' → m'.heap.Neat := by
    intro hrun
    obtain ⟨log, hlog, htrail⟩ : ∃ log, JobsLogged jobs ⟨.initial, world, pending⟩ log ∧ Trail (hosting False False True)
        ⟨.initial, world, pending⟩ log (runJobs jobs ⟨.initial, world, pending⟩).2 :=
      runJobs_trail False.elim False.elim False.elim fun _ => hjobs
    have hclean : Unrelisted log := fun n s m' hmem => hrun n s m' ((hlog.passes_iff _ _).2 hmem)
    obtain ⟨hend, hall⟩ := htrail.neat trivial trivial initial_neat hclean
    exact ⟨hend, fun e m' hp => hall e m' ((hlog.passes_iff e m').1 hp)⟩
  refine ⟨hkept, fun fuel n s v m' hs hrelists heval => not_neat_of_relists hs hrelists heval, ?_, ?_⟩
  · intro hrun fuel fuel' pos pos' target target' value x s v v' m1 m2 hx hx' hdel hlet hvalue w
    have hdelete := delete_of_del hx hdel
    have hs1 := (delete_arranges hdelete).frames.lt (lt_of_delete hdelete)
    have hconducts := eval_conducts hs1 fuel' value
    have hn1 := neat_of_conducts hconducts trivial trivial ((delete_arranges hdelete).neat (hkept hrun).1) hvalue
    exact hn1.assign_after_declare ((hconducts.frames trivial).lt hs1) (declare_of_variable hx' hlet) w
  · intro fuel fuel' pos pos' target target' value x s v v' m1 m2 hx hx' hdel hlet hsame w
    have hdelete := delete_of_del hx hdel
    have hs1 := (delete_arranges hdelete).frames.lt (lt_of_delete hdelete)
    have hframes := (eval_conducts hs1 fuel' value).frames trivial
    rw [assign_iff_after_declare (hframes.lt hs1) (declare_of_variable hx' hlet), hsame]
    exact not_mem_constantsOf_delete hdelete

/-- The declaration of a constant. -/
def declaration : Node := .variable ⟨1, 5, 5⟩ true (.identifier ⟨1, 7, 1⟩ "k") (.identifier ⟨1, 14, 4⟩ "true")

theorem parse_declaration : parse "const k = true;" = .ok (.program .zero [declaration]) := by
  have htokens : tokenize "const k = true;" = .ok [⟨"const", .const, ⟨1, 5, 5⟩⟩, ⟨"k", .identifier, ⟨1, 7, 1⟩⟩,
      ⟨"=", .equals, ⟨1, 9, 1⟩⟩, ⟨"true", .identifier, ⟨1, 14, 4⟩⟩, ⟨";", .semicolon, ⟨1, 15, 1⟩⟩,
      ⟨"EOF", .eof, ⟨1, 15, 1⟩⟩] := by
    decide +kernel
  rw [parse, htokens]
  rfl

/-- A constant is declared in a new scope. -/
def declaredOnce : List Job := [.openScope false, .evaluate 0 "const k = true;"]

theorem bind_congr_left {α β : Type} {a a' m} (h : a m = a' m) (k : α → Action β) : (a >>= k) m = (a' >>= k) m := by
  rcases Action.bind_cases a' k m with ⟨e, m1, hr, hb⟩ | ⟨x, m1, hr, hb⟩
  · rw [hb, Action.bind_of_error (h.trans hr)]
  · rw [hb, Action.bind_of_ok (h.trans hr)]

/-- An observer that is quiet where a node is entered and left makes no difference there. -/
theorem eval_eq_silent {o n s}
    (henter : ∀ m, o.notice (.enter n s) m = (.ok (), m)) (hleave : ∀ v m, o.notice (.leave n s v) m = (.ok (), m))
    (hnode : ∀ fuel m, @evalNode o fuel n s m = @evalNode .silent fuel n s m) (fuel : Nat) (m : Machine) :
    @eval o fuel n s m = @eval .silent fuel n s m := by
  cases fuel with
  | zero => simp only [eval]
  | succ fuel =>
    have hquiet : ∀ e, Observer.silent.notice e m = (.ok (), m) := fun _ => rfl
    simp only [eval]
    rw [Action.bind_of_ok (henter m), Action.bind_of_ok (hquiet _), bind_congr_left (hnode fuel m)]
    rcases Action.bind_cases (@evalNode .silent fuel n s) (fun v => do o.notice (.leave n s v); return v) m
      with ⟨e, m1, hr, hb⟩ | ⟨v, m1, hr, hb⟩
    · rw [hb, Action.bind_of_error hr]
    · rw [hb, Action.bind_of_ok hr, Action.bind_of_ok (hleave v m1)]
      rfl

/-- A run in which a constant is declared passes no import. -/
theorem declaredOnce_unrelisting : Unrelisting (fun o => @runJobs o declaredOnce) plainMachine := by
  rintro n s m' ⟨o, hquiet, hne⟩ hrelists
  refine hne ?_
  -- the observer does something only where an import is entered
  have hsame (n1 : Node) (h1 : ∀ h, ¬ Relists n1 0 h)
      (hnode : ∀ fuel m, @evalNode o fuel n1 0 m = @evalNode .silent fuel n1 0 m) (fuel : Nat) (m : Machine) :
      @eval o fuel n1 0 m = @eval .silent fuel n1 0 m := by
    refine eval_eq_silent (fun m1 => hquiet _ _ fun heq => ?_) (fun v m1 => hquiet _ _ fun heq => ?_) hnode fuel m
    · cases heq
      exact h1 _ hrelists
    · cases heq
  have hvalue := hsame (.identifier ⟨1, 14, 4⟩ "true") (fun _ => id) fun fuel m => by
    cases fuel <;> simp only [evalNode]
  have hdeclaration := hsame declaration (fun _ => id) fun fuel m => by
    cases fuel with
    | zero => simp only [evalNode]
    | succ fuel =>
      simp only [declaration, evalNode]
      exact bind_congr_left (hvalue fuel m) _
  have hend fuel v : @evalBody o fuel v [] 0 = @evalBody .silent fuel v [] 0 := by
    cases fuel <;> simp only [evalBody]
  have hbody fuel m : @evalBody o fuel .null [declaration] 0 m = @evalBody .silent fuel .null [declaration] 0 m := by
    cases fuel with
    | zero => simp only [evalBody]
    | succ fuel =>
      simp only [evalBody, hend]
      exact bind_congr_left (hdeclaration fuel m) _
  have hprogram := hsame (.program .zero [declaration]) (fun _ => id) fun fuel m => by
    cases fuel with
    | zero => simp only [evalNode]
    | succ fuel =>
      simp only [evalNode]
      refine bind_congr_left ?_ _
      simp only [Action.attempt, hbody]
  have hjob m : @Job.run o (.evaluate 0 "const k = true;") m = @Job.run .silent (.evaluate 0 "const k = true;") m := by
    simp only [Job.run, Action.attempt, evaluateSource, treeOf, parse_declaration, pure_bind, evaluate, hprogram]
  obtain ⟨opened, m1, h1⟩ := Job.run_ok .silent (.openScope false) plainMachine
  obtain ⟨declared, m2, h2⟩ := Job.run_ok .silent (.evaluate 0 "const k = true;") m1
  have hrun (o' : Observer) (h : @Job.run o' (.evaluate 0 "const k = true;") m1 = (.ok declared, m2)) :
      @runJobs o' declaredOnce plainMachine = (.ok [opened, declared], m2) :=
    runJobs_run h1 (runJobs_run h rfl)
  exact (hrun o ((hjob m1).trans h2)).trans (hrun .silent h2).symm

theorem scopes_neat_unless_relisted_once :
    Seated declaredOnce plainMachine ∧ Unrelisting (fun o => @runJobs o declaredOnce) plainMachine ∧
      (runJobs declaredOnce plainMachine).2.heap.Neat := by
  have hseated : Seated declaredOnce plainMachine := by
    refine ⟨trivial, ?_, trivial⟩
    unfold Job.Seated
    decide +kernel
  refine ⟨hseated, declaredOnce_unrelisting, ?_⟩
  exact ((scopes_neat_unless_relisted plainWorld "" declaredOnce hseated).kept declaredOnce_unrelisting).1

/-- A name is imported twice, removed and declared as a variable. -/
def importedTwice : List Job :=
  [.openScope false, .evaluate 0 "from \"math\" import [\"sqrt\"];", .evaluate 0 "from \"math\" import [\"sqrt\"];",
    .evaluate 0 "del sqrt;", .evaluate 0 "let sqrt = true;"]

/-- After two imports of one name, the scope lists it twice. It lists it once after a removal, so it cannot be assigned to
although a statement declares it as a variable. -/
theorem variable_imported_twice_constant :
    ((runJobs (importedTwice.take 3) plainMachine).2.heap.constantsOf 0).count "sqrt" = 2 ∧
    ((runJobs (importedTwice.take 4) plainMachine).2.heap.constantsOf 0).count "sqrt" = 1 ∧
    ((runJobs importedTwice plainMachine).1.toOption.map (·.map fun r => (failure? r).isSome)) =
      some [false, false, false, false, false] ∧
    failure? (evaluateSource 0 "sqrt = false;" (runJobs importedTwice plainMachine).2).1 =
      some (.problem (.constantVariable "sqrt")) := by
  refine ⟨?_, ?_, ?_, ?_⟩
  all_goals decide +kernel

end SmallScript.Session
