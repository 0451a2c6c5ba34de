import SmallScript.Proofs.Evaluate.Functions

/-!
# Statements that end well

What imports, removals and declarations have done to the constants of their scope if they end with a value.
-/

namespace SmallScript.Evaluate

open Machine
open Value (ScopeRef ObjectRef)
open Syntax

section

variable {fuel : Nat} {s : ScopeRef} {v : Value} {m m' : Machine} {pos : Pos}

theorem eval_ok {n} (hrun : eval fuel n s m = (.ok v, m')) : ∃ k, fuel = k + 1 ∧ evalNode k n s m = (.ok v, m') := by
  cases fuel with
  | zero =>
    simp only [eval] at hrun
    cases hrun
  | succ k =>
    simp only [eval] at hrun
    obtain ⟨_, _, henter, hrun⟩ := Action.bind_eq_ok hrun
    cases henter
    obtain ⟨w, m1, hnode, hrun⟩ := Action.bind_eq_ok hrun
    cases hrun
    exact ⟨k, rfl, hnode⟩

/-- An import that ends well gets an object, without a change of the constants of any scope, and takes from it what it
imports. -/
theorem evalImport_ok {module names newName} (hrun : evalImport fuel pos module names newName s m = (.ok v, m')) :
    ∃ ref m1, m.heap.Frames (fun _ => False) m1.heap ∧
      importObject s module pos ref names newName m1 = (.ok (), m') := by
  let t : Terms := { Terms.loose sourceHazards (fun _ => False) with seated := True }
  have finish {ref : ObjectRef} {m1 : Machine}
      (h : (importObject s module pos ref names newName >>= fun _ => pure .null) m1 = (.ok v, m')) :
      importObject s module pos ref names newName m1 = (.ok (), m') := by
    obtain ⟨_, _, hobject, h⟩ := Action.bind_eq_ok h
    cases h
    exact hobject
  cases fuel with
  | zero =>
    simp only [evalImport] at hrun
    cases hrun
  | succ fuel =>
    simp only [evalImport] at hrun
    cases hmodule : Heap.module? module with
    | some ref =>
      rw [hmodule] at hrun
      obtain ⟨_, _, hheap, hrun⟩ := Action.bind_eq_ok hrun
      cases hheap
      split at hrun
      · cases hrun
      · exact ⟨ref, _, .refl _, finish hrun⟩
    | none =>
      rw [hmodule] at hrun
      obtain ⟨source, m1, hsource, hrun⟩ := Action.bind_eq_ok hrun
      have hsourced : Conducts t (fun _ _ => False → True) (fun _ => moduleSource module pos) m :=
        .of_tame (moduleSource_tame module pos) False.elim
      have hf1 := hsourced.frames trivial
      rw [hsource] at hf1
      cases hparse : parse source with
      | error f =>
        rw [hparse] at hrun
        cases hrun
      | ok program =>
        rw [hparse] at hrun
        obtain ⟨inner, m2, hscope, hrun⟩ := Action.bind_eq_ok hrun
        obtain ⟨w, m3, heval, hrun⟩ := Action.bind_eq_ok hrun
        have hinner : Conducts t AnyResult (fun o => do
              let inner ← .onHeap (·.newScope s)
              let _ ← @eval o fuel program inner
              pure inner) m1 := by
          refine .inNewScope (t := t) False.elim False.elim s fun inner m2 _ hr => ?_
          refine ((EvaluatorConducts.all fuel).eval hr ⟨False.elim, False.elim, fun _ _ => trivial⟩).bind ?_
          exact fun _ _ _ _ => .pure trivial
        have hf2 := hinner.frames trivial
        rw [Action.bind_of_ok hscope, Action.bind_of_ok heval] at hf2
        exact ⟨.scope inner, m3, hf1.trans hf2, finish hrun⟩

/-- An import of names that ends well lists them all as constants, one after the other. -/
theorem constantsOf_importing {module names newName} (hnames : names ≠ []) (hs : s < m.heap.scopes.size)
    (hrun : eval fuel (.importing pos module (some names) newName) s m = (.ok v, m')) :
    m'.heap.constantsOf s = m.heap.constantsOf s ++ names := by
  obtain ⟨k, -, hnode⟩ := eval_ok hrun
  cases k with
  | zero =>
    simp only [evalNode] at hnode
    cases hnode
  | succ k =>
    simp only [evalNode] at hnode
    obtain ⟨ref, m1, hframes, hobject⟩ := evalImport_ok hnode
    obtain ⟨name, rest, rfl⟩ := List.exists_cons_of_ne_nil hnames
    simp only [importObject, Option.getD_some] at hobject
    obtain ⟨done, -, hadds, hall⟩ := importNames_adds s module pos (·.fields ref) (name :: rest) (hframes.lt hs)
    rw [hobject] at hadds hall
    rw [hadds.constants, hall rfl, hframes.constants s hs id]

/-- An import that relists a name leaves the scope with a name that is listed twice. -/
theorem not_neat_of_relists {n} (hs : s < m.heap.scopes.size) (hrelists : Relists n s m.heap)
    (hrun : eval fuel n s m = (.ok v, m')) : ¬ m'.heap.Neat := by
  intro hneat
  have hnodup := hneat.nodup_constantsOf s
  cases n with
  | importing pos module names newName =>
    cases names with
    | none => exact hrelists
    | some names =>
      have hnames : names ≠ [] := by
        rintro rfl
        simp [Relists] at hrelists
      rw [constantsOf_importing hnames hs hrun, List.nodup_append] at hnodup
      rcases hrelists with htwice | ⟨x, hx, hlisted⟩
      · exact htwice hnodup.2.1
      · exact hnodup.2.2 x hlisted x hx rfl
  | _ => exact hrelists

theorem scoping_eq_ok {f u} (hrun : Action.scoping f m = (.ok u, m')) :
    ∃ h, f m.heap = .ok h ∧ { m with heap := h } = m' := by
  unfold Action.scoping at hrun
  cases hf : f m.heap with
  | error p =>
    simp only [hf] at hrun
    cases hrun
  | ok h =>
    simp only [hf] at hrun
    exact ⟨h, rfl, (Prod.mk.inj hrun).2⟩

/-- A removal that ends well removes the name from the scope. -/
theorem delete_of_del {target x} (hx : target.name? = some x)
    (hrun : eval fuel (.del pos target) s m = (.ok v, m')) : m.heap.delete s x = .ok m'.heap := by
  obtain ⟨k, -, hnode⟩ := eval_ok hrun
  cases k with
  | zero =>
    simp only [evalNode] at hnode
    cases hnode
  | succ k =>
    simp only [evalNode, hx] at hnode
    obtain ⟨_, _, hdelete, hnode⟩ := Action.bind_eq_ok hnode
    cases hnode
    obtain ⟨h, hd, rfl⟩ := scoping_eq_ok hdelete
    exact hd

/-- A declaration that ends well evaluates the value and binds the name to it. -/
theorem declare_of_variable {constant target value x} (hx : target.name? = some x)
    (hrun : eval (fuel + 2) (.variable pos constant target value) s m = (.ok v, m')) :
    (eval fuel value s m).2.heap.declare s x v constant false = .ok m'.heap := by
  obtain ⟨k, hk, hnode⟩ := eval_ok hrun
  cases hk
  simp only [evalNode, hx] at hnode
  obtain ⟨w, m1, hvalue, hnode⟩ := Action.bind_eq_ok hnode
  rw [hvalue]
  obtain ⟨_, _, hdeclare, hnode⟩ := Action.bind_eq_ok hnode
  cases hnode
  obtain ⟨h, hd, rfl⟩ := scoping_eq_ok hdeclare
  exact hd

end

end SmallScript.Evaluate
