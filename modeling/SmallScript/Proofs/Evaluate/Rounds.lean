import SmallScript.Proofs.Evaluate.Literals
import SmallScript.Proofs.Session.Calls

/-!
# The variable of a loop

A `for` loop declares its variable in the current scope at every round, and saves and restores it by a search through the
enclosing scopes. So what the loop leaves depends on where the name was bound. If that was the current scope, all is as
before. If it was an enclosing one, the current scope has the name from the first round on. If it was none, the name is
removed, which is an error if there was no round. This is `for_loop_variable`, for bodies that leave the name alone in
every round.
-/

namespace SmallScript.Machine.Heap

open Value (ScopeRef)
open Data (Table)

variable {h h' h'' : Heap} {s S : ScopeRef} {x : String} {v : Value} {bound : Nat}

/-- What a scope has of a name: its value, and how often it lists it as a constant. -/
def holding (h : Heap) (S : ScopeRef) (x : String) : Option Value × Nat := (h.bound? S x, (h.constantsOf S).count x)

/-- The scopes below the bound have of the name what they had. -/
def SparesName (x : String) (bound : Nat) (h h' : Heap) : Prop := ∀ S < bound, h'.holding S x = h.holding S x

theorem lt_of_bound? (hb : h.bound? s x = some v) : s < h.scopes.size := by
  obtain ⟨scope, hscope, -⟩ := Option.bind_eq_some_iff.1 hb
  exact (getElem?_eq_some_iff.1 hscope).1

theorem holding_bind (hs : s < h.scopes.size) (S : ScopeRef) (x : String) (v : Value) :
    (h.bind s x v).holding S x = if S = s then (some v, (h.constantsOf s).count x) else h.holding S x := by
  rw [holding, constantsOf_bind]
  split
  · next hS =>
    subst hS
    simp [bound?, bind, modifyScope, Array.getElem?_modify, Array.getElem?_eq_getElem hs, Table.get?_insert]
  · next hS => rw [bound?_bind_ne fun he => hS he.1, holding]

theorem holding_unbind (S : ScopeRef) (x : String) :
    (h.unbind s x).holding S x = if S = s then (none, (h.constantsOf s).count x - 1) else h.holding S x := by
  split
  · next hS =>
    subst hS
    have hgone (t : Table Value) : (t.erase x).get? x = none := by
      refine Option.eq_none_iff_forall_ne_some.2 fun v hv => ?_
      exact (Table.contains_erase.1 (Table.contains_iff.2 ⟨v, hv⟩)).1 rfl
    rw [holding, constantsOf_unbind, List.count_erase_self]
    simp only [bound?, unbind, modifyScope, Array.getElem?_modify]
    cases h.scopes[S]? with
    | none => rfl
    | some scope => exact congrArg (·, _) (hgone scope.vars)
  · next hS =>
    rw [holding, bound?_unbind_ne fun he => hS he.1, unbind, constantsOf_modifyScope_ne hS, holding]

theorem resolve?_of_bound? (hb : h.bound? s x = some v) : h.resolve? s x = some s := by
  obtain ⟨scope, hscope, hv⟩ := Option.bind_eq_some_iff.1 hb
  rw [resolve?, hscope]
  exact if_pos (Table.contains_iff.2 ⟨v, hv⟩)

theorem lookup?_of_bound? (hb : h.bound? s x = some v) : h.lookup? s x = some v := by
  rwa [lookup?, resolve?_of_bound? hb]

theorem bound?_of_lookup? (hv : h.lookup? s x = some v) : ∃ S, h.resolve? s x = some S ∧ h.bound? S x = some v :=
  Option.bind_eq_some_iff.1 hv

theorem bound?_eq_none (hx : h.lookup? s x = none) : h.bound? s x = none :=
  Option.eq_none_iff_forall_ne_some.2 fun _ hv => nomatch hx.symm.trans (lookup?_of_bound? hv)

/-- An assignment that may overwrite a constant. -/
theorem assign_overwrite (hfound : h.resolve? s x = some S) (v : Value) : h.assign s x v true = .ok (h.bind S x v) := by
  simp [assign, resolve, hfound]

/-- From the first heap to the second one the scope has got the name, and nothing else has become of it. -/
structure Declares (s : ScopeRef) (x : String) (bound : Nat) (h h' : Heap) : Prop where
  here : ∃ v, h'.bound? s x = some v
  constants : (h'.constantsOf s).count x = (h.constantsOf s).count x
  others : ∀ S < bound, S ≠ s → h'.holding S x = h.holding S x

theorem Declares.bind (hs : s < h.scopes.size) (v : Value) : Declares s x bound h (h.bind s x v) where
  here := ⟨v, congrArg Prod.fst ((holding_bind hs s x v).trans (if_pos rfl))⟩
  constants := by rw [constantsOf_bind]
  others S _ hS := by rw [holding_bind hs, if_neg hS]

theorem Declares.then_spares (hd : Declares s x bound h h') (hs : s < bound) (hspares : SparesName x bound h' h'') :
    Declares s x bound h h'' where
  here := by
    obtain ⟨v, hv⟩ := hd.here
    exact ⟨v, (congrArg Prod.fst (hspares s hs)).trans hv⟩
  constants := (congrArg Prod.snd (hspares s hs)).trans hd.constants
  others S hS hne := (hspares S hS).trans (hd.others S hS hne)

theorem Declares.trans (hd : Declares s x bound h h') (hd' : Declares s x bound h' h'') : Declares s x bound h h'' where
  here := hd'.here
  constants := hd'.constants.trans hd.constants
  others S hS hne := (hd'.others S hS hne).trans (hd.others S hS hne)

end SmallScript.Machine.Heap

namespace SmallScript.Evaluate

open Machine Syntax
open Value (ScopeRef)

variable {m : Machine}

section

variable {name : String} {ref : Nat} {body : List Node} {s : ScopeRef} {bound : Nat}

/-- Every round that is run, from an element of the array on, goes to its end or is left by a break or a continue, and its
body leaves the name of the variable alone in the scopes below the bound. -/
def RoundsSpare (name : String) (ref : Nat) (body : List Node) (s : ScopeRef) (bound : Nat) : Nat → Nat → Machine → Prop
  | 0, _, _ => False
  | fuel + 1, i, m => ∀ v, (m.heap.elements ref)[i]? = some v →
    let m₁ : Machine := { m with heap := m.heap.bind s name v }
    let (r, m₂) := evalBody fuel .null body s m₁
    Heap.SparesName name bound m₁.heap m₂.heap ∧
      match r with
      | .ok _ | .error .cont => RoundsSpare name ref body s bound fuel (i + 1) m₂
      | .error .brk => True
      | .error _ => False

theorem evalRounds_of_none {i} (h : (m.heap.elements ref)[i]? = none) (fuel : Nat) :
    evalRounds (fuel + 1) name ref i body s m = (.ok (), m) := by
  rw [evalRounds, Action.heap_bind, h]
  rfl

/-- The rounds go to their end. If there is any, the scope has the variable then. -/
theorem evalRounds_spares (hbound : s < bound) {fuel i} (hs : s < m.heap.scopes.size)
    (hr : RoundsSpare name ref body s bound fuel i m) :
    ∃ m', evalRounds fuel name ref i body s m = (.ok (), m') ∧ ((m.heap.elements ref)[i]? = none → m' = m) ∧
      ((m.heap.elements ref)[i]? ≠ none → Heap.Declares s name bound m.heap m'.heap) := by
  induction fuel generalizing i m with
  | zero => exact hr.elim
  | succ fuel ih =>
    cases hv : (m.heap.elements ref)[i]? with
    | none => exact ⟨m, evalRounds_of_none hv fuel, fun _ => rfl, (absurd rfl)⟩
    | some v =>
      have hdeclare : Action.scoping (·.declare s name v false true) m =
          (.ok (), { m with heap := m.heap.bind s name v }) := by
        simp [Action.scoping, Heap.declare]
      rw [evalRounds, Action.heap_bind, hv]
      dsimp only
      rw [Action.bind_of_ok hdeclare]
      have hround := hr v hv
      rcases hbody : evalBody fuel .null body s { m with heap := m.heap.bind s name v } with ⟨r, m2⟩
      dsimp only at hround
      rw [hbody] at hround
      obtain ⟨hspares, hrest⟩ := hround
      have hdeclares := (Heap.Declares.bind hs v).then_spares hbound hspares
      obtain ⟨w, hw⟩ := hdeclares.here
      rw [Action.attempt_bind hbody]
      -- a body that goes to its end and one that is left by a continue are followed by the next round
      have hnext (h : RoundsSpare name ref body s bound fuel (i + 1) m2) :
          ∃ m', evalRounds fuel name ref (i + 1) body s m2 = (.ok (), m') ∧
            Heap.Declares s name bound m.heap m'.heap := by
        obtain ⟨m', hrun, hnone, hsome⟩ := ih (Heap.lt_of_bound? hw) h
        refine ⟨m', hrun, ?_⟩
        by_cases hend : (m2.heap.elements ref)[i + 1]? = none
        · rw [hnone hend]
          exact hdeclares
        · exact hdeclares.trans (hsome hend)
      cases r with
      | ok w =>
        obtain ⟨m', hrun, hm'⟩ := hnext hrest
        exact ⟨m', hrun, (absurd · (Option.some_ne_none v)), fun _ => hm'⟩
      | error e =>
        cases e with
        | cont =>
          obtain ⟨m', hrun, hm'⟩ := hnext hrest
          exact ⟨m', hrun, (absurd · (Option.some_ne_none v)), fun _ => hm'⟩
        | brk => exact ⟨m2, rfl, (absurd · (Option.some_ne_none v)), fun _ => hdeclares⟩
        | failure f | ret v => exact hrest.elim

/-- A loop over an array runs its rounds and restores the variable. -/
theorem eval_for {iterator m1 fuel} (hi : eval fuel iterator s m = (.ok (.array ref), m1))
    (pos at_ : Pos) : eval (fuel + 3) (.for pos (.identifier at_ name) iterator body) s m =
      (evalRounds fuel name ref 0 body s >>= fun _ => restore s name (m1.heap.lookup? s name) >>= fun _ =>
        pure Value.null) m1 := by
  rw [eval_silent, evalNode]
  show evalFor (fuel + 1) pos name iterator body s m = _
  rw [evalFor, Action.attempt_bind hi]
  rfl

/-- The value that was found is given back where the name is found now. -/
theorem restore_some {S} (hfound : m.heap.resolve? s name = some S) (v : Value) :
    restore s name (some v) m = (.ok (), { m with heap := m.heap.bind S name v }) := by
  simp only [restore, Action.scoping, Heap.assign_overwrite hfound]

theorem restore_none {v} (hbound : m.heap.bound? s name = some v) :
    restore s name none m = (.ok (), { m with heap := m.heap.unbind s name }) := by
  simp only [restore, Action.scoping, Heap.delete, Heap.bindsHere_eq, hbound, Option.isSome_some, if_true]

theorem restore_missing (hlookup : m.heap.lookup? s name = none) :
    restore s name none m = (.error (.failure (.problem (.notInScope name))), m) := by
  simp only [restore, Action.scoping, Heap.delete, Heap.bindsHere_eq, Heap.bound?_eq_none hlookup, Option.isSome_none,
    Bool.false_eq_true, if_false]

/-- What the scope of a loop has of the variable after some rounds. -/
def leftHolding (h : Heap) (s : ScopeRef) (x : String) : Option Value × Nat :=
  (h.lookup? s x, (h.constantsOf s).count x - if (h.lookup? s x).isSome then 0 else 1)

theorem leftHolding_eq_holding_iff {h} : leftHolding h s name = h.holding s name ↔
    (∃ v, h.bound? s name = some v) ∨ h.lookup? s name = none ∧ name ∉ h.constantsOf s := by
  rw [leftHolding, Heap.holding, ← List.count_eq_zero]
  cases hb : h.bound? s name with
  | some v => simp [Heap.lookup?_of_bound? hb]
  | none =>
    cases hl : h.lookup? s name with
    | some v => simp
    | none =>
      simp
      omega

/-- The variable is restored where it had no round: there it is as it was. -/
theorem restore_without_round (hlookup : m.heap.lookup? s name ≠ none) :
    ∃ h, restore s name (m.heap.lookup? s name) m = (.ok (), { m with heap := h }) ∧
      ∀ S, h.holding S name = m.heap.holding S name := by
  obtain ⟨v, hv⟩ := Option.ne_none_iff_exists'.1 hlookup
  obtain ⟨found, hfound, hbound⟩ := Heap.bound?_of_lookup? hv
  rw [hv]
  refine ⟨_, restore_some hfound v, fun S => ?_⟩
  rw [Heap.holding_bind (Heap.lt_of_bound? hbound)]
  split
  · next hS => rw [hS, Heap.holding, hbound]
  · rfl

/-- The variable is restored after some rounds, in the scope that they declared it in. -/
theorem restore_after_rounds {h0} (hd : Heap.Declares s name bound h0 m.heap) :
    ∃ h, restore s name (h0.lookup? s name) m = (.ok (), { m with heap := h }) ∧
      ∀ S < bound, h.holding S name = if S = s then leftHolding h0 s name else h0.holding S name := by
  obtain ⟨w, hw⟩ := hd.here
  cases hlookup : h0.lookup? s name with
  | some v =>
    refine ⟨_, restore_some (Heap.resolve?_of_bound? hw) v, fun S hS => ?_⟩
    rw [Heap.holding_bind (Heap.lt_of_bound? hw), leftHolding, hlookup, hd.constants]
    split
    · rfl
    · next hne => exact hd.others S hS hne
  | none =>
    refine ⟨_, restore_none hw, fun S hS => ?_⟩
    rw [Heap.holding_unbind, leftHolding, hlookup, hd.constants]
    split
    · rfl
    · next hne => exact hd.others S hS hne

end

/-- A loop over an array whose body leaves the variable alone. Without any round, it is an error if the name has no value,
and changes nothing of the name otherwise. After some rounds, only the current scope may have something else of the name
than before: the value that was found for it, or no value, and then it is listed as a constant once less.

So all is as before exactly if the current scope bound the name; or there was no round and an enclosing scope bound it;
or there was a round, no scope bound the name, and the current one did not list it as a constant. -/
theorem for_loop_variable (name : String) (iterator : Node) (body : List Node) (s : ScopeRef) (pos at_ : Pos) (fuel ref : Nat)
    (m m₁ : Machine) (hs : s < m₁.heap.scopes.size) (hi : eval fuel iterator s m = (.ok (.array ref), m₁))
    (hrounds : RoundsSpare name ref body s m₁.heap.scopes.size fuel 0 m₁) (after : Except Signal Value × Machine)
    (hafter : after = eval (fuel + 3) (.for pos (.identifier at_ name) iterator body) s m) :
    (m₁.heap.elements ref = #[] → m₁.heap.lookup? s name = none →
      after = (.error (.failure (.problem (.notInScope name))), m₁)) ∧
    (¬ (m₁.heap.elements ref = #[] ∧ m₁.heap.lookup? s name = none) → after.1 = .ok .null ∧
      ∀ S < m₁.heap.scopes.size, after.2.heap.holding S name =
        if S = s ∧ m₁.heap.elements ref ≠ #[] then leftHolding m₁.heap s name else m₁.heap.holding S name) ∧
    (after.1 = .ok .null ∧ Heap.SparesName name m₁.heap.scopes.size m₁.heap after.2.heap ↔
      (∃ v, m₁.heap.bound? s name = some v) ∨
      (m₁.heap.elements ref = #[] ∧ m₁.heap.lookup? s name ≠ none) ∨
      (m₁.heap.elements ref ≠ #[] ∧ m₁.heap.lookup? s name = none ∧ name ∉ m₁.heap.constantsOf s)) := by
  rw [eval_for hi] at hafter
  obtain ⟨m₂, hrun, hnone, hsome⟩ := evalRounds_spares hs hs hrounds
  rw [Action.bind_of_ok hrun] at hafter
  have hempty : m₁.heap.elements ref = #[] ↔ (m₁.heap.elements ref)[0]? = none := by
    simp
  have herror : m₁.heap.elements ref = #[] → m₁.heap.lookup? s name = none →
      after = (.error (.failure (.problem (.notInScope name))), m₁) := by
    intro he hl
    rw [hafter, hnone (hempty.1 he), hl]
    exact Action.bind_of_error (restore_missing hl) _
  have hwell : ¬ (m₁.heap.elements ref = #[] ∧ m₁.heap.lookup? s name = none) → after.1 = .ok .null ∧
      ∀ S < m₁.heap.scopes.size, after.2.heap.holding S name =
        if S = s ∧ m₁.heap.elements ref ≠ #[] then leftHolding m₁.heap s name else m₁.heap.holding S name := by
    intro hnot
    by_cases he : m₁.heap.elements ref = #[]
    · obtain ⟨h, hrestore, hsame⟩ := restore_without_round fun hl => hnot ⟨he, hl⟩
      rw [hafter, hnone (hempty.1 he), Action.bind_of_ok hrestore]
      exact ⟨rfl, fun S _ => by rw [if_neg fun hc => hc.2 he]; exact hsame S⟩
    · obtain ⟨h, hrestore, hleft⟩ := restore_after_rounds (hsome fun hn => he (hempty.2 hn))
      rw [hafter, Action.bind_of_ok hrestore]
      refine ⟨rfl, fun S hS => (hleft S hS).trans ?_⟩
      simp only [he, ne_eq, not_false_eq_true, and_true]
  refine ⟨herror, hwell, ?_⟩
  by_cases hnot : m₁.heap.elements ref = #[] ∧ m₁.heap.lookup? s name = none
  · have hunbound := Heap.bound?_eq_none hnot.2
    rw [herror hnot.1 hnot.2]
    simp [hnot.1, hnot.2, hunbound]
  · obtain ⟨hok, hleft⟩ := hwell hnot
    have hspares : Heap.SparesName name m₁.heap.scopes.size m₁.heap after.2.heap ↔
        (m₁.heap.elements ref ≠ #[] → leftHolding m₁.heap s name = m₁.heap.holding s name) := by
      refine ⟨fun h he => ?_, fun h S hS => ?_⟩
      · have hhere := h s hs
        rwa [hleft s hs, if_pos ⟨rfl, he⟩] at hhere
      · rw [hleft S hS]
        split
        · next hc => rw [hc.1, h hc.2]
        · rfl
    rw [hspares, leftHolding_eq_holding_iff]
    by_cases he : m₁.heap.elements ref = #[]
    · have hl : m₁.heap.lookup? s name ≠ none := fun hl => hnot ⟨he, hl⟩
      simp [hok, he, hl]
    · simp [hok, he]

/-- A session with a constant `x` and an array. -/
def loopMachine : Machine := (Session.evaluateSource 0 "const x = true; let a = [null];" Session.openedMachine).2

/-- A loop with the constant as its variable leaves it as it was. -/
theorem for_loop_variable_constant : ∃ m',
    eval 9 (.for .zero (.identifier .zero "x") (.identifier .zero "a") [.identifier .zero "x"]) 0 loopMachine =
      (.ok .null, m') ∧ Heap.SparesName "x" loopMachine.heap.scopes.size loopMachine.heap m'.heap := by
  have hname f {x} {v} {m} (hv : m.heap.lookup? 0 x = some v) :
      eval (f + 2) (.identifier .zero x) 0 m = (.ok v, m) := by
    rw [eval_silent, evalNode, Action.consult, Heap.lookup, hv]
  have harray : loopMachine.heap.elements 0 = #[.null] := by decide +kernel
  have hbody {v} {m} (hv : m.heap.lookup? 0 "x" = some v) :
      evalBody 5 .null [.identifier .zero "x"] 0 m = (.ok v, m) := by
    rw [evalBody, Action.bind_of_ok (hname 2 hv), evalBody]
    rfl
  have hrounds : RoundsSpare "x" 0 [.identifier .zero "x"] 0 loopMachine.heap.scopes.size 6 0 loopMachine := by
    intro v hv
    obtain rfl : v = .null := by simpa [harray] using hv.symm
    have hx : (loopMachine.heap.bind 0 "x" .null).lookup? 0 "x" = some .null := by decide +kernel
    dsimp only
    rw [hbody hx]
    refine ⟨fun _ _ => rfl, fun v hv => ?_⟩
    have hend : ((loopMachine.heap.bind 0 "x" .null).elements 0)[1]? = none := by decide +kernel
    cases hend.symm.trans hv
  have hloop := for_loop_variable "x" (.identifier .zero "a") [.identifier .zero "x"] 0 .zero .zero 6 0 loopMachine
    loopMachine (by decide +kernel) (hname 4 (by decide +kernel)) hrounds _ rfl
  obtain ⟨hok, hspares⟩ := hloop.2.2.2 (.inl ⟨.bool true, by decide +kernel⟩)
  exact ⟨_, Prod.ext hok rfl, hspares⟩

/-- A loop over an empty array whose variable has no value is an error; and a loop in a function leaves a variable of the
function, so that an assignment behind it does not reach the one outside. -/
theorem for_loop_variable_left_behind :
    Session.failure? (Session.evaluateSource 0 "for x in [] \x7b \x7d" Session.openedMachine).1 =
      some (.problem (.notInScope "x")) ∧
    Session.answer "let x = true; func f() \x7b for x in [null] \x7b \x7d x = false; \x7d f(); x;" =
      (some (.bool true), "") ∧
    Session.answer "let x = true; func f() \x7b for y in [null] \x7b \x7d x = false; \x7d f(); x;" =
      (some (.bool false), "") := by
  refine ⟨?_, ?_, ?_⟩
  all_goals decide +kernel

end SmallScript.Evaluate
