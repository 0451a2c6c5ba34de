import SmallScript.Evaluate.Basic
import SmallScript.Proofs.Machine.Constants

/-!
# Logs of evaluations

A log lists what happens in an evaluation, in order: the events that an observer is told of, and the changes of the heap,
each with the statement or expression that makes it and the scope in which this is evaluated. `Course n s m log m'` says
that the log is one of `n` evaluated in `s` from the machine `m` to the machine `m'`: each change is made by `n` itself or
in the evaluation of another node that begins and ends in between, and this has a course of its own.

`Logged` says that the events in a log are exactly those at which an observer can interfere with an action.
-/

namespace SmallScript.Evaluate

open Machine List
open Value (ScopeRef ObjectRef)
open Syntax (Node)

/-- What a log lists. -/
inductive Entry where
  /-- an observer is told of an event on a machine -/
  | event (e : Event) (m : Machine)
  /-- the node, which is evaluated in that scope, changes the heap -/
  | deed (n : Node) (s : ScopeRef) (before after : Heap)

/-- What happens from one machine to another while a node is evaluated in a scope. -/
inductive Course : Node → ScopeRef → Machine → List Entry → Machine → Prop where
  | done {n : Node} {s : ScopeRef} {m : Machine} : Course n s m [] m
  /-- something happens beside the heap -/
  | beside {n : Node} {s : ScopeRef} {m m₁ m₂ : Machine} {log : List Entry} (hheap : m₁.heap = m.heap)
    (rest : Course n s m₁ log m₂) : Course n s m log m₂
  /-- the node itself changes the heap -/
  | deed {n : Node} {s : ScopeRef} {m m₂ : Machine} {h : Heap} {log : List Entry} (hstep : Step False m.heap h)
    (rest : Course n s { m with heap := h } log m₂) : Course n s m (.deed n s m.heap h :: log) m₂
  /-- an observer is told of an event which is not that another node is entered -/
  | told {n : Node} {s : ScopeRef} {m m₂ : Machine} {e : Event} {log : List Entry}
    (he : ∀ n' s', e ≠ .enter n' s') (rest : Course n s m log m₂) : Course n s m (.event e m :: log) m₂
  /-- another node is evaluated -/
  | part {n n' : Node} {s s' : ScopeRef} {m m₂ : Machine} {fuel : Nat} {log log' : List Entry}
    (inner : Course n' s' m log (eval fuel n' s' m).2) (rest : Course n s (eval fuel n' s' m).2 log' m₂) :
    Course n s m (.event (.enter n' s') m :: (log ++ log')) m₂

/-- All changes in the log are lawful. -/
def LawfulLog (log : List Entry) : Prop := ∀ n s h h', .deed n s h h' ∈ log → Lawful n s h h'

section

variable {n : Node} {s : ScopeRef} {m m₁ m₂ : Machine} {log log' : List Entry}

theorem Course.trans (hc : Course n s m log m₁) (hc' : Course n s m₁ log' m₂) : Course n s m (log ++ log') m₂ := by
  induction hc with
  | done => exact hc'
  | beside hheap _ ih => exact .beside hheap (ih hc')
  | deed hstep _ ih => exact .deed hstep (ih hc')
  | told he _ ih => exact .told he (ih hc')
  | part inner _ _ ih =>
    rw [cons_append, append_assoc]
    exact .part inner (ih hc')

theorem LawfulLog.nil : LawfulLog [] := fun _ _ _ _ h => nomatch h

theorem LawfulLog.append (hl : LawfulLog log) (hl' : LawfulLog log') : LawfulLog (log ++ log') :=
  fun n s h h' hmem => (mem_append.1 hmem).elim (hl n s h h') (hl' n s h h')

theorem LawfulLog.event (hl : LawfulLog log) (e : Event) (m : Machine) : LawfulLog (.event e m :: log) := by
  simpa [LawfulLog] using hl

theorem LawfulLog.deed (hl : LawfulLog log) {h h'} (hd : Lawful n s h h') : LawfulLog (.deed n s h h' :: log) := by
  intro n' s' h1 h2 hmem
  rcases mem_cons.1 hmem with heq | hmem
  · cases heq
    exact hd
  · exact hl n' s' h1 h2 hmem

end

/-- An observer that stops the run at one event on one machine, and does nothing else. -/
structure Observer.StopsAt (o : Observer) (e : Event) (m : Machine) (f : Failure) : Prop where
  quiet : ∀ e' m', (e', m') ≠ (e, m) → o.notice e' m' = (.ok (), m')
  stops : o.notice e m = (.error (.failure f), m)

/-- The events of the log are those that an action passes, each with the machine that it is passed on. -/
structure Logged {α : Type} (F : Observer → Action α) (m : Machine) (log : List Entry) : Prop where
  /-- an observer that does nothing at the events of the log makes no difference -/
  quiet : ∀ o : Observer, (∀ e m', .event e m' ∈ log → o.notice e m' = (.ok (), m')) → F o m = F .silent m
  /-- an observer that stops the run at an event of the log does stop it there -/
  stops : ∀ (o : Observer) (e : Event) (m' : Machine) (failure : Failure), o.StopsAt e m' failure →
    .event e m' ∈ log → F o m = (.error (.failure failure), m')

namespace Logged

variable {α β : Type} {F : Observer → Action α} {m : Machine} {log log' : List Entry}

theorem const {a : Action α} (hlog : ∀ e m', .event e m' ∉ log) : Logged (fun _ => a) m log :=
  ⟨fun _ _ => rfl, fun _ e m' _ _ hmem => absurd hmem (hlog e m')⟩

/-- An action is attempted, and a failure of it goes on. -/
theorem attempt {k : Observer → Except Signal α → Action β} (h : Logged F m log)
    (hfail : ∀ o failure, k o (.error (.failure failure)) = MonadExcept.throw (.failure failure))
    (hk : Logged (fun o => k o (F .silent m).1) (F .silent m).2 log') :
    Logged (fun o => Action.attempt (F o) >>= k o) m (log ++ log') := by
  have hrun : ∀ o, (Action.attempt (F o) >>= k o) m = k o (F o m).1 (F o m).2 := fun _ => rfl
  refine ⟨fun o hquiet => ?_, fun o e m' failure hstops hmem => ?_⟩
  · rw [hrun, h.quiet o fun e m' hmem => hquiet e m' (mem_append_left _ hmem)]
    exact hk.quiet o fun e m' hmem => hquiet e m' (mem_append_right _ hmem)
  · by_cases hfirst : .event e m' ∈ log
    · rw [hrun, h.stops o e m' failure hstops hfirst, hfail]
      rfl
    · have hquiet : ∀ e' m'', .event e' m'' ∈ log → o.notice e' m'' = (.ok (), m'') := fun e' m'' hmem' =>
        hstops.quiet e' m'' fun heq => hfirst (by cases heq; exact hmem')
      rw [hrun, h.quiet o hquiet]
      exact hk.stops o e m' failure hstops ((mem_append.1 hmem).resolve_left hfirst)

theorem told (h : Logged F m log) (e : Event) :
    Logged (fun o => o.notice e >>= fun _ => F o) m (.event e m :: log) := by
  refine ⟨fun o hquiet => ?_, fun o e' m' failure hstops hmem => ?_⟩
  · rw [Action.bind_of_ok (hquiet e m (.head _))]
    exact h.quiet o fun e' m' hmem => hquiet e' m' (.tail _ hmem)
  · by_cases hhere : (e, m) = (e', m')
    · cases hhere
      exact Action.bind_of_error hstops.stops _
    · rw [Action.bind_of_ok (hstops.quiet e m hhere)]
      refine h.stops o e' m' failure hstops ((mem_cons.1 hmem).resolve_left fun heq => hhere ?_)
      cases heq
      rfl

end Logged

end SmallScript.Evaluate
