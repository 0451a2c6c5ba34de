import Mathlib.Data.Fintype.EquivFin
import SmallScript.Proofs.Evaluate.Functions
import SmallScript.Proofs.Session.Sandbox

/-!
# Runs of many programs

A host opens global scopes and evaluates programs in them, in any order: `runJobs`. Two facts hold of all that can
happen then, whatever the programs are and however they end.

* Classes, enumerations and frozen objects never change: `frozen_values_kept`.
* No program fails through the shape of its tree, which the parser makes well-formed: `parsed_trees_run_clean`.
-/

namespace SmallScript.Session

open Machine Evaluate Syntax List
open Value (ScopeRef ObjectRef modules)

/-- What a host does with a machine. -/
inductive Job where
  /-- opens a global scope -/
  | openScope (guarded : Bool)
  /-- evaluates a program in a scope -/
  | evaluate (s : ScopeRef) (source : String)

/-- Does a job. Opening a scope has no outcome of its own. -/
def Job.run [Observer] : Job → Action (Except Signal Value)
  | .openScope guarded => do
    let _ ← Action.onHeap (·.newGlobal guarded)
    pure (.ok .null)
  | .evaluate s source => Action.attempt (evaluateSource s source)

/-- Does jobs one after the other, whatever becomes of each. -/
def runJobs [Observer] : List Job → Action (List (Except Signal Value))
  | [] => pure []
  | job :: jobs => do
    let outcome ← job.run
    let outcomes ← runJobs jobs
    pure (outcome :: outcomes)

/-- The program of the job, if it can be read, imports built-in modules only. -/
def Job.Domestic : Job → Prop
  | .openScope _ => True
  | .evaluate _ source => ∀ tree, parse source = .ok tree → tree.Domestic

/-- The scope of a program is there. -/
def Job.Seated : Job → Heap → Prop
  | .openScope _, _ => True
  | .evaluate s _, h => s < h.scopes.size

/-- When the turn of a program comes, its scope is there. -/
def Seated : List Job → Machine → Prop
  | [], _ => True
  | job :: jobs, m => job.Seated m.heap ∧ Seated jobs (job.run m).2

/-! ## The events that a run passes -/

open Classical in
/-- A run passes an event, if those observers make a difference that stop runs at the event in some way. -/
theorem passes_of_differs {α : Type} {f : Observer → Action α} {m : Machine} {e : Event} {m' : Machine}
    (failure : Failure) (h : ∀ o : Observer, o.StopsAt e m' failure → f o m ≠ f .silent m) : Passes f m e m' := by
  let o : Observer := ⟨fun e1 m₁ =>
    if (e1, m₁) = (e, m') then (.error (.failure failure), m₁) else (.ok (), m₁)⟩
  have hstops : o.StopsAt e m' failure := ⟨fun _ _ hne => if_neg hne, if_pos rfl⟩
  exact ⟨o, hstops.quiet, h o hstops⟩

/-- The events of a log are those which the run passes. -/
theorem passes_iff_mem_log {α : Type} {f : Observer → Action α} {m log} (hlog : Logged f m log)
    (e : Event) (m' : Machine) : Passes f m e m' ↔ .event e m' ∈ log := by
  constructor
  · rintro ⟨o, ho, hne⟩
    refine Classical.byContradiction fun hmem => hne (hlog.quiet o fun e' m'' hmem' => ho e' m'' fun heq => hmem ?_)
    cases heq
    exact hmem'
  · intro hmem
    -- of two failures at least one is not the outcome of the run that nobody looks on
    obtain ⟨failure, hfailure⟩ : ∃ failure, f .silent m ≠ (.error (.failure failure), m') := by
      by_cases hfuel : f .silent m = (.error (.failure .outOfFuel), m')
      · refine ⟨.endOfInput, fun hinput => ?_⟩
        rw [hfuel] at hinput
        cases hinput
      · exact ⟨.outOfFuel, hfuel⟩
    refine passes_of_differs failure fun o hstops heq => hfailure ?_
    rw [← heq, hlog.stops o e m' failure hstops hmem]

/-! ## Jobs, one after the other -/

section

variable {m m₁ m₂ : Machine} {job : Job} {jobs : List Job}

theorem Job.run_ok (o : Observer) (job : Job) (m : Machine) : ∃ outcome m', @Job.run o job m = (.ok outcome, m') := by
  cases job <;> exact ⟨_, _, rfl⟩

/-- The outcomes of jobs, the first of which leaves a machine to the others. -/
theorem runJobs_run {o outcome outcomes}
    (hjob : @Job.run o job m = (.ok outcome, m₁)) (hjobs : @runJobs o jobs m₁ = (.ok outcomes, m₂)) :
    @runJobs o (job :: jobs) m = (.ok (outcome :: outcomes), m₂) := by
  rw [runJobs, Action.bind_of_ok hjob, Action.bind_of_ok hjobs]
  rfl

theorem runJobs_ok (o : Observer) (jobs : List Job) (m : Machine) :
    ∃ outcomes m', @runJobs o jobs m = (.ok outcomes, m') := by
  induction jobs generalizing m with
  | nil => exact ⟨[], m, rfl⟩
  | cons job jobs ih =>
    obtain ⟨outcome, m₁, hjob⟩ := job.run_ok o m
    obtain ⟨outcomes, m₂, hjobs⟩ := ih m₁
    exact ⟨outcome :: outcomes, m₂, runJobs_run hjob hjobs⟩

/-- The events of the log are those that jobs pass, each with the machine that it is passed on. -/
structure JobsLogged (jobs : List Job) (m : Machine) (log : List Entry) : Prop where
  /-- an observer that does nothing at the events of the log makes no difference -/
  quiet : ∀ o : Observer, (∀ e m', .event e m' ∈ log → o.notice e m' = (.ok (), m')) →
    @runJobs o jobs m = @runJobs .silent jobs m
  /-- an observer that stops runs at an event of the log is seen in the outcome of a job -/
  stops : ∀ (o : Observer) (e : Event) (m' : Machine) (failure : Failure), o.StopsAt e m' failure →
    .event e m' ∈ log → ∃ outcomes m₁, @runJobs o jobs m = (.ok outcomes, m₁) ∧ .error (.failure failure) ∈ outcomes

/-- The code of an outcome that ends the process. -/
def exitCode? : Except Signal Value → Option Int
  | .error (.failure (.exit code)) => some code
  | _ => none

/-- There are more failures than outcomes. -/
theorem exists_new_failure (outcomes : List (Except Signal Value)) :
    ∃ failure, .error (.failure failure) ∉ outcomes := by
  obtain ⟨code, hnew⟩ := Infinite.exists_notMem_finset (outcomes.filterMap exitCode?).toFinset
  rw [mem_toFinset, mem_filterMap] at hnew
  exact ⟨.exit code, fun hmem => hnew ⟨_, hmem, rfl⟩⟩

theorem JobsLogged.passes_iff {log} (h : JobsLogged jobs m log) (e : Event) (m' : Machine) :
    Passes (fun o => @runJobs o jobs) m e m' ↔ .event e m' ∈ log := by
  constructor
  · rintro ⟨o, ho, hne⟩
    refine Classical.byContradiction fun hmem => hne (h.quiet o fun e' m'' hmem' => ho e' m'' fun heq => hmem ?_)
    cases heq
    exact hmem'
  · intro hmem
    obtain ⟨silent, m₁, hsilent⟩ := runJobs_ok .silent jobs m
    obtain ⟨failure, hnew⟩ := exists_new_failure silent
    refine passes_of_differs failure fun o hstops heq => hnew ?_
    obtain ⟨outcomes, m₂, houtcomes, hfailure⟩ := h.stops o e m' failure hstops hmem
    rw [heq, hsilent] at houtcomes
    cases houtcomes
    exact hfailure

/-- The terms of what a host evaluates. -/
abbrev hosting (strict home seated : Prop) : Terms :=
  { Terms.loose parseHazards (fun _ => True) with strict := strict, home := home, seated := seated }

variable {strict home seated : Prop}

theorem evaluateSource_conducts {s source} (hr : Ready (hosting strict home seated) s m)
    (hd : home → ∀ tree, parse source = .ok tree → tree.Domestic) :
    Conducts (hosting strict home seated) (Proper home) (fun o => @evaluateSource o s source) m := by
  unfold evaluateSource treeOf evaluate
  cases hparse : parse source with
  | error f =>
    exact .bind (A := fun _ _ => False) (.fail rfl (parse_error_kind hparse)) fun _ _ _ hno => hno.elim
  | ok tree =>
    exact (EvaluatorConducts.all fuelBound).eval hr ⟨fun _ => formed_of_parse hparse, fun hh => hd hh tree hparse,
      fun _ _ => trivial⟩

/-- What happens to the heap in a job, along a log of the events that the job passes. -/
theorem Job.run_trail (htidy : Tidy strict m.heap) (hm : home → m.heap.Ordinary) (hd : home → job.Domestic)
    (hj : seated → job.Seated m.heap) :
    ∃ log, Trail (hosting strict home seated) m log (job.run m).2 ∧
      (∀ o, (∀ e m', .event e m' ∈ log → o.notice e m' = (.ok (), m')) → @Job.run o job m = @Job.run .silent job m) ∧
      ∀ o e m' failure, o.StopsAt e m' failure → .event e m' ∈ log →
        @Job.run o job m = (.ok (.error (.failure failure)), m') := by
  cases job with
  | openScope guarded =>
    have hopen : Change (hosting strict home seated) m.heap (m.heap.newGlobal guarded).2 := .newGlobal guarded
    obtain ⟨log, htrail, hevents⟩ : ∃ log, Trail (hosting strict home seated) m log
        { m with heap := (m.heap.newGlobal guarded).2 } ∧ ∀ e m₁, .event e m₁ ∉ log :=
      Trail.of_deeds (.single hopen.toDeed) (fun hs => (hopen.arranges hs).frames) fun hs _ => (hopen.arranges hs).neat
    exact ⟨log, htrail, fun _ _ => rfl, fun _ e m' _ _ hmem => absurd hmem (hevents e m')⟩
  | evaluate s source =>
    obtain ⟨log, hconduct⟩ := evaluateSource_conducts ⟨htidy, hm, fun hs => ⟨hj hs, trivial⟩⟩ hd
    refine ⟨log, hconduct.trail, fun o hquiet => ?_, fun o e m' failure hstops hmem => ?_⟩
    · simp only [run, Action.attempt, hconduct.logged.quiet o hquiet]
    · simp only [run, Action.attempt, hconduct.logged.stops o e m' failure hstops hmem]

/-- What happens to the heap in jobs, along a log of the events that they pass. -/
theorem runJobs_trail (htidy : Tidy strict m.heap) (hm : home → m.heap.Ordinary)
    (hd : home → ∀ job ∈ jobs, job.Domestic) (hj : seated → Seated jobs m) :
    ∃ log, JobsLogged jobs m log ∧ Trail (hosting strict home seated) m log (runJobs jobs m).2 := by
  induction jobs generalizing m with
  | nil =>
    obtain ⟨log, htrail, hevents⟩ : ∃ log, Trail (hosting strict home seated) m log m ∧ ∀ e m₁, .event e m₁ ∉ log :=
      Trail.of_deeds .refl (fun _ => .refl _) fun _ _ hn => hn
    exact ⟨log, ⟨fun _ _ => rfl, fun _ e m' _ _ hmem => absurd hmem (hevents e m')⟩, htrail⟩
  | cons job jobs ih =>
    obtain ⟨log, htrail, hquiet, hstops⟩ := Job.run_trail htidy hm (fun hh => hd hh job (.head _)) fun hs => (hj hs).1
    obtain ⟨outcome, m₁, hjob⟩ := job.run_ok .silent m
    rw [hjob] at htrail
    obtain ⟨log', hlog', htrail'⟩ := ih (htrail.path.tidy htidy) (fun hh => (htrail.lawful hh (hm hh)).2)
      (fun hh job' hmem => hd hh job' (.tail _ hmem)) fun hs => by
        have hrest := (hj hs).2
        rwa [hjob] at hrest
    obtain ⟨outcomes, m₂, hjobs⟩ := runJobs_ok .silent jobs m₁
    rw [hjobs] at htrail'
    have hrun := runJobs_run hjob hjobs
    refine ⟨log ++ log', ⟨fun o hall => ?_, fun o e m' failure hstop hmem => ?_⟩, ?_⟩
    · have hjob' := hquiet o fun e m' hmem => hall e m' (mem_append_left _ hmem)
      have hjobs' := hlog'.quiet o fun e m' hmem => hall e m' (mem_append_right _ hmem)
      exact (runJobs_run (hjob'.trans hjob) (hjobs'.trans hjobs)).trans hrun.symm
    · by_cases hfirst : .event e m' ∈ log
      · obtain ⟨outcomes, m₂, hjobs⟩ := runJobs_ok o jobs m'
        exact ⟨_, m₂, runJobs_run (hstops o e m' failure hstop hfirst) hjobs, (.head _)⟩
      · have hjob' : @Job.run o job m = (.ok outcome, m₁) := by
          refine (hquiet o fun e' m'' hmem' => hstop.quiet e' m'' fun heq => hfirst ?_).trans hjob
          cases heq
          exact hmem'
        obtain ⟨outcomes, m₂, hjobs, hfailure⟩ :=
          hlog'.stops o e m' failure hstop ((mem_append.1 hmem).resolve_left hfirst)
        exact ⟨_, m₂, runJobs_run hjob' hjobs, .tail _ hfailure⟩
    · rw [hrun]
      exact htrail.trans htrail'

end

theorem module_isFrozen {name ref} (h : Heap.module? name = some ref) : Heap.initial.isFrozen ref = true := by
  obtain ⟨i, hi, rfl⟩ := Option.map_eq_some_iff.1 h
  obtain ⟨hlt, -, -⟩ := findIdx?_eq_some_iff_getElem.1 hi
  simp [Heap.isFrozen, Heap.initial, getElem?_eq_getElem hlt]

/-- Classes, enumerations and frozen objects stay as they are, from any machine on and whatever is done with it: at
each event that the run passes they are as they were at first, and at the end they are as they were at the event. The
objects of the built-in modules are frozen from the beginning. -/
theorem frozen_values_kept (m : Machine) (jobs : List Job) : (∀ e m', Passes (fun o => @runJobs o jobs) m e m' →
      Keeps m.heap m'.heap ∧ Keeps m'.heap (runJobs jobs m).2.heap) ∧
    Keeps m.heap (runJobs jobs m).2.heap ∧
    ∀ name ref, Heap.module? name = some ref → Heap.initial.isFrozen ref = true := by
  obtain ⟨log, hlog, htrail⟩ : ∃ log, JobsLogged jobs m log ∧ Trail (hosting False False False) m log (runJobs jobs m).2 :=
    runJobs_trail False.elim False.elim False.elim False.elim
  refine ⟨fun e m' hp => ?_, htrail.path.keeps, fun _ _ => module_isFrozen⟩
  obtain ⟨hto, hfrom⟩ := htrail.passes e m' ((hlog.passes_iff e m').1 hp)
  exact ⟨hto.keeps, hfrom.keeps⟩

/-- The tree of every source that can be read is well-formed, and when it is evaluated, in any scope of a machine on
which any jobs have been done since it was new, it does not fail with a problem that only other trees have. -/
theorem parsed_trees_run_clean (source : String) (tree : Node) (ht : parse source = .ok tree) : tree.Formed ∧
    ∀ (world : World) (pending : String) (jobs : List Job) (s : ScopeRef) (fuel : Nat) (p : Problem),
      (eval fuel tree s (runJobs jobs ⟨.initial, world, pending⟩).2).1 = .error (.failure (.problem p)) →
      p.isStructural = false := by
  have hformed := formed_of_parse ht
  refine ⟨hformed, fun world pending jobs s fuel p hp => ?_⟩
  -- a new machine has no functions but the native ones
  have hinitial : Tidy True .initial := fun _ i c hc => by simp [Heap.initial] at hc
  obtain ⟨log, -, htrail⟩ : ∃ log, JobsLogged jobs ⟨.initial, world, pending⟩ log ∧ Trail (hosting True False False)
      ⟨.initial, world, pending⟩ log (runJobs jobs ⟨.initial, world, pending⟩).2 :=
    runJobs_trail hinitial False.elim False.elim False.elim
  have hready : Ready (hosting True False False) s (runJobs jobs ⟨.initial, world, pending⟩).2 :=
    ⟨htrail.path.tidy hinitial, False.elim, False.elim⟩
  obtain ⟨_, -, hyields, -⟩ := (EvaluatorConducts.all fuel).eval hready ⟨fun _ => hformed, False.elim, fun _ _ => trivial⟩
  exact (hyields.failure _ hp).1 trivial

theorem parsed_trees_run_clean_loop : ∃ tree, parse "for i in a \x7b del i; x.y += -i; \x7d" = .ok tree ∧ tree.Formed ∧
      ∀ (world : World) (jobs : List Job) (s : ScopeRef) (p : Problem),
        (eval fuelBound tree s (runJobs jobs ⟨.initial, world, ""⟩).2).1 = .error (.failure (.problem p)) →
        p.isStructural = false := by
  obtain ⟨tree, ht⟩ : ∃ tree, parse "for i in a \x7b del i; x.y += -i; \x7d" = .ok tree := by
    have hok : (parse "for i in a \x7b del i; x.y += -i; \x7d").isOk = true := by decide +kernel
    cases hp : parse "for i in a \x7b del i; x.y += -i; \x7d" with
    | ok tree => exact ⟨tree, rfl⟩
    | error f =>
      rw [hp] at hok
      cases hok
  obtain ⟨hformed, hclean⟩ := parsed_trees_run_clean _ tree ht
  exact ⟨tree, ht, hformed, fun world jobs s p => hclean world "" jobs s fuelBound p⟩

end SmallScript.Session
