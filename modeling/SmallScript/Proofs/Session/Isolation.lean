import SmallScript.Proofs.Session.Sandbox
import SmallScript.Ide.Server

/-!
# Sessions do not see each other

Two guarded sessions live on one machine, and their programs are run in any order. What each program prints
and what becomes of it is the same as if its session had a machine for itself: `sessions_isolated`.

A session on the shared machine is compared with the same session alone, by a base for each of the two. The
bases are `Apart`: a cell of the shared machine is paired in both of them only if it belongs to a module. A run
of one session leaves alone what it has no pair for, and it never changes a module, so the other base still fits.
-/

namespace SmallScript.Session

open Machine Evaluate Syntax Array
open Value (ScopeRef modules)
open Number (NumberFault)
open Inspect (Datum)

/-! ## Reports -/

/-- A value as it is shown: as programs print it, and with all its parts. -/
structure Rendered where
  text : Except NumberFault String
  datum : Datum

/-- What becomes of a program. A signal that would leave it is the failure that programs make of it. -/
def outcomeOf : Except Signal Rendered → Except Failure Rendered
  | .ok shown => .ok shown
  | .error (.failure f) => .error f
  | .error (.ret _) => .error (.problem (.returnOutside .zero))
  | .error .brk => .error (.problem (.breakOutside .zero))
  | .error .cont => .error (.problem (.continueOutside .zero))

/-- What a program prints and what becomes of it. -/
structure Report where
  printed : String
  outcome : Except Failure Rendered

/-- Reads and evaluates a program and renders its value. -/
def renderSource (s : ScopeRef) (source : String) : Action Rendered := do
  let v ← evaluateSource s source
  let h ← Action.heap
  return ⟨(h.snapshot v).display false, (h.snapshot v).datum⟩

/-- Runs a program in a scope. What it prints goes into the report. -/
def report (s : ScopeRef) (source : String) (m : Machine) : Report × Machine :=
  match Ide.captured (Action.attempt (renderSource s source)) m with
  | (.ok (r, printed), m) => (⟨printed, outcomeOf r⟩, m)
  | (.error e, m) => (⟨"", outcomeOf (.error e)⟩, m)

/-- The reports of programs that are run one after the other in a scope. -/
def alone (s : ScopeRef) : List String → Machine → List Report
  | [], _ => []
  | source :: rest, m =>
    let (r, m) := report s source m
    r :: alone s rest m

/-- The reports of programs that are run one after the other, each in one of two scopes. -/
def interleaved (s t : ScopeRef) : List (String ⊕ String) → Machine → List (Report ⊕ Report)
  | [], _ => []
  | .inl source :: rest, m =>
    let (r, m) := report s source m
    .inl r :: interleaved s t rest m
  | .inr source :: rest, m =>
    let (r, m) := report t source m
    .inr r :: interleaved s t rest m

/-! ## Bases for a session -/

/-- The base with other surroundings. -/
def withWorlds (β : Base) {w w' : World} (hw : SameSurroundings w w') : Base :=
  { β with
    left := { β.left with world := w }
    right := { β.right with world := w' }
    surroundings := hw }

/-- A bridge as a base, with other surroundings. -/
def baseOf {β : Base} (b : Bridge β) {w w' : World} (hw : SameSurroundings w w') : Base where
  left := { b.left with world := w }
  right := { b.right with world := w' }
  known := b.link
  known_inj := b.link_inj
  content := b.linked.content
  stamp := b.stamp_zero
  openModules name ref hm hn := (β.openModules name ref hm hn).mono b.known_le
  modulesLeft := Nat.le_trans β.modulesLeft (b.left_count_le .record)
  modulesRight := Nat.le_trans β.modulesRight (b.right_count_le .record)
  surroundings := hw

/-- The second base is a later one of the same session; this says what has become of the right machine. -/
structure Later (β β' : Base) : Prop where
  known : β.known ≤ β'.known
  fresh : ∀ k i j, β'.known k i j → β.known k i j ∨ β.right.heap.count k ≤ j
  counts : ∀ k, β.right.heap.count k ≤ β'.right.heap.count k
  frame : ∀ k j, j < β.right.heap.count k → (∀ i, ¬ β.known k i j) →
    β'.right.heap.content? k j = β.right.heap.content? k j
  modules : ∀ i < modules.length, β'.right.heap.content? .record i = β.right.heap.content? .record i
  surroundings : SameSurroundings β.right.world β'.right.world

/-- The machine with nothing printed yet. -/
def quiet (m : Machine) : Machine := { m with world := { m.world with output := "" } }

/-- The machine with a printed text. -/
def withOutput (m : Machine) (text : String) : Machine := { m with world := { m.world with output := text } }

theorem sameSurroundings_withOutput {m m'} (h : SameSurroundings m.world m'.world)
    (text text' : String) : SameSurroundings (withOutput m text).world (withOutput m' text').world := by
  obtain ⟨hfiles, hroutes, hclock, hrandom⟩ := h
  exact ⟨hfiles, hroutes, hclock, hrandom⟩

theorem report_eq {s source m m' r} (h : renderSource s source (quiet m) = (r, m')) :
    report s source m = (⟨m'.world.output, outcomeOf r⟩, withOutput m' m.world.output) := by
  have ha : Action.attempt (renderSource s source) (quiet m) = (.ok r, m') := Action.attempt_of_eq h
  unfold report Ide.captured
  rw [show ({ m with world := { m.world with output := "" } } : Machine) = quiet m from rfl, ha]
  rfl

theorem renderSource_sim {β} {b : Bridge β} {s s'} (hs : b.link .scope s s')
    (source : String) : Sim b Same (renderSource s source) (renderSource s' source) := by
  refine (evaluateSource_sim (Observer.silent_agree β) hs source).bind fun b1 _ v v' hv => .heap ?_
  have hl := Bridge.snapshot_link hv
  rw [Snapshot.display_eq false hl, Snapshot.datum_eq hl]
  exact .pure rfl

theorem outcome_eq {ρ r r'} (h : ResultLink ρ (Same ρ) r r') : outcomeOf r = outcomeOf r' := by
  cases h with
  | ok h => cases h; rfl
  | error h => cases h <;> rfl

/-- A program of a session makes the same report on both machines, and leads to a later base. -/
theorem report_step (β : Base) {s s'} (hs : β.known .scope s s') (source : String) :
    ∃ (r : Report) (β' : Base), report s source β.left = (r, β'.left) ∧
      report s' source β.right = (r, β'.right) ∧ Later β β' := by
  have hq : SameSurroundings (quiet β.left).world (quiet β.right).world :=
    sameSurroundings_withOutput β.surroundings "" ""
  have hs' : (Bridge.start (withWorlds β hq)).link .scope s s' := Bridge.known_le _ _ _ _ hs
  obtain ⟨b, x, x', -, hl, hr, hR⟩ := renderSource_sim hs' source
  obtain ⟨e, hel, her⟩ := b.linked.effects
  have hprinted : b.left.world.output = b.right.world.output := by rw [hel, her]; rfl
  have hw : SameSurroundings (withOutput b.left β.left.world.output).world
      (withOutput b.right β.right.world.output).world := sameSurroundings_withOutput b.surroundings _ _
  refine ⟨⟨b.left.world.output, outcomeOf x⟩, baseOf b hw, report_eq hl, ?_, ?_⟩
  · rw [report_eq hr, hprinted, outcome_eq hR]
    rfl
  · constructor
    · exact b.known_le
    · rintro k i j ⟨hk | ⟨t, -, rfl⟩, -⟩
      · exact .inl hk
      · exact .inr (Nat.le_add_right _ _)
    · exact b.right_count_le
    · exact b.linked.frameRight
    · exact b.linked.modulesRight
    · show SameSurroundings β.right.world (withOutput b.right β.right.world.output).world
      rw [withOutput, her]
      exact ⟨rfl, rfl, rfl, rfl⟩

/-! ## Two sessions on one machine -/

/-- Two bases with the same right machine that share nothing but modules and stamps there. -/
structure Apart (β₁ β₂ : Base) : Prop where
  right : β₁.right = β₂.right
  known : ∀ k i i' j, β₁.known k i j → β₂.known k i' j →
    k = .stamp ∨ (k = .record ∧ j < modules.length)

theorem Apart.symm {β1 β2} (h : Apart β1 β2) : Apart β2 β1 :=
  ⟨h.right.symm, fun k i i' j h2 h1 => h.known k i' i j h1 h2⟩

/-- What one session does leaves the cells of the other one as they are. -/
theorem Apart.content_eq {β1 β2 β1'} (h : Apart β1 β2) (hl : Later β1 β1') {k i j}
    (hk : β2.known k i j) : β1'.right.heap.content? k j = β2.right.heap.content? k j := by
  have hj : j < β1.right.heap.count k := by
    rw [h.right]
    exact (Base.lt_of_known hk).2
  rw [← h.right]
  by_cases hshared : ∃ i', β1.known k i' j
  · obtain ⟨i', hi'⟩ := hshared
    rcases h.known k i' i j hi' hk with rfl | ⟨rfl, hlt⟩
    · -- stamps have no contents
      have hj' : j < β1'.right.heap.count .stamp := lt_of_lt_of_le hj (hl.counts .stamp)
      exact (if_pos hj').trans (if_pos hj).symm
    · exact hl.modules j hlt
  · exact hl.frame k j hj fun i' hi' => hshared ⟨i', hi'⟩

/-- After a step of one session, the other one still has a base, and the two are apart. -/
theorem Apart.later {β1 β2 β1'} (h : Apart β1 β2) (hl : Later β1 β1') :
    ∃ β2', β2'.left = β2.left ∧ β2'.known = β2.known ∧ Apart β1' β2' := by
  refine ⟨{ β2 with
    right := β1'.right
    content := ?_
    modulesRight := β1'.modulesRight
    surroundings := ?_ }, rfl, rfl, rfl, ?_⟩
  · intro k i j hk
    obtain ⟨c, c', hc, hc', hlink⟩ := β2.content hk
    exact ⟨c, c', hc, (h.content_eq hl hk).trans hc', hlink⟩
  · obtain ⟨hf, hr, hc, hx⟩ := β2.surroundings
    obtain ⟨hf', hr', hc', hx'⟩ := hl.surroundings
    rw [h.right] at hf' hr' hc' hx'
    exact ⟨hf.trans hf', hr.trans hr', hc.trans hc', hx.trans hx'⟩
  · intro k i i' j h1 h2
    rcases hl.fresh k i j h1 with hk | hge
    · exact h.known k i i' j hk h2
    · have hk2 : β2.known k i' j := h2
      have hlt := (Base.lt_of_known hk2).2
      rw [← h.right] at hlt
      exact absurd hlt (not_lt.2 hge)

/-- However the programs of two sessions are interleaved, each session has the reports that it has alone. -/
theorem interleaved_reports (steps : List (String ⊕ String)) {β1 β2} (h : Apart β1 β2)
    {s1 t1 s2 t2} (h1 : β1.known .scope s1 t1) (h2 : β2.known .scope s2 t2) :
    (interleaved t1 t2 steps β1.right).filterMap Sum.getLeft? = alone s1 (steps.filterMap Sum.getLeft?) β1.left ∧
    (interleaved t1 t2 steps β1.right).filterMap Sum.getRight? = alone s2 (steps.filterMap Sum.getRight?) β2.left := by
  induction steps generalizing β1 β2 with
  | nil => exact ⟨rfl, rfl⟩
  | cons step rest ih =>
    cases step with
    | inl source =>
      obtain ⟨r, β1', hleft, hright, hlater⟩ := report_step β1 h1 source
      obtain ⟨β2', hl2, hk2, h'⟩ := h.later hlater
      obtain ⟨ihl, ihr⟩ := ih h' (hlater.known _ _ _ h1) (hk2 ▸ h2)
      simp only [interleaved, hright, List.filterMap_cons, Sum.getLeft?, alone, hleft]
      exact ⟨congrArg _ ihl, hl2 ▸ ihr⟩
    | inr source =>
      obtain ⟨r, β2', hleft, hright, hlater⟩ := report_step β2 h2 source
      obtain ⟨β1', hl1, hk1, h'⟩ := h.symm.later hlater
      obtain ⟨ihl, ihr⟩ := ih h'.symm (hk1 ▸ h1) (hlater.known _ _ _ h2)
      rw [h'.symm.right] at ihl ihr
      simp only [interleaved, h.right, hright, List.filterMap_cons, Sum.getLeft?, Sum.getRight?, alone, hleft]
      exact ⟨hl1 ▸ ihl, congrArg _ ihr⟩

/-! ## Two new sessions -/

/-- Two sessions opened one after the other. -/
def openTwo (m : Machine) : ScopeRef × ScopeRef × Machine :=
  let (s, m) := openGuarded m
  let (t, m) := openGuarded m
  (s, t, m)

theorem openTwo_first (m : Machine) : (openTwo m).2.2.heap.scopes[(openTwo m).1]? = some Heap.guardedGlobal := by
  have hlt : (openTwo m).1 < (openGuarded m).2.heap.scopes.size := by
    show m.heap.scopes.size < (m.heap.scopes.push _).size
    rw [size_push]
    exact Nat.lt_succ_self _
  show ((openGuarded m).2.heap.scopes.push _)[(openTwo m).1]? = _
  rw [getElem?_push_lt hlt, ← getElem?_eq_getElem hlt]
  exact openGuarded_scope m

theorem openTwo_second (m : Machine) : (openTwo m).2.2.heap.scopes[(openTwo m).2.1]? = some Heap.guardedGlobal :=
  openGuarded_scope (openGuarded m).2

theorem openTwo_ne (m : Machine) : (openTwo m).1 ≠ (openTwo m).2.1 := by
  show m.heap.scopes.size ≠ (m.heap.scopes.push _).size
  rw [size_push]
  exact ne_of_lt (Nat.lt_succ_self _)

/-- New sessions share nothing but the modules. -/
theorem startLink_apart {g g1 g' g2} (hne : g1 ≠ g2) (k : CellKind) (i i' j : Nat)
    (h : startLink g g1 k i j) (h' : startLink g' g2 k i' j) :
    k = .stamp ∨ (k = .record ∧ j < modules.length) := by
  cases k with
  | scope => exact absurd (h.2.symm.trans h'.2) hne
  | record =>
    obtain ⟨rfl, m, hm, -⟩ := h
    exact .inr ⟨rfl, (getElem?_eq_some_iff.1 hm).1⟩
  | stamp => exact .inl rfl
  | array | closure | cls | enum => exact h.elim

/-- Two guarded sessions on one machine do not see each other: however their programs are interleaved, each
of them prints what it prints, and becomes what it becomes, when its session is alone on a machine with the
same surroundings. -/
theorem sessions_isolated (shared first second : Machine) (hs : shared.heap.Ready) (h₁ : first.heap.Ready)
    (h₂ : second.heap.Ready) (hw₁ : SameSurroundings first.world shared.world)
    (hw₂ : SameSurroundings second.world shared.world) (steps : List (String ⊕ String)) :
    let (s, t, m) := openTwo shared
    let reports := interleaved s t steps m
    reports.filterMap Sum.getLeft? = alone (openGuarded first).1 (steps.filterMap Sum.getLeft?) (openGuarded first).2 ∧
    reports.filterMap Sum.getRight? =
      alone (openGuarded second).1 (steps.filterMap Sum.getRight?) (openGuarded second).2 := by
  have hready : (openTwo shared).2.2.heap.Ready := hs.newGlobal.newGlobal
  have hapart : Apart (.ofGlobals h₁.newGlobal hready (openGuarded_scope first) (openTwo_first shared) hw₁)
      (.ofGlobals h₂.newGlobal hready (openGuarded_scope second) (openTwo_second shared) hw₂) :=
    ⟨rfl, startLink_apart (openTwo_ne shared)⟩
  exact interleaved_reports steps hapart ⟨rfl, rfl⟩ ⟨rfl, rfl⟩

/-- Both sessions have a variable of one name, and one of them fails between its uses. -/
def rivalSteps : List (String ⊕ String) :=
  [.inl "let x = 1;", .inr "const x = 2;", .inl "x = [x]", .inr "x = 3", .inl "print(x)", .inr "print(x)"]

theorem sessions_isolated_rivals : plainMachine.heap.Ready ∧ SameSurroundings plainMachine.world plainMachine.world ∧
    let (s, t, m) := openTwo plainMachine
    let reports := interleaved s t rivalSteps m
    reports.filterMap Sum.getLeft? = alone (openGuarded plainMachine).1
      ["let x = 1;", "x = [x]", "print(x)"] (openGuarded plainMachine).2 ∧
    reports.filterMap Sum.getRight? = alone (openGuarded plainMachine).1
      ["const x = 2;", "x = 3", "print(x)"] (openGuarded plainMachine).2 ∧
    reports.map (fun r => (r.elim id id).printed) = ["", "", "", "", "[ 1 ]\n", "2\n"] := by
  have hr : plainMachine.heap.Ready := Heap.initial_ready
  have hw : SameSurroundings plainMachine.world plainMachine.world := ⟨rfl, rfl, rfl, rfl⟩
  obtain ⟨hleft, hright⟩ := sessions_isolated plainMachine plainMachine plainMachine hr hr hr hw hw rivalSteps
  exact ⟨hr, hw, hleft, hright, by decide +kernel⟩

end SmallScript.Session
