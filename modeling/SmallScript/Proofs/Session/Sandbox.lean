import SmallScript.Proofs.Machine.Reach
import SmallScript.Proofs.Evaluate.InStep
import SmallScript.Session.Run

/-!
# The sandbox

Programs that are evaluated one after the other in a new guarded global scope never get hold of the native
functions of the guarded modules: `guarded_session_sealed`. This holds at every event that the evaluation
passes, for all programs, those that fail and the code of packages included.

`Passes` says that a run passes an event on some machine: it makes a difference what an observer does there.
The proof compares the run that nobody looks on with the run under an observer that acts on machines which are
not sealed. The two stay on the same machine, and that machine is sealed, so the observer never acts.
-/

namespace SmallScript.Session

open Machine Evaluate Syntax List
open Value (ScopeRef Native guardedModules)

/-! ## Sessions -/

/-- Opens a guarded session: a new global scope, and the machine that has it. -/
def openGuarded (m : Machine) : ScopeRef × Machine :=
  let (s, h) := m.heap.newGlobal true
  (s, { m with heap := h })

/-- Reads and evaluates a program. -/
def evaluateSource [Observer] (s : ScopeRef) (source : String) : Action Value := do
  let tree ← treeOf source
  evaluate tree s

/-- Evaluates programs one after the other in one scope, whatever becomes of each. -/
def evaluateAll [Observer] (s : ScopeRef) (sources : List String) : Action (List (Except Signal Value)) :=
  sources.mapM fun source => Action.attempt (evaluateSource s source)

/-- The run passes an event on a machine: what an observer does there, and nowhere else, makes a difference. -/
def Passes {α : Type} (run : Observer → Action α) (start : Machine) (e : Event) (m : Machine) : Prop :=
  ∃ o : Observer, (∀ e' m', (e', m') ≠ (e, m) → o.notice e' m' = (.ok (), m')) ∧
    run o start ≠ run .silent start

/-! ## Sealed machines -/

/-- The items that are in use at an event. -/
def eventItems : Event → List Item
  | .enter _ s => [.cell .scope s]
  | .leave _ s v => .cell .scope s :: (valueItem? v).toList
  | .call f args s => .native f :: .cell .scope s :: args.filterMap valueItem?

/-- The item that the outcome of a program holds. -/
def outcomeItem? : Except Signal Value → Option Item
  | .ok v | .error (.ret v) => valueItem? v
  | .error _ => none

/-- A machine on which a session, begun on an earlier machine, is sealed while it uses some items. -/
structure Sealed (before : Machine) (used : List Item) (m : Machine) : Prop where
  /-- every scope made since is guarded -/
  guarded : ∀ s, before.heap.count .scope ≤ s → s < m.heap.count .scope → m.heap.isGuarded s = true
  /-- the native functions of the guarded modules are out of reach of every cell made since -/
  cells : ∀ k i, before.heap.count k ≤ i → i < m.heap.count k →
    ∀ f ∈ guardedNatives, ¬ m.heap.Reaches (.cell k i) (.native f)
  /-- of every module that is not guarded -/
  modules : ∀ name i, Heap.module? name = some (.record i) → name ∉ guardedModules →
    ∀ f ∈ guardedNatives, ¬ m.heap.Reaches (.cell .record i) (.native f)
  /-- and of every item in use -/
  items : ∀ a ∈ used, ∀ f ∈ guardedNatives, ¬ m.heap.Reaches a (.native f)
  /-- no input is used up -/
  input : m.world.input = before.world.input
  /-- all that the session does to its surroundings is to print, to send requests and to wait -/
  effects : ∃ e : Effects, m.world = e.on before.world

/-! ## Evaluation in step -/

variable {β : Base}

theorem treeOf_sim {b : Bridge β} (source : String) : Sim b Same (treeOf source) (treeOf source) := by
  unfold treeOf
  split
  · exact .pure rfl
  · exact .fail _ rfl

theorem evaluateSource_sim {o o'} (ho : Observer.Agree β o o') {b : Bridge β} {s s'}
    (hs : b.link .scope s s') (source : String) :
    Sim b ValueLink (@evaluateSource o s source) (@evaluateSource o' s' source) := by
  exact (treeOf_sim source).bindSame fun b1 h1 tree => evaluate_sim ho tree (h1.link hs)

/-- The outcomes of a program on both sides. -/
def ProgramLink (ρ : Link) : Except Signal Value → Except Signal Value → Prop := ResultLink ρ (ValueLink ρ)

variable {ρ : Link}

theorem ProgramLink.mono {ρ'} (hρ : ρ ≤ ρ') {r r'} (h : ProgramLink ρ r r') : ProgramLink ρ' r r' := by
  cases h with
  | ok h => exact .ok (h.mono hρ)
  | error h =>
    cases h with
    | failure f h => exact .error (.failure f h)
    | ret h => exact .error (.ret (h.mono hρ))
    | brk => exact .error .brk
    | cont => exact .error .cont

theorem evaluateAll_sim {o o'} (ho : Observer.Agree β o o') {b : Bridge β} {s s'}
    (hs : b.link .scope s s') (sources : List String) :
    Sim b (fun ρ => List.Forall₂ (ProgramLink ρ)) (@evaluateAll o s sources) (@evaluateAll o' s' sources) := by
  refine .mapM (fun hρ _ _ h => .mono hρ h) (forall₂_same.2 fun _ _ => rfl) fun b1 h1 source source' he => ?_
  cases he
  exact (evaluateSource_sim ho (h1.link hs) source).attempt

/-! ## Sealed at every point -/

theorem eventItems_isLinked {e e'} (h : EventLink ρ e e') : ∀ a ∈ eventItems e, a.IsLinked ρ := by
  intro a ha
  cases h with
  | enter n hs =>
    cases mem_singleton.1 ha
    exact ⟨_, hs⟩
  | leave n hs hv =>
    rcases mem_cons.1 ha with rfl | ha
    · exact ⟨_, hs⟩
    · exact hv.isLinked_item (Option.mem_toList.1 ha)
  | call f hf hargs hs =>
    rcases mem_cons.1 ha with rfl | ha
    · exact hf
    · rcases mem_cons.1 ha with rfl | ha
      · exact ⟨_, hs⟩
      · exact hargs.isLinked_items a ha

theorem event_eq_of_diagonal (hρ : Link.IsDiagonal ρ) {e e'} (h : EventLink ρ e e') : e = e' := by
  cases h with
  | enter n hs => rw [hρ hs]
  | leave n hs hv => rw [hρ hs, hv.eq_of_diagonal hρ]
  | call f hf hargs hs => rw [hρ hs, hargs.eq_of_diagonal hρ]

theorem outcome_eq_of_diagonal (hρ : Link.IsDiagonal ρ) {r r'} (h : ProgramLink ρ r r') : r = r' := by
  cases h with
  | ok h => rw [h.eq_of_diagonal hρ]
  | error h =>
    cases h with
    | ret h => rw [h.eq_of_diagonal hρ]
    | _ => rfl

theorem outcomeItem_isLinked {r r'} (h : ProgramLink ρ r r') {a} (ha : outcomeItem? r = some a) : a.IsLinked ρ := by
  cases h with
  | ok h => exact h.isLinked_item ha
  | error h =>
    cases h with
    | ret h => exact h.isLinked_item ha
    | _ => cases ha

theorem exists_of_forall₂ {ι ι' : Type} {Q} {xs : List ι} {ys : List ι'}
    (h : List.Forall₂ Q xs ys) {x : ι} (hx : x ∈ xs) : ∃ y ∈ ys, Q x y := by
  induction h with
  | nil => cases hx
  | @cons a b as bs hab _ ih =>
    rcases mem_cons.1 hx with rfl | hx
    · exact ⟨b, (.head _), hab⟩
    · obtain ⟨y, hy, hq⟩ := ih hx
      exact ⟨y, .tail _ hy, hq⟩

/-- Every program of a session has an outcome. -/
theorem evaluateAll_ok [Observer] (s : ScopeRef) (sources : List String) (m : Machine) :
    ∃ outcomes m', evaluateAll s sources m = (.ok outcomes, m') ∧ outcomes.length = sources.length := by
  induction sources generalizing m with
  | nil => exact ⟨[], m, rfl, rfl⟩
  | cons source rest ih =>
    obtain ⟨rs, m', hrest, hlength⟩ := ih (evaluateSource s source m).2
    refine ⟨(evaluateSource s source m).1 :: rs, m', ?_, congrArg (· + 1) hlength⟩
    have hfirst : Action.attempt (evaluateSource s source) m =
        (.ok (evaluateSource s source m).1, (evaluateSource s source m).2) := Action.attempt_of_eq rfl
    rw [evaluateAll, mapM_cons]
    exact Action.bind_of_ok hrest _

section

variable {m : Machine} (hm : m.heap.Ready)

theorem openGuarded_scope (m : Machine) : (openGuarded m).2.heap.scopes[(openGuarded m).1]? = some Heap.guardedGlobal :=
  Array.getElem?_push_size

/-- A session compared with itself: all its cells are paired with themselves. -/
def sessionBase : Base :=
  Base.ofGlobals hm.newGlobal hm.newGlobal (openGuarded_scope m) (openGuarded_scope m) ⟨rfl, rfl, rfl, rfl⟩

theorem sessionBase_diagonal : Link.IsDiagonal (sessionBase hm).known := by
  intro k i j h
  cases k with
  | scope | stamp => exact h.1.trans h.2.symm
  | record => exact h.1
  | array | closure | cls | enum => exact h.elim

/-- Every cell made since the session was opened is paired. -/
theorem link_of_new (b : Bridge (sessionBase hm)) {k i} (hi : m.heap.count k ≤ i)
    (hi' : i < b.left.heap.count k) : b.link k i i := by
  by_cases hlt : i < (sessionBase hm).left.heap.count k
  · -- only the global scope itself
    have hc : (sessionBase hm).left.heap.count k = m.heap.count k + if k = .scope then 1 else 0 :=
      (Heap.newGlobal_allocates m.heap).count k
    by_cases hk : k = .scope
    · subst hk
      rw [hc] at hlt
      have he : i = (openGuarded m).1 := le_antisymm (Nat.le_of_lt_succ hlt) hi
      exact ⟨.inl ⟨he, he⟩, hi'⟩
    · rw [hc, if_neg hk] at hlt
      omega
  · exact ⟨.inr ⟨i - (sessionBase hm).left.heap.count k, by omega, by
      show i = (sessionBase hm).left.heap.count k + _
      omega⟩, hi'⟩

theorem sealed_of_bridge (b : Bridge (sessionBase hm)) {used}
    (hu : ∀ a ∈ used, a.IsLinked b.link) : Sealed m used b.left where
  guarded _ hs hs' := Bridge.isGuarded_left (link_of_new hm b hs hs')
  cells k i hi hi' _ hf := by
    have hl : (Item.cell k i).IsLinked b.link := ⟨i, link_of_new hm b hi hi'⟩
    exact b.not_reaches_guarded hl hf
  modules name i hi hn _ hf := by
    cases (sessionBase hm).openModules name _ hi hn with
    | record hk =>
      have hl : (Item.cell .record i).IsLinked b.link := ⟨i, b.known_le _ _ _ hk⟩
      exact b.not_reaches_guarded hl hf
  items a ha _ hf := b.not_reaches_guarded (hu a ha) hf
  input := by
    obtain ⟨e, he, -⟩ := b.linked.effects
    rw [he]
    rfl
  effects := by
    obtain ⟨e, he, -⟩ := b.linked.effects
    exact ⟨e, he⟩

/-- An observer that does nothing on sealed machines has nothing to do in a session. -/
theorem agree_of_sealed {o} (ho : ∀ e m', Sealed m (eventItems e) m' → o.notice e m' = (.ok (), m')) :
    Observer.Agree (sessionBase hm) .silent o := by
  intro b e e' he
  have hs := sealed_of_bridge hm b (eventItems_isLinked he)
  have hdiag := b.link_diagonal rfl (sessionBase_diagonal hm)
  have hmachine := b.left_eq_right rfl (sessionBase_diagonal hm)
  cases event_eq_of_diagonal hdiag he
  refine ⟨b, .ok (), .ok (), le_refl b, rfl, ?_, .ok rfl⟩
  rw [← hmachine]
  exact ho e b.left hs

theorem start_link : (Bridge.start (sessionBase hm)).link .scope (openGuarded m).1 (openGuarded m).1 :=
  (Bridge.start (sessionBase hm)).known_le _ _ _ ⟨rfl, rfl⟩

include hm in
/-- Under such an observer the session runs as if nobody looked on. -/
theorem evaluateAll_eq_silent {o : Observer}
    (ho : ∀ e m', Sealed m (eventItems e) m' → o.notice e m' = (.ok (), m')) (sources : List String) :
    @evaluateAll o (openGuarded m).1 sources (openGuarded m).2 =
      @evaluateAll .silent (openGuarded m).1 sources (openGuarded m).2 := by
  obtain ⟨b, r, r', -, hl, hr, hR⟩ :=
    evaluateAll_sim (agree_of_sealed hm ho) (start_link hm) sources
  have hdiag := b.link_diagonal rfl (sessionBase_diagonal hm)
  have hmachine := b.left_eq_right rfl (sessionBase_diagonal hm)
  have hres : r = r' := by
    cases hR with
    | ok h =>
      have he := h.imp fun _ _ h => outcome_eq_of_diagonal hdiag h
      rw [forall₂_eq_eq_eq] at he
      rw [he]
    | error h =>
      cases h with
      | ret h => rw [h.eq_of_diagonal hdiag]
      | _ => rfl
  have hleft : @evaluateAll .silent (openGuarded m).1 sources (openGuarded m).2 = (r, b.left) := hl
  have hright : @evaluateAll o (openGuarded m).1 sources (openGuarded m).2 = (r', b.right) := hr
  rw [hleft, hright, hres, hmachine]

include hm in
/-- The outcomes of a session, and the machine at its end. -/
theorem evaluateAll_contained (sources : List String) :
    ∃ (outcomes : List (Except Signal Value)) (m' : Machine),
      evaluateAll (openGuarded m).1 sources (openGuarded m).2 = (.ok outcomes, m') ∧
      outcomes.length = sources.length ∧
      Sealed m (outcomes.filterMap outcomeItem?) m' ∧
      ∀ f, .error (.failure f) ∈ outcomes → f.isContained = true := by
  obtain ⟨outcomes, m', hrun, hlength⟩ := evaluateAll_ok (openGuarded m).1 sources (openGuarded m).2
  obtain ⟨b, r, r', -, hl, -, hR⟩ :=
    evaluateAll_sim (Observer.silent_agree (sessionBase hm)) (start_link hm) sources
  have he : (Except.ok outcomes, m') = (r, b.left) := hrun.symm.trans hl
  cases he
  cases hR with
  | ok h =>
    refine ⟨outcomes, b.left, hrun, hlength, sealed_of_bridge hm b fun a ha => ?_, fun f hf => ?_⟩
    · obtain ⟨x, hx, hxa⟩ := List.mem_filterMap.1 ha
      obtain ⟨x', -, hl⟩ := exists_of_forall₂ h hx
      exact outcomeItem_isLinked hl hxa
    · obtain ⟨x', -, hl⟩ := exists_of_forall₂ h hf
      cases hl with
      | error h =>
        cases h with
        | failure _ hc => exact hc

include hm in
open Classical in
/-- The root of the first program is passed, if that can be read. -/
theorem passes_root {source : String} {tree : Node} (ht : parse source = .ok tree) (rest : List String) :
    Passes (fun o => @evaluateAll o (openGuarded m).1 (source :: rest)) (openGuarded m).2
      (.enter tree (openGuarded m).1) (openGuarded m).2 := by
  -- the observer ends the process there, which a session never does of itself
  let o : Observer := ⟨fun e' m' =>
    if (e', m') = (.enter tree (openGuarded m).1, (openGuarded m).2) then (.error (.failure (.exit 0)), m')
    else (.ok (), m')⟩
  refine ⟨o, fun e' m' hne => if_neg hne, fun heq => ?_⟩
  have hfirst : @evaluateSource o (openGuarded m).1 source (openGuarded m).2 =
      (.error (.failure (.exit 0)), (openGuarded m).2) := by
    have htree : treeOf source (openGuarded m).2 = (.ok tree, (openGuarded m).2) := by
      rw [treeOf, ht]
      rfl
    rw [evaluateSource, Action.bind_of_ok htree, evaluate, fuelBound, eval]
    exact Action.bind_of_error (if_pos rfl) _
  obtain ⟨rs, m', hrun, -⟩ := @evaluateAll_ok o (openGuarded m).1 rest (openGuarded m).2
  have hall : @evaluateAll o (openGuarded m).1 (source :: rest) (openGuarded m).2 =
      (.ok (.error (.failure (.exit 0)) :: rs), m') := by
    rw [evaluateAll, mapM_cons, Action.bind_of_ok (Action.attempt_of_eq hfirst)]
    exact Action.bind_of_ok hrun _
  obtain ⟨outcomes, m'', hsilent, -, -, hc⟩ := evaluateAll_contained hm (source :: rest)
  have he : (Except.ok (.error (.failure (.exit 0)) :: rs), m') = (Except.ok outcomes, m'') :=
    hall.symm.trans (heq.trans hsilent)
  cases he
  exact absurd (hc (.exit 0) mem_cons_self) (by decide)

end

/-- Programs evaluated one after the other in a new guarded scope are sealed: at every event that they pass,
and at the end, no scope or value of the session leads to a native function of a guarded module, none of
these is called, all scopes of the session are guarded, and no input is used up. Each program has an outcome,
and this is not the end of the process. -/
theorem guarded_session_sealed (m : Machine) (hm : m.heap.Ready) (sources : List String) :
    (∀ e m', Passes (fun o => @evaluateAll o (openGuarded m).1 sources) (openGuarded m).2 e m' →
      Sealed m (eventItems e) m') ∧
    ∃ (outcomes : List (Except Signal Value)) (m' : Machine),
      evaluateAll (openGuarded m).1 sources (openGuarded m).2 = (.ok outcomes, m') ∧
      outcomes.length = sources.length ∧
      Sealed m (outcomes.filterMap outcomeItem?) m' ∧
      ∀ f, .error (.failure f) ∈ outcomes → f.isContained = true := by
  refine ⟨fun e m' hp => ?_, evaluateAll_contained hm sources⟩
  obtain ⟨o, ho, hne⟩ := hp
  refine Classical.byContradiction fun hs => hne ?_
  refine evaluateAll_eq_silent hm (fun e' m'' hs' => ho e' m'' fun he => hs ?_) sources
  cases he
  exact hs'

/-- Surroundings with nothing in them but a line of input. -/
def plainWorld : World where
  input := [.text "secret"]
  output := ""
  errors := ""
  files := .initial "/" [] ["packages"]
  routes := []
  requests := []
  slept := []
  clock := 0.0
  random := 0.5
  environment := []

/-- A new process. -/
def plainMachine : Machine := ⟨.initial, plainWorld, ""⟩

theorem guarded_session_sealed_plain : plainMachine.heap.Ready ∧ ∃ e m',
      Passes (fun o => @evaluateAll o (openGuarded plainMachine).1 ["exit(input())"])
        (openGuarded plainMachine).2 e m' ∧
      Sealed plainMachine (eventItems e) m' := by
  have hr : plainMachine.heap.Ready := Heap.initial_ready
  obtain ⟨tree, ht⟩ : ∃ tree, parse "exit(input())" = .ok tree := by
    have hok : (parse "exit(input())").isOk = true := by decide +kernel
    cases hp : parse "exit(input())" with
    | ok tree => exact ⟨tree, rfl⟩
    | error f =>
      rw [hp] at hok
      cases hok
  have hp := passes_root hr ht []
  exact ⟨hr, _, _, hp, (guarded_session_sealed plainMachine hr _).1 _ _ hp⟩

end SmallScript.Session
