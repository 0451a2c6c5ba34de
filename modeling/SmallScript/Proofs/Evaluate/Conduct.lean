import SmallScript.Proofs.Evaluate.Blame
import SmallScript.Proofs.Evaluate.Imports
import SmallScript.Proofs.Evaluate.Jumps
import SmallScript.Proofs.Evaluate.Tame

/-!
# The conduct of an action

What is known of any part of an evaluation: the changes that it makes, the events that it passes, and how it ends. All of
it depends on what the part is evaluated for, and on what is known of the tree and of the heap before: the `Terms`.

A run has a log. `Trail t m log m'` says how the heap gets from the machine `m` to the machine `m'` along the log, and
`Yields` how the run ends there. `Conducts t Good F m` puts the two together, for an action that is told of observers.
It has one rule for each way in which actions are put together, so that the evaluator has to be gone through once.
-/

namespace SmallScript.Evaluate

open Machine List
open Value (ScopeRef ObjectRef)
open Data (Table)
open Syntax Heap

/-- What is known before a part of an evaluation, and what it may do. -/
structure Terms where
  /-- trees are well-formed -/
  strict : Prop
  /-- trees import built-in modules only, and all values are ordinary -/
  home : Prop
  /-- scopes are those of the heap -/
  seated : Prop
  /-- the node for which all this is done -/
  doer : Node
  /-- the scope in which this node is evaluated -/
  place : ScopeRef
  /-- the kinds of failure, beside reported problems, that it may have by itself -/
  kinds : List FailureKind
  /-- the jumps that may leave it, apart from those that functions leak -/
  allowed : Jump → Prop
  /-- the scopes whose constants it may change -/
  touches : ScopeRef → Prop
  /-- it relists no name by itself -/
  fresh : Prop

namespace Terms

/-- The terms of an evaluation that may have any jumps, and failures of some kinds by itself. -/
abbrev loose (kinds : List FailureKind) (touches : ScopeRef → Prop) : Terms :=
  ⟨False, False, False, .absent, 0, kinds, fun _ => True, touches, True⟩

/-- The terms of a node that is entered in a scope. -/
abbrev entering (t : Terms) (n : Node) (s : ScopeRef) (h : Heap) : Terms :=
  { t with doer := n, place := s, kinds := nodeHazards n, fresh := ¬ Relists n s h }

/-- Other jumps may leave. -/
abbrev letting (t : Terms) (allowed : Jump → Prop) : Terms := { t with allowed := allowed }

/-- The terms of the body of a loop, which takes breaks and continues. -/
abbrev looping (t : Terms) : Terms := t.letting fun j => j = .ret → t.allowed j

/-- The terms of the head of a loop, which takes breaks. -/
abbrev heading (t : Terms) : Terms := t.letting fun j => j ≠ .brk → t.allowed j

/-- Other scopes are concerned. -/
abbrev touching (t : Terms) (touches : ScopeRef → Prop) : Terms := { t with touches := touches }

/-- All is done in a new scope. -/
abbrev inside (t : Terms) (inner : ScopeRef) : Terms := { t with touches := (· = inner), fresh := True }

end Terms

/-- What must hold of a machine on which something is evaluated in a scope. -/
def Ready (t : Terms) (s : ScopeRef) (m : Machine) : Prop :=
  Tidy t.strict m.heap ∧ (t.home → m.heap.Ordinary) ∧ (t.seated → s < m.heap.scopes.size ∧ t.touches s)

/-- What is known of the machine after an action. -/
def Later (t : Terms) (m m' : Machine) : Prop :=
  Path t.strict m.heap m'.heap ∧ (t.home → m.heap.Ordinary → m'.heap.Ordinary) ∧
    (t.seated → m.heap.Frames t.touches m'.heap)

theorem Ready.later {t s m m'} (hr : Ready t s m) (hl : Later t m m') : Ready t s m' :=
  ⟨hl.1.tidy hr.1, fun hh => hl.2.1 hh (hr.2.1 hh), fun hs => ⟨(hl.2.2 hs).lt (hr.2.2 hs).1, (hr.2.2 hs).2⟩⟩

/-! ## Changes -/

/-- A change that a node may make. -/
structure Deed (t : Terms) (h h' : Heap) : Prop where
  step : Step t.strict h h'
  lawful : t.home → h.Ordinary → Lawful t.doer t.place h h'

/-- A change that leaves all scopes neat, too. -/
structure Change (t : Terms) (h h' : Heap) : Prop extends Deed t h h' where
  arranges : t.seated → h.Arranges t.touches h'

section

variable {t : Terms} {h h' : Heap} {s : ScopeRef} {name : String} {v : Value}

/-- A declaration for a node that may overwrite the name. -/
theorem Deed.redeclare {constant} (hn : t.home → t.doer.Overwrites t.place s name)
    (hv : t.home → h.Ordinary → v.Ordinary) (hd : h.declare s name v constant true = .ok h') : Deed t h h' where
  step := .declare s name v constant true hd
  lawful hh hm := ⟨.declare s name v constant true hd, hm.declare (hv hh hm) hd, fun _ _ hl => by
    obtain ⟨rfl, rfl⟩ := eq_of_loses_declare hd hl
    exact hn hh⟩

namespace Change

theorem of_scopes (hstep : Step t.strict h h') (ho : t.home → h.Ordinary → h'.Ordinary) (hs : h'.scopes = h.scopes) :
    Change t h h' :=
  ⟨⟨hstep, fun hh hm => .of_scopes hstep.weaken (ho hh hm) hs⟩, fun _ => .of_scopes hs⟩

theorem newScope (parent : ScopeRef) : Change t h (h.newScope parent).2 where
  step := .scope parent
  lawful _ hm := ⟨.scope parent, hm.newScope parent, fun _ _ hl => absurd hl not_loses_push⟩
  arranges _ := newScope_arranges h parent

theorem newGlobal (guarded : Bool) : Change t h (h.newGlobal guarded).2 where
  step := .global guarded
  lawful _ hm := ⟨.global guarded, hm.newGlobal guarded, fun _ _ hl => absurd hl not_loses_push⟩
  arranges _ := newGlobal_arranges h guarded

theorem declare {constant} (hs : t.seated → t.touches s) (hv : t.home → v.Ordinary)
    (hd : h.declare s name v constant false = .ok h') : Change t h h' where
  step := .declare s name v constant false hd
  lawful hh hm := ⟨.declare s name v constant false hd, hm.declare (hv hh) hd, fun _ _ hl =>
    absurd hl (not_loses_declare hd)⟩
  arranges hseated := (declare_arranges (.inl rfl) hd).mono fun _ hS => hS ▸ hs hseated

/-- A declaration of the variable of a loop. -/
theorem redeclare (hs : t.seated → t.touches s) (hn : t.home → t.doer.Overwrites t.place s name)
    (hv : t.home → h.Ordinary → v.Ordinary) (hd : h.declare s name v false true = .ok h') : Change t h h' :=
  ⟨.redeclare hn hv hd, fun hseated => (declare_arranges (.inr rfl) hd).mono fun _ hS => hS ▸ hs hseated⟩

theorem assign (hv : t.home → v.Ordinary) (ha : h.assign s name v false = .ok h') : Change t h h' where
  step := .assign s name v false ha
  lawful hh hm := ⟨.assign s name v false ha, hm.assign (hv hh) ha, fun _ _ hl => absurd hl (not_loses_assign ha)⟩
  arranges _ := assign_arranges ha

/-- An assignment for a node that may overwrite the name in every scope. -/
theorem reassign (hn : t.home → ∀ S, t.doer.Overwrites t.place S name) (hv : t.home → v.Ordinary)
    (ha : h.assign s name v true = .ok h') : Change t h h' where
  step := .assign s name v true ha
  lawful hh hm := ⟨.assign s name v true ha, hm.assign (hv hh) ha, fun S _ hl => by
    cases eq_of_loses_assign ha hl
    exact hn hh S⟩
  arranges _ := assign_arranges ha

theorem delete (hs : t.seated → t.touches s) (hn : t.home → t.doer.Overwrites t.place s name)
    (hd : h.delete s name = .ok h') : Change t h h' where
  step := .delete s name hd
  lawful hh hm := ⟨.delete s name hd, hm.delete hd, fun _ _ hl => by
    obtain ⟨rfl, rfl⟩ := eq_of_loses_delete hd hl
    exact hn hh⟩
  arranges hseated := (delete_arranges hd).mono fun _ hS => hS ▸ hs hseated

/-- A field of an object that may be assigned to. -/
theorem setField {ref} (key : String) (href : t.home → (Value.object ref).Ordinary)
    (hf : h.isFrozen ref = false) (hv : t.home → v.Ordinary) : Change t h (h.setField ref key v) where
  step := .setField ref key v hf
  lawful hh hm := by
    cases ref with
    | scope i => exact (href hh).elim
    | record i => exact .of_scopes (.setField (.record i) key v hf) (hm.setField i key (hv hh)) rfl
  arranges _ := setField_arranges h ref key v

end Change

end

/-! ## Trails -/

/-- What happens to the heap along a log. -/
structure Trail (t : Terms) (m : Machine) (log : List Entry) (m' : Machine) : Prop where
  course : Course t.doer t.place m log m'
  path : Path t.strict m.heap m'.heap
  /-- each event is passed on the way -/
  passes : ∀ e m₁, .event e m₁ ∈ log → Path t.strict m.heap m₁.heap ∧ Path t.strict m₁.heap m'.heap
  lawful : t.home → m.heap.Ordinary → LawfulLog log ∧ m'.heap.Ordinary
  frames : t.seated → m.heap.Frames t.touches m'.heap
  /-- unless a name is relisted, the scopes are neat at all events and at the end -/
  neat : t.seated → t.fresh → m.heap.Neat → Unrelisted log →
    m'.heap.Neat ∧ ∀ e m₁, .event e m₁ ∈ log → m₁.heap.Neat

namespace Trail

variable {t : Terms} {m m' m'' : Machine} {log log' : List Entry}

theorem later (h : Trail t m log m') : Later t m m' := ⟨h.path, fun hh hm => (h.lawful hh hm).2, h.frames⟩

theorem trans (h : Trail t m log m') (h' : Trail t m' log' m'') : Trail t m (log ++ log') m'' where
  course := h.course.trans h'.course
  path := h.path.trans h'.path
  passes e m1 hmem := by
    rcases mem_append.1 hmem with hmem | hmem
    · exact ⟨(h.passes e m1 hmem).1, (h.passes e m1 hmem).2.trans h'.path⟩
    · exact ⟨h.path.trans (h'.passes e m1 hmem).1, (h'.passes e m1 hmem).2⟩
  lawful hh hm := by
    obtain ⟨hlog, hm'⟩ := h.lawful hh hm
    obtain ⟨hlog', hm''⟩ := h'.lawful hh hm'
    exact ⟨hlog.append hlog', hm''⟩
  frames hs := (h.frames hs).trans (h'.frames hs)
  neat hs hf hn hclean := by
    rw [unrelisted_append] at hclean
    obtain ⟨hmiddle, hfirst⟩ := h.neat hs hf hn hclean.1
    obtain ⟨hend, hsecond⟩ := h'.neat hs hf hmiddle hclean.2
    exact ⟨hend, fun e m1 hmem => (mem_append.1 hmem).elim (hfirst e m1) (hsecond e m1)⟩

/-- Changes of the heap, one after the other, have a log without events. -/
theorem exists_course {h h'} (hp : Relation.ReflTransGen (Deed t) h h') (hm : m.heap = h) (hm' : m'.heap = h') :
    ∃ log, Course t.doer t.place m log m' ∧ (t.home → h.Ordinary → LawfulLog log ∧ h'.Ordinary) ∧
      ∀ e m1, .event e m1 ∉ log := by
  induction hp using Relation.ReflTransGen.head_induction_on generalizing m with
  | refl =>
    exact ⟨[], .beside (hm'.trans hm.symm) .done, fun _ ho => ⟨.nil, ho⟩, fun _ _ hmem => absurd hmem not_mem_nil⟩
  | head hd _ ih =>
    subst hm
    obtain ⟨log, hcourse, hlawful, hevents⟩ := ih (m := { m with heap := _ }) rfl
    refine ⟨_, .deed hd.step.weaken hcourse, fun hh ho => ?_, (by simpa using hevents)⟩
    have hfirst := hd.lawful hh ho
    obtain ⟨hlog, hend⟩ := hlawful hh hfirst.ordinary
    exact ⟨hlog.deed hfirst, hend⟩

/-- The trail of such changes, if they leave all scopes neat in the end. -/
theorem of_deeds (hp : Relation.ReflTransGen (Deed t) m.heap m'.heap) (hframes : t.seated → m.heap.Frames t.touches m'.heap)
    (hneat : t.seated → t.fresh → m.heap.Neat → m'.heap.Neat) :
    ∃ log, Trail t m log m' ∧ ∀ e m1, .event e m1 ∉ log := by
  obtain ⟨log, hcourse, hlawful, hevents⟩ := exists_course hp rfl rfl
  refine ⟨log, ⟨hcourse, ?_, fun e m1 hmem => absurd hmem (hevents e m1), hlawful, hframes, fun hs hf hn _ => ?_⟩, hevents⟩
  · exact .mono (fun _ _ hd => Deed.step hd) _ _ hp
  · exact ⟨hneat hs hf hn, fun e m1 hmem => absurd hmem (hevents e m1)⟩

/-- An event is passed first. -/
theorem told {doer place kinds} {fresh : Prop} {e}
    (h : Trail { t with doer := doer, place := place, kinds := kinds, fresh := fresh } m log m')
    (hcourse : Course t.doer t.place m (.event e m :: log) m')
    (hfresh : t.fresh → (∀ n s, e = .enter n s → ¬ Relists n s m.heap) → fresh) : Trail t m (.event e m :: log) m' where
  course := hcourse
  path := h.path
  passes e' m1 hmem := by
    rcases List.mem_cons.1 hmem with heq | hmem
    · cases heq
      exact ⟨.refl _, h.path⟩
    · exact h.passes e' m1 hmem
  lawful hh hm := ⟨(h.lawful hh hm).1.event e m, (h.lawful hh hm).2⟩
  frames := h.frames
  neat hs hf hn hclean := by
    have hhere : ∀ n s, e = .enter n s → ¬ Relists n s m.heap := by
      rintro n s rfl
      exact hclean n s m (.head _)
    have hrest : Unrelisted log := fun n s m1 hmem => hclean n s m1 (.tail _ hmem)
    obtain ⟨hend, hall⟩ := h.neat hs (hfresh hf hhere) hn hrest
    refine ⟨hend, fun e' m1 hmem => ?_⟩
    rcases List.mem_cons.1 hmem with heq | hmem
    · cases heq
      exact hn
    · exact hall e' m1 hmem

/-- What is done in a new scope leaves the constants of all scopes alone that were there. -/
theorem inNewScope (parent : ScopeRef)
    (h : Trail (t.inside m.heap.scopes.size) { m with heap := (m.heap.newScope parent).2 } log m') :
    ∃ log', Trail t m log' m' ∧ ∀ e m1, .event e m1 ∈ log' ↔ .event e m1 ∈ log := by
  have hnew : Change t m.heap (m.heap.newScope parent).2 := .newScope parent
  have hsize : m.heap.scopes.size < (m.heap.newScope parent).2.scopes.size :=
    Nat.lt_of_lt_of_eq (Nat.lt_succ_self _) (Array.size_push _).symm
  have hmem : ∀ e m1, Entry.event e m1 ∈ Entry.deed t.doer t.place m.heap (m.heap.newScope parent).2 :: log ↔
      Entry.event e m1 ∈ log := fun e m1 => by simp
  refine ⟨_, ⟨.deed hnew.step.weaken h.course, (Path.of_step hnew.step).trans h.path, fun e m1 hm1 => ?_, fun hh hm => ?_,
    fun hs => ?_, fun hs _ hn hclean => ?_⟩, hmem⟩
  · obtain ⟨hto, hfrom⟩ := h.passes e m1 ((hmem e m1).1 hm1)
    exact ⟨(Path.of_step hnew.step).trans hto, hfrom⟩
  · have hfirst := hnew.lawful hh hm
    obtain ⟨hlog, hend⟩ := h.lawful hh hfirst.ordinary
    exact ⟨hlog.deed hfirst, hend⟩
  · have hframes := (hnew.arranges hs).frames
    refine ⟨Nat.le_trans hframes.size (h.frames hs).size, fun S hS hP => ?_⟩
    have hold := (h.frames hs).constants S (Nat.lt_trans hS hsize) (Nat.ne_of_lt hS)
    exact hold.trans (hframes.constants S hS hP)
  · have hrest : Unrelisted log := fun n s m1 hm1 => hclean n s m1 ((hmem _ m1).2 hm1)
    obtain ⟨hend, hall⟩ := h.neat hs trivial ((hnew.arranges hs).neat hn) hrest
    exact ⟨hend, fun e m1 hm1 => hall e m1 ((hmem e m1).1 hm1)⟩

end Trail

/-! ## Ends -/

/-- What an action yields whose run has a log and ends on a machine. -/
structure Yields (t : Terms) {α : Type} (Good : α → Machine → Prop) (log : List Entry) (r : Except Signal α) (m : Machine) :
    Prop where
  ok : ∀ a, r = .ok a → Good a m
  ret : ∀ v, r = .error (.ret v) → t.home → v.Ordinary
  failure : ∀ f, r = .error (.failure f) → (t.strict → f.isStructural = false) ∧ Cause t.kinds log f
  jumps : ∀ e j, r = .error e → e.jump? = some j → t.allowed j ∨ m.heap.Leaks j

namespace Yields

variable {t : Terms} {α : Type} {A : α → Machine → Prop} {log : List Entry} {m : Machine}

theorem of_ok {a} (ha : A a m) : Yields t A log (.ok a) m where
  ok _ h := by
    cases h
    exact ha
  ret _ h := by cases h
  failure _ h := by cases h
  jumps _ _ h := by cases h

theorem of_failure {f} (hs : t.strict → f.isStructural = false) (hf : Cause t.kinds log f) :
    Yields t A log (.error (.failure f)) m where
  ok _ h := by cases h
  ret _ h := by cases h
  failure _ h := by
    cases h
    exact ⟨hs, hf⟩
  jumps _ _ h hj := by
    cases h
    cases hj

theorem of_jump {e j} (he : e.jump? = some j) (hv : ∀ v, e = .ret v → t.home → v.Ordinary)
    (hj : t.allowed j ∨ m.heap.Leaks j) : Yields t A log (.error e) m where
  ok _ h := by cases h
  ret v h := by
    cases h
    exact hv v rfl
  failure _ h := by
    cases h
    cases he
  jumps _ j' h hj' := by
    cases h
    rw [he] at hj'
    cases hj'
    exact hj

theorem mono {r log'} (h : Yields t A log r m) (hlog : ∀ x ∈ log, x ∈ log') : Yields t A log' r m :=
  ⟨h.ok, h.ret, fun f hf => ⟨(h.failure f hf).1, (h.failure f hf).2.imp .own fun _ _ => hlog _⟩, h.jumps⟩

end Yields

/-! ## Actions -/

/-- The log is that of the action, which conducts itself on the terms. -/
structure Conduct (t : Terms) {α : Type} (Good : α → Machine → Prop) (F : Observer → Action α) (m : Machine)
    (log : List Entry) : Prop where
  trail : Trail t m log (F .silent m).2
  yields : Yields t Good log (F .silent m).1 (F .silent m).2
  logged : Logged F m log

/-- On the machine the action conducts itself on the terms, and its result is good. -/
def Conducts (t : Terms) {α : Type} (Good : α → Machine → Prop) (F : Observer → Action α) (m : Machine) : Prop :=
  ∃ log, Conduct t Good F m log

abbrev AnyResult {α : Type} (_ : α) (_ : Machine) : Prop := True

abbrev Proper (home : Prop) (v : Value) (_ : Machine) : Prop := home → v.Ordinary

theorem proper_null {home : Prop} : home → Value.Ordinary .null := fun _ => trivial

namespace Conducts

variable {t : Terms} {α β : Type} {A : α → Machine → Prop} {B : β → Machine → Prop} {F G : Observer → Action α} {m : Machine}

/-- The action knows no observer, and does not jump. -/
theorem of_action {a} (hp : Relation.ReflTransGen (Deed t) m.heap (a m).2.heap)
    (hframes : t.seated → m.heap.Frames t.touches (a m).2.heap)
    (hneat : t.seated → t.fresh → m.heap.Neat → (a m).2.heap.Neat) (hyields : Yields t A [] (a m).1 (a m).2) :
    Conducts t A (fun _ => a) m := by
  obtain ⟨log, htrail, hevents⟩ := Trail.of_deeds hp hframes hneat
  exact ⟨log, htrail, hyields.mono (forall_mem_nil _), .const hevents⟩

theorem of_same {a} (hheap : (a m).2.heap = m.heap) (hyields : Yields t A [] (a m).1 (a m).2) :
    Conducts t A (fun _ => a) m := by
  refine of_action ?_ (fun _ => ?_) (fun _ _ hn => ?_) hyields
  · rw [hheap]
  · rw [hheap]
    exact .refl _
  · rwa [hheap]

theorem pure {a} (ha : A a m) : Conducts t A (fun _ => Pure.pure a) m := of_same rfl (.of_ok ha)

theorem problem {p} (hp : t.strict → p.isStructural = false) :
    Conducts t A (fun _ => (Action.problem p : Action α)) m :=
  of_same rfl (.of_failure hp (.reported rfl))

theorem problem_bind {p} {k : Observer → β → Action α} (hp : t.strict → p.isStructural = false) :
    Conducts t A (fun o => Action.problem p >>= k o) m :=
  problem hp

theorem fail {f} (hs : f.isStructural = false) (hf : f.kind ∈ t.kinds) :
    Conducts t A (fun _ => (Action.fail f : Action α)) m :=
  of_same rfl (.of_failure (fun _ => hs) (.own hf))

theorem outOfFuel : Conducts t A (fun _ => (Action.fail .outOfFuel : Action α)) m :=
  of_same rfl (.of_failure (fun _ => rfl) (.endless rfl))

theorem jump {e j} (he : e.jump? = some j) (hj : t.allowed j ∨ m.heap.Leaks j)
    (hv : ∀ v, e = .ret v → t.home → v.Ordinary := by rintro _ ⟨⟩) :
    Conducts t A (fun _ => (MonadExcept.throw e : Action α)) m :=
  of_same rfl (.of_jump he hv hj)

theorem ret {v} (hv : t.home → v.Ordinary) (hj : t.allowed .ret ∨ m.heap.Leaks .ret) :
    Conducts t A (fun _ => (MonadExcept.throw (.ret v) : Action α)) m :=
  jump rfl hj fun w hw => by cases hw; exact hv

theorem of_change {a x h} (hrun : a m = (.ok x, { m with heap := h })) (hc : Change t m.heap h)
    (hx : A x { m with heap := h }) : Conducts t A (fun _ => a) m := by
  refine of_action ?_ (fun hs => ?_) (fun hs _ => ?_) ?_
  all_goals rw [hrun]
  · exact .single hc.toDeed
  · exact (hc.arranges hs).frames
  · exact (hc.arranges hs).neat
  · exact .of_ok hx

theorem of_tame {Good} {a : Action α} (h : Tame t.home t.strict t.kinds Good a)
    (hm : t.home → m.heap.Ordinary) : Conducts t (fun x _ => t.home → Good x) (fun _ => a) m := by
  have hpath := h.path m hm
  have harranges : m.heap.Arranges t.touches (a m).2.heap := by
    refine .path (.mono (fun _ _ hs => ?_) _ _ hpath)
    exact (TameStep.step hs).of_cellular
  refine of_action (.mono (fun _ _ hs => ?_) _ _ hpath) (fun _ => harranges.frames)
    (fun _ _ => harranges.neat) ⟨h.ok m hm, fun v hv => ?_, fun f hf => ?_, fun e j he hj => ?_⟩
  · have hcell := TameStep.step hs
    exact ⟨hcell.of_cellular, fun hh _ => .of_scopes hcell.of_cellular (TameStep.ordinary hs hh) hcell.scopes⟩
  · obtain ⟨f, hf, -⟩ := h.error m hm _ hv
    cases hf
  · obtain ⟨f', hf', hs, hkind⟩ := h.error m hm _ hf
    cases hf'
    exact ⟨hs, hkind.elim .reported .own⟩
  · obtain ⟨f, rfl, -⟩ := h.error m hm e he
    cases hj

theorem scoping {f} (hf : ∀ h, f m.heap = .ok h → Change t m.heap h)
    (hp : ∀ p, f m.heap = .error p → p.isStructural = false) : Conducts t AnyResult (fun _ => Action.scoping f) m := by
  cases hrun : f m.heap with
  | ok h => exact of_change (x := ()) (by simp only [Action.scoping, hrun]) (hf h hrun) trivial
  | error p =>
    have hsame : Action.scoping f m = (.error (.failure (.problem p)), m) := by simp only [Action.scoping, hrun]
    refine of_same (by rw [hsame]) ?_
    rw [hsame]
    exact .of_failure (fun _ => hp p hrun) (.reported rfl)

theorem ite {c : Prop} [Decidable c] (hF : c → Conducts t A F m) (hG : ¬ c → Conducts t A G m) :
    Conducts t A (fun o => if c then F o else G o) m := by
  by_cases hc : c
  · simp only [if_pos hc]
    exact hF hc
  · simp only [if_neg hc]
    exact hG hc

theorem heap {k : Observer → Heap → Action β} (h : Conducts t B (fun o => k o m.heap) m) :
    Conducts t B (fun o => Action.heap >>= k o) m := by
  obtain ⟨log, htrail, hyields, hlogged⟩ := h
  exact ⟨log, htrail, hyields, ⟨hlogged.quiet, hlogged.stops⟩⟩

/-- An action is attempted, from which other jumps may come. A failure of it goes on. -/
theorem attempt {allowed} {k : Observer → Except Signal α → Action β} (h : Conducts (t.letting allowed) A F m)
    (hfail : ∀ o f, k o (.error (.failure f)) = MonadExcept.throw (.failure f))
    (hok : ∀ a m', Later t m m' → A a m' → Conducts t B (fun o => k o (.ok a)) m')
    (hret : ∀ v m', Later t m m' → (t.home → v.Ordinary) → allowed .ret ∨ m'.heap.Leaks .ret →
      Conducts t B (fun o => k o (.error (.ret v))) m')
    (hbrk : ∀ m', Later t m m' → allowed .brk ∨ m'.heap.Leaks .brk → Conducts t B (fun o => k o (.error .brk)) m')
    (hcont : ∀ m', Later t m m' → allowed .cont ∨ m'.heap.Leaks .cont → Conducts t B (fun o => k o (.error .cont)) m') :
    Conducts t B (fun o => Action.attempt (F o) >>= k o) m := by
  obtain ⟨log, htrail, hyields, hlogged⟩ := h
  have htrail : Trail t m log (F .silent m).2 :=
    ⟨htrail.course, htrail.path, htrail.passes, htrail.lawful, htrail.frames, htrail.neat⟩
  by_cases hfailed : ∃ f, (F .silent m).1 = .error (.failure f)
  · obtain ⟨f, hf⟩ := hfailed
    have hend : (Action.attempt (F .silent) >>= k .silent) m = (.error (.failure f), (F .silent m).2) := by
      show k .silent (F .silent m).1 (F .silent m).2 = _
      rw [hf, hfail]
      rfl
    have hthrown : Logged (fun o => k o (F .silent m).1) (F .silent m).2 [] := by
      simp only [hf, hfail]
      exact .const fun _ _ => not_mem_nil
    obtain ⟨hs, hcause⟩ := hyields.failure f hf
    refine ⟨log ++ [], ?_, ?_, hlogged.attempt hfail hthrown⟩
    all_goals rw [hend, append_nil]
    · exact htrail
    · exact .of_failure hs hcause
  · have hnext : Conducts t B (fun o => k o (F .silent m).1) (F .silent m).2 := by
      cases hr : (F .silent m).1 with
      | ok a => exact hok a _ htrail.later (hyields.ok a hr)
      | error e =>
        cases e with
        | failure f => exact absurd ⟨f, hr⟩ hfailed
        | ret v => exact hret v _ htrail.later (hyields.ret v hr) (hyields.jumps _ _ hr rfl)
        | brk => exact hbrk _ htrail.later (hyields.jumps _ _ hr rfl)
        | cont => exact hcont _ htrail.later (hyields.jumps _ _ hr rfl)
    obtain ⟨log', htrail', hyields', hlogged'⟩ := hnext
    refine ⟨log ++ log', htrail.trans htrail', ?_, hlogged.attempt hfail hlogged'⟩
    exact hyields'.mono fun _ hx => mem_append_right _ hx

theorem bind {k : Observer → α → Action β} (h : Conducts t A F m)
    (hk : ∀ a m', Later t m m' → A a m' → Conducts t B (fun o => k o a) m') : Conducts t B (fun o => F o >>= k o) m := by
  rw [funext fun o => Action.bind_eq_attempt (F o) (k o)]
  refine h.attempt (fun _ _ => rfl) hk (fun v m' _ hv hj => ?_) (fun m' _ hj => ?_) fun m' _ hj => ?_
  · exact ret hv hj
  · exact jump rfl hj
  · exact jump rfl hj

/-- The body of a loop is attempted: breaks and continues are taken, returns go on. -/
theorem round {k : Observer → Except Signal α → Action β} {next}
    (h : Conducts t.looping A F m) (hnext : ∀ m', Later t m m' → Conducts t B next m')
    (hbrk : ∀ m', Later t m m' → Conducts t B (fun o => k o (.error .brk)) m')
    (hfail : ∀ o f, k o (.error (.failure f)) = MonadExcept.throw (.failure f) := by intros; rfl)
    (hret : ∀ o v, k o (.error (.ret v)) = MonadExcept.throw (.ret v) := by intros; rfl)
    (hok : ∀ o a, k o (.ok a) = next o := by intros; rfl)
    (hcont : ∀ o, k o (.error .cont) = next o := by intros; rfl) :
    Conducts t B (fun o => Action.attempt (F o) >>= k o) m := by
  refine h.attempt hfail (fun a m' hl _ => ?_) (fun v m' _ hv hj => ?_) (fun m' hl _ => hbrk m' hl) fun m' hl _ => ?_
  · simp only [hok]
    exact hnext m' hl
  · simp only [hret]
    exact ret hv (hj.imp_left fun hallowed => hallowed rfl)
  · simp only [hcont]
    exact hnext m' hl

/-- The head of a loop is attempted: breaks are taken, all else goes on. -/
theorem head {k : Observer → Except Signal α → Action β} (h : Conducts t.heading A F m)
    (hok : ∀ a m', Later t m m' → A a m' → Conducts t B (fun o => k o (.ok a)) m')
    (hbrk : ∀ m', Later t m m' → Conducts t B (fun o => k o (.error .brk)) m')
    (hfail : ∀ o f, k o (.error (.failure f)) = MonadExcept.throw (.failure f) := by intros; rfl)
    (hret : ∀ o v, k o (.error (.ret v)) = MonadExcept.throw (.ret v) := by intros; rfl)
    (hcont : ∀ o, k o (.error .cont) = MonadExcept.throw .cont := by intros; rfl) :
    Conducts t B (fun o => Action.attempt (F o) >>= k o) m := by
  refine h.attempt hfail hok (fun v m' _ hv hj => ?_) (fun m' hl _ => hbrk m' hl) fun m' _ hj => ?_
  · simp only [hret]
    exact ret hv (hj.imp_left fun hallowed => hallowed (by decide))
  · simp only [hcont]
    exact jump rfl (hj.imp_left fun hallowed => hallowed (by decide))

theorem touching {touches} (h : Conducts (t.touching touches) A F m) (hsub : ∀ S, touches S → t.touches S) :
    Conducts t (fun a m' => A a m' ∧ (t.seated → m.heap.Frames touches m'.heap)) F m := by
  obtain ⟨log, htrail, hyields, hlogged⟩ := h
  refine ⟨log, ⟨htrail.course, htrail.path, htrail.passes, htrail.lawful, fun hs => ?_, htrail.neat⟩, ?_, hlogged⟩
  · exact (htrail.frames hs).mono hsub
  · exact ⟨fun a ha => ⟨hyields.ok a ha, htrail.frames⟩, hyields.ret, hyields.failure, hyields.jumps⟩

/-- What is done in a new scope. -/
theorem inNewScope {F : Observer → ScopeRef → Action β} (htidy : Tidy t.strict m.heap) (hm : t.home → m.heap.Ordinary)
    (parent : ScopeRef)
    (h : ∀ inner m1, Path t.strict m.heap m1.heap → Ready (t.inside inner) inner m1 →
      Conducts (t.inside inner) B (fun o => F o inner) m1) :
    Conducts t B (fun o => Action.onHeap (·.newScope parent) >>= F o) m := by
  have hnew : Change t m.heap (m.heap.newScope parent).2 := .newScope parent
  have hpath := Path.of_step hnew.step
  have hsize : m.heap.scopes.size < (m.heap.newScope parent).2.scopes.size :=
    lt_of_lt_of_eq (Nat.lt_succ_self _) (Array.size_push _).symm
  obtain ⟨log, htrail, hyields, hlogged⟩ := h m.heap.scopes.size { m with heap := (m.heap.newScope parent).2 } hpath
    ⟨hpath.tidy htidy, fun hh => (hnew.lawful hh (hm hh)).ordinary, fun _ => ⟨hsize, rfl⟩⟩
  obtain ⟨log', htrail', hmem⟩ := htrail.inNewScope parent
  refine ⟨log', htrail', ⟨hyields.ok, hyields.ret, fun f hf => ?_, hyields.jumps⟩, ⟨fun o hquiet => ?_, ?_⟩⟩
  · obtain ⟨hs, hcause⟩ := hyields.failure f hf
    exact ⟨hs, hcause.imp .own fun e m1 => (hmem e m1).2⟩
  · exact hlogged.quiet o fun e m1 hevent => hquiet e m1 ((hmem e m1).2 hevent)
  · exact fun o e m1 failure hstops hevent => hlogged.stops o e m1 failure hstops ((hmem e m1).1 hevent)

/-- An observer is told, before an action, of an event which is not that another node is entered. The kinds of failure
that the action has by itself are those of the event. -/
theorem told (kinds : List FailureKind) {e} (h : Conducts { t with kinds := kinds } A F m) (he : ∀ n s, e ≠ .enter n s)
    (hraise : ∀ f, (F .silent m).1 = .error (.failure f) → f.kind ∈ kinds → f.kind ∈ t.kinds ∨ Raises f e m) :
    Conducts t A (fun o => o.notice e >>= fun _ => F o) m := by
  obtain ⟨log, htrail, hyields, hlogged⟩ := h
  refine ⟨.event e m :: log, htrail.told (.told he htrail.course) fun hf _ => hf, ?_, hlogged.told e⟩
  refine ⟨hyields.ok, hyields.ret, fun f hf => ?_, hyields.jumps⟩
  obtain ⟨hs, hcause⟩ := hyields.failure f hf
  refine ⟨hs, hcause.imp (fun hkind => ?_) fun _ _ => .tail _⟩
  exact (hraise f hf hkind).elim .own fun h => .raised h (.head _)

/-- A node is evaluated while another one is. -/
theorem enter {fuel} (fuel' : Nat) {n s A F} (heval : ∀ o, @eval o fuel n s = o.notice (.enter n s) >>= fun _ => F o)
    (hraise : ∀ f, (F .silent m).1 = .error (.failure f) → (evalNode fuel' n s m).1 = .error (.failure f))
    (h : Conducts (t.entering n s m.heap) A F m) : Conducts t A (fun o => @eval o fuel n s) m := by
  have hsilent : eval fuel n s m = F .silent m := by
    rw [heval]
    rfl
  obtain ⟨log, htrail, hyields, hlogged⟩ := h
  have hcourse : Course t.doer t.place m (.event (.enter n s) m :: log) (F .silent m).2 := by
    rw [← append_nil log, ← hsilent]
    refine .part ?_ .done
    rw [hsilent]
    exact htrail.course
  refine ⟨.event (.enter n s) m :: log, ?_, ?_, ?_⟩
  · rw [hsilent]
    exact htrail.told hcourse fun _ hfresh => hfresh n s rfl
  · rw [hsilent]
    refine ⟨hyields.ok, hyields.ret, fun f hf => ?_, hyields.jumps⟩
    obtain ⟨hs, hcause⟩ := hyields.failure f hf
    refine ⟨hs, hcause.imp (fun hkind => ?_) fun _ _ => .tail _⟩
    exact .raised (.node hkind (hraise f hf)) (.head _)
  · rw [funext heval]
    exact hlogged.told _

theorem frames (h : Conducts t A F m) (hs : t.seated) : m.heap.Frames t.touches (F .silent m).2.heap :=
  h.elim fun _ hc => hc.trail.frames hs

end Conducts

end SmallScript.Evaluate
