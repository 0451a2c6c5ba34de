import SmallScript.Proofs.Evaluate.Conduct
import SmallScript.Proofs.Evaluate.InStep

/-!
# The functions of the evaluator

All functions of the evaluator conduct themselves, on any terms which the trees that they evaluate and the heap allow.
`EvaluatorConducts` collects this: they call each other with less fuel, so it is shown of all of them at once.
-/

namespace SmallScript.Evaluate

open Machine List Bool
open Value (ScopeRef ObjectRef guardedModules)
open Data (Table)
open Syntax Heap Node Conducts

variable {pos : Pos} {name : String} {property value : Node} {op : Option String}

variable {v : Value}

/-! ## Trees that can be evaluated on the terms -/

/-- The node can be evaluated on the terms. -/
def Fit (t : Terms) (n : Node) : Prop := (t.strict → n.Formed) ∧ (t.home → n.Domestic) ∧ EmitsOnly t.allowed n

def AllFit (t : Terms) (ns : List Node) : Prop :=
  (t.strict → AllFormed ns) ∧ (t.home → AllDomestic ns) ∧ AllEmitOnly t.allowed ns

section

variable {t : Terms} {n c : Node} {ns cs : List Node}

theorem Fit.part (h : Fit t n) (hf : n.Formed → c.Formed) (hd : n.Domestic → c.Domestic)
    (he : ∀ j, c.emits j = true → n.emits j = true) : Fit t c :=
  ⟨fun hs => hf (h.1 hs), fun hh => hd (h.2.1 hh), fun j hj => h.2.2 j (he j hj)⟩

theorem Fit.parts (h : Fit t n) (hf : n.Formed → AllFormed cs) (hd : n.Domestic → AllDomestic cs)
    (he : ∀ j, anyEmits j cs = true → n.emits j = true) : AllFit t cs :=
  ⟨fun hs => hf (h.1 hs), fun hh => hd (h.2.1 hh), fun j hj => h.2.2 j (he j hj)⟩

theorem AllFit.head (h : AllFit t (n :: ns)) : Fit t n :=
  ⟨fun hs => (h.1 hs).1, fun hh => (h.2.1 hh).1, (allEmitOnly_cons.1 h.2.2).1⟩

theorem AllFit.tail (h : AllFit t (n :: ns)) : AllFit t ns :=
  ⟨fun hs => (h.1 hs).2, fun hh => (h.2.1 hh).2, (allEmitOnly_cons.1 h.2.2).2⟩

/-- The body of a loop lets out returns only. -/
theorem Fit.body (h : Fit t n) (hf : n.Formed → AllFormed cs) (hd : n.Domestic → AllDomestic cs)
    (he : anyEmits .ret cs = true → n.emits .ret = true) :
    AllFit t.looping cs :=
  ⟨fun hs => hf (h.1 hs), fun hh => hd (h.2.1 hh), fun j hj hret => by
    subst hret
    exact h.2.2 .ret (he hj)⟩

/-- The head of a loop does not let out breaks. -/
theorem Fit.head (h : Fit t n) (hf : n.Formed → c.Formed) (hd : n.Domestic → c.Domestic)
    (he : ∀ j, j ≠ .brk → c.emits j = true → n.emits j = true) :
    Fit t.heading c :=
  ⟨fun hs => hf (h.1 hs), fun hh => hd (h.2.1 hh), fun j hj hbrk => h.2.2 j (he j hbrk hj)⟩

end

/-! ## Parts of the evaluator that change scopes -/

section

variable {t : Terms} {s : ScopeRef} {m : Machine}

theorem declaration_conducts (hr : Ready t s m) (hv : t.home → v.Ordinary) (name : String) (constant : Bool) :
    Conducts t AnyResult (fun _ => Action.scoping (·.declare s name v constant false)) m := by
  refine .scoping (fun _ hd => ?_) fun _ hp => ?_
  · exact .declare (fun hs => (hr.2.2 hs).2) hv hd
  · exact declare_error hp

theorem declare_conducts (hr : Ready t s m) (hv : t.home → v.Ordinary) (name : String) (constant : Bool) :
    Conducts t (Proper t.home) (fun _ => declare s name v constant false) m :=
  (declaration_conducts hr hv name constant).bind fun _ _ _ _ => .pure hv

theorem assign_conducts (hv : t.home → v.Ordinary) (name : String) :
    Conducts t (Proper t.home) (fun _ => assign s name v) m := by
  refine .bind (.scoping (fun _ ha => ?_) fun _ hp => ?_) fun _ _ _ _ => .pure hv
  · exact .assign hv ha
  · exact assign_error hp

theorem restore_conducts (hr : Ready t s m) {saved}
    (hv : t.home → ∀ v ∈ saved, v.Ordinary) (hd : t.home → ∀ S, t.doer.Overwrites t.place S name) :
    Conducts t AnyResult (fun _ => restore s name saved) m := by
  unfold restore
  cases saved with
  | some v =>
    refine .scoping (fun _ ha => ?_) fun _ hp => ?_
    · exact .reassign hd (fun hh => hv hh v rfl) ha
    · exact assign_error hp
  | none =>
    refine .scoping (fun _ ha => ?_) fun _ hp => ?_
    · exact .delete (fun hs => (hr.2.2 hs).2) (fun hh => hd hh s) ha
    · exact delete_error hp

theorem declareParams_conducts (hr : Ready t s m) (params : List String) {args}
    (ha : t.home → ∀ v ∈ args, v.Ordinary) : Conducts t AnyResult (fun _ => declareParams s params args) m := by
  induction params generalizing args m with
  | nil => exact .pure trivial
  | cons p ps ih =>
    refine .bind (declaration_conducts hr (fun hh => ?_) p false) fun _ m1 hl _ => ?_
    · cases args with
      | nil => exact trivial
      | cons v vs => exact ha hh v (.head _)
    · exact ih (hr.later hl) fun hh v hv => ha hh v (mem_of_mem_tail hv)

/-- An import of names overwrites one after the other, and stops where the module does not have one. -/
theorem importNames_deeds (module : String) (pos : Pos) (ref : ObjectRef) (names : List String)
    (hd : t.home → ∀ x ∈ names, t.doer.Overwrites t.place s x) (m : Machine) :
    Relation.ReflTransGen (Deed t) m.heap (importNames s module pos (·.fields ref) names m).2.heap ∧
      Yields t AnyResult [] (importNames s module pos (·.fields ref) names m).1
        (importNames s module pos (·.fields ref) names m).2 := by
  induction names generalizing m with
  | nil => exact ⟨.refl, .of_ok trivial⟩
  | cons name rest ih =>
    rw [importNames, Action.heap_bind]
    cases hv : (m.heap.fields ref).get? name with
    | none => exact ⟨.refl, .of_failure (fun _ => rfl) (.reported rfl)⟩
    | some v =>
      obtain ⟨h1, hdeclare⟩ : ∃ h1, m.heap.declare s name v true true = .ok h1 := by simp [Heap.declare]
      have hstep : Action.scoping (·.declare s name v true true) m = (.ok (), { m with heap := h1 }) := by
        simp only [Action.scoping, hdeclare]
      dsimp only
      rw [Action.bind_of_ok hstep]
      obtain ⟨hpath, hyields⟩ := ih (fun hh x hx => hd hh x (.tail _ hx)) { m with heap := h1 }
      refine ⟨.head (.redeclare (fun hh => hd hh name (.head _)) (fun _ hm => ?_) hdeclare) hpath, hyields⟩
      exact (hm.fields ref).get? hv

/-- What is left of an import once the object is there, if the constants of the scope are those at its beginning. -/
theorem importObject_conducts {m0 : Machine} (hr : Ready t s m) {module ref names newName}
    (hsame : t.seated → m.heap.constantsOf s = m0.heap.constantsOf s)
    (hfresh : t.fresh → ¬ Relists (.importing pos module names newName) s m0.heap)
    (href : t.home → (Value.object ref).Ordinary)
    (hd : t.home → ∀ x ∈ names.getD [], t.doer.Overwrites t.place s x) :
    Conducts t AnyResult (fun _ => importObject s module pos ref names newName) m := by
  unfold importObject
  cases hnames : names.getD [] with
  | nil => exact declaration_conducts hr href _ true
  | cons name rest =>
    obtain rfl : names = some (name :: rest) := by
      cases names with
      | none => cases hnames
      | some names => exact congrArg some hnames
    obtain ⟨hpath, hyields⟩ := importNames_deeds module pos ref (name :: rest) hd m
    refine .of_action hpath (fun hs => ?_) (fun hs hf hn => ?_) hyields
    · obtain ⟨done, -, hadds, -⟩ := importNames_adds s module pos (·.fields ref) (name :: rest) (hr.2.2 hs).1
      exact hadds.frames.mono fun S hS => hS ▸ (hr.2.2 hs).2
    · obtain ⟨done, hprefix, hadds, -⟩ := importNames_adds s module pos (·.fields ref) (name :: rest) (hr.2.2 hs).1
      have hnew : ¬ Relists (.importing pos module (some (name :: rest)) newName) s m.heap := by
        have hrelists := hfresh hf
        simp only [Relists, hsame hs] at hrelists ⊢
        exact hrelists
      exact hadds.neat hn ((nodup_of_not_relists hn hnew).sublist ((Sublist.refl _).append hprefix.sublist))

theorem checkAssignable_conducts (hr : Ready t s m) (pos : Pos) (holder : Node) (ref : ObjectRef) (key : String) :
    Conducts t (fun _ m' => m'.heap.isFrozen ref = false) (fun _ => checkAssignable s pos holder ref key) m := by
  have hfrozen m : Conducts t (fun _ m' => m'.heap.isFrozen ref = false)
      (fun _ => do if (← .heap).isFrozen ref then .problem (.frozenObject key pos)) m :=
    .heap (.ite (fun _ => .problem fun _ => rfl) fun hf => .pure (eq_false_iff.2 hf))
  unfold checkAssignable
  cases holder.name? with
  | none => exact hfrozen m
  | some name =>
    refine (of_tame (.resolve s name) hr.2.1).bind fun found m1 _ _ => .heap ?_
    exact .ite (fun _ => .problem_bind fun _ => rfl) fun _ => hfrozen m1

end

/-- A value that is to hold a member, or a new object in its place. -/
theorem holder_conducts {t s m} (hr : Ready t s m) {β : Type} {B}
    {k : Observer → Value → Action β} (create : Bool) (hv : t.home → v.Ordinary)
    (hk : ∀ w m1, Ready t s m1 → (create = true → ∃ ref, w = .object ref) → (t.home → w.Ordinary) →
      Conducts t B (fun o => k o w) m1) :
    Conducts t B (fun o => if create = true then Action.object [] >>= k o else pure v >>= k o) m := by
  refine .ite (fun _ => ?_) fun hcreate => hk v m hr (fun hc => absurd hc hcreate) hv
  have hobject : Conducts t (fun w _ => (∃ ref, w = .object ref) ∧ (t.home → w.Ordinary)) (fun _ => .object []) m :=
    .of_change rfl (.of_scopes (.object _ fun _ => .empty) (fun _ hm => hm.newObject .empty false) rfl) ⟨⟨_, rfl⟩, fun _ => trivial⟩
  exact hobject.bind fun w m1 hl hw => hk w m1 (hr.later hl) (fun _ => hw.1) hw.2

/-! ## The functions of the evaluator -/

section

variable (fuel : Nat)

def EvalConducts : Prop :=
  ∀ {t s m n}, Ready t s m → Fit t n → Conducts t (Proper t.home) (fun o => @eval o fuel n s) m

def NodeConducts : Prop :=
  ∀ {t s m n}, Ready t s m → Fit t n →
  Conducts (t.entering n s m.heap) (Proper t.home) (fun o => @evalNode o fuel n s) m

def AllConduct : Prop :=
  ∀ {t s m ns}, Ready t s m → AllFit t ns →
  Conducts t (fun vs _ => t.home → ∀ v ∈ vs, v.Ordinary) (fun o => @evalAll o fuel ns s) m

def BodyConducts : Prop :=
  ∀ {t s m ns v}, Ready t s m → AllFit t ns → (t.home → v.Ordinary) →
  Conducts t (Proper t.home) (fun o => @evalBody o fuel v ns s) m

def FieldsConduct : Prop :=
  ∀ {t s m ns fields}, Ready t s m → AllFit t ns → (∀ k ∈ fieldHazards ns, k ∈ t.kinds) →
  fields.Sound t.home Value.Ordinary →
  Conducts t (fun fields' _ => fields'.Sound t.home Value.Ordinary) (fun o => @evalFields o fuel fields ns s) m

def MembersConduct : Prop :=
  ∀ {t s m ns members}, Ready t s m → AllFit t ns → (t.strict → ∀ n ∈ ns, n.IsClassMember) →
  (∀ k ∈ memberHazards ns, k ∈ t.kinds) → members.Sound t.home Value.Ordinary → ∀ pos : Pos,
  Conducts t (fun members' _ => members'.Sound t.home Value.Ordinary)
    (fun o => @evalMembers o fuel pos members ns s) m

def MemberConducts : Prop :=
  ∀ {t s m pos object property computed}, Ready t s m → Fit t (.member pos object property computed) →
  (∀ k ∈ nodeHazards (.member pos object property computed), k ∈ t.kinds) →
  Conducts t (Proper t.home) (fun o => @evalMember o fuel pos object property computed s) m

def AssignmentConducts : Prop :=
  ∀ {t s m pos target value op}, Ready t s m → Fit t (.assignment pos target value op) →
  (∀ k ∈ nodeHazards (.assignment pos target value op), k ∈ t.kinds) →
  Conducts t (Proper t.home) (fun o => @evalAssignment o fuel pos target value op s) m

def CompoundConducts : Prop :=
  ∀ {t s m value op}, Ready t s m → Fit t value → (t.strict → op.getD "" ∈ compoundOperators) →
  (∀ k ∈ compoundHazards (op.getD ""), k ∈ t.kinds) → ∀ (pos : Pos) (target : CompoundTarget),
  Conducts t (Proper t.home) (fun o => @evalCompound o fuel pos target value op s) m

def TargetConducts : Prop :=
  ∀ {t s m pos object property computed}, Ready t s m → Fit t (.member pos object property computed) →
  (∀ k ∈ keyHazards (.member pos object property computed), k ∈ t.kinds) → ∀ create : Bool,
  Conducts t (fun r _ => (create = true → ∃ ref, r.1 = .object ref) ∧ (t.home → r.1.Ordinary))
    (fun o => @resolveMember o fuel create object property s) m

def CallConducts : Prop :=
  ∀ {t s m args}, Ready t s m → (t.home → ∀ v ∈ args, v.Ordinary) → ∀ (pos : Pos) (f : Value),
  Conducts t (Proper t.home) (fun o => @evalCall o fuel pos f args s) m

def LoopConducts : Prop :=
  ∀ {t s m body}, Ready t s m → AllFit t.looping body →
  Conducts t (Proper t.home) (fun o => @evalLoop o fuel body s) m

def WhileConducts : Prop :=
  ∀ {t s m condition body}, Ready t s m → Fit t.heading condition → AllFit t.looping body →
  Conducts t (Proper t.home) (fun o => @evalWhile o fuel condition body s) m

def ForConducts : Prop :=
  ∀ {t s m iterator body name}, Ready t s m → Fit t.heading iterator → AllFit t.looping body →
  (t.home → ∀ S, t.doer.Overwrites t.place S name) → ∀ pos : Pos,
  Conducts t (Proper t.home) (fun o => @evalFor o fuel pos name iterator body s) m

def RoundsConduct : Prop :=
  ∀ {t s m body name}, Ready t s m → AllFit t.looping body →
  (t.home → ∀ S, t.doer.Overwrites t.place S name) → ∀ ref i : Nat,
  Conducts t AnyResult (fun o => @evalRounds o fuel name ref i body s) m

def ImportConducts : Prop :=
  ∀ {t s m pos module names newName}, Ready t s m → (t.home → (module? module).isSome = true) →
  (t.home → ∀ x ∈ names.getD [], t.doer.Overwrites t.place s x) →
  (t.fresh → ¬ Relists (.importing pos module names newName) s m.heap) →
  (∀ k ∈ nodeHazards (.importing pos module names newName), k ∈ t.kinds) →
  Conducts t (Proper t.home) (fun o => @evalImport o fuel pos module names newName s) m

end

/-- The functions of the evaluator conduct themselves at some fuel. -/
structure EvaluatorConducts (fuel : Nat) : Prop where
  protected eval : EvalConducts fuel
  protected evalNode : NodeConducts fuel
  protected evalAll : AllConduct fuel
  protected evalBody : BodyConducts fuel
  protected evalFields : FieldsConduct fuel
  protected evalMembers : MembersConduct fuel
  protected evalMember : MemberConducts fuel
  protected evalAssignment : AssignmentConducts fuel
  protected evalCompound : CompoundConducts fuel
  protected resolveMember : TargetConducts fuel
  protected evalCall : CallConducts fuel
  protected evalLoop : LoopConducts fuel
  protected evalWhile : WhileConducts fuel
  protected evalFor : ForConducts fuel
  protected evalRounds : RoundsConduct fuel
  protected evalImport : ImportConducts fuel

namespace EvaluatorConducts

variable {fuel : Nat} {t : Terms} {s : ScopeRef} {m : Machine}

theorem zero : EvaluatorConducts 0 := by
  constructor <;> intro t s m <;> intros <;>
    simp only [eval, evalNode, evalAll, evalBody, evalFields, evalMembers, evalMember, evalAssignment, evalCompound,
      resolveMember, evalCall, evalLoop, evalWhile, evalFor,
      evalRounds, evalImport] <;>
    exact outOfFuel

section

variable (ih : EvaluatorConducts fuel)
include ih

/-- What is done for a node once it is entered, up to its end. -/
theorem evalNode_leave {n} (hr : Ready t s m) (hn : Fit t n) : Conducts (t.entering n s m.heap) (Proper t.home)
      (fun o => do
        let v ← @evalNode o fuel n s
        o.notice (.leave n s v)
        return v) m := by
  refine (ih.evalNode hr hn).bind fun v m1 _ hv => ?_
  exact .told (nodeHazards n) (.pure hv) (fun _ _ he => by cases he) fun _ hf => by cases hf

theorem eval_succ : EvalConducts (fuel + 1) := by
  intro t s m n hr hn
  refine .enter fuel (fun o => by simp only [eval]) (fun f hf => ?_) (ih.evalNode_leave hr hn)
  rcases Action.bind_cases (evalNode fuel n s) _ m with ⟨e, m', hrun, hb⟩ | ⟨v, m', hrun, hb⟩
  · rw [hb] at hf
    rwa [hrun]
  · rw [hb] at hf
    cases hf

theorem evalAll_succ : AllConduct (fuel + 1) := by
  intro t s m ns hr hns
  cases ns with
  | nil =>
    simp only [evalAll]
    exact .pure fun _ => forall_mem_nil _
  | cons n rest =>
    simp only [evalAll]
    refine (ih.eval hr hns.head).bind fun v m1 hl hv => ?_
    refine (ih.evalAll (hr.later hl) hns.tail).bind fun vs m2 _ hvs => .pure fun hh => ?_
    exact forall_mem_cons.2 ⟨hv hh, hvs hh⟩

theorem evalBody_succ : BodyConducts (fuel + 1) := by
  intro t s m ns v hr hns hv
  cases ns with
  | nil =>
    simp only [evalBody]
    exact .pure hv
  | cons n rest =>
    simp only [evalBody]
    exact (ih.eval hr hns.head).bind fun w m1 hl hw => ih.evalBody (hr.later hl) hns.tail hw

theorem evalFields_succ : FieldsConduct (fuel + 1) := by
  intro t s m ns fields hr hns hk hf
  cases ns with
  | nil =>
    simp only [evalFields]
    exact .pure hf
  | cons n rest =>
    cases n with
    | property pos key value =>
      simp only [evalFields]
      have hvalue : Fit t value := hns.head.part id id fun j hj => hj
      have hrest : ∀ v m1, Later t m m1 → Proper t.home v m1 →
          Conducts t (fun fields' _ => fields'.Sound t.home Value.Ordinary)
            (fun o => @evalFields o fuel (fields.insert key v) rest s) m1 := fun v m1 hl hv =>
        ih.evalFields (hr.later hl) hns.tail hk (hf.insert key hv)
      exact .ite (fun _ => (of_tame (.lookup s key) hr.2.1).bind hrest) fun _ => (ih.eval hr hvalue).bind hrest
    | _ =>
      simp only [evalFields]
      exact .fail rfl (hk _ (.head _))

theorem evalMembers_succ : MembersConduct (fuel + 1) := by
  intro t s m ns members hr hns hc hk ht pos
  cases ns with
  | nil =>
    simp only [evalMembers]
    exact .pure ht
  | cons n rest =>
    have hrest : t.strict → ∀ n ∈ rest, n.IsClassMember := fun hs n hn => hc hs n (.tail _ hn)
    cases n with
    | function p name params body =>
      simp only [evalMembers]
      refine .bind (A := AnyResult) (.of_change rfl (.newScope s) trivial) fun inner m1 hl _ => ?_
      have hclosure : Change t m1.heap (m1.heap.newClosure ⟨name, params, inner, body⟩).2 :=
        .of_scopes (.closure _ hns.head.1) (fun hh hm => hm.newClosure (hns.head.2.1 hh)) rfl
      refine .bind (A := Proper t.home) (.of_change rfl hclosure fun _ => trivial) fun f m2 hl' hf => ?_
      exact ih.evalMembers ((hr.later hl).later hl') hns.tail hrest hk (ht.insert name hf) pos
    | assignment p target value op =>
      simp only [evalMembers]
      have hvalue : Fit t value := hns.head.part (·.2.1) (·.2) fun _ => or_inr
      refine (ih.eval hr hvalue).bind fun v m1 hl hv => ?_
      cases target.name? with
      | none => exact .problem fun _ => rfl
      | some name => exact ih.evalMembers (hr.later hl) hns.tail hrest hk (ht.insert name hv) pos
    | absent =>
      simp only [evalMembers]
      exact .fail rfl (hk _ (.head _))
    | _ =>
      simp only [evalMembers]
      exact .problem fun hs => (hc hs _ (.head _)).elim

theorem evalMember_succ : MemberConducts (fuel + 1) := by
  intro t s m pos object property computed hr hn hk
  simp only [evalMember]
  have hobject : Fit t object := hn.part (·.1) (·.1) fun _ => or_inl
  have hproperty : Fit t property := hn.part (·.2.1) (·.2) fun _ => or_inr
  refine (ih.eval hr hobject).bind fun v m1 hl _ => ?_
  have hr1 := hr.later hl
  cases hasMembers v with
  | false => exact .problem_bind fun _ => rfl
  | true =>
    cases computed with
    | true =>
      refine (ih.eval hr1 hproperty).bind fun key m2 hl' _ => .heap ?_
      have hr2 := hr1.later hl'
      cases hh : holder? m2.heap v with
      | none => exact .problem fun _ => rfl
      | some holder =>
        exact .of_tame (.widen (computedMember_tame pos (fun hh' => holder?_ordinary (hr2.2.1 hh') hh) key) hk) hr2.2.1
    | false =>
      refine .heap ?_
      cases hh : holder? m1.heap v with
      | none => exact .problem fun _ => rfl
      | some holder =>
        refine .of_tame (writtenMember_tame pos (fun hh' => holder?_ordinary (hr1.2.1 hh') hh) fun hs => ?_) hr1.2.1
        obtain ⟨p, name, rfl, _⟩ := (hn.1 hs).2.2 rfl
        exact Option.some_ne_none name

theorem evalCompound_succ : CompoundConducts (fuel + 1) := by
  intro t s m value op hr hn hop hk pos target
  simp only [evalCompound]
  refine (ih.eval hr hn).bind fun new m1 hl _ => ?_
  refine (of_tame (current_tame target s pos) (hr.later hl).2.1).bind fun old m2 hl' _ => ?_
  exact .of_tame ((compoundValue_tame pos hop old new).widen hk) ((hr.later hl).later hl').2.1

theorem assignField_conducts (hr : Ready t s m) (hn : Fit t value) (hop : t.strict → ∀ o ∈ op, o ∈ compoundOperators)
    (hk : (op.getD "").isEmpty = false → ∀ k ∈ .key :: compoundHazards (op.getD ""), k ∈ t.kinds) (pos : Pos)
    (holder : Node) {ref} (href : t.home → (Value.object ref).Ordinary) (key : String)
    (hv : t.home → v.Ordinary) :
    Conducts t (Proper t.home) (fun o => @assignField o fuel pos holder ref key v value op s) m := by
  refine (checkAssignable_conducts hr pos holder ref key).bind fun _ m1 hl hfree => ?_
  -- the object may still be assigned to when the new value is there
  have store : ∀ w m2, Later t m1 m2 → Proper t.home w m2 →
      Conducts t (Proper t.home) (fun _ => do .modifyHeap (·.setField ref key w); pure w) m2 := by
    intro w m2 hl' hw
    have hset : Change t m2.heap (m2.heap.setField ref key w) := .setField key href (hl'.1.isFrozen hfree) hw
    exact .bind (A := AnyResult) (.of_change rfl hset trivial) fun _ _ _ _ => .pure hw
  refine .ite (fun _ => ?_) fun hempty => .heap ?_
  · exact .bind (.pure hv) store
  · have hk := hk (eq_false_iff.2 hempty)
    cases (m1.heap.fields ref).get? key with
    | none => exact .bind (.fail rfl (hk _ (.head _))) store
    | some old =>
      refine (ih.evalCompound (hr.later hl) hn (fun hs => ?_) (fun k hmem => hk k (.tail _ hmem)) pos
        (.value old)).bind store
      cases op with
      | none => exact absurd rfl hempty
      | some op => exact hop hs op rfl

theorem evalAssignment_succ : AssignmentConducts (fuel + 1) := by
  intro t s m pos target value op hr hn hk
  simp only [evalAssignment]
  have htarget : Fit t target := hn.part (·.1) (·.1) fun _ => or_inl
  have hvalue : Fit t value := hn.part (·.2.1) (·.2) fun _ => or_inr
  refine (ih.eval hr hvalue).bind fun v m1 hl hv => ?_
  have hr1 := hr.later hl
  refine .ite (fun hop => .problem_bind fun hs => ?_) fun _ => ?_
  · cases op with
    | none => exact absurd hop (by simp)
    | some op =>
      have hmem := (hn.1 hs).2.2 op rfl
      simp [hmem] at hop
  · cases target with
    | identifier p name =>
      refine .ite (fun _ => ?_) fun hempty => ?_
      · exact .bind (.pure hv) fun w m2 _ hw => assign_conducts hw name
      · refine (ih.evalCompound hr1 hvalue (fun hs => ?_) hk pos _).bind fun w m2 _ hw => assign_conducts hw name
        cases op with
        | none => exact absurd rfl hempty
        | some op => exact (hn.1 hs).2.2 op rfl
    | member p object property computed =>
      refine (ih.resolveMember hr1 htarget (fun k hmem => hk k (mem_append_left _ hmem)) true).bind
        fun x m2 hl' hx => ?_
      obtain ⟨holder, key⟩ := x
      obtain ⟨ref, rfl⟩ := hx.1 rfl
      refine ih.assignField_conducts (hr1.later hl') hvalue (fun hs => (hn.1 hs).2.2) (fun hempty k hmem => ?_) pos object
        hx.2 key hv
      refine hk k (mem_append_right _ ?_)
      rwa [if_neg (eq_false_iff.1 hempty)]
    | _ => exact .problem fun _ => rfl

theorem evalLoop_succ : LoopConducts (fuel + 1) := by
  intro t s m body hr hbody
  simp only [evalLoop]
  refine (ih.evalBody (t := t.looping) hr hbody proper_null).round (fun m1 hl => ?_) fun _ _ => .pure proper_null
  exact ih.evalLoop (hr.later hl) hbody

theorem evalWhile_succ : WhileConducts (fuel + 1) := by
  intro t s m condition body hr hc hbody
  simp only [evalWhile]
  refine (ih.eval (t := t.heading) hr hc).head (fun v m1 hl _ => ?_) fun _ _ => .pure proper_null
  have hr1 := hr.later hl
  dsimp only
  cases v.truth? with
  | none => exact ih.evalWhile hr1 hc hbody
  | some b =>
    cases b with
    | false => exact .pure proper_null
    | true =>
      refine (ih.evalBody (t := t.looping) hr1 hbody proper_null).round (fun m2 hl' => ?_) fun _ _ => .pure proper_null
      exact ih.evalWhile (hr1.later hl') hc hbody

theorem evalRounds_succ : RoundsConduct (fuel + 1) := by
  intro t s m body name hr hbody hd ref i
  simp only [evalRounds]
  refine .heap ?_
  cases hv : (m.heap.elements ref)[i]? with
  | none => exact .pure trivial
  | some v =>
    refine .bind (.scoping (fun _ hok => ?_) fun _ hp => declare_error hp) fun _ m1 hl _ => ?_
    · refine .redeclare (fun hs => (hr.2.2 hs).2) (fun hh => hd hh s) (fun _ hm => ?_) hok
      exact hm.elements ref v (Array.mem_of_getElem? hv)
    · have hr1 := hr.later hl
      refine (ih.evalBody (t := t.looping) hr1 hbody proper_null).round (fun m2 hl' => ?_) fun _ _ => .pure trivial
      exact ih.evalRounds (hr1.later hl') hbody hd ref (i + 1)

theorem evalFor_succ : ForConducts (fuel + 1) := by
  intro t s m iterator body name hr hi hbody hd pos
  simp only [evalFor]
  -- the end of the loop, with the value that the variable had
  have finish saved m2 (hr2 : Ready t s m2) (hsaved : t.home → ∀ v ∈ saved, v.Ordinary) :
      Conducts t (Proper t.home) (fun _ => restore s name saved >>= fun _ => pure .null) m2 :=
    (restore_conducts hr2 hsaved hd).bind fun _ _ _ _ => .pure proper_null
  refine (ih.eval (t := t.heading) hr hi).head (fun v m1 hl _ => ?_)
    fun m1 hl => finish none m1 (hr.later hl) fun _ v hv => absurd hv (Option.not_mem_none v)
  have hr1 := hr.later hl
  cases v with
  | array ref =>
    refine .heap ((ih.evalRounds hr1 hbody hd ref 0).bind fun _ m2 hl' _ => ?_)
    exact finish _ m2 (hr1.later hl') fun hh v hv => (hr1.2.1 hh).lookup? hv
  | _ => exact .problem_bind fun _ => rfl

theorem evalImport_succ : ImportConducts (fuel + 1) := by
  intro t s m pos module names newName hr hmodule hd hfresh hk
  simp only [evalImport]
  have finish (ref : ObjectRef) (m' : Machine) (hr' : Ready t s m') (href : t.home → (Value.object ref).Ordinary)
      (hsame : t.seated → m'.heap.constantsOf s = m.heap.constantsOf s) :
      Conducts t (Proper t.home) (fun _ => importObject s module pos ref names newName >>= fun _ => pure .null) m' :=
    (importObject_conducts hr' hsame hfresh href hd).bind fun _ _ _ _ => .pure proper_null
  cases hbuiltin : module? module with
  | some ref =>
    obtain ⟨i, -, rfl⟩ := Option.map_eq_some_iff.1 hbuiltin
    refine .heap (.ite (fun _ => .problem_bind fun _ => rfl) fun _ => ?_)
    exact finish _ m hr (fun _ => trivial) fun _ => rfl
  | none =>
    have hforeign : ¬ t.home := fun hh => by
      have hsome := hmodule hh
      rw [hbuiltin] at hsome
      cases hsome
    rw [nodeHazards, hbuiltin] at hk
    -- neither the text of the module nor its evaluation touches the scope of the import
    have hnone : ∀ S, False → t.touches S := fun _ h => h.elim
    have hsource : Conducts (t.touching fun _ => False) (fun _ _ => t.home → True) (fun _ => moduleSource module pos) m :=
      .of_tame ((moduleSource_tame module pos).widen fun k hmem => hk k (mem_append_left _ hmem)) hr.2.1
    refine (hsource.touching hnone).bind fun source m1 hl hf1 => ?_
    have hr1 := hr.later hl
    cases hparse : parse source with
    | error f =>
      have hfault := hk _ (mem_append_right _ (parse_error_kind hparse))
      exact .bind (A := AnyResult) (.fail rfl hfault) fun _ _ _ _ => .pure proper_null
    | ok program =>
      have hinner : Conducts (t.touching fun _ => False) AnyResult (fun o => do
            let inner ← .onHeap (·.newScope s)
            let _ ← @eval o fuel program inner
            pure inner) m1 := by
        obtain ⟨body, rfl⟩ := program_of_parse hparse
        refine .inNewScope (t := t.touching fun _ => False) hr1.1 hr1.2.1 s fun inner m2 _ hr2 => ?_
        refine (ih.eval hr2 ⟨fun _ => ?_, fun hh => absurd hh hforeign, fun _ hj => ?_⟩).bind fun _ _ _ _ => .pure trivial
        · exact formed_of_parse hparse
        · cases hj
      have hwhole := (hinner.touching hnone).bind fun inner m2 hl' hf2 =>
        finish (.scope inner) m2 (hr1.later hl') (fun hh => absurd hh hforeign) fun hs =>
          ((hf2.2 hs).constants s ((hf1.2 hs).lt (hr.2.2 hs).1) id).trans ((hf1.2 hs).constants s (hr.2.2 hs).1 id)
      simpa only [bind_assoc, pure_bind] using hwhole

theorem memberKey_conducts (hr : Ready t s m) (hp : Fit t property)
    (hk : property.name? = none → FailureKind.value ∈ t.kinds) (hv : t.home → v.Ordinary) (create : Bool) :
    Conducts t (fun r _ => (create = true → ∃ ref, r.1 = .object ref) ∧ (t.home → r.1.Ordinary))
      (fun o => @memberKey o fuel create property s v) m := by
  unfold memberKey
  cases hname : property.name? with
  | some name =>
    cases v with
    | object ref => exact .pure ⟨fun _ => ⟨ref, rfl⟩, hv⟩
    | _ => exact holder_conducts hr create hv fun w _ _ hw ho => .pure ⟨hw, ho⟩
  | none =>
    -- the key comes after the object is there
    have key (w : Value) (m1 : Machine) (hr1 : Ready t s m1) (hw : create = true → ∃ ref, w = .object ref)
        (ho : t.home → w.Ordinary) :
        Conducts t (fun r _ => (create = true → ∃ ref, r.1 = .object ref) ∧ (t.home → r.1.Ordinary)) (fun o => do
            let key ← @eval o fuel property s
            return (w, ← .inspect key)) m1 := by
      refine (ih.eval hr1 hp).bind fun k m2 hl _ => ?_
      exact (of_tame (.inspect (hk hname) k) (hr1.later hl).2.1).bind fun _ _ _ _ => .pure ⟨hw, ho⟩
    cases v with
    | object ref => exact key _ m hr (fun _ => ⟨ref, rfl⟩) hv
    | _ => exact holder_conducts hr create hv key

theorem resolveMember_succ : TargetConducts (fuel + 1) := by
  intro t s m pos object property computed hr hn hk create
  simp only [resolveMember_eq]
  have hobject : Fit t object := hn.part (·.1) (·.1) fun _ => or_inl
  have hproperty : Fit t property := hn.part (·.2.1) (·.2) fun _ => or_inr
  have hkey v m1 (hr1 : Ready t s m1) (hv : t.home → v.Ordinary) :
      Conducts t (fun r _ => (create = true → ∃ ref, r.1 = .object ref) ∧ (t.home → r.1.Ordinary))
        (fun o => @memberKey o fuel create property s v) m1 := by
    refine ih.memberKey_conducts hr1 hproperty (fun hname => hk _ (mem_keyHazards.2 ⟨?_, rfl⟩)) hv create
    simp [computesKey, hname]
  refine (ih.eval hr hobject).bind fun plain m1 hl hplain => ?_
  have hr1 := hr.later hl
  cases object with
  | member p outer inner computed' =>
    have houter : ∀ k ∈ keyHazards (.member p outer inner computed'), k ∈ t.kinds := by
      intro k hmem
      obtain ⟨hinner, rfl⟩ := mem_keyHazards.1 hmem
      refine hk _ (mem_keyHazards.2 ⟨?_, rfl⟩)
      rw [computesKey, hinner, Bool.or_true]
    refine (ih.resolveMember hr1 hobject houter create).bind fun x m2 hl' _ => ?_
    have hr2 := hr1.later hl'
    obtain ⟨parent, key⟩ := x
    cases parent with
    | object ref => exact .heap (hkey _ m2 hr2 fun hh => named_ordinary ((hr2.2.1 hh).fields ref) key)
    | _ =>
      refine .ite (fun _ => ?_) fun _ => hkey .null m2 hr2 fun _ => trivial
      exact (of_tame (.object (forall_mem_nil _)) hr2.2.1).bind fun v m3 hl'' hv =>
        hkey v m3 (hr2.later hl'') hv
  | _ => exact hkey plain m1 hr1 hplain

theorem evalCall_succ : CallConducts (fuel + 1) := by
  intro t s m args hr ha pos f
  cases f with
  | native g =>
    simp only [evalCall]
    refine .told (Library.hazards g) (.of_tame (Library.call_tame g ha s pos) hr.2.1)
      (fun _ _ he => by cases he) fun f hf hkind => .inr (.native hkind hf)
  | cls ref =>
    simp only [evalCall]
    refine .heap ?_
    cases hc : m.heap.classes[ref]? with
    | some c => exact .of_tame (construct_tame pos (fun hh => (hr.2.1 hh).classes ref c hc) ha) hr.2.1
    | none => exact .problem fun _ => rfl
  | func ref =>
    simp only [evalCall]
    refine .heap ?_
    cases hc : m.heap.closures[ref]? with
    | none => exact .problem fun _ => rfl
    | some c =>
      refine .inNewScope hr.1 hr.2.1 c.scope fun inner m1 hpath hr1 => ?_
      refine (declareParams_conducts hr1 c.params ha).bind fun _ m2 hl _ => ?_
      have hr2 := hr1.later hl
      have hbody : AllFit ((t.inside inner).letting fun j => anyEmits j c.body = true) c.body :=
        ⟨fun hs => (hr.1 hs ref c hc).2, fun hh => (hr.2.1 hh).closures ref c hc, fun _ => id⟩
      -- the function that is called leaks the jumps which it does not take
      have hleaks (j : Jump) (m3 : Machine) (hl' : Later (t.inside inner) m2 m3) (hj : j ≠ .ret)
          (hemits : anyEmits j c.body = true ∨ m3.heap.Leaks j) : m3.heap.Leaks j := by
        refine hemits.elim (fun hemits => ⟨ref, c, ?_, ?_⟩) id
        · exact ((hpath.trans hl.1).trans hl'.1).keepsFunctions ref c hc
        · rw [Closure.leaks, hemits, Bool.and_true]
          exact bne_iff_ne.2 hj
      refine (ih.evalBody (t := (t.inside inner).letting fun j => anyEmits j c.body = true) hr2 hbody proper_null).attempt (fun _ _ => rfl) (fun _ m3 _ _ => .pure proper_null) (fun v m3 _ hv _ => .pure hv)
        (fun m3 hl' hj => ?_) fun m3 hl' hj => ?_
      · exact .jump rfl (.inr (hleaks .brk m3 hl' (by decide) hj))
      · exact .jump rfl (.inr (hleaks .cont m3 hl' (by decide) hj))
  | _ =>
    simp only [evalCall]
    exact .problem fun _ => rfl

theorem evalNode_succ : NodeConducts (fuel + 1) := by
  intro t s m n hr hn
  replace hr : Ready (t.entering n s m.heap) s m := hr
  cases n <;> simp only [evalNode]
  case absent => exact .pure proper_null
  case number => exact .of_tame (.number _) hr.2.1
  case string => exact .pure proper_null
  case array pos elements =>
    have hparts : AllFit t elements := hn.parts id id fun _ => id
    refine (ih.evalAll hr hparts).bind fun vs m1 hl hvs => ?_
    exact .of_tame (.array hvs) (hr.later hl).2.1
  case identifier pos name => exact .of_tame (.lookup s name) hr.2.1
  case binary pos left op right =>
    have hleft : Fit t left := hn.part (·.1) (·.1) fun _ => or_inl
    have hright : Fit t right := hn.part (·.2.1) (·.2) fun _ => or_inr
    refine (ih.eval hr hleft).bind fun a m1 hl _ => ?_
    refine (ih.eval (hr.later hl) hright).bind fun b m2 hl' _ => ?_
    exact .of_tame (binary_tame pos (fun hs => (hn.1 hs).2.2) a b) ((hr.later hl).later hl').2.1
  case assignment pos target value op => exact ih.evalAssignment hr hn fun _ => id
  case call pos args callee =>
    have hargs : AllFit t args := hn.parts (·.1) (·.1) fun _ => or_inl
    have hcallee : Fit t callee := hn.part (·.2) (·.2) fun _ => or_inr
    refine (ih.evalAll hr hargs).bind fun vs m1 hl hvs => ?_
    refine (ih.eval (hr.later hl) hcallee).bind fun f m2 hl' _ => ?_
    exact ih.evalCall ((hr.later hl).later hl') hvs pos f
  case program pos body =>
    have hbody : AllFit ((t.entering (.program pos body) s m.heap).letting fun _ => True) body :=
      ⟨hn.1, hn.2.1, fun _ _ => trivial⟩
    refine (ih.evalBody (t := (t.entering (.program pos body) s m.heap).letting fun _ => True) hr hbody proper_null).attempt (fun _ _ => rfl) (fun v m1 _ hv => .pure hv) (fun v m1 _ _ _ => ?_) (fun m1 _ _ => ?_)
      fun m1 _ _ => ?_
    all_goals exact .problem fun _ => rfl
  case «class» pos name members params =>
    have hmembers : AllFit t members := hn.parts (·.1) id fun _ => id
    refine (ih.evalMembers hr hmembers (fun hs => (hn.1 hs).2.1) (fun _ => id) .empty pos).bind fun table m1 hl ht => ?_
    refine .bind (A := Proper t.home) (.of_change rfl (.of_scopes (.cls _ ht.distinct) (fun hh hm => hm.newClass (ht.all hh)) rfl)
      fun _ => trivial) fun c m2 hl' hc => ?_
    exact (declaration_conducts ((hr.later hl).later hl') hc name false).bind fun _ _ _ _ => .pure proper_null
  case enum pos name values =>
    cases he : enumEntries pos values with
    | error p => exact .problem fun hs => absurd he (enumEntries_ok pos (hn.1 hs) p)
    | ok entries =>
      have hentries := Table.All.ofList (enumEntries_ordinary pos he)
      refine .bind (A := Proper t.home) (.of_change rfl (.of_scopes (.enum _ (.ofList _)) (fun _ hm => hm.newEnum hentries) rfl)
        fun _ => trivial) fun e m1 hl he => ?_
      exact (declaration_conducts (hr.later hl) he name false).bind fun _ _ _ _ => .pure proper_null
  case «variable» pos constant target value =>
    have hvalue : Fit t value := hn.part (·.2) (·.2) fun _ => id
    refine (ih.eval hr hvalue).bind fun v m1 hl hv => ?_
    cases hname : target.name? with
    | none => exact .fail rfl (by simp [nodeHazards, hname, Failure.kind])
    | some name => exact declare_conducts (hr.later hl) hv name constant
  case function pos name params body =>
    refine .bind (A := Proper t.home) (.of_change rfl (.of_scopes (.closure _ hn.1)
      (fun hh hm => hm.newClosure (hn.2.1 hh)) rfl) fun _ => trivial) fun f m1 hl hf => ?_
    exact declare_conducts (hr.later hl) hf name false
  case member pos object property computed => exact ih.evalMember hr hn fun _ => id
  case object pos properties =>
    have hparts : AllFit t properties := hn.parts id id fun _ => id
    refine (ih.evalFields hr hparts (fun _ => id) .empty).bind fun fields m1 hl hf => ?_
    exact .of_tame (.newObject (fun _ _ => hf.distinct) fun _ hh _ => hf.all hh) (hr.later hl).2.1
  case conditional pos condition yes no =>
    have hcondition : Fit t condition := hn.part (·.1) (·.1) fun _ => or_inl
    refine (ih.eval hr hcondition).bind fun v m1 hl _ => ?_
    cases v.truth? with
    | none => exact .pure proper_null
    | some b =>
      cases b with
      | true =>
        have hyes : AllFit t yes := hn.parts (·.2.1) (·.2.1) fun j hj => by simp [emits, hj]
        exact ih.evalBody (hr.later hl) hyes proper_null
      | false =>
        have hno : AllFit t no := hn.parts (·.2.2) (·.2.2) fun j hj => by simp [emits, hj]
        exact ih.evalBody (hr.later hl) ⟨fun hs => (hno.1 hs).filter _, fun hh => (hno.2.1 hh).filter _,
          hno.2.2.filter _⟩ proper_null
  case assertion pos condition message =>
    have hcondition : Fit t condition := hn.part id id fun _ => id
    refine (ih.eval hr hcondition).bind fun v m1 hl _ => ?_
    cases v with
    | bool b =>
      cases b with
      | true => exact .pure proper_null
      | false => exact .problem fun _ => rfl
    | _ => exact .problem fun _ => rfl
  case del pos target =>
    cases hname : target.name? with
    | none =>
      refine .problem_bind fun hs => ?_
      obtain ⟨p, name, rfl, _⟩ := hn.1 hs
      cases hname
    | some name =>
      refine .bind (.scoping (fun _ hd => ?_) fun _ hp => delete_error hp) fun _ _ _ _ => .pure proper_null
      exact .delete (fun hs => (hr.2.2 hs).2) (fun _ => ⟨rfl, hname⟩) hd
  case loop pos body =>
    have hbody : AllFit t.looping body := hn.body id id fun hj => hj
    exact ih.evalLoop hr hbody
  case «while» pos condition body =>
    have hbody : AllFit t.looping body := hn.body (·.2) (·.2) fun hj => by simp [emits, hj]
    have hcondition : Fit t.heading condition := hn.head (·.1) (·.1) fun j hj he => by simp [emits, hj, he]
    exact ih.evalWhile hr hcondition hbody
  case «for» pos target iterator body =>
    have hbody : AllFit t.looping body := hn.body (·.2.2) (·.2.2) fun hj => by simp [emits, hj]
    have hiterator : Fit t.heading iterator := hn.head (·.2.1) (·.2.1) fun j hj he => by simp [emits, hj, he]
    cases hname : target.name? with
    | none =>
      refine .problem fun hs => ?_
      obtain ⟨p, name, rfl, _⟩ := (hn.1 hs).1
      cases hname
    | some name => exact ih.evalFor hr hiterator hbody (fun _ _ => hname) pos
  case brk pos => exact .jump rfl (.inl (hn.2.2 .brk rfl))
  case cont pos => exact .jump rfl (.inl (hn.2.2 .cont rfl))
  case ret pos value =>
    have hvalue : Fit t value := hn.part id id fun _ => or_inr
    refine (ih.eval hr hvalue).bind fun v m1 _ hv => ?_
    exact .ret hv (.inl (hn.2.2 .ret rfl))
  case importing pos module names newName =>
    refine ih.evalImport hr hn.2.1 (fun _ x hx => ?_) id fun _ => id
    cases names with
    | none => cases hx
    | some names => exact ⟨rfl, hx⟩
  case emptyStatement => exact .of_tame (unknownNode_tame _) hr.2.1
  case emptyExpression => exact .of_tame (unknownNode_tame _) hr.2.1
  case property => exact .of_tame (unknownNode_tame _) hr.2.1

end

theorem succ (ih : EvaluatorConducts fuel) : EvaluatorConducts (fuel + 1) :=
  ⟨ih.eval_succ, ih.evalNode_succ, ih.evalAll_succ, ih.evalBody_succ, ih.evalFields_succ, ih.evalMembers_succ,
    ih.evalMember_succ, ih.evalAssignment_succ, ih.evalCompound_succ, ih.resolveMember_succ, ih.evalCall_succ,
    ih.evalLoop_succ, ih.evalWhile_succ, ih.evalFor_succ, ih.evalRounds_succ, ih.evalImport_succ⟩

/-- At any fuel the functions of the evaluator conduct themselves. -/
theorem all (fuel : Nat) : EvaluatorConducts fuel := by
  induction fuel with
  | zero => exact zero
  | succ fuel ih => exact ih.succ

end EvaluatorConducts

end SmallScript.Evaluate
