import SmallScript.Proofs.Evaluate.Parts

/-!
# Evaluation in step

A program evaluated in two linked scopes does the same on both sides: `evaluate_sim`. The two sides may be
looked on by two observers, as long as these act in step themselves.

The functions of the evaluator call each other with less fuel. `InStep β o o' fuel` collects what is to be
shown of all of them; there is one lemma for each function, from `InStep` at the fuel it hands on.
-/

namespace SmallScript.Evaluate

open Machine
open Value (ScopeRef ObjectRef Native guardedModules)
open Syntax Action Sim Bridge
open Data (Table)

/-- Linked events; no native function of a guarded module is called. -/
inductive EventLink (ρ : Link) : Event → Event → Prop where
  | enter (n : Node) {s s' : ScopeRef} (hs : ρ .scope s s') : EventLink ρ (.enter n s) (.enter n s')
  | leave (n : Node) {s s' : ScopeRef} (hs : ρ .scope s s') {v v' : Value} (hv : ValueLink ρ v v') :
    EventLink ρ (.leave n s v) (.leave n s' v')
  | call (f : Native) (hf : f ∉ guardedNatives) {args args' : List Value} (ha : ValuesLink ρ args args')
      {s s' : ScopeRef} (hs : ρ .scope s s') : EventLink ρ (.call f args s) (.call f args' s')

/-- Two observers act in step. -/
def Observer.Agree (β : Base) (o o' : Observer) : Prop :=
  ∀ (b : Bridge β) (e e' : Event), EventLink b.link e e' → Sim b Same (o.notice e) (o'.notice e')

theorem Observer.silent_agree (β : Base) : Observer.Agree β .silent .silent := fun _ _ _ _ => .pure rfl

/-- An object or another value, with a key. -/
def KeyLink (ρ : Link) (p p' : Value × String) : Prop := ValueLink ρ p.1 p'.1 ∧ p.2 = p'.2

/-- What is left of resolving a member when its object is found: without an object a new one may be made, and
the key is the written name or the text of the computed one. -/
def memberKey [Observer] (fuel : Nat) (create : Bool) (property : Node) (s : ScopeRef) (holder : Value) :
    Action (Value × String) := do
  let holder ← match holder with
    | .object ref => pure (.object ref)
    | v => if create then Action.object [] else pure v
  match property.name? with
  | some name => pure (holder, name)
  | none => do
    let key ← eval fuel property s
    return (holder, ← Action.inspect key)

theorem resolveMember_eq [Observer] (fuel : Nat) (create : Bool) (object property : Node) (s : ScopeRef) :
    resolveMember (fuel + 1) create object property s = (do
      let plain ← eval fuel object s
      match object with
      | .member _ outer inner _ => do
        let x ← resolveMember fuel create outer inner s
        match x.1 with
        | .object ref => do
          memberKey fuel create property s ((((← Action.heap).fields ref).get? x.2).getD .null)
        | _ =>
          if create then Action.object [] >>= memberKey fuel create property s
          else memberKey fuel create property s .null
      | _ => memberKey fuel create property s plain) := by
  simp only [resolveMember]
  rfl

/-- What is left of an assignment to a member when its object is found: the field gets the value, or what an operator makes
of its old value and a node. -/
def assignField [Observer] (fuel : Nat) (pos : Pos) (holder : Node) (ref : ObjectRef) (key : String) (v : Value)
    (value : Node) (op : Option String) (s : ScopeRef) : Action Value := do
  checkAssignable s pos holder ref key
  let v ← if (op.getD "").isEmpty then pure v
    else match ((← Action.heap).fields ref).get? key with
      | some old => evalCompound fuel pos (.value old) value op s
      | none => Action.fail (.lookup (.key key))
  modifyHeap (·.setField ref key v)
  return v

section

variable (β : Base) (o o' : Observer) (fuel : Nat)

/-- An action does the same in linked scopes, each with its observer. -/
def Paired {α : Type} (R : Link → α → α → Prop) (F : Observer → ScopeRef → Action α) : Prop :=
  ∀ {b : Bridge β} {s s'}, b.link .scope s s' → Sim b R (F o s) (F o' s')

/-- So does one that is handed something linked. -/
def PairedOn {α γ : Type} (A : Link → γ → γ → Prop) (R : Link → α → α → Prop) (F : Observer → γ → ScopeRef → Action α) :
    Prop :=
  ∀ {b : Bridge β} {x x'}, A b.link x x' → ∀ {s s'}, b.link .scope s s' → Sim b R (F o x s) (F o' x' s')

def EvalInStep : Prop := ∀ n, Paired β o o' ValueLink fun o => @eval o fuel n

def NodeInStep : Prop := ∀ n, Paired β o o' ValueLink fun o => @evalNode o fuel n

def AllInStep : Prop := ∀ ns, Paired β o o' ValuesLink fun o => @evalAll o fuel ns

def BodyInStep : Prop := ∀ ns, PairedOn β o o' ValueLink ValueLink fun o v => @evalBody o fuel v ns

def FieldsInStep : Prop := ∀ ns, PairedOn β o o' TableLink TableLink fun o t => @evalFields o fuel t ns

def MembersInStep : Prop := ∀ pos ns, PairedOn β o o' TableLink TableLink fun o t => @evalMembers o fuel pos t ns

def MemberInStep : Prop :=
  ∀ pos object property computed, Paired β o o' ValueLink fun o => @evalMember o fuel pos object property computed

def AssignmentInStep : Prop :=
  ∀ pos target value op, Paired β o o' ValueLink fun o => @evalAssignment o fuel pos target value op

def CompoundInStep : Prop :=
  ∀ pos value op, PairedOn β o o' TargetLink ValueLink fun o t => @evalCompound o fuel pos t value op

def TargetInStep : Prop :=
  ∀ create object property, Paired β o o' KeyLink fun o => @resolveMember o fuel create object property

def CallInStep : Prop :=
  ∀ pos {b : Bridge β} {f f'}, ValueLink b.link f f' → ∀ {args args'}, ValuesLink b.link args args' → ∀ {s s'},
    b.link .scope s s' → Sim b ValueLink (@evalCall o fuel pos f args s) (@evalCall o' fuel pos f' args' s')

def LoopInStep : Prop := ∀ body, Paired β o o' ValueLink fun o => @evalLoop o fuel body

def WhileInStep : Prop := ∀ condition body, Paired β o o' ValueLink fun o => @evalWhile o fuel condition body

def ForInStep : Prop :=
  ∀ pos name iterator body, Paired β o o' ValueLink fun o => @evalFor o fuel pos name iterator body

def RoundsInStep : Prop :=
  ∀ name i body, PairedOn β o o' (· .array) Same fun o r => @evalRounds o fuel name r i body

def ImportInStep : Prop :=
  ∀ pos module names newName, Paired β o o' ValueLink fun o => @evalImport o fuel pos module names newName

end

/-- The functions of the evaluator act in step at some fuel. -/
structure InStep (β : Base) (o o' : Observer) (fuel : Nat) : Prop where
  protected eval : EvalInStep β o o' fuel
  protected evalNode : NodeInStep β o o' fuel
  protected evalAll : AllInStep β o o' fuel
  protected evalBody : BodyInStep β o o' fuel
  protected evalFields : FieldsInStep β o o' fuel
  protected evalMembers : MembersInStep β o o' fuel
  protected evalMember : MemberInStep β o o' fuel
  protected evalAssignment : AssignmentInStep β o o' fuel
  protected evalCompound : CompoundInStep β o o' fuel
  protected resolveMember : TargetInStep β o o' fuel
  protected evalCall : CallInStep β o o' fuel
  protected evalLoop : LoopInStep β o o' fuel
  protected evalWhile : WhileInStep β o o' fuel
  protected evalFor : ForInStep β o o' fuel
  protected evalRounds : RoundsInStep β o o' fuel
  protected evalImport : ImportInStep β o o' fuel

namespace InStep

variable {β : Base} {o o' : Observer} {fuel : Nat} {b : Bridge β} {s s' : ScopeRef}

theorem zero : InStep β o o' 0 := by
  constructor <;> repeat intro
  all_goals
    simp only [eval, evalNode, evalAll, evalBody, evalFields, evalMembers, evalMember, evalAssignment, evalCompound,
      resolveMember, evalCall, evalLoop, evalWhile, evalFor, evalRounds, evalImport]
    exact .fail .outOfFuel rfl

section

variable (ih : InStep β o o' fuel)
include ih

theorem eval_succ (ho : Observer.Agree β o o') : EvalInStep β o o' (fuel + 1) := by
  intro n b s s' hs
  simp only [eval]
  refine (ho b _ _ (.enter n hs)).bind fun b1 h1 _ _ _ => ?_
  refine (ih.evalNode n (h1.link hs)).bind fun b2 h2 v v' hv => ?_
  refine (ho b2 _ _ (.leave n ((h1.trans h2).link hs) hv)).bind fun b3 h3 _ _ _ => ?_
  exact .pure (hv.mono h3.links)

theorem evalAll_succ : AllInStep β o o' (fuel + 1) := by
  intro ns b s s' hs
  cases ns with
  | nil =>
    simp only [evalAll]
    exact .pure .nil
  | cons n rest =>
    simp only [evalAll]
    refine (ih.eval n hs).bind fun b1 h1 v v' hv => ?_
    refine (ih.evalAll rest (h1.link hs)).bind fun b2 h2 vs vs' hvs => ?_
    exact .pure (.cons (hv.mono h2.links) hvs)

theorem evalBody_succ : BodyInStep β o o' (fuel + 1) := by
  intro ns b v v' hv s s' hs
  cases ns with
  | nil =>
    simp only [evalBody]
    exact .pure hv
  | cons n rest =>
    simp only [evalBody]
    exact (ih.eval n hs).bind fun b1 h1 w w' hw => ih.evalBody rest hw (h1.link hs)

theorem evalFields_succ : FieldsInStep β o o' (fuel + 1) := by
  intro ns b t t' ht s s' hs
  cases ns with
  | nil =>
    simp only [evalFields]
    exact .pure ht
  | cons n rest =>
    cases n with
    | property pos key value =>
      simp only [evalFields]
      have insert : ∀ b1, b ≤ b1 → ∀ v v', ValueLink b1.link v v' →
          Sim b1 TableLink (@evalFields o fuel (t.insert key v) rest s)
            (@evalFields o' fuel (t'.insert key v') rest s') := fun b1 h1 v v' hv =>
        ih.evalFields rest ((ht.mono h1.links).insert key hv) (h1.link hs)
      split
      · exact (lookup hs key).bind insert
      · exact (ih.eval value hs).bind insert
    | _ =>
      simp only [evalFields]
      exact .fail _ rfl

theorem evalMembers_succ : MembersInStep β o o' (fuel + 1) := by
  intro pos ns b t t' ht s s' hs
  have insert : ∀ name rest b1, b ≤ b1 → ∀ v v', ValueLink b1.link v v' →
      Sim b1 TableLink (@evalMembers o fuel pos (t.insert name v) rest s)
        (@evalMembers o' fuel pos (t'.insert name v') rest s') := fun name rest b1 h1 v v' hv =>
    ih.evalMembers pos rest ((ht.mono h1.links).insert name hv) (h1.link hs)
  cases ns with
  | nil =>
    simp only [evalMembers]
    exact .pure ht
  | cons n rest =>
    cases n with
    | function p name params body =>
      simp only [evalMembers]
      refine (newScope hs).bind fun b1 h1 inner inner' hi => ?_
      exact (newClosure name params hi body).bind fun b2 h2 => insert name rest b2 (h1.trans h2)
    | assignment p target value op =>
      simp only [evalMembers]
      refine (ih.eval value hs).bind fun b1 h1 v v' hv => ?_
      cases target.name? with
      | none => exact .problem _
      | some name => exact insert name rest b1 h1 v v' hv
    | absent =>
      simp only [evalMembers]
      exact .fail _ rfl
    | _ =>
      simp only [evalMembers]
      exact .problem _

theorem evalMember_succ : MemberInStep β o o' (fuel + 1) := by
  intro pos object property computed b s s' hs
  simp only [evalMember]
  refine (ih.eval object hs).bind fun b1 h1 v v' hv => ?_
  rw [← hasMembers_eq hv]
  cases hasMembers v with
  | false => exact .problem_bind _ _ _
  | true =>
    cases computed with
    | true =>
      refine (ih.eval property (h1.link hs)).bind fun b2 h2 key key' hk => .heap ?_
      have hh := holder?_rel (hv.mono h2.links)
      revert hh
      generalize holder? b2.left.heap v = m
      generalize holder? b2.right.heap v' = m'
      intro hh
      cases hh with
      | none => exact .problem _
      | some hm => exact computedMember_sim pos hm hk
    | false =>
      refine .heap ?_
      have hh := holder?_rel hv
      revert hh
      generalize holder? b1.left.heap v = m
      generalize holder? b1.right.heap v' = m'
      intro hh
      cases hh with
      | none => exact .problem _
      | some hm => exact writtenMember_sim pos hm _

theorem evalCompound_succ : CompoundInStep β o o' (fuel + 1) := by
  intro pos value op b t t' ht s s' hs
  simp only [evalCompound]
  refine (ih.eval value hs).bind fun b1 h1 new new' hn => ?_
  refine (current_sim (ht.mono h1.links) (h1.link hs) pos).bind fun b2 h2 old old' ho => ?_
  exact compoundValue_sim pos op ho (hn.mono h2.links)

theorem assignField_sim (hs : b.link .scope s s') (pos : Pos) (holder : Node) {r r'} (hr : RefLink b.link r r')
    (key : String) {v v'} (hv : ValueLink b.link v v') (value : Node) (op : Option String) :
    Sim b ValueLink (@assignField o fuel pos holder r key v value op s)
      (@assignField o' fuel pos holder r' key v' value op s') := by
  refine (checkAssignable_sim hs pos holder hr key).bind fun b1 h1 _ _ ha => ?_
  have hs1 := h1.link hs
  have hr1 := hr.mono h1.links
  -- whatever the new value is, it is stored under the key
  have store : ∀ b2, b1 ≤ b2 → ∀ w w', ValueLink b2.link w w' →
      Sim b2 ValueLink (do modifyHeap (·.setField r key w); pure w)
        (do modifyHeap (·.setField r' key w'); pure w') := fun b2 h2 w w' hw =>
    (setField (hr1.mono h2.links) ha key hw).bind fun _ h3 _ _ _ =>
      pure (hw.mono h3.links)
  split
  · exact (pure (hv.mono h1.links)).bind store
  · refine .heap ?_
    have hf := (fields_link hr1).get? key
    revert hf
    generalize (b1.left.heap.fields r).get? key = old
    generalize (b1.right.heap.fields r').get? key = old'
    intro hf
    cases hf with
    | none => exact (fail _ rfl).bind store
    | some hold => exact (ih.evalCompound pos value op (.value hold) hs1).bind store

theorem evalAssignment_succ : AssignmentInStep β o o' (fuel + 1) := by
  intro pos target value op b s s' hs
  simp only [evalAssignment]
  refine (ih.eval value hs).bind fun b1 h1 v v' hv => ?_
  have hs1 := h1.link hs
  split
  · exact .problem_bind _ _ _
  · cases target with
    | identifier p name =>
      dsimp only
      split
      · exact (pure hv).bind fun b2 h2 w w' hw => assign_sim (h2.link hs1) name hw
      · exact (ih.evalCompound pos value op (.name name) hs1).bind fun b2 h2 w w' hw =>
          assign_sim (h2.link hs1) name hw
    | member p object property computed =>
      refine (ih.resolveMember true object property hs1).bind fun b2 h2 x x' hx => ?_
      obtain ⟨holder, key⟩ := x
      obtain ⟨holder', key'⟩ := x'
      obtain ⟨hh, rfl⟩ := hx
      cases hh with
      | object hr =>
        exact assignField_sim ih (h2.link hs1) pos object hr key (hv.mono h2.links) value op
      | _ => exact .problem _
    | _ => exact .problem _

theorem evalLoop_succ : LoopInStep β o o' (fuel + 1) := by
  intro body b s s' hs
  simp only [evalLoop]
  refine (ih.evalBody body .null hs).attempt.bind fun b1 h1 r r' hr => ?_
  have hs1 := h1.link hs
  cases hr with
  | ok h => exact ih.evalLoop body hs1
  | error h =>
    have thrown := throw (R := ValueLink) h
    cases h with
    | cont => exact ih.evalLoop body hs1
    | brk => exact .pure .null
    | _ => exact thrown

theorem evalWhile_succ : WhileInStep β o o' (fuel + 1) := by
  intro condition body b s s' hs
  simp only [evalWhile]
  refine (ih.eval condition hs).attempt.bind fun b1 h1 r r' hr => ?_
  have hs1 := h1.link hs
  cases hr with
  | error h =>
    have thrown := throw (R := ValueLink) h
    cases h with
    | brk => exact .pure .null
    | _ => exact thrown
  | ok hv =>
    dsimp only
    rw [hv.truth?_eq]
    split
    · exact .pure .null
    · exact ih.evalWhile condition body hs1
    · refine (ih.evalBody body .null hs1).attempt.bind fun b2 h2 r r' hr => ?_
      have hs2 := h2.link hs1
      cases hr with
      | ok h => exact ih.evalWhile condition body hs2
      | error h =>
        have thrown := throw (R := ValueLink) h
        cases h with
        | cont => exact ih.evalWhile condition body hs2
        | brk => exact .pure .null
        | _ => exact thrown

theorem evalRounds_succ : RoundsInStep β o o' (fuel + 1) := by
  intro name i body b r r' hr s s' hs
  simp only [evalRounds]
  refine .heap ?_
  have he := rel_getElem? (elements_link hr) i
  rw [Array.getElem?_toList, Array.getElem?_toList] at he
  revert he
  generalize (b.left.heap.elements r)[i]? = e
  generalize (b.right.heap.elements r')[i]? = e'
  intro he
  cases he with
  | none => exact .pure rfl
  | some hv =>
    refine (Sim.declare hs name hv false true).bind fun b1 h1 _ _ _ => ?_
    have hs1 := h1.link hs
    refine (ih.evalBody body .null hs1).attempt.bind fun b2 h2 q q' hq => ?_
    have next := ih.evalRounds name (i + 1) body ((h1.trans h2).link hr) (h2.link hs1)
    cases hq with
    | ok h => exact next
    | error h =>
      have thrown := throw (R := @Same Unit) h
      cases h with
      | cont => exact next
      | brk => exact .pure rfl
      | _ => exact thrown

theorem evalFor_succ : ForInStep β o o' (fuel + 1) := by
  intro pos name iterator body b s s' hs
  simp only [evalFor]
  refine (ih.eval iterator hs).attempt.bind fun b1 h1 r r' hr => ?_
  have hs1 := h1.link hs
  cases hr with
  | error h =>
    have thrown := throw (R := @Same Unit) h
    cases h with
    | brk => exact (restore_sim hs1 name .none).bind fun _ _ _ _ _ => .pure .null
    | _ => exact thrown.bind fun _ _ _ _ _ => .pure .null
  | ok hv =>
    cases hv with
    | array ha =>
      refine .heap ?_
      have hl := lookup?_rel name hs1
      refine (ih.evalRounds name 0 body ha hs1).bind fun b2 h2 _ _ _ => ?_
      exact (restore_sim (h2.link hs1) name (rel_mono h2.links hl)).bind fun _ _ _ _ _ => .pure .null
    | _ => exact .problem_bind _ _ _

theorem evalImport_succ : ImportInStep β o o' (fuel + 1) := by
  intro pos module names newName b s s' hs
  simp only [evalImport]
  cases hm : Heap.module? module with
  | some ref =>
    refine .heap ?_
    rw [isGuarded_left hs, isGuarded_right hs]
    cases hg : guardedModules.contains module with
    | true => exact .problem_bind _ _ _
    | false =>
      have hr : RefLink b.link ref ref := (β.openModules module ref hm (by simpa using hg)).mono b.known_le
      exact (importObject_sim hs module pos hr names newName).bind fun _ _ _ _ _ => .pure .null
  | none =>
    refine (moduleSource_sim module pos).bindSame fun b1 h1 source => ?_
    have hs1 := h1.link hs
    cases parse source with
    | error f => exact (fail (R := Same) _ rfl).bind fun _ _ _ _ _ => .pure .null
    | ok program =>
      refine (newScope hs1).bind fun b2 h2 inner inner' hi => ?_
      refine (ih.eval program hi).bind fun b3 h3 _ _ _ => ?_
      exact (importObject_sim ((h2.trans h3).link hs1) module pos
        (.scope (h3.link hi)) names newName).bind fun _ _ _ _ _ => .pure .null

theorem memberKey_sim (hs : b.link .scope s s') (create : Bool) (property : Node) {v v'} (hv : ValueLink b.link v v') :
    Sim b KeyLink (@memberKey o fuel create property s v) (@memberKey o' fuel create property s' v') := by
  -- the key comes after the object is there
  have key : ∀ b1, b ≤ b1 → ∀ w w', ValueLink b1.link w w' → Sim b1 KeyLink (match property.name? with
          | some name => pure (w, name)
          | none => do
            let key ← @eval o fuel property s
            return (w, ← inspect key))
        (match property.name? with
          | some name => pure (w', name)
          | none => do
            let key ← @eval o' fuel property s'
            return (w', ← inspect key)) := by
    intro b1 h1 w w' hw
    cases property.name? with
    | some name => exact .pure ⟨hw, rfl⟩
    | none =>
      refine (ih.eval property (h1.link hs)).bind fun b2 h2 k k' hk => ?_
      refine (Sim.inspect hk).bind fun b3 h3 t t' ht => ?_
      exact .pure ⟨hw.mono (h2.trans h3).links, ht⟩
  cases hv with
  | object hr => exact (Sim.pure (.object hr)).bind key
  | _ =>
    unfold memberKey
    dsimp only
    split
    · exact (Sim.object .nil).bind key
    · exact (Sim.pure (by constructor <;> assumption)).bind key

theorem resolveMember_succ : TargetInStep β o o' (fuel + 1) := by
  intro create object property b s s' hs
  simp only [resolveMember_eq]
  refine (ih.eval object hs).bind fun b1 h1 plain plain' hp => ?_
  have hs1 := h1.link hs
  cases object with
  | member p outer inner computed =>
    refine (ih.resolveMember create outer inner hs1).bind fun b2 h2 x x' hx => ?_
    have hs2 := h2.link hs1
    obtain ⟨parent, key⟩ := x
    obtain ⟨parent', key'⟩ := x'
    obtain ⟨hh, rfl⟩ := hx
    cases hh with
    | object hr =>
      exact .heap (memberKey_sim ih hs2 create property (getD_null_link ((fields_link hr).get? key)))
    | _ =>
      dsimp only
      split
      · exact (Sim.object .nil).bind fun b3 h3 v v' hv =>
          memberKey_sim ih (h3.link hs2) create property hv
      · exact memberKey_sim ih hs2 create property .null
  | _ => exact memberKey_sim ih hs1 create property hp

theorem evalCall_succ (ho : Observer.Agree β o o') : CallInStep β o o' (fuel + 1) := by
  intro pos b f f' hf args args' ha s s' hs
  cases hf with
  | native f hf =>
    simp only [evalCall]
    refine (ho b _ _ (.call f hf ha hs)).bind fun b1 h1 _ _ _ => ?_
    exact Library.call_sim hf (ha.mono h1.links) (h1.link hs) pos
  | cls hc =>
    simp only [evalCall]
    refine .heap ?_
    obtain ⟨c, c', h, h', hl⟩ := classes_link hc
    simp only [h, h']
    cases hl with
    | cls _ members params => exact construct_sim pos params members ha
  | func hc =>
    simp only [evalCall]
    refine .heap ?_
    obtain ⟨c, c', h, h', hl⟩ := closures_link hc
    simp only [h, h']
    cases hl with
    | closure _ params scope body =>
      refine (newScope scope).bind fun b1 h1 inner inner' hi => ?_
      rw [params, body]
      refine (declareParams_sim hi _ (ha.mono h1.links)).bind fun b2 h2 _ _ _ => ?_
      refine (ih.evalBody _ .null (h2.link hi)).attempt.bind fun b3 _ r r' hr => ?_
      cases hr with
      | ok h => exact .pure .null
      | error h =>
        have thrown := throw (R := ValueLink) h
        cases h with
        | ret h => exact .pure h
        | _ => exact thrown
  | _ =>
    simp only [evalCall]
    exact .problem _

theorem evalNode_succ : NodeInStep β o o' (fuel + 1) := by
  intro n b s s' hs
  cases n <;> simp only [evalNode]
  case absent => exact .pure .null
  case number => exact .number _
  case string => exact .pure (.str _)
  case array elements => exact (ih.evalAll elements hs).bind fun _ _ _ _ hv => .array hv
  case identifier name => exact .lookup hs name
  case binary pos left op right =>
    refine (ih.eval left hs).bind fun b1 h1 v v' hv => ?_
    refine (ih.eval right (h1.link hs)).bind fun b2 h2 w w' hw => ?_
    exact binary_sim pos op (hv.mono h2.links) hw
  case assignment pos target value op => exact ih.evalAssignment pos target value op hs
  case call pos args callee =>
    refine (ih.evalAll args hs).bind fun b1 h1 vs vs' hvs => ?_
    refine (ih.eval callee (h1.link hs)).bind fun b2 h2 f f' hf => ?_
    exact ih.evalCall pos hf (hvs.mono h2.links) ((h1.trans h2).link hs)
  case program pos body =>
    refine (ih.evalBody body .null hs).attempt.bind fun b1 _ r r' hr => ?_
    cases hr with
    | ok h => exact .pure h
    | error h =>
      cases h with
      | failure f h => exact throw (.failure f h)
      | _ => exact throw (.failure _ rfl)
  case «class» pos name members params =>
    refine (ih.evalMembers pos members .empty hs).bind fun b1 h1 t t' ht => ?_
    refine (newClass name ht params).bind fun b2 h2 c c' hc => ?_
    exact (Sim.declare ((h1.trans h2).link hs) name hc false false).bind fun _ _ _ _ _ => .pure .null
  case enum pos name values =>
    cases he : enumEntries pos values with
    | error p => exact .problem p
    | ok entries =>
      refine (newEnum name (.ofList (enumEntries_link pos values he))).bind fun b1 h1 e e' hv => ?_
      exact (Sim.declare (h1.link hs) name hv false false).bind fun _ _ _ _ _ => .pure .null
  case «variable» pos constant target value =>
    refine (ih.eval value hs).bind fun b1 h1 v v' hv => ?_
    cases target.name? with
    | none => exact .fail _ rfl
    | some name => exact declare_sim (h1.link hs) name hv constant false
  case function pos name params body =>
    exact (newClosure name params hs body).bind fun b1 h1 f f' hf =>
      declare_sim (h1.link hs) name hf false false
  case member pos object property computed => exact ih.evalMember pos object property computed hs
  case object pos properties =>
    exact (ih.evalFields properties .empty hs).bind fun _ _ _ _ ht => .newObject ht
  case conditional pos condition yes no =>
    refine (ih.eval condition hs).bind fun b1 h1 v v' hv => ?_
    have hs1 := h1.link hs
    rw [hv.truth?_eq]
    split
    · exact ih.evalBody yes .null hs1
    · exact ih.evalBody _ .null hs1
    · exact .pure .null
  case assertion pos condition message =>
    refine (ih.eval condition hs).bind fun b1 _ v v' hv => ?_
    cases hv with
    | bool x =>
      cases x with
      | true => exact .pure .null
      | false => exact .problem _
    | _ => exact .problem _
  case del pos target =>
    cases target.name? with
    | none => exact .problem_bind _ _ _
    | some name => exact (delete hs name).bind fun _ _ _ _ _ => .pure .null
  case loop pos body => exact ih.evalLoop body hs
  case «while» pos condition body => exact ih.evalWhile condition body hs
  case «for» pos target iterator body =>
    cases target.name? with
    | none => exact .problem _
    | some name => exact ih.evalFor pos name iterator body hs
  case brk => exact throw .brk
  case cont => exact throw .cont
  case ret pos value => exact (ih.eval value hs).bind fun _ _ _ _ hv => throw (.ret hv)
  case importing pos module names newName => exact ih.evalImport pos module names newName hs
  case emptyStatement => exact unknownNode_sim _
  case emptyExpression => exact unknownNode_sim _
  case property => exact unknownNode_sim _

end

theorem succ (ih : InStep β o o' fuel) (ho : Observer.Agree β o o') : InStep β o o' (fuel + 1) :=
  ⟨ih.eval_succ ho, ih.evalNode_succ, ih.evalAll_succ, ih.evalBody_succ, ih.evalFields_succ, ih.evalMembers_succ,
    ih.evalMember_succ, ih.evalAssignment_succ, ih.evalCompound_succ, ih.resolveMember_succ, ih.evalCall_succ ho,
    ih.evalLoop_succ, ih.evalWhile_succ, ih.evalFor_succ, ih.evalRounds_succ, ih.evalImport_succ⟩

theorem all (ho : Observer.Agree β o o') (fuel : Nat) : InStep β o o' fuel := by
  induction fuel with
  | zero => exact zero
  | succ fuel ih => exact ih.succ ho

end InStep

/-- A tree evaluated in linked scopes does the same on both sides. -/
theorem evaluate_sim {β o o'} (ho : Observer.Agree β o o') {b : Bridge β} (n : Node) {s s'} (hs : b.link .scope s s') :
    Sim b ValueLink (@evaluate o n s) (@evaluate o' n s') :=
  (InStep.all ho fuelBound).eval n hs

end SmallScript.Evaluate
