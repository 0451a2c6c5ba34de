import SmallScript.Proofs.Data.Tables
import SmallScript.Proofs.Evaluate.Literals
import SmallScript.Proofs.Session.Sandbox

/-!
# Assignments to dotted names

A dotted name `x.p.q` is read along the objects, classes and enumerations that its front parts lead to, and reading it
changes nothing. An assignment to it goes along objects only: where a front part is no object, a new empty object takes
its place, from there on up to the last one, so the assignment ends in an object that nothing else refers to.
`dotted_assignment` says what becomes of the heap in each case.
-/

namespace SmallScript.Machine.Heap

open Value (ScopeRef ObjectRef)
open Data (Table)

variable {h h' : Heap}

/-- The second heap has this value in a field of an object that is there, and is like the first one elsewhere. -/
def SetsField (h : Heap) (name : String) (v : Value) (h' : Heap) : ObjectRef → Prop
  | .record i => ∃ r, h.records[i]? = some r ∧
      h.Updates .record i (.record { r with fields := r.fields.insert name v }) h'
  | .scope s => ∃ scope, h.scopes[s]? = some scope ∧
      h.Updates .scope s (.scope { scope with vars := scope.vars.insert name v }) h'

theorem setsField_setField {ref} (hr : (Cell.object ref).IsIn h) (name : String) (v : Value) :
    h.SetsField name v (h.setField ref name v) ref := by
  cases ref with
  | record i =>
    have hold := Array.getElem?_eq_getElem (hr)
    exact ⟨_, hold, setField_record_updates hold name v⟩
  | scope s =>
    have hold := Array.getElem?_eq_getElem (hr)
    exact ⟨_, hold, modifyScope_updates hold fun scope => { scope with vars := scope.vars.insert name v }⟩

theorem SetsField.fields {ref name v} (hs : h.SetsField name v h' ref) :
    h'.fields ref = (h.fields ref).insert name v := by
  cases ref with
  | record i =>
    obtain ⟨r, hr, hupdates⟩ := hs
    have hnew : h'.records[i]?.map Content.record = some (.record { r with fields := r.fields.insert name v }) := by
      have hcontent := hupdates.content .record i
      rwa [if_pos ⟨rfl, rfl⟩] at hcontent
    obtain ⟨r', hr', heq⟩ := Option.map_eq_some_iff.1 hnew
    cases heq
    rw [Heap.fields, Heap.fields, hr, hr']
    rfl
  | scope s =>
    obtain ⟨scope, hs, hupdates⟩ := hs
    have hnew : h'.scopes[s]?.map Content.scope = some (.scope { scope with vars := scope.vars.insert name v }) := by
      have hcontent := hupdates.content .scope s
      rwa [if_pos ⟨rfl, rfl⟩] at hcontent
    obtain ⟨scope', hs', heq⟩ := Option.map_eq_some_iff.1 hnew
    cases heq
    rw [Heap.fields, Heap.fields, hs, hs']
    rfl

/-- The second heap has all cells of the first one and a new empty object. -/
structure Gains (h : Heap) (i : Nat) (h' : Heap) : Prop where
  kept : h.Extends h'
  scopes : h'.scopes = h.scopes
  new : h.records.size ≤ i
  empty : h'.records[i]? = some ⟨.empty, false⟩

theorem Gains.newObject (he : h.Extends h') (hs : h'.scopes = h.scopes) :
    h.Gains h'.records.size (h'.newObject .empty false).2 where
  kept := he.trans (newObject_allocates h' .empty false).extends
  scopes := hs
  new := he.count_le .record
  empty := Array.getElem?_push_size

/-- A field of the new object changes no cell of the first heap. -/
theorem Gains.setField {i} (hg : h.Gains i h') (name : String) (v : Value) :
    h.Extends (h'.setField (.record i) name v) := by
  intro k j c hc
  rw [(setField_record_updates hg.empty name v).content, if_neg]
  · exact hg.kept k j c hc
  · rintro ⟨rfl, rfl⟩
    exact Nat.not_lt_of_le hg.new (lt_count_of_content? hc)

theorem resolve?_of_scopes (hs : h'.scopes = h.scopes) (s : ScopeRef) (name : String) :
    h'.resolve? s name = h.resolve? s name := by
  induction s using Nat.strongRecOn with
  | ind s ih =>
    rw [resolve?, resolve?.eq_def h, hs]
    split
    · rfl
    · split
      · rfl
      · split
        · rfl
        · split
          · next hlt => exact ih _ hlt
          · rfl

end SmallScript.Machine.Heap

namespace SmallScript.Evaluate

open Machine Syntax
open Value (ScopeRef ObjectRef)
open Data (Table)

variable {v : Value} {ref : ObjectRef}

/-! ## Dotted names -/

/-- A name, or a name behind a dot. -/
inductive Dotted where
  | name (pos : Pos) (x : String)
  | dot (pos : Pos) (front : Dotted) (at_ : Pos) (p : String)

namespace Dotted

def node : Dotted → Node
  | .name pos x => .identifier pos x
  | .dot pos front at_ p => .member pos front.node (.identifier at_ p) false

def dots : Dotted → Nat
  | .name .. => 0
  | .dot _ front .. => front.dots + 1

/-- The name that a dotted name begins with. -/
def root : Dotted → String
  | .name _ x => x
  | .dot _ front .. => front.root

/-- A dotted name and all its fronts, the shortest one first. -/
def fronts : Dotted → List Dotted
  | .name pos x => [.name pos x]
  | .dot pos front at_ p => front.fronts ++ [.dot pos front at_ p]

/-- The member of a value with a name. -/
def memberOf? (h : Heap) (v : Value) (p : String) : Option Value :=
  match holder? h v with
  | some (.named entries) => some (named entries p)
  | _ => none

/-- The value of a dotted name. -/
def value? (h : Heap) (s : ScopeRef) : Dotted → Option Value
  | .name _ x => h.lookup? s x
  | .dot _ front _ p => (front.value? h s).bind (memberOf? h · p)

/-- The name has no dot and is a constant where it is bound. -/
def isConstant (h : Heap) (s : ScopeRef) : Dotted → Bool
  | .name _ x => (h.resolve? s x).any (h.isConstant · x)
  | .dot .. => false

variable {d : Dotted} {m m' : Machine} {h' : Heap} {s : ScopeRef} {fuel : Nat}

theorem self_mem_fronts (d : Dotted) : d ∈ d.fronts := by
  cases d <;> simp [fronts]

theorem dots_le_of_mem {q} (h : q ∈ d.fronts) : q.dots ≤ d.dots := by
  induction d with
  | name pos x => rw [List.mem_singleton.1 h]
  | dot pos front at_ p ih =>
    rcases List.mem_append.1 h with h | h
    · exact Nat.le_succ_of_le (ih h)
    · rw [List.mem_singleton.1 h]

/-- Reading a member by a name where something has members. -/
def readHolder (pos : Pos) (p : String) : Option Holder → Action Value
  | some holder => writtenMember pos holder (some p)
  | none => Action.problem (.noMembers pos)

/-- What reading a member by a name does with the value in front of the dot. -/
def readName (pos : Pos) (p : String) (v : Value) : Action Value := do
  if !hasMembers v then Action.problem (.noMembers pos)
  readHolder pos p (holder? (← Action.heap) v)

theorem readName_run (pos : Pos) (p : String) (v : Value) (m : Machine) :
    ∃ r, readName pos p v m = (r, m) ∧ ∀ w, r = .ok w ↔ memberOf? m.heap v p = some w := by
  unfold readName
  cases hm : hasMembers v with
  | false =>
    have hnone : holder? m.heap v = none := by cases v <;> first | rfl | cases hm
    exact ⟨_, rfl, fun w => by simp [memberOf?, hnone]⟩
  | true =>
    show ∃ r, readHolder pos p (holder? m.heap v) m = (r, m) ∧ _
    unfold memberOf?
    rcases holder? m.heap v with _ | entries | elements | chars
    all_goals exact ⟨_, rfl, fun w => by simp⟩

/-- To read a dotted name changes nothing, and it has a value if reading it gives one. -/
theorem eval_node (d : Dotted) (m : Machine) (s : ScopeRef) (fuel : Nat) (hfuel : 3 * d.dots + 2 ≤ fuel) :
    ∃ r, eval fuel d.node s m = (r, m) ∧ ∀ v, r = .ok v ↔ d.value? m.heap s = some v := by
  induction d generalizing fuel with
  | name pos x =>
    obtain ⟨f, rfl⟩ : ∃ f, fuel = f + 2 := ⟨fuel - 2, by omega⟩
    rw [node, eval_silent, evalNode, Action.consult, Heap.lookup, value?]
    cases m.heap.lookup? s x with
    | none | some w => exact ⟨_, rfl, fun v => by simp⟩
  | dot pos front at_ p ih =>
    rw [dots] at hfuel
    obtain ⟨f, rfl⟩ : ∃ f, fuel = f + 3 := ⟨fuel - 3, by omega⟩
    obtain ⟨r, hr, hvalue⟩ := ih f (by omega)
    have hread : eval (f + 3) (dot pos front at_ p).node s = eval f front.node s >>= readName pos p := by
      rw [node, eval_silent, evalNode, evalMember]
      rfl
    rw [hread, value?]
    cases r with
    | error e =>
      have hnone : front.value? m.heap s = none := by
        refine Option.eq_none_iff_forall_ne_some.2 fun v hv => ?_
        cases (hvalue v).2 hv
      exact ⟨_, Action.bind_of_error hr _, fun v => by simp [hnone]⟩
    | ok w =>
      rw [Action.bind_of_ok hr, (hvalue w).1 rfl]
      exact readName_run pos p w m

/-- The dotted name and all its fronts are objects. -/
def AlongObjects (h : Heap) (s : ScopeRef) (d : Dotted) : Prop :=
  ∀ q ∈ d.fronts, ∃ ref, q.value? h s = some (.object ref)

/-! ## The object that is assigned to -/

/-- The key of a new object, in place of a value that is none. -/
theorem memberKey_fresh (hv : ∀ ref, v ≠ .object ref) (at_ : Pos) (p : String) (h : m.heap.Extends h')
    (hs : h'.scopes = m.heap.scopes) : ∃ i h'', m.heap.Gains i h'' ∧
      memberKey fuel true (.identifier at_ p) s v { m with heap := h' } =
        (.ok (.object (.record i), p), { m with heap := h'' }) := by
  refine ⟨_, _, .newObject h hs, ?_⟩
  cases v with
  | object ref => exact absurd rfl (hv ref)
  | _ => rfl

/-- Along objects, an assignment ends in the object that is read. -/
theorem resolveMember_object (hd : d.AlongObjects m.heap s)
    (href : d.value? m.heap s = some (.object ref)) (at_ : Pos) (p : String) (hfuel : 3 * d.dots + 3 ≤ fuel) :
    resolveMember fuel true d.node (.identifier at_ p) s m = (.ok (.object ref, p), m) := by
  induction d generalizing fuel ref at_ p with
  | name pos x =>
    obtain ⟨f, rfl⟩ : ∃ f, fuel = f + 1 := ⟨fuel - 1, by omega⟩
    obtain ⟨r, hr, hvalue⟩ := eval_node (.name pos x) m s f (by omega)
    rw [(hvalue _).2 href] at hr
    rw [resolveMember_eq, Action.bind_of_ok hr]
    rfl
  | dot pos front at' p' ih =>
    obtain ⟨f, rfl⟩ : ∃ f, fuel = f + 1 := ⟨fuel - 1, by omega⟩
    obtain ⟨r, hr, hvalue⟩ := eval_node (.dot pos front at' p') m s f (by omega)
    rw [(hvalue _).2 href] at hr
    have hfront : front.AlongObjects m.heap s := fun q hq => hd q (List.mem_append_left _ hq)
    obtain ⟨ref', href'⟩ := hfront front front.self_mem_fronts
    have hmember : named (m.heap.fields ref') p' = .object ref := by
      rw [value?, href'] at href
      exact Option.some.inj href
    rw [dots] at hfuel
    rw [resolveMember_eq, Action.bind_of_ok hr]
    show (resolveMember f true front.node (.identifier at' p') s >>= _) m = _
    rw [Action.bind_of_ok (ih hfront href' at' p' (by omega))]
    show memberKey f true (.identifier at_ p) s (named (m.heap.fields ref') p') m = _
    rw [hmember]
    rfl

/-- Where a front is no object, an assignment ends in a new object. -/
theorem resolveMember_fresh (hd : ¬ d.AlongObjects m.heap s) (hv : d.value? m.heap s = some v)
    (at_ : Pos) (p : String) (hfuel : 3 * d.dots + 3 ≤ fuel) : ∃ i h', m.heap.Gains i h' ∧
      resolveMember fuel true d.node (.identifier at_ p) s m =
        (.ok (.object (.record i), p), { m with heap := h' }) := by
  induction d generalizing fuel v at_ p with
  | name pos x =>
    obtain ⟨f, rfl⟩ : ∃ f, fuel = f + 1 := ⟨fuel - 1, by omega⟩
    obtain ⟨r, hr, hvalue⟩ := eval_node (.name pos x) m s f (by omega)
    rw [(hvalue _).2 hv] at hr
    rw [resolveMember_eq, Action.bind_of_ok hr]
    refine memberKey_fresh (fun ref href => hd fun q hq => ⟨ref, ?_⟩) at_ p (.refl _) rfl
    rw [List.mem_singleton.1 hq, hv, href]
  | dot pos front at' p' ih =>
    obtain ⟨f, rfl⟩ : ∃ f, fuel = f + 1 := ⟨fuel - 1, by omega⟩
    obtain ⟨r, hr, hvalue⟩ := eval_node (.dot pos front at' p') m s f (by omega)
    rw [(hvalue _).2 hv] at hr
    obtain ⟨w, hw, hmember⟩ := Option.bind_eq_some_iff.1 hv
    rw [dots] at hfuel
    rw [resolveMember_eq, Action.bind_of_ok hr]
    show ∃ i h', m.heap.Gains i h' ∧ (resolveMember f true front.node (.identifier at' p') s >>= _) m = _
    by_cases hfront : front.AlongObjects m.heap s
    · -- the fronts are objects, so what is read there is none
      obtain ⟨ref', href'⟩ := hfront front front.self_mem_fronts
      rw [Action.bind_of_ok (resolveMember_object hfront href' at' p' (show 3 * front.dots + 3 ≤ f by omega))]
      show ∃ i h', m.heap.Gains i h' ∧ memberKey f true (.identifier at_ p) s (named (m.heap.fields ref') p') m = _
      refine memberKey_fresh (fun ref href => hd fun q hq => ?_) at_ p (.refl _) rfl
      rcases List.mem_append.1 hq with hq | hq
      · exact hfront q hq
      · refine ⟨ref, ?_⟩
        rw [List.mem_singleton.1 hq, value?, href']
        exact congrArg some href
    · -- a new object is empty, so there is nothing to go on with
      obtain ⟨i, h', hgains, hresolve⟩ := ih hfront hw at' p' (show 3 * front.dots + 3 ≤ f by omega)
      rw [Action.bind_of_ok hresolve]
      have hfields : h'.fields (.record i) = .empty := by
        rw [Heap.fields, hgains.empty]
        rfl
      show ∃ j h'', m.heap.Gains j h'' ∧
        memberKey f true (.identifier at_ p) s (named (h'.fields (.record i)) p') { m with heap := h' } = _
      rw [hfields]
      exact memberKey_fresh (fun ref => show Value.null ≠ .object ref by simp) at_ p hgains.kept hgains.scopes

/-- A member is not assigned to if a constant name stands in front of it or the object is frozen. -/
theorem checkAssignable_run (hs : m'.heap.scopes = m.heap.scopes) (hv : d.value? m.heap s = some v)
    (pos : Pos) (ref : ObjectRef) (key : String) : checkAssignable s pos d.node ref key m' =
      (if d.isConstant m.heap s then .error (.failure (.problem (.constantObject d.root pos)))
        else if m'.heap.isFrozen ref then .error (.failure (.problem (.frozenObject key pos))) else .ok (), m') := by
  cases d with
  | name at_ x =>
    obtain ⟨found, hfound, -⟩ := Option.bind_eq_some_iff.1 hv
    have hresolve : Action.consult (·.resolve s x) m' = (.ok found, m') := by
      rw [Action.consult, Heap.resolve, Heap.resolve?_of_scopes hs, hfound]
    have hconstant : m'.heap.isConstant found x = m.heap.isConstant found x := by
      rw [Heap.isConstant, Heap.isConstant, hs]
    simp only [checkAssignable, node, Node.name?, isConstant, hfound, Option.any_some, ← hconstant]
    rw [Action.bind_of_ok hresolve, Action.heap_bind]
    cases m'.heap.isConstant found x with
    | true => rfl
    | false =>
      show (.heap >>= _ : Action Unit) m' = _
      rw [Action.heap_bind]
      cases m'.heap.isFrozen ref <;> rfl
  | dot at_ front at' p =>
    simp only [checkAssignable, node, Node.name?, isConstant]
    rw [Action.heap_bind]
    cases m'.heap.isFrozen ref <;> rfl

/-- What an assignment does with the object that it ends in. -/
theorem evalAssignment_run {e m1 m2 p at_} (he : eval fuel e s m = (.ok v, m1))
    (hr : resolveMember fuel true d.node (.identifier at_ p) s m1 = (.ok (.object ref, p), m2)) (pos dotPos : Pos) :
    eval (fuel + 3) (.assignment pos (Dotted.dot dotPos d at_ p).node e none) s m = (do
        checkAssignable s pos d.node ref p
        Action.modifyHeap (·.setField ref p v)
        return v : Action Value) m2 := by
  rw [eval_silent, evalNode, evalAssignment, Action.bind_of_ok he]
  show (resolveMember fuel true d.node (.identifier at_ p) s >>= _ : Action Value) m1 = _
  rw [Action.bind_of_ok hr]
  rfl

/-- What is read of an object through any name, after one of its fields has been set. -/
theorem eval_of_setsField {q} {h : Heap} {p} (hsets : h.SetsField p v m.heap ref) (hfuel : 3 * q.dots + 5 ≤ fuel)
    (hq : (eval fuel q.node s m).1 = .ok (.object ref)) (pos at_ : Pos) :
    (eval fuel (Dotted.dot pos q at_ p).node s m).1 = .ok v := by
  obtain ⟨r, hr, hvalue⟩ := eval_node q m s fuel (by omega)
  obtain ⟨r', hr', hvalue'⟩ := eval_node (.dot pos q at_ p) m s fuel (by rw [dots]; omega)
  rw [hr] at hq
  rw [hr', hvalue' v, value?, (hvalue _).1 hq]
  show some (named (m.heap.fields ref) p) = some v
  rw [hsets.fields, named, Table.get?_insert, if_pos rfl]
  rfl

end Dotted

/-- The second machine has all cells of the first one, with the same contents, and differs in nothing but new cells. -/
def Untouched (m m' : Machine) : Prop := ∃ h, m.heap.Extends h ∧ m' = { m with heap := h }

/-- An assignment to a member `p` of a dotted name that can be read. A constant without a dot is not assigned to.
Otherwise, if the name and all its fronts are objects, the field is set in the object that is read, unless that is
frozen; the new value is read through every name of the object, and nothing else is changed. If one of them is no
object, the assignment has its value and changes nothing. -/
theorem dotted_assignment (d : Dotted) (p : String) (e : Node) (s : ScopeRef) (m m₁ : Machine) (v w : Value)
    (pos dotPos at_ : Pos) (fuel : Nat) (hfuel : 3 * d.dots + 3 ≤ fuel) (he : eval fuel e s m = (.ok v, m₁))
    (hd : (eval fuel d.node s m₁).1 = .ok w)
    (after : Except Signal Value × Machine)
    (hafter : after = eval (fuel + 3) (.assignment pos (Dotted.dot dotPos d at_ p).node e none) s m) :
    (d.isConstant m₁.heap s = true →
      after.1 = .error (.failure (.problem (.constantObject d.root pos))) ∧ Untouched m₁ after.2) ∧
    (d.isConstant m₁.heap s = false → ((∀ q ∈ d.fronts, ∃ ref, (eval fuel q.node s m₁).1 = .ok (.object ref)) →
        ∃ ref, w = .object ref ∧
          (m₁.heap.isFrozen ref = true → after = (.error (.failure (.problem (.frozenObject p pos))), m₁)) ∧
          (m₁.heap.isFrozen ref = false → (Cell.object ref).IsIn m₁.heap →
            ∃ h, after = (.ok v, { m₁ with heap := h }) ∧ m₁.heap.SetsField p v h ref ∧
              ∀ (q : Dotted) (s' : ScopeRef) (fuel' : Nat), 3 * q.dots + 5 ≤ fuel' →
                (eval fuel' q.node s' after.2).1 = .ok (.object ref) →
                (eval fuel' (Dotted.dot dotPos q at_ p).node s' after.2).1 = .ok v)) ∧
      (¬ (∀ q ∈ d.fronts, ∃ ref, (eval fuel q.node s m₁).1 = .ok (.object ref)) →
        after.1 = .ok v ∧ Untouched m₁ after.2)) := by
  have hvalue q (hq : q ∈ d.fronts) x : (eval fuel q.node s m₁).1 = .ok x ↔ q.value? m₁.heap s = some x := by
    have hle := Dotted.dots_le_of_mem hq
    obtain ⟨r, hr, hr'⟩ := q.eval_node m₁ s fuel (by omega)
    rw [hr]
    exact hr' x
  have hw := (hvalue d d.self_mem_fronts w).1 hd
  have halong : (∀ q ∈ d.fronts, ∃ ref, (eval fuel q.node s m₁).1 = .ok (.object ref)) ↔ d.AlongObjects m₁.heap s :=
    forall₂_congr fun q hq => exists_congr fun ref => hvalue q hq _
  rw [halong]
  by_cases hobjects : d.AlongObjects m₁.heap s
  · obtain ⟨ref, href⟩ := hobjects d d.self_mem_fronts
    have hrun := Dotted.evalAssignment_run he (Dotted.resolveMember_object hobjects href at_ p hfuel) pos dotPos
    have hcheck := Dotted.checkAssignable_run (rfl) hw pos ref p
    have heq : w = .object ref := Option.some.inj (hw.symm.trans href)
    rw [← hafter] at hrun
    refine ⟨fun hconstant => ?_, fun hconstant => ⟨fun _ => ⟨ref, heq, fun hfrozen => ?_, fun hfrozen hin => ?_⟩,
      (absurd hobjects)⟩⟩
    · rw [if_pos hconstant] at hcheck
      rw [hrun, Action.bind_of_error hcheck]
      exact ⟨rfl, _, .refl _, rfl⟩
    · rw [if_neg (by simp [hconstant]), if_pos hfrozen] at hcheck
      rw [hrun, Action.bind_of_error hcheck]
    · rw [if_neg (by simp [hconstant]), if_neg (by simp [hfrozen])] at hcheck
      rw [Action.bind_of_ok hcheck] at hrun
      have hsets := Heap.setsField_setField hin p v
      refine ⟨m₁.heap.setField ref p v, hrun, hsets, fun q s' fuel' hfuel' hq => ?_⟩
      rw [hrun] at hq ⊢
      exact Dotted.eval_of_setsField hsets hfuel' hq dotPos at_
  · obtain ⟨i, h, hgains, hresolve⟩ := Dotted.resolveMember_fresh hobjects hw at_ p hfuel
    have hrun := Dotted.evalAssignment_run he hresolve pos dotPos
    have hcheck := Dotted.checkAssignable_run
      (show Heap.scopes (heap { m₁ with heap := h }) = m₁.heap.scopes from hgains.scopes) hw pos (.record i) p
    have hfrozen : h.isFrozen (.record i) = false := by
      rw [Heap.isFrozen, hgains.empty]
      rfl
    rw [← hafter] at hrun
    refine ⟨fun hconstant => ?_, fun hconstant => ⟨fun hall => absurd hall hobjects, fun _ => ?_⟩⟩
    · rw [if_pos hconstant] at hcheck
      rw [hrun, Action.bind_of_error hcheck]
      exact ⟨rfl, h, hgains.kept, rfl⟩
    · rw [if_neg (by simp [hconstant]), if_neg (by simp [hfrozen])] at hcheck
      rw [hrun, Action.bind_of_ok hcheck]
      exact ⟨rfl, _, hgains.setField p v, rfl⟩

/-- An object in a field of another one. -/
def nestedObjects : Heap where
  scopes := #[⟨none, ⟨[("o", .object (.record 0))]⟩, [], false⟩]
  arrays := #[]
  records := #[⟨⟨[("a", .object (.record 1))]⟩, false⟩, ⟨.empty, false⟩]
  closures := #[]
  classes := #[]
  enums := #[]
  nextStamp := 1

/-- The assignment `o.a.b = "new"` sets a field of the inner object. -/
theorem dotted_assignment_nested : ∃ h, eval 12 (.assignment .zero
      (Dotted.dot .zero (.dot .zero (.name .zero "o") .zero "a") .zero "b").node
      (.string .zero "new") none) 0 ⟨nestedObjects, Session.plainWorld, ""⟩ =
        (.ok (.str "new"), ⟨h, Session.plainWorld, ""⟩) ∧
      nestedObjects.SetsField "b" (.str "new") h (.record 1) := by
  have hvalue (d : Dotted) w (hd : d.dots ≤ 1) (hw : d.value? nestedObjects 0 = some w) :
      (eval 9 d.node 0 ⟨nestedObjects, Session.plainWorld, ""⟩).1 = .ok w := by
    obtain ⟨r, hr, hiff⟩ := d.eval_node ⟨nestedObjects, Session.plainWorld, ""⟩ 0 9 (by omega)
    rw [hr]
    exact (hiff w).2 hw
  have hall : ∀ q ∈ (Dotted.dot .zero (.name .zero "o") .zero "a").fronts,
      ∃ ref, (eval 9 q.node 0 ⟨nestedObjects, Session.plainWorld, ""⟩).1 = .ok (.object ref) := by
    intro q hq
    rcases List.mem_pair.1 hq with rfl | rfl
    · exact ⟨.record 0, hvalue _ _ (by decide) (by decide +kernel)⟩
    · exact ⟨.record 1, hvalue _ _ (by decide) (by decide +kernel)⟩
  have hspec := dotted_assignment (.dot .zero (.name .zero "o") .zero "a") "b" (.string .zero "new") 0
    ⟨nestedObjects, Session.plainWorld, ""⟩ ⟨nestedObjects, Session.plainWorld, ""⟩ (.str "new") (.object (.record 1))
    .zero .zero .zero 9 (by decide) (by rw [eval_silent, evalNode]; rfl)
    (hvalue _ _ (by decide) (by decide +kernel)) _ rfl
  obtain ⟨ref, href, -, hset⟩ := (hspec.2 (by decide +kernel)).1 hall
  cases href
  obtain ⟨h, heval, hsets, -⟩ := hset (by decide +kernel) (show 1 < 2 by decide)
  exact ⟨h, heval, hsets⟩

end SmallScript.Evaluate
