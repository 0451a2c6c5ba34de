import SmallScript.Proofs.Machine.Reading

/-!
# Actions in step

`Sim b R f g` says that the actions `f` and `g`, begun on the two machines of the bridge `b`, end on the
two machines of a later bridge, with results that are related by `R` or with linked signals.

There is one rule for each way to build an action. What a program does to the heap goes through
`Sim.allocate` and `Sim.update`, what it does to its surroundings through `Sim.affect`; a program can
neither end the process nor use up input, as the signals of these are linked with none.
-/

namespace SmallScript.Machine

open Value (ScopeRef ObjectRef modules)
open Data (Table)
open Number (Numeric NumberFault)
open Syntax (Node)
open Action Heap Bridge

variable {v v' : Value} {t t' : Table Value} {i j : Nat}

variable {s s' : ScopeRef}

/-- Failures other than the end of the process and those of reading input. -/
def Failure.isContained : Failure → Bool
  | .exit _ | .endOfInput | .interrupt => false
  | _ => true

inductive SignalLink (ρ : Link) : Signal → Signal → Prop where
  | failure (f : Failure) (h : f.isContained = true) : SignalLink ρ (.failure f) (.failure f)
  | ret {v v' : Value} (h : ValueLink ρ v v') : SignalLink ρ (.ret v) (.ret v')
  | brk : SignalLink ρ .brk .brk
  | cont : SignalLink ρ .cont .cont

inductive ResultLink (ρ : Link) {α α' : Type} (R : α → α' → Prop) :
    Except Signal α → Except Signal α' → Prop where
  | ok {a : α} {a' : α'} (h : R a a') : ResultLink ρ R (.ok a) (.ok a')
  | error {e e' : Signal} (h : SignalLink ρ e e') : ResultLink ρ R (.error e) (.error e')

/-- The relation of results that are no references. -/
def Same {α : Type} (_ : Link) (a a' : α) : Prop := a = a'

def ScopeLink (ρ : Link) (s s' : ScopeRef) : Prop := ρ .scope s s'

/-- Two actions go from a bridge to a later one. -/
def Sim {β : Base} (b : Bridge β) {α α' : Type} (R : Link → α → α' → Prop) (f : Action α)
    (g : Action α') : Prop :=
  ∃ (b' : Bridge β) (r : Except Signal α) (r' : Except Signal α'), b ≤ b' ∧
    f b.left = (r, b'.left) ∧ g b.right = (r', b'.right) ∧ ResultLink b'.link (R b'.link) r r'

namespace Action

variable {α γ : Type} {f : Action α} {m m' : Machine}

theorem bind_of_ok {a} (h : f m = (.ok a, m')) (k : α → Action γ) : (f >>= k) m = k a m' := by
  show ExceptT.bindCont k (f m).1 (f m).2 = k a m'
  rw [h]
  rfl

theorem heap_bind (k : Heap → Action γ) : (heap >>= k) m = k m.heap m := rfl

theorem bind_of_error {e} (h : f m = (.error e, m')) (k : α → Action γ) : (f >>= k) m = (.error e, m') := by
  show ExceptT.bindCont k (f m).1 (f m).2 = (.error e, m')
  rw [h]
  rfl

theorem attempt_of_eq {r} (h : f m = (r, m')) : attempt f m = (.ok r, m') := by
  simp only [attempt, h]

end Action

namespace Sim

open Machine.Action

variable {β : Base} {b : Bridge β} {α α' γ γ' : Type} {R : Link → α → α' → Prop}
  {S : Link → γ → γ' → Prop} {f f0 : Action α} {g g0 : Action α'}

/-! ## Pure actions and sequences -/

theorem pure {a a'} (h : R b.link a a') : Sim b R (Pure.pure a) (Pure.pure a') :=
  ⟨b, .ok a, .ok a', le_refl b, rfl, rfl, .ok h⟩

theorem throw {e e'} (h : SignalLink b.link e e') :
    Sim b R (MonadExcept.throw e : Action α) (MonadExcept.throw e' : Action α') :=
  ⟨b, .error e, .error e', le_refl b, rfl, rfl, .error h⟩

theorem fail (e : Failure) (h : e.isContained = true) : Sim b R (Action.fail e) (Action.fail e) := throw (.failure e h)

theorem problem (p : Problem) : Sim b R (Action.problem p) (Action.problem p) := fail (.problem p) rfl

theorem problem_bind (p : Problem) (k : α → Action γ) (k' : α' → Action γ') :
    Sim b S (Action.problem p >>= k) (Action.problem p >>= k') :=
  ⟨b, _, _, le_refl b, rfl, rfl, .error (.failure (.problem p) rfl)⟩

theorem congr (hf : f b.left = f0 b.left) (hg : g b.right = g0 b.right) (h : Sim b R f0 g0) : Sim b R f g := by
  obtain ⟨b', r, r', hb, hl, hr, hR⟩ := h
  exact ⟨b', r, r', hb, hf.trans hl, hg.trans hr, hR⟩

theorem bind (h : Sim b R f g) {k k'} (hk : ∀ b', b ≤ b' → ∀ a a', R b'.link a a' → Sim b' S (k a) (k' a')) :
    Sim b S (f >>= k) (g >>= k') := by
  obtain ⟨b', r, r', hb, hl, hr, hR⟩ := h
  cases hR with
  | error he => exact ⟨b', _, _, hb, bind_of_error hl k, bind_of_error hr k', .error he⟩
  | ok ha =>
    obtain ⟨b'', q, q', hb', hl', hr', hS⟩ := hk b' hb _ _ ha
    exact ⟨b'', q, q', hb.trans hb', (bind_of_ok hl k).trans hl', (bind_of_ok hr k').trans hr', hS⟩

theorem bindSame {f g : Action α} (h : Sim b Same f g) {k : α → Action γ} {k'}
    (hk : ∀ b', b ≤ b' → ∀ a, Sim b' S (k a) (k' a)) : Sim b S (f >>= k) (g >>= k') := by
  refine h.bind fun b' hb a a' ha => ?_
  cases ha
  exact hk b' hb a

theorem attempt (h : Sim b R f g) : Sim b (fun ρ => ResultLink ρ (R ρ)) (Action.attempt f) (Action.attempt g) := by
  obtain ⟨b', r, r', hb, hl, hr, hR⟩ := h
  exact ⟨b', _, _, hb, attempt_of_eq hl, attempt_of_eq hr, .ok hR⟩

/-- Actions that run in lists. -/
theorem mapM {ι : Type} {as as' : List ι} {Q : ι → ι → Prop} {F : ι → Action α} {G}
    (hR : ∀ {ρ ρ' : Link}, ρ ≤ ρ' → ∀ {a a'}, R ρ a a' → R ρ' a a') (hs : List.Forall₂ Q as as')
    (h : ∀ b', b ≤ b' → ∀ a a', Q a a' → Sim b' R (F a) (G a')) :
    Sim b (fun ρ => List.Forall₂ (R ρ)) (as.mapM F) (as'.mapM G) := by
  induction hs generalizing b with
  | nil => exact .pure .nil
  | cons ha _ ih =>
    rw [List.mapM_cons, List.mapM_cons]
    refine (h b (le_refl b) _ _ ha).bind fun b1 h1 v v' hv => ?_
    refine (ih fun b' hb => h b' (h1.trans hb)).bind fun b2 h2 vs vs' hvs => ?_
    exact .pure (.cons (hR h2.links hv) hvs)

/-! ## Reading -/

theorem heap {k k'}
    (h : Sim b S (k b.left.heap) (k' b.right.heap)) : Sim b S (Action.heap >>= k) (Action.heap >>= k') :=
  congr (bind_of_ok rfl k) (bind_of_ok rfl k') h

theorem world {k k'} (h : Sim b S (k b.left.world) (k' b.right.world)) :
    Sim b S (Action.world >>= k) (Action.world >>= k') :=
  congr (bind_of_ok rfl k) (bind_of_ok rfl k') h

theorem ofNumber {r : Except NumberFault α} : Sim b Same (Action.ofNumber r) (Action.ofNumber r) := by
  cases r with
  | ok a => exact .pure rfl
  | error e => exact .fail _ rfl

/-- Both actions give what is found under a name. -/
theorem consult {F G o o' p} (h : Option.Rel (R b.link) o o') (hF : F b.left.heap = o.elim (.error p) .ok)
    (hG : G b.right.heap = o'.elim (.error p) .ok) : Sim b R (Action.consult F) (Action.consult G) := by
  cases h with
  | none => exact congr (by rw [Action.consult, hF]; rfl) (by rw [Action.consult, hG]; rfl) (problem p)
  | some h => exact congr (by rw [Action.consult, hF]; rfl) (by rw [Action.consult, hG]; rfl) (pure h)

theorem lookup (hs : b.link .scope s s') (name : String) :
    Sim b ValueLink (Action.consult (·.lookup s name)) (Action.consult (·.lookup s' name)) :=
  consult (lookup?_rel name hs) (by rw [Heap.lookup]; cases b.left.heap.lookup? s name <;> rfl)
    (by rw [Heap.lookup]; cases b.right.heap.lookup? s' name <;> rfl)

theorem resolve (hs : b.link .scope s s') (name : String) :
    Sim b ScopeLink (Action.consult (·.resolve s name)) (Action.consult (·.resolve s' name)) :=
  consult (resolve?_rel name hs) (by rw [Heap.resolve]; cases b.left.heap.resolve? s name <;> rfl)
    (by rw [Heap.resolve]; cases b.right.heap.resolve? s' name <;> rfl)

/-! ## New cells -/

theorem allocate {F G c c'}
    (hl : b.left.heap.Allocates c (F b.left.heap).2) (hr : b.right.heap.Allocates c' (G b.right.heap).2)
    (hc : ContentLink b.link (b.left.heap.count c.kind) (b.right.heap.count c.kind) c c')
    (hR : ∀ ρ, ρ c.kind (b.left.heap.count c.kind) (b.right.heap.count c.kind) →
      R ρ (F b.left.heap).1 (G b.right.heap).1) :
    Sim b R (Action.onHeap F) (Action.onHeap G) :=
  ⟨b.allocate hl hr hc, .ok (F b.left.heap).1, .ok (G b.right.heap).1, le_allocate hl hr hc, rfl,
    rfl, .ok (hR _ (link_allocate hl hr hc))⟩

theorem newArray {a a'} (h : ValuesLink b.link a.toList a'.toList) :
    Sim b ValueLink (Action.onHeap (·.newArray a)) (Action.onHeap (·.newArray a')) :=
  allocate (newArray_allocates _ a) (newArray_allocates _ a') (.array h) fun _ hρ => .array hρ

theorem array {vs vs'} (h : ValuesLink b.link vs vs') : Sim b ValueLink (Action.array vs) (Action.array vs') :=
  newArray h

theorem newObject (h : TableLink b.link t t') :
    Sim b ValueLink (Action.onHeap (·.newObject t false)) (Action.onHeap (·.newObject t' false)) := by
  have hl := le_trans β.modulesLeft (b.left_count_le .record)
  have hr := le_trans β.modulesRight (b.right_count_le .record)
  refine allocate (newObject_allocates _ t false) (newObject_allocates _ t' false)
    (.record h rfl (fun hi => ?_) fun hj => ?_) fun _ hρ => .object (.record hρ)
  · exact absurd hi (not_lt.2 hl)
  · exact absurd hj (not_lt.2 hr)

theorem object {es es'} (h : EntriesLink b.link es es') : Sim b ValueLink (Action.object es) (Action.object es') :=
  newObject (.ofList h)

theorem newClosure (name : String) (params : List String) (hs : b.link .scope s s') (body : List Node) :
    Sim b ValueLink (Action.onHeap (·.newClosure ⟨name, params, s, body⟩))
      (Action.onHeap (·.newClosure ⟨name, params, s', body⟩)) :=
  allocate (newClosure_allocates _ _) (newClosure_allocates _ _) (.closure rfl rfl hs rfl) fun _ hρ => .func hρ

theorem newClass (name : String) (h : TableLink b.link t t')
    (params : Option (List String)) : Sim b ValueLink (Action.onHeap (·.newClass ⟨name, t, params⟩))
      (Action.onHeap (·.newClass ⟨name, t', params⟩)) :=
  allocate (newClass_allocates _ _) (newClass_allocates _ _) (.cls rfl h rfl) fun _ hρ => .cls hρ

theorem newEnum (name : String) (h : TableLink b.link t t') :
    Sim b ValueLink (Action.onHeap (·.newEnum ⟨name, t⟩)) (Action.onHeap (·.newEnum ⟨name, t'⟩)) :=
  allocate (newEnum_allocates _ _) (newEnum_allocates _ _) (.enum rfl h) fun _ hρ => .enum hρ

/-- A new scope is guarded as the one around it. -/
theorem newScope (hs : b.link .scope s s') :
    Sim b ScopeLink (Action.onHeap (·.newScope s)) (Action.onHeap (·.newScope s')) := by
  have hi : s < b.left.heap.count .scope := hs.2
  have hj : s' < b.right.heap.count .scope := by
    obtain ⟨_, _, _, ha', _⟩ := b.linked.content hs
    exact lt_count_of_content? ha'
  refine allocate (pushScope_allocates _ _) (pushScope_allocates _ _)
    (.scope (.some hs hi hj) .empty rfl ?_ ?_) fun _ => id
  · exact isGuarded_left hs
  · exact isGuarded_right hs

/-- A number, with a new stamp if it is none. -/
theorem number (n : Numeric) : Sim b ValueLink (Action.number n) (Action.number n) := by
  cases hn : n.isNaN with
  | false =>
    refine congr ?_ ?_ (pure (.num n b.stamp_zero))
    · simp only [Action.number, newNumber, hn]; rfl
    · simp only [Action.number, onHeap, newNumber, hn]; rfl
  | true =>
    have hnew : (fun h : Heap => h.newNumber n) =
        fun h => (.num n h.nextStamp, { h with nextStamp := h.nextStamp + 1 }) := by
      funext h
      simp only [newNumber, hn, if_true]
    unfold Action.number
    rw [hnew]
    exact allocate (nextStamp_allocates _) (nextStamp_allocates _) .stamp fun _ hρ => .num n hρ

theorem numberOf (r : Except NumberFault Numeric) : Sim b ValueLink (Action.numberOf r) (Action.numberOf r) := by
  exact ofNumber.bindSame fun b1 _ n => number n

/-! ## Changed cells -/

/-- Both actions change a cell of a pair; it is no module. -/
theorem update {F G k} (hp : b.link k i j) {c c'}
    (hl : b.left.heap.Updates k i c (F b.left.heap)) (hr : b.right.heap.Updates k j c' (G b.right.heap))
    (hc : ContentLink b.link i j c c') (hm : k = .record → modules.length ≤ i ∧ modules.length ≤ j) :
    Sim b Same (modifyHeap F) (modifyHeap G) :=
  ⟨b.update hp hl hr hc hm, .ok (), .ok (), le_update hp hl hr hc hm, rfl, rfl, .ok rfl⟩

theorem bindName (hs : b.link .scope s s') (name : String) (hv : ValueLink b.link v v') :
    Sim b Same (modifyHeap (·.bind s name v)) (modifyHeap (·.bind s' name v')) := by
  obtain ⟨a, a', ha, ha', hl⟩ := scopes_link hs
  cases hl with
  | scope parent vars constants left right =>
    exact update hs (modifyScope_updates ha _) (modifyScope_updates ha' _)
      (.scope parent (vars.insert name hv) constants left right) nofun

theorem addConstant (hs : b.link .scope s s') (name : String) :
    Sim b Same (modifyHeap (·.addConstant s name)) (modifyHeap (·.addConstant s' name)) := by
  obtain ⟨a, a', ha, ha', hl⟩ := scopes_link hs
  cases hl with
  | scope parent vars constants left right =>
    exact update hs (modifyScope_updates ha _) (modifyScope_updates ha' _)
      (.scope parent vars (by simp only [constants]) left right) nofun

theorem unbind (hs : b.link .scope s s') (name : String) :
    Sim b Same (modifyHeap (·.unbind s name)) (modifyHeap (·.unbind s' name)) := by
  obtain ⟨a, a', ha, ha', hl⟩ := scopes_link hs
  cases hl with
  | scope parent vars constants left right =>
    exact update hs (modifyScope_updates ha _) (modifyScope_updates ha' _)
      (.scope parent (vars.erase name) (by simp only [constants]) left right) nofun

theorem scoping_problem {F G p} (hF : F b.left.heap = .error p)
    (hG : G b.right.heap = .error p) : Sim b Same (Action.scoping F) (Action.scoping G) :=
  congr (by rw [scoping, hF]; rfl) (by rw [scoping, hG]; rfl) (problem p)

theorem scoping_ok {F G F' G'} (hF : F b.left.heap = .ok (F' b.left.heap))
    (hG : G b.right.heap = .ok (G' b.right.heap)) (h : Sim b Same (modifyHeap F') (modifyHeap G')) :
    Sim b Same (Action.scoping F) (Action.scoping G) :=
  congr (by rw [scoping, hF]; rfl) (by rw [scoping, hG]; rfl) h

theorem declare (hs : b.link .scope s s') (name : String) (hv : ValueLink b.link v v') (constant overwrite : Bool) :
    Sim b Same (Action.scoping (·.declare s name v constant overwrite))
      (Action.scoping (·.declare s' name v' constant overwrite)) := by
  have hb := bindsHere_eq hs name
  cases hd : b.right.heap.bindsHere s' name && !overwrite with
  | true => exact scoping_problem (by rw [Heap.declare, hb, hd]; rfl) (by rw [Heap.declare, hd]; rfl)
  | false =>
    cases constant with
    | false => exact scoping_ok (by rw [Heap.declare, hb, hd]; rfl) (by rw [Heap.declare, hd]; rfl) (bindName hs name hv)
    | true =>
      refine congr ?_ ?_ ((bindName hs name hv).bind fun _ h1 _ _ _ => addConstant (h1.link hs) name)
      · rw [scoping, Heap.declare, hb, hd]; rfl
      · rw [scoping, Heap.declare, hd]; rfl

theorem assign (hs : b.link .scope s s') (name : String) (hv : ValueLink b.link v v') (overwrite : Bool) :
    Sim b Same (Action.scoping (·.assign s name v overwrite)) (Action.scoping (·.assign s' name v' overwrite)) := by
  have h := resolve?_rel name hs
  generalize ho : b.left.heap.resolve? s name = o, ho' : b.right.heap.resolve? s' name = o' at h
  cases h with
  | none => exact scoping_problem (by rw [Heap.assign, Heap.resolve, ho]; rfl) (by rw [Heap.assign, Heap.resolve, ho']; rfl)
  | @some found found' hf =>
    have hc := isConstant_eq hf name
    cases hd : b.right.heap.isConstant found' name && !overwrite with
    | true =>
      refine scoping_problem (p := .constantVariable name) ?_ ?_
      · simp only [Heap.assign, Heap.resolve, ho, Except.bind, Bind.bind, hc, hd]; rfl
      · simp only [Heap.assign, Heap.resolve, ho', Except.bind, Bind.bind, hd]; rfl
    | false =>
      refine scoping_ok ?_ ?_ (bindName hf name hv)
      · simp only [Heap.assign, Heap.resolve, ho, Except.bind, Bind.bind, hc, hd]; rfl
      · simp only [Heap.assign, Heap.resolve, ho', Except.bind, Bind.bind, hd]; rfl

theorem delete (hs : b.link .scope s s') (name : String) :
    Sim b Same (Action.scoping (·.delete s name)) (Action.scoping (·.delete s' name)) := by
  have hb := bindsHere_eq hs name
  cases hd : b.right.heap.bindsHere s' name with
  | true => exact scoping_ok (by rw [Heap.delete, hb, hd]; rfl) (by rw [Heap.delete, hd]; rfl) (unbind hs name)
  | false => exact scoping_problem (by rw [Heap.delete, hb, hd]; rfl) (by rw [Heap.delete, hd]; rfl)

theorem setField {r r'} (hr : RefLink b.link r r') (ha : Assignable r ∧ Assignable r')
    (name : String) (hv : ValueLink b.link v v') :
    Sim b Same (modifyHeap (·.setField r name v)) (modifyHeap (·.setField r' name v')) := by
  cases hr with
  | scope hs => exact bindName hs name hv
  | record hs =>
    obtain ⟨a, a', hi, hj, hl⟩ := records_link hs
    cases hl with
    | record fields frozen left right =>
      exact update hs (setField_record_updates hi name v) (setField_record_updates hj name v')
        (.record (fields.insert name hv) frozen left right) fun _ => ha

theorem modifyArray (h : b.link .array i j) {F G}
    (hF : ∀ a a', ValuesLink b.link a.toList a'.toList → ValuesLink b.link (F a).toList (G a').toList) :
    Sim b Same (modifyHeap fun h => { h with arrays := h.arrays.modify i F })
      (modifyHeap fun h => { h with arrays := h.arrays.modify j G }) := by
  obtain ⟨a, a', ha, ha', hl⟩ := arrays_link h
  cases hl with
  | array elements =>
    exact update h (modifyArray_updates ha F) (modifyArray_updates ha' G) (.array (hF a a' elements)) nofun

theorem setElements (h : b.link .array i j) {a a'} (ha : ValuesLink b.link a.toList a'.toList) :
    Sim b Same (modifyHeap (·.setElements i a)) (modifyHeap (·.setElements j a')) := by
  exact modifyArray h fun _ _ _ => ha

/-! ## The surroundings -/

/-- Both surroundings undergo the same effects. -/
theorem affect {F G} (e : Effects) (hF : F b.left.world = e.on b.left.world)
    (hG : G b.right.world = e.on b.right.world) :
    Sim b Same (Action.modifyWorld F) (Action.modifyWorld G) :=
  ⟨b.affect e, .ok (), .ok (), le_affect e, by simp only [modifyWorld, hF]; rfl,
    by simp only [modifyWorld, hG]; rfl, .ok rfl⟩

theorem printLine (text : String) : Sim b Same (Action.printLine text) (Action.printLine text) :=
  affect ⟨text ++ "\n", [], []⟩ rfl rfl

end Sim

end SmallScript.Machine
