import SmallScript.Proofs.Evaluate.Dotted
import SmallScript.Proofs.Session.Calls

/-!
# Members that are assigned to and read again

An assignment to a member and an access to it find their object and their key in different ways. The assignment goes along
the names as they are written, also between brackets, and along the text of everything else that stands there; it puts a new
empty object in the place of whatever is no object. The access takes the values of the objects and of the keys.

So a member has the value that was assigned to it if both find the same object and the same key, and otherwise it has
the value that it had before: `member_assignment_read`.
-/

namespace SmallScript.Machine.Heap

open Value (ObjectRef)
open Data (Table)

/-- The heap with some new empty objects. -/
def withBlanks (h : Heap) (n : Nat) : Heap := { h with records := h.records ++ Array.replicate n ⟨.empty, false⟩ }

variable {h : Heap}

theorem withBlanks_zero : h.withBlanks 0 = h := by
  simp [withBlanks]

theorem newObject_withBlanks (n : Nat) : (h.withBlanks n).newObject .empty false =
    (.object (.record (h.records.size + n)), h.withBlanks (n + 1)) := by
  simp [withBlanks, newObject, Array.replicate_succ, ← Array.push_append]

theorem fields_withBlanks (n : Nat) (ref : ObjectRef) : (h.withBlanks n).fields ref = h.fields ref := by
  cases ref with
  | scope s => rfl
  | record i =>
    simp only [withBlanks, fields, Array.getElem?_append, Array.getElem?_replicate]
    split
    · rfl
    · next hi =>
      rw [Array.getElem?_eq_none (Nat.le_of_not_lt hi)]
      split <;> rfl

/-- A field that is set is one field of one object. -/
theorem get?_fields_setField {ref r key k} (hne : ¬ (r = ref ∧ k = key)) (v : Value) :
    ((h.setField ref key v).fields r).get? k = (h.fields r).get? k := by
  cases r with
  | record i =>
    cases ref with
    | scope s => rfl
    | record j =>
      simp only [setField, fields, Array.getElem?_modify]
      split
      · next hij =>
        subst hij
        cases h.records[j]? with
        | none => rfl
        | some record => exact (Table.get?_insert ..).trans (if_neg fun hk => hne ⟨rfl, hk⟩)
      · rfl
  | scope s =>
    cases ref with
    | record j => rfl
    | scope s' =>
      simp only [setField, bind, modifyScope, fields, Array.getElem?_modify]
      split
      · next hij =>
        subst hij
        cases h.scopes[s']? with
        | none => rfl
        | some scope => exact (Table.get?_insert ..).trans (if_neg fun hk => hne ⟨rfl, hk⟩)
      · rfl

end SmallScript.Machine.Heap

namespace SmallScript.Evaluate

open Machine Syntax
open Value (ScopeRef ObjectRef)

variable {computed : Bool}

/-! ## What is written -/

/-- To evaluate the expression changes nothing, whatever the machine. -/
def Quiet (s : ScopeRef) (n : Node) : Prop := ∀ fuel m, (eval fuel n s m).2 = m

/-- The expression is quiet, and so are the objects and the properties of which it is a member. -/
def QuietAlong (s : ScopeRef) : Node → Prop
  | .member pos outer inner computed => Quiet s (.member pos outer inner computed) ∧ QuietAlong s outer ∧ Quiet s inner
  | n => Quiet s n

/-- The key that a property is written under: a name as it stands, and of anything else the text of its value, which is
never that value itself. -/
inductive WritesKey (s : ScopeRef) (m : Machine) (property : Node) : String → Prop where
  | name {name : String} (h : property.name? = some name) : WritesKey s m property name
  | text {fuel : Nat} {k : Value} {key : String} (h : property.name? = none) (hk : eval fuel property s m = (.ok k, m))
    (hkey : Action.inspect k m = (.ok key, m)) (hne : k ≠ .str key) : WritesKey s m property key

/-- What an assignment finds for an object: its value, or along the written keys what the field of an object is. There is
nothing in a new object. -/
inductive Finds (s : ScopeRef) (m : Machine) : Node → Value → Prop where
  | value {n : Node} {fuel : Nat} {v : Value} (hn : ∀ pos outer inner computed, n ≠ .member pos outer inner computed)
    (h : eval fuel n s m = (.ok v, m)) : Finds s m n v
  | field {pos : Pos} {outer inner : Node} {computed : Bool} {ref : ObjectRef} {key : String}
    (h : Finds s m outer (.object ref)) (hkey : WritesKey s m inner key) :
    Finds s m (.member pos outer inner computed) (named (m.heap.fields ref) key)
  | nothing {pos : Pos} {outer inner : Node} {computed : Bool} {v : Value} (h : Finds s m outer v)
    (hv : ∀ ref, v ≠ .object ref) : Finds s m (.member pos outer inner computed) .null

/-- The object that is assigned to: the one that was found, or a new one. -/
inductive Lands (m : Machine) (v : Value) : ObjectRef → Machine → Prop where
  | found {ref : ObjectRef} (h : v = .object ref) : Lands m v ref m
  | fresh (h : ∀ ref, v ≠ .object ref) (n : Nat) :
    Lands m v (.record (m.heap.records.size + n)) { m with heap := m.heap.withBlanks (n + 1) }

section

variable {s : ScopeRef} {m m₂ : Machine} {object property : Node} {fuel : Nat} {holder v : Value} {key : String}

/-- What an access does with the value of its object and, between brackets, with that of its key. -/
def access (pos : Pos) (property : Node) (computed : Bool) (k x : Value) : Action Value := do
  if !hasMembers x then Action.problem (.noMembers pos)
  match holder? (← Action.heap) x with
  | some holder => if computed then computedMember pos holder k else writtenMember pos holder property.name?
  | none => Action.problem (.noMembers pos)

/-- The key that an access looks for. -/
def accessKey (property : Node) (computed : Bool) (k : Value) : Option String :=
  if computed then (match k with | .str key => some key | _ => none) else property.name?

/-- The action has the same result in every machine and changes none. -/
def Fixed (a : Action Value) : Prop := ∃ r, ∀ m, a m = (r, m)

theorem indexed_fixed (r : Except Number.NumberFault Int) (size : Nat) (get : Nat → Option Value) (fault : LookupFault) :
    Fixed (Action.ofNumber r >>= indexed size get fault) := by
  cases r with
  | error f => exact ⟨_, fun m => rfl⟩
  | ok i =>
    show Fixed (indexed size get fault i)
    unfold indexed
    repeat' split
    all_goals exact ⟨_, fun m => rfl⟩

/-- What an access gives depends on what its object holds. -/
theorem access_run (pos : Pos) (property : Node) (computed : Bool) (k x : Value) :
    ∃ read : Option Holder → Except Signal Value,
      ∀ m, access pos property computed k x m = (read (holder? m.heap x), m) := by
  have hfixed (holder : Option Holder) : Fixed (match holder with
      | some holder => if computed then computedMember pos holder k else writtenMember pos holder property.name?
      | none => .problem (.noMembers pos)) := by
    cases holder with
    | none => exact ⟨_, fun m => rfl⟩
    | some holder =>
      unfold computedMember writtenMember
      repeat' split
      all_goals first | exact ⟨_, fun m => rfl⟩ | exact indexed_fixed ..
  choose read hread using hfixed
  unfold access
  cases hasMembers x with
  | false => exact ⟨fun _ => _, fun m => rfl⟩
  | true => exact ⟨read, fun m => hread (holder? m.heap x) m⟩

theorem access_object (pos : Pos) (property : Node) (computed : Bool) (k : Value) (r : ObjectRef) (m : Machine) :
    access pos property computed k (.object r) m = (match accessKey property computed k with
      | some key => .ok (named (m.heap.fields r) key)
      | none => .error (.failure (.problem (if computed then .keyNotString pos else .keyNotName pos))), m) := by
  cases computed with
  | true => cases k <;> rfl
  | false =>
    show writtenMember pos (.named (m.heap.fields r)) property.name? m = _
    unfold accessKey writtenMember
    cases property.name? <;> rfl

theorem access_setField_self (pos : Pos) {k ref} (hr : (Cell.object ref).IsIn m.heap)
    (hkey : accessKey property computed k = some key) (v : Value) :
    access pos property computed k (.object ref) { m with heap := m.heap.setField ref key v } =
      (.ok v, { m with heap := m.heap.setField ref key v }) := by
  rw [access_object, hkey]
  show (Except.ok (named ((m.heap.setField ref key v).fields ref) key), _) = _
  rw [(Heap.setsField_setField hr key v).fields, named, Data.Table.get?_insert, if_pos rfl]
  rfl

/-- Whatever else is read is what it was before, also before there were new objects. -/
theorem access_setField_other (pos : Pos) {k x ref}
    (hne : ¬ (x = .object ref ∧ accessKey property computed k = some key)) (n : Nat) (v : Value) :
    (access pos property computed k x { m with heap := (m.heap.withBlanks n).setField ref key v }).1 =
      (access pos property computed k x m).1 := by
  cases x with
  | object r =>
    rw [access_object, access_object]
    cases hkey : accessKey property computed k with
    | none => rfl
    | some key' =>
      have hother : ¬ (r = ref ∧ key' = key) := fun h => hne ⟨congrArg Value.object h.1, hkey.trans (congrArg some h.2)⟩
      have hfield := Heap.get?_fields_setField (h := m.heap.withBlanks n) hother v
      rw [Heap.fields_withBlanks] at hfield
      exact congrArg (fun w => Except.ok (w.getD .null)) hfield
  | _ =>
    obtain ⟨read, hread⟩ := access_run pos property computed k _
    rw [hread, hread]
    cases ref <;> rfl

theorem eval_member (pos : Pos) {x k} (ho : eval fuel object s m = (.ok x, m))
    (hp : computed = true → eval fuel property s m = (.ok k, m)) :
    eval (fuel + 3) (.member pos object property computed) s m = access pos property computed k x m := by
  rw [eval_silent, evalNode, evalMember, Action.bind_of_ok ho]
  unfold access
  cases hasMembers x with
  | false => rfl
  | true =>
    cases computed with
    | false => rfl
    | true => 
      show (eval fuel property s >>= _ : Action Value) m = _
      rw [Action.bind_of_ok (hp rfl)]
      rfl

theorem QuietAlong.quiet {n} (h : QuietAlong s n) : Quiet s n := by
  cases n with
  | member pos outer inner computed => exact h.1
  | _ => exact h

theorem length_le_quoted (text : String) : text.length < (Text.quoted text).length := by
  have hescape q (cs : List Char) : cs.length ≤ (cs.flatMap (Text.escapeChar q)).length := by
    induction cs with
    | nil => exact le_refl 0
    | cons c cs ih =>
      have hone : 1 ≤ (Text.escapeChar q c).length := by
        unfold Text.escapeChar
        repeat' split
        all_goals simp
      rw [List.flatMap_cons, List.length_append, List.length_cons]
      omega
  have hle := hescape (Text.quoteFor text.toList) text.toList
  rw [Text.quoted, String.length_ofList, List.length_append, List.length_cons, ← String.length_toList]
  omega

/-- The text of a string is longer than the string. -/
theorem inspect_str_ne {text} (h : Action.inspect (.str text) m = (.ok key, m₂)) : text ≠ key := by
  have htext : Action.inspect (.str text) m =
      (.ok ("StringValue" ++ "(" ++ ", ".intercalate ["value" ++ "=" ++ Text.quoted text] ++ ")"), m) := rfl
  cases h
  intro heq
  have hlength := congrArg String.length heq
  have hlonger := length_le_quoted text
  simp only [String.length_append, String.intercalate_singleton] at hlength
  omega

theorem inspect_keeps (k : Value) (m : Machine) : (Action.inspect k m).2 = m := by
  show (Action.ofNumber (m.heap.snapshot k).datum.text m).2 = m
  cases (m.heap.snapshot k).datum.text <;> rfl

theorem memberKey_object (hp : Quiet s property) {ref}
    (h : memberKey fuel true property s (.object ref) m = (.ok (holder, key), m₂)) :
    holder = .object ref ∧ m₂ = m ∧ WritesKey s m property key := by
  have hrun : memberKey fuel true property s (.object ref) = (match property.name? with
      | some name => pure (.object ref, name)
      | none => do
        let key ← eval fuel property s
        return (.object ref, ← .inspect key)) := rfl
  rw [hrun] at h
  cases hname : property.name? with
  | some name =>
    rw [hname] at h
    cases h
    exact ⟨rfl, rfl, .name hname⟩
  | none =>
    rw [hname] at h
    obtain ⟨k, m₃, hk, hrest⟩ := Action.bind_eq_ok h
    obtain ⟨text, m₄, htext, hpair⟩ := Action.bind_eq_ok hrest
    obtain rfl : m₃ = m := by rw [← hp fuel m, hk]
    obtain rfl : m₄ = m₃ := by rw [← inspect_keeps k m₃, htext]
    cases hpair
    exact ⟨rfl, rfl, .text hname hk htext fun heq => inspect_str_ne (heq ▸ htext) rfl⟩

/-- What is left of an assignment to a member once the object was looked for. -/
theorem memberKey_lands (hp : Quiet s property) {n} (hn : (∃ ref, v = .object ref) → n = 0)
    (h : memberKey fuel true property s v { m with heap := m.heap.withBlanks n } = (.ok (holder, key), m₂)) :
    ∃ ref, holder = .object ref ∧ Lands m v ref m₂ ∧ WritesKey s m₂ property key := by
  by_cases hv : ∃ ref, v = .object ref
  · obtain rfl := hn hv
    obtain ⟨ref, rfl⟩ := hv
    obtain ⟨rfl, rfl, hkey⟩ := memberKey_object hp h
    exact ⟨ref, rfl, .found rfl, hkey⟩
  · have hnew : memberKey fuel true property s v { m with heap := m.heap.withBlanks n } =
        memberKey fuel true property s (.object (.record (m.heap.records.size + n)))
          { m with heap := m.heap.withBlanks (n + 1) } := by
      have hobject : Action.object [] { m with heap := m.heap.withBlanks n } =
          (.ok (.object (.record (m.heap.records.size + n))), { m with heap := m.heap.withBlanks (n + 1) }) := by
        show (Except.ok ((m.heap.withBlanks n).newObject .empty false).1, { m with heap := ((m.heap.withBlanks n).newObject .empty false).2 }) = _
        rw [Heap.newObject_withBlanks]
      cases v with
      | object ref => exact absurd ⟨ref, rfl⟩ hv
      | _ => exact Action.bind_of_ok hobject _
    rw [hnew] at h
    obtain ⟨rfl, rfl, hkey⟩ := memberKey_object hp h
    exact ⟨_, rfl, .fresh (fun ref href => hv ⟨ref, href⟩) n, hkey⟩

theorem resolveMember_lands (ho : QuietAlong s object) (hp : Quiet s property)
    (h : resolveMember fuel true object property s m = (.ok (holder, key), m₂)) :
    ∃ v ref, Finds s m object v ∧ holder = .object ref ∧ Lands m v ref m₂ ∧ WritesKey s m₂ property key := by
  induction fuel generalizing object property holder key m₂ with
  | zero =>
    rw [resolveMember] at h
    cases h
  | succ fuel ih =>
    rw [resolveMember_eq] at h
    obtain ⟨plain, m', hplain, hrest⟩ := Action.bind_eq_ok h
    obtain rfl : m' = m := by rw [← ho.quiet fuel m, hplain]
    split at hrest
    · next _ pos outer inner computed =>
      obtain ⟨⟨parent, key'⟩, m₃, hparent, hkeys⟩ := Action.bind_eq_ok hrest
      obtain ⟨w, ref, hfinds, rfl, hlands, hkey⟩ := ih ho.2.1 ho.2.2 hparent
      have h : memberKey fuel true property s (named (m₃.heap.fields ref) key') m₃ = _ := hkeys
      cases hlands with
      | found hw =>
        subst hw
        obtain ⟨ref', hholder, hlands, hkey'⟩ := memberKey_lands hp (fun _ => rfl)
          (by rw [Heap.withBlanks_zero]; exact h)
        exact ⟨_, ref', .field hfinds hkey, hholder, hlands, hkey'⟩
      | fresh hw n =>
        have hnull : named ((m'.heap.withBlanks (n + 1)).fields (.record (m'.heap.records.size + n))) key' = .null := by
          rw [Heap.fields_withBlanks, Heap.fields, Array.getElem?_eq_none (Nat.le_add_right ..)]
          rfl
        rw [hnull] at h
        have hnone : ¬ ∃ ref, Value.null = .object ref := by simp
        obtain ⟨ref', hholder, hlands, hkey'⟩ := memberKey_lands hp (absurd · hnone) h
        exact ⟨_, ref', .nothing hfinds hw, hholder, hlands, hkey'⟩
    · next hne =>
      obtain ⟨ref, hholder, hlands, hkey⟩ := memberKey_lands hp (fun _ => rfl)
        (by rw [Heap.withBlanks_zero]; exact hrest)
      exact ⟨plain, ref, .value hne hplain, hholder, hlands, hkey⟩

theorem checkAssignable_keeps (pos : Pos) (ref : ObjectRef) : (checkAssignable s pos object ref key m).2 = m := by
  have hfrozen : ((if m.heap.isFrozen ref then .problem (.frozenObject key pos) else pure () :
      Action Unit) m).2 = m := by
    cases m.heap.isFrozen ref <;> rfl
  unfold checkAssignable
  cases object.name? with
  | none => exact hfrozen
  | some name =>
    dsimp only
    cases hresolve : m.heap.resolve s name with
    | error p =>
      have hfound : Action.consult (·.resolve s name) m = (.error (.failure (.problem p)), m) := by
        rw [Action.consult, hresolve]
      rw [Action.bind_of_error hfound]
    | ok found =>
      have hfound : Action.consult (·.resolve s name) m = (.ok found, m) := by rw [Action.consult, hresolve]
      rw [Action.bind_of_ok hfound, Action.heap_bind]
      cases m.heap.isConstant found name with
      | true => rfl
      | false => exact hfrozen

/-- What an assignment to a member has done. -/
theorem assignment_lands {e pos at_ m'} (ho : QuietAlong s object) (hp : Quiet s property)
    (h : eval (fuel + 3) (.assignment pos (.member at_ object property computed) e none) s m = (.ok v, m')) :
    ∃ m₁ w ref m₂ key, eval fuel e s m = (.ok v, m₁) ∧ Finds s m₁ object w ∧ Lands m₁ w ref m₂ ∧
      WritesKey s m₂ property key ∧ m' = { m₂ with heap := m₂.heap.setField ref key v } := by
  rw [eval_silent, evalNode, evalAssignment] at h
  obtain ⟨v', m₁, he, htarget⟩ := Action.bind_eq_ok h
  have hmember : (resolveMember fuel true object property s >>= _ : Action Value) m₁ = _ := htarget
  obtain ⟨⟨holder, key⟩, m₂, hresolve, hset⟩ := Action.bind_eq_ok hmember
  obtain ⟨w, ref, hfinds, rfl, hlands, hkey⟩ := resolveMember_lands ho hp hresolve
  obtain ⟨_, m₃, hcheck, hdone⟩ := Action.bind_eq_ok hset
  obtain rfl : m₃ = m₂ := by rw [← checkAssignable_keeps (m := m₂) pos ref, hcheck]
  cases hdone
  exact ⟨m₁, w, ref, m₃, key, he, hfinds, hlands, hkey, rfl⟩

end

/-- An assignment to a member that is done, if to evaluate the parts of the member changes nothing. It has looked for an
object along the written keys, and has set a field of the object that it found or of a new one. The member is read as the
value that was assigned if its object is that object and its key is that key, and as it would have been read before
otherwise. Between brackets, a key that is no name is written under a text that is not the key. -/
theorem member_assignment_read (fuel : Nat) (pos at_ : Pos) (object property e : Node) (computed : Bool) (s : ScopeRef)
    (m m' : Machine) (v : Value) (ho : QuietAlong s object) (hp : Quiet s property)
    (h : eval (fuel + 3) (.assignment pos (.member at_ object property computed) e none) s m = (.ok v, m')) :
    ∃ m₁ w ref m₂ key, eval fuel e s m = (.ok v, m₁) ∧ Finds s m₁ object w ∧ Lands m₁ w ref m₂ ∧
      WritesKey s m₂ property key ∧ m' = { m₂ with heap := m₂.heap.setField ref key v } ∧
      ((Cell.object ref).IsIn m₂.heap → ∀ (fuel' : Nat) (x k : Value), eval fuel' object s m' = (.ok x, m') →
        (computed = true → eval fuel' property s m' = (.ok k, m')) →
        (x = .object ref ∧ accessKey property computed k = some key →
          eval (fuel' + 3) (.member at_ object property computed) s m' = (.ok v, m')) ∧
        (¬ (x = .object ref ∧ accessKey property computed k = some key) →
          (eval (fuel' + 3) (.member at_ object property computed) s m').1 =
            (access at_ property computed k x m₁).1)) := by
  obtain ⟨m₁, w, ref, m₂, key, he, hfinds, hlands, hkey, rfl⟩ := assignment_lands ho hp h
  refine ⟨m₁, w, ref, m₂, key, he, hfinds, hlands, hkey, rfl, fun hin fuel' x k hx hk => ?_⟩
  rw [eval_member at_ hx hk]
  constructor
  · rintro ⟨rfl, hread⟩
    exact access_setField_self at_ hin hread v
  · intro hne
    cases hlands with
    | found hw =>
      have hother := access_setField_other (m := m₁) at_ hne 0 v
      rwa [Heap.withBlanks_zero] at hother
    | fresh hw n => exact access_setField_other at_ hne (n + 1) v

theorem eval_identifier (fuel : Nat) (pos : Pos) (x : String) (s : ScopeRef) (m : Machine) :
    ∃ r, eval fuel (.identifier pos x) s m = (r, m) ∧ ∀ v, r = .ok v → m.heap.lookup? s x = some v := by
  match fuel with
  | 0 => exact ⟨.error (.failure .outOfFuel), by rw [eval]; rfl, nofun⟩
  | 1 => exact ⟨.error (.failure .outOfFuel), by rw [eval_silent, evalNode]; rfl, nofun⟩
  | fuel + 2 =>
    obtain ⟨r, hr, hvalue⟩ := Dotted.eval_node (.name pos x) m s (fuel + 2) (Nat.le_add_left 2 fuel)
    exact ⟨r, hr, fun v => (hvalue v).1⟩

/-- A machine with an object `o` and a string `k`. -/
def objectMachine : Machine :=
  ⟨{ nestedObjects with scopes := #[⟨none, ⟨[("o", .object (.record 1)), ("k", .str "k")]⟩, [], false⟩] },
    Session.plainWorld, ""⟩

/-- What is assigned to `o[k]` is read if the value of `k` is its name. -/
theorem member_assignment_read_own_name : ∃ m',
    eval 9 (.assignment .zero (.member .zero (.identifier .zero "o") (.identifier .zero "k") true) (.string .zero "new")
      none) 0 objectMachine = (.ok (.str "new"), m') ∧
    eval 9 (.member .zero (.identifier .zero "o") (.identifier .zero "k") true) 0 m' = (.ok (.str "new"), m') := by
  have hquiet x : Quiet 0 (.identifier .zero x) := fun fuel m => by
    obtain ⟨r, hr, -⟩ := eval_identifier fuel .zero x 0 m
    rw [hr]
  have hvalue : (eval 9 (.assignment .zero (.member .zero (.identifier .zero "o") (.identifier .zero "k") true)
      (.string .zero "new") none) 0 objectMachine).1.toOption = some (.str "new") := by decide +kernel
  rcases hrun : eval 9 (.assignment .zero (.member .zero (.identifier .zero "o") (.identifier .zero "k") true)
      (.string .zero "new") none) 0 objectMachine with ⟨r, m'⟩
  rw [hrun] at hvalue
  obtain rfl : r = .ok (.str "new") := by
    cases r with
    | error e => cases hvalue
    | ok v => exact congrArg Except.ok (Option.some.inj hvalue)
  obtain ⟨m₁, w, ref, m₂, key, he, hfinds, hlands, hkey, rfl, hread⟩ :=
    member_assignment_read 6 .zero .zero _ _ _ true 0 objectMachine m' _
      (show QuietAlong 0 (.identifier .zero "o") from hquiet "o") (hquiet "k") hrun
  rw [eval_silent, evalNode] at he
  cases he
  obtain rfl : w = .object (.record 1) := by
    cases hfinds with
    | value hn h =>
      obtain ⟨r, hr, hlookup⟩ := eval_identifier _ .zero "o" 0 objectMachine
      cases hr.symm.trans h
      exact Option.some.inj ((hlookup _ rfl).symm.trans (by decide +kernel))
  cases hlands with
  | fresh hw n => exact absurd rfl (hw _)
  | found hw =>
    cases hw
    cases hkey with
    | text hname _ _ _ => cases hname
    | name hname =>
      cases hname
      have hname x w m (hw : m.heap.lookup? 0 x = some w) : eval 6 (.identifier .zero x) 0 m = (.ok w, m) := by
        rw [eval_silent, evalNode, Action.consult, Heap.lookup, hw]
      exact ⟨_, rfl, (hread (show 1 < 2 by decide) 6 _ (.str "k") (hname _ _ _ (by decide +kernel))
        fun _ => hname _ _ _ (by decide +kernel)).1 ⟨rfl, rfl⟩⟩

/-- A key in quotes is written under its text, and so it is not read. -/
theorem quoted_key_not_read : Session.answer "let o = \x7b\x7d; o[\"k\"] = true; o[\"k\"];" = (some .null, "") := by
  decide +kernel

end SmallScript.Evaluate
