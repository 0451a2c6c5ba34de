import SmallScript.Proofs.Machine.Tame

/-!
# The constants that a scope lists

A scope is *neat* if it lists every constant once, and only names that it binds. Declarations that do not overwrite,
assignments, removals and changes of fields leave all scopes neat, and the list of constants of every scope but the one
they are made in as it is: `Arranges`. A declaration of a constant that overwrites does so if the name is not listed yet.

A removal takes a name from the list once, so a name that is listed twice stays a constant when it is declared anew.
-/

namespace SmallScript.Machine

open List Option
open Value (ScopeRef ObjectRef)
open Data (Table)
open Number (Numeric)

/-- Every constant is listed once and is bound. -/
structure Scope.Neat (scope : Scope) : Prop where
  nodup : scope.constants.Nodup
  bound : ∀ x ∈ scope.constants, (scope.vars.get? x).isSome = true

namespace Heap

/-- All scopes are neat. -/
def Neat (h : Heap) : Prop := ∀ (S : ScopeRef) (scope : Scope), h.scopes[S]? = some scope → scope.Neat

/-- The constants that a scope lists. -/
def constantsOf (h : Heap) (S : ScopeRef) : List String := (h.scopes[S]?.map (·.constants)).getD []

/-- No scope goes, and the scopes that are there list the same constants, apart from some. -/
structure Frames (P : ScopeRef → Prop) (h h' : Heap) : Prop where
  size : h.scopes.size ≤ h'.scopes.size
  constants : ∀ S, S < h.scopes.size → ¬ P S → h'.constantsOf S = h.constantsOf S

/-- What a change does that is made in some scopes and leaves all scopes neat. -/
structure Arranges (P : ScopeRef → Prop) (h h' : Heap) : Prop where
  frames : h.Frames P h'
  neat : h.Neat → h'.Neat

variable {P Q : ScopeRef → Prop} {h h' h'' : Heap} {s S : ScopeRef} {name x : String} {v w : Value}
  {constant overwrite : Bool}

theorem Frames.refl (h : Heap) : h.Frames P h := ⟨le_refl _, fun _ _ _ => rfl⟩

theorem Frames.trans (h1 : h.Frames P h') (h2 : h'.Frames P h'') : h.Frames P h'' where
  size := le_trans h1.size h2.size
  constants S hS hP := (h2.constants S (lt_of_lt_of_le hS h1.size) hP).trans (h1.constants S hS hP)

theorem Frames.lt (hf : h.Frames P h') (hs : s < h.scopes.size) : s < h'.scopes.size := lt_of_lt_of_le hs hf.size

theorem Frames.mono (hf : h.Frames P h') (hPQ : ∀ S, P S → Q S) : h.Frames Q h' :=
  ⟨hf.size, fun S hS hQ => hf.constants S hS fun hP => hQ (hPQ S hP)⟩

theorem Arranges.mono (ha : h.Arranges P h') (hPQ : ∀ S, P S → Q S) : h.Arranges Q h' := ⟨ha.frames.mono hPQ, ha.neat⟩

theorem Arranges.refl (h : Heap) : h.Arranges P h := ⟨.refl h, id⟩

theorem Arranges.trans (h1 : h.Arranges P h') (h2 : h'.Arranges P h'') : h.Arranges P h'' :=
  ⟨h1.frames.trans h2.frames, fun hn => h2.neat (h1.neat hn)⟩

theorem Arranges.path (hp : Relation.ReflTransGen (Arranges P) h h') : h.Arranges P h' := by
  induction hp with
  | refl => exact .refl h
  | tail _ hs ih => exact ih.trans hs

/-! ## Changes beside the scopes -/

theorem Arranges.of_scopes (hs : h'.scopes = h.scopes) : h.Arranges P h' := by
  refine ⟨⟨le_of_eq (by rw [hs]), fun S _ _ => ?_⟩, fun hn S scope hscope => ?_⟩
  · rw [constantsOf, constantsOf, hs]
  · rw [hs] at hscope
    exact hn S scope hscope

instance : Cellular (Arranges P) where
  array _ _ := .of_scopes rfl
  object _ _ _ := .of_scopes rfl
  number h n := .of_scopes (newNumber_scopes h n)
  arrays _ _ _ := .of_scopes rfl

/-! ## New scopes -/

theorem Arranges.push {scope} (hscope : scope.Neat) : h.Arranges P { h with scopes := h.scopes.push scope } := by
  refine ⟨⟨?_, fun S hS _ => ?_⟩, fun hn S scope' hscope' => ?_⟩
  · simp only [Array.size_push]
    omega
  · simp only [constantsOf, Array.getElem?_push_lt hS, Array.getElem?_eq_getElem hS]
  · simp only [Array.getElem?_push] at hscope'
    split at hscope'
    · cases hscope'
      exact hscope
    · exact hn S scope' hscope'

theorem newScope_arranges (h : Heap) (parent : ScopeRef) : h.Arranges P (h.newScope parent).2 :=
  .push ⟨nodup_nil, fun _ hx => absurd hx not_mem_nil⟩

theorem newGlobal_arranges (h : Heap) (guarded : Bool) : h.Arranges P (h.newGlobal guarded).2 := by
  have hnames : (globalEntries.map (·.1)).Nodup := by decide
  refine .push ⟨hnames, fun x hx => ?_⟩
  obtain ⟨e, he, rfl⟩ := mem_map.1 hx
  exact Table.contains_iff_mem.2 ⟨e, he, rfl⟩

theorem initial_neat : Heap.initial.Neat := fun S scope hscope => by
  simp [initial] at hscope

/-! ## Changes of one scope -/

theorem constantsOf_modifyScope_ne {f} (hS : S ≠ s) : (h.modifyScope s f).constantsOf S = h.constantsOf S := by
  rw [constantsOf, constantsOf, modifyScope, Array.getElem?_modify, if_neg (symm hS)]

theorem constantsOf_modifyScope {f} (hf : ∀ scope, (f scope).constants = scope.constants) :
    (h.modifyScope s f).constantsOf S = h.constantsOf S := by
  by_cases hS : S = s
  · subst hS
    simp only [constantsOf, modifyScope, Array.getElem?_modify, if_true, Option.map_map, Function.comp_def, hf]
  · exact constantsOf_modifyScope_ne hS

theorem constantsOf_bind : (h.bind s name v).constantsOf S = h.constantsOf S := constantsOf_modifyScope fun _ => rfl

theorem constantsOf_addConstant (hs : s < h.scopes.size) :
    (h.addConstant s name).constantsOf s = h.constantsOf s ++ [name] := by
  simp only [constantsOf, addConstant, modifyScope, Array.getElem?_modify, Array.getElem?_eq_getElem hs]
  rfl

theorem constantsOf_unbind : (h.unbind s name).constantsOf s = (h.constantsOf s).erase name := by
  simp only [constantsOf, unbind, modifyScope, Array.getElem?_modify]
  cases h.scopes[s]? with
  | none | some scope => rfl

theorem modifyScope_frames {f} (hf : P s ∨ ∀ scope, (f scope).constants = scope.constants) :
    h.Frames P (h.modifyScope s f) := by
  refine ⟨le_of_eq Array.size_modify.symm, fun S _ hP => ?_⟩
  rcases hf with hs | hf
  · exact constantsOf_modifyScope_ne fun hS => hP (hS ▸ hs)
  · exact constantsOf_modifyScope hf

theorem Neat.modifyScope {f} (hn : h.Neat)
    (hf : ∀ scope, h.scopes[s]? = some scope → scope.Neat → (f scope).Neat) : (h.modifyScope s f).Neat := by
  intro S scope hscope
  simp only [Heap.modifyScope, Array.getElem?_modify] at hscope
  split at hscope
  · next hS =>
    subst hS
    obtain ⟨old, hold, rfl⟩ := map_eq_some_iff.1 hscope
    exact hf old hold (hn _ old hold)
  · exact hn S scope hscope

theorem Neat.bind (hn : h.Neat) (s : ScopeRef) (name : String) (v : Value) : (h.bind s name v).Neat := by
  refine hn.modifyScope fun scope _ hneat => ⟨hneat.nodup, fun x hx => ?_⟩
  simp only [Table.get?_insert]
  split
  · rfl
  · exact hneat.bound x hx

theorem bind_arranges : h.Arranges P (h.bind s name v) :=
  ⟨modifyScope_frames (.inr fun _ => rfl), fun hn => hn.bind s name v⟩

/-- A name that is not listed yet is bound and listed as a constant. -/
theorem Neat.bindConstant (hn : h.Neat) (hname : name ∉ h.constantsOf s) :
    ((h.bind s name v).addConstant s name).Neat := by
  refine (hn.bind s name v).modifyScope fun scope hscope hneat => ?_
  simp only [Heap.bind, Heap.modifyScope, Array.getElem?_modify] at hscope
  obtain ⟨old, hold, rfl⟩ := map_eq_some_iff.1 hscope
  have hnew : name ∉ old.constants := by simpa [constantsOf, hold] using hname
  refine ⟨?_, fun x hx => ?_⟩
  · rw [nodup_append]
    refine ⟨hneat.nodup, by simp, fun a ha b hb => ?_⟩
    rw [mem_singleton] at hb
    rintro rfl
    exact hnew (hb ▸ ha)
  · rcases mem_append.1 hx with hx | hx
    · exact hneat.bound x hx
    · rw [mem_singleton.1 hx]
      simp [Table.get?_insert]

theorem Neat.unbind (hn : h.Neat) (s : ScopeRef) (name : String) : (h.unbind s name).Neat := by
  refine hn.modifyScope fun scope _ hneat => ⟨hneat.nodup.erase name, fun x hx => ?_⟩
  -- the name itself was listed once
  obtain ⟨hne, hx⟩ := hneat.nodup.mem_erase_iff.1 hx
  rw [Table.get?_erase_ne _ hne]
  exact hneat.bound x hx

theorem Neat.not_mem_constantsOf (hn : h.Neat) (hunbound : h.bound? s x = none) : x ∉ h.constantsOf s := by
  intro hx
  unfold constantsOf at hx
  cases hscope : h.scopes[s]? with
  | none =>
    rw [hscope] at hx
    cases hx
  | some scope =>
    rw [hscope] at hx
    have hbound := (hn s scope hscope).bound x hx
    rw [bound?, hscope, bind_some] at hunbound
    rw [hunbound] at hbound
    cases hbound

theorem Neat.nodup_constantsOf (hn : h.Neat) (s : ScopeRef) : (h.constantsOf s).Nodup := by
  unfold constantsOf
  cases hscope : h.scopes[s]? with
  | none => exact nodup_nil
  | some scope => exact (hn s scope hscope).nodup

/-! ## Declarations, assignments and removals -/

/-- A declaration leaves the scopes neat, if a constant is not listed yet. -/
theorem Neat.declare (hn : h.Neat) (hd : h.declare s name v constant overwrite = .ok h')
    (hnew : constant = true → name ∉ h.constantsOf s) : h'.Neat := by
  obtain ⟨-, rfl⟩ := declare_ok hd
  split
  · next hc => exact hn.bindConstant (hnew hc)
  · exact hn.bind s name v

theorem declare_frames (hd : h.declare s name v constant overwrite = .ok h') : h.Frames (· = s) h' := by
  obtain ⟨-, rfl⟩ := declare_ok hd
  have hbind : h.Frames (· = s) (h.bind s name v) := modifyScope_frames (.inl rfl)
  split
  · exact hbind.trans (modifyScope_frames (.inl rfl))
  · exact hbind

/-- A declaration that does not overwrite, or not with a constant. -/
theorem declare_arranges (hmode : overwrite = false ∨ constant = false)
    (hd : h.declare s name v constant overwrite = .ok h') : h.Arranges (· = s) h' := by
  refine ⟨declare_frames hd, fun hn => hn.declare hd fun hc => hn.not_mem_constantsOf ?_⟩
  refine (declare_ok hd).1 (hmode.resolve_right ?_)
  rw [hc]
  exact Bool.noConfusion

theorem assign_arranges (ha : h.assign s name v overwrite = .ok h') : h.Arranges P h' := by
  obtain ⟨found, -, rfl⟩ := assign_eq_ok ha
  exact bind_arranges

theorem delete_arranges (hd : h.delete s name = .ok h') : h.Arranges (· = s) h' := by
  cases delete_eq_ok hd
  exact ⟨modifyScope_frames (.inl rfl), fun hn => hn.unbind s name⟩

theorem setField_arranges (h : Heap) (ref : ObjectRef) (name : String) (v : Value) :
    h.Arranges P (h.setField ref name v) := by
  cases ref with
  | record i => exact .of_scopes rfl
  | scope s => exact bind_arranges

/-! ## Assignment to a name that the scope binds -/

theorem isConstant_eq (h : Heap) (s : ScopeRef) (name : String) :
    h.isConstant s name = (h.constantsOf s).contains name := by
  unfold isConstant constantsOf
  cases h.scopes[s]? <;> rfl

theorem resolve_of_bound (hb : (h.bound? s x).isSome = true) : h.resolve s x = .ok s := by
  unfold bound? at hb
  unfold resolve
  rw [resolve?]
  cases hscope : h.scopes[s]? with
  | none =>
    rw [hscope] at hb
    cases hb
  | some scope =>
    rw [hscope] at hb
    have hcontains : scope.vars.contains x = true := hb
    simp [hcontains]

/-- A name that the scope binds can be assigned to unless it is listed as a constant. -/
theorem assign_iff (hb : (h.bound? s x).isSome = true) (w : Value) :
    (∃ h', h.assign s x w false = .ok h') ↔ x ∉ h.constantsOf s := by
  have hassign : h.assign s x w false =
      if (h.constantsOf s).contains x then .error (.constantVariable x) else .ok (h.bind s x w) := by
    rw [assign, resolve_of_bound hb]
    simp only [isConstant_eq, Bool.not_false, Bool.and_true]
    rfl
  rw [hassign]
  by_cases hx : x ∈ h.constantsOf s
  · simp [hx]
  · simp [hx]

theorem bound?_bind_self (hs : s < h.scopes.size) : ((h.bind s x v).bound? s x).isSome = true := by
  simp only [bound?, bind, modifyScope, Array.getElem?_modify, if_true, Array.getElem?_eq_getElem hs,
    map_some, bind_some, Table.get?_insert]
  rfl

/-- A variable that has been declared can be assigned to, unless its name was listed as a constant before. -/
theorem assign_iff_after_declare (hs : s < h.scopes.size) (hd : h.declare s x v false false = .ok h') (w : Value) :
    (∃ h'', h'.assign s x w false = .ok h'') ↔ x ∉ h.constantsOf s := by
  obtain ⟨-, rfl⟩ := declare_ok hd
  refine (assign_iff (bound?_bind_self hs) w).trans ?_
  rw [constantsOf_bind]

theorem Neat.assign_after_declare (hn : h.Neat) (hs : s < h.scopes.size)
    (hd : h.declare s x v false false = .ok h') (w : Value) : ∃ h'', h'.assign s x w false = .ok h'' :=
  (assign_iff_after_declare hs hd w).2 (hn.not_mem_constantsOf ((declare_ok hd).1 rfl))

theorem lt_of_delete (hd : h.delete s x = .ok h') : s < h.scopes.size := by
  unfold delete at hd
  split at hd
  · next hb =>
    rw [bindsHere_eq, bound?] at hb
    by_contra hs
    rw [Array.getElem?_eq_none (Nat.le_of_not_lt hs)] at hb
    cases hb
  · cases hd

/-- A name that is removed is not listed any more exactly if it was listed once at most. -/
theorem not_mem_constantsOf_delete (hd : h.delete s x = .ok h') :
    x ∉ h'.constantsOf s ↔ (h.constantsOf s).count x ≤ 1 := by
  cases delete_eq_ok hd
  rw [constantsOf_unbind, ← count_eq_zero, count_erase_self]
  omega

end Heap

end SmallScript.Machine
