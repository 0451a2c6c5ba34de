import SmallScript.Proofs.Evaluate.Hazards

/-!
# Parts of the evaluator

Operators, members and the sources of imports are tame. On operators and names that the parser makes they do not fail
through the fault of a tree, and they yield ordinary values out of ordinary ones.
-/

namespace SmallScript.Evaluate

open Machine List
open Value (ScopeRef ObjectRef)
open Number (Numeric NumberFault)
open Data (Table)
open Syntax

variable {op : String} {holder : Holder}

section

variable {O strict : Prop} {kinds : List FailureKind}

/-! ## Operators -/

/-- The binary operators on numbers are the known ones. -/
theorem operator_cases (h : op ∈ binaryOperators) (a b : Numeric) :
    (arithmetic op a b).isSome ∨ (comparison op a b).isSome ∨ op = "**" ∨ (bitwise op a b).isSome ∨
      (logical op a.truthy b.truthy).isSome := by
  simp only [binaryOperators, mem_cons, not_mem_nil, or_false] at h
  rcases h with rfl | rfl | rfl | rfl | rfl | rfl | rfl | rfl | rfl | rfl | rfl | rfl | rfl | rfl | rfl | rfl | rfl |
    rfl | rfl <;> simp [arithmetic, comparison, bitwise, logical]

theorem compound_isSome (h : op ∈ compoundOperators) (a b : Numeric) : (compound op a b).isSome := by
  simp only [compoundOperators, mem_cons, not_mem_nil, or_false] at h
  rcases h with rfl | rfl | rfl | rfl | rfl | rfl | rfl | rfl | rfl | rfl <;> rfl

/-- Between operands a division by zero is reported. -/
theorem arithmeticResult_tame {r} (hr : OnlyFaults (Among (.zeroDivision :: kinds)) r)
    (pos : Pos) : Tame O strict kinds Value.Ordinary (arithmeticResult pos r) := by
  cases r with
  | ok n => exact .number n
  | error f =>
    refine .ite_of (fun _ => .problem rfl) fun hf => .fail rfl ?_
    exact (mem_cons.1 (hr f rfl)).resolve_left fun hzero => hf (beq_iff_eq.2 hzero)

theorem numbersBinary_tame (pos : Pos) (hop : strict → op ∈ binaryOperators) (a b : Numeric) :
    Tame O strict (binaryHazards op) Value.Ordinary (numbersBinary pos op a b) := by
  unfold numbersBinary
  split
  · next h => exact arithmeticResult_tame (arithmetic_faults h) pos
  · next h1 =>
    split
    · next h => exact (Tame.ofNumber (comparison_faults h)).bind fun _ _ => .pure trivial
    · next h2 =>
      refine .ite_of (fun hpow => ?_) fun h3 => ?_
      · cases beq_iff_eq.1 hpow
        exact .numberOf (pow_faults a b)
      · split
        · next h => exact .numberOf (bitwise_faults h)
        · next h4 =>
          split
          · exact .pure trivial
          · next h5 =>
            refine .problem_of_not fun hs => ?_
            have hcases := operator_cases (hop hs) a b
            simp [h1, h2, h4, h5, beq_iff_eq.not.1 h3] at hcases

theorem join_tame (a b : Value) : Tame O strict kinds Value.Ordinary (join a b) := by
  unfold join
  split
  · exact .pure trivial
  · refine Tame.heap.bind fun h hm => .newArray fun hO v hv => ?_
    exact (Array.mem_append.1 hv).elim ((hm hO).elements _ v) ((hm hO).elements _ v)
  · exact .newObject (fun _ hk => (hk.fields _).insertAll _) fun _ _ hm => (hm.fields _).insertAll (hm.fields _)
  · exact .pure trivial

theorem equals_tame (a b : Value) : Tame O strict kinds Anything (equals a b) := Tame.heap.bind fun _ _ => .pure trivial

theorem binary_tame (pos : Pos) (hop : strict → op ∈ binaryOperators) (a b : Value) :
    Tame O strict (binaryHazards op) Value.Ordinary (binary pos op a b) := by
  unfold binary
  split
  · exact numbersBinary_tame pos hop _ _
  · split
    · split
      · exact .pure trivial
      · exact .problem rfl
    · split
      · exact .pure trivial
      · exact .problem rfl
    · exact join_tame _ _
    · exact (equals_tame _ _).bind fun _ _ => .pure trivial
    · exact (equals_tame _ _).bind fun _ _ => .pure trivial
    · exact .pure trivial

theorem compoundValue_tame (pos : Pos) {op} (hop : strict → op.getD "" ∈ compoundOperators)
    (old new : Value) : Tame O strict (compoundHazards (op.getD "")) Value.Ordinary (compoundValue pos op old new) := by
  unfold compoundValue
  split
  · next a _ b _ =>
    split
    · next h => exact .numberOf (compound_faults h)
    · next h =>
      refine .problem_of_not fun hs => ?_
      have hsome := compound_isSome (hop hs) a b
      rw [h] at hsome
      cases hsome
  · exact .problem rfl
  · exact .problem rfl

/-! ## Members -/

/-- All members are ordinary. -/
def Holder.Ordinary : Holder → Prop
  | .named entries => entries.All Value.Ordinary
  | .array elements => ∀ v ∈ elements, v.Ordinary
  | .string _ => True

theorem holder?_ordinary {h} (hm : h.Ordinary) {v} (hh : holder? h v = some holder) : holder.Ordinary := by
  cases v with
  | object ref =>
    cases hh
    exact hm.fields ref
  | cls ref =>
    obtain ⟨c, hc, rfl⟩ := Option.map_eq_some_iff.1 hh
    exact hm.classes ref c hc
  | enum ref =>
    obtain ⟨e, he, rfl⟩ := Option.map_eq_some_iff.1 hh
    exact hm.enums ref e he
  | array ref =>
    cases hh
    exact hm.elements ref
  | str text =>
    cases hh
    exact trivial
  | _ => cases hh

theorem named_ordinary {entries} (he : entries.All Value.Ordinary) (name : String) : (named entries name).Ordinary := by
  unfold named
  cases hv : entries.get? name with
  | none => exact trivial
  | some v => exact he.get? hv

theorem itemAt?_eq_some {size : Nat} {get} {i : Int} {v : Value}
    (hv : itemAt? size get i = some v) : ∃ k, get k = some v := by
  unfold itemAt? at hv
  split at hv
  · exact ⟨_, hv⟩
  · split at hv
    · exact ⟨_, hv⟩
    · cases hv

theorem indexed_tame (size : Nat) {get} (hget : O → ∀ k v, get k = some v → v.Ordinary)
    {fault} (h : (Failure.lookup fault).kind ∈ kinds) (i : Int) :
    Tame O strict kinds Value.Ordinary (indexed size get fault i) := by
  refine .ite (.pure trivial) ?_
  split
  · next v hv =>
    obtain ⟨k, hk⟩ := itemAt?_eq_some hv
    exact .pure_of fun hO => hget hO k v hk
  · exact .fail rfl h

theorem computedMember_tame (pos : Pos) (hh : O → holder.Ordinary) (key : Value) :
    Tame O strict (.index :: wholeKinds) Value.Ordinary (computedMember pos holder key) := by
  have hindex (n : Numeric) : Tame O strict (.index :: wholeKinds) (fun x => n.trunc = .ok x) (.ofNumber n.trunc) :=
    .ofNumber ((trunc_faults n).widen (by decide))
  unfold computedMember
  split
  · exact .pure_of fun hO => named_ordinary (hh hO) _
  · exact .problem rfl
  · refine (hindex _).bind fun _ _ => indexed_tame _ (fun hO k v hv => ?_) ?_ _
    · exact hh hO v (Array.mem_of_getElem? hv)
    · exact (.head _)
  · refine (hindex _).bind fun _ _ => indexed_tame _ (fun _ k v hv => ?_) ?_ _
    · obtain ⟨c, -, rfl⟩ := Option.map_eq_some_iff.1 hv
      exact trivial
    · exact (.head _)
  · exact .problem rfl

theorem writtenMember_tame (pos : Pos) (hh : O → holder.Ordinary) {name}
    (hname : strict → name ≠ none) : Tame O strict kinds Value.Ordinary (writtenMember pos holder name) := by
  unfold writtenMember
  split
  · exact .pure_of fun hO => named_ordinary (hh hO) _
  · exact .problem_of_not fun hs => hname hs rfl
  · exact .problem rfl
  · exact .problem rfl

/-! ## Variables and objects -/

theorem current_tame (t : CompoundTarget) (s : ScopeRef) (pos : Pos) :
    Tame O strict kinds Value.Ordinary (t.current s pos) := by
  unfold CompoundTarget.current
  split
  · exact .lookup s _
  · exact .pure trivial
  · exact .problem rfl

theorem construct_tame (pos : Pos) {c} (hc : O → c.members.All Value.Ordinary) {args}
    (ha : O → ∀ v ∈ args, v.Ordinary) : Tame O strict kinds Value.Ordinary (construct pos c args) := by
  unfold construct
  split
  · exact .problem rfl
  · refine .ite (.newObject (fun _ _ => (Table.Distinct.ofList _).insertAll _)
      fun _ hO _ => .insertAll (.ofList fun e he => ?_) (hc hO)) (.problem rfl)
    exact ha hO _ (of_mem_zip he).2

theorem unknownNode_tame (n : Node) : Tame O strict [.type, .attribute, .value] Value.Ordinary (unknownNode n) := by
  refine (Tame.printLine _).bind fun _ _ => ?_
  split
  · exact (Tame.printLine _).bind fun _ _ => .problem rfl
  · next f hf =>
    exact (Tame.fail (A := Anything) rfl (pretty_faults _ _ f hf)).bind fun _ _ => .problem rfl

theorem enumEntries_ok (pos : Pos) {values} (h : ∀ v ∈ values, v.IsIdentifier) (p : Problem) :
    enumEntries pos values ≠ .error p := by
  induction values generalizing p with
  | nil => exact fun he => nomatch he
  | cons v values ih =>
    obtain ⟨pos', name, rfl, _⟩ := h v (.head _)
    have hrest := ih fun w hw => h w (.tail _ hw)
    unfold enumEntries
    cases hr : enumEntries pos values with
    | error q => exact absurd hr (hrest q)
    | ok entries => exact fun he => nomatch he

theorem enumEntries_ordinary (pos : Pos) {values entries}
    (he : enumEntries pos values = .ok entries) : ∀ e ∈ entries, e.2.Ordinary := by
  induction values generalizing entries with
  | nil =>
    cases he
    exact fun _ h => nomatch h
  | cons v values ih =>
    cases v with
    | identifier p name =>
      obtain ⟨rest, hr, he⟩ := exists_of_bind_ok he
      cases he
      exact forall_mem_cons.2 ⟨trivial, ih hr⟩
    | _ => cases he

/-! ## Sources of imports -/

theorem packageList_tame (name : String) (pos : Pos) : Tame O strict sourceHazards Anything (packageList name pos) := by
  refine Library.store_tame.bind fun s _ => ?_
  split
  · next f hf =>
    have hkinds : ∀ c ∈ .isDirectory :: pathCauses, causeKind c ∈ sourceHazards := by decide
    exact .ite (.problem rfl) (.fail rfl (hkinds f.cause (read_faults s _ f hf)))
  · refine (Library.textOf_tame (by decide) _).bind fun text _ => ?_
    split
    · exact .problem rfl
    · exact .pure trivial

theorem sourceText_tame (path : String) : Tame O strict sourceHazards Anything (sourceText path) := by
  refine Library.store_tame.bind fun s _ => ?_
  split
  · exact Library.textOf_tame (by decide) _
  · next f hf =>
    have hkinds : ∀ c ∈ .isDirectory :: pathCauses, causeKind c ∈ sourceHazards := by decide
    exact .fail rfl (hkinds f.cause (read_faults s _ f hf))

theorem access_tame {α : Type} {r : Except Json.AccessFault α}
    (hr : OnlyFaults (fun f => (Failure.ofAccess f).kind ∈ kinds) r) :
    Tame O strict kinds Anything (Action.access r) := by
  cases r with
  | ok x => exact .pure trivial
  | error f =>
    refine .fail ?_ (hr f rfl)
    cases f <;> rfl

theorem packageSource_tame (name : String) (pos : Pos) :
    Tame O strict sourceHazards Anything (packageSource name pos) := by
  refine (packageList_tame name pos).bind fun doc _ => ?_
  refine (access_tame (isListed_faults doc name)).bind fun listed _ => ?_
  refine .ite (Library.store_tame.bind fun s _ => ?_) (.problem rfl)
  exact .ite (.problem rfl) (.ite (.problem rfl) (sourceText_tame _))

theorem moduleSource_tame (name : String) (pos : Pos) :
    Tame O strict sourceHazards Anything (moduleSource name pos) := by
  refine .ite (Library.store_tame.bind fun s _ => ?_) (packageSource_tame name pos)
  exact .ite (sourceText_tame _) (.problem rfl)

end

end SmallScript.Evaluate
