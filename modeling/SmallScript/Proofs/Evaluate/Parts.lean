import SmallScript.Proofs.Library.Natives
import SmallScript.Evaluate.Basic

/-!
# Parts of an evaluation in step

The parts of the evaluator that do not evaluate anything themselves, such as operators, members, declarations
and the sources of imports, do the same on linked values and in linked scopes.
-/

namespace SmallScript.Evaluate

open Machine Array Bridge
open Library (store)
open Value (ScopeRef ObjectRef Native)
open Number (Numeric NumberFault)
open Data (Table)
open Syntax (Pos Node)
open Inspect (pretty nodeDatum)

variable {ρ : Link}

variable {β : Base} {b : Bridge β} {v v' w w' : Value} {s s' : ScopeRef}

/-! ## Operators -/

theorem arithmeticResult_sim (pos : Pos) (r : Except NumberFault Numeric) :
    Sim b ValueLink (arithmeticResult pos r) (arithmeticResult pos r) := by
  cases r with
  | ok n => exact .number n
  | error f =>
    unfold arithmeticResult
    dsimp only
    split
    · exact .problem _
    · exact .fail _ rfl

theorem numbersBinary_sim (pos : Pos) (op : String) (m n : Numeric) :
    Sim b ValueLink (numbersBinary pos op m n) (numbersBinary pos op m n) := by
  unfold numbersBinary
  split
  · exact arithmeticResult_sim pos _
  · split
    · exact Sim.ofNumber.bindSame fun _ _ x => .pure (.bool x)
    · split
      · exact .numberOf _
      · split
        · exact .numberOf _
        · split
          · exact .pure (.bool _)
          · exact .problem _

theorem join_sim (hv : ValueLink b.link v v') (hw : ValueLink b.link w w') :
    Sim b ValueLink (join v w) (join v' w') := by
  cases hv with
  | str s =>
    cases hw with
    | str t => exact .pure (.str _)
    | _ => exact .pure .null
  | array h =>
    cases hw with
    | array h' =>
      refine .heap (.newArray ?_)
      rw [toList_append, toList_append]
      exact List.rel_append (elements_link h) (elements_link h')
    | _ => exact .pure .null
  | object h =>
    cases hw with
    | object h' => exact .heap (.newObject ((fields_link h).insertAll (fields_link h')))
    | _ => exact .pure .null
  | _ => cases hw <;> exact .pure .null

theorem equals_sim (hv : ValueLink b.link v v') (hw : ValueLink b.link w w') : Sim b Same (equals v w) (equals v' w') :=
  .heap (.pure (Snapshot.equal_eq b.link_inj (snapshot_link hv) (snapshot_link hw)))

theorem logicalTruth?_eq (hv : ValueLink ρ v v') : logicalTruth? v = logicalTruth? v' := by
  cases hv <;> rfl

/-- A binary operator on values that are not both numbers. -/
def mixedBinary (pos : Pos) (op : String) (a b : Value) : Action Value :=
  match op with
  | "&&" | "||" =>
    match logicalTruth? a, logicalTruth? b with
    | some x, some y => return .bool ((logical op x y).getD false)
    | _, _ => Action.problem (.logicalOperands pos)
  | "+" => join a b
  | "==" => return .bool (← equals a b)
  | "!=" => return .bool (!(← equals a b))
  | _ => return .null

theorem mixedBinary_sim (pos : Pos) (op : String) (hv : ValueLink b.link v v')
    (hw : ValueLink b.link w w') : Sim b ValueLink (mixedBinary pos op v w) (mixedBinary pos op v' w') := by
  unfold mixedBinary
  rw [logicalTruth?_eq hv, logicalTruth?_eq hw]
  split
  · split
    · exact .pure (.bool _)
    · exact .problem _
  · split
    · exact .pure (.bool _)
    · exact .problem _
  · exact join_sim hv hw
  · exact (equals_sim hv hw).bindSame fun _ _ x => .pure (.bool _)
  · exact (equals_sim hv hw).bindSame fun _ _ x => .pure (.bool _)
  · exact .pure .null

theorem binary_sim (pos : Pos) (op : String) (hv : ValueLink b.link v v') (hw : ValueLink b.link w w') :
    Sim b ValueLink (binary pos op v w) (binary pos op v' w') := by
  have hmixed := mixedBinary_sim pos op hv hw
  cases hv with
  | num m h =>
    cases hw with
    | num n h' => exact numbersBinary_sim pos op m n
    | _ => exact hmixed
  | _ => exact hmixed

theorem compoundValue_sim (pos : Pos) (op : Option String) (hv : ValueLink b.link v v') (hw : ValueLink b.link w w') :
    Sim b ValueLink (compoundValue pos op v w) (compoundValue pos op v' w') := by
  cases hv with
  | num m h =>
    cases hw with
    | num n h' =>
      unfold compoundValue
      dsimp only
      split
      · exact .numberOf _
      · exact .problem _
    | _ => exact .problem _
  | _ => exact .problem _

/-- What two compound assignments change. -/
inductive TargetLink (ρ : Link) : CompoundTarget → CompoundTarget → Prop where
  | name (name : String) : TargetLink ρ (.variable name) (.variable name)
  | value {v v' : Value} (h : ValueLink ρ v v') : TargetLink ρ (.value v) (.value v')
  | other : TargetLink ρ .other .other

theorem TargetLink.mono {ρ'} (hρ : ρ ≤ ρ') {t t'} (h : TargetLink ρ t t') : TargetLink ρ' t t' := by
  cases h with
  | name name => exact .name name
  | value h => exact .value (h.mono hρ)
  | other => exact .other

theorem current_sim {t t'} (ht : TargetLink b.link t t') (hs : b.link .scope s s')
    (pos : Pos) : Sim b ValueLink (t.current s pos) (t'.current s' pos) := by
  cases ht with
  | name name => exact .lookup hs name
  | value h =>
    cases h with
    | num n h => exact .pure (.num n h)
    | _ => exact .problem _
  | other => exact .problem _

/-! ## Members -/

inductive HolderLink (ρ : Link) : Holder → Holder → Prop where
  | named {t t' : Table Value} (h : TableLink ρ t t') : HolderLink ρ (.named t) (.named t')
  | array {a a' : Array Value} (h : ValuesLink ρ a.toList a'.toList) : HolderLink ρ (.array a) (.array a')
  | string (chars : List Char) : HolderLink ρ (.string chars) (.string chars)

theorem holder?_rel (hv : ValueLink b.link v v') :
    Option.Rel (HolderLink b.link) (holder? b.left.heap v) (holder? b.right.heap v') := by
  cases hv with
  | object h => exact .some (.named (fields_link h))
  | array h => exact .some (.array (elements_link h))
  | str s => exact .some (.string _)
  | cls h =>
    obtain ⟨c, c', hc, hc', hl⟩ := classes_link h
    simp only [holder?, hc, hc']
    cases hl with
    | cls _ members => exact .some (.named members)
  | enum h =>
    obtain ⟨c, c', hc, hc', hl⟩ := enums_link h
    simp only [holder?, hc, hc', Option.map_some]
    cases hl with
    | enum _ members => exact .some (.named members)
  | _ => exact .none

theorem hasMembers_eq (hv : ValueLink ρ v v') : hasMembers v = hasMembers v' := by
  cases hv <;> rfl

theorem getD_null_link {o o'} (h : Option.Rel (ValueLink ρ) o o') : ValueLink ρ (o.getD .null) (o'.getD .null) := by
  cases h with
  | none => exact .null
  | some h => exact h

theorem named_link {t t'} (h : TableLink ρ t t') (name : String) : ValueLink ρ (named t name) (named t' name) :=
  getD_null_link (h.get? name)

theorem itemAt?_rel (size : Nat) {get get'} (h : ∀ i, Option.Rel (ValueLink ρ) (get i) (get' i)) (i : Int) :
    Option.Rel (ValueLink ρ) (itemAt? size get i) (itemAt? size get' i) := by
  unfold itemAt?
  split
  · exact h _
  · split
    · exact h _
    · exact .none

theorem indexed_sim (size : Nat) {get get'}
    (h : ∀ i, Option.Rel (ValueLink b.link) (get i) (get' i)) (fault : LookupFault) (i : Int) :
    Sim b ValueLink (indexed size get fault i) (indexed size get' fault i) := by
  have hi := itemAt?_rel size h i
  unfold indexed
  revert hi
  generalize itemAt? size get i = o
  generalize itemAt? size get' i = o'
  intro hi
  split
  · exact .pure .null
  · cases hi with
    | none => exact .fail _ rfl
    | some hv => exact .pure hv

theorem computedMember_sim (pos : Pos) {m m'} (hm : HolderLink b.link m m')
    (hv : ValueLink b.link v v') : Sim b ValueLink (computedMember pos m v) (computedMember pos m' v') := by
  cases hm with
  | named h =>
    cases hv with
    | str name => exact .pure (named_link h name)
    | _ => exact .problem _
  | @array a a' h =>
    cases hv with
    | num n _ =>
      refine Sim.ofNumber.bindSame fun b1 h1 i => ?_
      have hsize : a.size = a'.size := by simpa only [length_toList] using h.length_eq
      rw [hsize]
      refine indexed_sim _ (fun j => ?_) _ _
      rw [← getElem?_toList, ← getElem?_toList]
      exact rel_getElem? (h.mono h1.links) j
    | _ => exact .problem _
  | string chars =>
    cases hv with
    | num n _ =>
      refine Sim.ofNumber.bindSame fun b1 h1 i => ?_
      refine indexed_sim _ (fun j => ?_) _ _
      cases chars[j]? with
      | none => exact .none
      | some c => exact .some (.str _)
    | _ => exact .problem _

theorem writtenMember_sim (pos : Pos) {m m'} (hm : HolderLink b.link m m')
    (name : Option String) : Sim b ValueLink (writtenMember pos m name) (writtenMember pos m' name) := by
  cases hm with
  | named h =>
    cases name with
    | none => exact .problem _
    | some name => exact .pure (named_link h name)
  | array h | string chars => exact .problem _

/-! ## Variables -/

theorem declare_sim (hs : b.link .scope s s') (name : String) (hv : ValueLink b.link v v') (constant overwrite : Bool) :
    Sim b ValueLink (declare s name v constant overwrite) (declare s' name v' constant overwrite) :=
  (Sim.declare hs name hv constant overwrite).bind fun _ h1 _ _ _ =>
    .pure (hv.mono h1.links)

theorem assign_sim (hs : b.link .scope s s') (name : String) (hv : ValueLink b.link v v') :
    Sim b ValueLink (assign s name v) (assign s' name v') :=
  (Sim.assign hs name hv false).bind fun _ h1 _ _ _ => .pure (hv.mono h1.links)

theorem restore_sim (hs : b.link .scope s s') (name : String) {o o'}
    (ho : Option.Rel (ValueLink b.link) o o') : Sim b Same (restore s name o) (restore s' name o') := by
  cases ho with
  | none => exact .delete hs name
  | some hv => exact .assign hs name hv true

theorem declareParams_sim (hs : b.link .scope s s') (params : List String) {args args'}
    (ha : ValuesLink b.link args args') :
    Sim b Same (declareParams s params args) (declareParams s' params args') := by
  induction params generalizing b args args' with
  | nil => exact .pure rfl
  | cons p ps ih =>
    have hh : ValueLink b.link (args.headD .null) (args'.headD .null) := by
      cases ha with
      | nil => exact .null
      | cons h _ => exact h
    have ht : ValuesLink b.link args.tail args'.tail := by
      cases ha with
      | nil => exact .nil
      | cons _ h => exact h
    exact (Sim.declare hs p hh false false).bind fun _ h1 _ _ _ =>
      ih (h1.link hs) (ht.mono h1.links)

theorem checkAssignable_sim (hs : b.link .scope s s') (pos : Pos) (holder : Node) {r r'}
    (hr : RefLink b.link r r') (key : String) :
    Sim b (fun _ _ _ => Assignable r ∧ Assignable r') (checkAssignable s pos holder r key)
      (checkAssignable s' pos holder r' key) := by
  -- the test of the object itself comes last
  have last : ∀ b', b ≤ b' → Sim b' (fun _ _ _ => Assignable r ∧ Assignable r')
        (do if (← .heap).isFrozen r then .problem (.frozenObject key pos))
        (do if (← .heap).isFrozen r' then .problem (.frozenObject key pos)) := by
    intro b' hb
    have hr' := hr.mono hb.links
    refine .heap ?_
    rw [← isFrozen_eq hr']
    cases hf : b'.left.heap.isFrozen r with
    | true => exact .problem _
    | false => exact .pure (assignable_of_not_frozen hr' hf)
  unfold checkAssignable
  cases holder.name? with
  | none => exact last b (le_refl b)
  | some name =>
    refine (Sim.resolve hs name).bind fun b1 h1 found found' hf => .heap ?_
    rw [isConstant_eq hf name]
    split
    · exact .problem_bind _ _ _
    · exact last b1 h1

/-! ## Classes and nodes without meaning -/

theorem construct_sim (pos : Pos) {c c'} (hp : c.params = c'.params)
    (hm : TableLink b.link c.members c'.members) {args args'}
    (ha : ValuesLink b.link args args') : Sim b ValueLink (construct pos c args) (construct pos c' args') := by
  unfold construct
  rw [hp, ha.length_eq]
  split
  · exact .problem _
  · split
    · exact .newObject ((TableLink.ofList (.zip _ ha)).insertAll hm)
    · exact .problem _

theorem unknownNode_sim (n : Node) : Sim b ValueLink (unknownNode n) (unknownNode n) := by
  refine (Sim.printLine _).bind fun b1 _ _ _ _ => ?_
  split
  · exact (Sim.printLine _).bind fun _ _ _ _ _ => .problem _
  · exact (Sim.fail (R := Same) _ rfl).bind fun _ _ _ _ _ => .problem _

theorem enumEntries_link (pos : Pos) (values : List Node) {es}
    (h : enumEntries pos values = .ok es) : EntriesLink ρ es es := by
  induction values generalizing es with
  | nil => cases h; exact .nil
  | cons n rest ih =>
    cases n with
    | identifier p name =>
      simp only [enumEntries] at h
      cases hr : enumEntries pos rest with
      | error e => rw [hr] at h; cases h
      | ok es' =>
        rw [hr] at h
        cases h
        exact .cons ⟨rfl, .str name⟩ (ih hr)
    | _ => cases h

/-! ## Imports -/

theorem store_bind_sim {γ γ' : Type} {S : Link → γ → γ' → Prop} {k : World.FileStore → Action γ}
    {k'} (h : Sim b S (k b.right.world.files) (k' b.right.world.files)) :
    Sim b S (store >>= k) (store >>= k') := by
  refine .congr (?_ : _ = k b.right.world.files b.left) (?_ : _ = k' b.right.world.files b.right) h
  · rw [← b.surroundings.files]
    rfl
  · rfl

theorem textOf_sim (content : ByteArray) : Sim b Same (Library.textOf content) (Library.textOf content) := by
  unfold Library.textOf
  split
  · exact .pure rfl
  · exact .fail _ rfl

theorem sourceText_sim (path : String) : Sim b Same (sourceText path) (sourceText path) := by
  refine store_bind_sim ?_
  split
  · exact textOf_sim _
  · exact .fail _ rfl

theorem packageList_sim (name : String) (pos : Pos) : Sim b Same (packageList name pos) (packageList name pos) := by
  refine store_bind_sim ?_
  split
  · split
    · exact .problem _
    · exact .fail _ rfl
  · refine (textOf_sim _).bindSame fun _ _ t => ?_
    split
    · exact .problem _
    · exact .pure rfl

theorem access_sim {α : Type} (r : Except Json.AccessFault α) : Sim b Same (Action.access r) (Action.access r) := by
  cases r with
  | ok a => exact .pure rfl
  | error f => cases f <;> exact .fail _ rfl

theorem packageSource_sim (name : String) (pos : Pos) :
    Sim b Same (packageSource name pos) (packageSource name pos) := by
  refine (packageList_sim name pos).bindSame fun b1 _ doc => ?_
  refine (access_sim _).bindSame fun b2 _ x => ?_
  split
  · refine store_bind_sim ?_
    dsimp only
    split
    · exact .problem _
    · split
      · exact .problem _
      · exact sourceText_sim _
  · exact .problem _

theorem moduleSource_sim (name : String) (pos : Pos) : Sim b Same (moduleSource name pos) (moduleSource name pos) := by
  unfold moduleSource
  split
  · refine store_bind_sim ?_
    split
    · exact sourceText_sim _
    · exact .problem _
  · exact packageSource_sim name pos

theorem importNames_sim (hs : b.link .scope s s') (module : String) (pos : Pos) {r r'}
    (hr : RefLink b.link r r') (names : List String) :
    Sim b Same (importNames s module pos (·.fields r) names) (importNames s' module pos (·.fields r') names) := by
  induction names generalizing b with
  | nil => exact .pure rfl
  | cons name rest ih =>
    refine .heap ?_
    have h := (fields_link hr).get? name
    revert h
    generalize (b.left.heap.fields r).get? name = o
    generalize (b.right.heap.fields r').get? name = o'
    intro h
    cases h with
    | none => exact .problem_bind _ _ _
    | some hv =>
      exact (Sim.declare hs name hv true true).bind fun _ h1 _ _ _ =>
        ih (h1.link hs) (hr.mono h1.links)

theorem importObject_sim (hs : b.link .scope s s') (module : String) (pos : Pos) {r r'}
    (hr : RefLink b.link r r') (names : Option (List String)) (newName : Option String) :
    Sim b Same (importObject s module pos r names newName) (importObject s' module pos r' names newName) := by
  unfold importObject
  split
  · exact .declare hs _ (.object hr) true false
  · exact importNames_sim hs module pos hr _

end SmallScript.Evaluate
