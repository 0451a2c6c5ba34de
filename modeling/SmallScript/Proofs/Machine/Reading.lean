import SmallScript.Proofs.Machine.Bridge

/-!
# Reading linked heaps

What two linked machines find under linked references: linked tables and elements, the same answers to
questions that are no references, and linked answers to those that are. Every scope that a guarded
program can name is guarded, and an object that is not frozen is no module.
-/

namespace SmallScript.Machine

open Option
open Value (ScopeRef ObjectRef modules)
open Data (Table)

variable {i j : Nat}

/-- An object that may be changed: a record behind the modules, or a scope. -/
def Assignable : ObjectRef → Prop
  | .record i => modules.length ≤ i
  | .scope _ => True

namespace Bridge

variable {β : Base} {b : Bridge β}

/-! ## Cells -/

/-- Linked references lead to linked contents, for any one kind of cell. -/
theorem cells_link {α : Type} {k} (f : α → Content) (get : Heap → Nat → Option α)
    (hget : ∀ h i, h.content? k i = (get h i).map f) (h : b.link k i j) :
    ∃ a a', get b.left.heap i = some a ∧ get b.right.heap j = some a' ∧ ContentLink b.link i j (f a) (f a') := by
  obtain ⟨c, c', hc, hc', hl⟩ := b.linked.content h
  rw [hget] at hc hc'
  obtain ⟨a, ha, rfl⟩ := map_eq_some_iff.1 hc
  obtain ⟨a', ha', rfl⟩ := map_eq_some_iff.1 hc'
  exact ⟨a, a', ha, ha', hl⟩

theorem scopes_link (h : b.link .scope i j) : ∃ a a', b.left.heap.scopes[i]? = some a ∧
    b.right.heap.scopes[j]? = some a' ∧ ContentLink b.link i j (.scope a) (.scope a') :=
  cells_link .scope (fun h i => h.scopes[i]?) (fun _ _ => rfl) h

theorem arrays_link (h : b.link .array i j) : ∃ a a', b.left.heap.arrays[i]? = some a ∧
    b.right.heap.arrays[j]? = some a' ∧ ContentLink b.link i j (.array a) (.array a') :=
  cells_link .array (fun h i => h.arrays[i]?) (fun _ _ => rfl) h

theorem records_link (h : b.link .record i j) : ∃ a a', b.left.heap.records[i]? = some a ∧
    b.right.heap.records[j]? = some a' ∧ ContentLink b.link i j (.record a) (.record a') :=
  cells_link .record (fun h i => h.records[i]?) (fun _ _ => rfl) h

theorem closures_link (h : b.link .closure i j) : ∃ a a', b.left.heap.closures[i]? = some a ∧
    b.right.heap.closures[j]? = some a' ∧ ContentLink b.link i j (.closure a) (.closure a') :=
  cells_link .closure (fun h i => h.closures[i]?) (fun _ _ => rfl) h

theorem classes_link (h : b.link .cls i j) : ∃ a a', b.left.heap.classes[i]? = some a ∧
    b.right.heap.classes[j]? = some a' ∧ ContentLink b.link i j (.cls a) (.cls a') :=
  cells_link .cls (fun h i => h.classes[i]?) (fun _ _ => rfl) h

theorem enums_link (h : b.link .enum i j) : ∃ a a', b.left.heap.enums[i]? = some a ∧
    b.right.heap.enums[j]? = some a' ∧ ContentLink b.link i j (.enum a) (.enum a') :=
  cells_link .enum (fun h i => h.enums[i]?) (fun _ _ => rfl) h

/-! ## Arrays and objects -/

theorem elements_link (h : b.link .array i j) :
    ValuesLink b.link (b.left.heap.elements i).toList (b.right.heap.elements j).toList := by
  obtain ⟨a, a', ha, ha', hl⟩ := arrays_link h
  cases hl with
  | array elements => simpa only [Heap.elements, ha, ha', getD_some] using elements

theorem fields_link {r r'} (h : RefLink b.link r r') :
    TableLink b.link (b.left.heap.fields r) (b.right.heap.fields r') := by
  cases h with
  | record h =>
    obtain ⟨a, a', ha, ha', hl⟩ := records_link h
    cases hl with
    | record fields => simpa only [Heap.fields, ha, ha', map_some, getD_some] using fields
  | scope h =>
    obtain ⟨a, a', ha, ha', hl⟩ := scopes_link h
    cases hl with
    | scope _ vars => simpa only [Heap.fields, ha, ha', map_some, getD_some] using vars

theorem isFrozen_eq {r r'} (h : RefLink b.link r r') : b.left.heap.isFrozen r = b.right.heap.isFrozen r' := by
  cases h with
  | record h =>
    obtain ⟨a, a', ha, ha', hl⟩ := records_link h
    cases hl with
    | record _ frozen => simpa only [Heap.isFrozen, ha, ha', map_some, getD_some] using frozen
  | scope h => rfl

/-- What is not frozen may be changed on both sides. -/
theorem assignable_of_not_frozen {r r'} (h : RefLink b.link r r')
    (hf : b.left.heap.isFrozen r = false) : Assignable r ∧ Assignable r' := by
  have hf' := (isFrozen_eq h).symm.trans hf
  cases h with
  | scope h => exact ⟨trivial, trivial⟩
  | record h =>
    obtain ⟨a, a', ha, ha', hl⟩ := records_link h
    simp only [Heap.isFrozen, ha, ha', map_some] at hf hf'
    cases hl with
    | record _ _ left right =>
      refine ⟨Nat.le_of_not_lt fun hi => ?_, Nat.le_of_not_lt fun hj => ?_⟩
      · rw [left hi] at hf
        cases hf
      · rw [right hj] at hf'
        cases hf'

/-! ## Scopes -/

theorem isGuarded_left (h : b.link .scope i j) : b.left.heap.isGuarded i = true := by
  obtain ⟨a, a', ha, -, hl⟩ := scopes_link h
  cases hl with
  | scope _ _ _ left _ => simpa only [Heap.isGuarded, ha, map_some, getD_some] using left

theorem isGuarded_right (h : b.link .scope i j) : b.right.heap.isGuarded j = true := by
  obtain ⟨a, a', -, ha', hl⟩ := scopes_link h
  cases hl with
  | scope _ _ _ _ right => simpa only [Heap.isGuarded, ha', map_some, getD_some] using right

theorem bindsHere_eq (h : b.link .scope i j) (name : String) :
    b.left.heap.bindsHere i name = b.right.heap.bindsHere j name := by
  obtain ⟨a, a', ha, ha', hl⟩ := scopes_link h
  cases hl with
  | scope _ vars =>
    simpa only [Heap.bindsHere, ha, ha', map_some, getD_some] using vars.contains_eq name

theorem isConstant_eq (h : b.link .scope i j) (name : String) :
    b.left.heap.isConstant i name = b.right.heap.isConstant j name := by
  obtain ⟨a, a', ha, ha', hl⟩ := scopes_link h
  cases hl with
  | scope _ _ constants =>
    simp only [Heap.isConstant, ha, ha', map_some, constants]

/-- The search for a name goes outward through linked scopes. -/
theorem resolve?_rel (name : String) (h : b.link .scope i j) :
    Option.Rel (b.link .scope) (b.left.heap.resolve? i name) (b.right.heap.resolve? j name) := by
  induction i using Nat.strong_induction_on generalizing j with
  | _ i ih =>
    obtain ⟨a, a', ha, ha', hl⟩ := scopes_link h
    cases hl with
    | scope parent vars =>
      rw [Heap.resolve?, Heap.resolve?]
      simp only [ha, ha', ← vars.contains_eq name]
      split
      · exact .some h
      · revert parent
        generalize a.parent = p
        generalize a'.parent = q
        intro parent
        cases parent with
        | none => exact .none
        | some hp hi hj =>
          simp only [hi, hj]
          exact ih _ hi hp

theorem lookup?_rel (name : String) (h : b.link .scope i j) :
    Option.Rel (ValueLink b.link) (b.left.heap.lookup? i name) (b.right.heap.lookup? j name) := by
  unfold Heap.lookup?
  have hr := resolve?_rel name h
  revert hr
  generalize b.left.heap.resolve? i name = o
  generalize b.right.heap.resolve? j name = o'
  intro hr
  cases hr with
  | none => exact .none
  | some hf =>
    obtain ⟨a, a', ha, ha', hl⟩ := scopes_link hf
    cases hl with
    | scope _ vars => simpa only [bind_eq_bind, bind_some, ha, ha'] using vars.get? name

end Bridge

end SmallScript.Machine
