import SmallScript.Proofs.Machine.Cells
import Mathlib.Data.List.Forall2
import Mathlib.Order.PropInstances

/-!
# Links between heaps

A link pairs references of two heaps, kind by kind. Two values are linked if they are the same scalar,
or references that the link pairs; a native function is linked with itself, unless it belongs to a
guarded module. Tables and contents of cells are linked part by part.

Operations on linked tables give linked results, and what can be seen of a value without following a
reference is the same on both sides.
-/

namespace SmallScript.Machine

open List
open Value (ScopeRef ObjectRef Native ModuleItem modules guardedModules)
open Data (Table)
open Number (Numeric)

variable {vs vs' : List Value} {i j : Nat}

variable {v v' : Value} {es es' : List (String × Value)} {t t' : Table Value}

/-- The native function that a member of a module is. -/
def moduleNative? : ModuleItem → Option Native
  | .function f => some f
  | .number _ => none

/-- The native functions of the guarded modules. -/
def guardedNatives : List Native :=
  (modules.filter fun m => guardedModules.contains m.1).flatMap fun m =>
    m.2.filterMap fun e => moduleNative? e.2

/-- Pairs of references, by kind. -/
abbrev Link := CellKind → Nat → Nat → Prop

/-- No two references of one side are paired with the same reference of the other. -/
def Link.IsInjective (ρ : Link) : Prop :=
  ∀ ⦃k : CellKind⦄ ⦃i j i' j' : Nat⦄, ρ k i j → ρ k i' j' → (i = i' ↔ j = j')

variable {ρ ρ' : Link}

inductive RefLink (ρ : Link) : ObjectRef → ObjectRef → Prop where
  | record {i j : Nat} (h : ρ .record i j) : RefLink ρ (.record i) (.record j)
  | scope {i j : Nat} (h : ρ .scope i j) : RefLink ρ (.scope i) (.scope j)

inductive ValueLink (ρ : Link) : Value → Value → Prop where
  | null : ValueLink ρ .null .null
  | bool (b : Bool) : ValueLink ρ (.bool b) (.bool b)
  | num (n : Numeric) {s t : Nat} (h : ρ .stamp s t) : ValueLink ρ (.num n s) (.num n t)
  | str (s : String) : ValueLink ρ (.str s) (.str s)
  | array {i j : Nat} (h : ρ .array i j) : ValueLink ρ (.array i) (.array j)
  | object {r r' : ObjectRef} (h : RefLink ρ r r') : ValueLink ρ (.object r) (.object r')
  | func {i j : Nat} (h : ρ .closure i j) : ValueLink ρ (.func i) (.func j)
  | native (f : Native) (h : f ∉ guardedNatives) : ValueLink ρ (.native f) (.native f)
  | cls {i j : Nat} (h : ρ .cls i j) : ValueLink ρ (.cls i) (.cls j)
  | enum {i j : Nat} (h : ρ .enum i j) : ValueLink ρ (.enum i) (.enum j)
  | bare : ValueLink ρ .bare .bare

theorem RefLink.mono (hρ : ρ ≤ ρ') {r r'} (h : RefLink ρ r r') : RefLink ρ' r r' := by
  cases h with
  | record h => exact .record (hρ _ _ _ h)
  | scope h => exact .scope (hρ _ _ _ h)

theorem ValueLink.mono (hρ : ρ ≤ ρ') (h : ValueLink ρ v v') : ValueLink ρ' v v' := by
  cases h with
  | null => exact .null
  | bool b => exact .bool b
  | num n h => exact .num n (hρ _ _ _ h)
  | str s => exact .str s
  | array h => exact .array (hρ _ _ _ h)
  | object h => exact .object (h.mono hρ)
  | func h => exact .func (hρ _ _ _ h)
  | native f h => exact .native f h
  | cls h => exact .cls (hρ _ _ _ h)
  | enum h => exact .enum (hρ _ _ _ h)
  | bare => exact .bare

/-! ## What can be seen of a value -/

theorem ValueLink.kind_eq (h : ValueLink ρ v v') : v.kind = v'.kind := by
  cases h <;> rfl

theorem ValueLink.num?_eq (h : ValueLink ρ v v') : v.num? = v'.num? := by
  cases h <;> rfl

theorem ValueLink.str?_eq (h : ValueLink ρ v v') : v.str? = v'.str? := by
  cases h <;> rfl

theorem ValueLink.truth?_eq (h : ValueLink ρ v v') : v.truth? = v'.truth? := by
  cases h <;> rfl

/-! ## Lists of values -/

abbrev ValuesLink (ρ : Link) : List Value → List Value → Prop := List.Forall₂ (ValueLink ρ)

theorem ValuesLink.mono (hρ : ρ ≤ ρ') (h : ValuesLink ρ vs vs') : ValuesLink ρ' vs vs' := h.imp fun _ _ hv => hv.mono hρ

theorem rel_getElem? {α α' : Type} {R} {xs : List α} {ys : List α'}
    (h : List.Forall₂ R xs ys) (i : Nat) : Option.Rel R xs[i]? ys[i]? := by
  induction h generalizing i with
  | nil => simp
  | cons hx _ ih =>
    cases i with
    | zero => simpa using hx
    | succ i => simpa using ih i

theorem ValuesLink.mapM_num? (h : ValuesLink ρ vs vs') : vs.mapM Value.num? = vs'.mapM Value.num? := by
  induction h with
  | nil => rfl
  | cons hv _ ih => rw [mapM_cons, mapM_cons, hv.num?_eq, ih]

theorem ValuesLink.mapM_str? (h : ValuesLink ρ vs vs') : vs.mapM Value.str? = vs'.mapM Value.str? := by
  induction h with
  | nil => rfl
  | cons hv _ ih => rw [mapM_cons, mapM_cons, hv.str?_eq, ih]

/-! ## Tables -/

def EntryLink (ρ : Link) (e e' : String × Value) : Prop := e.1 = e'.1 ∧ ValueLink ρ e.2 e'.2

abbrev EntriesLink (ρ : Link) : List (String × Value) → List (String × Value) → Prop :=
  List.Forall₂ (EntryLink ρ)

/-- Linked tables: the same names in the same order, with linked values. -/
def TableLink (ρ : Link) (t t' : Table Value) : Prop := EntriesLink ρ t.entries t'.entries

theorem EntriesLink.mono (hρ : ρ ≤ ρ') (h : EntriesLink ρ es es') : EntriesLink ρ' es es' :=
  h.imp fun _ _ he => ⟨he.1, he.2.mono hρ⟩

theorem TableLink.mono (hρ : ρ ≤ ρ') (h : TableLink ρ t t') : TableLink ρ' t t' := EntriesLink.mono hρ h

theorem TableLink.empty : TableLink ρ .empty .empty := .nil

theorem EntriesLink.lookup (h : EntriesLink ρ es es') (name : String) :
    Option.Rel (ValueLink ρ) (es.lookup name) (es'.lookup name) := by
  induction h with
  | nil => exact .none
  | @cons e e' es es' he _ ih =>
    obtain ⟨k, v⟩ := e
    obtain ⟨k', v'⟩ := e'
    obtain ⟨rfl, hv⟩ := he
    simp only [lookup_cons]
    split
    · exact .some hv
    · exact ih

theorem TableLink.get? (h : TableLink ρ t t') (name : String) : Option.Rel (ValueLink ρ) (t.get? name) (t'.get? name) :=
  EntriesLink.lookup h name

theorem isSome_of_rel {α α' : Type} {R} {o : Option α} {o' : Option α'}
    (h : Option.Rel R o o') : o.isSome = o'.isSome := by
  cases h <;> rfl

theorem rel_mono (hρ : ρ ≤ ρ') {o o'} (h : Option.Rel (ValueLink ρ) o o') : Option.Rel (ValueLink ρ') o o' := by
  cases h with
  | none => exact .none
  | some h => exact .some (h.mono hρ)

theorem TableLink.contains_eq (h : TableLink ρ t t') (name : String) : t.contains name = t'.contains name :=
  isSome_of_rel (h.get? name)

theorem EntriesLink.insertEntry (h : EntriesLink ρ es es') (name : String) (hv : ValueLink ρ v v') :
    EntriesLink ρ (Table.insertEntry name v es) (Table.insertEntry name v' es') := by
  induction h with
  | nil => exact .cons ⟨rfl, hv⟩ .nil
  | @cons e e' es es' he hes ih =>
    simp only [Table.insertEntry, he.1]
    split
    · exact .cons ⟨rfl, hv⟩ hes
    · exact .cons he ih

theorem TableLink.insert (h : TableLink ρ t t') (name : String) (hv : ValueLink ρ v v') :
    TableLink ρ (t.insert name v) (t'.insert name v') :=
  .insertEntry h name hv

theorem EntriesLink.filter (h : EntriesLink ρ es es') (name : String) :
    EntriesLink ρ (es.filter (·.1 != name)) (es'.filter (·.1 != name)) := by
  induction h with
  | nil => exact .nil
  | @cons e e' es es' he _ ih =>
    simp only [filter_cons, he.1]
    split
    · exact .cons he ih
    · exact ih

theorem TableLink.erase (h : TableLink ρ t t') (name : String) : TableLink ρ (t.erase name) (t'.erase name) :=
  .filter h name

theorem TableLink.insertAll (h : TableLink ρ t t') (he : EntriesLink ρ es es') :
    TableLink ρ (t.insertAll es) (t'.insertAll es') := by
  unfold Table.insertAll
  induction he generalizing t t' with
  | nil => exact h
  | @cons e e' es es' he _ ih =>
    rw [foldl_cons, foldl_cons, ← he.1]
    exact ih (h.insert e.1 he.2)

theorem TableLink.ofList (he : EntriesLink ρ es es') : TableLink ρ (Table.ofList es) (Table.ofList es') :=
  empty.insertAll he

theorem EntriesLink.zip (names : List String) (h : ValuesLink ρ vs vs') :
    EntriesLink ρ (names.zip vs) (names.zip vs') := by
  induction h generalizing names with
  | nil => cases names <;> exact .nil
  | cons hv _ ih =>
    cases names with
    | nil => exact .nil
    | cons n names => exact .cons ⟨rfl, hv⟩ (ih names)

theorem TableLink.values (h : TableLink ρ t t') : ValuesLink ρ t.values t'.values := by
  unfold Table.values ValuesLink
  rw [forall₂_map_left_iff, forall₂_map_right_iff]
  exact h.imp fun _ _ he => he.2

theorem TableLink.size_eq (h : TableLink ρ t t') : t.size = t'.size := h.length_eq

/-! ## Contents of cells -/

/-- Linked enclosing scopes of two scopes; both were made before the scopes themselves. -/
inductive ParentLink (ρ : Link) (i j : Nat) : Option ScopeRef → Option ScopeRef → Prop where
  | none : ParentLink ρ i j none none
  | some {p q : ScopeRef} (h : ρ .scope p q) (hp : p < i) (hq : q < j) :
    ParentLink ρ i j (some p) (some q)

/-- The contents of the cells `i` and `j` are linked. Scopes on both sides are guarded, and the modules,
which come first among the records, are frozen. -/
inductive ContentLink (ρ : Link) (i j : Nat) : Content → Content → Prop where
  | scope {a b : Scope} (parent : ParentLink ρ i j a.parent b.parent) (vars : TableLink ρ a.vars b.vars)
      (constants : a.constants = b.constants) (left : a.guarded = true) (right : b.guarded = true) :
    ContentLink ρ i j (.scope a) (.scope b)
  | array {a b : Array Value} (elements : ValuesLink ρ a.toList b.toList) :
    ContentLink ρ i j (.array a) (.array b)
  | record {a b : Record} (fields : TableLink ρ a.fields b.fields) (frozen : a.frozen = b.frozen)
      (left : i < modules.length → a.frozen = true) (right : j < modules.length → b.frozen = true) :
    ContentLink ρ i j (.record a) (.record b)
  | closure {a b : Closure} (name : a.name = b.name) (params : a.params = b.params)
      (scope : ρ .scope a.scope b.scope) (body : a.body = b.body) :
    ContentLink ρ i j (.closure a) (.closure b)
  | cls {a b : ClassDef} (name : a.name = b.name) (members : TableLink ρ a.members b.members)
      (params : a.params = b.params) : ContentLink ρ i j (.cls a) (.cls b)
  | enum {a b : EnumDef} (name : a.name = b.name) (members : TableLink ρ a.members b.members) :
    ContentLink ρ i j (.enum a) (.enum b)
  | stamp : ContentLink ρ i j .stamp .stamp

theorem ParentLink.mono (hρ : ρ ≤ ρ') {p q} (h : ParentLink ρ i j p q) : ParentLink ρ' i j p q := by
  cases h with
  | none => exact .none
  | some h hp hq => exact .some (hρ _ _ _ h) hp hq

theorem ContentLink.mono (hρ : ρ ≤ ρ') {c c'} (h : ContentLink ρ i j c c') : ContentLink ρ' i j c c' := by
  cases h with
  | scope parent vars constants left right =>
    exact .scope (parent.mono hρ) (vars.mono hρ) constants left right
  | array elements => exact .array (elements.mono hρ)
  | record fields frozen left right => exact .record (fields.mono hρ) frozen left right
  | closure name params scope body => exact .closure name params (hρ _ _ _ scope) body
  | cls name members params => exact .cls name (members.mono hρ) params
  | enum name members => exact .enum name (members.mono hρ)
  | stamp => exact .stamp

theorem ContentLink.kind_eq {c c'} (h : ContentLink ρ i j c c') : c.kind = c'.kind := by
  cases h <;> rfl

end SmallScript.Machine
