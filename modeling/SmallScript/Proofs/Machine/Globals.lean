import SmallScript.Proofs.Machine.Simulation

/-!
# New global scopes

A heap is `Ready` for programs if the modules are in place. Two ready machines with a new guarded global
scope each are a base for two runs: the scopes are paired, and so are the modules that are not guarded. All
that such a scope or module holds at the start is plain: scalars, and native functions outside the guarded
modules.
-/

namespace SmallScript.Machine

open List
open Value (ScopeRef ObjectRef Native ModuleItem modules guardedModules)
open Data (Table)

/-- The value is a scalar or a native function that a guarded program may have. -/
def isPlain : Value → Bool
  | .null | .bool _ | .str _ | .bare => true
  | .num _ stamp => stamp == 0
  | .native f => !guardedNatives.contains f
  | _ => false

theorem ValueLink.of_isPlain {ρ} (hρ : ρ .stamp 0 0) {v} (hv : isPlain v = true) : ValueLink ρ v v := by
  cases v with
  | null => exact .null
  | bool b => exact .bool b
  | str s => exact .str s
  | bare => exact .bare
  | num n stamp =>
    have hs : stamp = 0 := by simpa [isPlain] using hv
    subst hs
    exact .num n hρ
  | native f => exact .native f (by simpa [isPlain] using hv)
  | _ => cases hv

theorem EntriesLink.of_isPlain {ρ} (hρ : ρ .stamp 0 0) {es} (h : ∀ e ∈ es, isPlain e.2 = true) : EntriesLink ρ es es :=
  forall₂_same.2 fun e he => ⟨rfl, ValueLink.of_isPlain hρ (h e he)⟩

theorem isPlain_globalEntries : ∀ e ∈ Heap.globalEntries, isPlain e.2 = true := by decide

theorem isPlain_openModules : ∀ m ∈ modules, m.1 ∉ guardedModules →
    ∀ e ∈ m.2, isPlain (Heap.itemValue e.2) = true := by decide

/-- The record of a module. -/
def moduleRecord (m : String × List (String × ModuleItem)) : Record :=
  ⟨⟨m.2.map fun e => (e.1, Heap.itemValue e.2)⟩, true⟩

namespace Heap

/-- The modules are in place. -/
structure Ready (h : Heap) : Prop where
  modules : ∀ i < Value.modules.length, h.records[i]? = Value.modules[i]?.map moduleRecord
  stamp : 0 < h.nextStamp

theorem initial_ready : Heap.initial.Ready where
  modules i _ := by
    rw [initial, getElem?_toArray, getElem?_map]
    rfl
  stamp := Nat.one_pos

theorem Ready.modules_le {h : Heap} (hr : h.Ready) : Value.modules.length ≤ h.count .record := by
  refine Nat.le_of_not_lt fun hlt => ?_
  have hlt : h.records.size < Value.modules.length := hlt
  have hnone := hr.modules h.records.size hlt
  rw [getElem?_eq_getElem hlt, Array.getElem?_eq_none (le_refl _)] at hnone
  cases hnone

/-- A new global scope of a guarded session. -/
def guardedGlobal : Scope := ⟨none, ⟨globalEntries⟩, globalEntries.map (·.1), true⟩

theorem newGlobal_allocates (h : Heap) : h.Allocates (.scope guardedGlobal) (h.newGlobal true).2 :=
  pushScope_allocates h guardedGlobal

theorem Ready.newGlobal {h : Heap} (hr : h.Ready) : (h.newGlobal true).2.Ready := ⟨hr.modules, hr.stamp⟩

end Heap

/-- The pairs at the start: two global scopes, the open modules, and the stamp of numbers. -/
def startLink (g g' : ScopeRef) : Link
  | .scope, i, j => i = g ∧ j = g'
  | .record, i, j => i = j ∧ ∃ m, modules[i]? = some m ∧ m.1 ∉ guardedModules
  | .stamp, i, j => i = 0 ∧ j = 0
  | _, _, _ => False

theorem startLink_inj (g g' : ScopeRef) : Link.IsInjective (startLink g g') := by
  intro k i j i' j' h h'
  cases k with
  | scope | stamp => exact ⟨fun _ => h.2.trans h'.2.symm, fun _ => h.1.trans h'.1.symm⟩
  | record =>
    rw [h.1, h'.1]
  | array | closure | cls | enum => exact h.elim

theorem startLink_module {g g' name ref} (hm : Heap.module? name = some ref) (hn : name ∉ guardedModules) :
    RefLink (startLink g g') ref ref := by
  obtain ⟨i, hi, rfl⟩ := Option.map_eq_some_iff.1 hm
  obtain ⟨hlt, hname, -⟩ := findIdx?_eq_some_iff_getElem.1 hi
  refine .record ⟨rfl, modules[i], getElem?_eq_getElem hlt, ?_⟩
  rwa [beq_iff_eq.1 hname]

theorem startLink_content {g g'} {h h' : Heap} (hr : h.Ready) (hr' : h'.Ready)
    (hg : h.scopes[g]? = some Heap.guardedGlobal) (hg' : h'.scopes[g']? = some Heap.guardedGlobal)
    {k i j} (hk : startLink g g' k i j) :
    ∃ c c', h.content? k i = some c ∧ h'.content? k j = some c' ∧ ContentLink (startLink g g') i j c c' := by
  have hstamp : startLink g g' .stamp 0 0 := ⟨rfl, rfl⟩
  cases k with
  | scope =>
    obtain ⟨rfl, rfl⟩ := hk
    refine ⟨_, _, congrArg (Option.map _) hg, congrArg (Option.map _) hg', ?_⟩
    exact .scope .none (.of_isPlain hstamp isPlain_globalEntries) rfl rfl rfl
  | record =>
    obtain ⟨rfl, m, hm, hopen⟩ := hk
    obtain ⟨hlt, rfl⟩ := List.getElem?_eq_some_iff.1 hm
    have hrec := hr.modules i hlt
    have hrec' := hr'.modules i hlt
    rw [hm] at hrec hrec'
    refine ⟨_, _, congrArg (Option.map _) hrec, congrArg (Option.map _) hrec', ?_⟩
    refine .record (.of_isPlain hstamp fun e he => ?_) rfl (fun _ => rfl) fun _ => rfl
    obtain ⟨item, hitem, rfl⟩ := mem_map.1 he
    exact isPlain_openModules _ (getElem_mem hlt) hopen item hitem
  | stamp =>
    obtain ⟨rfl, rfl⟩ := hk
    exact ⟨.stamp, .stamp, if_pos hr.stamp, if_pos hr'.stamp, .stamp⟩
  | array | closure | cls | enum => exact hk.elim

/-- Two ready machines with a new global scope each. -/
def Base.ofGlobals {m m' : Machine} (hr : m.heap.Ready) (hr' : m'.heap.Ready) {g g' : ScopeRef}
    (hg : m.heap.scopes[g]? = some Heap.guardedGlobal)
    (hg' : m'.heap.scopes[g']? = some Heap.guardedGlobal)
    (hw : SameSurroundings m.world m'.world) : Base where
  left := m
  right := m'
  known := startLink g g'
  known_inj := startLink_inj g g'
  content := startLink_content hr hr' hg hg'
  stamp := ⟨rfl, rfl⟩
  openModules _ _ := startLink_module
  modulesLeft := hr.modules_le
  modulesRight := hr'.modules_le
  surroundings := hw

end SmallScript.Machine
