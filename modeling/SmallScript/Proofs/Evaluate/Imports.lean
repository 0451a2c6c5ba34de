import SmallScript.Proofs.Evaluate.Log
import SmallScript.Proofs.Machine.Neat

/-!
# Imports of names

An import of names declares them as constants, and it overwrites: a name that is a constant of the scope already, or that
is named twice, is listed a second time. `Relists` says so of a statement. No other statement does it, so as long as none
of these is entered all scopes stay neat.
-/

namespace SmallScript.Evaluate

open Machine List
open Value (ScopeRef)
open Data (Table)
open Syntax

/-- The statement, executed in a scope, lists a name as a constant that is listed already: it imports a name twice, or
one that is a constant of the scope. -/
def Relists : Node → ScopeRef → Heap → Prop
  | .importing _ _ (some names) _, s, h => ¬ names.Nodup ∨ ∃ x ∈ names, x ∈ h.constantsOf s
  | _, _, _ => False

/-- No import in the log relists a name. -/
def Unrelisted (log : List Entry) : Prop :=
  ∀ (n : Node) (s : ScopeRef) (m : Machine), .event (.enter n s) m ∈ log → ¬ Relists n s m.heap

theorem unrelisted_append {log log'} : Unrelisted (log ++ log') ↔ Unrelisted log ∧ Unrelisted log' := by
  simp only [Unrelisted, mem_append, or_imp, forall_and]

/-- Names are added to the constants of a scope, and the heap stays neat if each of them is new. -/
structure Adds (s : ScopeRef) (names : List String) (h h' : Heap) : Prop where
  frames : h.Frames (· = s) h'
  constants : h'.constantsOf s = h.constantsOf s ++ names
  neat : h.Neat → (h.constantsOf s ++ names).Nodup → h'.Neat

theorem Adds.refl (s : ScopeRef) (h : Heap) : Adds s [] h h := ⟨.refl h, (append_nil _).symm, fun hn _ => hn⟩

theorem Adds.cons {s name v names h h1 h2}
    (hs : s < h.scopes.size) (hd : h.declare s name v true true = .ok h1) (hrest : Adds s names h1 h2) :
    Adds s (name :: names) h h2 := by
  have hconstants : h1.constantsOf s = h.constantsOf s ++ [name] := by
    obtain ⟨-, rfl⟩ := Heap.declare_ok hd
    have hsize : s < (h.bind s name v).scopes.size := lt_of_lt_of_eq hs Array.size_modify.symm
    rw [if_pos rfl, Heap.constantsOf_addConstant hsize, Heap.constantsOf_bind]
  refine ⟨(Heap.declare_frames hd).trans hrest.frames, ?_, fun hn hnodup => ?_⟩
  · rw [hrest.constants, hconstants, append_assoc, singleton_append]
  · rw [← singleton_append, ← append_assoc, ← hconstants] at hnodup
    refine hrest.neat (hn.declare hd fun _ => ?_) hnodup
    rw [hconstants] at hnodup
    have hfirst := (nodup_append.1 (nodup_append.1 hnodup).1).2.2
    exact fun hmem => hfirst name hmem name (.head _) rfl

/-- An import declares the names up to the first one that the module does not have. -/
theorem importNames_adds (s : ScopeRef) (module : String) (pos : Pos) (source : Heap → Table Value)
    (names : List String) {m} (hs : s < m.heap.scopes.size) :
    ∃ done, done <+: names ∧ Adds s done m.heap (importNames s module pos source names m).2.heap ∧
      ((importNames s module pos source names m).1 = .ok () → done = names) := by
  induction names generalizing m with
  | nil => exact ⟨[], prefix_rfl, .refl s m.heap, fun _ => rfl⟩
  | cons name rest ih =>
    rw [importNames, Action.heap_bind]
    cases hv : (source m.heap).get? name with
    | none =>
      exact ⟨[], nil_prefix, .refl s m.heap, fun h => by cases h⟩
    | some v =>
      dsimp only
      obtain ⟨h1, hd⟩ : ∃ h1, m.heap.declare s name v true true = .ok h1 := by simp [Heap.declare]
      have hstep : Action.scoping (·.declare s name v true true) m = (.ok (), { m with heap := h1 }) := by
        simp only [Action.scoping, hd]
      rw [Action.bind_of_ok hstep]
      obtain ⟨done, hprefix, hadds, hall⟩ := ih (m := { m with heap := h1 })
        (lt_of_lt_of_le hs (Heap.declare_frames hd).size)
      exact ⟨name :: done, prefix_cons_inj name |>.2 hprefix, .cons hs hd hadds, fun h => by rw [hall h]⟩

/-- A statement that does not relist a name adds each name once. -/
theorem nodup_of_not_relists {pos module names newName s h} (hn : h.Neat) (hrelists : ¬ Relists (.importing pos module (some names) newName) s h) :
    (h.constantsOf s ++ names).Nodup := by
  simp only [Relists, not_or, not_not, not_exists, not_and] at hrelists
  rw [nodup_append]
  refine ⟨hn.nodup_constantsOf s, hrelists.1, fun a ha b hb => ?_⟩
  rintro rfl
  exact hrelists.2 a hb ha

end SmallScript.Evaluate
