import SmallScript.Proofs.Evaluate.Literals
import SmallScript.Proofs.Session.Equality
import SmallScript.Proofs.Syntax.Unbalanced

/-!
# Printed data reads back

Data, that is a value that shows a literal, is displayed as a text that is a program again. If no array and no object
in it is empty, the program is the literal alone, and in any new global scope it evaluates to a value that the operator
`==` finds equal to the first one. An empty array or object lacks its opening bracket in the text, and one of them
makes the whole text unreadable: `displayed_data_reads_back`.
-/

namespace SmallScript.Session

open Machine Evaluate Syntax
open Value (ScopeRef)

variable {m : Machine} {l : Literal}

/-! ## Comparison -/

theorem binary_equal_of_shows {v w} (pos : Pos) (hw : Shows l (m.heap.snapshot w))
    (hv : Shows l (m.heap.snapshot v)) : binary pos "==" w v m = (.ok (.bool true), m) := by
  rw [(binary_equal pos m w v).1, hw.equal hv]

/-! ## Programs -/

/-- A program of one expression has the value of the expression. -/
theorem builds_program {n s f} (pos : Pos) (hf : 1 ≤ f) (hn : Builds (eval f n s) m l) :
    Builds (eval (f + 3) (.program pos [n]) s) m l := by
  obtain ⟨g, rfl⟩ : ∃ g, f = g + 1 := ⟨f - 1, by omega⟩
  obtain ⟨w, h', heval, hrest⟩ := hn
  have hbody : evalBody (g + 2) .null [n] s m = (.ok w, { m with heap := h' }) := by
    rw [evalBody, Action.bind_of_ok heval, evalBody]
    rfl
  have hattempt : Action.attempt (evalBody (g + 2) .null [n] s) m = (.ok (.ok w), { m with heap := h' }) := by
    rw [Action.attempt, hbody]
  refine ⟨w, h', ?_, hrest⟩
  rw [eval_silent, evalNode, Action.bind_of_ok hattempt]
  rfl

/-- Evaluates a tree in a new global scope and compares what comes out to a value. -/
def compareInNewScope (guarded : Bool) (fuel : Nat) (tree : Node) (pos : Pos) (v : Value) : Action Value := do
  let s ← Action.onHeap (·.newGlobal guarded)
  let w ← eval fuel tree s
  binary pos "==" w v

/-- A value that shows a literal is equal to what a program of just this literal evaluates to. -/
theorem compareInNewScope_literal {v} (hl : l.empties = 0) (hv : Shows l (m.heap.snapshot v)) {n}
    (hn : n.bare = l.node) (guarded : Bool) {fuel} (hfuel : 4 * l.size + 3 ≤ fuel) (top pos : Pos) :
    ∃ h', compareInNewScope guarded fuel (.program top [n]) pos v m = (.ok (.bool true), { m with heap := h' }) := by
  obtain ⟨f, rfl⟩ : ∃ f, fuel = f + 3 := ⟨fuel - 3, by omega⟩
  have hpos := l.size_pos
  have hnew : m.heap.Extends (m.heap.newGlobal guarded).2 := (Heap.pushScope_allocates _ _).extends
  have hliteral := Evaluates.of_shows hl hv n { m with heap := (m.heap.newGlobal guarded).2 } _ f hn
    (Heap.newGlobal_isNewGlobal m.heap guarded) (by omega)
  obtain ⟨w, h', heval, hext, hw⟩ := builds_program top (by omega) hliteral
  refine ⟨h', ?_⟩
  have hopen : Action.onHeap (·.newGlobal guarded) m =
      (.ok (m.heap.newGlobal guarded).1, { m with heap := (m.heap.newGlobal guarded).2 }) := rfl
  rw [compareInNewScope, Action.bind_of_ok hopen, Action.bind_of_ok heval]
  -- the value shows its literal also in the heap that the evaluation leaves
  exact binary_equal_of_shows pos hw (hv.extend hl (hnew.trans hext))

/-- Data is displayed as a text. If there is no empty array or object in it, the text is read as the program of one
literal, the data, and this evaluates in a new global scope to a value equal to the data. Otherwise the text has an
error of syntax. -/
theorem displayed_data_reads_back (m : Machine) (v : Value) (data : Literal) (hv : Shows data (m.heap.snapshot v)) :
    ∃ text, (m.heap.snapshot v).display true = .ok text ∧
      (data.empties = 0 → ∃ n, parse text = .ok (.program .zero [n]) ∧ n.bare = data.node ∧
        ∀ (guarded : Bool) (fuel : Nat) (pos : Pos), 4 * data.size + 3 ≤ fuel →
          ∃ h', compareInNewScope guarded fuel (.program .zero [n]) pos v m =
            (.ok (.bool true), { m with heap := h' })) ∧
      (data.empties ≠ 0 → ∃ f, parse text = .error f ∧ (Failure.parse text f).kind = .syntaxError) := by
  refine ⟨data.source, hv.display, fun hdata => ?_, parse_unbalanced data⟩
  obtain ⟨n, hparse, hn⟩ := parse_literal data hdata
  exact ⟨n, hparse, hn, fun guarded fuel pos hfuel => compareInNewScope_literal hdata hv hn guarded hfuel .zero pos⟩

theorem displayed_data_reads_back_nested : ∃ (h : Heap) (v u : Value),
      (h.snapshot v).display true = .ok "[ -3, \"a b\", \x7b on: true \x7d ]" ∧
      (h.snapshot u).display true = .ok "[ null,  ] ]" ∧
      ∀ world : World, (∃ n, parse "[ -3, \"a b\", \x7b on: true \x7d ]" = .ok (.program .zero [n]) ∧
          ∃ h', compareInNewScope true fuelBound (.program .zero [n]) .zero v ⟨h, world, ""⟩ =
            (.ok (.bool true), ⟨h', world, ""⟩)) ∧
        ∃ f, parse "[ null,  ] ]" = .error f ∧ (Failure.parse "[ null,  ] ]" f).kind = .syntaxError := by
  let made := Heap.initial.newObject ⟨[("on", .bool true)]⟩ false
  let arrays : Array (Array Value) := #[#[.num (.int (-3)) 0, .str "a b", made.1], #[.null, .array 2], #[]]
  let h : Heap := { made.2 with arrays := arrays }
  let on : Name := ⟨'o', ['n'], by decide, List.all_eq_true.1 (by decide), by decide⟩
  have hv : Shows (.array [.whole ⟨-3, by decide⟩, .string ⟨"a b".toList, by decide⟩, .object [(on, .bool true)]])
      (h.snapshot (.array 0)) :=
    .array (.cons (.whole _ ⟨rfl, by decide⟩ 0) (.cons (.string _) (.cons
      (.object (.cons on (.bool true) .nil) (List.nodup_singleton _)) .nil)))
  have hu : Shows (.array [.null, .array []]) (h.snapshot (.array 1)) := .array (.cons .null (.cons (.array .nil) .nil))
  have hshown : (h.snapshot (.array 0)).display true = .ok "[ -3, \"a b\", \x7b on: true \x7d ]" := rfl
  have hshown' : (h.snapshot (.array 1)).display true = .ok "[ null,  ] ]" := rfl
  refine ⟨h, .array 0, .array 1, hshown, hshown', fun world => ?_⟩
  obtain ⟨text, htext, hread, -⟩ := displayed_data_reads_back ⟨h, world, ""⟩ _ _ hv
  obtain ⟨text', htext', -, hfail⟩ := displayed_data_reads_back ⟨h, world, ""⟩ _ _ hu
  cases hshown.symm.trans htext
  cases hshown'.symm.trans htext'
  obtain ⟨n, hparse, -, hcompare⟩ := hread rfl
  exact ⟨⟨n, hparse, hcompare true fuelBound .zero (by decide)⟩, hfail (by decide)⟩

end SmallScript.Session
