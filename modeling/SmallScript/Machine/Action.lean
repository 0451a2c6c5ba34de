import SmallScript.Machine.Scoping

/-!
# Actions

An action works on a machine, that is a heap and the surroundings, and yields a value or a *signal*:
a failure, or a return, break or continue on its way to the statement that takes it. What an action
did before a signal stays done.
-/

namespace SmallScript

structure Machine where
  heap : Machine.Heap
  world : World
  /-- code that the transpiler has written and not handed out yet -/
  pending : String

namespace Machine

open Number (Numeric NumberFault)
open Inspect (Datum)
open Json (AccessFault)

inductive Signal where
  | failure (f : Failure)
  | ret (v : Value)
  | brk
  | cont

abbrev Action (α : Type) := ExceptT Signal (StateM Machine) α

namespace Action

def fail {α : Type} (f : Failure) : Action α := throw (.failure f)

def problem {α : Type} (p : Problem) : Action α := fail (.problem p)

/-- Runs an action and turns a signal into a result. -/
def attempt {α : Type} (a : Action α) : Action (Except Signal α) := fun m =>
  let (r, m) := a m
  (.ok r, m)

def heap : Action Heap := fun m => (.ok m.heap, m)

def world : Action World := fun m => (.ok m.world, m)

def onHeap {α : Type} (f : Heap → α × Heap) : Action α := fun m =>
  let (a, h) := f m.heap
  (.ok a, { m with heap := h })

def modifyHeap (f : Heap → Heap) : Action Unit := fun m => (.ok (), { m with heap := f m.heap })

def modifyWorld (f : World → World) : Action Unit := fun m => (.ok (), { m with world := f m.world })

/-- An operation on variables that can be a problem. -/
def scoping (f : Heap → Except Problem Heap) : Action Unit := fun m =>
  match f m.heap with
  | .ok h => (.ok (), { m with heap := h })
  | .error p => (.error (.failure (.problem p)), m)

def consult {α : Type} (f : Heap → Except Problem α) : Action α := fun m =>
  match f m.heap with
  | .ok a => (.ok a, m)
  | .error p => (.error (.failure (.problem p)), m)

def ofNumber {α : Type} : Except NumberFault α → Action α
  | .ok a => pure a
  | .error f => fail (.number f)

def access {α : Type} : Except AccessFault α → Action α
  | .ok a => pure a
  | .error f => fail (.ofAccess f)

def number (n : Numeric) : Action Value := onHeap (·.newNumber n)

def numberOf (r : Except NumberFault Numeric) : Action Value := do number (← ofNumber r)

def array (elements : List Value) : Action Value := onHeap (·.newArray elements.toArray)

def object (fields : List (String × Value)) : Action Value :=
  onHeap fun h => h.newObject (Data.Table.ofList fields) false

def printLine (text : String) : Action Unit := modifyWorld (·.printLine text)

def display (v : Value) : Action String := do
  ofNumber (((← heap).snapshot v).display false)

def inspect (v : Value) : Action String := do
  ofNumber ((← heap).snapshot v).datum.text

def inspectAll (vs : List Value) : Action String := do
  let h ← heap
  ofNumber (Datum.list (vs.map fun v => (h.snapshot v).datum)).text

end Action

end Machine

end SmallScript
