import SmallScript.Library.Arguments

/-!
# Functions on arrays

An array is changed in its cell, so that all names for it see the change;
sorting takes numbers only.
-/

namespace SmallScript.Library

open Machine
open Number (Numeric NumberFault)

def push (args : List Value) : Action Value := do
  let (a, v) ← firstTwo args "array or value argument"
  let ref ← array "First argument" a
  Action.modifyHeap fun h => { h with arrays := h.arrays.modify ref (·.push v) }
  return .null

def pop (args : List Value) : Action Value := do
  let ref ← array "Argument" (← first args "array argument")
  let elements := (← Action.heap).elements ref
  match elements.back? with
  | none => Action.fail (.lookup .emptyPop)
  | some v =>
    Action.modifyHeap (·.setElements ref elements.pop)
    return v

def shift (args : List Value) : Action Value := do
  let ref ← array "Argument" (← first args "array argument")
  match ((← Action.heap).elements ref).toList with
  | [] => Action.fail (.lookup .emptyPop)
  | v :: rest =>
    Action.modifyHeap (·.setElements ref rest.toArray)
    return v

def unshift (args : List Value) : Action Value := do
  let (a, v) ← firstTwo args "array or value argument"
  let ref ← array "First argument" a
  let elements := (← Action.heap).elements ref
  Action.modifyHeap (·.setElements ref (v :: elements.toList).toArray)
  return .null

/-! ## Sorting -/

abbrev Keyed := Numeric × Value

def Keyed.lt (a b : Keyed) : Except NumberFault Bool := a.1.order .lt b.1

/-- Takes from the front as long as each item compares with the one before it in the given way. The
items taken are in reverse order. -/
def takeRun (less : Bool) (last : Keyed) (taken : List Keyed) :
    List Keyed → Except NumberFault (List Keyed × List Keyed)
  | [] => .ok (last :: taken, [])
  | x :: rest => do
    if (← x.lt last) == less then takeRun less x (last :: taken) rest
    else return (last :: taken, x :: rest)

/-- The longest run at the front in ascending order, or the longest strictly descending one turned
around. -/
def firstRun : List Keyed → Except NumberFault (List Keyed × List Keyed)
  | [] => .ok ([], [])
  | [x] => .ok ([x], [])
  | x :: y :: rest => do
    if ← y.lt x then takeRun true y [x] rest
    else
      let (run, rest) ← takeRun false y [x] rest
      return (run.reverse, rest)

/-- The place of an item in a sorted array, behind all equal ones, found by halving the part between
`low` and `high`. -/
def placeOf (sorted : Array Keyed) (x : Keyed) (low high : Nat) : Except NumberFault Nat :=
  if h : low < high then do
    let middle := low + (high - low) / 2
    if ← x.lt (sorted.getD middle x) then placeOf sorted x low middle
    else placeOf sorted x (middle + 1) high
  else .ok low
termination_by high - low

/-- Sorts by number, keeping the order of equal ones, by insertion into the first run. -/
def sortKeyed (items : List Keyed) : Except NumberFault (List Keyed) := do
  let (run, rest) ← firstRun items
  let sorted ← rest.foldlM (fun (sorted : Array Keyed) x => do
    let i ← placeOf sorted x 0 sorted.size
    return (sorted.toList.take i ++ x :: sorted.toList.drop i).toArray) run.toArray
  return sorted.toList

def sort (args : List Value) : Action Value := do
  let ref ← array "Argument" (← first args "array argument")
  match ((← Action.heap).elements ref).toList.mapM fun e => e.num?.map (·, e) with
  | none => Action.problem (.mustContain "numbers")
  | some items =>
    let sorted ← Action.ofNumber (sortKeyed items)
    Action.modifyHeap (·.setElements ref (sorted.map (·.2)).toArray)
    return .null

end SmallScript.Library
