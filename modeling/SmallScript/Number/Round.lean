import SmallScript.Number.Arith

/-!
# Rounding and elementary functions

Rounding goes to the nearest value, a half to the even neighbour, and is decided on the exact value
of a float. The elementary functions refuse arguments outside their domain.
-/

namespace SmallScript.Number

/-- A finite float times `10 ^ places`, rounded to an integer. -/
def roundScaled (mant : Nat) (exp places : Int) : Nat :=
  let num := mant * (if 0 ≤ exp then twoPow exp.toNat else 1) * (if 0 ≤ places then tenPow places.toNat else 1)
  let den := (if 0 ≤ exp then 1 else twoPow (-exp).toNat) * (if 0 ≤ places then 1 else tenPow (-places).toNat)
  roundDivEven num den

def roundFloat (x : Float) : Except NumberFault Int :=
  match Binary64.ofFloat x with
  | .nan => .error .nanToInt
  | .infinite _ => .error .infinityToInt
  | .finite neg mant exp =>
    let n := roundScaled mant exp 0
    .ok (if neg then -(n : Int) else n)

/-- The float nearest to the multiple of `10 ^ (-places)` nearest to a float. -/
def roundFloatTo (x : Float) (places : Int) : Except NumberFault Float :=
  match Binary64.ofFloat x with
  | .finite neg mant exp =>
    if 323 < places || mant = 0 then .ok x
    else if places < -308 then .ok (0.0 * x)
    else
      let n := roundScaled mant exp places
      let r := if 0 ≤ places then nearestFloat? n (tenPow places.toNat)
        else nearestFloat? (n * tenPow (-places).toNat) 1
      match r with
      | some y => .ok (if neg then -y else y)
      | none => .error .roundedTooLarge
  | _ => .ok x

/-- An integer rounded to a multiple of `10 ^ (-places)`. -/
def roundIntTo (n places : Int) : Int :=
  if 0 ≤ places then n
  else
    let unit := tenPow (-places).toNat
    let r : Int := roundDivEven n.natAbs unit * unit
    if n < 0 then -r else r

def Numeric.round (a : Numeric) : Except NumberFault Numeric :=
  match a.real? with
  | some (.int n) => .ok (.int n)
  | some (.float x) => return .int (← roundFloat x)
  | none => .error .complexRound

def Numeric.roundTo (a : Numeric) (places : Int) : Except NumberFault Numeric :=
  match a.real? with
  | some (.int n) => .ok (.int (roundIntTo n places))
  | some (.float x) => return .float (← roundFloatTo x places)
  | none => .error .complexRound

def Numeric.floor (a : Numeric) : Except NumberFault Numeric :=
  match a.real? with
  | some (.int n) => .ok (.int n)
  | some (.float x) => match Binary64.ofFloat x with
    | .nan => .error .nanToInt
    | .infinite _ => .error .infinityToInt
    | .finite neg mant exp => let (num, den) := ratioOf neg mant exp; .ok (.int (Int.fdiv num den))
  | none => .error .notReal

def Numeric.ceil (a : Numeric) : Except NumberFault Numeric :=
  match a.real? with
  | some (.int n) => .ok (.int n)
  | some (.float x) => match Binary64.ofFloat x with
    | .nan => .error .nanToInt
    | .infinite _ => .error .infinityToInt
    | .finite neg mant exp => let (num, den) := ratioOf neg mant exp; .ok (.int (-(Int.fdiv (-num) den)))
  | none => .error .notReal

def Numeric.abs (a : Numeric) : Numeric :=
  match a with
  | .int n => .int n.natAbs
  | .bool b => .int (if b then 1 else 0)
  | .float x => .float x.abs
  | .complex re im => .float (complexAbs (re, im))

/-- A logarithm extended to integers beyond the largest float. -/
def logWith (f : Float → Float) (a : Numeric) : Except NumberFault Float :=
  match a.real? with
  | some (.int n) =>
    if n ≤ 0 then .error .domain
    else match floatOfInt? n with
      | some x => .ok (f x)
      | none =>
        -- n = x * 2 ^ e with x between 1/2 and 1
        let e := Nat.log2 n.natAbs + 1
        let x := (nearestFloat? n.natAbs (twoPow e)).getD 1.0
        .ok (f x + f 2.0 * Float.ofNat e)
  | some (.float x) =>
    if x.isNaN then .ok x
    else if x ≤ 0.0 then .error .domain
    else .ok (f x)
  | none => .error .notReal

def Numeric.log (a base : Numeric) : Except NumberFault Numeric := do
  let x ← logWith Float.log a
  let y ← logWith Float.log base
  if y == 0.0 then .error .floatDivision else return .float (x / y)

def Numeric.log10 (a : Numeric) : Except NumberFault Numeric :=
  return .float (← logWith Float.log10 a)

def Numeric.sin (a : Numeric) : Except NumberFault Numeric := do
  let x ← a.toFloat
  if x.isInf then .error .domain else return .float (Float.sin x)

def Numeric.asin (a : Numeric) : Except NumberFault Numeric := do
  let x ← a.toFloat
  if x.abs > 1.0 then .error .domain else return .float (Float.asin x)

def Numeric.factorial (a : Numeric) : Except NumberFault Numeric := do
  let n ← a.trunc
  if n < 0 then .error .negativeFactorial
  else if twoPow 63 ≤ n then .error .hugeFactorial
  else return .int ((List.range n.toNat).foldl (fun acc i => acc * (i + 1)) 1 : Nat)

/-- Sum from left to right, starting with the integer 0. -/
def sumNums (ns : List Numeric) : Except NumberFault Numeric := ns.foldlM Numeric.add (.int 0)

/-- The first item to whose number no other one stands in the relation. -/
def extremum {α : Type} (which : String) (op : OrderOp) (number : α → Numeric) : List α → Except NumberFault α
  | [] => .error (.emptySequence which)
  | a :: rest =>
    rest.foldlM (fun best x => do if ← (number x).order op (number best) then return x else return best) a

end SmallScript.Number
