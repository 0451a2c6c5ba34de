import SmallScript.Number.Basic

/-!
# Arithmetic

Integers stay integers under `+ - * %` and under powers with a natural exponent; a quotient is a
float, correctly rounded even between integers. An integer that meets a float becomes a float.
Comparisons between integers and floats are exact. A remainder has the sign of the divisor. Bit
operations and shifts work on integer parts in two's complement.
-/

namespace SmallScript.Number

/-! ## Sums and products -/

def lift2 (ints : Int → Int → Int) (floats : Float → Float → Float)
    (complexes : Float × Float → Float × Float → Float × Float) (a b : Numeric) :
    Except NumberFault Numeric :=
  match a.real?, b.real? with
  | some (.int m), some (.int n) => .ok (.int (ints m n))
  | some x, some y => return .float (floats (← x.toFloat) (← y.toFloat))
  | _, _ => do
    let z := complexes (← a.toComplex) (← b.toComplex)
    return .complex z.1 z.2

def complexMul (a b : Float × Float) : Float × Float :=
  (a.1 * b.1 - a.2 * b.2, a.1 * b.2 + a.2 * b.1)

def Numeric.add (a b : Numeric) : Except NumberFault Numeric :=
  lift2 (· + ·) (· + ·) (fun x y => (x.1 + y.1, x.2 + y.2)) a b

def Numeric.sub (a b : Numeric) : Except NumberFault Numeric :=
  lift2 (· - ·) (· - ·) (fun x y => (x.1 - y.1, x.2 - y.2)) a b

def Numeric.mul (a b : Numeric) : Except NumberFault Numeric :=
  lift2 (· * ·) (· * ·) complexMul a b

/-! ## Quotients and remainders -/

def Numeric.isZero (a : Numeric) : Bool := !a.truthy

/-- Quotient of complex numbers by the larger part of the divisor. -/
def complexDiv (a b : Float × Float) : Float × Float :=
  if b.1.abs ≥ b.2.abs then
    let ratio := b.2 / b.1
    let denom := b.1 + b.2 * ratio
    ((a.1 + a.2 * ratio) / denom, (a.2 - a.1 * ratio) / denom)
  else
    let ratio := b.1 / b.2
    let denom := b.1 * ratio + b.2
    ((a.1 * ratio + a.2) / denom, (a.2 * ratio - a.1) / denom)

def divInts (m n : Int) : Except NumberFault Numeric :=
  if n = 0 then .error .intDivision
  else match nearestFloat? m.natAbs n.natAbs with
    | some x => .ok (.float (if decide (m < 0) != decide (n < 0) && m != 0 then -x else x))
    | none => .error .quotientTooLarge

def Numeric.div (a b : Numeric) : Except NumberFault Numeric :=
  match a.real?, b.real? with
  | some (.int m), some (.int n) => divInts m n
  | some x, some y => do
    let x ← x.toFloat
    let y ← y.toFloat
    if y == 0.0 then .error .floatDivision else return .float (x / y)
  | _, _ => do
    let x ← a.toComplex
    let y ← b.toComplex
    if y.1 == 0.0 && y.2 == 0.0 then .error .complexDivision
    else
      let z := complexDiv x y
      return .complex z.1 z.2

/-- The exact remainder of two floats, with the sign of the dividend. -/
def remFloats (x y : Float) : Float :=
  match Binary64.ofFloat x, Binary64.ofFloat y with
  | .finite neg m e, .finite _ n f =>
    if n = 0 then nanFloat
    else
      let least := min e f
      let r := m * twoPow (e - least).toNat % (n * twoPow (f - least).toNat)
      let magnitude := if 0 ≤ least then nearestFloat? (r * twoPow least.toNat) 1
        else nearestFloat? r (twoPow (-least).toNat)
      let z := magnitude.getD infinity
      if neg then -z else z
  | .finite .., .infinite _ => x
  | _, _ => nanFloat

/-- The remainder of two floats, with the sign of the divisor. -/
def modFloats (x y : Float) : Float :=
  let r := remFloats x y
  if r == 0.0 then withSignOf 0.0 y
  else if decide (r < 0.0) != decide (y < 0.0) then r + y
  else r

def Numeric.mod (a b : Numeric) : Except NumberFault Numeric :=
  match a.real?, b.real? with
  | some (.int m), some (.int n) => if n = 0 then .error .intModulo else .ok (.int (Int.fmod m n))
  | some x, some y => do
    let x ← x.toFloat
    let y ← y.toFloat
    if y == 0.0 then .error .floatModulo else return .float (modFloats x y)
  | _, _ => .error (.unsupported "%" a.kind b.kind)

/-! ## Powers -/

def complexPowNat (z : Float × Float) (n : Nat) : Float × Float :=
  let rec go (p r : Float × Float) (n : Nat) : Nat → Float × Float
    | 0 => r
    | fuel + 1 =>
      if n = 0 then r
      else go (complexMul p p) (if n % 2 = 1 then complexMul r p else r) (n / 2) fuel
  go z (1.0, 0.0) n (Nat.log2 n + 1)

def complexAbs (z : Float × Float) : Float :=
  let a := z.1.abs
  let b := z.2.abs
  let big := if a < b then b else a
  let small := if a < b then a else b
  if big == 0.0 then 0.0 else big * (1.0 + (small / big) * (small / big)).sqrt

def complexPow (a b : Float × Float) : Except NumberFault Numeric := do
  let r ←
    if b.2 == 0.0 && b.1.floor == b.1 && b.1.abs ≤ 100.0 then
      if b.1 ≥ 0.0 then pure (complexPowNat a b.1.toUInt64.toNat)
      else if a.1 == 0.0 && a.2 == 0.0 then .error .complexZeroPower
      else pure (complexDiv (1.0, 0.0) (complexPowNat a (-b.1).toUInt64.toNat))
    else if a.1 == 0.0 && a.2 == 0.0 then
      if b.2 != 0.0 || b.1 < 0.0 then .error .complexZeroPower else pure (0.0, 0.0)
    else
      let size := complexAbs a
      let at_ := Float.atan2 a.2 a.1
      let len := Float.pow size b.1
      let phase := at_ * b.1
      let (len, phase) := if b.2 != 0.0 then (len / Float.exp (at_ * b.2), phase + b.2 * Float.log size)
        else (len, phase)
      pure (len * Float.cos phase, len * Float.sin phase)
  if r.1.isInf || r.2.isInf then .error .complexPowerRange else return .complex r.1 r.2

def isOddFloat (x : Float) : Bool :=
  match truncFloat x with
  | .ok n => n % 2 != 0 && x.floor == x
  | .error _ => false

/-- Power of floats. A negative base with a fractional exponent gives a complex number. -/
def powFloats (x y : Float) : Except NumberFault Numeric :=
  if y == 0.0 then .ok (.float 1.0)
  else if x.isNaN then .ok (.float x)
  else if y.isNaN then .ok (.float (if x == 1.0 then 1.0 else y))
  else if y.isInf then
    let size := x.abs
    .ok (.float (if size == 1.0 then 1.0
      else if decide (y > 0.0) == decide (size > 1.0) then y.abs else 0.0))
  else if x.isInf then
    .ok (.float (
      if y > 0.0 then if isOddFloat y then x else x.abs
      else if isOddFloat y then withSignOf 0.0 x else 0.0))
  else if x == 0.0 then
    if y < 0.0 then .error .zeroPower
    else .ok (.float (if isOddFloat y then x else 0.0))
  else if x < 0.0 && y.floor != y then complexPow (x, 0.0) (y, 0.0)
  else
    let size := x.abs
    let negate := x < 0.0 && isOddFloat y
    if size == 1.0 then .ok (.float (if negate then -1.0 else 1.0))
    else
      let r := Float.pow size y
      if r.isInf then .error .powerRange else .ok (.float (if negate then -r else r))

def Numeric.pow (a b : Numeric) : Except NumberFault Numeric :=
  match a.real?, b.real? with
  | some (.int m), some (.int n) =>
    if 0 ≤ n then .ok (.int (Int.pow m n.toNat))
    else do powFloats (← intToFloat m) (← intToFloat n)
  | some x, some y => do powFloats (← x.toFloat) (← y.toFloat)
  | _, _ => do
    let x ← a.toComplex
    let y ← b.toComplex
    if y.1 == 0.0 && y.2 == 0.0 then return .complex 1.0 0.0
    complexPow x y

/-! ## Comparisons -/

/-- The order of an integer and a float, exactly; `none` if the float is not a number. -/
def compareIntFloat (n : Int) (x : Float) : Option Ordering :=
  match Binary64.ofFloat x with
  | .nan => none
  | .infinite neg => some (if neg then .gt else .lt)
  | .finite neg mant exp =>
    let (num, den) := ratioOf neg mant exp
    some (compare (n * den) num)

/-- The order of two real numbers; `none` if one is not a number. -/
def Real.compare : Real → Real → Option Ordering
  | .int m, .int n => some (Ord.compare m n)
  | .int m, .float y => compareIntFloat m y
  | .float x, .int n => (compareIntFloat n x).map Ordering.swap
  | .float x, .float y => if x < y then some .lt else if x == y then some .eq else if x > y then some .gt else none

def Numeric.eq (a b : Numeric) : Bool :=
  match a.real?, b.real? with
  | some x, some y => x.compare y == some .eq
  | _, _ => match a, b with
    | .complex r i, .complex s j => r == s && i == j
    | .complex r i, .int n | .int n, .complex r i => i == 0.0 && compareIntFloat n r == some .eq
    | .complex r i, .float x | .float x, .complex r i => i == 0.0 && r == x
    | .complex r i, .bool c | .bool c, .complex r i => i == 0.0 && r == (if c then 1.0 else 0.0)
    | _, _ => false

inductive OrderOp where
  | lt | gt | le | ge
deriving DecidableEq

def OrderOp.text : OrderOp → String
  | .lt => "<"
  | .gt => ">"
  | .le => "<="
  | .ge => ">="

def OrderOp.admits : OrderOp → Ordering → Bool
  | .lt, o => o == .lt
  | .gt, o => o == .gt
  | .le, o => o != .gt
  | .ge, o => o != .lt

/-- An order relation between numbers; complex numbers have none, and nothing holds of a float that
is not a number. -/
def Numeric.order (op : OrderOp) (a b : Numeric) : Except NumberFault Bool :=
  match a.real?, b.real? with
  | some x, some y => .ok ((x.compare y).any op.admits)
  | _, _ => .error (.notOrdered op.text a.kind b.kind)

/-! ## Bits -/

/-- Conjunction of the bits of integers in two's complement. -/
def andInts : Int → Int → Int
  | .ofNat a, .ofNat b => .ofNat (a &&& b)
  | .ofNat a, .negSucc y => .ofNat (a ^^^ (a &&& y))
  | .negSucc x, .ofNat b => .ofNat (b ^^^ (b &&& x))
  | .negSucc x, .negSucc y => .negSucc (x ||| y)

def orInts : Int → Int → Int
  | .ofNat a, .ofNat b => .ofNat (a ||| b)
  | .ofNat a, .negSucc y => .negSucc (y ^^^ (y &&& a))
  | .negSucc x, .ofNat b => .negSucc (x ^^^ (x &&& b))
  | .negSucc x, .negSucc y => .negSucc (x &&& y)

def xorInts : Int → Int → Int
  | .ofNat a, .ofNat b => .ofNat (a ^^^ b)
  | .ofNat a, .negSucc y => .negSucc (a ^^^ y)
  | .negSucc x, .ofNat b => .negSucc (x ^^^ b)
  | .negSucc x, .negSucc y => .ofNat (x ^^^ y)

def shlInts (a n : Int) : Except NumberFault Int :=
  if n < 0 then .error .negativeShift
  else if a = 0 then .ok 0
  else if twoPow 63 ≤ n then .error .hugeShift
  else .ok (a * twoPow n.toNat)

/-- Right shift of an integer, toward minus infinity. -/
def shrInts (a n : Int) : Except NumberFault Int :=
  if n < 0 then .error .negativeShift
  else if (Nat.log2 a.natAbs : Int) < n then .ok (if a < 0 then -1 else 0)
  else .ok (Int.fdiv a (twoPow n.toNat))

inductive BitOp where
  | xor | and | or | shl | shr
deriving DecidableEq

def Numeric.bits (op : BitOp) (a b : Numeric) : Except NumberFault Numeric := do
  let m ← a.trunc
  let n ← b.trunc
  match op with
  | .xor => return .int (xorInts m n)
  | .and => return .int (andInts m n)
  | .or => return .int (orInts m n)
  | .shl => return .int (← shlInts m n)
  | .shr => return .int (← shrInts m n)

end SmallScript.Number
