/-!
# Binary64 numbers as exact dyadic rationals

* `Binary64.ofFloat` reads the bits of a float as `(-1) ^ neg * mant * 2 ^ exp`, an infinity or no
  number at all.
* `nearestFloat? num den` is the float nearest to the quotient of two natural numbers, a tie going
  to the even neighbour; it is `none` when the quotient is beyond the largest float.

All arithmetic on the way is exact arithmetic on natural numbers.
-/

namespace SmallScript.Number

def twoPow (k : Nat) : Nat := 1 <<< k

def tenPow (k : Nat) : Nat := Nat.pow 10 k

inductive Binary64 where
  | nan
  | infinite (neg : Bool)
  /-- `(-1) ^ neg * mant * 2 ^ exp` -/
  | finite (neg : Bool) (mant : Nat) (exp : Int)
deriving DecidableEq, Repr

def Binary64.ofFloat (x : Float) : Binary64 :=
  let bits := x.toBits.toNat
  let neg := decide (twoPow 63 ≤ bits)
  let e : Nat := bits / twoPow 52 % 2048
  let f : Nat := bits % twoPow 52
  if e = 2047 then
    if f = 0 then .infinite neg else .nan
  else if e = 0 then .finite neg f (-1074)
  else .finite neg (twoPow 52 + f) ((e : Int) - 1075)

def floatOfBits (bits : Nat) : Float := Float.ofBits (UInt64.ofNat bits)

def nanFloat : Float := floatOfBits (2047 * twoPow 52 + twoPow 51)

def infinity : Float := floatOfBits (2047 * twoPow 52)

/-- The quotient `num / den` as a natural number, rounded to nearest, a tie going to the even one. -/
def roundDivEven (num den : Nat) : Nat :=
  let q := num / den
  let r := num % den
  if 2 * r < den then q
  else if den < 2 * r then q + 1
  else if q % 2 = 0 then q else q + 1

/-- `num * 2 ^ (-k) / den`, rounded to nearest. -/
def scaledQuotient (num den : Nat) (k : Int) : Nat :=
  if 0 ≤ k then roundDivEven num (den * twoPow k.toNat)
  else roundDivEven (num * twoPow (-k).toNat) den

/-- The exponent of the last place of the float nearest to `num / den`: the quotient scaled by it
has 53 binary digits, unless that place would be below the least one. -/
def lastPlace (num den : Nat) : Int :=
  let k : Int := (Nat.log2 num : Int) - (Nat.log2 den : Int) - 53
  let small := if 0 ≤ k then num < den * twoPow k.toNat * twoPow 53 else num * twoPow (-k).toNat < den * twoPow 53
  max (-1074) (if small then k else k + 1)

/-- The float nearest to `num / den` for positive `den`, ties to even; `none` beyond the largest
float. -/
def nearestFloat? (num den : Nat) : Option Float :=
  if num = 0 then some (floatOfBits 0)
  else
    let k := lastPlace num den
    let q := scaledQuotient num den k
    let bits := if q < twoPow 52 then q else (k + 1074).toNat * twoPow 52 + q
    if bits < 2047 * twoPow 52 then some (floatOfBits bits) else none

/-- The float nearest to an integer, or `none` beyond the largest float. -/
def floatOfInt? (n : Int) : Option Float :=
  (nearestFloat? n.natAbs 1).map fun x => if n < 0 then -x else x

/-- The float nearest to `mant * 10 ^ exp`, infinite beyond the largest float. -/
def floatOfDecimal (mant : Nat) (exp : Int) : Float :=
  let nearest := if 0 ≤ exp then nearestFloat? (mant * tenPow exp.toNat) 1
    else nearestFloat? mant (tenPow (-exp).toNat)
  nearest.getD infinity

/-- A finite float as a quotient of an integer and a positive natural number. -/
def ratioOf (neg : Bool) (mant : Nat) (exp : Int) : Int × Nat :=
  let m : Int := if neg then -(mant : Int) else mant
  if 0 ≤ exp then (m * twoPow exp.toNat, 1) else (m, twoPow (-exp).toNat)

/-- The sign bit, set for negative numbers and negative zero. -/
def signBit (x : Float) : Bool := decide (twoPow 63 ≤ x.toBits.toNat)

/-- The float with the magnitude of the first and the sign of the second. -/
def withSignOf (x y : Float) : Float :=
  if signBit x == signBit y then x else -x

end SmallScript.Number
