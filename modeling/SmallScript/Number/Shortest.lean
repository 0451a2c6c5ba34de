import SmallScript.Number.Binary64

/-!
# The shortest decimal that reads back

`shortestDigits mant exp` gives, for a positive float `mant * 2 ^ exp`, the fewest decimal digits
whose value rounds to that float, and among those of that length the nearest to it. The digits are
found by trying the grids of 1, 2, ..., 17 significant digits: on each grid only the two neighbours
of the number have to be tested against the interval of reals that round to it.
-/

namespace SmallScript.Number

def decimalLength (n : Nat) : Nat := (Nat.toDigits 10 n).length

/-- The exponent `e` with `10 ^ e ≤ num / den < 10 ^ (e + 1)`, for positive arguments. -/
def decimalExponent (num den : Nat) : Int :=
  let e : Int := (decimalLength num : Int) - decimalLength den
  let reached := if 0 ≤ e then den * tenPow e.toNat ≤ num else den ≤ num * tenPow (-e).toNat
  if reached then e else e - 1

/-- The reals that round to a float, as numerators over one denominator. -/
structure RoundingInterval where
  lower : Nat
  /-- the float itself -/
  centre : Nat
  upper : Nat
  /-- common denominator -/
  den : Nat
  /-- the ends belong to the interval -/
  closed : Bool

/-- The interval of reals that round to `mant * 2 ^ exp`. -/
def RoundingInterval.of (mant : Nat) (exp : Int) : RoundingInterval :=
  let (num, den) := if 0 ≤ exp then (mant * twoPow exp.toNat, 1) else (mant, twoPow (-exp).toNat)
  let ulp := if 0 ≤ exp then twoPow exp.toNat else 1
  -- below a power of two the next float is half as far away
  let below := if mant = twoPow 52 ∧ -1074 < exp then ulp else 2 * ulp
  { lower := 4 * num - below, centre := 4 * num, upper := 4 * num + 2 * ulp, den := 4 * den,
    closed := mant % 2 = 0 }

/-- The decimal `d * 10 ^ place` lies in the interval. -/
def RoundingInterval.holds (i : RoundingInterval) (d : Nat) (place : Int) : Bool :=
  let value := if 0 ≤ place then d * tenPow place.toNat * i.den else d * i.den
  let scale := if 0 ≤ place then 1 else tenPow (-place).toNat
  if i.closed then decide (i.lower * scale ≤ value) && decide (value ≤ i.upper * scale)
  else decide (i.lower * scale < value) && decide (value < i.upper * scale)

/-- The neighbour of the number on the grid of multiples of `10 ^ place` that lies in its interval;
of two such neighbours the nearer, of two equally near ones the even. -/
def RoundingInterval.neighbour? (i : RoundingInterval) (place : Int) : Option Nat :=
  let (num, den) := if 0 ≤ place then (i.centre, i.den * tenPow place.toNat)
    else (i.centre * tenPow (-place).toNat, i.den)
  let low := num / den
  match i.holds low place, i.holds (low + 1) place with
  | true, true => some (roundDivEven num den)
  | true, false => some low
  | false, true => some (low + 1)
  | false, false => none

/-- Tries the grids of `17 - tries + 1` and more significant digits. -/
def shortestFrom (i : RoundingInterval) (top : Int) : Nat → Nat × Int
  | 0 => (0, 0)
  | tries + 1 =>
    let place := top - (16 - tries : Nat)
    match i.neighbour? place with
    | some d => (d, place)
    | none => shortestFrom i top tries

/-- Drops the zeros at the end of `d * 10 ^ place`. -/
def dropZeros (d : Nat) (place : Int) : Nat → Nat × Int
  | 0 => (d, place)
  | n + 1 => if d % 10 = 0 ∧ d ≠ 0 then dropZeros (d / 10) (place + 1) n else (d, place)

/-- The shortest decimal `d * 10 ^ place` that rounds to the positive float `mant * 2 ^ exp`. -/
def shortestDigits (mant : Nat) (exp : Int) : Nat × Int :=
  let i := RoundingInterval.of mant exp
  let (d, place) := shortestFrom i (decimalExponent i.centre i.den) 17
  dropZeros d place 20

end SmallScript.Number
