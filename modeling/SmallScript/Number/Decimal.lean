import SmallScript.Number.Shortest
import SmallScript.Text.Digit

/-!
# Numbers as text

* `DecimalStyle.render` writes a float with the fewest digits that read back. The style decides
  which magnitudes are written positionally and how the special values are spelt.
* `intText?` writes an integer, unless it has more digits than the limit `maxDigits`.
* `decimal?` reads a decimal fraction with an optional exponent, `integer` an integer with the
  reason when it cannot be read.
-/

namespace SmallScript.Number

open Text

structure DecimalStyle where
  /-- least decimal exponent that is written positionally -/
  leastPositional : Int
  /-- first decimal exponent that is written with an exponent again -/
  pastPositional : Int
  /-- text for "not a number" -/
  nan : String
  /-- text of positive infinity -/
  infinity : String

/-- Floats in programs: positional from `0.0001` up to sixteen digits before the point. -/
def plainStyle : DecimalStyle := ⟨-4, 16, "nan", "inf"⟩

/-- Floats in JSON documents. -/
def jsonStyle : DecimalStyle := ⟨-4, 16, "NaN", "Infinity"⟩

def digitsOf (n : Nat) : List Char := Nat.toDigits 10 n

/-- A positive decimal `d * 10 ^ place` in the given style. -/
def DecimalStyle.positive (style : DecimalStyle) (d : Nat) (place : Int) : List Char :=
  let ds := digitsOf d
  -- exponent of the first digit
  let top : Int := place + ds.length - 1
  if style.leastPositional ≤ top ∧ top < style.pastPositional then
    if 0 ≤ place then ds ++ List.replicate place.toNat '0' ++ ['.', '0']
    else if 0 ≤ top then ds.take (top.toNat + 1) ++ '.' :: ds.drop (top.toNat + 1)
    else '0' :: '.' :: List.replicate (-top - 1).toNat '0' ++ ds
  else
    let fraction := match ds.drop 1 with
      | [] => []
      | rest => '.' :: rest
    let e := digitsOf top.natAbs
    let e := if e.length < 2 then '0' :: e else e
    ds.take 1 ++ fraction ++ 'e' :: (if top < 0 then '-' else '+') :: e

/-- The text of a float: the fewest digits that read back, always with a point or an exponent. -/
def DecimalStyle.render (style : DecimalStyle) (x : Float) : String :=
  match Binary64.ofFloat x with
  | .nan => style.nan
  | .infinite neg => if neg then "-" ++ style.infinity else style.infinity
  | .finite neg mant exp =>
    let body := if mant = 0 then "0.0" else
      let (d, place) := shortestDigits mant exp
      String.ofList (style.positive d place)
    if neg then "-" ++ body else body

def floatText (x : Float) : String := plainStyle.render x

def maxDigits : Nat := 4300

def plainIntText (n : Int) : String :=
  (if n < 0 then "-" else "") ++ String.ofList (digitsOf n.natAbs)

/-- The text of an integer, if it has at most `maxDigits` digits. -/
def intText? (n : Int) : Option String :=
  -- the bound on the size keeps the conversion of larger integers from being tried
  if Nat.log2 n.natAbs > 4 * maxDigits then none
  else if decimalLength n.natAbs > maxDigits then none
  else some (plainIntText n)

/-- The value of a list of decimal digits of any script, `none` if another character occurs. -/
def digitsValue? (cs : List Char) : Option Nat :=
  cs.foldlM (fun acc c => (decimalValue? c).map (acc * 10 + ·)) 0

/-- Reads `digits [. digits] [e [sign] digits]` as mantissa and decimal exponent. At least one
digit has to stand before the exponent. -/
def unsignedDecimal? (cs : List Char) : Option (Nat × Int) := do
  let isMark := fun c => c == 'e' || c == 'E'
  let (mantissa, exponent) := (cs.takeWhile (!isMark ·), cs.dropWhile (!isMark ·))
  let (whole, rest) := (mantissa.takeWhile (· != '.'), mantissa.dropWhile (· != '.'))
  let fraction := rest.drop 1
  guard (!(whole.isEmpty && fraction.isEmpty))
  let mant ← digitsValue? (whole ++ fraction)
  let exp ← match exponent with
    | [] => some 0
    | _ :: '-' :: ds => do guard (!ds.isEmpty); let n ← digitsValue? ds; some (-(n : Int))
    | _ :: '+' :: ds => do guard (!ds.isEmpty); let n ← digitsValue? ds; some (n : Int)
    | _ :: ds => do guard (!ds.isEmpty); let n ← digitsValue? ds; some (n : Int)
  some (mant, exp - fraction.length)

/-- The float nearest to `mant * 10 ^ exp`; far exponents are decided without computing the
power. -/
def floatOfParts (mant : Nat) (exp : Int) : Float :=
  let top := exp + decimalLength mant
  if mant = 0 then 0.0
  else if 400 < top then infinity
  else if top < -400 then 0.0
  else floatOfDecimal mant exp

/-- Reads a decimal fraction with an optional sign and exponent, `inf` and `nan`. -/
def decimal? (cs : List Char) : Option Float :=
  let (neg, body) := match cs with
    | '-' :: r => (true, r)
    | '+' :: r => (false, r)
    | r => (false, r)
  let magnitude := if body == "inf".toList then some infinity
    else if body == "nan".toList then some nanFloat
    else (unsignedDecimal? body).map fun p => floatOfParts p.1 p.2
  magnitude.map fun x => if neg then -x else x

inductive IntegerFault where
  /-- it does not have the form of an integer -/
  | malformed
  /-- it has more digits than the limit -/
  | tooLong (digits : Nat)
deriving DecidableEq, Repr

/-- Splits off the longest run of digits, in which single low lines may stand between digits. -/
def digitRun : List Char → List Char × List Char
  | [] => ([], [])
  | '_' :: c :: rest =>
    if isDecimalDigit c then
      let (ds, r) := digitRun rest
      (c :: ds, r)
    else ([], '_' :: c :: rest)
  | c :: rest =>
    if isDecimalDigit c then
      let (ds, r) := digitRun rest
      (c :: ds, r)
    else ([], c :: rest)

/-- Blanks around an integer: all white space but the four separators `0x1c` to `0x1f`. -/
def blankAround (c : Char) : Bool :=
  isBlank c && !(decide (0x1c ≤ c.toNat) && decide (c.toNat ≤ 0x1f))

/-- Reads an integer: blanks around it, an optional sign, digits of any script, single low lines
between digits. -/
def integer (text : String) : Except IntegerFault Int :=
  let body := ((text.toList.dropWhile blankAround).reverse.dropWhile blankAround).reverse
  let (neg, body) := match body with
    | '-' :: r => (true, r)
    | '+' :: r => (false, r)
    | r => (false, r)
  let (ds, rest) := match body with
    | '_' :: _ => ([], body)
    | _ => digitRun body
  if ds.length > maxDigits then .error (.tooLong ds.length)
  else if ds.isEmpty || !rest.isEmpty then .error .malformed
  else match digitsValue? ds with
    | some n => .ok (if neg then -(n : Int) else n)
    | none => .error .malformed

end SmallScript.Number
