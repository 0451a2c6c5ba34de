import SmallScript.Number.Decimal

/-!
# Numbers of the language

A number is an integer of any size, a binary64 float, a truth value that came out of a JSON document
(it counts as 0 or 1), or a complex number (a power of a negative number can be one).

`NumberFault` lists what can go wrong in arithmetic; `NumberFault.message` gives the wording.
-/

namespace SmallScript.Number

inductive Numeric where
  | int (n : Int)
  | float (x : Float)
  /-- a truth value used as a number -/
  | bool (b : Bool)
  | complex (re im : Float)
deriving DecidableEq

def Numeric.kind : Numeric → String
  | .int _ => "int"
  | .float _ => "float"
  | .bool _ => "bool"
  | .complex _ _ => "complex"

inductive NumberFault where
  | intDivision
  | floatDivision
  | complexDivision
  | intModulo
  | floatModulo
  | zeroDivisor
  | zeroPower
  | complexZeroPower
  | powerRange
  | complexPowerRange
  | intTooLarge
  | quotientTooLarge
  | roundedTooLarge
  | infinityToInt
  | nanToInt
  | complexToInt
  | notReal
  | complexRound
  | negativeShift
  | hugeShift
  | domain
  | negativeFactorial
  | hugeFactorial
  | notOrdered (op left right : String)
  | unsupported (op left right : String)
  | emptySequence (which : String)
  | zeroStep
  | tooManyDigits
  | tooLongText (digits : Nat)
  | badInteger (quoted : String)
  | badFloat (quoted : String)
deriving DecidableEq

def NumberFault.message : NumberFault → String
  | .intDivision => "division by zero"
  | .floatDivision => "float division by zero"
  | .complexDivision => "complex division by zero"
  | .intModulo => "integer modulo by zero"
  | .floatModulo => "float modulo"
  | .zeroDivisor => ""
  | .zeroPower => "0.0 cannot be raised to a negative power"
  | .complexZeroPower => "0.0 to a negative or complex power"
  | .powerRange => "(34, 'Numerical result out of range')"
  | .complexPowerRange => "complex exponentiation"
  | .intTooLarge => "int too large to convert to float"
  | .quotientTooLarge => "integer division result too large for a float"
  | .roundedTooLarge => "rounded value too large to represent"
  | .infinityToInt => "cannot convert float infinity to integer"
  | .nanToInt => "cannot convert float NaN to integer"
  | .complexToInt =>
    "int() argument must be a string, a bytes-like object or a real number, not 'complex'"
  | .notReal => "must be real number, not complex"
  | .complexRound => "type complex doesn't define __round__ method"
  | .negativeShift => "negative shift count"
  | .hugeShift => "too many digits in integer"
  | .domain => "math domain error"
  | .negativeFactorial => "factorial() not defined for negative values"
  | .hugeFactorial => "factorial() argument should not exceed 9223372036854775807"
  | .notOrdered op l r => s!"'{op}' not supported between instances of '{l}' and '{r}'"
  | .unsupported op l r => s!"unsupported operand type(s) for {op}: '{l}' and '{r}'"
  | .emptySequence which => s!"{which}() arg is an empty sequence"
  | .zeroStep => "range() arg 3 must not be zero"
  | .tooManyDigits =>
    "Exceeds the limit (4300 digits) for integer string conversion; use sys.set_int_max_str_digits() to increase the limit"
  | .tooLongText n =>
    s!"Exceeds the limit (4300 digits) for integer string conversion: value has {n} digits; use sys.set_int_max_str_digits() to increase the limit"
  | .badInteger q => s!"invalid literal for int() with base 10: {q}"
  | .badFloat q => s!"could not convert string to float: {q}"

/-- A number other than a complex one, with truth values as integers. -/
inductive Real where
  | int (n : Int)
  | float (x : Float)

def Numeric.real? : Numeric → Option Real
  | .int n => some (.int n)
  | .float x => some (.float x)
  | .bool b => some (.int (if b then 1 else 0))
  | .complex _ _ => none

def intToFloat (n : Int) : Except NumberFault Float :=
  match floatOfInt? n with
  | some x => .ok x
  | none => .error .intTooLarge

def Real.toFloat : Real → Except NumberFault Float
  | .int n => intToFloat n
  | .float x => .ok x

def Numeric.toFloat (n : Numeric) : Except NumberFault Float :=
  match n.real? with
  | some r => r.toFloat
  | none => .error .notReal

def Numeric.toComplex : Numeric → Except NumberFault (Float × Float)
  | .complex re im => .ok (re, im)
  | .int n => return (← intToFloat n, 0.0)
  | .float x => .ok (x, 0.0)
  | .bool b => .ok (if b then 1.0 else 0.0, 0.0)

/-- The integer part of a float, toward zero. -/
def truncFloat (x : Float) : Except NumberFault Int :=
  match Binary64.ofFloat x with
  | .nan => .error .nanToInt
  | .infinite _ => .error .infinityToInt
  | .finite neg mant exp =>
    let n : Nat := if 0 ≤ exp then mant * twoPow exp.toNat else mant / twoPow (-exp).toNat
    .ok (if neg then -(n : Int) else n)

def Numeric.trunc : Numeric → Except NumberFault Int
  | .int n => .ok n
  | .bool b => .ok (if b then 1 else 0)
  | .float x => truncFloat x
  | .complex _ _ => .error .complexToInt

def Numeric.truthy : Numeric → Bool
  | .int n => n != 0
  | .bool b => b
  | .float x => x != 0.0
  | .complex re im => re != 0.0 || im != 0.0

def Numeric.isNaN : Numeric → Bool
  | .float x => x.isNaN
  | _ => false

/-- The text of a complex number's part: as a float, but without a trailing `.0`. -/
def partText (x : Float) : String :=
  let t := floatText x
  if t.endsWith ".0" then String.ofList (t.toList.dropLast.dropLast) else t

def Numeric.text : Numeric → Except NumberFault String
  | .int n => match intText? n with
    | some t => .ok t
    | none => .error .tooManyDigits
  | .float x => .ok (floatText x)
  | .bool b => .ok (if b then "True" else "False")
  | .complex re im =>
    let i := partText im ++ "j"
    if re == 0.0 && !signBit re then .ok i
    else .ok ("(" ++ partText re ++ (if signBit im then "" else "+") ++ i ++ ")")

end SmallScript.Number
