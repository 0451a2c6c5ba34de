import SmallScript.Number.Basic

/-!
# Calendar

Points in time are seconds since the first of January 1970; the calendar is the Gregorian one without
leap seconds, in the zone of Greenwich.
-/

namespace SmallScript.Number

structure DateTime where
  year : Int
  month : Nat
  day : Nat
  hour : Nat
  minute : Nat
  second : Nat
deriving DecidableEq, Repr

/-- The date of a day, counted from the first of January 1970. The count is moved to the first of
March of the year 0, so that a leap day is the last day of a year of 400 · 365 + 97 days' era. -/
def dateOfDay (n : Int) : Int × Nat × Nat :=
  let z := n + 719468
  let era := Int.fdiv z 146097
  let dayOfEra := (z - era * 146097).toNat
  let yearOfEra := (dayOfEra - dayOfEra / 1460 + dayOfEra / 36524 - dayOfEra / 146096) / 365
  let dayOfYear := dayOfEra - (365 * yearOfEra + yearOfEra / 4 - yearOfEra / 100)
  let shifted := (5 * dayOfYear + 2) / 153
  let day := dayOfYear - (153 * shifted + 2) / 5 + 1
  let month := if shifted < 10 then shifted + 3 else shifted - 9
  (yearOfEra + era * 400 + (if month ≤ 2 then 1 else 0), month, day)

def dateTime (seconds : Int) : DateTime :=
  let (year, month, day) := dateOfDay (Int.fdiv seconds 86400)
  let rest := (Int.fmod seconds 86400).toNat
  ⟨year, month, day, rest / 3600, rest / 60 % 60, rest % 60⟩

def twoDigits (n : Nat) : String := if n < 10 then "0" ++ toString n else toString n

def DateTime.text (d : DateTime) : String :=
  s!"{d.year}-{twoDigits d.month}-{twoDigits d.day} {twoDigits d.hour}:{twoDigits d.minute}:{twoDigits d.second}"

def fourDigits (n : Int) : String :=
  let t := toString n
  "".pushn '0' (4 - t.length) ++ t

def DateTime.dayFirst (d : DateTime) : String :=
  s!"{twoDigits d.day}-{twoDigits d.month}-{fourDigits d.year} {twoDigits d.hour}:{twoDigits d.minute}:{twoDigits d.second}"

inductive TimeFault where
  | notANumber
  /-- no number of seconds that fits 64 bits -/
  | range
  /-- the year since 1900 does not fit 32 bits -/
  | year
  /-- the year itself does not fit 32 bits -/
  | lateYear
  | complex
deriving DecidableEq

def TimeFault.message : TimeFault → String
  | .notANumber => "Invalid value NaN (not a number)"
  | .range => "timestamp out of range for platform time_t"
  | .year => "[Errno 75] Value too large for defined data type"
  | .lateYear => "signed integer is greater than maximum"
  | .complex => "'complex' object cannot be interpreted as an integer"

def secondsOf (n : Numeric) : Except TimeFault Int :=
  match n.real? with
  | none => .error .complex
  | some (.int n) => .ok n
  | some (.float x) =>
    match Binary64.ofFloat x with
    | .nan => .error .notANumber
    | .infinite _ => .error .range
    | .finite neg mant exp =>
      let (num, den) := ratioOf neg mant exp
      .ok (Int.fdiv num den)

def dateTimeOf (n : Numeric) : Except TimeFault DateTime := do
  let s ← secondsOf n
  if s < -(twoPow 63) || twoPow 63 ≤ s then .error .range
  else
    let d := dateTime s
    if d.year - 1900 < -(twoPow 31) || twoPow 31 ≤ d.year - 1900 then .error .year
    else if twoPow 31 ≤ d.year then .error .lateYear
    else return d

/-- Whole seconds and microseconds of a time, rounded half to even. -/
def microseconds (x : Float) : Int :=
  match Binary64.ofFloat x with
  | .finite neg mant exp =>
    let (num, den) := ratioOf neg mant exp
    let n : Nat := roundDivEven (num.natAbs * 1000000) den
    if neg then -(n : Int) else n
  | _ => 0

def logStamp (clock : Float) : String :=
  let us := microseconds clock
  let rest := toString (Int.fmod us 1000000).toNat
  (dateTime (Int.fdiv us 1000000)).dayFirst ++ "." ++ "".pushn '0' (6 - rest.length) ++ rest

end SmallScript.Number
