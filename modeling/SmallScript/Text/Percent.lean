import SmallScript.Text.Digit
import SmallScript.Text.Utf8

/-!
# Percent coding

In an address, letters, digits and a few marks stand for themselves; every other byte of the UTF-8
form is written as a percent sign and two hexadecimal digits.
-/

namespace SmallScript.Text

/-- A byte that stands for itself. -/
def isSafeByte (b : UInt8) : Bool :=
  let c := Char.ofNat b.toNat
  b < 128 && (c.isAlphanum || c == '_' || c == '.' || c == '-' || c == '~' || c == '/')

def upperHexDigit (n : Nat) : Char := "0123456789ABCDEF".toList.getD (n % 16) '0'

def percentByte (b : UInt8) : List Char :=
  if isSafeByte b then [Char.ofNat b.toNat]
  else ['%', upperHexDigit (b.toNat / 16), upperHexDigit b.toNat]

def percentEncode (s : String) : String := String.ofList (s.toUTF8.toList.flatMap percentByte)

/-- The bytes of a piece of ASCII text with percent codes; a percent sign without two digits behind
it stands for itself. -/
def percentBytes : List Char → List UInt8
  | '%' :: a :: b :: rest =>
    match hexValue? a, hexValue? b with
    | some x, some y => UInt8.ofNat (x * 16 + y) :: percentBytes rest
    | _, _ => 37 :: percentBytes (a :: b :: rest)
  | c :: rest => UInt8.ofNat c.toNat :: percentBytes rest
  | [] => []

def isAscii (c : Char) : Bool := c.toNat < 128

/-- A text with its characters outside ASCII in percent coding. -/
def asciiForm (s : String) : String :=
  String.ofList (s.toList.flatMap fun c => if isAscii c then [c] else (String.singleton c).toUTF8.toList.flatMap percentByte)

/-- Decodes the ASCII runs of a text and keeps the others. The first argument bounds the number of
steps. -/
def percentDecodeRuns : Nat → List Char → List Char
  | 0, cs => cs
  | _ + 1, [] => []
  | fuel + 1, c :: cs =>
    if isAscii c then
      decodeLossy (percentBytes (c :: cs.takeWhile isAscii)) ++ percentDecodeRuns fuel (cs.dropWhile isAscii)
    else c :: percentDecodeRuns fuel cs

/-- The text that an address part stands for. -/
def percentDecode (s : String) : String :=
  if s.contains '%' then String.ofList (percentDecodeRuns (s.length + 1) s.toList) else s

end SmallScript.Text
