import SmallScript.Text.Quoted

/-!
# UTF-8

Texts are stored as bytes in UTF-8. Decoding stops at the first byte sequence that is not well
formed and says where and why; `decodeLossy` puts the replacement character in place of each such
sequence instead.
-/

namespace SmallScript.Text

inductive Utf8Cause where
  | invalidStart | invalidContinuation | unexpectedEnd
deriving DecidableEq, Repr

def Utf8Cause.message : Utf8Cause → String
  | .invalidStart => "invalid start byte"
  | .invalidContinuation => "invalid continuation byte"
  | .unexpectedEnd => "unexpected end of data"

/-- Where decoding stopped: offset, length of the offending sequence, its first byte, the cause. -/
structure Utf8Fault where
  start : Nat
  size : Nat
  byte : UInt8
  cause : Utf8Cause
deriving DecidableEq, Repr

def Utf8Fault.message (f : Utf8Fault) : String :=
  if f.size = 1 then
    let byte := String.ofList (hex 2 f.byte.toNat)
    s!"'utf-8' codec can't decode byte 0x{byte} in position {f.start}: {f.cause.message}"
  else
    let last := f.start + f.size - 1
    s!"'utf-8' codec can't decode bytes in position {f.start}-{last}: {f.cause.message}"

def isContinuation (b : UInt8) : Bool := decide (0x80 ≤ b) && decide (b < 0xC0)

/-- The second byte of a sequence must not make it overlong, a surrogate or too large. -/
def secondAllowed (first second : UInt8) : Bool :=
  isContinuation second &&
    !(first == 0xE0 && second < 0xA0) && !(first == 0xED && second ≥ 0xA0) &&
    !(first == 0xF0 && second < 0x90) && !(first == 0xF4 && second ≥ 0x90)

/-- What the front of a list of bytes decodes to: a character and the number of bytes it takes, or a
cause and the number of bytes it concerns. -/
def decodeFirst (b : UInt8) (bs : List UInt8) : Except (Utf8Cause × Nat) (Char × Nat) :=
  let low (x : UInt8) : Nat := x.toNat % 64
  if b < 0x80 then .ok (Char.ofNat b.toNat, 1)
  else if b < 0xC2 || b ≥ 0xF5 then .error (.invalidStart, 1)
  else if b < 0xE0 then
    match bs with
    | [] => .error (.unexpectedEnd, 1)
    | b2 :: _ =>
      if isContinuation b2 then .ok (Char.ofNat ((b.toNat % 32) * 64 + low b2), 2)
      else .error (.invalidContinuation, 1)
  else if b < 0xF0 then
    match bs with
    | [] => .error (.unexpectedEnd, 1)
    | b2 :: rest =>
      if !secondAllowed b b2 then .error (.invalidContinuation, 1)
      else match rest with
        | [] => .error (.unexpectedEnd, 2)
        | b3 :: _ =>
          if isContinuation b3 then .ok (Char.ofNat ((b.toNat % 16) * 4096 + low b2 * 64 + low b3), 3)
          else .error (.invalidContinuation, 2)
  else
    match bs with
    | [] => .error (.unexpectedEnd, 1)
    | b2 :: rest =>
      if !secondAllowed b b2 then .error (.invalidContinuation, 1)
      else match rest with
        | [] => .error (.unexpectedEnd, 2)
        | b3 :: rest =>
          if !isContinuation b3 then .error (.invalidContinuation, 2)
          else match rest with
            | [] => .error (.unexpectedEnd, 3)
            | b4 :: _ =>
              if isContinuation b4 then
                .ok (Char.ofNat ((b.toNat % 8) * 262144 + low b2 * 4096 + low b3 * 64 + low b4), 4)
              else .error (.invalidContinuation, 3)

/-- Decodes bytes from an offset on, with a bound on the number of steps. -/
def decodeFrom : Nat → Nat → List UInt8 → List Char → Except Utf8Fault (List Char)
  | 0, _, _, acc => .ok acc.reverse
  | _ + 1, _, [], acc => .ok acc.reverse
  | fuel + 1, offset, b :: bs, acc =>
    match decodeFirst b bs with
    | .ok (c, n) => decodeFrom fuel (offset + n) (bs.drop (n - 1)) (c :: acc)
    | .error (cause, n) => .error ⟨offset, n, b, cause⟩

def decode (bytes : ByteArray) : Except Utf8Fault String :=
  match String.fromUTF8? bytes with
  | some s => .ok s
  | none => (decodeFrom (bytes.size + 1) 0 bytes.toList []).map String.ofList

def decodeLossyFrom : Nat → List UInt8 → List Char → List Char
  | 0, _, acc => acc.reverse
  | _ + 1, [], acc => acc.reverse
  | fuel + 1, b :: bs, acc =>
    match decodeFirst b bs with
    | .ok (c, n) => decodeLossyFrom fuel (bs.drop (n - 1)) (c :: acc)
    | .error (_, n) => decodeLossyFrom fuel (bs.drop (n - 1)) ('�' :: acc)

def decodeLossy (bytes : List UInt8) : List Char := decodeLossyFrom (bytes.length + 1) bytes []

def encode (s : String) : ByteArray := s.toUTF8

def unifyLineEnds : List Char → List Char
  | '\r' :: '\n' :: rest => '\n' :: unifyLineEnds rest
  | '\r' :: rest => '\n' :: unifyLineEnds rest
  | c :: rest => c :: unifyLineEnds rest
  | [] => []

end SmallScript.Text
