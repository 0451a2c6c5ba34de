/-!
# Sets of code points given by intervals

A character class is a list of closed intervals of code points, in ascending order. A long class is
written by its runs: how many code points lie outside, inside, outside, inside and so on in turn.
-/

namespace SmallScript.Text

/-- A closed interval of code points, first and last. -/
abbrev Interval := Nat × Nat

/-- The intervals that runs of code points outside and inside a class give, from a code point on. -/
def ofRuns (start : Nat) : List Nat → List Interval
  | out :: more :: runs => (start + out, start + out + more - 1) :: ofRuns (start + out + more) runs
  | _ => []

def memIntervals (table : List Interval) (code : Nat) : Bool :=
  table.any fun i => decide (i.1 ≤ code) && decide (code ≤ i.2)

/-! ## White space, which a numeral in a text may be surrounded by -/

def blankIntervals : List Interval := [
  (0x9, 0xd), (0x1c, 0x20),
  (0x85,0x85), (0xa0,0xa0), (0x1680,0x1680), (0x2000,0x200a), (0x2028,0x2029), (0x202f, 0x202f), (0x205f, 0x205f),
  (0x3000, 0x3000)]

def isBlank (c : Char) : Bool := memIntervals blankIntervals c.toNat

def stripBlanks (cs : List Char) : List Char :=
  ((cs.dropWhile isBlank).reverse.dropWhile isBlank).reverse

end SmallScript.Text
