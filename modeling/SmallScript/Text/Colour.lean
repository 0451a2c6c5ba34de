/-!
# Colours

Escape sequences that set the colour of the text that follows them on a terminal.
-/

namespace SmallScript.Text

inductive Colour where
  | red | green | yellow | blue | magenta | cyan | plain
deriving DecidableEq, Repr

def Colour.number : Colour → Nat
  | .red => 31
  | .green => 32
  | .yellow => 33
  | .blue => 34
  | .magenta => 35
  | .cyan => 36
  | .plain => 39

def Colour.code (c : Colour) : String := s!"\x1b[{c.number}m"

/-- A text in a colour, and the default again behind it. -/
def Colour.paint (c : Colour) (text : String) : String := c.code ++ text ++ Colour.plain.code

end SmallScript.Text
