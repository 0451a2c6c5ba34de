/-!
# Searching in texts

A text is split at the leftmost occurrences of a separator that do not overlap; replacing and
searching follow the same rule.
-/

namespace SmallScript.Text

/-- The text behind a front part, if the text begins with it. -/
def dropFront? (front cs : List Char) : Option (List Char) :=
  if front.isPrefixOf cs then some (cs.drop front.length) else none

/-- The pieces of a text between the leftmost occurrences of a separator. The first argument bounds
the number of steps. -/
def piecesWithin : Nat → List Char → List Char → List (List Char)
  | 0, _, cs => [cs]
  | _ + 1, _, [] => [[]]
  | fuel + 1, sep, c :: cs =>
    match dropFront? sep (c :: cs) with
    | some rest => [] :: piecesWithin fuel sep rest
    | none => match piecesWithin fuel sep cs with
      | p :: ps => (c :: p) :: ps
      | [] => [[c]]

def pieces (sep cs : List Char) : List (List Char) := piecesWithin (cs.length + 1) sep cs

def joinPieces (between : List Char) : List (List Char) → List Char
  | [] => []
  | [p] => p
  | p :: ps => p ++ between ++ joinPieces between ps

/-- Replaces every occurrence of a text. The empty text occurs before every character and at the
end. -/
def replaceAll (cs old new : List Char) : List Char :=
  if old.isEmpty then new ++ cs.flatMap fun c => c :: new
  else joinPieces new (pieces old cs)

def occursIn (part : List Char) : List Char → Bool
  | [] => part.isEmpty
  | c :: cs => part.isPrefixOf (c :: cs) || occursIn part cs

end SmallScript.Text
