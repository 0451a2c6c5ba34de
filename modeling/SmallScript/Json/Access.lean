import SmallScript.Json.Basic
import SmallScript.Text.Search
import SmallScript.Inspect.Datum
import SmallScript.Data.KindFault

/-!
# Parts of documents

Looking up, setting and removing parts of a document by name. A document from outside may be of any
kind; a kind that does not have the operation is a fault.
-/

namespace SmallScript.Json

open Data (KindFault Table)
open Inspect (Datum)
open Number (NumberFault)
open Text (occursIn)

inductive AccessFault where
  /-- there is no part of this name -/
  | missing (name : String)
  /-- there is no part at this place of a list -/
  | beyond
  /-- the document is of the wrong kind -/
  | kind (f : KindFault)
  /-- the document is of a kind without this method -/
  | method (kind name : String)
deriving DecidableEq, Repr

/-- Whether a document holds a name: as a key, as an item, or as a part of a text. -/
def holds (doc : Json) (name : String) : Except AccessFault Bool :=
  match doc with
  | .obj fields => .ok (fields.any (·.1 == name))
  | .arr items => .ok (items.any fun | .str s => s == name | _ => false)
  | .str s => .ok (occursIn name.toList s.toList)
  | d => .error (.kind (.search d.kind))

def part (doc : Json) (name : String) : Except AccessFault Json :=
  match doc with
  | .obj fields => match fields.lookup name with
    | some v => .ok v
    | none => .error (.missing name)
  | .arr _ => .error (.kind (.listIndex "str"))
  | .str _ => .error (.kind .textByName)
  | d => .error (.kind (.part d.kind))

def setPart (doc : Json) (name : String) (value : Json) : Except AccessFault Json :=
  match doc with
  | .obj fields => .ok (.obj (setField fields name value))
  | .arr _ => .error (.kind (.listIndex "str"))
  | d => .error (.kind (.setPart d.kind))

def dropPart (doc : Json) (name : String) : Except AccessFault Json :=
  match doc with
  | .obj fields =>
    if fields.any (·.1 == name) then .ok (.obj (fields.filter (·.1 != name))) else .error (.missing name)
  | .arr _ => .error (.kind (.listIndex "str"))
  | d => .error (.kind (.dropPart d.kind))

/-- The part of an object under a name, or a default; only objects can be asked. -/
def partOr (doc : Json) (name : String) (default : Json) : Except AccessFault Json :=
  match doc with
  | .obj fields => .ok ((fields.lookup name).getD default)
  | d => .error (.method d.kind "get")

def item (items : List Json) (index : Json) : Except AccessFault Json :=
  let at? (n : Int) : Option Json :=
    if 0 ≤ n then items[n.toNat]? else if -n ≤ items.length then items[(items.length + n).toNat]? else none
  let found (n : Int) : Except AccessFault Json :=
    match at? n with
    | some v => .ok v
    | none => .error .beyond
  match index with
  | .num (.int n) => found n
  | .bool b => found (if b then 1 else 0)
  | d => .error (.kind (.listIndex d.kind))

/-- The entries of a collection: its keys with their values, or its items with what they point to. -/
def entries (doc : Json) : Except AccessFault (List (Json × Except AccessFault Json)) :=
  match doc with
  | .obj fields => .ok (fields.map fun e => (.str e.1, .ok e.2))
  | .arr items => .ok (items.map fun i => (i, item items i))
  | .str s => .ok (s.toList.map fun c => (.str (String.singleton c), .error (.kind .textByName)))
  | d => .error (.kind (.walk d.kind))

def joinFrom : Nat → List Json → Except AccessFault (List String)
  | _, [] => .ok []
  | i, .str s :: rest => return s :: (← joinFrom (i + 1) rest)
  | i, d :: _ => .error (.kind (.joinItem i d.kind))

def join (separator : String) (doc : Json) : Except AccessFault String := do
  let texts ← match doc with
    | .arr items => joinFrom 0 items
    | .obj fields => .ok (fields.map (·.1))
    | .str s => .ok (s.toList.map String.singleton)
    | _ => .error (.kind .joinNone)
  return separator.intercalate texts

mutual

def datum : Json → Datum
  | .null => .none
  | .bool b => .bool b
  | .num n => .number n
  | .str s => .string s
  | .arr items => .list (itemData items)
  | .obj fields => .dict (fieldData fields)

def itemData : List Json → List Datum
  | [] => []
  | x :: xs => datum x :: itemData xs

def fieldData : List (String × Json) → List (Datum × Datum)
  | [] => []
  | (k, x) :: xs => (.string k, datum x) :: fieldData xs

end

def shown (doc : Json) : Except NumberFault String := doc.datum.plainText

end SmallScript.Json
