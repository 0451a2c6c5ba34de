/-!
# Tables

A table maps names to values and remembers the order in which the names were added. Setting a name
that is there keeps its place; a removed name that is set again goes to the end.
-/

namespace SmallScript.Data

/-- Names with values, in order of addition. -/
structure Table (α : Type) where
  entries : List (String × α)
deriving Repr

namespace Table

variable {α : Type}

def empty : Table α := ⟨[]⟩

instance : Inhabited (Table α) := ⟨empty⟩

def get? (t : Table α) (name : String) : Option α := t.entries.lookup name

def contains (t : Table α) (name : String) : Bool := (t.get? name).isSome

/-- Replaces the value of a name in a list of entries, or adds it at the end. -/
def insertEntry (name : String) (value : α) : List (String × α) → List (String × α)
  | [] => [(name, value)]
  | e :: rest => if e.1 == name then (name, value) :: rest else e :: insertEntry name value rest

def insert (t : Table α) (name : String) (value : α) : Table α := ⟨insertEntry name value t.entries⟩

def erase (t : Table α) (name : String) : Table α := ⟨t.entries.filter (·.1 != name)⟩

def keys (t : Table α) : List String := t.entries.map (·.1)

def values (t : Table α) : List α := t.entries.map (·.2)

def size (t : Table α) : Nat := t.entries.length

def insertAll (t : Table α) (entries : List (String × α)) : Table α :=
  entries.foldl (fun t e => t.insert e.1 e.2) t

/-- The table of some entries; of several for one name the last value counts. -/
def ofList (entries : List (String × α)) : Table α := empty.insertAll entries

end Table

end SmallScript.Data
