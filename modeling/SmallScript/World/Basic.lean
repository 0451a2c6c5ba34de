import SmallScript.World.FileStore
import SmallScript.Number.Basic

/-!
# The surroundings of a program

What a program can read from and write to: lines of input, the text it prints, files, a network of
canned responses, the clock. All of it is a value, so that running a program is a function.
-/

namespace SmallScript

open Number (Numeric)

namespace World

inductive InputLine where
  | text (s : String)
  /-- the user interrupts the program -/
  | interrupt
deriving DecidableEq, Repr

inductive Body where
  | bytes (content : ByteArray)
  | archive (entries : List (String × ByteArray))

structure Response where
  status : Nat
  reason : String
  url : String
  body : Body

structure Request where
  method : String
  url : String
  /-- text of the body, if it is a text -/
  body : Option String
  /-- the value of the key header, if the request has headers -/
  key : Option (Option String)
deriving DecidableEq, Repr

end World

open World (InputLine FileStore Request Response)

structure World where
  /-- input not read yet -/
  input : List InputLine
  /-- text printed so far -/
  output : String
  /-- diagnostics printed so far -/
  errors : String
  files : FileStore
  /-- the responses of the network by method and address -/
  routes : List (String × Response)
  /-- requests made so far, the latest first -/
  requests : List Request
  /-- waiting times asked for so far, the latest first -/
  slept : List Numeric
  /-- the time in seconds -/
  clock : Float
  /-- what the random source gives -/
  random : Float
  environment : List (String × String)

namespace World

def print (w : World) (text : String) : World := { w with output := w.output ++ text }

def printLine (w : World) (text : String) : World := w.print (text ++ "\n")

def printError (w : World) (text : String) : World := { w with errors := w.errors ++ text }

/-- Logs a request and looks its response up. -/
def send (w : World) (r : Request) : Option Response × World :=
  ((w.routes.find? (·.1 == r.method ++ " " ++ r.url)).map (·.2), { w with requests := r :: w.requests })

end World

end SmallScript
