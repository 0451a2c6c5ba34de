import SmallScript.Text.Percent

/-!
# Targets of requests

The target of a request is a path with parameters behind it, both in percent coding. A path leads to
routes, and a route takes some methods: `destination` finds the route for a request.
-/

namespace SmallScript.Web

open Text

structure Target where
  path : String
  /-- the parameters behind the path -/
  query : List (String × String)
deriving Repr

/-- A coded text in a query: a plus sign is a blank. -/
def queryText (s : String) : String :=
  percentDecode (String.ofList (s.toList.map fun c => if c == '+' then ' ' else c))

def parameter (s : String) : String × String :=
  match s.splitOn "=" with
  | [] => ("", "")
  | name :: rest => (queryText name, queryText ("=".intercalate rest))

def Target.ofText (text : String) : Target :=
  match text.splitOn "?" with
  | [] => ⟨"", []⟩
  | path :: rest =>
    let query := "?".intercalate rest
    ⟨percentDecode path, ((query.splitOn "&").filter (· != "")).map parameter⟩

def isJsonType (type : String) : Bool :=
  let main := String.ofList (stripBlanks ((type.splitOn ";").headD "").toLower.toList)
  main == "application/json" || (main.startsWith "application/" && main.endsWith "+json")

inductive Destination (ρ : Type) where
  /-- no route fits the path -/
  | nowhere
  /-- no route that fits the path takes the method -/
  | otherMethod
  /-- the request asks for the methods -/
  | options
  /-- a route takes the request -/
  | route (r : ρ)
deriving DecidableEq, Repr

/-- The destination of a request, from the routes that fit its path and the methods that they take.
The first route that takes the method has it. -/
def destination {ρ : Type} (fitting : List ρ) (methods : ρ → List String) (method : String) : Destination ρ :=
  match fitting, method, fitting.find? fun r => (methods r).contains method with
  | [], _, _ => .nowhere
  | _, "OPTIONS", _ => .options
  | _, _, some r => .route r
  | _, _, none => .otherMethod

end SmallScript.Web
