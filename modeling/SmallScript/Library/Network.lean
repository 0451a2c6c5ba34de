import SmallScript.Library.Arguments
import SmallScript.Text.Percent

/-!
# Functions on the network

A request that gets an answer yields an object with the text and the status of the response, whatever the
status is; without an answer it is a problem that the program reports.
-/

namespace SmallScript.Library

open Machine
open World (Body Response)
open Text (decode percentEncode percentDecode)

def bodyText? : Body → Option String
  | .bytes content => (decode content).toOption
  | .archive _ => none

def request (method url : String) (body : Option String) : Action Value := do
  let (answer, w) := (← Action.world).send ⟨method, url, body, none⟩
  Action.modifyWorld fun _ => w
  match answer with
  | none => Action.problem (.noAnswer url)
  | some r =>
    match bodyText? r.body with
    | none => Action.problem (.noAnswer url)
    | some text => Action.object [("data", .str text), ("status", .nat r.status)]

def fetch (method : String) (args : List Value) : Action Value := do
  request method (← oneString args "URL argument" "URL") none

def submit (method : String) (args : List Value) : Action Value := do
  let (url, data) ← twoStrings args "URL or data argument" "URL" "Data"
  request method url (some data)

def urlEncode (args : List Value) : Action Value := do
  return .str (percentEncode (← oneString args "data argument" "Data"))

def urlDecode (args : List Value) : Action Value := do
  return .str (percentDecode (← oneString args "data argument" "Data"))

end SmallScript.Library
