import SmallScript.Library.Network

/-!
# Talking to a package server

A request is answered, refused with a status from 400 to 599, or not answered at all.
-/

namespace SmallScript.Packages

open Machine
open World (Request Response Body)
open Text (decodeLossy)

def defaultServer : String := "https://eryx-packages.shymike.dev"

/-- The address of a server, with a scheme in front and a slash at the end. -/
def serverAddress (name : String) : String :=
  let address := if name.startsWith "http://" || name.startsWith "https://" then name else "https://" ++ name
  if address.endsWith "/" then address else address ++ "/"

inductive Answer where
  /-- the server cannot be reached; why -/
  | none (reason : String)
  /-- the server refuses; with a message -/
  | refused (r : Response) (message : String)
  /-- the server complies -/
  | fine (r : Response)

def Answer.of (r : Response) : Answer :=
  let message (side : String) : String := s!"{r.status} {side} Error: {r.reason} for url: {r.url}"
  if 400 ≤ r.status && r.status < 500 then .refused r (message "Client")
  else if 500 ≤ r.status && r.status < 600 then .refused r (message "Server")
  else .fine r

def answerTo (w : World) (r : Request) : Answer :=
  match (w.send r).1 with
  | some response => Answer.of response
  | none => .none s!"no route to {r.url}"

def ask (r : Request) : Action Answer := do
  let w ← Action.world
  Action.modifyWorld fun w => (w.send r).2
  return answerTo w r

def askFor (url : String) : Action Answer := ask ⟨"GET", url, none, none⟩

def bodyText (r : Response) : String :=
  match r.body with
  | .bytes content => String.ofList (decodeLossy content.toList)
  | .archive _ => ""

def bodyJson? (r : Response) : Option Json := Json.parse (bodyText r)

end SmallScript.Packages
