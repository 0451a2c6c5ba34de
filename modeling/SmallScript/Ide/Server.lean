import SmallScript.Web.Target
import SmallScript.Session.Run
import SmallScript.Markup.Html

/-!
# The web IDE

Requests run programs and show tokens, trees, results and transpiled code as HTML. A session keeps a
scope for several requests; it ends ten minutes after it was made, unless it is refreshed.

A request may carry a JSON document; a reply has a status and may carry one too. Before every request one session whose time is over is removed; the request then fails.
-/

namespace SmallScript.Ide

open Machine Session
open Value (ScopeRef)
open Json (AccessFault)
open Text (Colour)
open Web (Target isJsonType)
open Inspect (Datum pretty Layout nodeDatum tokensDatum)

structure Request where
  method : String
  path : String
  /-- the parameters behind the path -/
  query : List (String × String)
  /-- the document in the body; there is none if the body is no document -/
  body : Option Json

structure Reply where
  status : Nat
  json : Option Json

def Reply.plain (status : Nat) : Reply := ⟨status, none⟩

def Reply.doc (fields : List (String × Json)) : Reply := ⟨200, some (.obj fields)⟩

def Request.raw (method target type body : String) : Request :=
  let t := Target.ofText target
  ⟨method, t.path, t.query, if isJsonType type then Json.parse body else none⟩

def Request.json (method target : String) (doc : Option Json) : Request :=
  let t := Target.ofText target
  ⟨method, t.path, t.query, doc⟩

structure Shared where
  name : String
  scope : ScopeRef
  /-- the time at which it ends -/
  expiry : Float

structure Server where
  machine : Machine
  sessions : List Shared
  /-- the number of sessions made so far -/
  made : Nat
  /-- programs have no access to files -/
  guarded : Bool

def lifetime : Float := 600.0

def Server.expired? (s : Server) : Option Shared :=
  s.sessions.find? fun e => e.expiry < s.machine.world.clock

def Server.drop (s : Server) (name : String) : Server :=
  { s with sessions := s.sessions.filter (·.name != name) }

/-- What is done before every request: the first session whose time is over is removed. -/
def Server.sweep (s : Server) : Except Failure Unit × Server :=
  match s.expired? with
  | some e => (.error .changedOnTheWay, s.drop e.name)
  | none => (.ok (), s)

/-- Gives a session its full time again. -/
def Server.refresh (s : Server) (name : String) : Except Failure Server :=
  if s.sessions.any (·.name == name) then
    .ok { s with sessions := s.sessions.map fun e =>
      if e.name == name then { e with expiry := s.machine.world.clock + lifetime } else e }
  else .error (.lookup (.key name))

def Server.advance (s : Server) (seconds : Float) : Server :=
  { s with machine := { s.machine with world :=
    { s.machine.world with clock := s.machine.world.clock + seconds } } }

/-! ## Replies -/

def html (text : String) : Action Json :=
  match Markup.toHtml text with
  | .ok t => return .str t
  | .error code => Action.fail (.lookup (.key code))

def resultReply (text : String) : Action Reply := do return .doc [("result", ← html text)]

def errorReply (message : String) : Action Reply := do
  return .doc [("error", ← html (Colour.red.code ++ message))]

def prettyReply (d : Datum) : Action Reply :=
  match pretty .standard d with
  | .ok text => resultReply text
  | .error f => Action.fail (.pretty f)

/-- The text of a source in a document: a string, or a list of its characters. -/
def sourceOf : Json → Except AccessFault String
  | .str s => .ok s
  | .arr items => .ok (String.join (items.map fun | .str s => s | _ => ""))
  | .obj fields => .ok (String.join (fields.map (·.1)))
  | d => .error (.kind (.walk d.kind))

inductive Task where
  | tokenize | ast | run | result | transpile
deriving DecidableEq, Repr

def Task.ofName? : String → Option Task
  | "tokenize" => some .tokenize
  | "ast" => some .ast
  | "run" => some .run
  | "result" => some .result
  | "transpile" => some .transpile
  | _ => none

def tokenizeReply (source : String) : Action Reply := do
  prettyReply (tokensDatum (← tokensOf source))

/-- What can be said about a source without running it; nothing if it has to be run. -/
def readingReply (task : Task) (source : String) : Action (Syntax.Node ⊕ Reply) := do
  let tree ← treeOf source
  match task with
  | .ast => return .inr (← prettyReply (nodeDatum tree))
  | .transpile => return .inr (← resultReply (← Transpile.transpile false (bodyOf tree)))
  | _ => return .inl tree

/-- Runs an action with nothing printed yet, and yields what it prints; this does not go to the
output. -/
def captured {α : Type} (a : Action α) : Action (α × String) := fun m =>
  let before := m.world.output
  let (r, m) := a { m with world := { m.world with output := "" } }
  let text := m.world.output
  let m := { m with world := { m.world with output := before } }
  match r with
  | .ok a => (.ok (a, text), m)
  | .error e => (.error e, m)

/-- Runs a tree in a scope and shows the output or the result. Without output, a session shows the
value. -/
def runReply (task : Task) (shared : Bool) (tree : Syntax.Node) (scope : ScopeRef) : Action Reply := do
  let (v, text) ← captured (Evaluate.evaluate tree scope)
  if task = .result then prettyReply ((← Action.heap).snapshot v).datum
  else if shared && text.isEmpty then resultReply (← Action.display v)
  else resultReply text

def reporting (kinds : List FailureKind) (a : Action Reply) : Action Reply := do
  match ← Action.attempt a with
  | .ok r => return r
  | .error (.failure f) => if kinds.contains f.kind then errorReply f.message else Action.fail f
  | .error e => throw e

/-- The scope that a document asks for: that of its session, or a new one. Also whether it names a
session. -/
def scopeFor (guarded : Bool) (sessions : List Shared) (doc : Json) : Action (ScopeRef × Bool) := do
  let fresh : Action ScopeRef := Action.onHeap (·.newGlobal guarded)
  match doc.field? "env_uuid" with
  | none => return (← fresh, false)
  | some (.str name) =>
    match sessions.find? (·.name == name) with
    | some e => return (e.scope, true)
    | none => return (← fresh, true)
  | some (.arr _) => Action.fail (.document (.asKey "list"))
  | some (.obj _) => Action.fail (.document (.asKey "dict"))
  | some _ => return (← fresh, true)

def taskReply (guarded : Bool) (sessions : List Shared) (task : Task) (doc : Json) : Action Reply := do
  let source ← Action.access (doc.part "source_code" >>= sourceOf)
  if task = .tokenize then return ← reporting [.runtime, .exit] (tokenizeReply source)
  let (read, _) ← captured (Action.attempt (readingReply task source))
  match read with
  | .ok (.inr r) => return r
  | .error (.failure f) => reporting [.syntaxError, .runtime, .exit] (Action.fail f)
  | .error e => throw e
  | .ok (.inl tree) =>
    reporting [.runtime] do
      let (scope, shared) ← scopeFor guarded sessions doc
      runReply task shared tree scope

/-! ## Routes -/

def staticFiles : List String := ["eryx.ico", "main.js", "style.css"]

inductive Route where
  | page
  | icon
  | file (name : String)
  | sessions
  | task (name : String)

/-- The routes that fit a path, the more particular ones first. -/
def routesOf (path : String) : List Route :=
  match path.splitOn "/" with
  | ["", ""] => [.page]
  | ["", name] =>
    (if name == "favicon.ico" then [.icon] else [])
      ++ (if name == "repl" then [.sessions] else []) ++ [.task name]
  | "" :: "static" :: rest => if rest == [""] then [] else [.file ("/".intercalate rest)]
  | _ => []

def Route.methods : Route → List String
  | .page | .icon | .file _ => ["GET", "HEAD"]
  | .sessions => ["POST", "DELETE"]
  | .task _ => ["POST"]

def Server.act {α : Type} (s : Server) (a : Action α) : Except Signal α × Server :=
  let (r, m) := a s.machine
  (r, { s with machine := m })

def Server.open (s : Server) : Reply × Server :=
  let (scope, heap) := s.machine.heap.newGlobal s.guarded
  let name := s!"env{s.made}"
  (.doc [("env_uuid", .str name)],
    { s with
      machine := { s.machine with heap := heap }
      sessions := s.sessions ++ [⟨name, scope, s.machine.world.clock + lifetime⟩]
      made := s.made + 1 })

def Server.close (s : Server) (query : List (String × String)) : Reply × Server :=
  match query.lookup "envId" with
  | none => (.doc [("error", .str "No environment UUID provided")], s)
  | some name => (.doc [], s.drop name)

def Server.answer (s : Server) (route : Route) (r : Request) : Except Signal Reply × Server :=
  match route with
  | .page | .icon => (.ok (.plain 200), s)
  | .file name => (.ok (.plain (if staticFiles.contains name then 200 else 404)), s)
  | .sessions =>
    let (reply, s) := if r.method == "POST" then s.open else s.close r.query
    (.ok reply, s)
  | .task name =>
    match Task.ofName? name, r.body with
    | none, _ => (.ok (.plain 404), s)
    | some _, none => (.ok (.plain 400), s)
    | some task, some doc => s.act (taskReply s.guarded s.sessions task doc)

def Server.serve (s : Server) (r : Request) : Except Signal Reply × Server :=
  match s.sweep with
  | (.error f, s) => (.error (.failure f), s)
  | (.ok (), s) =>
    match Web.destination (routesOf r.path) Route.methods r.method with
    | .nowhere => (.ok (.plain 404), s)
    | .otherMethod => (.ok (.plain 405), s)
    | .options => (.ok (.plain 200), s)
    | .route route => s.answer route r

def Server.start (m : Machine) (guarded : Bool) : Server := ⟨m, [], 0, guarded⟩

end SmallScript.Ide
