import SmallScript.Registry.Remove
import SmallScript.Web.Target

/-!
# The server of the catalogue

Requests publish, list, remove and download packages and renew keys. A download is counted, and leads to the address of
the archive.
-/

namespace SmallScript.Registry

open Machine (Failure)
open Number (NumberFault)
open Text (asciiForm pieces)

inductive Missing where
  | package | version
deriving DecidableEq, Repr

def Missing.message : Missing → String
  | .package => "Package not found"
  | .version => "Package version not found"

/-- The release to download: the one with a version, or else the last one. -/
def Catalog.toDownload (c : Catalog) (name : String) (version : Option String) : Except Missing Release :=
  match c.package? name, version with
  | none, _ => .error .package
  | some p, none => match c.lastRelease? p with
    | some r => .ok r
    | none => .error .package
  | some p, some v => match c.release? p v with
    | some r => .ok r
    | none => .error .version

def Catalog.download (c : Catalog) (name : String) (version : Option String) : Except Missing Release × Catalog :=
  match c.toDownload name version with
  | .ok r => (.ok r, c.countDownload r)
  | .error m => (.error m, c)

structure Request where
  method : String
  path : String
  key : Option String
  /-- the document in the body -/
  doc : Option Json
  file : Option Upload
  /-- the store of archives stops answering in the course of the request -/
  storeDown : Bool
  /-- the number of operations that it carries out before that -/
  storeAnswers : Nat := 0

def Request.store (r : Request) : Store := if r.storeDown then .failing r.storeAnswers else .up

inductive Content where
  | nothing
  | doc (fields : List (String × Json))
  | text (s : String)
  | redirect (address : String)

structure Reply where
  status : Nat
  content : Content
  /-- the lines that are added to the log -/
  log : String

def Reply.plain (status : Nat) : Reply := ⟨status, .nothing, ""⟩

def Reply.doc (status : Nat) (fields : List (String × Json)) : Reply := ⟨status, .doc fields, ""⟩

def Reply.text (status : Nat) (s : String) : Reply := ⟨status, .text s, ""⟩

def Reply.refusal (r : Refusal) : Reply := ⟨r.status, .doc [("error", .str r.message)], r.log⟩

/-- The reply to a request that asks for the head only. -/
def Reply.head (r : Reply) : Reply :=
  match r.content with
  | .redirect _ => r
  | _ => { r with content := .nothing }

def bucketName : String := "eryx-packages"

/-- The address of an archive, which is valid for a minute. -/
def addressOf (r : Release) : String := asciiForm s!"https://store/{bucketName}/{r.path}?expires=60"

inductive Route where
  | home
  | ping
  | page (name : String)
  | versions (name : String)
  | download (name : String) (version : Option String)
  | upload
  | delete
  | refreshKey
deriving DecidableEq, Repr

def Route.ofPath? (path : String) : Option Route :=
  match (pieces ['/'] path.toList).map String.ofList with
  | ["", ""] => some .home
  | ["", "ping"] => some .ping
  | ["", "package", name] => if name.isEmpty then none else some (.page name)
  | ["", "download", name] => if name.isEmpty then none else some (.download name none)
  | ["", "download", name, version] =>
    if name.isEmpty || version.isEmpty then none else some (.download name (some version))
  | ["", "api", "upload"] => some .upload
  | ["", "api", "delete"] => some .delete
  | ["", "api", "refresh-key"] => some .refreshKey
  | ["", "api", "versions", name] => if name.isEmpty then none else some (.versions name)
  | _ => none

def Route.methods : Route → List String
  | .upload | .delete | .refreshKey => ["POST"]
  | _ => ["GET", "HEAD"]

def replyOf {α : Type} (done : α → Reply) : Except Stop α → Except Failure Reply
  | .ok a => .ok (done a)
  | .error (.refused r) => .ok (.refusal r)
  | .error (.failed f) => .error f

def Catalog.answer (c : Catalog) (route : Route) (r : Request) : Except Failure Reply × Catalog :=
  match route with
  | .home => (.ok (.plain 200), c)
  | .ping => (.ok (.text 200 "Server is running"), c)
  | .page name =>
    (.ok (.plain (if ((c.package? name).bind c.lastRelease?).isSome then 200 else 404)), c)
  | .versions name =>
    match c.package? name with
    | none => (.ok (.plain 404), c)
    | some p =>
      let versions := (c.releasesOf p).map fun r => Json.str r.version.text
      (.ok (.doc 200 [("versions", .arr versions)]), c)
  | .download name version =>
    match c.download name version with
    | (.ok release, c) => (.ok ⟨302, .redirect (addressOf release), ""⟩, c)
    | (.error m, c) => (.ok (.text 404 m.message), c)
  | .upload =>
    let (result, c) := c.publish r.key r.file r.store
    (replyOf (fun () => .doc 201 [("message", .str "Package uploaded successfully")]) result, c)
  | .delete =>
    match r.doc with
    | none => (.ok (.plain 400), c)
    | some doc =>
      let (result, c) := c.delete r.key doc r.store
      (replyOf (fun message => .doc 200 [("message", .str message)]) result, c)
  | .refreshKey =>
    let (result, c) := c.refreshKey r.key
    (replyOf (fun key => .doc 200 [("key", .str key)]) result, c)

def Catalog.serve (c : Catalog) (r : Request) : Except Failure Reply × Catalog :=
  match Web.destination (Route.ofPath? r.path).toList Route.methods r.method with
  | .nowhere => (.ok (.plain 404), c)
  | .otherMethod => (.ok (.plain 405), c)
  | .options => (.ok (.plain 200), c)
  | .route route =>
    let (result, c) := c.answer route r
    (if r.method == "HEAD" then result.map Reply.head else result, c)

/-! ## Upkeep -/

def Catalog.userOf (c : Catalog) (id : String) : Except NumberFault (Option User) := do
  return c.userById? (← Library.readInteger id)

/-- What is said when a store of archives is cleared. The removal itself is only announced to the
store, which then waits for an answer that nobody asks for; so the archives stay. -/
def Catalog.clearReport (c : Catalog) (bucket : String) (storeDown : Bool) : String :=
  if storeDown then s!"Error occurred: {Refusal.storeTrouble}\n"
  else if c.objects.size = 0 then "No objects found in the bucket.\n"
  else s!"All objects in bucket '{bucket}' have been deleted.\n"

def secured (surroundings : List (String × Json)) : List (String × Json) :=
  Json.setField surroundings "wsgi.url_scheme" (.str "https")

end SmallScript.Registry
