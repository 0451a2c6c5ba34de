import SmallScript.Command.Usage
import SmallScript.Text.Quoted
import SmallScript.Number.Decimal

/-!
# Reading command lines

Every argument gets a role before any of them is taken: option, value, or the divider `--`. Options may
be abbreviated, and a value may stand behind an equals sign. A command takes all arguments behind its
name.

Arguments that nothing takes do not stop a level: they are handed up and refused in the end.
-/

namespace SmallScript.Command

open Text (quoted)

structure Reading where
  /-- the names of the commands, from the outside in -/
  path : List String
  /-- the values that were given, with their names -/
  values : List (String × String)
  flags : List String
  /-- arguments that nothing took -/
  extras : List String
deriving DecidableEq, Repr

def Reading.append (r inner : Reading) : Reading :=
  ⟨r.path ++ inner.path, r.values ++ inner.values, r.flags ++ inner.flags, r.extras ++ inner.extras⟩

def Reading.empty : Reading := ⟨[], [], [], []⟩

/-- The value of an argument or option; the one given last counts. -/
def Reading.value? (r : Reading) (key : String) : Option String := r.values.reverse.lookup key

def Reading.has (r : Reading) (key : String) : Bool := r.flags.contains key

inductive Stop where
  | shown (text : String)
  /-- the command line is refused, with a diagnostic -/
  | refused (text : String)
deriving DecidableEq, Repr

inductive Refusal where
  | required (names : List String)
  | unrecognized (arguments : List String)
  | ambiguous (written : String) (matching : List String)
  | expectedOne (argument : String)
  | ignoredValue (argument value : String)
  | badInteger (argument value : String)
  | badChoice (argument value : String) (choices : List String)
deriving DecidableEq, Repr

def Refusal.message : Refusal → String
  | .required names => "the following arguments are required: " ++ ", ".intercalate names
  | .unrecognized args => "unrecognized arguments: " ++ " ".intercalate args
  | .ambiguous written ms => s!"ambiguous option: {written} could match " ++ ", ".intercalate ms
  | .expectedOne a => s!"argument {a}: expected one argument"
  | .ignoredValue a v => s!"argument {a}: ignored explicit argument {quoted v}"
  | .badInteger a v => s!"argument {a}: invalid int value: {quoted v}"
  | .badChoice a v cs =>
    s!"argument {a}: invalid choice: {quoted v} (choose from " ++ ", ".intercalate (cs.map quoted) ++ ")"

def refuse {α : Type} (g : Grammar) (program : String) (r : Refusal) : Except Stop α :=
  .error (.refused (g.usage program ++ s!"{program}: error: {r.message}\n"))

/-! ## Roles of arguments -/

inductive Role where
  | value
  /-- the divider, behind which there are values only -/
  | divider
  /-- an option as it is spelled in full, with a value behind an equals sign or its letter -/
  | option (o : Opt) (name : String) (given : Option String)
  /-- an option that the level does not have -/
  | unknown

def optionNamed? (os : List Opt) (name : String) : Option Opt := os.find? (·.names.contains name)

def spellings (os : List Opt) : List (String × Opt) := os.flatMap fun o => o.names.map fun n => (n, o)

def splitEquals (s : String) : String × Option String :=
  match s.splitOn "=" with
  | [] | [_] => (s, none)
  | name :: rest => (name, some ("=".intercalate rest))

/-- A negative number: a minus sign, digits, and perhaps a point before the last of them. -/
def isNegativeNumber (s : String) : Bool :=
  match s.toList with
  | '-' :: cs =>
    let (whole, rest) := (cs.takeWhile Char.isDigit, cs.dropWhile Char.isDigit)
    match rest with
    | [] => !whole.isEmpty
    | '.' :: fraction => !fraction.isEmpty && fraction.all Char.isDigit
    | _ => false
  | _ => false

/-- The spellings that a written option can be short for, with the value that stands behind it. -/
def candidates (os : List Opt) (s : String) : List (String × Opt × Option String) :=
  match s.toList with
  | '-' :: '-' :: _ =>
    let (start, given) := splitEquals s
    (spellings os).filterMap fun (n, o) => if n.startsWith start then some (n, o, given) else none
  | a :: b :: rest =>
    let short := String.ofList [a, b]
    (spellings os).filterMap fun (n, o) =>
      if n == short then some (n, o, some (String.ofList rest))
      else if n.startsWith s then some (n, o, none) else none
  | _ => []

def roleOf (g : Grammar) (program : String) (s : String) : Except Stop Role :=
  let os := g.options
  if !s.startsWith "-" then .ok .value
  else match optionNamed? os s with
    | some o => .ok (.option o s none)
    | none =>
      if s.length = 1 then .ok .value
      else
        let (name, given) := splitEquals s
        match given.bind fun _ => optionNamed? os name with
        | some o => .ok (.option o name given)
        | none => match candidates os s with
          | [(n, o, given)] => .ok (.option o n given)
          | [] => .ok (if isNegativeNumber s || s.contains ' ' then .value else .unknown)
          | several => refuse g program (.ambiguous s (several.map (·.1)))

abbrev Roles := List (String × Role)

def assignRoles (g : Grammar) (program : String) : List String → Except Stop Roles
  | [] => .ok []
  | s :: rest =>
    if s == "--" then .ok ((s, .divider) :: rest.map fun r => (r, .value))
    else do return (s, ← roleOf g program s) :: (← assignRoles g program rest)

/-! ## Taking arguments -/

/-- How many arguments a positional argument takes: one value, with a divider around it. -/
def takenByValue : Roles → Nat
  | (_, .divider) :: (_, .value) :: _ => 2
  | (_, .value) :: (_, .divider) :: _ => 2
  | (_, .value) :: _ => 1
  | _ => 0

/-- How many arguments a command takes: all, if there is a value in front or behind a divider. -/
def takenByCommand : Roles → Nat
  | (a, .divider) :: (b, .value) :: rest => ((a, Role.divider) :: (b, .value) :: rest).length
  | (a, .value) :: rest => ((a, Role.value) :: rest).length
  | _ => 0

def Opt.fullName (o : Opt) : String := "/".intercalate o.names

def takeOption (g : Grammar) (program : String) (r : Reading) (o : Opt) (value : String) : Except Stop Reading :=
  match o.kind with
  | .help => .error (.shown (g.helpText program))
  | .shows text => .error (.shown (text ++ "\n"))
  | .flag => .ok { r with flags := r.flags ++ [o.key] }
  | .text _ => .ok { r with values := r.values ++ [(o.key, value)] }
  | .integer _ =>
    match Number.integer value with
    | .ok _ => .ok { r with values := r.values ++ [(o.key, value)] }
    | .error _ => refuse g program (.badInteger o.fullName value)

/-- Takes an option without value that has letters behind its own: each letter has to be an option
without value too. -/
def takeLetters (g : Grammar) (program : String) (o : Opt) (written : String) : List Char → List Opt → Except Stop (List Opt)
  | [], done => .ok (done ++ [o])
  | c :: cs, done =>
    match optionNamed? g.options (String.ofList ['-', c]) with
    | some o' => takeLetters g program o' (String.ofList cs) cs (done ++ [o])
    | none => refuse g program (.ignoredValue o.fullName written)

def takeFront (g : Grammar) (program : String) (r : Reading) (o : Opt) (name : String) (given : Option String)
    (rest : Roles) : Except Stop (Reading × Roles) :=
  match o.metavar?, given with
  | some _, some v => do return (← takeOption g program r o v, rest)
  | some _, none =>
    match rest with
    | (v, .value) :: rest => do return (← takeOption g program r o v, rest)
    | _ => refuse g program (.expectedOne o.fullName)
  | none, none => do return (← takeOption g program r o "", rest)
  | none, some v =>
    if name.startsWith "--" || v.isEmpty then refuse g program (.ignoredValue o.fullName v)
    else do
      let os ← takeLetters g program o v v.toList []
      return (← os.foldlM (fun r o => takeOption g program r o "") r, rest)

/-- Takes arguments from the front until there are none left. `wanted` are the positional arguments
that have no value yet; `count` says how many arguments the next one takes, and `take` takes them. The
first argument bounds the number of steps. -/
def takeAll {α : Type} (g : Grammar) (program : String) (count : Roles → Nat)
    (take : α → List String → Reading → Except Stop Reading) :
    Nat → List α → Reading → Roles → Except Stop (List α × Reading)
  | 0, wanted, r, rest => .ok (wanted, { r with extras := r.extras ++ rest.map (·.1) })
  | bound + 1, wanted, r, rest =>
    let taken := if wanted.isEmpty then 0 else count rest
    match rest with
    | [] => .ok (wanted, r)
    | (s, kind) :: more =>
      match kind with
      | .option o name given => do
        let (r, rest) ← takeFront g program r o name given more
        takeAll g program count take bound wanted r rest
      | .unknown => takeAll g program count take bound wanted { r with extras := r.extras ++ [s] } more
      | _ =>
        match wanted, taken with
        | w :: wanted, n + 1 => do
          let r ← take w ((rest.take (n + 1)).map (·.1)) r
          takeAll g program count take bound wanted r (rest.drop (n + 1))
        | _, _ => takeAll g program count take bound wanted { r with extras := r.extras ++ [s] } more

def programAt (program name : String) : String := program.trimAscii.toString ++ " " ++ name

mutual

def Grammar.read (g : Grammar) (program : String) (args : List String) : Except Stop Reading :=
  match g with
  | .leaf os positionals => do
    let level := Grammar.leaf os positionals
    let roles ← assignRoles level program args
    let (missing, r) ← takeAll level program takenByValue
      (fun (p : Positional) taken r => .ok { r with
        values := r.values ++ [(p.name, (taken.find? (· != "--")).getD "--")] })
      (args.length + 1) positionals Reading.empty roles
    if missing.isEmpty then return r else refuse level program (.required (missing.map (·.name)))
  | .branch description os key help commands => do
    let level := Grammar.branch description os key help commands
    let roles ← assignRoles level program args
    let (_, r) ← takeAll level program takenByCommand
      (fun (_ : Unit) taken r => do
        match taken with
        | [] => return r
        | name :: rest =>
          match ← readCommand commands program name rest with
          | none => refuse level program (.badChoice key name (commands.map (·.1)))
          | some inner => return r.append inner)
      (args.length + 1) [()] Reading.empty roles
    return r

def readCommand : List (String × String × Grammar) → String → String → List String → Except Stop (Option Reading)
  | [], _, _, _ => .ok none
  | (n, _, g) :: rest, program, name, args =>
    if n == name then do
      let r ← g.read (programAt program name) args
      return some { r with path := name :: r.path }
    else readCommand rest program name args

end

def Grammar.parse (g : Grammar) (program : String) (args : List String) : Except Stop Reading := do
  let r ← g.read program args
  if r.extras.isEmpty then return r else refuse g program (.unrecognized r.extras)

end SmallScript.Command
