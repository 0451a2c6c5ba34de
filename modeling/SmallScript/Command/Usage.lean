/-!
# Command lines, their usage and help texts

A command line has options, positional arguments and commands. A command has a grammar of its own for the arguments
behind its name. A level has either positional arguments or commands.

The usage of a level names the program, its options and its arguments on one line, or on several if one
would be too long. The help text adds the description and a table of arguments and options.
-/

namespace SmallScript.Command

inductive OptionKind where
  /-- it shows the help text and ends -/
  | help
  | shows (text : String)
  | flag
  /-- it takes a value -/
  | text (metavar : String)
  /-- it takes a value that is an integer -/
  | integer (metavar : String)
deriving DecidableEq, Repr

structure Opt where
  /-- all spellings, the shortest first -/
  names : List String
  /-- the name under which it is looked up -/
  key : String
  kind : OptionKind
  help : String
deriving DecidableEq, Repr

structure Positional where
  name : String
  help : String
deriving DecidableEq, Repr

/-- A level of a command line. -/
inductive Grammar where
  | leaf (options : List Opt) (arguments : List Positional)
  /-- a level with commands, the name under which the command is looked up, and what is said about the
  commands -/
  | branch (description : Option String) (options : List Opt) (key help : String)
      (commands : List (String × String × Grammar))

namespace Grammar

def options : Grammar → List Opt
  | .leaf o _ => o
  | .branch _ o _ _ _ => o

end Grammar

def helpOption : Opt := ⟨["-h", "--help"], "help", .help, "show this help message and exit"⟩

def Opt.metavar? (o : Opt) : Option String :=
  match o.kind with
  | .text m | .integer m => some m
  | _ => none

def lineWidth : Nat := 78

/-- The column that explanations start in, at most. -/
def helpColumn : Nat := 24

def blanks (n : Nat) : String := "".pushn ' ' n

def usageLabel : String := "usage: "

def Opt.usage (o : Opt) : String :=
  let name := o.names.headD ""
  match o.metavar? with
  | some m => s!"[{name} {m}]"
  | none => s!"[{name}]"

def commandList (names : List String) : String := "\x7b" ++ ",".intercalate names ++ "\x7d"

def Grammar.argumentParts : Grammar → List String
  | .leaf _ args => args.map (·.name)
  | .branch _ _ _ _ cs => [commandList (cs.map (·.1)), "..."]

/-- Puts parts on lines. `used` is the length of the line so far. -/
def fillLines (indent : Nat) : Nat → List String → List String → List (List String)
  | _, line, [] => if line.isEmpty then [] else [line.reverse]
  | used, line, p :: rest =>
    if lineWidth < used + 1 + p.length && !line.isEmpty then
      line.reverse :: fillLines indent (indent + p.length) [p] rest
    else fillLines indent (used + 1 + p.length) (p :: line) rest

def indentedLines (indent : Nat) (parts : List String) : List String :=
  (fillLines indent (indent - 1) [] parts).map fun l => blanks indent ++ " ".intercalate l

def labelledLines (indent : Nat) (parts : List String) : List String :=
  match fillLines indent (usageLabel.length - 1) [] parts with
  | [] => []
  | first :: rest => " ".intercalate first :: rest.map fun l => blanks indent ++ " ".intercalate l

def usageLines (program : String) (options arguments : List String) : List String :=
  if 4 * (usageLabel.length + program.length) ≤ 3 * lineWidth then
    let indent := usageLabel.length + program.length + 1
    if !options.isEmpty then labelledLines indent (program :: options) ++ indentedLines indent arguments
    else if !arguments.isEmpty then labelledLines indent (program :: arguments)
    else [program]
  else
    let indent := usageLabel.length
    let lines := indentedLines indent (options ++ arguments)
    program :: (if lines.length > 1 then indentedLines indent options ++ indentedLines indent arguments
      else lines)

def Grammar.usage (g : Grammar) (program : String) : String :=
  let options := g.options.map (·.usage)
  let arguments := g.argumentParts
  let line := " ".intercalate ((program :: (options ++ arguments)).filter (!·.isEmpty))
  usageLabel
    ++ (if lineWidth < usageLabel.length + line.length then "\n".intercalate (usageLines program options arguments)
      else line)
    ++ "\n"

/-! ## Help -/

structure Entry where
  indent : Nat
  title : String
  text : String

def Opt.title (o : Opt) : String :=
  ", ".intercalate (o.names.map fun n => match o.metavar? with
    | some m => n ++ " " ++ m
    | none => n)

/-- The entries for the arguments of a level; those for commands stand below one for all of them. -/
def Grammar.argumentEntries : Grammar → List Entry
  | .leaf _ args => args.map fun a => ⟨2, a.name, a.help⟩
  | .branch _ _ _ help cs =>
    ⟨2, commandList (cs.map (·.1)), help⟩ :: cs.map fun c => ⟨4, c.1, c.2.1⟩

def Grammar.optionEntries (g : Grammar) : List Entry := g.options.map fun o => ⟨2, o.title, o.help⟩

/-- The column of the explanations: two behind the longest title, unless that is too far. -/
def columnFor (entries : List Entry) : Nat :=
  min (entries.foldl (fun n e => max n (e.title.length + 4)) 0) helpColumn

/-- An entry; the explanation goes to a line of its own behind a long title. -/
def Entry.render (column : Nat) (e : Entry) : String :=
  let room := column - e.indent - 2
  if e.title.length ≤ room then
    blanks e.indent ++ e.title ++ blanks (room - e.title.length) ++ "  " ++ e.text ++ "\n"
  else blanks e.indent ++ e.title ++ "\n" ++ blanks column ++ e.text ++ "\n"

def helpSection (title : String) (column : Nat) (entries : List Entry) : String :=
  if entries.isEmpty then "" else "\n" ++ title ++ ":\n" ++ String.join (entries.map (·.render column))

def Grammar.description? : Grammar → Option String
  | .leaf _ _ => none
  | .branch d _ _ _ _ => d

def Grammar.helpText (g : Grammar) (program : String) : String :=
  let column := columnFor (g.argumentEntries ++ g.optionEntries)
  g.usage program
    ++ (match g.description? with | some d => "\n" ++ d ++ "\n" | none => "")
    ++ helpSection "positional arguments" column g.argumentEntries
    ++ helpSection "options" column g.optionEntries

end SmallScript.Command
