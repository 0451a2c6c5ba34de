import SmallScript.World.Basic

/-!
# Commands of the host

A small command language: commands separated by `;`, `&&` and `||`, words with quotes and variables,
and the commands `echo`, `printf`, `cat`, `pwd`, `true`, `false` and `exit`. Any other command is
unknown to the host.
-/

namespace SmallScript.World

open Text (unifyLineEnds decodeLossy)

namespace Shell

inductive Joint where
  | always
  /-- run if the one before succeeded -/
  | onSuccess
  /-- run if the one before failed -/
  | onFailure
deriving DecidableEq, Repr

inductive Piece where
  | word (text : String)
  | joint (j : Joint)
deriving DecidableEq, Repr

def isNameChar (c : Char) : Bool := c.isAlphanum || c == '_'

def valueOf (env : List (String × String)) (name : List Char) : List Char :=
  ((env.lookup (String.ofList name)).getD "").toList

inductive Mode where
  | plain | single | double
deriving DecidableEq

/-- The word so far, if one has begun, behind the pieces so far. -/
def finish (word : Option (List Char)) (done : List Piece) : List Piece :=
  match word with
  | some cs => .word (String.ofList cs.reverse) :: done
  | none => done

/-- Splits a command line; the pieces come in reverse order. There is none for a quote without end.
The first argument bounds the number of steps. -/
def scan (env : List (String × String)) :
    Nat → Mode → Option (List Char) → List Piece → List Char → Option (List Piece)
  | 0, _, _, _, _ => none
  | _ + 1, .plain, word, done, [] => some (finish word done)
  | _ + 1, _, _, _, [] => none
  | n + 1, .single, word, done, c :: rest =>
    if c == '\'' then scan env n .plain word done rest
    else scan env n .single (some (c :: word.getD [])) done rest
  | n + 1, mode, word, done, '$' :: rest =>
    let name := rest.takeWhile isNameChar
    if name.isEmpty then scan env n mode (some ('$' :: word.getD [])) done rest
    else
      scan env n mode (some ((valueOf env name).reverse ++ word.getD [])) done (rest.dropWhile isNameChar)
  | n + 1, .double, word, done, c :: rest =>
    match c, rest with
    | '"', _ => scan env n .plain word done rest
    | '\\', d :: rest' =>
      if d == '"' || d == '\\' || d == '$' then scan env n .double (some (d :: word.getD [])) done rest'
      else scan env n .double (some (c :: word.getD [])) done rest
    | _, _ => scan env n .double (some (c :: word.getD [])) done rest
  | n + 1, .plain, word, done, c :: rest =>
    match c, rest with
    | '\'', _ => scan env n .single (some (word.getD [])) done rest
    | '"', _ => scan env n .double (some (word.getD [])) done rest
    | '\\', d :: rest' => scan env n .plain (some (d :: word.getD [])) done rest'
    | '&', '&' :: rest' => scan env n .plain none (.joint .onSuccess :: finish word done) rest'
    | '|', '|' :: rest' => scan env n .plain none (.joint .onFailure :: finish word done) rest'
    | ';', _ | '\n', _ => scan env n .plain none (.joint .always :: finish word done) rest
    | ' ', _ | '\t', _ => scan env n .plain none (finish word done) rest
    | _, _ => scan env n .plain (some (c :: word.getD [])) done rest

def piecesOf (env : List (String × String)) (line : String) : Option (List Piece) :=
  (scan env (line.length + 1) .plain none [] line.toList).map List.reverse

def commandsOf (joint : Joint) (words : List String) : List Piece → List (Joint × List String)
  | [] => [(joint, words.reverse)]
  | .word w :: rest => commandsOf joint (w :: words) rest
  | .joint j :: rest => (joint, words.reverse) :: commandsOf j [] rest

structure Outcome where
  output : String
  code : Nat
  stop : Bool

def unescape : List Char → List Char
  | '\\' :: 'n' :: rest => '\n' :: unescape rest
  | '\\' :: 't' :: rest => '\t' :: unescape rest
  | '\\' :: '\\' :: rest => '\\' :: unescape rest
  | c :: rest => c :: unescape rest
  | [] => []

def fillIn : List Char → List String → List Char
  | '%' :: 's' :: rest, args => (args.headD "").toList ++ fillIn rest args.tail
  | '%' :: 'd' :: rest, args => (args.headD "0").toList ++ fillIn rest args.tail
  | '%' :: '%' :: rest, args => '%' :: fillIn rest args
  | c :: rest, args => c :: fillIn rest args
  | [], _ => []

def exitCode (text : String) : Nat :=
  match text.toNat? with
  | some n => n % 256
  | none => 2

def run (w : World) (previous : Nat) : List String → Outcome
  | [] => ⟨"", 0, false⟩
  | "true" :: _ | ":" :: _ => ⟨"", 0, false⟩
  | "false" :: _ => ⟨"", 1, false⟩
  | "echo" :: "-n" :: args => ⟨" ".intercalate args, 0, false⟩
  | "echo" :: args => ⟨String.ofList (unescape (" ".intercalate args).toList) ++ "\n", 0, false⟩
  | "printf" :: format :: args => ⟨String.ofList (fillIn (unescape format.toList) args), 0, false⟩
  | "pwd" :: _ => ⟨w.files.pathText w.files.current ++ "\n", 0, false⟩
  | "cat" :: names => names.foldl (fun o name =>
      match w.files.read name with
      | .ok content => { o with output := o.output ++ String.ofList (decodeLossy content.toList) }
      | .error _ => { o with code := 1 }) ⟨"", 0, false⟩
  | ["exit"] => ⟨"", previous, true⟩
  | "exit" :: code :: _ => ⟨"", exitCode code, true⟩
  | _ => ⟨"", 127, false⟩

def runAll (w : World) (output : String) (code : Nat) : List (Joint × List String) → String × Nat
  | [] => (output, code)
  | (joint, words) :: rest =>
    let skip := words.isEmpty || (joint = .onSuccess && code != 0) || (joint = .onFailure && code == 0)
    if skip then runAll w output code rest
    else
      let o := run w code words
      if o.stop then (output ++ o.output, o.code) else runAll w (output ++ o.output) o.code rest

end Shell

def execute (w : World) (line : String) : String × Nat :=
  match Shell.piecesOf w.environment line with
  | none => ("", 2)
  | some pieces =>
    let (output, code) := Shell.runAll w "" 0 (Shell.commandsOf .always [] pieces)
    (String.ofList (unifyLineEnds output.toList), code)

end SmallScript.World
