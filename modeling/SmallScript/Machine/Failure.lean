import SmallScript.Machine.Snapshot
import SmallScript.Json.Access
import SmallScript.Number.Calendar
import SmallScript.World.Basic
import SmallScript.Inspect.Pretty
import SmallScript.Syntax.Parse

/-!
# Failures

What can end the evaluation of a program early. A *problem* is what the language itself reports,
with a position in the source where there is one. The other failures come from reading source
texts, from arithmetic, from looking into collections and from the surroundings.
-/

namespace SmallScript.Machine

open Number (NumberFault TimeFault)
open Syntax
open World (FileFault FileCause)
open Inspect (PrettyFault)
open Text (Utf8Fault quoted)
open Data (KindFault)
open Json (AccessFault)

def placeSuffix (p : Pos) : String :=
  let col := p.col - p.len
  s!" (Ln {p.line}, Col {col})"

inductive Problem where
  | alreadyDeclared (name : String)
  | constantVariable (name : String)
  | notInScope (name : String)
  /-- something other than a function or assignment in a class -/
  | classMember (pos : Pos)
  /-- an assignment in a class to something other than a name -/
  | classProperty (pos : Pos)
  | enumMember (pos : Pos)
  | returnOutside (pos : Pos)
  | breakOutside (pos : Pos)
  | continueOutside (pos : Pos)
  | assertNotBool (pos : Pos)
  | assertionFailed (message : Option String) (pos : Pos)
  | importGuarded (module : String) (pos : Pos)
  | notInModule (name module : String) (pos : Pos)
  | noSourceFile (module : String) (pos : Pos)
  | noPackage (module : String) (pos : Pos)
  | packageMissing (module : String) (pos : Pos)
  | entryMissing (module : String) (pos : Pos)
  | delTarget (pos : Pos)
  | forTarget (pos : Pos)
  | forIterator (pos : Pos)
  | divisionByZero (pos : Pos)
  | unknownOperator (op : String) (pos : Pos)
  /-- a logical operator on something other than truth values, strings and numbers -/
  | logicalOperands (pos : Pos)
  | keyNotString (pos : Pos)
  | keyNotName (pos : Pos)
  | indexNotNumber (pos : Pos)
  | arrayMember (pos : Pos)
  | stringMember (pos : Pos)
  | noMembers (pos : Pos)
  /-- a compound assignment to something other than a name or number -/
  | compoundTarget (pos : Pos)
  | compoundLeft (pos : Pos)
  | compoundRight (pos : Pos)
  | unknownAssignment (shown : String) (pos : Pos)
  /-- an assignment to a member of something that is no object -/
  | assignNonObject (kind : String) (pos : Pos)
  | constantObject (name : String) (pos : Pos)
  | frozenObject (key : String) (pos : Pos)
  /-- an assignment to something other than a name or a member -/
  | assignTarget (pos : Pos)
  | argumentCount (params : List String) (given : Nat) (pos : Pos)
  | notCallable (pos : Pos)
  | unknownNode (pos : Pos)
  | missing (what : String)
  | mustBe (what kind : String)
  /-- a native function that cannot do its job on these values -/
  | cannot (action shown : String)
  | notConvertible (shown kind : String)
  | mustContain (kind : String)
  | disabled (what : String)
  | notFound (what path : String)
  | noAnswer (url : String)
  | badJsonText
  | badJsonValue
deriving DecidableEq

def Problem.message : Problem → String
  | .alreadyDeclared name => s!"Variable \"{name}\" already declared"
  | .constantVariable name => s!"Cannot assign to constant variable \"{name}\""
  | .notInScope name => s!"Variable \"{name}\" not found in scope"
  | .classMember p => "Expected a function or variable declaration inside a class." ++ placeSuffix p
  | .classProperty p => "Expected an identifier as a property." ++ placeSuffix p
  | .enumMember p => "Expected only identifiers inside an enum." ++ placeSuffix p
  | .returnOutside p => "Return statement found outside of a function." ++ placeSuffix p
  | .breakOutside p => "Break keyword found outside of a loop." ++ placeSuffix p
  | .continueOutside p => "Continue keyword found outside of a loop." ++ placeSuffix p
  | .assertNotBool p => "Expected a boolean value in an assert statement." ++ placeSuffix p
  | .assertionFailed m p => "Assertion failed: " ++ m.getD "None" ++ placeSuffix p
  | .importGuarded m p => s!"File I/O is disabled, unable to import '{m}'." ++ placeSuffix p
  | .notInModule n m p => s!"Variable/function '{n}' not found in module '{m}'." ++ placeSuffix p
  | .noSourceFile m p => s!"File '{m}.eryx' does not exist." ++ placeSuffix p
  | .noPackage m p => s!"Package '{m}' not found." ++ placeSuffix p
  | .packageMissing m p => s!"Installed package '{m}' not found." ++ placeSuffix p
  | .entryMissing m p =>
    s!"Entrypoint 'main.eryx' not found in installed package '{m}'." ++ placeSuffix p
  | .delTarget p => "Expected an identifier (variable) to delete." ++ placeSuffix p
  | .forTarget p => "Expected an identifier as a variable." ++ placeSuffix p
  | .forIterator p => "Expected an array as an iterator." ++ placeSuffix p
  | .divisionByZero p => "Division by zero." ++ placeSuffix p
  | .unknownOperator op p => s!"Unknown binary operator {op}." ++ placeSuffix p
  | .logicalOperands p =>
    "Expected boolean, string or number values for logical operators." ++ placeSuffix p
  | .keyNotString p => "Expected a string as a property." ++ placeSuffix p
  | .keyNotName p => "Expected an identifier as a property." ++ placeSuffix p
  | .indexNotNumber p => "Expected a number as an index." ++ placeSuffix p
  | .arrayMember p => "Expected a computed property for an array: string[number]." ++ placeSuffix p
  | .stringMember p => "Expected a computed property for a string: string[number]." ++ placeSuffix p
  | .noMembers p => "Unsupported value type in member expression." ++ placeSuffix p
  | .compoundTarget p => "Expected an identifier or number value for an assignment." ++ placeSuffix p
  | .compoundLeft p => "Expected a number value (assigne) for an assignment." ++ placeSuffix p
  | .compoundRight p => "Expected a number value for an assignment." ++ placeSuffix p
  | .unknownAssignment shown p => s!"Unknown assignment operator: {shown}" ++ placeSuffix p
  | .assignNonObject kind p => s!"Cannot assign to a non-object value: {kind}" ++ placeSuffix p
  | .constantObject name p => s!"Cannot assign to constant object \"{name}\"" ++ placeSuffix p
  | .frozenObject key p => s!"Cannot assign to immutable object \"{key}\"" ++ placeSuffix p
  | .assignTarget p =>
    "Expected an identifier or member expression on the left side of an assignment." ++ placeSuffix p
  | .argumentCount params given p =>
    s!"Expected {params.length} arguments, got {given}. (" ++ ", ".intercalate params ++ ")" ++ placeSuffix p
  | .notCallable p => "Cannot call a non-function value." ++ placeSuffix p
  | .unknownNode p => "Unknown AST node." ++ placeSuffix p
  | .missing what => s!"Missing {what}"
  | .mustBe what kind => s!"{what} must be {kind}"
  | .cannot action shown => s!"Cannot {action} {shown}"
  | .notConvertible shown kind => s!"Cannot convert {shown} to {kind}"
  | .mustContain kind => s!"Array must contain only {kind}"
  | .disabled what => s!"{what} function is disabled"
  | .notFound what path => s!"{what} '{path}' not found"
  | .noAnswer url => s!"Error fetching URL '{url}'"
  | .badJsonText => "Invalid JSON string"
  | .badJsonValue => "Invalid JSON object"

inductive LookupFault where
  | listIndex | stringIndex | emptyPop | key (name : String) | emptySeparator
deriving DecidableEq

def LookupFault.message : LookupFault → String
  | .listIndex => "list index out of range"
  | .stringIndex => "string index out of range"
  | .emptyPop => "pop from empty list"
  | .key name => quoted name
  | .emptySeparator => "empty separator"

inductive ArchiveLimit where
  /-- the number of its files -/
  | count (found limit : Nat)
  /-- the size of its files together -/
  | total (found limit : Nat)
  | file (name : String) (limit : Int)
deriving DecidableEq, Repr

def ArchiveLimit.message : ArchiveLimit → String
  | .count n limit => s!"Too many files in the zip archive: {n} > {limit}"
  | .total n limit => s!"Total size of uncompressed files exceeds limit: {n} > {limit}"
  | .file name limit => s!"The file '{name}' exceeds the maximum allowed size of {limit} bytes."

inductive Failure where
  /-- a problem that the language reports -/
  | problem (p : Problem)
  /-- a source text that does not parse -/
  | parse (source : String) (f : ParseFault)
  | number (f : NumberFault)
  /-- a number that is no point in time -/
  | time (f : TimeFault)
  /-- a look into a collection that fails -/
  | lookup (f : LookupFault)
  | file (f : FileFault)
  /-- bytes that are no text -/
  | decode (f : Utf8Fault)
  /-- a datum that cannot be laid out -/
  | pretty (f : PrettyFault)
  /-- a document of a kind that an operation cannot deal with -/
  | document (f : KindFault)
  /-- a collection that was changed in the middle of a walk through it -/
  | changedOnTheWay
  /-- an attribute that an object of the host does not have -/
  | attribute (kind name : String)
  /-- a name with more than one divider -/
  | tooManyParts
  | badArchive
  /-- an archive or a part of it that is over a limit -/
  | archiveLimit (f : ArchiveLimit)
  /-- input that is used up -/
  | endOfInput
  | interrupt
  /-- the end of the process with a code -/
  | exit (code : Int)
  /-- the bound on the evaluation is reached -/
  | outOfFuel
deriving DecidableEq

instance : Coe Problem Failure := ⟨.problem⟩

def Failure.ofAccess : AccessFault → Failure
  | .missing name => .lookup (.key name)
  | .beyond => .lookup .listIndex
  | .kind f => .document f
  | .method kind name => .attribute kind name

def parseMessage (source : String) : ParseFault → String
  | .at pos cause => (report? source pos cause.message).getD LookupFault.listIndex.message
  | .unclosedString => LookupFault.emptyPop.message
  | .lastMinus | .cutOff => LookupFault.listIndex.message
  | .badNumber text => (NumberFault.badFloat (quoted text)).message
  | .tooDeep => "maximum recursion depth exceeded"

def Failure.message : Failure → String
  | .problem p => p.message
  | .parse source f => parseMessage source f
  | .number f => f.message
  | .time f => f.message
  | .lookup f => f.message
  | .file f => f.message
  | .decode f => f.message
  | .pretty f => f.message
  | .attribute kind name => s!"'{kind}' object has no attribute '{name}'"
  | .document f => f.message
  | .changedOnTheWay => "dictionary changed size during iteration"
  | .tooManyParts => "too many values to unpack (expected 2)"
  | .badArchive => "File is not a zip file"
  | .archiveLimit f => f.message
  | .endOfInput => "EOF when reading a line"
  | .interrupt => ""
  | .exit code => toString code
  | .outOfFuel => "out of fuel"

inductive FailureKind where
  | runtime | syntaxError | index | key | value | type | zeroDivision | overflow | attribute
  | endOfInput | fileNotFound | isADirectory | notADirectory | system | fileExists | unicodeDecode | badArchive
  | exit | interrupt | recursion
deriving DecidableEq, Repr

def numberFaultKind : NumberFault → FailureKind
  | .intDivision | .floatDivision | .complexDivision | .intModulo | .floatModulo | .zeroDivisor
  | .zeroPower | .complexZeroPower => .zeroDivision
  | .powerRange | .complexPowerRange | .intTooLarge | .quotientTooLarge | .roundedTooLarge
  | .infinityToInt | .hugeShift | .hugeFactorial => .overflow
  | .complexToInt | .notReal | .complexRound | .notOrdered .. | .unsupported .. => .type
  | .nanToInt | .negativeShift | .domain | .negativeFactorial | .emptySequence _ | .zeroStep
  | .tooManyDigits | .tooLongText _ | .badInteger _ | .badFloat _ => .value

def Failure.kind : Failure → FailureKind
  | .problem _ => .runtime
  | .parse source (.at pos _) => if (lineOf? source pos.line).isSome then .syntaxError else .index
  | .parse _ (.badNumber _) => .value
  | .parse _ .tooDeep => .recursion
  | .parse _ _ => .index
  | .number f => numberFaultKind f
  | .time .notANumber => .value
  | .time .year => .system
  | .time .complex => .type
  | .time _ => .overflow
  | .lookup (.key _) => .key
  | .lookup .emptySeparator => .value
  | .lookup _ => .index
  | .file f => match f.cause with
    | .notFound => .fileNotFound
    | .isDirectory => .isADirectory
    | .notDirectory => .notADirectory
    | .notEmpty | .belowItself => .system
    | .occupied => .fileExists
  | .decode _ => .unicodeDecode
  | .pretty .notRecord => .type
  | .pretty (.functionInside _) => .attribute
  | .pretty (.number f) => numberFaultKind f
  | .attribute _ _ => .attribute
  | .document _ => .type
  | .changedOnTheWay => .runtime
  | .tooManyParts => .value
  | .badArchive => .badArchive
  | .archiveLimit _ => .value
  | .endOfInput => .endOfInput
  | .interrupt => .interrupt
  | .exit _ => .exit
  | .outOfFuel => .recursion

end SmallScript.Machine
