import SmallScript.Evaluate.Basic
import SmallScript.Proofs.Library.Tame
import SmallScript.Proofs.Syntax.Faults

/-!
# Hazards of nodes

The kinds of failure that are no reported problem and that may come of a node by itself, not of its parts:
`nodeHazards`. An operator has those of its arithmetic, and the division by zero that an operator between
operands reports is a hazard of the compound assignment. The import of a source text has all faults of
files, of package lists and of the parser.
-/

namespace SmallScript.Evaluate

open Machine
open Value (ScopeRef ObjectRef)
open Number (Numeric NumberFault)
open Data (Table)
open Syntax
open Inspect (nodeDatum)

variable {op : String} {a b : Numeric} {r : Except NumberFault Numeric}

/-! ## Tables -/

def binaryHazards : String → List FailureKind
  | "+" | "-" | "*" | "/" => [.overflow]
  | "%" => [.overflow, .type]
  | "**" => [.zeroDivision, .overflow]
  | "<" | ">" | "<=" | ">=" => [.type]
  | "^" | "&" | "|" | "<<" | ">>" => wholeKinds
  | _ => []

/-- The hazards of a compound assignment on numbers. -/
def compoundHazards : String → List FailureKind
  | "+=" | "-=" | "*=" => [.overflow]
  | "/=" | "^=" => [.zeroDivision, .overflow]
  | "%=" => [.zeroDivision, .overflow, .type]
  | "&=" | "|=" | "<<=" | ">>=" => wholeKinds
  | _ => []

/-- Whether a key on the way to a member has to be computed. -/
def computesKey : Node → Bool
  | .member _ object property _ => property.name?.isNone || computesKey object
  | _ => false

/-- The hazards of finding the object and the key of a member: a computed key is made a text. -/
def keyHazards (target : Node) : List FailureKind := if computesKey target then [.value] else []

/-- The hazards of an assignment. There may be no old value under the key of a member. -/
def assignmentHazards (target : Node) (op : String) : List FailureKind :=
  match target with
  | .member .. => keyHazards target ++ if op.isEmpty then [] else .key :: compoundHazards op
  | _ => compoundHazards op

/-- The hazards of finding a source text to import. -/
def sourceHazards : List FailureKind :=
  [.fileNotFound, .isADirectory, .notADirectory, .unicodeDecode, .type, .attribute]

/-- The hazards of reading a source text. -/
def parseHazards : List FailureKind := [.syntaxError, .index, .value]

/-- The hazards of a list of properties: there may be something else in it. -/
def fieldHazards (properties : List Node) : List FailureKind :=
  if properties.all fun | .property .. => true | _ => false then [] else [.attribute]

/-- The hazards of the members of a class: one may be absent. -/
def memberHazards (members : List Node) : List FailureKind := if members.any (·.isAbsent) then [.attribute] else []

/-- The kinds of failure, beside reported problems, that may come of a node itself. -/
def nodeHazards : Node → List FailureKind
  | .binary _ _ op _ => binaryHazards op
  | .assignment _ target _ op => assignmentHazards target (op.getD "")
  | .member _ _ _ computed => if computed then .index :: wholeKinds else []
  | .importing _ module _ _ => if (Heap.module? module).isSome then [] else sourceHazards ++ parseHazards
  | .variable _ _ target _ => if target.name?.isSome then [] else [.attribute]
  | .object _ properties => fieldHazards properties
  | .class _ _ members _ => memberHazards members
  | .emptyStatement _ | .emptyExpression _ | .property .. => [.type, .attribute, .value]
  | .absent | .number .. | .string .. | .array .. | .identifier .. | .call .. | .program .. | .enum .. | .function ..
  | .conditional .. | .assertion .. | .del .. | .loop .. | .while .. | .for .. | .brk _ | .cont _ | .ret .. => []

theorem mem_keyHazards {target k} : k ∈ keyHazards target ↔ computesKey target = true ∧ k = .value := by
  unfold keyHazards
  split
  · next h => simp [h]
  · next h => simp [h]

theorem arithmetic_faults
    (h : arithmetic op a b = some r) : OnlyFaults (Among (.zeroDivision :: binaryHazards op)) r := by
  unfold arithmetic at h
  split at h <;> cases h
  · exact (lift2_faults _ _ _ _ _).widen (by decide)
  · exact (lift2_faults _ _ _ _ _).widen (by decide)
  · exact (lift2_faults _ _ _ _ _).widen (by decide)
  · exact .ite (.error (by decide)) ((div_faults a b).widen (by decide))
  · exact (mod_faults a b).widen (by decide)

theorem comparison_faults {r} (h : comparison op a b = some r) : OnlyFaults (Among (binaryHazards op)) r := by
  unfold comparison at h
  split at h <;> cases h
  · exact .ok _
  · exact .ok _
  all_goals exact order_faults _ _ _

theorem bitwise_faults (h : bitwise op a b = some r) : OnlyFaults (Among (binaryHazards op)) r := by
  unfold bitwise at h
  split at h <;> cases h
  all_goals exact bits_faults _ _ _

theorem compound_faults (h : compound op a b = some r) : OnlyFaults (Among (compoundHazards op)) r := by
  unfold compound at h
  split at h <;> cases h
  · exact lift2_faults _ _ _ _ _
  · exact lift2_faults _ _ _ _ _
  · exact lift2_faults _ _ _ _ _
  · exact div_faults a b
  · exact mod_faults a b
  · exact pow_faults a b
  all_goals exact bits_faults _ _ _

/-! ## Sources of imports -/

theorem isListed_faults (doc : Json) (name : String) :
    OnlyFaults (fun f => (Failure.ofAccess f).kind ∈ sourceHazards) (isListed doc name) := by
  unfold isListed
  split
  · split
    · exact .ok _
    · refine .ite (.ok _) ?_
      unfold Json.holds
      split
      · exact .ok _
      · exact .ok _
      · exact .ok _
      · exact .error (show .type ∈ sourceHazards by decide)
  · exact .error (show .attribute ∈ sourceHazards by decide)

/-- A source text that has no tree has a syntax error, or a token, a character or a digit is missing. -/
theorem parse_error_kind {source f} (h : parse source = .error f) : (Failure.parse source f).kind ∈ parseHazards := by
  cases ht : tokenize source with
  | error g =>
    rw [parse, ht] at h
    cases h
    obtain ⟨ls, rest, hs, _, hplace⟩ := stuck_of_tokenize_error ht
    obtain ⟨cause, place⟩ := g
    subst hplace
    rw [kind_of_stuck hs cause]
    cases cause <;> simp [parseHazards]
  | ok ts =>
    obtain ⟨body, hbody, _⟩ | ⟨f', hf', hblame⟩ := parse_of_tokens ht
    · rw [hbody] at h
      cases h
    · rw [hf'] at h
      cases h
      obtain hkind | ⟨hkind, _⟩ | ⟨hkind, _⟩ := kind_of_blames ht hblame
      all_goals
        rw [hkind]
        decide

end SmallScript.Evaluate
