import SmallScript.Proofs.Transpile.Pending

/-!
# The blocks of the code

`Laid d items` says that lines have the block structure of statements at a depth: each statement stands at this depth, and
a header is followed by lines of a body one deeper, the first of which comes before any other line. Only the body of a
function is written as `pass` if it is empty, and the header of an enumeration always stands at the margin. So the code of
a body has this structure if every other block has a statement that leaves a line and no enumeration is nested,
`allFilled`; a block without statements is left open: `code_laid`.
-/

namespace SmallScript.Transpile

open Syntax Machine List Emission

variable {d : Nat} {a b : Emission} {x y : Bool} {items rest : List Item}

/-! ## Blocks -/

def Item.depth? : Item → Option Nat
  | .line d _ | .head d _ => some d
  | .note _ => none

/-- The depth of the first line. -/
def firstDepth (items : List Item) : Option Nat := items.findSome? Item.depth?

/-- The lines of statements at a depth. -/
inductive Laid : Nat → List Item → Prop where
  | nil {d : Nat} : Laid d []
  | line {d : Nat} (text : String) {rest : List Item} (h : Laid d rest) : Laid d (.line d text :: rest)
  | blank {d : Nat} {rest : List Item} (h : Laid d rest) : Laid d (.line 0 "" :: rest)
  | note {d : Nat} (text : String) {rest : List Item} (h : Laid d rest) : Laid d (.note text :: rest)
  /-- a header and its block -/
  | block {d : Nat} (text : String) {body rest : List Item} (hbody : Laid (d + 1) body)
    (hfirst : firstDepth body = some (d + 1)) (h : Laid d rest) : Laid d (.head d text :: body ++ rest)
  /-- an object, its fields between the braces -/
  | object {d : Nat} {fields rest : List Item} (hfields : Laid (d + 1) fields) (h : Laid d rest) :
    Laid d (.line d "\x7b" :: fields ++ .line d "\x7d" :: rest)

theorem Laid.append (h : Laid d items) (h' : Laid d rest) : Laid d (items ++ rest) := by
  induction h with
  | nil => exact h'
  | line text _ ih => exact .line text (ih h')
  | blank _ ih => exact .blank (ih h')
  | note text _ ih => exact .note text (ih h')
  | block text hbody hfirst _ _ ih => simpa using Laid.block text hbody hfirst (ih h')
  | object hfields _ _ ih => simpa using Laid.object hfields (ih h')

/-! ## Emissions -/

/-- If no fault ends the emission, it has the lines of statements, and some unless it is silent. -/
def Lays (d : Nat) (a : Emission) (loud : Bool) : Prop :=
  a.fault = none → Laid d a.items ∧ firstDepth a.items = if loud then some d else none

namespace Lays

theorem empty : Lays d .empty false := fun _ => ⟨.nil, rfl⟩

theorem lineOf (r : Except Failure String) : Lays d (lineOf d r) true := by
  cases r with
  | ok text => exact fun _ => ⟨.line text .nil, rfl⟩
  | error f => exact nofun

theorem of_append (h : a.fault = none → b.fault = none → Laid d (a.items ++ b.items) ∧
    firstDepth (a.items ++ b.items) = if x then some d else none) : Lays d (a ++ b) x := by
  cases hfault : a.fault with
  | some f =>
    rw [append_of_some hfault]
    exact fun hnone => absurd (hfault.symm.trans hnone) (Option.some_ne_none f)
  | none =>
    rw [append_of_none hfault]
    exact h hfault

theorem append (ha : Lays d a x) (hb : Lays d b y) : Lays d (a ++ b) (x || y) := by
  refine of_append fun hfa hfb => ⟨(ha hfa).1.append (hb hfb).1, ?_⟩
  rw [firstDepth, findSome?_append, ← firstDepth, ← firstDepth, (ha hfa).2, (hb hfb).2]
  cases x <;> rfl

theorem append_blank (ha : Lays d a true) : Lays d (a ++ blank) true := by
  refine of_append fun hfa _ => ⟨(ha hfa).1.append (.blank .nil), ?_⟩
  rw [firstDepth, findSome?_append, ← firstDepth, (ha hfa).2]
  rfl

theorem block (r : Except Failure String) (hb : Lays (d + 1) b true) : Lays d (headOf d r ++ b) true := by
  cases r with
  | error f => exact nofun
  | ok text =>
    refine of_append fun _ hfb => ⟨?_, rfl⟩
    have hblock := Laid.block text (hb hfb).1 (hb hfb).2 .nil
    rwa [append_nil] at hblock

theorem object (hb : Lays (d + 1) b x) : Lays d (line d "\x7b" ++ b ++ line d "\x7d") true := by
  rw [append_of_none (a := line d _) rfl]
  exact of_append fun hfb _ => ⟨.object (hb hfb).1 .nil, rfl⟩

theorem concat {l : List Emission} (hl : ∀ e ∈ l, Lays d e true) (ha : Lays d a x) :
    Lays d (l.foldl (· ++ ·) a) (x || !l.isEmpty) := by
  induction l generalizing a x with
  | nil => rwa [isEmpty_nil, Bool.not_true, Bool.or_false]
  | cons e l ih =>
    obtain ⟨he, hl⟩ := forall_mem_cons.1 hl
    simpa using ih hl (ha.append he)

end Lays

/-! ## Statements -/

/-- A node that leaves a note only. -/
def silent : Node → Bool
  | .absent | .emptyStatement _ | .emptyExpression _ | .program .. | .property .. => true
  | _ => false

def loud (body : List Node) : Bool := body.any (!silent ·)

def isMethod : Node → Bool
  | .function .. => true
  | _ => false

mutual

/-- Every block of the statement has a line, and an enumeration is not nested. -/
def filled (d : Nat) : Node → Bool
  | .function _ _ _ body => (body.isEmpty || loud body) && allFilled (d + 1) body
  | .conditional _ _ yes no =>
    loud yes && allFilled (d + 1) yes && (no.isEmpty || loud no && allFilled (d + 1) no)
  | .while _ _ body | .for _ _ _ body | .loop _ body => loud body && allFilled (d + 1) body
  | .class _ _ members params =>
    (!(params.getD []).isEmpty || members.any isMethod) && methodsFilled d members
  | .enum _ _ values => d == 0 && values.any (·.name?.isSome)
  | _ => true

def allFilled (d : Nat) : List Node → Bool
  | [] => true
  | n :: rest => filled d n && allFilled d rest

/-- The methods of a class at a depth are filled, and no variable is declared among them. -/
def methodsFilled (d : Nat) : List Node → Bool
  | [] => true
  | .function _ _ _ body :: rest => (body.isEmpty || loud body) && allFilled (d + 2) body && methodsFilled d rest
  | .variable .. :: _ => false
  | _ :: rest => methodsFilled d rest

end

theorem emitFields_lays (d : Nat) (ns : List Node) : ∃ x, Lays d (emitFields d ns) x := by
  fun_induction emitFields d ns with
  | case1 => exact ⟨_, .empty⟩
  | case2 n rest ih =>
    obtain ⟨x, hx⟩ := ih
    exact ⟨_, (Lays.lineOf _).append hx⟩

theorem emitMemberValues_lays (d : Nat) (front : String) (ns : List Node) : ∃ x, Lays d (emitMemberValues d front ns) x := by
  fun_induction emitMemberValues d front ns with
  | case1 => exact ⟨_, .empty⟩
  | case2 _ _ _ _ ih => exact ih
  | case3 _ _ _ _ _ _ ih =>
    obtain ⟨x, hx⟩ := ih
    exact ⟨_, (Lays.lineOf _).append hx⟩
  | case4 _ _ _ _ ih => exact ih

theorem emitEnumValues_lays (d : Nat) (ns : List Node) : Lays d (emitEnumValues d ns) (ns.any (·.name?.isSome)) := by
  fun_induction emitEnumValues d ns with
  | case1 => exact .empty
  | case2 _ name rest ih => exact (Lays.lineOf _).append ih
  | case3 n rest hn ih =>
    have hname : n.name?.isSome = false := by
      cases n with
      | identifier pos name => exact absurd rfl (hn pos name)
      | _ => rfl
    rwa [any_cons, hname]

theorem emitConstructor_lays (d : Nat) (params : List String) (members : List Node) :
    Lays (d + 1) (emitConstructor d params members) (!params.isEmpty) := by
  unfold emitConstructor
  cases hempty : params.isEmpty with
  | true => exact .empty
  | false =>
    obtain ⟨x, hx⟩ := emitMemberValues_lays (d + 1) "" members
    obtain ⟨y, hy⟩ := emitMemberValues_lays (d + 2) "self." members
    have hparams := Lays.concat (l := params.map fun p => line (d + 2) s!"self.{p} = {p}")
      (forall_mem_map.2 fun _ _ => .lineOf _) (.empty (d := d + 2))
    rw [isEmpty_map, hempty] at hparams
    have hinit := hx.append (.block (.ok ("def __init__(self, " ++ ", ".intercalate params ++ "):")) (hparams.append hy))
    rw [Bool.or_true] at hinit
    rwa [if_neg Bool.false_ne_true, Emission.append_assoc, Emission.append_assoc]

theorem functionBody_lays {body : List Node} (h : (body.isEmpty || loud body) = true)
    (hbody : Lays d (emitBody d body) (loud body)) : Lays d (if body.isEmpty then line d "pass" else emitBody d body) true := by
  cases hempty : body.isEmpty with
  | true => exact .lineOf _
  | false =>
    rw [hempty, Bool.false_or] at h
    rwa [h] at hbody

mutual

theorem emitNode_lays : ∀ (d : Nat) (n : Node), filled d n = true → Lays d (emitNode d n) (!silent n)
  | d, .function _ name params body, h => by
    obtain ⟨hloud, hbody⟩ := Bool.and_eq_true_iff.1 h
    exact .append_blank (.block _ (functionBody_lays hloud (emitBody_lays (d + 1) body hbody)))
  | d, .conditional _ condition yes no, h => by
    simp only [filled, Bool.and_eq_true, Bool.or_eq_true] at h
    obtain ⟨⟨hloud, hyes⟩, hno⟩ := h
    have hyes := emitBody_lays (d + 1) yes hyes
    rw [hloud] at hyes
    rw [emitNode]
    cases hempty : no.isEmpty with
    | true => exact (Lays.block _ hyes).append .empty
    | false =>
      obtain ⟨hloud, hno⟩ := hno.resolve_left (Bool.eq_false_iff.1 hempty)
      have hno := emitPresent_lays (d + 1) no hno
      rw [hloud] at hno
      exact (Lays.block _ hyes).append (.block _ hno)
  | d, .while _ _ body, h | d, .for _ _ _ body, h | d, .loop _ body, h => by
    obtain ⟨hloud, hbody⟩ := Bool.and_eq_true_iff.1 h
    exact .append_blank (.block _ (hloud ▸ emitBody_lays (d + 1) body hbody))
  | d, .class _ name members params, h => by
    obtain ⟨hloud, hmethods⟩ := Bool.and_eq_true_iff.1 h
    have hbody := (emitConstructor_lays d (params.getD []) members).append (emitMethods_lays d members hmethods)
    rw [hloud] at hbody
    rw [emitNode, Emission.append_assoc (a := head d _)]
    exact .append_blank (.block _ hbody)
  | d, .enum _ name values, h => by
    obtain ⟨hd, hvalues⟩ := Bool.and_eq_true_iff.1 h
    obtain rfl := beq_iff_eq.1 hd
    exact .block _ (hvalues ▸ emitEnumValues_lays 1 values)
  | d, .object _ properties, _ => .object (emitFields_lays (d + 1) properties).choose_spec
  | d, .identifier _ name, _ => by
    have hline : Lays d (line d name) true := .lineOf _
    rw [emitNode, emitName]
    split
    · exact Lays.empty.append hline
    · exact (Lays.lineOf _).append hline
  | _, .absent, _ | _, .emptyStatement _, _ | _, .emptyExpression _, _ | _, .program .., _ | _, .property .., _ =>
    fun _ => ⟨.note _ .nil, rfl⟩
  | _, .ret _ value, _ => by cases value <;> exact .lineOf _
  | _, .assertion .., _ | _, .assignment .., _ | _, .variable .., _ | _, .brk _, _ | _, .cont _, _ | _, .del .., _
  | _, .number .., _ | _, .importing .., _ | _, .call .., _ | _, .string .., _ | _, .binary .., _ | _, .member .., _
  | _, .array .., _ => .lineOf _

theorem emitBody_lays : ∀ (d : Nat) (ns : List Node), allFilled d ns = true → Lays d (emitBody d ns) (loud ns)
  | _, [], _ => .empty
  | d, n :: rest, h =>
    have h := Bool.and_eq_true_iff.1 h
    (emitNode_lays d n h.1).append (emitBody_lays d rest h.2)

theorem emitPresent_lays : ∀ (d : Nat) (ns : List Node), allFilled d ns = true → Lays d (emitPresent d ns) (loud ns)
  | _, [], _ => .empty
  | d, n :: rest, h => by
    have h := Bool.and_eq_true_iff.1 h
    refine Lays.append ?_ (emitPresent_lays d rest h.2)
    cases n with
    | absent => exact .empty
    | _ => exact emitNode_lays d _ h.1

theorem emitMethods_lays : ∀ (d : Nat) (ns : List Node), methodsFilled d ns = true →
    Lays (d + 1) (emitMethods d ns) (ns.any isMethod)
  | _, [], _ => .empty
  | d, n :: rest, h => by
    cases n with
    | function pos name params body =>
      simp only [methodsFilled, Bool.and_eq_true] at h
      obtain ⟨⟨hloud, hbody⟩, hrest⟩ := h
      have hmethod := functionBody_lays hloud (emitBody_lays (d + 2) body hbody)
      exact Lays.append (.block _ hmethod) (emitMethods_lays d rest hrest)
    | «variable» => cases h
    | _ => exact Lays.empty.append (emitMethods_lays d rest h)

end

/-- The code of a body that no fault ends has the block structure of statements at the margin if every block has a line
and no enumeration is nested. -/
theorem code_laid {body : List Node} (hfault : faultOf body = none) (h : allFilled 0 body = true) :
    Laid 0 (emitBody 0 body).items := (emitBody_lays 0 body h hfault).1

theorem code_laid_loop : allFilled 0 [.loop .zero [.loop .zero [.brk .zero]]] = true ∧
    Laid 0 (emitBody 0 [.loop .zero [.loop .zero [.brk .zero]]]).items := ⟨by decide, code_laid rfl (by decide)⟩

/-- A loop without statements leaves its header open. -/
theorem empty_loop_not_laid : ¬ Laid 0 (emitBody 0 [.loop .zero []]).items := by
  show ¬ Laid 0 [.head 0 "while True:", .line 0 ""]
  generalize hitems : [Item.head 0 "while True:", .line 0 ""] = items
  intro h
  cases h with
  | @block _ text body rest _ hfirst _ =>
    obtain ⟨-, hrest⟩ := cons.inj hitems
    cases body with
    | nil => cases hfirst
    | cons i body =>
      obtain ⟨rfl, -⟩ := cons.inj hrest
      cases hfirst
  | _ => cases hitems

end SmallScript.Transpile
