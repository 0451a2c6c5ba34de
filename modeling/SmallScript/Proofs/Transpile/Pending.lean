import Mathlib.Data.List.DropRight
import SmallScript.Transpile.Emit

/-!
# What is pending between calls

The code of a body is added to what is pending, and a call that returns hands all of it out. So a call hands out its own
code behind the code of the calls that failed since the last one that returned: `call_hands_out_since_last`. The code of a
body is that of its front followed by that of its rest, up to the first fault: `codeOf_append`.
-/

namespace SmallScript.Transpile

open Syntax Machine List Option
open Machine.Snapshot (cutTail)

/-! ## Emissions -/

namespace Emission

variable {a b c : Emission}

theorem append_of_none (h : a.fault = none) : a ++ b = ⟨a.items ++ b.items, b.fault⟩ := by
  show a.append b = _
  rw [append, h]

theorem append_of_some {f} (h : a.fault = some f) : a ++ b = a := by
  show a.append b = _
  rw [append, h]

theorem empty_append : empty ++ a = a := append_of_none rfl

theorem append_assoc : a ++ b ++ c = a ++ (b ++ c) := by
  cases ha : a.fault with
  | some f => rw [append_of_some ha, append_of_some ha, append_of_some ha]
  | none =>
    rw [append_of_none ha, append_of_none ha]
    cases hb : b.fault with
    | some f => rw [append_of_some rfl, append_of_some hb, hb]
    | none => rw [append_of_none rfl, append_of_none hb, List.append_assoc]

end Emission

/-- The statements of a body are emitted one behind the other. -/
theorem emitBody_append (depth : Nat) : ∀ b1 b2, emitBody depth (b1 ++ b2) = emitBody depth b1 ++ emitBody depth b2
  | [], b2 => by rw [nil_append, emitBody, Emission.empty_append]
  | n :: b1, b2 => by
    rw [cons_append, emitBody, emitBody, emitBody_append depth b1 b2, Emission.append_assoc]

theorem codeText_append (xs ys : List Item) : codeText (xs ++ ys) = codeText xs ++ codeText ys := by
  rw [codeText, map_append, String.join_append]
  rfl

/-! ## The code of a body -/

/-- The code that is written for a body, up to the fault that ends it. -/
def codeOf (body : List Node) : String := codeText (emitBody 0 body).items

/-- The fault that ends a body. -/
def faultOf (body : List Node) : Option Failure := (emitBody 0 body).fault

/-- A fault ends the body. -/
def fails (body : List Node) : Bool := (faultOf body).isSome

theorem codeOf_append (b1 b2 : List Node) :
    codeOf (b1 ++ b2) = if fails b1 then codeOf b1 else codeOf b1 ++ codeOf b2 := by
  unfold codeOf fails faultOf
  rw [emitBody_append]
  cases h : (emitBody 0 b1).fault with
  | some f => rw [Emission.append_of_some h, isSome_some, if_pos rfl]
  | none =>
    rw [Emission.append_of_none h, isSome_none]
    exact codeText_append _ _

/-! ## Calls -/

/-- Calls with bodies, one after the other. A call that fails does not end the sequence. -/
def callAll : List (List Node) → Machine → List (Except Signal String) × Machine
  | [], m => ([], m)
  | body :: rest, m =>
    let (r, m₁) := transpile false body m
    let (rs, m₂) := callAll rest m₁
    (r :: rs, m₂)

/-- The code of the calls that failed since the last one that returned. -/
def carried (done : List (List Node)) : String := String.join ((done.rtakeWhile fails).map codeOf)

section

variable {m : Machine} {body : List Node}

theorem transpile_of_some {f} (h : faultOf body = some f) : (transpile false body m).1 = .error (.failure f) ∧
      (transpile false body m).2.pending = m.pending ++ codeOf body := by
  unfold faultOf at h
  simp [transpile, h, codeOf]

theorem transpile_of_none (h : faultOf body = none) :
    (transpile false body m).1 = .ok (cutTail 1 (m.pending ++ codeOf body)) ∧ (transpile false body m).2.pending = "" := by
  unfold faultOf at h
  simp [transpile, h, codeOf]

theorem callAll_cons (rest : List (List Node)) : callAll (body :: rest) m =
      ((transpile false body m).1 :: (callAll rest (transpile false body m).2).1,
        (callAll rest (transpile false body m).2).2) := rfl

theorem callAll_append (xs ys : List (List Node)) (m : Machine) :
    callAll (xs ++ ys) m = ((callAll xs m).1 ++ (callAll ys (callAll xs m).2).1, (callAll ys (callAll xs m).2).2) := by
  induction xs generalizing m with
  | nil => rfl
  | cons body xs ih =>
    rw [cons_append, callAll_cons, ih, callAll_cons, cons_append]

theorem length_callAll (xs : List (List Node)) (m : Machine) : (callAll xs m).1.length = xs.length := by
  induction xs generalizing m with
  | nil => rfl
  | cons body xs ih =>
    rw [callAll_cons, length_cons, length_cons, ih]

/-- What is pending is what the failed calls have left. -/
theorem pending_callAll (hm : m.pending = "") (done : List (List Node)) :
    (callAll done m).2.pending = carried done := by
  -- from the last call backwards, as it is this call that decides whether anything earlier is still pending
  induction done using reverseRecOn with
  | nil => exact hm
  | append_singleton done body ih =>
    rw [callAll_append]
    show (transpile false body (callAll done m).2).2.pending = _
    cases hfault : faultOf body with
    | some f =>
      have hfails : fails body = true := by rw [fails, hfault, isSome_some]
      rw [(transpile_of_some hfault).2, ih, carried, carried, rtakeWhile_concat_pos _ _ _ hfails, map_append]
      simp
    | none =>
      have hreturns : ¬ fails body = true := by rw [fails, hfault]; exact Bool.false_ne_true
      rw [(transpile_of_none hfault).2, carried, rtakeWhile_concat_neg _ _ _ hreturns]
      rfl

/-- The result of a call in a sequence is up to what is pending then. -/
theorem callAll_getElem? (done later : List (List Node)) (body : List Node) (m : Machine) :
    (callAll (done ++ body :: later) m).1[done.length]? = some (transpile false body (callAll done m).2).1 := by
  rw [callAll_append, getElem?_append_right (by rw [length_callAll]), length_callAll, Nat.sub_self]
  rfl

theorem cutTail_one (s : String) : cutTail 1 s = String.ofList s.toList.dropLast := by
  rw [cutTail, dropLast_eq_take, String.length_toList]

/-- In every sequence of calls that starts with nothing pending, a call fails if a fault ends its body, and otherwise hands
out the code of the calls that failed since the last one that returned, followed by its own, without the last character.
So the first call, and one right behind a call that returned, hands out its own code alone. -/
theorem call_hands_out_since_last (m : Machine) (done later : List (List Node)) (body : List Node) :
    (∀ f, faultOf body = some f →
      (callAll (done ++ body :: later) { m with pending := "" }).1[done.length]? = some (.error (.failure f))) ∧
    (faultOf body = none → (callAll (done ++ body :: later) { m with pending := "" }).1[done.length]? =
        some (.ok (String.ofList (String.join ((done.rtakeWhile fails).map codeOf) ++ codeOf body).toList.dropLast))) ∧
    (faultOf body = none → (∀ last ∈ done.getLast?, faultOf last = none) →
      (callAll (done ++ body :: later) { m with pending := "" }).1[done.length]? =
        some (.ok (String.ofList (codeOf body).toList.dropLast))) ∧
    ∀ b₁ b₂, faultOf b₁ = none → codeOf (b₁ ++ b₂) = codeOf b₁ ++ codeOf b₂ := by
  have hpending := pending_callAll (m := { m with pending := "" }) rfl done
  have hreturns : faultOf body = none → (callAll (done ++ body :: later) { m with pending := "" }).1[done.length]? =
        some (.ok (.ofList (carried done ++ codeOf body).toList.dropLast)) := by
    intro hfault
    rw [callAll_getElem?, (transpile_of_none hfault).1, hpending, cutTail_one]
  refine ⟨fun f hfault => ?_, hreturns, fun hfault hlast => ?_, fun b₁ b₂ hfault => ?_⟩
  · rw [callAll_getElem?, (transpile_of_some hfault).1]
  · have hnone : done.rtakeWhile fails = [] := by
      rw [rtakeWhile_eq_nil_iff]
      intro hne
      rw [fails, hlast _ (getLast?_eq_some_getLast hne)]
      exact Bool.false_ne_true
    rw [hreturns hfault, carried, hnone, map_nil, String.join_nil, String.empty_append]
  · rw [codeOf_append, fails, hfault, isSome_none, if_neg Bool.false_ne_true]

end

end SmallScript.Transpile
