import SmallScript.Proofs.Library.Sorting
import SmallScript.Library.Call

/-!
# Native functions in step

Every native function outside the guarded modules, called with linked arguments from linked scopes, does
the same on both sides: `call_sim`. There is one lemma for each function or family of functions. From a
guarded scope, reading input and ending the process are problems that the program reports.
-/

namespace SmallScript.Library

open Machine List Array Bridge
open Value (ScopeRef ObjectRef Native)
open Number (Numeric NumberFault OrderOp extremum sumNums dateTimeOf)
open Syntax (Pos)

variable {ρ : Link} {α α' ι : Type}

variable {β : Base} {b : Bridge β} {args args' : List Value} {v v' : Value}

/-! ## Arguments -/

def PairLink (ρ : Link) (p p' : Value × Value) : Prop := ValueLink ρ p.1 p'.1 ∧ ValueLink ρ p.2 p'.2

def TripleLink (ρ : Link) (p p' : Value × Value × Value) : Prop :=
  ValueLink ρ p.1 p'.1 ∧ PairLink ρ p.2 p'.2

def ArrayLink (ρ : Link) (i j : Nat) : Prop := ρ .array i j

theorem first_sim (ha : ValuesLink b.link args args') (what : String) :
    Sim b ValueLink (first args what) (first args' what) := by
  cases ha with
  | nil => exact .problem _
  | cons h _ => exact .pure h

theorem firstTwo_sim (ha : ValuesLink b.link args args') (what : String) :
    Sim b PairLink (firstTwo args what) (firstTwo args' what) := by
  cases ha with
  | nil => exact .problem _
  | cons h hs =>
    cases hs with
    | nil => exact .problem _
    | cons h' _ => exact .pure ⟨h, h'⟩

theorem firstThree_sim (ha : ValuesLink b.link args args') (what : String) :
    Sim b TripleLink (firstThree args what) (firstThree args' what) := by
  cases ha with
  | nil => exact .problem _
  | cons h hs =>
    cases hs with
    | nil => exact .problem _
    | cons h' hs =>
      cases hs with
      | nil => exact .problem _
      | cons h'' _ => exact .pure ⟨h, h', h''⟩

theorem head_sim (ha : ValuesLink b.link args args') : Sim b ValueLink (head args) (head args') := by
  cases ha with
  | nil => exact .fail _ rfl
  | cons h _ => exact .pure h

theorem string_sim (hv : ValueLink b.link v v') (what : String) : Sim b Same (string what v) (string what v') := by
  cases hv with
  | str s => exact .pure rfl
  | _ => exact .problem _

theorem number_sim (hv : ValueLink b.link v v') (what : String) : Sim b Same (number what v) (number what v') := by
  cases hv with
  | num n _ => exact .pure rfl
  | _ => exact .problem _

theorem array_sim (hv : ValueLink b.link v v') (what : String) : Sim b ArrayLink (array what v) (array what v') := by
  cases hv with
  | array h => exact .pure h
  | _ => exact .problem _

theorem oneString_sim (ha : ValuesLink b.link args args') (missing what : String) :
    Sim b Same (oneString args missing what) (oneString args' missing what) :=
  (first_sim ha missing).bind fun _ _ _ _ hv => string_sim hv what

theorem twoStrings_sim (ha : ValuesLink b.link args args') (missing what what' : String) :
    Sim b Same (twoStrings args missing what what') (twoStrings args' missing what what') := by
  refine (firstTwo_sim ha missing).bind fun b1 _ p p' hp => (string_sim hp.1 what).bindSame fun b2 h2 s => ?_
  exact (string_sim (hp.2.mono h2.links) what').bindSame fun _ _ t => .pure rfl

theorem cannotWith_sim {R : Link → α → α' → Prop} (hv : ValueLink b.link v v')
    (action : String) : Sim b R (cannotWith action v) (cannotWith action v') := by
  exact (Sim.inspect hv).bindSame fun _ _ t => .problem _

theorem cannotWithAll_sim {R : Link → α → α' → Prop} (ha : ValuesLink b.link args args')
    (action : String) : Sim b R (cannotWithAll action args) (cannotWithAll action args') := by
  exact (Sim.inspectAll ha).bindSame fun _ _ t => .problem _

theorem ofNumber_sim {R : Link → α → α' → Prop} {x : Except NumberFault α} {x'} (h : OutcomeLink (R b.link) x x') :
    Sim b R (Action.ofNumber x) (Action.ofNumber x') := by
  cases h with
  | ok h => exact .pure h
  | error e => exact .fail _ rfl

theorem int_link (b : Bridge β) (n : Int) : ValueLink b.link (.int n) (.int n) := .num _ b.stamp_zero

theorem nat_link (b : Bridge β) (n : Nat) : ValueLink b.link (.nat n) (.nat n) := int_link b n

/-- Values that are linked with themselves, made from a list. -/
theorem valuesLink_map (xs : List ι) {f} (hf : ∀ x, ValueLink ρ (f x) (f x)) : ValuesLink ρ (xs.map f) (xs.map f) := by
  induction xs with
  | nil => exact .nil
  | cons x xs ih => exact .cons (hf x) ih

theorem isEmpty_eq_of_forall₂ {ι' : Type} {Q} {xs : List ι} {ys : List ι'}
    (h : List.Forall₂ Q xs ys) : xs.isEmpty = ys.isEmpty := by
  cases h <;> rfl

theorem rangeArray_sim (b : Bridge β) (start stop step : Int) :
    Sim b ValueLink (Action.array ((rangeInts start stop step).map .int))
      (Action.array ((rangeInts start stop step).map .int)) :=
  .array (valuesLink_map _ (int_link b))

/-- From a guarded scope no input is read, and the process is not ended. -/
theorem input_sim (args args' : List Value) {s s'} (hs : b.link .scope s s') :
    Sim b ValueLink (input args s) (input args' s') ∧ Sim b ValueLink (exit args s) (exit args' s') := by
  constructor <;> refine .heap ?_ <;>
    simp only [isGuarded_left hs, isGuarded_right hs] <;> exact .problem_bind _ _ _

theorem notConvertible_sim (hv : ValueLink b.link v v') (kind : String) :
    Sim b ValueLink (do Action.problem (.notConvertible (← Action.inspect v) kind))
      (do Action.problem (.notConvertible (← Action.inspect v') kind)) := by
  exact (Sim.inspect hv).bindSame fun _ _ t => .problem _

theorem intOf_sim (r : Except NumberFault Int) :
    Sim b ValueLink (do return .int (← Action.ofNumber r)) (do return .int (← Action.ofNumber r)) := by
  exact Sim.ofNumber.bindSame fun b1 _ n => .pure (int_link b1 n)

theorem time_sim (b : Bridge β) : Sim b ValueLink time time := by
  refine .world ?_
  rw [b.surroundings.clock]
  exact .number _

theorem request_sim (b : Bridge β) (method url : String) (body : Option String) :
    Sim b ValueLink (request method url body) (request method url body) := by
  refine .world ?_
  refine (Sim.affect ⟨"", [⟨method, url, body, none⟩], []⟩ (by simp [Effects.on])
    (by simp [Effects.on])).bind fun b1 _ _ _ _ => ?_
  rw [b.surroundings.routes]
  split
  · exact .problem _
  · split
    · exact .problem _
    · exact .object (.cons ⟨rfl, .str _⟩ (.cons ⟨rfl, nat_link b1 _⟩ .nil))

theorem getLast?_rel {ι' : Type} {Q} {xs : List ι} {ys : List ι'}
    (h : List.Forall₂ Q xs ys) : Option.Rel Q xs.getLast? ys.getLast? := by
  rw [getLast?_eq_getElem?, getLast?_eq_getElem?, h.length_eq]
  exact rel_getElem? h _

theorem random_sim (b : Bridge β) : Sim b ValueLink random random := by
  refine .world ?_
  rw [b.surroundings.random]
  exact .number _

theorem numberElements?_sim (hv : ValueLink b.link v v') :
    Sim b (fun ρ => Option.Rel (KeyedsLink ρ)) (numberElements? v) (numberElements? v') := by
  cases hv with
  | array h => exact .heap (.pure (keyed_rel (elements_link h)))
  | _ => exact .pure .none

mutual

theorem ofJson_sim (b : Bridge β) : (doc : Json) →
    Sim b ValueLink (Action.onHeap (ofJson · doc)) (Action.onHeap (ofJson · doc))
  | .null => .pure .null
  | .bool _ => .pure (.num _ b.stamp_zero)
  | .num _ => .pure (.num _ b.stamp_zero)
  | .str s => .pure (.str s)
  | .arr items => (ofJsonItems_sim b items).bind fun _ _ _ _ hv => .array hv
  | .obj fields => (ofJsonFields_sim b fields).bind fun _ _ _ _ hv => .object hv

theorem ofJsonItems_sim (b : Bridge β) : (docs : List Json) →
    Sim b ValuesLink (Action.onHeap (ofJsonItems · docs)) (Action.onHeap (ofJsonItems · docs))
  | [] => .pure .nil
  | x :: xs => (ofJson_sim b x).bind fun b1 _ _ _ hv => (ofJsonItems_sim b1 xs).bind
      fun _ h2 _ _ hs => .pure (.cons (hv.mono h2.links) hs)

theorem ofJsonFields_sim (b : Bridge β) : (docs : List (String × Json)) →
    Sim b EntriesLink (Action.onHeap (ofJsonFields · docs)) (Action.onHeap (ofJsonFields · docs))
  | [] => .pure .nil
  | (k, x) :: xs => by
    show Sim b EntriesLink
      (do let v ← Action.onHeap (ofJson · x); let vs ← Action.onHeap (ofJsonFields · xs); return (k, v) :: vs)
      (do let v ← Action.onHeap (ofJson · x); let vs ← Action.onHeap (ofJsonFields · xs); return (k, v) :: vs)
    refine (ofJson_sim b x).bind fun b1 _ v v' hv => (ofJsonFields_sim b1 xs).bind fun b2 h2 _ _ hs => ?_
    exact .pure (.cons ⟨rfl, hv.mono h2.links⟩ hs)

end

mutual

theorem toJson?_eq {s t : Snapshot} : SnapshotLink ρ s t → toJson? s = toJson? t
  | .array h => by simp only [toJson?, toJsonItems?_eq h]
  | .object h _ => by simp only [toJson?, toJsonFields?_eq h]
  | .num n _ => by cases n <;> simp only [toJson?]
  | .func .. | .cls .. | .enum .. => by simp only [toJson?]
  | .null | .bool _ | .str _ | .native _ | .bare | .cycle => rfl

theorem toJsonItems?_eq {xs ys : List Snapshot} : ItemsLink ρ xs ys → toJsonItems? xs = toJsonItems? ys
  | .nil => rfl
  | .cons h hs => by simp only [toJsonItems?, toJson?_eq h, toJsonItems?_eq hs]

theorem toJsonFields?_eq {xs ys : List (String × Snapshot)} : MembersLink ρ xs ys → toJsonFields? xs = toJsonFields? ys
  | .nil => rfl
  | .cons _ h hs => by simp only [toJsonFields?, toJson?_eq h, toJsonFields?_eq hs]

end

/-! ## Functions of every program -/

section Linked

variable (ha : ValuesLink b.link args args')

include ha

theorem print_sim : Sim b ValueLink (print args) (print args') := by
  refine (Sim.mapM (fun _ _ _ h => h) ha fun b' hb w w' hw =>
    .display (hw.mono hb.links)).bind fun b1 _ ts ts' hts => ?_
  have ht : ts = ts' := forall₂_eq_eq_eq ▸ hts
  cases ht
  exact (Sim.printLine _).bind fun _ _ _ _ _ => .pure .null

theorem range_sim : Sim b ValueLink (range args) (range args') := by
  unfold range numbers?
  rw [ha.mapM_num?]
  split
  · exact Sim.ofNumber.bindSame fun b1 _ x => rangeArray_sim b1 0 x 1
  · exact Sim.ofNumber.bindSame fun _ _ x => Sim.ofNumber.bindSame fun b2 _ y => rangeArray_sim b2 x y 1
  · refine Sim.ofNumber.bindSame fun _ _ x => Sim.ofNumber.bindSame fun _ _ y =>
      Sim.ofNumber.bindSame fun b3 _ z => ?_
    split
    · exact .fail _ rfl
    · exact rangeArray_sim b3 x y z
  · exact cannotWithAll_sim ha _

theorem len_sim : Sim b ValueLink (len args) (len args') := by
  refine (head_sim ha).bind fun b1 _ w w' hw => ?_
  cases hw with
  | str s => exact .pure (nat_link b1 _)
  | array h =>
    refine .heap ?_
    rw [← length_toList, (elements_link h).length_eq]
    exact .pure (nat_link b1 _)
  | object h =>
    refine .heap ?_
    rw [(fields_link h).size_eq]
    exact .pure (nat_link b1 _)
  | _ => exact cannotWith_sim (by constructor <;> assumption) _

theorem str_sim : Sim b ValueLink (str args) (str args') := by
  cases ha with
  | nil => exact .pure (.str _)
  | cons h _ =>
    exact (Sim.display h).bindSame fun _ _ t => .pure (.str t)

theorem int_sim : Sim b ValueLink (int args) (int args') := by
  cases ha with
  | nil => exact .pure (int_link b 0)
  | cons h _ =>
    cases h with
    | str s | num n => exact intOf_sim _
    | _ => exact notConvertible_sim (by constructor <;> assumption) _

theorem bool_sim : Sim b ValueLink (bool args) (bool args') := by
  cases ha with
  | nil => exact .pure (.bool _)
  | cons h _ =>
    cases h with
    | str s | num n | bool x => exact .pure (.bool _)
    | array h =>
      refine .heap ?_
      rw [← isEmpty_toList, ← isEmpty_toList, isEmpty_eq_of_forall₂ (elements_link h)]
      exact .pure (.bool _)
    | object h =>
      refine .heap ?_
      rw [(fields_link h).size_eq]
      exact .pure (.bool _)
    | _ => exact notConvertible_sim (by constructor <;> assumption) _

theorem toArray_sim : Sim b ValueLink (toArray args) (toArray args') := by
  cases ha with
  | nil => exact .array .nil
  | cons h hs =>
    cases hs with
    | cons h' hs => cases h <;> exact .array (.cons (by constructor <;> assumption) (.cons h' hs))
    | nil =>
      cases h with
      | str s => exact .array (valuesLink_map _ fun _ => .str _)
      | object h => exact .heap (.array (fields_link h).values)
      | array h => exact .pure (.array h)
      | _ => exact .array (.cons (by constructor <;> assumption) .nil)

theorem type_sim : Sim b ValueLink (type args) (type args') := by
  refine (head_sim ha).bind fun _ _ w w' hw => ?_
  rw [hw.kind_eq]
  exact .pure (.str _)

/-! ## Time and network -/

theorem sleep_sim : Sim b ValueLink (sleep args) (sleep args') := by
  refine (first_sim ha _).bind fun b1 _ w w' hw => (number_sim hw _).bindSame fun b2 _ n => ?_
  exact (Sim.affect ⟨"", [], [n]⟩ (by simp [Effects.on]) (by simp [Effects.on])).bind fun _ _ _ _ _ => .pure .null

theorem formatTime_sim : Sim b ValueLink (formatTime args) (formatTime args') := by
  refine (first_sim ha _).bind fun b1 _ w w' hw => (number_sim hw _).bindSame fun b2 _ n => ?_
  cases dateTimeOf n with
  | ok d => exact .pure (.str _)
  | error f => exact .fail _ rfl

theorem log_sim (level : String) (pos : Pos) : Sim b ValueLink (log level args pos) (log level args' pos) := by
  refine (oneString_sim ha _ _).bindSame fun b1 _ t => .world ?_
  rw [b1.surroundings.clock]
  exact (Sim.printLine _).bind fun _ _ _ _ _ => .pure .null

theorem fetch_sim (method : String) : Sim b ValueLink (fetch method args) (fetch method args') := by
  exact (oneString_sim ha _ _).bindSame fun b1 _ t => request_sim b1 _ _ _

theorem submit_sim (method : String) : Sim b ValueLink (submit method args) (submit method args') := by
  exact (twoStrings_sim ha _ _ _).bindSame fun b1 _ t => request_sim b1 _ _ _

theorem ofString_sim (missing what : String) (f : String → String) :
    Sim b ValueLink (do return .str (f (← oneString args missing what)))
      (do return .str (f (← oneString args' missing what))) := by
  exact (oneString_sim ha _ _).bindSame fun _ _ t => .pure (.str _)

/-! ## Strings -/

theorem splitString_sim : Sim b ValueLink (splitString args) (splitString args') := by
  refine (twoStrings_sim ha _ _ _).bindSame fun b1 _ t => ?_
  show Sim b1 ValueLink (if t.2.isEmpty then _ else _) (if t.2.isEmpty then _ else _)
  split
  · exact .fail _ rfl
  · exact .array (valuesLink_map _ fun _ => .str _)

theorem joinStrings_sim : Sim b ValueLink (joinStrings args) (joinStrings args') := by
  refine (firstTwo_sim ha _).bind fun b1 _ p p' hp => ?_
  refine (array_sim hp.1 _).bind fun b2 h2 r r' hr => ?_
  refine (string_sim (hp.2.mono h2.links) _).bindSame fun b3 h3 t => .heap ?_
  rw [(elements_link (h3.link hr)).mapM_str?]
  split
  · exact .pure (.str _)
  · exact .problem _

theorem replaceString_sim : Sim b ValueLink (replaceString args) (replaceString args') := by
  refine (firstThree_sim ha _).bind fun b1 _ p p' hp => ?_
  refine (string_sim hp.1 _).bindSame fun b2 h2 s => ?_
  refine (string_sim (hp.2.1.mono h2.links) _).bindSame fun b3 h3 t => ?_
  exact (string_sim (hp.2.2.mono (h2.trans h3).links) _).bindSame fun _ _ u => .pure (.str _)

theorem stringContains_sim : Sim b ValueLink (stringContains args) (stringContains args') := by
  exact (twoStrings_sim ha _ _ _).bindSame fun b1 _ t => .pure (.bool _)

/-! ## Arrays -/

theorem push_sim : Sim b ValueLink (push args) (push args') := by
  refine (firstTwo_sim ha _).bind fun b1 _ p p' hp => ?_
  refine (array_sim hp.1 _).bind fun b2 h2 r r' hr => ?_
  refine (Sim.modifyArray hr fun a a' h => ?_).bind fun _ _ _ _ _ => .pure .null
  rw [toList_push, toList_push]
  exact rel_append h (.cons (hp.2.mono h2.links) .nil)

theorem unshift_sim : Sim b ValueLink (unshift args) (unshift args') := by
  refine (firstTwo_sim ha _).bind fun b1 _ p p' hp => ?_
  refine (array_sim hp.1 _).bind fun b2 h2 r r' hr => .heap ?_
  exact (Sim.setElements hr (.cons (hp.2.mono h2.links) (elements_link hr))).bind fun _ _ _ _ _ => .pure .null

theorem pop_sim : Sim b ValueLink (pop args) (pop args') := by
  refine (first_sim ha _).bind fun b1 _ w w' hw => (array_sim hw _).bind fun b2 _ r r' hr => .heap ?_
  have h := elements_link hr
  have hb := getLast?_rel h
  have hp : ValuesLink b2.link (b2.left.heap.elements r).pop.toList (b2.right.heap.elements r').pop.toList := by
    rw [toList_pop, toList_pop, dropLast_eq_take, dropLast_eq_take, h.length_eq]
    exact forall₂_take _ h
  rw [getLast?_toList, getLast?_toList] at hb
  dsimp only
  revert hb
  generalize (b2.left.heap.elements r).back? = o
  generalize (b2.right.heap.elements r').back? = o'
  intro hb
  cases hb with
  | none => exact .fail _ rfl
  | some hx =>
    exact (Sim.setElements hr hp).bind fun _ h3 _ _ _ => .pure (hx.mono h3.links)

theorem shift_sim : Sim b ValueLink (shift args) (shift args') := by
  refine (first_sim ha _).bind fun b1 _ w w' hw => (array_sim hw _).bind fun b2 _ r r' hr => .heap ?_
  have h := elements_link hr
  revert h
  generalize (b2.left.heap.elements r).toList = es
  generalize (b2.right.heap.elements r').toList = es'
  intro h
  cases h with
  | nil => exact .fail _ rfl
  | cons hx hs =>
    exact (Sim.setElements hr hs).bind fun _ h3 _ _ _ => .pure (hx.mono h3.links)

theorem sort_sim : Sim b ValueLink (sort args) (sort args') := by
  refine (first_sim ha _).bind fun b1 _ w w' hw => (array_sim hw _).bind fun b2 _ r r' hr => .heap ?_
  have h := keyed_rel (elements_link hr)
  revert h
  generalize ((b2.left.heap.elements r).toList.mapM fun e => e.num?.map (·, e)) = o
  generalize ((b2.right.heap.elements r').toList.mapM fun e => e.num?.map (·, e)) = o'
  intro h
  cases h with
  | none => exact .problem _
  | some hk =>
    refine (ofNumber_sim (sortKeyed_link hk)).bind fun b3 h3 xs xs' hx => ?_
    exact (Sim.setElements (h3.link hr) hx.values).bind fun _ _ _ _ _ => .pure .null

/-! ## Numbers -/

theorem sqrt_sim : Sim b ValueLink (sqrt args) (sqrt args') := by
  exact (first_sim ha _).bind fun b1 _ w w' hw => (number_sim hw _).bindSame fun b2 _ n => .numberOf _

theorem round_sim : Sim b ValueLink (round args) (round args') := by
  cases ha with
  | nil => exact .pure (int_link b 0)
  | cons h hs =>
    cases hs with
    | nil =>
      cases h with
      | num n _ => exact .numberOf _
      | _ => exact cannotWith_sim (by constructor <;> assumption) _
    | cons h' hs =>
      cases hs with
      | cons =>
        cases h with
        | num n hn => cases h' <;> exact cannotWith_sim (.num n hn) _
        | _ => exact cannotWith_sim (by constructor <;> assumption) _
      | nil =>
        cases h with
        | num n hn =>
          cases h' with
          | num places _ =>
            exact Sim.ofNumber.bindSame fun _ _ i => .numberOf _
          | _ => exact cannotWith_sim (.num n hn) _
        | _ => exact cannotWith_sim (by constructor <;> assumption) _

theorem sum_sim : Sim b ValueLink (sum args) (sum args') := by
  cases ha with
  | nil => exact .pure (int_link b 0)
  | cons h _ =>
    refine (numberElements?_sim h).bind fun b1 h1 o o' ho => ?_
    cases ho with
    | none => exact cannotWith_sim (h.mono h1.links) _
    | some hk =>
      show Sim b1 ValueLink (.numberOf _) (.numberOf _)
      rw [hk.numbers_eq]
      exact .numberOf _

theorem extreme_sim (which : String) (op : OrderOp) :
    Sim b ValueLink (extreme which op args) (extreme which op args') := by
  cases ha with
  | nil => exact .pure (int_link b 0)
  | cons h _ =>
    refine (numberElements?_sim h).bind fun b1 h1 o o' ho => ?_
    cases ho with
    | none => exact cannotWith_sim (h.mono h1.links) _
    | some hk => exact (ofNumber_sim (extremum_link which op hk)).bind fun _ _ x x' hx => .pure hx.2

theorem abs_sim : Sim b ValueLink (abs args) (abs args') := by
  cases ha with
  | nil => exact .pure (int_link b 0)
  | cons h _ =>
    cases h with
    | num n _ => exact .number _
    | _ => exact cannotWith_sim (by constructor <;> assumption) _

theorem binaryMath_sim (name missing : String) (f : Numeric → Numeric → Except NumberFault Numeric) :
    Sim b ValueLink (binaryMath name missing f args) (binaryMath name missing f args') := by
  refine (firstTwo_sim ha _).bind fun b1 h1 _ _ _ => ?_
  unfold numbers?
  rw [ha.mapM_num?]
  split
  · exact .numberOf _
  · exact cannotWithAll_sim (ha.mono h1.links) _

theorem unaryMath_sim (name : String) (f : Numeric → Except NumberFault Numeric) :
    Sim b ValueLink (unaryMath name f args) (unaryMath name f args') := by
  refine (first_sim ha _).bind fun b1 _ w w' hw => ?_
  cases hw with
  | num n _ => exact .numberOf _
  | _ => exact cannotWith_sim (by constructor <;> assumption) _

/-! ## Documents -/

theorem jsonParse_sim : Sim b ValueLink (jsonParse args) (jsonParse args') := by
  refine (oneString_sim ha _ _).bindSame fun b1 _ t => ?_
  split
  · exact .problem _
  · refine (ofJson_sim b1 _).bind fun b2 _ w w' hw => .heap ?_
    rw [Snapshot.datum_eq (snapshot_link hw)]
    split
    · exact (Sim.printLine _).bind fun _ h3 _ _ _ => .pure (hw.mono h3.links)
    · exact .problem _

theorem jsonStringify_sim : Sim b ValueLink (jsonStringify args) (jsonStringify args') := by
  refine (first_sim ha _).bind fun b1 _ w w' hw => .heap ?_
  rw [toJson?_eq (snapshot_link hw)]
  split
  · exact .problem _
  · split
    · exact .pure (.str _)
    · exact .problem _

end Linked

/-! ## All of them -/

/-- A native function outside the guarded modules does the same on both sides. -/
theorem call_sim {f} (hf : f ∉ guardedNatives) (ha : ValuesLink b.link args args')
    {s s'} (hs : b.link .scope s s') (pos : Pos) :
    Sim b ValueLink (call f args s pos) (call f args' s' pos) := by
  cases f with
  | print => exact print_sim ha
  | range => exact range_sim ha
  | input => exact (input_sim args args' hs).1
  | len => exact len_sim ha
  | exit => exact (input_sim args args' hs).2
  | str => exact str_sim ha
  | int => exact int_sim ha
  | bool => exact bool_sim ha
  | array => exact toArray_sim ha
  | type => exact type_sim ha
  | time => exact time_sim b
  | sleep => exact sleep_sim ha
  | formatTime => exact formatTime_sim ha
  | getTimezoneOffset => exact .pure (int_link b 0)
  | getRequest | deleteRequest => exact fetch_sim ha _
  | postRequest | putRequest => exact submit_sim ha _
  | urlEncode | urlDecode | sha1 | sha256 | md5 => exact ofString_sim ha _ _ _
  | sqrt => exact sqrt_sim ha
  | random => exact random_sim b
  | round => exact round_sim ha
  | sum => exact sum_sim ha
  | min | max => exact extreme_sim ha _ _
  | abs => exact abs_sim ha
  | pow | log => exact binaryMath_sim ha _ _ _
  | log10 | sin | cos | tan | asin | acos | atan | floor | ceil | factorial => exact unaryMath_sim ha _ _
  | splitString => exact splitString_sim ha
  | joinStrings => exact joinStrings_sim ha
  | replaceString => exact replaceString_sim ha
  | stringContains => exact stringContains_sim ha
  | push => exact push_sim ha
  | pop => exact pop_sim ha
  | shift => exact shift_sim ha
  | unshift => exact unshift_sim ha
  | sort => exact sort_sim ha
  | jsonParse => exact jsonParse_sim ha
  | jsonStringify => exact jsonStringify_sim ha
  | debugLog | infoLog | warnLog | errorLog => exact log_sim ha _ pos
  | readFile | writeFile | appendFile | fileExists | deleteFile | copyFile | moveFile | listFiles
    | fileSize | getCwd | changeDir | getEnv | exec => exact absurd (by decide) hf

end SmallScript.Library
