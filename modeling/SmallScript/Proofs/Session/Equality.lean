import SmallScript.Proofs.Session.Runs
import SmallScript.Proofs.Inspect.Layout
import SmallScript.Proofs.Number.Whole
import Mathlib.Data.List.Perm.Subperm

/-!
# Equality

The operator `==` compares snapshots of its operands, and `!=` is its negation: `binary_equal`. Two snapshots are equal
if they are of one kind and all their parts are the same, where the order of fields does not matter; numbers, truth
values, strings and null are compared across kinds too.

This is a partial equivalence as long as no table has a name twice, which is so of every heap that programs make: parts
are found by their names, so the fields of one object are among those of an equal one, and there are as many of them.
What is not a class or an enumeration is equal to itself, unless a number in it is NaN. `equality_laws` says so of the
operators.
-/

namespace SmallScript

open Number Inspect List Numeric

namespace Number

/-- A part of the number is no number. -/
def Numeric.hasNaN : Numeric → Bool
  | .float x => x.isNaN
  | .complex re im => re.isNaN || im.isNaN
  | _ => false

theorem isNaN_eq (x : Float) : x.isNaN = (Extended.ofFloat? x).isNone := by
  show x.toModel.unpack.isNaN = _
  rw [Extended.ofFloat?]
  cases x.toModel.unpack <;> rfl

theorem Numeric.eq_self {n : Numeric} (h : n.hasNaN = false) : n.eq n = true := by
  rw [eq_iff]
  cases n <;>
    (simp only [hasNaN, isNaN_eq, Bool.or_eq_false_iff] at h; simp_all [parts, Number.Real.value?, Option.isSome_iff_exists])

theorem Numeric.isNaN_of_eq {a b : Numeric} (h : a.eq b = true) : b.isNaN = false := by
  obtain ⟨⟨v, -, hv⟩, -⟩ := eq_iff.1 h
  cases b <;> simp only [isNaN, isNaN_eq]
  simp_all [parts, Number.Real.value?]

end Number

namespace Syntax

/-! ## Trees -/

theorem Node.same_symm : (∀ n n' : Node, n.same n' = true → n'.same n = true) ∧
    ∀ ns ns' : List Node, sameList ns ns' = true → sameList ns' ns = true := by
  apply Node.same.mutual_induct <;> intros <;>
    simp_all only [Node.same, sameList, Bool.and_eq_true, beq_iff_eq, Numeric.eq_comm, Bool.false_eq_true, and_self]

theorem Node.same_trans : (∀ n n' : Node, n.same n' = true → ∀ m : Node, n'.same m = true → n.same m = true) ∧
    ∀ ns ns' : List Node, sameList ns ns' = true → ∀ ms, sameList ns' ms = true → sameList ns ms = true := by
  apply Node.same.mutual_induct <;> intros <;> rename_i m hm <;> cases m <;> first
    -- trees of different kinds are not the same
    | exact Bool.noConfusion hm
    | simp only [Node.same, sameList, Bool.false_eq_true, Bool.and_eq_true, beq_iff_eq] at * <;> grind [eq_trans]

theorem Node.sameList_refl {ns : List Node} (h : ∀ x ∈ numbersOf (nodeData ns), x.eq x = true) : sameList ns ns = true := by
  induction ns using @Node.rec_1 (fun n => (∀ x ∈ (nodeDatum n).numbers, x.eq x = true) → n.same n = true) with
  | nil => rfl
  | cons n ns ihn ihns =>
    rw [nodeData, numbersOf, forall_mem_append] at h
    rw [sameList, ihn h.1, ihns h.2, Bool.and_self]
  | _ => simp_all [Node.same, nodeDatum, Datum.numbers, fieldNumbers, numbersOf, posDatum]

end Syntax

namespace Machine

open Syntax (Node)
open Data (Table)

namespace Snapshot

/-! ## What a snapshot is made of -/

def names : Snapshot → List String
  | .object parts _ | .cls _ parts _ | .enum _ parts => parts.map (·.1)
  | _ => []

def parts : Snapshot → List Snapshot
  | .array items => items
  | .object parts _ | .cls _ parts _ | .enum _ parts => parts.map (·.2)
  | _ => []

/-- The numbers of a snapshot beside those of its parts: for a function, the ones of its body. -/
def numbers : Snapshot → List Numeric
  | .num n _ => [n]
  | .func _ _ _ body => numbersOf (nodeData body)
  | _ => []

/-- The property holds of a snapshot and of all that is in it. -/
inductive Throughout (P : Snapshot → Prop) : Snapshot → Prop where
  | intro {s : Snapshot} (here : P s) (inside : ∀ x ∈ s.parts, Throughout P x) : Throughout P s

theorem Throughout.leaf {P : Snapshot → Prop} {s : Snapshot} (here : P s) (hp : s.parts = []) : Throughout P s :=
  ⟨here, hp ▸ forall_mem_nil _⟩

/-- No number in the snapshot has a part that is no number. -/
def NaNFree : Snapshot → Prop := Throughout fun s => ∀ x ∈ s.numbers, x.hasNaN = false

/-- The parts of objects, classes and enumerations have names of their own. -/
def Keyed : Snapshot → Prop := Throughout fun s => s.names.Nodup

variable {s t u : Snapshot} {xs ys zs : List Snapshot} {es fs gs : List (String × Snapshot)} {name : String}

theorem sameItems_symm (hsymm : ∀ x ∈ xs, ∀ y ∈ ys, x.same y = true → y.same x = true) (h : sameItems xs ys = true) :
    sameItems ys xs = true := by
  induction xs generalizing ys with
  | nil => cases ys <;> simp_all [sameItems]
  | cons x xs ih => cases ys <;> simp_all [sameItems]

theorem sameItems_trans (htrans : ∀ x ∈ xs, ∀ y u : Snapshot, x.same y = true → y.same u = true → x.same u = true)
    (h : sameItems xs ys = true) (h' : sameItems ys zs = true) : sameItems xs zs = true := by
  induction xs generalizing ys zs with
  | nil => cases ys <;> cases zs <;> simp_all [sameItems]
  | cons x xs ih =>
    cases ys <;> cases zs <;> simp only [sameItems, Bool.and_eq_true, Bool.false_eq_true] at h h' ⊢
    rw [forall_mem_cons] at htrans
    exact ⟨htrans.1 _ _ h.1 h'.1, ih htrans.2 h.2 h'.2⟩

theorem sameItems_refl (hrefl : ∀ x ∈ xs, x.same x = true) : sameItems xs xs = true := by
  induction xs with
  | nil => rfl
  | cons x xs ih => simp_all [sameItems]

theorem sameFields_iff : sameFields es fs = true ↔ ∀ e ∈ es, ∃ y, fs.lookup e.1 = some y ∧ e.2.same y = true := by
  induction es with
  | nil => simp [sameFields]
  | cons e es ih =>
    rw [sameFields, Bool.and_eq_true, ih, forall_mem_cons]
    cases fs.lookup e.1 <;> simp

theorem sameFields_symm (hes : (es.map (·.1)).Nodup) (hfs : (fs.map (·.1)).Nodup) (hlen : es.length = fs.length)
    (hsymm : ∀ x ∈ es.map (·.2), ∀ y ∈ fs.map (·.2), x.same y = true → y.same x = true) (h : sameFields es fs = true) :
    sameFields fs es = true := by
  rw [sameFields_iff] at h ⊢
  have hsub : es.map (·.1) ⊆ fs.map (·.1) := fun x hx => by
    obtain ⟨e, he, rfl⟩ := List.mem_map.1 hx
    obtain ⟨y, hy, -⟩ := h e he
    exact List.mem_map.2 ⟨_, Table.mem_of_lookup hy, rfl⟩
  have hperm : (es.map (·.1)).Perm (fs.map (·.1)) :=
    (subperm_of_subset hes hsub).perm_of_length_le (by simp [hlen])
  intro f hf
  obtain ⟨e, he, hname⟩ := List.mem_map.1 (hperm.mem_iff.2 (mem_map_of_mem hf))
  obtain ⟨y, hy, hsame⟩ := h e he
  rw [hname, Table.lookup_of_mem hfs hf] at hy
  cases hy
  exact ⟨e.2, hname ▸ Table.lookup_of_mem hes he, hsymm _ (mem_map_of_mem he) _ (mem_map_of_mem hf) hsame⟩

theorem sameFields_trans (htrans : ∀ x ∈ es.map (·.2), ∀ y u : Snapshot, x.same y = true → y.same u = true → x.same u = true)
    (h : sameFields es fs = true) (h' : sameFields fs gs = true) : sameFields es gs = true := by
  rw [sameFields_iff] at h h' ⊢
  intro e he
  obtain ⟨y, hy, hsame⟩ := h e he
  obtain ⟨u, hu, hsame'⟩ := h' _ (Table.mem_of_lookup hy)
  exact ⟨u, hu, htrans _ (mem_map_of_mem he) y u hsame hsame'⟩

theorem sameFields_refl (hn : (es.map (·.1)).Nodup) (hrefl : ∀ x ∈ es.map (·.2), x.same x = true) : sameFields es es = true :=
  sameFields_iff.2 fun _ he => ⟨_, Table.lookup_of_mem hn he, hrefl _ (mem_map_of_mem he)⟩

theorem sameNumber_trans {a b c : Numeric} {i j k : Nat} (h : sameNumber a i b j = true) (h' : sameNumber b j c k = true) :
    sameNumber a i c k = true := by
  simp only [sameNumber, Bool.or_eq_true, Bool.and_eq_true, beq_iff_eq] at *
  rcases h with h | ⟨⟨ha, hb⟩, rfl⟩
  · rcases h' with h' | ⟨⟨hb, -⟩, -⟩
    · exact .inl (eq_trans h h')
    · exact absurd hb (by simp [isNaN_of_eq h])
  · rcases h' with h' | ⟨⟨-, hc⟩, rfl⟩
    · exact absurd hb (by simp [isNaN_of_eq (Numeric.eq_comm b c ▸ h')])
    · exact .inr ⟨⟨ha, hc⟩, rfl⟩

theorem Keyed.same_symm (hs : s.Keyed) (ht : t.Keyed) (h : s.same t = true) : t.same s = true := by
  induction hs generalizing t with
  | @intro s hn _ ih =>
    obtain ⟨hn', inside⟩ := ht
    have hparts : ∀ x ∈ s.parts, ∀ y ∈ t.parts, x.same y = true → y.same x = true :=
      fun x hx y hy => ih x hx (inside y hy)
    cases s <;> cases t <;> first
      -- snapshots of different kinds are not the same
      | exact Bool.noConfusion h
      | simp only [same, sameNumber, Bool.and_eq_true, Bool.or_eq_true, beq_iff_eq] at h ⊢
    case array.array => exact sameItems_symm hparts h
    case object.object => exact ⟨⟨h.1.1.symm, sameFields_symm hn hn' h.1.1 hparts h.1.2⟩, h.2.symm⟩
    case func.func => exact ⟨⟨⟨h.1.1.1.symm, h.1.1.2.symm⟩, h.1.2.symm⟩, Node.same_symm.2 _ _ h.2⟩
    case cls.cls => exact ⟨⟨⟨h.1.1.1.symm, h.1.1.2.symm⟩, sameFields_symm hn hn' h.1.1.2 hparts h.1.2⟩, h.2.symm⟩
    case enum.enum => exact ⟨⟨h.1.1.symm, h.1.2.symm⟩, sameFields_symm hn hn' h.1.2 hparts h.2⟩
    all_goals grind [Numeric.eq_comm]

theorem Keyed.same_trans (hs : s.Keyed) (h : s.same t = true) (h' : t.same u = true) : s.same u = true := by
  induction hs generalizing t u with
  | @intro s hn _ ih =>
    have hparts : ∀ x ∈ s.parts, ∀ y z : Snapshot, x.same y = true → y.same z = true → x.same z = true :=
      fun x hx _ _ => ih x hx
    cases s <;> cases t <;> first
      | exact Bool.noConfusion h
      | cases u <;> first
        | exact Bool.noConfusion h'
        | simp only [same, Bool.and_eq_true, beq_iff_eq] at h h' ⊢
    case num.num.num => exact sameNumber_trans h h'
    case array.array.array => exact sameItems_trans hparts h h'
    case object.object.object => grind [sameFields_trans hparts h.1.2 h'.1.2]
    case func.func.func => grind [Node.same_trans.2 _ _ h.2 _ h'.2]
    case cls.cls.cls => grind [sameFields_trans hparts h.1.2 h'.1.2]
    case enum.enum.enum => grind [sameFields_trans hparts h.2 h'.2]
    all_goals grind

theorem Keyed.same_refl (hs : s.Keyed) (hnumbers : s.NaNFree) : s.same s = true := by
  induction hs with
  | @intro s hn _ ih =>
    obtain ⟨here, inside⟩ := hnumbers
    have hparts : ∀ x ∈ s.parts, x.same x = true := fun x hx => ih x hx (inside x hx)
    cases s <;> simp only [same, sameNumber, Bool.and_eq_true, Bool.or_eq_true, beq_iff_eq, and_true, true_and]
    case num => exact .inl (Numeric.eq_self (here _ (List.mem_singleton.2 rfl)))
    case array => exact sameItems_refl hparts
    case object => exact sameFields_refl hn hparts
    case func => exact Node.sameList_refl fun x hx => Numeric.eq_self (here x hx)
    case cls => exact sameFields_refl hn hparts
    case enum => exact sameFields_refl hn hparts

theorem bool_beq (b c : Bool) : (b == c) = Numeric.eq (.bool b) (.bool c) := by
  cases b <;> cases c <;> rfl

theorem Keyed.equal_symm (hs : s.Keyed) (ht : t.Keyed) (h : s.equal t = true) : t.equal s = true := by
  have hsame := hs.same_symm ht
  obtain ⟨hn, inside⟩ := hs
  obtain ⟨hn', inside'⟩ := ht
  cases s <;> cases t <;> first
    | exact Bool.noConfusion h
    | exact hsame h
    | simp only [equal, scalarsEqual, Option.getD_some, Bool.and_eq_true, beq_iff_eq, Numeric.eq_comm] at h ⊢
  case object.object =>
    exact ⟨h.1.symm, sameFields_symm hn hn' h.1 (fun x hx y hy => Keyed.same_symm (inside x hx) (inside' y hy)) h.2⟩
  all_goals grind

theorem Keyed.equal_trans (hs : s.Keyed) (h : s.equal t = true) (h' : t.equal u = true) : s.equal u = true := by
  have hsame := fun h h' => hs.same_trans (t := t) (u := u) h h'
  obtain ⟨hn, inside⟩ := hs
  cases s <;> cases t <;> first
    | exact Bool.noConfusion h
    | cases u <;> first
      | exact Bool.noConfusion h'
      | exact hsame h h'
      | simp only [equal, scalarsEqual, Option.getD_some, Bool.and_eq_true, beq_iff_eq, bool_beq] at h h' ⊢
  case object.object.object =>
    exact ⟨h.1.trans h'.1, sameFields_trans (fun x hx _ _ => Keyed.same_trans (inside x hx)) h.2 h'.2⟩
  all_goals exact eq_trans h h'

/-- Snapshots of these kinds are equal to none. -/
def comparable : Snapshot → Bool
  | .cls .. | .enum .. | .bare | .cycle => false
  | _ => true

theorem equal_of_not_comparable (h : s.comparable = false) (t : Snapshot) : s.equal t = false := by
  cases s <;> first
    | exact Bool.noConfusion h
    | cases t <;> rfl

theorem Keyed.equal_refl (hs : s.Keyed) (hnumbers : s.NaNFree) (h : s.comparable = true) : s.equal s = true := by
  have hsame := hs.same_refl hnumbers
  obtain ⟨here, -⟩ := hnumbers
  cases s <;> first
    | exact Bool.noConfusion h
    | exact hsame
    | simp only [equal, scalarsEqual, Option.getD_some, beq_self_eq_true, Bool.true_and]
  case num => exact Numeric.eq_self (here _ (List.mem_singleton.2 rfl))
  case object =>
    simp only [same, Bool.and_eq_true] at hsame
    exact hsame.1.2

end Snapshot

/-! ## Values -/

/-- The value is none of those that equal nothing. -/
def Heap.Compares (h : Heap) : Value → Prop
  | .cls _ | .enum _ | .bare => False
  | .func ref => ref < h.closures.size
  | _ => True

theorem Heap.Compares.comparable {h : Heap} {v : Value} (hv : h.Compares v) : (h.snapshot v).comparable = true := by
  cases v with
  | func ref =>
    rw [Heap.snapshot, Heap.snapshotFrom, Array.getElem?_eq_getElem hv]
    rfl
  | cls | enum | bare => exact hv.elim
  | _ => rfl

theorem Heap.Keyed.snapshotFrom {h : Heap} (hk : h.Keyed) (depth : Nat) (above : List Cell) (v : Value) :
    (h.snapshotFrom depth above v).Keyed := by
  have hmembers {t : Table Value} {f : Value → Snapshot} (ht : t.Distinct) :
      ((t.entries.map fun e => (e.1, f e.2)).map (·.1)).Nodup := by
    rw [map_map]
    exact ht
  induction depth generalizing above v with
  | zero =>
    cases v with
    | func ref =>
      rw [Heap.snapshotFrom]
      split <;> exact .leaf nodup_nil rfl
    | _ => exact .leaf nodup_nil rfl
  | succ depth ih =>
    have hparts {es : List (String × Value)} {above : List Cell} : ∀ x ∈ (es.map fun e =>
        (e.1, h.snapshotFrom depth above e.2)).map (·.2), x.Keyed := by
      intro x hx
      rw [map_map] at hx
      obtain ⟨e, -, rfl⟩ := List.mem_map.1 hx
      exact ih _ _
    cases v <;> rw [Heap.snapshotFrom]
    case func ref => split <;> exact .leaf nodup_nil rfl
    case array ref =>
      split
      · exact .leaf nodup_nil rfl
      · refine ⟨nodup_nil, fun x hx => ?_⟩
        obtain ⟨w, -, rfl⟩ := List.mem_map.1 hx
        exact ih _ _
    case object ref =>
      split
      · exact .leaf nodup_nil rfl
      · exact ⟨hmembers (hk.fields ref), hparts⟩
    case cls ref =>
      cases hc : h.classes[ref]? with
      | none => exact .leaf nodup_nil rfl
      | some c =>
        dsimp only
        split
        · exact .leaf nodup_nil rfl
        · exact ⟨hmembers (hk.classes ref c hc), hparts⟩
    case enum ref =>
      cases he : h.enums[ref]? with
      | none => exact .leaf nodup_nil rfl
      | some e =>
        dsimp only
        split
        · exact .leaf nodup_nil rfl
        · exact ⟨hmembers (hk.enums ref e he), hparts⟩
    all_goals exact .leaf nodup_nil rfl

end Machine

/-! ## The operators -/

namespace Evaluate

open Machine Syntax

variable {m : Machine} {pos : Pos} {a b : Value}

theorem binary_equal (pos : Pos) (m : Machine) (a b : Value) :
    binary pos "==" a b m = (.ok (.bool ((m.heap.snapshot a).equal (m.heap.snapshot b))), m) ∧
      binary pos "!=" a b m = (.ok (.bool !(m.heap.snapshot a).equal (m.heap.snapshot b)), m) := by
  unfold binary
  split
  · simp only [Heap.snapshot, Heap.snapshotFrom]
    exact ⟨rfl, rfl⟩
  · exact ⟨rfl, rfl⟩

end Evaluate

namespace Session

open Machine Evaluate Syntax

/-- No program gives a table a name twice. On a machine where none has one, `==` and `!=` have a result for all values,
each the negation of the other, and the order of the values makes no difference. All values but classes and
enumerations are equal to themselves, if no number in them is NaN; what is equal to one value is equal to each other;
and classes and enumerations are equal to nothing. -/
theorem equality_laws :
    (Heap.initial.Keyed ∧ ∀ (m : Machine) (jobs : List Job), m.heap.Keyed → (runJobs jobs m).2.heap.Keyed ∧
      ∀ e m', Passes (fun o => @runJobs o jobs) m e m' → m'.heap.Keyed) ∧
    ∀ (m : Machine) (pos : Pos), m.heap.Keyed →
      (∀ a b, ∃ r : Bool, binary pos "==" a b m = (.ok (.bool r), m) ∧ binary pos "==" b a m = (.ok (.bool r), m) ∧
        binary pos "!=" a b m = (.ok (.bool !r), m)) ∧
      (∀ a, m.heap.Compares a → (m.heap.snapshot a).NaNFree → binary pos "==" a a m = (.ok (.bool true), m)) ∧
      (∀ a b c, binary pos "==" a b m = (.ok (.bool true), m) → binary pos "==" b c m = (.ok (.bool true), m) →
        binary pos "==" a c m = (.ok (.bool true), m)) ∧
      ∀ a b ref, a = .cls ref ∨ a = .enum ref → binary pos "==" a b m = (.ok (.bool false), m) := by
  refine ⟨⟨Heap.initial_keyed, fun m jobs hk => ?_⟩, fun m pos hk => ?_⟩
  · obtain ⟨log, hlog, htrail⟩ : ∃ log, JobsLogged jobs m log ∧ Trail (hosting False False False) m log (runJobs jobs m).2 :=
      runJobs_trail False.elim False.elim False.elim False.elim
    exact ⟨htrail.path.keyed hk, fun e m' hp => (htrail.passes e m' ((hlog.passes_iff e m').1 hp)).1.keyed hk⟩
  have hkeyed (v : Value) : (m.heap.snapshot v).Keyed := hk.snapshotFrom _ _ v
  have htrue {a b : Value} : binary pos "==" a b m = (.ok (.bool true), m) ↔
      (m.heap.snapshot a).equal (m.heap.snapshot b) = true := by
    rw [(binary_equal pos m a b).1]
    exact ⟨fun h => Value.bool.inj (Except.ok.inj (congrArg Prod.fst h)), fun h => by rw [h]⟩
  refine ⟨fun a b => ⟨_, (binary_equal pos m a b).1, ?_, (binary_equal pos m a b).2⟩, fun a ha hn => ?_,
    fun a b c hab hbc => ?_, fun a b ref ha => ?_⟩
  · have hsymm : (m.heap.snapshot b).equal (m.heap.snapshot a) = (m.heap.snapshot a).equal (m.heap.snapshot b) :=
      Bool.eq_iff_iff.2 ⟨(hkeyed b).equal_symm (hkeyed a), (hkeyed a).equal_symm (hkeyed b)⟩
    rw [(binary_equal pos m b a).1, hsymm]
  · exact htrue.2 ((hkeyed a).equal_refl hn ha.comparable)
  · exact htrue.2 ((hkeyed a).equal_trans (htrue.1 hab) (htrue.1 hbc))
  · have hnone : (m.heap.snapshot a).comparable = false := by
      rcases ha with rfl | rfl <;> rw [Heap.snapshot, Heap.snapshotFrom] <;> split <;> rfl
    rw [(binary_equal pos m a b).1, Snapshot.equal_of_not_comparable hnone]

theorem equality_laws_array :
    let m : Machine := { plainMachine with heap := (Heap.initial.newArray #[.num (.int 1) 0]).2 }
    m.heap.Keyed ∧ binary .zero "==" (.array 0) (.array 0) m = (.ok (.bool true), m) ∧
      binary .zero "==" (.bool true) (.num (.bool true) 0) m = (.ok (.bool true), m) ∧
      binary .zero "==" (.cls 0) (.cls 0) m = (.ok (.bool false), m) := by
  intro m
  have hk : m.heap.Keyed := (@Step.array True _ _).keyed Heap.initial_keyed
  obtain ⟨-, hrefl, htrans, hnone⟩ := equality_laws.2 m .zero hk
  have hsnapshot : m.heap.snapshot (.array 0) = .array [.num (.int 1) 0] := rfl
  refine ⟨hk, hrefl (.array 0) trivial ?_, htrans _ (.num (.int 1) 0) _ (by rfl) (by rfl), hnone _ _ 0 (.inl rfl)⟩
  rw [hsnapshot]
  exact ⟨fun _ hx => absurd hx not_mem_nil, List.forall_mem_singleton.2 (.leaf (by decide) rfl)⟩

end Session

end SmallScript
