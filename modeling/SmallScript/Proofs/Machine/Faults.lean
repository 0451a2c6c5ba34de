import SmallScript.Number.Round
import SmallScript.Proofs.Machine.Changes

/-!
# Kinds of faults and failures

Which families of failure the faults of arithmetic, of texts and of files belong to, operation by operation.
`OnlyFaults P r` says that `P` holds of the fault of `r`, if it is one. It has one rule for each way in which results are
put together.
-/

namespace SmallScript.Machine

open Number List
open World (FileFault FileCause FileStore)
open Inspect Numeric Snapshot

/-- Every fault of the result has the property. -/
def OnlyFaults {ε α : Type} (P : ε → Prop) (r : Except ε α) : Prop := ∀ e, r = .error e → P e

namespace OnlyFaults

variable {ε α β : Type} {P Q : ε → Prop} {r : Except ε α}

theorem ok (a : α) : OnlyFaults P (.ok a) := fun _ h => nomatch h

theorem pure (a : α) : OnlyFaults P (Pure.pure a) := ok a

theorem error {e} (h : P e) : OnlyFaults P (.error e : Except ε α) := by
  intro e' he
  cases he
  exact h

@[simp]
theorem ok_iff {a : α} : OnlyFaults P (.ok a) ↔ True := iff_true_intro (ok a)

@[simp]
theorem pure_iff {a : α} : OnlyFaults P (Pure.pure a) ↔ True := iff_true_intro (pure a)

@[simp]
theorem error_iff {e} : OnlyFaults P (.error e : Except ε α) ↔ P e := ⟨fun h => h e rfl, error⟩

theorem bind {k : α → Except ε β} (hr : OnlyFaults P r) (hk : ∀ a, OnlyFaults P (k a)) : OnlyFaults P (r >>= k) := by
  cases r with
  | error e => exact error (hr e rfl)
  | ok a => exact hk a

theorem mono (hr : OnlyFaults P r) (h : ∀ e, P e → Q e) : OnlyFaults Q r := fun e he => h e (hr e he)

theorem ite {c : Prop} [Decidable c] {r'} (hr : OnlyFaults P r) (hr' : OnlyFaults P r') :
    OnlyFaults P (if c then r else r') := by
  split
  · exact hr
  · exact hr'

theorem mapError {δ : Type} {g} {r : Except δ α} (hr : OnlyFaults (fun e => P (g e)) r) :
    OnlyFaults P (r.mapError g) := by
  cases r with
  | error e => exact error (hr e rfl)
  | ok a => exact ok a

theorem foldlM {ι : Type} {step} (hstep : ∀ a i, OnlyFaults P (step a i)) (is : List ι) (a : α) :
    OnlyFaults P (is.foldlM step a) := by
  induction is generalizing a with
  | nil => exact pure a
  | cons i is ih =>
    exact (hstep a i).bind ih

end OnlyFaults

/-! ## Numbers -/

/-- The fault is of one of the kinds. -/
abbrev Among (kinds : List FailureKind) (f : NumberFault) : Prop := numberFaultKind f ∈ kinds

theorem OnlyFaults.widen {α : Type} {kinds kinds'} {r : Except NumberFault α}
    (hr : OnlyFaults (Among kinds) r) (h : ∀ k ∈ kinds, k ∈ kinds') : OnlyFaults (Among kinds') r :=
  hr.mono fun _ hf => h _ hf

/-- What may be wrong with the integer part of a number. -/
abbrev wholeKinds : List FailureKind := [.value, .overflow, .type]

section Numbers

attribute [local simp] numberFaultKind

variable (a b : Numeric)

section

variable {kinds : List FailureKind} (h : .overflow ∈ kinds)
include h

theorem intToFloat_faults {n} : OnlyFaults (Among kinds) (intToFloat n) := by
  unfold intToFloat
  split
  · exact .ok _
  · exact .error h

theorem real_toFloat_faults {x : Number.Real} : OnlyFaults (Among kinds) x.toFloat := by
  cases x with
  | int n => exact intToFloat_faults h
  | float x => exact .ok x

theorem toComplex_faults {x : Numeric} : OnlyFaults (Among kinds) x.toComplex := by
  cases x with
  | int n => exact (intToFloat_faults h).bind fun _ => .pure _
  | _ => exact .ok _

end

theorem toFloat_faults : OnlyFaults (Among [.overflow, .type]) a.toFloat := by
  unfold toFloat
  split
  · exact real_toFloat_faults (by decide)
  · exact .error (by decide)

theorem trunc_faults : OnlyFaults (Among wholeKinds) a.trunc := by
  unfold trunc truncFloat
  repeat' split
  all_goals simp

theorem lift2_faults (ints : Int → Int → Int) (floats : Float → Float → Float)
    (complexes : Float × Float → Float × Float → Float × Float) :
    OnlyFaults (Among [.overflow]) (lift2 ints floats complexes a b) := by
  unfold lift2
  split
  · exact .ok _
  · exact (real_toFloat_faults (by decide)).bind fun _ => (real_toFloat_faults (by decide)).bind fun _ => .pure _
  · exact (toComplex_faults (by decide)).bind fun _ => (toComplex_faults (by decide)).bind fun _ => .pure _

/-- Divisions by zero apart, a quotient has the faults of a sum. -/
theorem div_faults : OnlyFaults (Among [.zeroDivision, .overflow]) (a.div b) := by
  have hover : FailureKind.overflow ∈ [.zeroDivision, .overflow] := by decide
  unfold div divInts
  split
  · refine .ite (.error (by decide)) ?_
    split
    · exact .ok _
    · exact .error (by decide)
  · refine (real_toFloat_faults hover).bind fun _ => (real_toFloat_faults hover).bind fun _ => ?_
    exact .ite (.error (by decide)) (.pure _)
  · refine (toComplex_faults hover).bind fun _ => (toComplex_faults hover).bind fun _ => ?_
    exact .ite (.error (by decide)) (.pure _)

theorem mod_faults : OnlyFaults (Among [.zeroDivision, .overflow, .type]) (a.mod b) := by
  unfold mod
  split
  · exact .ite (.error (by decide)) (.ok _)
  · refine (real_toFloat_faults (by decide)).bind fun _ => (real_toFloat_faults (by decide)).bind fun _ => ?_
    exact .ite (.error (by decide)) (.pure _)
  · exact .error (by simp [numberFaultKind])

theorem complexPow_faults (x y : Float × Float) : OnlyFaults (Among [.zeroDivision, .overflow]) (complexPow x y) := by
  have hpower (z : Except NumberFault (Float × Float)) (hz : OnlyFaults (Among [.zeroDivision, .overflow]) z) :
      OnlyFaults (Among [.zeroDivision, .overflow]) (do
        let r ← z
        if r.1.isInf || r.2.isInf then .error .complexPowerRange else return complex r.1 r.2) :=
    hz.bind fun _ => .ite (.error (by decide)) (.pure _)
  have hzero := hpower (.error .complexZeroPower) (.error (by decide))
  refine .ite (.ite (hpower _ (.pure _)) (.ite hzero (hpower _ (.pure _)))) (.ite (.ite hzero (hpower _ (.pure _))) ?_)
  split <;> exact hpower _ (.pure _)

theorem powFloats_faults (x y : Float) : OnlyFaults (Among [.zeroDivision, .overflow]) (powFloats x y) := by
  refine .ite (.ok _) (.ite (.ok _) (.ite (.ok _) (.ite (.ok _) (.ite (.ok _) (.ite ?_ (.ite ?_ ?_))))))
  · exact .ite (.error (by decide)) (.ok _)
  · exact complexPow_faults _ _
  · exact .ite (.ok _) (.ite (.error (by decide)) (.ok _))

theorem pow_faults : OnlyFaults (Among [.zeroDivision, .overflow]) (a.pow b) := by
  have hover : FailureKind.overflow ∈ [.zeroDivision, .overflow] := by decide
  unfold pow
  split
  · refine .ite (.ok _) ((intToFloat_faults hover).bind fun _ => (intToFloat_faults hover).bind fun _ => ?_)
    exact powFloats_faults _ _
  · exact (real_toFloat_faults hover).bind fun _ => (real_toFloat_faults hover).bind fun _ => powFloats_faults _ _
  · refine (toComplex_faults hover).bind fun _ => (toComplex_faults hover).bind fun _ => ?_
    exact .ite (.pure _) (complexPow_faults _ _)

theorem order_faults (op : OrderOp) : OnlyFaults (Among [.type]) (a.order op b) := by
  unfold order
  split <;> simp

theorem bits_faults (op : BitOp) : OnlyFaults (Among wholeKinds) (bits op a b) := by
  have hshl m n : OnlyFaults (Among wholeKinds) (shlInts m n) :=
    .ite (.error (by decide)) (.ite (.ok _) (.ite (.error (by decide)) (.ok _)))
  have hshr m n : OnlyFaults (Among wholeKinds) (shrInts m n) := .ite (.error (by decide)) (.ite (.ok _) (.ok _))
  refine (trunc_faults a).bind fun m => (trunc_faults b).bind fun n => ?_
  cases op with
  | shl => exact (hshl m n).bind fun _ => .pure _
  | shr => exact (hshr m n).bind fun _ => .pure _
  | _ => exact .pure _

/-! ## Rounding and elementary functions -/

theorem round_faults : OnlyFaults (Among wholeKinds) a.round := by
  unfold Numeric.round roundFloat
  repeat' split
  all_goals simp

theorem roundTo_faults (places : Int) : OnlyFaults (Among [.overflow, .type]) (a.roundTo places) := by
  unfold roundTo roundFloatTo
  split
  · exact .ok _
  · refine .bind ?_ fun _ => .pure _
    split
    · refine .ite (.ok _) (.ite (.ok _) ?_)
      dsimp only
      split
      · exact .ok _
      · exact .error (by decide)
    · exact .ok _
  · exact .error (by decide)

theorem floor_faults : OnlyFaults (Among wholeKinds) a.floor := by
  unfold floor
  repeat' split
  all_goals simp

theorem ceil_faults : OnlyFaults (Among wholeKinds) a.ceil := by
  unfold ceil
  repeat' split
  all_goals simp

theorem logWith_faults {kinds} (f : Float → Float) : OnlyFaults (Among (.value :: .type :: kinds)) (logWith f a) := by
  unfold logWith
  repeat' split
  all_goals simp

theorem log_faults : OnlyFaults (Among [.value, .type, .zeroDivision]) (a.log b) :=
  (logWith_faults a _).bind fun _ => (logWith_faults b _).bind fun _ => .ite (.error (by decide)) (.pure _)

theorem log10_faults : OnlyFaults (Among [.value, .type]) a.log10 := (logWith_faults a _).bind fun _ => .pure _

theorem sin_faults : OnlyFaults (Among wholeKinds) a.sin :=
  ((toFloat_faults a).widen (by decide)).bind fun _ => .ite (.error (by decide)) (.pure _)

theorem asin_faults : OnlyFaults (Among wholeKinds) a.asin :=
  ((toFloat_faults a).widen (by decide)).bind fun _ => .ite (.error (by decide)) (.pure _)

theorem factorial_faults : OnlyFaults (Among wholeKinds) a.factorial :=
  (trunc_faults a).bind fun _ => .ite (.error (by decide)) (.ite (.error (by decide)) (.pure _))

theorem sumNums_faults (ns : List Numeric) : OnlyFaults (Among [.overflow]) (sumNums ns) :=
  .foldlM (fun x y => lift2_faults x y _ _ _) ns _

theorem extremum_faults {α : Type} (which : String) (op : OrderOp) (number : α → Numeric) (items : List α) :
    OnlyFaults (Among [.value, .type]) (extremum which op number items) := by
  unfold extremum
  split
  · exact .error (by simp [numberFaultKind])
  · refine .foldlM (fun best x => ?_) _ _
    exact ((order_faults _ _ op).widen (by decide)).bind fun _ => .ite (.pure _) (.pure _)

end Numbers

/-! ## Texts -/

theorem numericText_faults (n : Numeric) : OnlyFaults (Among [.value]) n.text := by
  unfold text
  repeat' split
  all_goals simp [numberFaultKind]

mutual

theorem text_faults : ∀ d : Datum, OnlyFaults (Among [.value]) d.text
  | .none | .bool _ | .string _ | .tokenKind _ | .function _ | .thing _ => .ok _
  | .number n => numericText_faults n
  | .list items => (texts_faults items).bind fun _ => .pure _
  | .tuple [] => .ok _
  | .tuple [x] => (text_faults x).bind fun _ => .pure _
  | .tuple (x :: y :: items) => (texts_faults (x :: y :: items)).bind fun _ => .pure _
  | .set items => (texts_faults items).bind fun _ => .pure _
  | .dict entries => (entryTexts_faults entries).bind fun _ => .pure _
  | .record _ fields => (fieldTexts_faults fields).bind fun _ => .pure _

theorem texts_faults : ∀ ds : List Datum, OnlyFaults (Among [.value]) (Datum.texts ds)
  | [] => .ok _
  | d :: ds => (text_faults d).bind fun _ => (texts_faults ds).bind fun _ => .pure _

theorem entryTexts_faults : ∀ es : List (Datum × Datum), OnlyFaults (Among [.value]) (Datum.entryTexts es)
  | [] => .ok _
  | (k, d) :: es =>
    (text_faults k).bind fun _ => (text_faults d).bind fun _ => (entryTexts_faults es).bind fun _ => .pure _

theorem fieldTexts_faults : ∀ fs : List (String × Datum), OnlyFaults (Among [.value]) (Datum.fieldTexts fs)
  | [] => .ok _
  | (_, d) :: fs => (text_faults d).bind fun _ => (fieldTexts_faults fs).bind fun _ => .pure _

end

theorem plainText_faults (d : Datum) : OnlyFaults (Among [.value]) d.plainText := by
  unfold Datum.plainText
  split
  · exact .ok _
  · exact .ok _
  · exact text_faults d

theorem numberDisplay_faults (n : Numeric) : OnlyFaults (Among wholeKinds) (numberDisplay n) := by
  refine (trunc_faults n).bind fun _ => .ite ?_ ?_
  · exact (numericText_faults _).widen (by decide)
  · exact (numericText_faults _).widen (by decide)

mutual

theorem display_faults (inside : Bool) : ∀ x : Snapshot, OnlyFaults (Among wholeKinds) (x.display inside)
  | .null | .bool _ | .str _ | .native _ | .func .. | .enum .. | .bare | .cycle => .ok _
  | .num n _ => numberDisplay_faults n
  | .array items => (displayItems_faults items).bind fun _ => .pure _
  | .object fields _ => (displayFields_faults fields).bind fun _ => .pure _
  | .cls _ members _ => (displayFields_faults members).bind fun _ => .pure _

theorem displayItems_faults : ∀ xs : List Snapshot, OnlyFaults (Among wholeKinds) (displayItems xs)
  | [] => .ok _
  | x :: xs => (display_faults true x).bind fun _ => (displayItems_faults xs).bind fun _ => .pure _

theorem displayFields_faults :
    ∀ fs : List (String × Snapshot), OnlyFaults (Among wholeKinds) (displayFields fs)
  | [] => .ok _
  | (_, x) :: fs => (display_faults true x).bind fun _ => (displayFields_faults fs).bind fun _ => .pure _

end

/-! ## Layouts -/

/-- The layout fails with one of the kinds. -/
abbrev PrettyAmong (kinds : List FailureKind) (f : PrettyFault) : Prop := (Failure.pretty f).kind ∈ kinds

/-- A fault of a value is one of an attribute or a value. -/
theorem OnlyFaults.attribute {α : Type} {r : Except PrettyFault α} (hr : OnlyFaults (PrettyAmong [.value]) r) :
    OnlyFaults (PrettyAmong [.attribute, .value]) r :=
  hr.mono fun _ => .tail _

theorem prettyAtom_faults (l : Layout) (d : Datum) : OnlyFaults (PrettyAmong [.value]) (prettyAtom l d) := by
  unfold prettyAtom
  split
  · exact .ok _
  · next f hf => exact .error (plainText_faults d f hf)

theorem prettyFunction_faults (l : Layout) (h : Holder) (name : String) :
    OnlyFaults (PrettyAmong [.attribute, .value]) (prettyFunction l h name) := by
  cases h with
  | item kind => exact .ite (.error ((.head _))) (.ok _)
  | _ => exact .ok _

mutual

theorem prettyAt_faults (l : Layout) (depth : Nat) (h : Holder) :
    ∀ d : Datum, OnlyFaults (PrettyAmong [.attribute, .value]) (prettyAt l depth h d)
  | .record _ fields => (prettyFields_faults l (depth + 1) fields).bind fun _ => .pure _
  | .list items => (prettyItems_faults l (depth + 1) "list" true items).bind fun _ => .pure _
  | .tuple items => (prettyItems_faults l (depth + 1) "tuple" true items).bind fun _ => .pure _
  | .set items => (prettyItems_faults l (depth + 1) "set" true items).bind fun _ => .pure _
  | .dict entries => (prettyEntries_faults l (depth + 1) entries).bind fun _ => .pure _
  | .string _ => .ok _
  | .function name => prettyFunction_faults l h name
  | .none => (prettyAtom_faults l .none).attribute
  | .bool b => (prettyAtom_faults l (.bool b)).attribute
  | .number n => (prettyAtom_faults l (.number n)).attribute
  | .tokenKind k => (prettyAtom_faults l (.tokenKind k)).attribute
  | .thing shown => (prettyAtom_faults l (.thing shown)).attribute

theorem prettyFields_faults (l : Layout) (depth : Nat) :
    ∀ fs : List (String × Datum), OnlyFaults (PrettyAmong [.attribute, .value]) (prettyFields l depth fs)
  | [] => .ok _
  | (_, d) :: fs => (prettyAt_faults l depth .field d).bind fun _ => (prettyFields_faults l depth fs).bind fun _ => .pure _

theorem prettyItems_faults (l : Layout) (depth : Nat) (kind : String) (first : Bool) :
    ∀ ds : List Datum, OnlyFaults (PrettyAmong [.attribute, .value]) (prettyItems l depth kind first ds)
  | [] => .ok _
  | d :: ds =>
    (prettyAt_faults l depth (.item kind) d).bind fun _ => (prettyItems_faults l depth kind false ds).bind fun _ => .pure _

theorem prettyEntries_faults (l : Layout) (depth : Nat) :
    ∀ es : List (Datum × Datum), OnlyFaults (PrettyAmong [.attribute, .value]) (prettyEntries l depth es)
  | [] => .ok _
  | (k, d) :: es => by
    have hkey : OnlyFaults (PrettyAmong [.value]) (k.plainText.mapError .number) := .mapError (plainText_faults k)
    refine hkey.attribute.bind fun _ => ?_
    exact (prettyAt_faults l depth .entry d).bind fun _ => (prettyEntries_faults l depth es).bind fun _ => .pure _

end

theorem pretty_faults (l : Layout) (d : Datum) : OnlyFaults (PrettyAmong [.type, .attribute, .value]) (pretty l d) := by
  unfold pretty
  split
  · exact (prettyAt_faults l 0 .field _).mono fun _ => .tail _
  · exact .error (by decide)

/-! ## Files -/

/-- The family of the faults with a cause. -/
def causeKind (c : FileCause) : FailureKind := (Failure.file ⟨c, "", none⟩).kind

/-- The fault has one of the causes. -/
abbrev CausedBy (causes : List FileCause) (f : FileFault) : Prop := f.cause ∈ causes

/-- Why a path leads nowhere. -/
abbrev pathCauses : List FileCause := [.notFound, .notDirectory]

section Files

variable (s : FileStore) (text : String)

theorem walk_faults (here : World.Path) (steps : List String) : OnlyFaults (· ∈ pathCauses) (s.walk here steps) := by
  induction steps generalizing here with
  | nil => exact .ok _
  | cons step rest ih =>
    unfold FileStore.walk
    split
    · dsimp only
      split
      · exact .error (by decide)
      · exact ih _
    · exact .error (by decide)
    · exact .error (by decide)

theorem resolve_faults : OnlyFaults (· ∈ pathCauses) (s.resolve text) := by
  refine .ite (.error (by decide)) ?_
  dsimp only
  split
  · next c hc => exact .error (walk_faults s _ _ c hc)
  · split
    · exact .error (by decide)
    · exact .ok _

theorem withPath_faults {α : Type} {causes} {k : World.Path → Except FileCause α}
    (hpath : ∀ c ∈ pathCauses, c ∈ causes) (hk : ∀ p, OnlyFaults (· ∈ causes) (k p)) :
    OnlyFaults (CausedBy causes) (FileStore.withPath text (s.resolve text >>= k)) :=
  .mapError (((resolve_faults s text).mono hpath).bind hk)

theorem read_faults : OnlyFaults (CausedBy (.isDirectory :: pathCauses)) (s.read text) := by
  refine withPath_faults s text (by decide) fun p => ?_
  split
  · exact .pure _
  · exact .error (by decide)
  · exact .error (by decide)

theorem write_faults (content : ByteArray) :
    OnlyFaults (CausedBy (.isDirectory :: pathCauses)) (s.write text content) := by
  refine withPath_faults s text (by decide) fun p => ?_
  split
  · exact .error (by decide)
  · exact .pure _
  · exact .ite (.error (by decide)) (.pure _)

theorem append_faults (content : ByteArray) :
    OnlyFaults (CausedBy (.isDirectory :: pathCauses)) (s.append text content) := by
  unfold FileStore.append
  split
  · exact write_faults s text _
  · exact write_faults s text _

theorem delete_faults : OnlyFaults (CausedBy (.isDirectory :: pathCauses)) (s.delete text) := by
  refine withPath_faults s text (by decide) fun p => ?_
  split
  · exact .pure _
  · exact .error (by decide)
  · exact .error (by decide)

theorem move_faults (target : String) :
    OnlyFaults (CausedBy (.belowItself :: .notEmpty :: .isDirectory :: pathCauses)) (s.move text target) := by
  have hresolve text : OnlyFaults (· ∈ .belowItself :: .notEmpty :: .isDirectory :: pathCauses) (s.resolve text) :=
    (resolve_faults s text).mono (by decide)
  refine .mapError ((hresolve text).bind fun p => (hresolve target).bind fun q => ?_)
  split
  · exact .error (by decide)
  · refine .ite (.pure _) (.ite (.error (by decide)) ?_)
    split
    · exact .error (by decide)
    · exact .error (by decide)
    · exact .ite (.pure _) (.error (by decide))
    · exact .pure _
    · exact .pure _

theorem size_faults : OnlyFaults (CausedBy pathCauses) (s.size text) := by
  refine withPath_faults s text (by decide) fun p => ?_
  split
  · exact .pure _
  · exact .pure _
  · exact .error (by decide)

theorem list_faults : OnlyFaults (CausedBy pathCauses) (s.list text) := by
  refine withPath_faults s text (by decide) fun p => ?_
  split
  · exact .pure _
  · exact .error (by decide)
  · exact .error (by decide)

theorem enter_faults : OnlyFaults (CausedBy pathCauses) (s.enter text) := by
  refine withPath_faults s text (by decide) fun p => ?_
  split
  · exact .pure _
  · exact .error (by decide)
  · exact .error (by decide)

end Files

end SmallScript.Machine
