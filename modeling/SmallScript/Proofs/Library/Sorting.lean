import SmallScript.Proofs.Machine.Snapshots
import SmallScript.Library.Arrays
import SmallScript.Number.Round

/-!
# Sorting linked values

Sorting and the search for an extremum compare numbers and only carry along the values that these belong
to. On lists of linked values they take the same decisions, so their results are linked.
-/

namespace SmallScript.Library

open Machine List Array
open Number (Numeric NumberFault OrderOp extremum)

variable {xs xs' : List Keyed}

/-- Related results, or the same fault. -/
inductive OutcomeLink {ε α α' : Type} (R : α → α' → Prop) : Except ε α → Except ε α' → Prop where
  | ok {a : α} {a' : α'} (h : R a a') : OutcomeLink R (.ok a) (.ok a')
  | error (e : ε) : OutcomeLink R (.error e) (.error e)

variable {ρ : Link}

theorem OutcomeLink.bind {ε α α' γ γ' : Type} {R : α → α' → Prop} {S : γ → γ' → Prop}
    {x : Except ε α} {x' : Except ε α'} (h : OutcomeLink R x x') {f : α → Except ε γ}
    {f'} (hf : ∀ a a', R a a' → OutcomeLink S (f a) (f' a')) :
    OutcomeLink S (x >>= f) (x' >>= f') := by
  cases h with
  | ok ha => exact hf _ _ ha
  | error e => exact .error e

/-- The same decision on both sides. -/
theorem OutcomeLink.decide {ε γ γ' : Type} {S : γ → γ' → Prop} (x : Except ε Bool)
    {f : Bool → Except ε γ} {f'} (hf : ∀ c, OutcomeLink S (f c) (f' c)) :
    OutcomeLink S (x >>= f) (x >>= f') := by
  cases x with
  | ok c => exact hf c
  | error e => exact .error e

theorem OutcomeLink.foldlM {ε ι ι' α α' : Type} {Q : ι → ι' → Prop} {R : α → α' → Prop} {f : α → ι → Except ε α} {f'}
    (hf : ∀ a a' x x', R a a' → Q x x' → OutcomeLink R (f a x) (f' a' x')) {xs : List ι}
    {xs' : List ι'} (hx : List.Forall₂ Q xs xs') {a : α} {a' : α'} (ha : R a a') :
    OutcomeLink R (xs.foldlM f a) (xs'.foldlM f' a') := by
  induction hx generalizing a a' with
  | nil => exact .ok ha
  | cons h _ ih =>
    exact (hf _ _ _ _ ha h).bind fun _ _ hr => ih hr

/-- The same number with linked values. -/
def KeyedLink (ρ : Link) (a b : Keyed) : Prop := a.1 = b.1 ∧ ValueLink ρ a.2 b.2

abbrev KeyedsLink (ρ : Link) : List Keyed → List Keyed → Prop := List.Forall₂ (KeyedLink ρ)

theorem KeyedLink.lt_eq {a a' b b'} (ha : KeyedLink ρ a a') (hb : KeyedLink ρ b b') : a.lt b = a'.lt b' := by
  simp only [Keyed.lt, ha.1, hb.1]

/-- The numbers of linked values, each with its value. -/
theorem keyed_rel {vs vs'} (h : ValuesLink ρ vs vs') :
    Option.Rel (KeyedsLink ρ) (vs.mapM fun e => e.num?.map (·, e)) (vs'.mapM fun e => e.num?.map (·, e)) := by
  induction h with
  | nil => exact .some .nil
  | @cons v v' vs vs' hv _ ih =>
    rw [mapM_cons, mapM_cons, ← hv.num?_eq]
    cases v.num? with
    | none => exact .none
    | some n =>
      revert ih
      generalize (vs.mapM fun e => e.num?.map (·, e)) = o
      generalize (vs'.mapM fun e => e.num?.map (·, e)) = o'
      intro ih
      cases ih with
      | none => exact .none
      | some hs => exact .some (.cons ⟨rfl, hv⟩ hs)

theorem KeyedsLink.values (h : KeyedsLink ρ xs xs') : ValuesLink ρ (xs.map (·.2)) (xs'.map (·.2)) := by
  induction h with
  | nil => exact .nil
  | cons h _ ih => exact .cons h.2 ih

theorem KeyedsLink.numbers_eq (h : KeyedsLink ρ xs xs') : xs.map (·.1) = xs'.map (·.1) := by
  induction h with
  | nil => rfl
  | cons h _ ih => simp only [map_cons, h.1, ih]

/-! ## Runs -/

/-- A run and the rest of the items. -/
def SplitLink (ρ : Link) (p p' : List Keyed × List Keyed) : Prop :=
  KeyedsLink ρ p.1 p'.1 ∧ KeyedsLink ρ p.2 p'.2

theorem takeRun_link (less : Bool) {last last'} (hl : KeyedLink ρ last last') {taken taken'}
    (ht : KeyedsLink ρ taken taken') (hx : KeyedsLink ρ xs xs') :
    OutcomeLink (SplitLink ρ) (takeRun less last taken xs) (takeRun less last' taken' xs') := by
  induction hx generalizing last last' taken taken' with
  | nil => exact .ok ⟨.cons hl ht, .nil⟩
  | cons h hs ih =>
    simp only [takeRun]
    rw [← h.lt_eq hl]
    refine .decide _ fun c => ?_
    split
    · exact ih h (.cons hl ht)
    · exact .ok ⟨.cons hl ht, .cons h hs⟩

theorem firstRun_link (hx : KeyedsLink ρ xs xs') : OutcomeLink (SplitLink ρ) (firstRun xs) (firstRun xs') := by
  cases hx with
  | nil => exact .ok ⟨.nil, .nil⟩
  | cons hx hs =>
    cases hs with
    | nil => exact .ok ⟨.cons hx .nil, .nil⟩
    | cons hy hs =>
      simp only [firstRun]
      rw [← hy.lt_eq hx]
      refine .decide _ fun c => ?_
      split
      · exact takeRun_link true hy (.cons hx .nil) hs
      · refine (takeRun_link false hy (.cons hx .nil) hs).bind fun p p' hp => ?_
        exact .ok ⟨rel_reverse hp.1, hp.2⟩

/-! ## Insertion -/

theorem getD_link {a a' : Array Keyed} (ha : KeyedsLink ρ a.toList a'.toList) (i : Nat) {x x'}
    (hx : KeyedLink ρ x x') : KeyedLink ρ (a.getD i x) (a'.getD i x') := by
  have h := rel_getElem? ha i
  rw [getElem?_toList, getElem?_toList] at h
  rw [getD_eq_getD_getElem?, getD_eq_getD_getElem?]
  revert h
  generalize a[i]? = o
  generalize a'[i]? = o'
  intro h
  cases h with
  | none => exact hx
  | some h => exact h

theorem placeOf_eq {a a'} (ha : KeyedsLink ρ a.toList a'.toList) {x x'}
    (hx : KeyedLink ρ x x') (low high : Nat) : placeOf a x low high = placeOf a' x' low high := by
  fun_induction placeOf a x low high with
  | case1 low high hlt middle ih1 ih2 =>
    rw [hx.lt_eq (getD_link ha middle hx), ih1, ih2]
    conv_rhs => rw [placeOf, dif_pos hlt]
  | case2 low high hge => rw [placeOf, dif_neg hge]

theorem insertAt_link {a a' : Array Keyed} (ha : KeyedsLink ρ a.toList a'.toList) {x x'}
    (hx : KeyedLink ρ x x') (i : Nat) :
    KeyedsLink ρ (a.toList.take i ++ x :: a.toList.drop i).toArray.toList
      (a'.toList.take i ++ x' :: a'.toList.drop i).toArray.toList :=
  rel_append (forall₂_take i ha) (.cons hx (forall₂_drop i ha))

theorem sortKeyed_link (hx : KeyedsLink ρ xs xs') : OutcomeLink (KeyedsLink ρ) (sortKeyed xs) (sortKeyed xs') := by
  refine (firstRun_link hx).bind fun p p' hp => ?_
  refine .bind (R := fun a a' => KeyedsLink ρ a.toList a'.toList)
    (.foldlM (fun a a' x x' ha hx => ?_) hp.2 hp.1) fun a a' ha => .ok ha
  have hsize : a.size = a'.size := by simpa only [length_toList] using ha.length_eq
  rw [placeOf_eq ha hx, hsize]
  cases placeOf a' x' 0 a'.size with
  | error e => exact .error e
  | ok i => exact .ok (insertAt_link ha hx i)

theorem extremum_link (which : String) (op : OrderOp) (hx : KeyedsLink ρ xs xs') :
    OutcomeLink (KeyedLink ρ) (extremum which op (·.1) xs) (extremum which op (·.1) xs') := by
  cases hx with
  | nil => exact .error _
  | cons h hs =>
    refine .foldlM (fun best best' x x' hb hx => ?_) hs h
    simp only [hb.1, hx.1]
    refine .decide _ fun c => ?_
    split
    · exact .ok hx
    · exact .ok hb

end SmallScript.Library
