import SmallScript.Proofs.Session.Sandbox
import Mathlib.Data.List.Infix

/-!
# Splitting, joining, replacing and searching

All four functions on strings follow the search that `pieces` makes: it goes through the text from the left and cuts where
the separator begins. `pieces_induct` is the induction along this search, and the laws between the functions come of it:
`split_join_replace_contains`.
-/

namespace SmallScript.Text

open List

variable {sep cs rest between p : List Char} {ps : List (List Char)}

theorem dropFront?_eq_some_iff : dropFront? sep cs = some rest ↔ cs = sep ++ rest := by
  unfold dropFront?
  split
  · next h =>
    obtain ⟨t, rfl⟩ := isPrefixOf_iff_prefix.1 h
    simp [eq_comm]
  · next h =>
    refine iff_of_false nofun fun heq => h ?_
    rw [heq, isPrefixOf_iff_prefix]
    exact prefix_append sep rest

theorem dropFront?_eq_none_iff : dropFront? sep cs = none ↔ ¬ sep <+: cs := by
  rw [← isPrefixOf_iff_prefix, dropFront?, Bool.not_eq_true, ← Bool.not_eq_true]
  simp

/-- Induction along the search for a separator: it ends, finds the separator, or goes on by a character. -/
theorem pieces_induct {P : List Char → List Char → List (List Char) → Prop} (hsep : sep ≠ [])
    (nil : P [] [] []) (found : ∀ {rest p ps}, P rest p ps → P (sep ++ rest) [] (p :: ps))
    (skip : ∀ {c cs p ps}, ¬ sep <+: c :: cs → P cs p ps → P (c :: cs) (c :: p) ps) (cs : List Char) :
    ∃ p ps, pieces sep cs = p :: ps ∧ P cs p ps := by
  -- the bound on the steps is above the length of what is left
  have within fuel : ∀ cs, cs.length < fuel → ∃ p ps, piecesWithin fuel sep cs = p :: ps ∧ P cs p ps := by
    induction fuel with
    | zero => exact fun _ hlt => absurd hlt (Nat.not_lt_zero _)
    | succ fuel ih =>
      intro cs hlt
      cases cs with
      | nil => exact ⟨[], [], rfl, nil⟩
      | cons c cs =>
        rw [length_cons] at hlt
        rw [piecesWithin]
        cases hdrop : dropFront? sep (c :: cs) with
        | some rest =>
          have hcs := dropFront?_eq_some_iff.1 hdrop
          have hlength := congrArg length hcs
          have hpos := length_pos_iff.2 hsep
          rw [length_cons, length_append] at hlength
          obtain ⟨p, ps, hps, hP⟩ := ih rest (by omega)
          exact ⟨[], p :: ps, by simp only [hps], hcs ▸ found hP⟩
        | none =>
          obtain ⟨p, ps, hps, hP⟩ := ih cs (by omega)
          exact ⟨c :: p, ps, by simp only [hps], skip (dropFront?_eq_none_iff.1 hdrop) hP⟩
  exact within _ cs (Nat.lt_succ_self _)

theorem joinPieces_cons (c : Char) : joinPieces between ((c :: p) :: ps) = c :: joinPieces between (p :: ps) := by
  cases ps <;> rfl

theorem prefix_joinPieces : p <+: joinPieces between (p :: ps) := by
  cases ps with
  | nil => exact prefix_rfl
  | cons q qs =>
    rw [joinPieces, append_assoc]
    exact prefix_append _ _
    exact nofun

/-- What cutting gives: the pieces put together are the text, the separator occurs in none of them, and each separator that
was cut out is the first after the one before it. -/
def Cuts (sep cs : List Char) (ps : List (List Char)) : Prop :=
  joinPieces sep ps = cs ∧ (∀ p ∈ ps, ¬ sep <:+: p) ∧ ∀ p ∈ ps.dropLast, ¬ sep <:+: (p ++ sep).dropLast

theorem cuts_pieces (hsep : sep ≠ []) (cs : List Char) : Cuts sep cs (pieces sep cs) := by
  have hnil : ¬ sep <:+: [] := fun h => hsep (infix_nil.1 h)
  have hcuts : ∃ p ps, pieces sep cs = p :: ps ∧ Cuts sep cs (p :: ps) := by
    refine pieces_induct (P := fun cs p ps => Cuts sep cs (p :: ps)) hsep
      ⟨rfl, forall_mem_singleton.2 hnil, nofun⟩ ?_ ?_ cs
    · rintro rest p ps ⟨rfl, hall, hfirst⟩
      refine ⟨rfl, forall_mem_cons.2 ⟨hnil, hall⟩, forall_mem_cons.2 ⟨fun h => ?_, hfirst⟩⟩
      have hlength := h.length_le
      have hpos := length_pos_iff.2 hsep
      simp only [nil_append, length_dropLast] at hlength
      omega
    · rintro c cs p ps hno ⟨rfl, hall, hfirst⟩
      -- a separator in what is read begins the text, or lies in what was read before
      have hlater {q : List Char} (hq : q <+: joinPieces sep (p :: ps)) (h : sep <:+: c :: q) : sep <:+: q :=
        (infix_cons_iff.1 h).resolve_left fun hfront => hno (hfront.trans ((prefix_cons_inj c).2 hq))
      rw [forall_mem_cons] at hall
      refine ⟨joinPieces_cons c, forall_mem_cons.2 ⟨fun h => hall.1 (hlater prefix_joinPieces h), hall.2⟩, ?_⟩
      cases ps with
      | nil => exact nofun
      | cons q qs =>
        rw [dropLast_cons_cons, forall_mem_cons] at hfirst ⊢
        refine ⟨fun h => hfirst.1 (hlater (( dropLast_prefix _).trans (prefix_append _ _)) ?_), hfirst.2⟩
        rwa [cons_append, dropLast_cons_of_ne_nil (append_ne_nil_of_right_ne_nil p hsep)] at h
  obtain ⟨p, ps, hps, h⟩ := hcuts
  rwa [hps]

theorem occursIn_iff_pieces (hsep : sep ≠ []) (cs : List Char) : occursIn sep cs = true ↔ 2 ≤ (pieces sep cs).length := by
  have hmore : ∃ p ps, pieces sep cs = p :: ps ∧ (occursIn sep cs = true ↔ ps ≠ []) := by
    refine pieces_induct (P := fun cs _ ps => occursIn sep cs = true ↔ ps ≠ []) hsep (by simp [occursIn, hsep]) (fun _ => iff_of_true ?_ (cons_ne_nil _ _)) (fun hno ih => ?_) cs
    · obtain ⟨c, cs, rfl⟩ := exists_cons_of_ne_nil hsep
      rw [cons_append, occursIn, Bool.or_eq_true, isPrefixOf_iff_prefix]
      exact .inl (prefix_append (c :: cs) _)
    · rw [occursIn, Bool.or_eq_true, isPrefixOf_iff_prefix, or_iff_right hno, ih]
  obtain ⟨p, ps, hps, h⟩ := hmore
  rw [h, hps, length_cons, ← length_pos_iff]
  omega

end SmallScript.Text

namespace SmallScript.Library

open Machine List
open Value (ScopeRef)
open Syntax (Pos)
open Text

/-- Splitting a string gives an array of strings. Joined with the separator they are the string again, none of them
contains the separator, each place it was cut out of is the first possible, joined with another string they are what
replacing gives, and the string contains the separator just if there are two of them. -/
theorem split_join_replace_contains (s t r : String) (ht : t ≠ "") (scope : ScopeRef) (pos : Pos) (m : Machine) :
    ∃ (ref : Nat) (ps : List String) (replaced : String) (m' : Machine),
      call .splitString [.str s, .str t] scope pos m = (.ok (.array ref), m') ∧
      m'.heap.elements ref = (ps.map Value.str).toArray ∧
      call .joinStrings [.array ref, .str t] scope pos m' = (.ok (.str s), m') ∧
      (∀ p ∈ ps, ¬ t.toList <:+: p.toList) ∧
      (∀ p ∈ ps.dropLast, ¬ t.toList <:+: (p ++ t).toList.dropLast) ∧
      call .replaceString [.str s, .str t, .str r] scope pos m' = (.ok (.str replaced), m') ∧
      call .joinStrings [.array ref, .str r] scope pos m' = (.ok (.str replaced), m') ∧
      call .stringContains [.str s, .str t] scope pos m' = (.ok (.bool (decide (2 ≤ ps.length))), m') := by
  have hsep : t.toList ≠ [] := fun h => ht (String.toList_eq_nil_iff.1 h)
  have hempty : t.isEmpty = false := by simpa [String.isEmpty_iff] using ht
  obtain ⟨hjoin, hpieces, hfirst⟩ := cuts_pieces hsep s.toList
  let ps := (pieces t.toList s.toList).map String.ofList
  let m' := { m with heap := (m.heap.newArray (ps.map Value.str).toArray).2 }
  have helements : m'.heap.elements m.heap.arrays.size = (ps.map Value.str).toArray := by
    simp [m', Heap.newArray, Heap.elements]
  have htexts u : call .joinStrings [.array m.heap.arrays.size, .str u] scope pos m' =
      (.ok (.str (String.ofList (joinPieces u.toList (pieces t.toList s.toList)))), m') := by
    have hstr : ((m'.heap.elements m.heap.arrays.size).toList.mapM Value.str?) = some ps := by
      rw [helements, mapM_map]
      exact mapM_pure (m := Option) (f := id) |>.trans (by simp)
    have hlists : ps.map (·.toList) = pieces t.toList s.toList := by simp [ps, Function.comp_def]
    have hrun : call .joinStrings [.array m.heap.arrays.size, .str u] scope pos m' = _ :=
      (Action.bind_of_ok rfl _).trans <| (Action.bind_of_ok rfl _).trans <| (Action.bind_of_ok rfl _).trans <| Action.bind_of_ok rfl _
    simp only [hrun, hstr, hlists]
    rfl
  refine ⟨m.heap.arrays.size, ps, _, m', ?_, helements, ?_, ?_, ?_, ?_, htexts r, ?_⟩
  · change (if t.isEmpty then Action.fail (.lookup .emptySeparator) else
      Action.array ((pieces t.toList s.toList).map fun p => .str (String.ofList p))) m = _
    rw [if_neg (by simp [hempty])]
    simp [m', ps, Action.array, Function.comp_def]
    rfl
  · rw [htexts, hjoin, String.ofList_toList]
  · intro p hp
    obtain ⟨q, hq, rfl⟩ := List.mem_map.1 hp
    rw [String.toList_ofList]
    exact hpieces q hq
  · intro p hp
    rw [← map_dropLast] at hp
    obtain ⟨q, hq, rfl⟩ := List.mem_map.1 hp
    rw [String.toList_append, String.toList_ofList]
    exact hfirst q hq
  · change (pure (.str (String.ofList (replaceAll s.toList t.toList r.toList))) : Action Value) m' = _
    rw [replaceAll, if_neg (by simp [hsep])]
    rfl
  · change (pure (.bool (occursIn t.toList s.toList)) : Action Value) m' = _
    have hcount : occursIn t.toList s.toList = decide (2 ≤ ps.length) := by
      rw [Bool.eq_iff_iff, occursIn_iff_pieces hsep, length_map, decide_eq_true_iff]
    rw [hcount]
    rfl

theorem split_join_replace_contains_overlapping : "aa" ≠ "" ∧ ∃ (ref : Nat) (m' : Machine),
    call .splitString [.str "aaa", .str "aa"] 0 .zero Session.plainMachine = (.ok (.array ref), m') ∧
    call .joinStrings [.array ref, .str "aa"] 0 .zero m' = (.ok (.str "aaa"), m') := by
  obtain ⟨ref, ps, replaced, m', hsplit, -, hjoin, -⟩ :=
    split_join_replace_contains "aaa" "aa" "b" (by decide) 0 .zero Session.plainMachine
  exact ⟨by decide, ref, m', hsplit, hjoin⟩

end SmallScript.Library
