import Mathlib.Data.List.Basic
import SmallScript.Text.Letter
import SmallScript.Text.Digit

/-!
# Letters and digits

The tables of letters and digits are lists of intervals in ascending order. `apart` walks through two such
lists at once, so that it takes one step for each interval to see that no two of them meet. By it letters are no
digits, `isDigit_of_isLetter`.
-/

namespace SmallScript.Text

open Nat Bool

/-! ## Ascending intervals -/

/-- No interval is empty, and each ends before the next one begins. -/
def ascending : List Interval → Bool
  | [] => true
  | [i] => Nat.ble i.1 i.2
  | i :: j :: is => Nat.ble i.1 i.2 && Nat.blt i.2 j.1 && ascending (j :: is)

/-- No interval of the one list meets one of the other. The number bounds the steps. -/
def apart : Nat → List Interval → List Interval → Bool
  | 0, _, _ => false
  | _ + 1, [], _ => true
  | _ + 1, _, [] => true
  | n + 1, i :: is, j :: js =>
    match Nat.blt i.2 j.1, Nat.blt j.2 i.1 with
    | true, _ => apart n is (j :: js)
    | false, true => apart n (i :: is) js
    | false, false => false

theorem ascending_cons {i is} (h : ascending (i :: is) = true) :
    i.1 ≤ i.2 ∧ ascending is = true ∧ ∀ j ∈ is, i.2 < j.1 := by
  induction is generalizing i with
  | nil => exact ⟨le_of_ble_eq_true h, rfl, fun _ hj => absurd hj List.not_mem_nil⟩
  | cons k is ih =>
    unfold ascending at h
    rw [and_eq_true, and_eq_true, ble_eq, blt_eq] at h
    obtain ⟨⟨hle, hlt⟩, hrest⟩ := h
    obtain ⟨hk, -, hafter⟩ := ih hrest
    refine ⟨hle, hrest, fun j hj => ?_⟩
    rcases List.mem_cons.1 hj with rfl | hj
    · exact hlt
    · have := hafter j hj
      omega

theorem apart_sound {n is js} (h : apart n is js = true) (hi : ascending is = true)
    (hj : ascending js = true) {i j} (him : i ∈ is) (hjm : j ∈ js) : i.2 < j.1 ∨ j.2 < i.1 := by
  induction n generalizing is js with
  | zero => cases h
  | succ n ih =>
    cases is with
    | nil => cases him
    | cons i' is =>
      cases js with
      | nil => cases hjm
      | cons j' js =>
        obtain ⟨hile, his, hiafter⟩ := ascending_cons hi
        obtain ⟨hjle, hjs, hjafter⟩ := ascending_cons hj
        unfold apart at h
        split at h
        · next hlt =>
          rw [blt_eq] at hlt
          rcases List.mem_cons.1 him with rfl | him
          · -- the first interval ends before the whole other list
            left
            rcases List.mem_cons.1 hjm with rfl | hjm
            · exact hlt
            · have := hjafter j hjm
              omega
          · exact ih h his hj him hjm
        · next hlt =>
          rw [blt_eq] at hlt
          rcases List.mem_cons.1 hjm with rfl | hjm
          · right
            rcases List.mem_cons.1 him with rfl | him
            · exact hlt
            · have := hiafter i him
              omega
          · exact ih h hi hjs him hjm
        · cases h

/-! ## The tables -/

/-- The decimal digits of each script as an interval. -/
def decimalIntervals : List Interval := decimalZeros.map fun z => (z, z + 9)

theorem letters_ascending : ascending letterIntervals = true := by decide +kernel

theorem decimals_ascending : ascending decimalIntervals = true := by decide

theorem typographic_ascending : ascending typographicDigits = true := by decide

theorem letters_apart_decimals : apart 1000 letterIntervals decimalIntervals = true := by decide +kernel

theorem letters_apart_typographic : apart 1000 letterIntervals typographicDigits = true := by decide +kernel

theorem memIntervals_iff {table code} : memIntervals table code = true ↔ ∃ i ∈ table, i.1 ≤ code ∧ code ≤ i.2 := by
  simp [memIntervals]

theorem exists_zero_of_isDecimalDigit {c} (h : isDecimalDigit c = true) :
    ∃ z ∈ decimalZeros, z ≤ c.toNat ∧ c.toNat < z + 10 := by
  unfold isDecimalDigit decimalValue? at h
  rw [Option.isSome_map, List.find?_isSome] at h
  obtain ⟨z, hz, hle⟩ := h
  rw [and_eq_true, decide_eq_true_eq, decide_eq_true_eq] at hle
  exact ⟨z, hz, hle⟩

/-! ## Letters are no digits -/

/-- Two intervals that share a code point are not apart. -/
theorem not_apart {i j : Interval} {code} (h : i.2 < j.1 ∨ j.2 < i.1) (hi : i.1 ≤ code ∧ code ≤ i.2)
    (hj : j.1 ≤ code ∧ code ≤ j.2) : False := by
  omega

theorem isDigit_of_isLetter {c} (h : isLetter c = true) : isDigit c = false := by
  unfold isLetter at h
  unfold isDigit
  split at h
  · next hc =>
    rw [if_pos hc]
    -- the digits come before all letters
    have h65 : 65 ≤ c.val := by
      rcases or_eq_true_iff.1 h with h | h
      · exact (of_decide_eq_true h).1
      · exact UInt32.le_trans (by decide) (of_decide_eq_true (and_eq_true_iff.1 h).1)
    have h57 : ¬ c.val ≤ 57 := fun hle => absurd (UInt32.le_trans h65 hle) (by decide)
    exact and_eq_false_iff.2 (.inr (decide_eq_false h57))
  · next hc =>
    rw [if_neg hc]
    obtain ⟨i, hi, hcode⟩ := memIntervals_iff.1 h
    rw [or_eq_false_iff, eq_false_iff, eq_false_iff]
    constructor
    · intro hd
      obtain ⟨z, hz, hle, hlt⟩ := exists_zero_of_isDecimalDigit hd
      have hz : (z, z + 9) ∈ decimalIntervals := List.mem_map.2 ⟨z, hz, rfl⟩
      have hapart := apart_sound letters_apart_decimals letters_ascending decimals_ascending hi hz
      exact not_apart hapart hcode ⟨hle, le_of_lt_succ hlt⟩
    · intro hd
      obtain ⟨j, hj, hcode'⟩ := memIntervals_iff.1 hd
      have hapart := apart_sound letters_apart_typographic letters_ascending typographic_ascending hi hj
      exact not_apart hapart hcode hcode'

theorem isDigit_of_isDecimalDigit {c} (h : isDecimalDigit c = true) : isDigit c = true := by
  unfold isDigit
  split
  · next hc =>
    have hfirst : ∀ z ∈ decimalZeros, z < 128 → z = 48 := by decide
    obtain ⟨z, hz, hle, hlt⟩ := exists_zero_of_isDecimalDigit h
    have hz48 := hfirst z hz (by omega)
    rw [hz48] at hle hlt
    rw [Char.isDigit, and_eq_true, decide_eq_true_eq, decide_eq_true_eq]
    exact ⟨hle, le_of_lt_succ hlt⟩
  · rw [h]
    rfl

end SmallScript.Text
