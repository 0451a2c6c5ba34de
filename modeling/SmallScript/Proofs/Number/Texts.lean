import Mathlib.Data.Bool.AllAny
import Mathlib.Data.List.Basic
import SmallScript.Number.Basic

/-!
# The texts of numbers

Integers and floats are written in digits, signs and a few letters. An integer is told by its text, `plainIntText_inj`,
also from a float, which has a point, an exponent or a letter: `text_inj`.
-/

namespace SmallScript

theorem exists_of_bind_ok {ε α β : Type} {x : Except ε α} {f} {b : β} (h : (x >>= f) = .ok b) :
    ∃ a, x = .ok a ∧ f a = .ok b := by
  cases x with
  | error e => cases h
  | ok a => exact ⟨a, rfl, h⟩

namespace Number

open List String

/-- Integers and floats. -/
def Numeric.Plain : Numeric → Prop
  | .int _ | .float _ => True
  | _ => False

theorem isDigit_of_mem_digitsOf {k c} (h : c ∈ digitsOf k) : c.isDigit = true :=
  Nat.isDigit_of_mem_toDigits (by decide) (by decide) h

theorem digitsOf_ne_nil (k : Nat) : digitsOf k ≠ [] := Nat.toDigits_ne_nil

/-- The characters of numbers. -/
def IsNumeral (c : Char) : Prop := c.isDigit = true ∨ c ∈ ['-', '+', '.', 'e', 'i', 'n', 'f', 'a']

instance : DecidablePred IsNumeral := fun _ => inferInstanceAs (Decidable (_ ∨ _))

theorem positive_chars (style : DecimalStyle) (m : Nat) (place : Int) :
    (∀ c ∈ style.positive m place, IsNumeral c) ∧ ∃ c ∈ style.positive m place, c ∈ ['.', 'e', 'n'] := by
  have hdigits : ∀ n, ∀ c ∈ digitsOf n, IsNumeral c := fun n c hc => .inl (isDigit_of_mem_digitsOf hc)
  have hzeros : ∀ k, ∀ c ∈ List.replicate k '0', IsNumeral c := by
    intro k c hc
    rw [eq_of_mem_replicate hc]
    exact .inl (by decide)
  have hpoint : IsNumeral '.' := .inr (by decide)
  have hfirst : ∀ k, ∀ c ∈ (digitsOf m).take k, IsNumeral c := fun k c hc => hdigits m c (mem_of_mem_take hc)
  have hothers : ∀ k, ∀ c ∈ (digitsOf m).drop k, IsNumeral c := fun k c hc => hdigits m c (mem_of_mem_drop hc)
  unfold DecimalStyle.positive
  simp only
  split
  · split
    · refine ⟨?_, '.', by simp⟩
      simp only [forall_mem_append]
      exact ⟨⟨hdigits m, hzeros _⟩, all_iff_forall_prop.1 (by decide)⟩
    · split
      · refine ⟨?_, '.', by simp⟩
        simp only [forall_mem_append, forall_mem_cons]
        exact ⟨hfirst _, hpoint, hothers _⟩
      · refine ⟨?_, '.', by simp⟩
        simp only [forall_mem_append, forall_mem_cons]
        exact ⟨⟨.inl (by decide), hpoint, hzeros _⟩, hdigits m⟩
  · refine ⟨?_, 'e', by simp⟩
    simp only [forall_mem_append, forall_mem_cons]
    refine ⟨⟨hfirst 1, ?_⟩, .inr (by decide), ?_, ?_⟩
    · split
      · exact forall_mem_nil _
      · exact forall_mem_cons.2 ⟨hpoint, hothers 1⟩
    · split <;> exact .inr (by decide)
    · split
      · exact forall_mem_cons.2 ⟨.inl (by decide), hdigits _⟩
      · exact hdigits _

/-- A float has a point, an exponent or a letter. -/
theorem floatText_chars (x : Float) :
    (∀ c ∈ (floatText x).toList, IsNumeral c) ∧ ∃ c ∈ (floatText x).toList, c ∈ ['.', 'e', 'n'] := by
  have hsigned : ∀ {b : Bool} {t : String}, ((∀ c ∈ t.toList, IsNumeral c) ∧ ∃ c ∈ t.toList, c ∈ ['.', 'e', 'n']) →
      (∀ c ∈ (if b then "-" ++ t else t).toList, IsNumeral c) ∧
        ∃ c ∈ (if b then "-" ++ t else t).toList, c ∈ ['.', 'e', 'n'] := by
    rintro (_ | _) t ⟨hall, c, hmem, hc⟩
    · exact ⟨hall, c, hmem, hc⟩
    · refine ⟨?_, c, ?_, hc⟩
      · rw [if_pos rfl, toList_append, forall_mem_append]
        exact ⟨all_iff_forall_prop.1 (by decide), hall⟩
      · rw [if_pos rfl, toList_append]
        exact mem_append_right _ hmem
  unfold floatText DecimalStyle.render
  cases Binary64.ofFloat x with
  | nan => exact ⟨all_iff_forall_prop.1 (by decide), 'n', by decide, by decide⟩
  | infinite neg =>
    apply hsigned
    exact ⟨all_iff_forall_prop.1 (by decide), 'n', by decide, by decide⟩
  | finite neg mant exp =>
    apply hsigned
    split
    · exact ⟨all_iff_forall_prop.1 (by decide), '.', by decide, by decide⟩
    · rw [toList_ofList]
      exact positive_chars ..

theorem plainIntText_chars (n : Int) :
    (∀ c ∈ (plainIntText n).toList, c.isDigit = true ∨ c = '-') ∧ (plainIntText n).toList ≠ [] := by
  have hdigits : ∀ c ∈ digitsOf n.natAbs, c.isDigit = true ∨ c = '-' := fun c hc => .inl (isDigit_of_mem_digitsOf hc)
  rw [plainIntText, toList_append, toList_ofList]
  refine ⟨?_, append_ne_nil_of_right_ne_nil _ (digitsOf_ne_nil _)⟩
  rw [forall_mem_append]
  refine ⟨?_, hdigits⟩
  split <;> simp

theorem plainIntText_inj {n m} (h : plainIntText n = plainIntText m) : n = m := by
  have hminus : ∀ k, '-' ∉ digitsOf k := fun k hk => absurd (isDigit_of_mem_digitsOf hk) (by decide)
  have habs : ∀ {i j}, digitsOf i = digitsOf j → i = j := by
    intro i j hij
    rw [← @Nat.ofDigitChars_ten_toDigits i, ← digitsOf, hij, digitsOf, Nat.ofDigitChars_ten_toDigits]
  replace h := congrArg toList h
  simp only [plainIntText, toList_append, toList_ofList] at h
  by_cases hn : n < 0 <;> by_cases hm : m < 0
  · rw [if_pos hn, if_pos hm] at h
    have := habs (append_cancel_left h)
    omega
  · rw [if_pos hn, if_neg hm] at h
    replace h : '-' :: digitsOf n.natAbs = digitsOf m.natAbs := h
    exact absurd (h ▸ (.head _)) (hminus m.natAbs)
  · rw [if_neg hn, if_pos hm] at h
    replace h : digitsOf n.natAbs = '-' :: digitsOf m.natAbs := h
    exact absurd (h ▸ (.head _)) (hminus n.natAbs)
  · rw [if_neg hn, if_neg hm] at h
    have := habs h
    omega

/-- Floats with one text are one float. -/
def FloatsTold (xs ys : List Numeric) : Prop :=
  ∀ a b : Float, .float a ∈ xs → .float b ∈ ys → floatText a = floatText b → a = b

/-- The text of an integer, if it has one, has all its digits. -/
theorem text_int {n t} (ht : (Numeric.int n).text = .ok t) : t = plainIntText n := by
  rw [Numeric.text] at ht
  cases htext : intText? n with
  | none =>
    rw [htext] at ht
    cases ht
  | some u =>
    rw [htext] at ht
    cases ht
    unfold intText? at htext
    split at htext
    · cases htext
    · split at htext
      · cases htext
      · exact (Option.some.inj htext).symm

theorem isNumeral_text {x : Numeric} {t} (hx : x.Plain) (ht : x.text = .ok t) :
    t.toList ≠ [] ∧ ∀ c ∈ t.toList, IsNumeral c := by
  cases x with
  | int n =>
    rw [text_int ht]
    refine ⟨(plainIntText_chars n).2, fun c hc => ?_⟩
    rcases (plainIntText_chars n).1 c hc with hdigit | rfl
    · exact .inl hdigit
    · exact .inr (by decide)
  | float x =>
    cases ht
    obtain ⟨hall, c, hc, -⟩ := floatText_chars x
    exact ⟨ne_nil_of_mem hc, hall⟩
  | _ => exact hx.elim

theorem plainIntText_ne_floatText (n : Int) (x : Float) : plainIntText n ≠ floatText x := by
  intro h
  obtain ⟨-, c, hmem, hc⟩ := floatText_chars x
  rw [← h] at hmem
  simp only [mem_cons, not_mem_nil, or_false] at hc
  rcases (plainIntText_chars n).1 c hmem with hdigit | rfl
  · rcases hc with rfl | rfl | rfl <;> simp at hdigit
  · simp at hc

/-- Integers are told by their texts, also from floats. -/
theorem text_inj {x y t} (hx : x.Plain) (hy : y.Plain) (ht : x.text = .ok t) (ht' : y.text = .ok t)
    (hfloats : FloatsTold [x] [y]) : x = y := by
  cases x with
  | int n =>
    cases y with
    | int m => rw [plainIntText_inj ((text_int ht).symm.trans (text_int ht'))]
    | float b =>
      cases ht'
      exact absurd (text_int ht).symm (plainIntText_ne_floatText n b)
    | _ => exact hy.elim
  | float a =>
    cases ht
    cases y with
    | int m => exact absurd (text_int ht').symm (plainIntText_ne_floatText m a)
    | float b => rw [hfloats a b (by simp) (by simp) (Except.ok.inj ht').symm]
    | _ => exact hy.elim
  | _ => exact hx.elim

end Number

end SmallScript
