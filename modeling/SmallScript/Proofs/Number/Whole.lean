import Mathlib
import SmallScript.Number.Arith

/-!
# The values of numbers

Numbers of all kinds are equal if their parts have the same values, `Numeric.eq_iff`; so equality is symmetric and transitive.
An integer of at most 53 binary digits is the value of a float, `ofFloat?_floatOfParts`, and all numbers that are equal to one
integer are equal to each other, `Numeric.IsWhole.eq`: integers, truth values and floats.

A float is looked at as its sign, its significand and its exponent, `unpack_eq`, which `Binary64.ofFloat` reads from
its bits: `Binary64.ofFloat_eq`.
-/

namespace SmallScript.Number

open Float.Model Float.Model.UnpackedFloat

variable {k : Int} {x : Float} {m' : Nat}

variable {m : Nat} {e : Int}

theorem twoPow_eq (k : Nat) : twoPow k = 2 ^ k := Nat.one_shiftLeft k

/-! ## The parts of a float -/

/-- The sign is a minus. -/
def isNegative : Sign → Bool
  | .negative => true
  | .positive => false

/-- What the parts of a float stand for. -/
def Binary64.ofUnpacked : UnpackedFloat → Binary64
  | .notANumber => .nan
  | .infinity s => .infinite (isNegative s)
  | .zero s => .finite (isNegative s) 0 (-1074)
  | .finite s m e _ => .finite (isNegative s) m e

theorem Binary64.ofUnpacked_finite (s : Sign) (m : Nat) (e : Int) (h : 0 < m) :
    ofUnpacked (.finite s m e h) = .finite (isNegative s) m e := rfl

theorem unpackMantissa_toNat (b : BitVec 64) : (@unpackMantissa .binary64 b).toNat = b.toNat % 2 ^ 52 := by
  simp [unpackMantissa]

theorem unpackExponent_toNat (b : BitVec 64) : (@unpackExponent .binary64 b).toNat = b.toNat / 2 ^ 52 % 2048 := by
  simp [unpackExponent, Nat.shiftRight_eq_div_pow]

theorem unpackSign_toNat (b : BitVec 64) : (@unpackSign .binary64 b).toNat = b.toNat / 2 ^ 63 := by
  have hbits : (@unpackSign .binary64 b).toNat = (b.extractLsb 63 63).toNat := rfl
  rw [hbits, BitVec.extractLsb_toNat, Nat.shiftRight_eq_div_pow]
  exact Nat.mod_eq_of_lt (by omega)

theorem isNegative_ofBitVec (b : BitVec 64) :
    isNegative (Sign.ofBitVec (@unpackSign .binary64 b)) = decide (2 ^ 63 ≤ b.toNat) := by
  have hsign := unpackSign_toNat b
  unfold Sign.ofBitVec
  split
  · next h =>
    have hzero : b.toNat / 2 ^ 63 = 0 := by
      rw [← hsign, h]
      rfl
    exact (decide_eq_false (by omega)).symm
  · next h =>
    have hzero : b.toNat / 2 ^ 63 ≠ 0 := by
      rw [← hsign]
      exact fun h0 => h (BitVec.eq_of_toNat_eq h0)
    exact (decide_eq_true (by omega)).symm

theorem toNat_one_append (v : BitVec 52) : (1#1 ++ v).toNat = 2 ^ 52 + v.toNat := by
  rw [BitVec.toNat_append, ← Nat.shiftLeft_add_eq_or_of_lt v.isLt]
  rfl

theorem finite_eq {s e'} (hm : m = m') (he : e = e') (h : 0 < m) (h' : 0 < m') :
    UnpackedFloat.finite s m e h = .finite s m' e' h' := by
  subst hm he
  rfl

/-- The float that a word stands for, by its sign, exponent and fraction. -/
theorem unpack_eq (b : BitVec 64) : UnpackedFloat.unpack .binary64 b = let s := .ofBitVec (@unpackSign .binary64 b)
    let e : Nat := b.toNat / 2 ^ 52 % 2048
    let f : Nat := b.toNat % 2 ^ 52
    if e = 2047 then if f = 0 then .infinity s else .notANumber
    else if e = 0 then if h : f = 0 then .zero s else .finite s f (-1074) (pos_of_ne_zero h)
    else .finite s (2 ^ 52 + f) ((e : Int) - 1075) (by omega) := by
  have hm := unpackMantissa_toNat b
  have he := unpackExponent_toNat b
  have happend := toNat_one_append (@unpackMantissa .binary64 b)
  have hmax : (@unpackExponent .binary64 b = -1#11) ↔ b.toNat / 2 ^ 52 % 2048 = 2047 := by
    rw [← BitVec.toNat_inj, he]
    rfl
  have hzero : (@unpackExponent .binary64 b = 0#11) ↔ b.toNat / 2 ^ 52 % 2048 = 0 := by
    rw [← BitVec.toNat_inj, he]
    rfl
  have hnone : (@unpackMantissa .binary64 b = 0#52) ↔ b.toNat % 2 ^ 52 = 0 := by
    rw [← BitVec.toNat_inj]
    rfl
  have hexponent : ((@unpackExponent .binary64 b).toNat : Int) - 1075 = (b.toNat / 2 ^ 52 % 2048 : Nat) - 1075 := by
    rw [he]
  unfold UnpackedFloat.unpack
  simp only [hmax, hzero, hnone]
  split
  · rfl
  · split
    · next h0 =>
      split
      · rfl
      · refine finite_eq hm (.trans (congrArg (· + 1) hexponent) ?_) _ _
        rw [h0]
        rfl
    · exact finite_eq (happend.trans (by rw [hm])) hexponent _ _

theorem Binary64.ofFloat_eq (x : Float) : Binary64.ofFloat x = .ofUnpacked x.toModel.unpack := by
  have hb : x.toBits.toNat = x.toModel.toBits.toBitVec.toNat := rfl
  have hs := isNegative_ofBitVec x.toModel.toBits.toBitVec
  unfold ofFloat Float.Model.unpack
  simp only [hb, twoPow_eq, ← hs]
  rw [unpack_eq]
  dsimp only
  -- both sides ask the same questions
  split
  · split <;> rfl
  · split
    · split
      · next hf =>
        rw [hf]
        rfl
      · rfl
    · rfl

/-- A significand of 53 binary digits with an exponent that a float can have. -/
structure Normal (m : Nat) (e : Int) : Prop where
  lower : 2 ^ 52 ≤ m
  upper : m < 2 ^ 53
  least : -1074 ≤ e
  greatest : e ≤ 971

/-- A finite float is normal or has the least exponent. -/
theorem normal_or_least {s h} (hx : x.toModel.unpack = .finite s m e h) : Normal m e ∨ (m < 2 ^ 52 ∧ e = -1074) := by
  unfold Float.Model.unpack at hx
  rw [unpack_eq] at hx
  dsimp only at hx
  repeat' split at hx
  all_goals cases hx
  · exact .inr ⟨Nat.mod_lt _ (by decide), rfl⟩
  · exact .inl ⟨by omega, by omega, by omega, by omega⟩

theorem packComponents_toNat (s : Sign) (e : BitVec 11) (m : BitVec 52) :
    (packComponents .binary64 s e m).toNat = (s.toBitVec.toNat * 2 ^ 11 + e.toNat) * 2 ^ 52 + m.toNat := by
  have happend : ∀ {v w : Nat} (a : BitVec v) (b : BitVec w), (a ++ b).toNat = a.toNat * 2 ^ w + b.toNat := by
    intro v w a b
    rw [BitVec.toNat_append, ← Nat.shiftLeft_add_eq_or_of_lt b.isLt, Nat.shiftLeft_eq]
  exact (happend (s.toBitVec ++ e) m).trans (by rw [happend s.toBitVec e])

section

variable (s : Sign) {m : Nat} {e : Int} (hn : Normal m e) (h : 0 < m)

include hn in
theorem pack_normal : UnpackedFloat.pack .binary64 (.finite s m e h) =
    packComponents .binary64 s (BitVec.ofNat 11 (e + 1075).toNat) (BitVec.ofNat 52 m) := by
  have hlog : m.log2 = 52 := (Nat.log2_eq_iff (by omega)).2 ⟨hn.lower, hn.upper⟩
  have hbiased : (e + Format.binary64.exponentBias + Format.binary64.mantissaBitsWithoutImplicit).toNat =
      (e + 1075).toNat := by
    have hbias : (Format.binary64.exponentBias : Int) = 1023 := rfl
    have hbits : (Format.binary64.mantissaBitsWithoutImplicit : Int) = 52 := rfl
    rw [hbias, hbits]
    omega
  have hbits : 52 + 1 = Format.binary64.mantissaBits := rfl
  have hgreatest := hn.greatest
  unfold UnpackedFloat.pack
  simp only [hlog, hbiased]
  rw [if_neg (by omega), if_pos hbits]

include hn in
theorem pack_normal_toNat : (UnpackedFloat.pack .binary64 (.finite s m e h)).toNat =
    (s.toBitVec.toNat * 2 ^ 11 + (e + 1075).toNat) * 2 ^ 52 + (m - 2 ^ 52) := by
  obtain ⟨hlow, hhigh, hleast, hgreatest⟩ := hn
  have hword := packComponents_toNat s (BitVec.ofNat 11 (e + 1075).toNat) (BitVec.ofNat 52 m)
  rw [BitVec.toNat_ofNat, BitVec.toNat_ofNat, Nat.mod_eq_of_lt (by omega : (e + 1075).toNat < 2 ^ 11),
    Nat.mod_eq_sub_mod hlow, Nat.mod_eq_of_lt (by omega : m - 2 ^ 52 < 2 ^ 52)] at hword
  rw [pack_normal s ⟨hlow, hhigh, hleast, hgreatest⟩ h]
  exact hword

include hn in
theorem unpack_of_toNat {b : BitVec 64}
    (hb : b.toNat = (s.toBitVec.toNat * 2 ^ 11 + (e + 1075).toNat) * 2 ^ 52 + (m - 2 ^ 52)) :
    UnpackedFloat.unpack .binary64 b = .finite s m e h := by
  obtain ⟨hlow, hhigh, hleast, hgreatest⟩ := hn
  have hsign : @unpackSign .binary64 b = s.toBitVec := by
    refine BitVec.eq_of_toNat_eq ?_
    rw [unpackSign_toNat, hb]
    omega
  have he : b.toNat / 2 ^ 52 % 2048 = (e + 1075).toNat := by omega
  have hf : 2 ^ 52 + b.toNat % 2 ^ 52 = m := by omega
  rw [unpack_eq, hsign, Sign.ofBitVec_toBitVec]
  dsimp only
  rw [if_neg (by omega), if_neg (by omega)]
  exact finite_eq hf (by omega) _ _

include hn in
/-- A normal float is packed into a word and back. -/
theorem unpack_pack : (Float.Model.pack (.finite s m e h)).unpack = .finite s m e h :=
  unpack_of_toNat s hn h (pack_normal_toNat s hn h)

end

/-! ## The exact value of a float -/

/-- An exact value: an infinity, or a multiple of the least float above zero. -/
inductive Extended where
  | infinite (negative : Bool)
  | finite (units : Int)

namespace Extended

/-- The value of an integer. -/
def ofInt (k : Int) : Extended := .finite (k * 2 ^ 1074)

theorem ofInt_inj {j} : ofInt j = ofInt k ↔ j = k := by
  refine ⟨fun h => ?_, congrArg ofInt⟩
  exact Int.eq_of_mul_eq_mul_right (Int.pow_ne_zero (by decide)) (finite.inj h)

theorem ofInt_zero : ofInt 0 = .finite 0 := congrArg finite (zero_mul _)

/-- The units of a finite float. -/
def units (s : Sign) (m : Nat) (e : Int) : Int := s.apply (m * 2 ^ (e + 1074).toNat : Nat)

/-- The value of a float, if it is a number. -/
def ofUnpacked? : UnpackedFloat → Option Extended
  | .notANumber => none
  | .infinity s => some (.infinite (isNegative s))
  | .zero _ => some (.finite 0)
  | .finite s m e _ => some (.finite (units s m e))

def ofFloat? (x : Float) : Option Extended := ofUnpacked? x.toModel.unpack

end Extended

theorem apply_inj {s s' : Sign} {m n : Nat} (hm : 0 < m) : s.apply m = s'.apply n ↔ s = s' ∧ m = n := by
  cases s <;> cases s' <;> simp [Sign.apply] <;> omega

/-- A significand with the number of places that it is shifted by is told from its value. -/
theorem shifted_inj {m i j} (h : 2 ^ 52 ≤ m ∨ i = 0) (h' : 2 ^ 52 ≤ m' ∨ j = 0) (hm : m < 2 ^ 53)
    (hm' : m' < 2 ^ 53) (heq : m * 2 ^ i = m' * 2 ^ j) : i = j ∧ m = m' := by
  wlog hij : i ≤ j generalizing m m' i j
  · obtain ⟨rfl, rfl⟩ := this h' h hm' hm heq.symm (Nat.le_of_not_le hij)
    exact ⟨rfl, rfl⟩
  obtain ⟨k, rfl⟩ := Nat.exists_eq_add_of_le hij
  have hk : m = m' * 2 ^ k := by
    rw [pow_add, mul_comm (2 ^ i), ← mul_assoc] at heq
    exact Nat.eq_of_mul_eq_mul_right (Nat.two_pow_pos i) heq
  cases k with
  | zero => exact ⟨rfl, by simpa using hk⟩
  | succ k =>
    have hle : m' * 1 ≤ m' * 2 ^ k := Nat.mul_le_mul_left m' (Nat.two_pow_pos k)
    rw [pow_succ, ← mul_assoc] at hk
    omega

/-- The parts of a finite float are told from its value. -/
theorem Extended.units_inj {y : Float} {s s' e' h h'}
    (hx : x.toModel.unpack = .finite s m e h) (hy : y.toModel.unpack = .finite s' m' e' h') :
    units s m e = units s' m' e' ↔ s = s' ∧ e = e' ∧ m = m' := by
  rw [units, units, apply_inj (mul_pos h (Nat.two_pow_pos _))]
  refine and_congr_right fun _ => ⟨fun heq => ?_, fun heq => by rw [heq.1, heq.2]⟩
  have hn := normal_or_least hx
  have hn' := normal_or_least hy
  have hplaces : 2 ^ 52 ≤ m ∨ (e + 1074).toNat = 0 := hn.imp (·.lower) fun hl => by omega
  have hplaces' : 2 ^ 52 ≤ m' ∨ (e' + 1074).toNat = 0 := hn'.imp (·.lower) fun hl => by omega
  have hm : m < 2 ^ 53 ∧ -1074 ≤ e := hn.elim (fun hn => ⟨hn.upper, hn.least⟩) fun hl => by omega
  have hm' : m' < 2 ^ 53 ∧ -1074 ≤ e' := hn'.elim (fun hn => ⟨hn.upper, hn.least⟩) fun hl => by omega
  have hparts := shifted_inj hplaces hplaces' hm.1 hm'.1 heq
  omega

theorem Extended.units_ne_zero (s : Sign) (e : Int) (h : 0 < m) : units s m e ≠ 0 := by
  have hpos : 0 < m * 2 ^ (e + 1074).toNat := mul_pos h (Nat.two_pow_pos _)
  cases s <;> simp only [units, Sign.apply] <;> omega

section

attribute [local simp] UnpackedFloat.compare Extended.ofUnpacked?

/-- Floats are equal if they have the same value. -/
theorem beq_iff {y} : (x == y) = true ↔ ∃ v, Extended.ofFloat? x = some v ∧ Extended.ofFloat? y = some v := by
  show (x.toModel.unpack.compare y.toModel.unpack == some .eq) = true ↔ _
  unfold Extended.ofFloat?
  cases hx : x.toModel.unpack with
  | notANumber => simp
  | infinity s =>
    cases y.toModel.unpack with
    | infinity s' => cases s <;> cases s' <;> simp <;> decide
    | _ => cases s <;> simp
  | zero s =>
    cases y.toModel.unpack with
    | finite s m e h => cases s <;> simp [Extended.units_ne_zero _ e h]
    | infinity s => cases s <;> simp
    | _ => simp
  | finite s m e h =>
    cases hy : y.toModel.unpack with
    | notANumber => cases s <;> simp
    | infinity s' => cases s <;> cases s' <;> simp
    | zero s' => cases s <;> simp [(Extended.units_ne_zero _ e h).symm]
    | finite s' m' e' h' =>
      have hparts := Extended.units_inj hy hx
      cases s <;> cases s' <;> simp [hparts, Ordering.then_eq_eq] <;> omega

end

theorem ratioOf_eq (s : Sign) (m : Nat) (e : Int) :
    ratioOf (isNegative s) m e = (s.apply (m * 2 ^ e.toNat : Nat), 2 ^ (-e).toNat) := by
  unfold ratioOf
  simp only [twoPow_eq]
  by_cases he : 0 ≤ e
  · have hzero : (-e).toNat = 0 := by omega
    rw [if_pos he, hzero]
    cases s <;> simp [isNegative, Sign.apply]
  · have hzero : e.toNat = 0 := by omega
    rw [if_neg he, hzero]
    cases s <;> simp [isNegative, Sign.apply]

/-- A finite float is an integer if the quotient that it is stands for that integer. -/
theorem Extended.units_eq_iff {s} (he : -1074 ≤ e) :
    units s m e = k * 2 ^ 1074 ↔ k * 2 ^ (-e).toNat = s.apply (m * 2 ^ e.toNat : Nat) := by
  have hscale : (2 : Int) ^ 1074 * 2 ^ e.toNat = 2 ^ (-e).toNat * 2 ^ (e + 1074).toNat := by
    rw [← pow_add, ← pow_add]
    congr 1
    omega
  have happly n : s.apply (m * 2 ^ n : Nat) = s.apply m * 2 ^ n := by
    cases s <;> simp [Sign.apply]
  have hne n : (2 : Int) ^ n ≠ 0 := Int.pow_ne_zero (by decide)
  rw [units, happly, happly, ← Int.mul_eq_mul_right_iff (hne e.toNat), mul_assoc k, hscale, ← mul_assoc k,
    mul_right_comm (s.apply m), Int.mul_eq_mul_right_iff (hne _), eq_comm]

theorem compare_ratioOf_iff {s} (he : -1074 ≤ e) :
    some (compare (k * (ratioOf (isNegative s) m e).2) (ratioOf (isNegative s) m e).1) = some .eq ↔
      some (Extended.finite (Extended.units s m e)) = some (.ofInt k) := by
  simp only [ratioOf_eq, Extended.ofInt, Option.some.injEq, compare_eq_iff_eq, Extended.finite.injEq,
    Extended.units_eq_iff he]
  norm_cast

theorem compareIntFloat_iff : compareIntFloat k x = some .eq ↔ Extended.ofFloat? x = some (.ofInt k) := by
  unfold compareIntFloat Extended.ofFloat?
  rw [Binary64.ofFloat_eq]
  cases hx : x.toModel.unpack with
  | notANumber => simp [Binary64.ofUnpacked, Extended.ofUnpacked?]
  | infinity s => cases s <;> constructor <;> intro h <;> cases h
  | zero s =>
    have hunits : Extended.units s 0 (-1074) = 0 := by cases s <;> rfl
    have hzero := compare_ratioOf_iff (m := 0) (s := s) (k := k) (le_refl (-1074))
    rwa [hunits] at hzero
  | finite s m e h => exact compare_ratioOf_iff ((normal_or_least hx).elim (·.least) fun hl => by omega)

/-! ## The float of an integer -/

theorem unpack_floatOfBits (s : Sign) {bits} (hn : Normal m e) (h : 0 < m) (hlt : bits < 2 ^ 64)
    (hb : bits = (s.toBitVec.toNat * 2 ^ 11 + (e + 1075).toNat) * 2 ^ 52 + (m - 2 ^ 52)) :
    (floatOfBits bits).toModel.unpack = .finite s m e h := by
  have hword : (UInt64.ofNat bits).toBitVec.toNat = bits := by
    exact Nat.mod_eq_of_lt hlt
  have hmodel : (floatOfBits bits).toModel = pack (unpack .binary64 (UInt64.ofNat bits).toBitVec) := rfl
  rw [hmodel, unpack_of_toNat s hn h (hword.trans hb)]
  exact unpack_pack s hn h

theorem roundDivEven_mul (q : Nat) {den} (hden : 0 < den) : roundDivEven (q * den) den = q := by
  unfold roundDivEven
  simp only [Nat.mul_mod_left, Nat.mul_div_cancel q hden]
  exact if_pos hden

section

variable {n : Nat} (hpos : 0 < n)

include hpos in
theorem lastPlace_whole : lastPlace n 1 = (n.log2 : Int) - 52 := by
  have hlower : 2 ^ n.log2 ≤ n := Nat.log2_self_le (by omega)
  have hone : (Nat.log2 1 : Int) = 0 := rfl
  have hlarge : ¬ (if 0 ≤ (n.log2 : Int) - 0 - 53 then n < 1 * 2 ^ ((n.log2 : Int) - 0 - 53).toNat * 2 ^ 53
      else n * 2 ^ (-((n.log2 : Int) - 0 - 53)).toNat < 1 * 2 ^ 53) := by
    split
    · have hexp : ((n.log2 : Int) - 0 - 53).toNat + 53 = n.log2 := by omega
      rw [Nat.one_mul, ← Nat.pow_add, hexp]
      omega
    · have hexp : n.log2 + (-((n.log2 : Int) - 0 - 53)).toNat = 53 := by omega
      have hmul := Nat.mul_le_mul_right (2 ^ (-((n.log2 : Int) - 0 - 53)).toNat) hlower
      rw [← Nat.pow_add, hexp] at hmul
      omega
  unfold lastPlace
  simp only [hone, twoPow_eq]
  rw [if_neg hlarge]
  omega

variable (hle : n ≤ 2 ^ 53)

include hpos hle in
theorem scaledQuotient_whole : ∃ q, scaledQuotient n 1 ((n.log2 : Int) - 52) = q ∧ 2 ^ 52 ≤ q ∧ q < 2 ^ 53 ∧
    n * 2 ^ (-((n.log2 : Int) - 52)).toNat = q * 2 ^ ((n.log2 : Int) - 52).toNat := by
  have hlower : 2 ^ n.log2 ≤ n := Nat.log2_self_le (by omega)
  have hupper : n < 2 ^ (n.log2 + 1) := Nat.lt_log2_self
  have hlog : n.log2 < 54 := (Nat.log2_lt (by omega)).2 (by omega)
  unfold scaledQuotient
  simp only [twoPow_eq]
  by_cases hsmall : n.log2 ≤ 52
  · have hexp : (-((n.log2 : Int) - 52)).toNat = 52 - n.log2 := by omega
    have hzero : ((n.log2 : Int) - 52).toNat = 0 := by omega
    have hscaled : 2 ^ 52 ≤ n * 2 ^ (52 - n.log2) ∧ n * 2 ^ (52 - n.log2) < 2 ^ 53 := by
      have hlow := Nat.mul_le_mul_right (2 ^ (52 - n.log2)) hlower
      have hhigh := Nat.mul_lt_mul_of_pos_right hupper (Nat.two_pow_pos (52 - n.log2))
      rw [← Nat.pow_add] at hlow hhigh
      have hsum : n.log2 + (52 - n.log2) = 52 := by omega
      have hsum' : n.log2 + 1 + (52 - n.log2) = 53 := by omega
      rw [hsum] at hlow
      rw [hsum'] at hhigh
      exact ⟨hlow, hhigh⟩
    refine ⟨n * 2 ^ (52 - n.log2), ?_, hscaled.1, hscaled.2, ?_⟩
    · rw [hexp, hzero]
      split
      · have hdiff : 52 - n.log2 = 0 := by omega
        rw [hdiff]
        simpa using roundDivEven_mul n Nat.one_pos
      · simpa using roundDivEven_mul (n * 2 ^ (52 - n.log2)) Nat.one_pos
    · rw [hexp, hzero, Nat.pow_zero, Nat.mul_one]
  · -- only one integer has 54 binary digits
    have hlog53 : n.log2 = 53 := by omega
    obtain rfl : n = 2 ^ 52 * 2 := by
      rw [hlog53] at hlower
      omega
    rw [hlog53, if_pos (by decide)]
    exact ⟨2 ^ 52, roundDivEven_mul (2 ^ 52) Nat.two_pos, by decide, by decide, by decide⟩

include hpos hle in
/-- The float nearest to an integer of at most 53 binary digits is that integer. -/
theorem nearestFloat?_whole : ∃ x m e h, nearestFloat? n 1 = some x ∧ x.toModel.unpack = .finite .positive m e h ∧
    Normal m e ∧ n * 2 ^ (-e).toNat = m * 2 ^ e.toNat := by
  obtain ⟨q, hq, hlow, hhigh, hvalue⟩ := scaledQuotient_whole hpos hle
  have hlog : n.log2 < 54 := (Nat.log2_lt (by omega)).2 (by omega)
  have hn : Normal q ((n.log2 : Int) - 52) := ⟨hlow, hhigh, by omega, by omega⟩
  have hexp : ((n.log2 : Int) - 52 + 1074).toNat = n.log2 + 1022 := by omega
  refine ⟨floatOfBits ((n.log2 + 1022) * 2 ^ 52 + q), q, (n.log2 : Int) - 52, by omega, ?_, ?_, hn, hvalue⟩
  · have hbits : (if q < 2 ^ 52 then q else (n.log2 + 1022) * 2 ^ 52 + q) = (n.log2 + 1022) * 2 ^ 52 + q :=
      if_neg (by omega)
    unfold nearestFloat?
    simp only [lastPlace_whole hpos, hq, twoPow_eq, hexp, hbits]
    rw [if_neg (by omega), if_pos (by omega)]
  · refine unpack_floatOfBits .positive hn (by omega) (by omega) ?_
    have hpositive : Sign.positive.toBitVec.toNat = 0 := rfl
    rw [hpositive]
    omega

end

theorem unpack_neg {s h} (hn : Normal m e) (hx : x.toModel.unpack = .finite s m e h) :
    (-x).toModel.unpack = .finite (-s) m e h := by
  have hmodel : (-x).toModel = pack x.toModel.unpack.neg := rfl
  rw [hmodel, hx]
  exact unpack_pack (-s) hn h

theorem decimalLength_le {n} (hn : n ≤ 2 ^ 53) : decimalLength n ≤ 16 :=
  (Nat.length_toDigits_le_iff (by decide) (by decide)).2 (by omega)

/-- The decimal digits of an integer are read as that integer, with a sign too. -/
theorem ofFloat?_floatOfParts {n} (hn : n ≤ 2 ^ 53) :
    Extended.ofFloat? (floatOfParts n 0) = some (.ofInt n) ∧ Extended.ofFloat? (-floatOfParts n 0) = some (.ofInt (-n)) := by
  by_cases h0 : n = 0
  · subst h0
    exact ⟨congrArg some Extended.ofInt_zero.symm, congrArg some Extended.ofInt_zero.symm⟩
  · have hlength := decimalLength_le hn
    obtain ⟨x, m, e, h, hnear, hx, hnormal, hvalue⟩ := nearestFloat?_whole (pos_of_ne_zero h0) hn
    have hparts : floatOfParts n 0 = x := by
      have hscale : n * tenPow (0 : Int).toNat = n := mul_one n
      unfold floatOfParts floatOfDecimal
      dsimp only
      rw [if_neg h0, if_neg (by omega), if_neg (by omega), hscale, hnear]
      rfl
    have hcast : (n : Int) * 2 ^ (-e).toNat = (m * 2 ^ e.toNat : Nat) := by exact_mod_cast hvalue
    have hunits (s : Sign) {k : Int} (hk : k * 2 ^ (-e).toNat = s.apply (m * 2 ^ e.toNat : Nat)) :
        Extended.ofUnpacked? (.finite s m e h) = some (.ofInt k) :=
      congrArg (some ∘ Extended.finite) ((Extended.units_eq_iff hnormal.least).2 hk)
    rw [hparts, Extended.ofFloat?, Extended.ofFloat?, unpack_neg hnormal hx, hx]
    refine ⟨hunits .positive hcast, hunits .negative ?_⟩
    rw [neg_mul, hcast]
    rfl

/-! ## Whole numbers -/

theorem natAbs_apply (s : Sign) (n : Nat) : (s.apply n).natAbs = n := by
  cases s <;> simp [Sign.apply]

theorem truncFloat_of_value (hx : Extended.ofFloat? x = some (.ofInt k)) : truncFloat x = .ok k := by
  unfold truncFloat
  rw [Binary64.ofFloat_eq]
  unfold Extended.ofFloat? at hx
  cases hu : x.toModel.unpack with
  | notANumber | infinity s =>
    rw [hu] at hx
    cases hx
  | zero s =>
    rw [hu] at hx
    obtain rfl := Extended.ofInt_inj.1 ((Option.some.inj hx).symm.trans Extended.ofInt_zero.symm)
    cases s <;> rfl
  | finite s m e h =>
    rw [hu] at hx
    have he : -1074 ≤ e := (normal_or_least hu).elim (·.least) fun hl => by omega
    have hvalue := (Extended.units_eq_iff he).1 (Extended.finite.inj (Option.some.inj hx))
    have hmagnitude : (if 0 ≤ e then m * twoPow e.toNat else m / twoPow (-e).toNat) = k.natAbs := by
      have habs := congrArg Int.natAbs hvalue
      rw [Int.natAbs_mul, natAbs_apply, Int.natAbs_pow] at habs
      rw [twoPow_eq, twoPow_eq]
      split
      · have hzero : (-e).toNat = 0 := by omega
        rw [← habs, hzero, pow_zero, mul_one]
      · have hzero : e.toNat = 0 := by omega
        rw [hzero, pow_zero, mul_one] at habs
        rw [← habs]
        exact Nat.mul_div_cancel _ (Nat.two_pow_pos _)
    rw [Binary64.ofUnpacked_finite]
    simp only [hmagnitude]
    have hpos : (0 : Int) < 2 ^ (-e).toNat := Int.pow_pos (by decide)
    cases s with
    | negative =>
      have hk : k * 2 ^ (-e).toNat ≤ 0 * 2 ^ (-e).toNat := by
        rw [hvalue, zero_mul]
        exact neg_nonpos_of_nonneg (Int.natCast_nonneg _)
      have hk' : k ≤ 0 := le_of_mul_le_mul_right hk hpos
      exact congrArg Except.ok (show -(k.natAbs : Int) = k by omega)
    | positive =>
      have hk : 0 * 2 ^ (-e).toNat ≤ k * 2 ^ (-e).toNat := by
        rw [hvalue, zero_mul]
        exact Int.natCast_nonneg _
      have hk' : 0 ≤ k := le_of_mul_le_mul_right hk hpos
      exact congrArg Except.ok (show (k.natAbs : Int) = k by omega)

/-- The exact value of a real number, if it is one. -/
def Real.value? : Real → Option Extended
  | .int n => some (.ofInt n)
  | .float x => Extended.ofFloat? x

theorem Real.compare_iff {r r' : Real} : r.compare r' = some .eq ↔ ∃ v, r.value? = some v ∧ r'.value? = some v := by
  cases r with
  | int k =>
    cases r' with
    | int k' =>
      simp only [compare, value?, Option.some.injEq, compare_eq_iff_eq, exists_eq_left', Extended.ofInt_inj]
      exact eq_comm
    | float y => simp [compare, value?, compareIntFloat_iff]
  | float x =>
    cases r' with
    | int k' =>
      have hswap : (compareIntFloat k' x).map Ordering.swap = some .eq ↔ compareIntFloat k' x = some .eq := by
        cases compareIntFloat k' x with
        | none => simp
        | some o => cases o <;> simp
      simp [compare, value?, hswap, compareIntFloat_iff]
    | float y =>
      have hlt : x < y → (x == y) = false := by
        intro hlt
        have hcompare : (x.toModel.unpack.compare y.toModel.unpack == some .lt) = true := of_decide_eq_true hlt
        show (x.toModel.unpack.compare y.toModel.unpack == some .eq) = false
        rw [eq_of_beq hcompare]
        rfl
      rw [value?, value?, ← beq_iff, compare]
      split
      · next h => simp [hlt h]
      · split
        · next h => simp [h]
        · next h => split <;> simp [h]

/-- The real and the imaginary part of a number. -/
def Numeric.parts : Numeric → Real × Real
  | .int n => (.int n, .int 0)
  | .bool b => (.int (if b then 1 else 0), .int 0)
  | .float x => (.float x, .int 0)
  | .complex re im => (.float re, .float im)

theorem ofFloat?_ofBool (b : Bool) : Extended.ofFloat? (if b then 1.0 else 0.0) = some (.ofInt (if b then 1 else 0)) := by
  cases b with
  | false => exact congrArg some Extended.ofInt_zero.symm
  | true =>
    have hone : (1.0 : Float).toModel.unpack = .finite .positive (2 ^ 52) (-52) (by decide) :=
      unpack_of_toNat .positive ⟨by decide, by decide, by decide, by decide⟩ _ (by decide +kernel)
    have hunits : Extended.units .positive (2 ^ 52) (-52) = 1 * 2 ^ 1074 := (Extended.units_eq_iff (by decide)).2 (by decide)
    exact congrArg (some ∘ Extended.finite) hunits

section

attribute [local simp] Numeric.eq Numeric.parts Numeric.real? Real.value?

/-- Numbers are equal if their parts have the same values. -/
theorem Numeric.eq_iff {a b : Numeric} : a.eq b = true ↔ (∃ v, a.parts.1.value? = some v ∧ b.parts.1.value? = some v) ∧
      ∃ v, a.parts.2.value? = some v ∧ b.parts.2.value? = some v := by
  have hreal : ∀ r r' : Real, (r.compare r' == some .eq) = true ↔
      (∃ v, r.value? = some v ∧ r'.value? = some v) ∧ ∃ v, (Real.int 0).value? = some v ∧ (Real.int 0).value? = some v := by
    intro r r'
    simp [Real.compare_iff]
  have hzero x : (x == 0.0) = true ↔ Extended.ofFloat? x = some (.ofInt 0) := by
    have := ofFloat?_ofBool false
    simp_all [beq_iff]
  cases a with
  | complex re im =>
    cases b with
    | complex re' im' => simp [beq_iff]
    | int n => simp [hzero, compareIntFloat_iff, and_comm]
    | float x => simp [hzero, beq_iff, and_comm]
    | bool b => simp [hzero, beq_iff, ofFloat?_ofBool, and_comm]
  | int n =>
    cases b with
    | complex re im => simp [hzero, compareIntFloat_iff, and_comm]
    | _ => exact hreal _ _
  | float x =>
    cases b with
    | complex re im => simp [hzero, beq_iff, and_comm]
    | _ => exact hreal _ _
  | bool c =>
    cases b with
    | complex re im => simp [hzero, beq_iff, ofFloat?_ofBool, and_comm]
    | _ => exact hreal _ _

end

namespace Numeric

variable {a b c : Numeric}

theorem eq_comm (a b : Numeric) : a.eq b = b.eq a := by
  rw [Bool.eq_iff_iff, eq_iff, eq_iff]
  simp only [and_comm]

theorem eq_trans (h : a.eq b = true) (h' : b.eq c = true) : a.eq c = true := by
  obtain ⟨⟨v, ha, hb⟩, w, ha', hb'⟩ := eq_iff.1 h
  obtain ⟨⟨v', hv, hc⟩, w', hw, hc'⟩ := eq_iff.1 h'
  cases hb.symm.trans hv
  cases hb'.symm.trans hw
  exact eq_iff.2 ⟨⟨v, ha, hc⟩, w, ha', hc'⟩

/-- The number is equal to its integer part, and that is the given integer. -/
structure IsWhole (n : Numeric) (k : Int) : Prop where
  trunc : n.trunc = .ok k
  eq_int : Numeric.eq (.int k) n = true

/-- Numbers that are one integer are equal. -/
theorem IsWhole.eq (ha : a.IsWhole k) (hb : b.IsWhole k) : a.eq b = true :=
  eq_trans ((eq_comm a _).trans ha.eq_int) hb.eq_int

theorem isWhole_float (hx : Extended.ofFloat? x = some (.ofInt k)) : (Numeric.float x).IsWhole k :=
  ⟨truncFloat_of_value hx, eq_iff.2 ⟨⟨_, rfl, hx⟩, _, rfl, rfl⟩⟩

end Numeric

/-- The text of a whole number that is not too large. -/
theorem intText?_whole (hk : k.natAbs ≤ 2 ^ 53) : intText? k = some (plainIntText k) := by
  have hlength := decimalLength_le hk
  have hlog : .log2 k.natAbs ≤ 53 := by
    by_cases h0 : k.natAbs = 0
    · rw [h0]
      decide
    · exact Nat.le_of_lt_succ ((Nat.log2_lt h0).2 (by omega))
  have hmax : maxDigits = 4300 := rfl
  unfold intText?
  rw [if_neg (by omega), if_neg (by omega)]

end SmallScript.Number
