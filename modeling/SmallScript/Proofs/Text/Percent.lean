import SmallScript.Library.Call
import Mathlib.Data.List.TakeWhile

/-!
# Percent coding can be undone

A text is encoded byte by byte. Each byte is read back from its character or code, `percentBytes_encoded`, and the bytes of
a character together give the character, `decodeFirst_encoded`. An encoded text is in ASCII, so it is decoded as one run:
`urlDecode_urlEncode`.
-/

namespace SmallScript.Text

open List

/-! ## Bytes of characters -/

theorem toList_loop (bytes : ByteArray) (i : Nat) (done : List UInt8) :
    ByteArray.toList.loop bytes i done = done.reverse ++ bytes.data.toList.drop i := by
  fun_induction ByteArray.toList.loop bytes i done with
  | case1 i done hi ih =>
    have hget : bytes.get! i = bytes.data.toList[i] := by
      exact getElem!_pos bytes.data i hi
    rw [ih, reverse_cons, append_assoc, singleton_append, hget, getElem_cons_drop]
  | case2 i done hi =>
    have hdrop : bytes.data.toList.drop i = [] := drop_eq_nil_of_le (Nat.le_of_not_lt hi)
    rw [hdrop, append_nil]

theorem toList_toUTF8 (s : String) : s.toUTF8.toList = s.toList.flatMap String.utf8EncodeChar := by
  rw [ByteArray.toList, toList_loop, ← toList_data_toByteArray (l := s.toList.flatMap _)]
  exact congrArg (fun b => b.data.toList) String.utf8Encode_toList.symm

attribute [local simp] UInt8.lt_iff_toNat_lt UInt8.le_iff_toNat_le

theorem isContinuation_iff {b} : isContinuation b = true ↔ 128 ≤ b.toNat ∧ b.toNat < 192 := by
  simp [isContinuation]

theorem secondAllowed_iff {a b} : secondAllowed a b = true ↔ (128 ≤ b.toNat ∧ b.toNat < 192) ∧
    (a.toNat ≠ 224 ∨ 160 ≤ b.toNat) ∧ (a.toNat ≠ 237 ∨ b.toNat < 160) ∧
    (a.toNat ≠ 240 ∨ 144 ≤ b.toNat) ∧ (a.toNat ≠ 244 ∨ b.toNat < 144) := by
  simp [secondAllowed, isContinuation_iff, ← UInt8.toNat_inj, and_assoc]

theorem exists_byte {n} (h : n < 256) : ∃ b, UInt8.ofNat n = b ∧ b.toNat = n := ⟨_, rfl, UInt8.toNat_ofNat_of_lt' h⟩

theorem decodeFirst_encoded (c : Char) (rest : List UInt8) :
    ∃ b bs, String.utf8EncodeChar c = b :: bs ∧ decodeFirst b (bs ++ rest) = .ok (c, bs.length + 1) := by
  have hvalid : c.toNat < 0xD800 ∨ 0xDFFF < c.toNat ∧ c.toNat < 0x110000 := c.valid
  have hc := Char.ofNat_toNat c
  have hval : c.val.toNat = c.toNat := rfl
  rw [String.utf8EncodeChar]
  simp only [hval]
  generalize c.toNat = n at *
  subst hc
  obtain ⟨low, hlow, hlown⟩ := exists_byte (n := n % 64 + 128) (by omega)
  have hlast : isContinuation low = true := isContinuation_iff.2 (by omega)
  split
  · obtain ⟨b, hb, hbn⟩ := exists_byte (n := n) (by omega)
    refine ⟨b, [], by rw [hb], ?_⟩
    simp [decodeFirst, hbn]
    omega
  split
  · obtain ⟨b, hb, hbn⟩ := exists_byte (n := n / 64 % 32 + 192) (by omega)
    have hn : b.toNat % 32 * 64 + low.toNat % 64 = n := by omega
    refine ⟨b, [low], by rw [hb, hlow], ?_⟩
    simp [decodeFirst, hn, hlast]
    rw [if_neg (by omega), if_neg (by omega), if_pos (by omega)]
  obtain ⟨mid, hmid, hmidn⟩ := exists_byte (n := n / 64 % 64 + 128) (by omega)
  have hthird : isContinuation mid = true := isContinuation_iff.2 (by omega)
  split
  · obtain ⟨b, hb, hbn⟩ := exists_byte (n := n / 4096 % 16 + 224) (by omega)
    have hsecond : secondAllowed b mid = true := secondAllowed_iff.2 (by omega)
    have hn : b.toNat % 16 * 4096 + mid.toNat % 64 * 64 + low.toNat % 64 = n := by omega
    refine ⟨b, [mid, low], by rw [hb, hmid, hlow], ?_⟩
    simp [decodeFirst, hn, hlast, hsecond]
    rw [if_neg (by omega), if_neg (by omega), if_neg (by omega), if_pos (by omega)]
  · obtain ⟨b, hb, hbn⟩ := exists_byte (n := n / 262144 % 8 + 240) (by omega)
    obtain ⟨high, hhigh, hhighn⟩ := exists_byte (n := n / 4096 % 64 + 128) (by omega)
    have hsecond : secondAllowed b high = true := secondAllowed_iff.2 (by omega)
    have hn : b.toNat % 8 * 262144 + high.toNat % 64 * 4096 + mid.toNat % 64 * 64 + low.toNat % 64 = n := by omega
    refine ⟨b, [high, mid, low], by rw [hb, hhigh, hmid, hlow], ?_⟩
    simp [decodeFirst, hn, hlast, hsecond, hthird]
    rw [if_neg (by omega), if_neg (by omega), if_neg (by omega), if_neg (by omega)]

theorem decodeLossyFrom_encoded (cs : List Char) (fuel : Nat) (done : List Char) (h : cs.length ≤ fuel) :
    decodeLossyFrom (fuel + 1) (cs.flatMap String.utf8EncodeChar) done = done.reverse ++ cs := by
  induction cs generalizing fuel done with
  | nil => simp [decodeLossyFrom]
  | cons c cs ih =>
    obtain ⟨b, bs, hbytes, hfirst⟩ := decodeFirst_encoded c (cs.flatMap String.utf8EncodeChar)
    obtain ⟨fuel, rfl⟩ := Nat.exists_eq_add_one.2 (lt_of_lt_of_le (Nat.succ_pos _) h)
    rw [flatMap_cons, hbytes, cons_append, decodeLossyFrom, hfirst]
    simp only [Nat.add_sub_cancel, drop_left]
    rw [ih fuel _ (Nat.le_of_succ_le_succ h), reverse_cons, append_assoc, singleton_append]

/-- A text is what its bytes in UTF-8 are decoded to. -/
theorem decodeLossy_encoded (cs : List Char) : decodeLossy (cs.flatMap String.utf8EncodeChar) = cs := by
  refine decodeLossyFrom_encoded cs _ [] ?_
  induction cs with
  | nil => exact le_refl _
  | cons c cs ih =>
    have hne := length_pos_iff.2 (String.utf8EncodeChar_ne_nil (c := c))
    rw [flatMap_cons, length_append, length_cons]
    omega

/-! ## Percent codes -/

/-- The characters that stand for themselves. -/
def IsSafe (c : Char) : Prop := c.isAlphanum ∨ c ∈ ['_', '.', '-', '~', '/']

/-- Safe characters and percent signs, each with two hexadecimal digits behind it. -/
inductive PercentCoded : List Char → Prop where
  | nil : PercentCoded []
  | safe {c : Char} {cs : List Char} : IsSafe c → PercentCoded cs → PercentCoded (c :: cs)
  | code {a b : Char} {cs : List Char} : a ∈ "0123456789ABCDEF".toList → b ∈ "0123456789ABCDEF".toList →
      PercentCoded cs → PercentCoded ('%' :: a :: b :: cs)

theorem upperHexDigit_spec (n : Nat) : upperHexDigit n ∈ "0123456789ABCDEF".toList ∧
    hexValue? (upperHexDigit n) = some (n % 16) ∧ isAscii (upperHexDigit n) = true := by
  have htable : ∀ k < 16, upperHexDigit k ∈ "0123456789ABCDEF".toList ∧
      hexValue? (upperHexDigit k) = some k ∧ isAscii (upperHexDigit k) = true := by decide +kernel
  have hmod : upperHexDigit n = upperHexDigit (n % 16) := by rw [upperHexDigit, upperHexDigit, Nat.mod_mod]
  rw [hmod]
  exact htable _ (Nat.mod_lt _ (by omega))

theorem isSafeByte_iff {b} : isSafeByte b = true ↔ b.toNat < 128 ∧ IsSafe (Char.ofNat b.toNat) := by
  simp [isSafeByte, IsSafe, or_assoc]

theorem IsSafe.ne_percent {c} (h : IsSafe c) : c ≠ '%' := by
  rintro rfl
  revert h
  simp [IsSafe]

theorem percentBytes_cons {c} (hc : c ≠ '%') (cs : List Char) :
    percentBytes (c :: cs) = UInt8.ofNat c.toNat :: percentBytes cs := by
  rw [percentBytes]
  rintro a b rest heq
  exact absurd heq hc

theorem toNat_ofNat {n} (h : n < 128) : (Char.ofNat n).toNat = n := by
  rw [Char.ofNat, dif_pos (.inl (by omega))]
  rfl

theorem percentBytes_percentByte (b : UInt8) (cs : List Char) : percentBytes (percentByte b ++ cs) = b :: percentBytes cs := by
  unfold percentByte
  split
  · next hsafe =>
    obtain ⟨hsmall, hchar⟩ := isSafeByte_iff.1 hsafe
    rw [singleton_append, percentBytes_cons hchar.ne_percent, toNat_ofNat hsmall, UInt8.ofNat_toNat]
  · have hb := b.toNat_lt
    have hvalue : b.toNat / 16 % 16 * 16 + b.toNat % 16 = b.toNat := by omega
    simp only [cons_append, nil_append, percentBytes, upperHexDigit_spec, hvalue, UInt8.ofNat_toNat]

theorem percentBytes_encoded (bytes : List UInt8) : percentBytes (bytes.flatMap percentByte) = bytes := by
  induction bytes with
  | nil => rfl
  | cons b bytes ih => rw [flatMap_cons, percentBytes_percentByte, ih]

theorem percentCoded_encoded (bytes : List UInt8) : PercentCoded (bytes.flatMap percentByte) := by
  induction bytes with
  | nil => exact .nil
  | cons b bytes ih =>
    rw [flatMap_cons, percentByte]
    split
    · next hsafe => exact .safe (isSafeByte_iff.1 hsafe).2 ih
    · exact .code (upperHexDigit_spec _).1 (upperHexDigit_spec _).1 ih

theorem isAscii_encoded (bytes : List UInt8) : ∀ c ∈ bytes.flatMap percentByte, isAscii c = true := by
  refine forall_mem_flatMap.2 fun b _ c hc => ?_
  unfold percentByte at hc
  split at hc
  · next hsafe =>
    have hsmall := (isSafeByte_iff.1 hsafe).1
    rw [mem_singleton.1 hc, isAscii, toNat_ofNat hsmall, decide_eq_true hsmall]
  · simp only [mem_cons, not_mem_nil, or_false] at hc
    rcases hc with rfl | rfl | rfl
    · rfl
    · exact (upperHexDigit_spec _).2.2
    · exact (upperHexDigit_spec _).2.2

theorem percentBytes_ascii {cs} (hascii : ∀ c ∈ cs, isAscii c = true) (hno : '%' ∉ cs) :
    percentBytes cs = cs.flatMap String.utf8EncodeChar := by
  induction cs with
  | nil => rfl
  | cons c cs ih =>
    rw [forall_mem_cons] at hascii
    rw [mem_cons, not_or] at hno
    have hone : String.utf8EncodeChar c = [.ofNat c.toNat] := by
      exact if_pos (Nat.le_of_lt_succ (of_decide_eq_true hascii.1))
    rw [percentBytes_cons (symm hno.1), ih hascii.2 hno.2, flatMap_cons, hone, singleton_append]

/-- A text in ASCII is decoded as one run. -/
theorem percentDecode_ascii {s} (h : ∀ c ∈ s.toList, isAscii c = true) :
    percentDecode s = String.ofList (decodeLossy (percentBytes s.toList)) := by
  rw [percentDecode]
  split
  · next hpercent =>
    cases hs : s.toList with
    | nil => rfl
    | cons c cs =>
      rw [hs, forall_mem_cons] at h
      have htake : cs.takeWhile isAscii = cs := takeWhile_eq_self_iff.2 h.2
      have hdrop : cs.dropWhile isAscii = [] := dropWhile_eq_nil_iff.2 h.2
      have hend fuel : percentDecodeRuns fuel [] = [] := by cases fuel <;> rfl
      rw [percentDecodeRuns, if_pos h.1, htake, hdrop, hend, append_nil]
  · next hpercent =>
    rw [percentBytes_ascii h (by simpa using hpercent), decodeLossy_encoded, String.ofList_toList]

end SmallScript.Text

namespace SmallScript.Library

open Machine
open Value (ScopeRef)
open Syntax (Pos)
open Text

/-- Encoding a string as a part of an address gives a text of safe characters and percent codes, and decoding gives the
string back. -/
theorem urlDecode_urlEncode (s : String) (scope : ScopeRef) (pos : Pos) (m : Machine) :
    ∃ t : String, call .urlEncode [.str s] scope pos m = (.ok (.str t), m) ∧ PercentCoded t.toList ∧
      call .urlDecode [.str t] scope pos m = (.ok (.str s), m) := by
  have hcoded : PercentCoded (percentEncode s).toList := by
    rw [percentEncode, String.toList_ofList]
    exact percentCoded_encoded _
  have hascii : ∀ c ∈ (percentEncode s).toList, isAscii c = true := by
    rw [percentEncode, String.toList_ofList]
    exact isAscii_encoded _
  have hdecoded : percentDecode (percentEncode s) = s := by
    rw [percentDecode_ascii hascii, percentEncode, String.toList_ofList, percentBytes_encoded, toList_toUTF8,
      decodeLossy_encoded, String.ofList_toList]
  refine ⟨percentEncode s, rfl, hcoded, ?_⟩
  change (pure (.str (percentDecode (percentEncode s))) : Action Value) m = _
  rw [hdecoded]
  rfl

end SmallScript.Library
